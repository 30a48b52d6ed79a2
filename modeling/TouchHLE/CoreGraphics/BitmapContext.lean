/-
Bitmap contexts (`cg_bitmap_context.rs`): how they are created, and which bytes are drawn to. The colors are computed in floating
point: what is written for one is a parameter, and so are the pixels that a transform makes of a rectangle.

- `CGBitmapContextData`, `create`: a context. `bytesPerPixel`, `pixelOffsets`: where its components are.
- `getPixels`, `getPixel`, `putPixel`: the bytes of a context and of a pixel.
- `Raster`, `iterTransformedPixels`, `fillRect`, `drawImage`: what is drawn.
- `Format`: formats whose components are in a pixel. `format_of_components`: all that are accepted are such ones.
- `putInside_total`, `putInside_reads`: when a pixel is put. `disjoint_iff`: when no two share a byte.
- `drawing_iff`, `draws_inside_iff`: when all drawing in a context is inside. `narrow_rows`: a context in which it is not.
-/
import TouchHLE.Lib.Rounding
import TouchHLE.Mem.Realloc

namespace TouchHLE

open Machine Words

/-- the color spaces that there are -/
inductive CGColorSpace where
  | genericRGB
  | genericGray
  | other
deriving DecidableEq

namespace CGBitmapContext

@[match_pattern] abbrev kCGImageAlphaNone : ℕ := 0
@[match_pattern] abbrev kCGImageAlphaPremultipliedLast : ℕ := 1
@[match_pattern] abbrev kCGImageAlphaPremultipliedFirst : ℕ := 2
@[match_pattern] abbrev kCGImageAlphaLast : ℕ := 3
@[match_pattern] abbrev kCGImageAlphaFirst : ℕ := 4
@[match_pattern] abbrev kCGImageAlphaNoneSkipLast : ℕ := 5
@[match_pattern] abbrev kCGImageAlphaNoneSkipFirst : ℕ := 6
@[match_pattern] abbrev kCGImageAlphaOnly : ℕ := 7

def kCGImageByteOrderDefault : ℕ := 0

def kCGImageByteOrder32Big : ℕ := 4 * 2 ^ 12

def kCGBitmapAlphaInfoMask : ℕ := 0x1f

def kCGBitmapByteOrderMask : ℕ := 0x7000

/-! ## Formats -/

/-- `components_for_rgb` and `components_for_gray`, by the numbers of components without alpha and with it -/
def componentsFor (plain alpha : ℕ) (bitmapInfo : ℕ) : Option ℕ :=
  let byteOrder := bitmapInfo &&& kCGBitmapByteOrderMask
  let alphaInfo := bitmapInfo &&& kCGBitmapAlphaInfoMask
  if byteOrder ≠ kCGImageByteOrderDefault ∧ byteOrder ≠ kCGImageByteOrder32Big then none
  else if alphaInfo ||| byteOrder ≠ bitmapInfo then none
  else
    match alphaInfo &&& kCGBitmapAlphaInfoMask with
    | kCGImageAlphaNone => some plain
    | kCGImageAlphaPremultipliedLast => some alpha
    | kCGImageAlphaPremultipliedFirst => some alpha
    | kCGImageAlphaLast => some alpha
    | kCGImageAlphaFirst => some alpha
    | kCGImageAlphaNoneSkipLast => some alpha
    | kCGImageAlphaNoneSkipFirst => some alpha
    | kCGImageAlphaOnly => some 1
    | _ => none

def componentsForRgb (bitmapInfo : ℕ) : Option ℕ := componentsFor 3 4 bitmapInfo

def componentsForGray (bitmapInfo : ℕ) : Option ℕ := componentsFor 1 2 bitmapInfo

def componentCount : CGColorSpace → ℕ → Except Panic ℕ
  | .genericRGB, bitmapInfo => unwrap (componentsForRgb bitmapInfo) .missing
  | .genericGray, bitmapInfo => unwrap (componentsForGray bitmapInfo) .missing
  | .other, _ => throw .unimplemented

/-- where the components are in a pixel -/
structure Offsets where
  r : ℕ
  g : ℕ
  b : ℕ
  a : Option ℕ
deriving DecidableEq

/-- the table of `pixel_offsets` -/
def offsetsOf : CGColorSpace → ℕ → Except Panic Offsets
  | .genericRGB, alphaInfo =>
    match alphaInfo with
    | kCGImageAlphaNone => pure ⟨0, 1, 2, none⟩
    | kCGImageAlphaPremultipliedLast => pure ⟨0, 1, 2, some 3⟩
    | kCGImageAlphaLast => pure ⟨0, 1, 2, some 3⟩
    | kCGImageAlphaPremultipliedFirst => pure ⟨1, 2, 3, some 0⟩
    | kCGImageAlphaFirst => pure ⟨1, 2, 3, some 0⟩
    | kCGImageAlphaNoneSkipLast => pure ⟨0, 1, 2, none⟩
    | kCGImageAlphaNoneSkipFirst => pure ⟨1, 2, 3, none⟩
    | kCGImageAlphaOnly => pure ⟨0, 0, 0, some 0⟩
    | _ => throw .unreachable
  | .genericGray, alphaInfo =>
    match alphaInfo with
    | kCGImageAlphaNone => pure ⟨0, 0, 0, none⟩
    | kCGImageAlphaPremultipliedLast => pure ⟨0, 0, 0, some 1⟩
    | kCGImageAlphaLast => pure ⟨0, 0, 0, some 1⟩
    | kCGImageAlphaPremultipliedFirst => pure ⟨1, 1, 1, some 0⟩
    | kCGImageAlphaFirst => pure ⟨1, 1, 1, some 0⟩
    | kCGImageAlphaNoneSkipLast => pure ⟨0, 0, 0, none⟩
    | kCGImageAlphaNoneSkipFirst => pure ⟨1, 1, 1, none⟩
    | kCGImageAlphaOnly => pure ⟨0, 0, 0, some 0⟩
    | _ => throw .unreachable
  | .other, _ => throw .unimplemented

structure CGBitmapContextData where
  data : ℕ
  dataIsOwned : Bool
  width : ℕ
  height : ℕ
  bitsPerComponent : ℕ
  bytesPerRow : ℕ
  colorSpace : CGColorSpace
  alphaInfo : ℕ

/-- the length of the rows of a buffer of the context itself -/
def ownBytesPerRow (width components bytesPerRow : ℕ) : Except Panic ℕ :=
  if bytesPerRow = 0 then mul32 width components else pure bytesPerRow

/-- `CGBitmapContextCreate`, up to the object for the context -/
def create (h : Heap) (data width height bitsPerComponent bytesPerRow : ℕ) (colorSpace : CGColorSpace) (bitmapInfo : ℕ) :
    Except Panic (CGBitmapContextData × Heap) := do
  assert (bitsPerComponent == 8) .unimplemented
  let components ← componentCount colorSpace bitmapInfo
  let alphaInfo := bitmapInfo &&& kCGBitmapAlphaInfoMask
  if data = 0 then do
    let bytesPerRow ← ownBytesPerRow width components bytesPerRow
    let totalSize ← mul32 bytesPerRow height
    let (data, h) ← h.alloc totalSize
    pure (⟨data, true, width, height, bitsPerComponent, bytesPerRow, colorSpace, alphaInfo⟩, h)
  else do
    assert (bytesPerRow != 0) .missing
    pure (⟨data, false, width, height, bitsPerComponent, bytesPerRow, colorSpace, alphaInfo⟩, h)

/-! ## Pixels -/

/-- what the host computes in floating point: the bytes that are written for a pixel, by the alpha info, the bytes that are there,
the color, and whether it is blended -/
abbrev Shading (Color : Type) := ℕ → UInt8 × UInt8 × UInt8 × Option UInt8 → Color → Bool → UInt8 × UInt8 × UInt8 × UInt8

/-- a `u32` that is converted to `f32` and back -/
def throughF32 (n : ℕ) : ℕ := min ⌊Rounding.significant 24 n⌋.toNat (2 ^ 32 - 1)

section

variable {Color UV : Type} (shade : Shading Color) (d : CGBitmapContextData)

def bytesPerPixel : Except Panic ℕ := do
  assert (d.bitsPerComponent == 8) .unimplemented
  componentCount d.colorSpace d.alphaInfo

def pixelOffsets : Except Panic Offsets := offsetsOf d.colorSpace d.alphaInfo

def getPixels (m : Mem) : Except Panic (List UInt8) := do
  let size ← mul32 d.height d.bytesPerRow
  m.readBytes d.data size

/-- the bytes that the color is computed from -/
def getPixel (pixels : List UInt8) (first : ℕ) : Except Panic (UInt8 × UInt8 × UInt8 × Option UInt8) := do
  let offsets ← pixelOffsets d
  let r ← unwrap pixels[first + offsets.r]? .index
  let g ← unwrap pixels[first + offsets.g]? .index
  let b ← unwrap pixels[first + offsets.b]? .index
  match offsets.a with
  | none => pure (r, g, b, none)
  | some offset => do
    let a ← unwrap pixels[first + offset]? .index
    pure (r, g, b, some a)

/-- `pixels[i] = v` -/
def setByte (pixels : List UInt8) (i : ℕ) (v : UInt8) : Except Panic (List UInt8) :=
  if i < pixels.length then pure (pixels.set i v) else throw .index

/-- `put_pixel` for a pixel of the bitmap, with the row from the top -/
def putInside (pixels : List UInt8) (x row : ℕ) (color : Color) (blend : Bool) : Except Panic (List UInt8) := do
  let pixelSize ← bytesPerPixel d
  let first ← add32 (← mul32 row d.bytesPerRow) (← mul32 x pixelSize)
  let bg ← getPixel d pixels first
  let (r, g, b, a) := shade d.alphaInfo bg color blend
  let offsets ← pixelOffsets d
  if d.alphaInfo = kCGImageAlphaOnly then setByte pixels first a
  else do
    let pixels ← setByte pixels (first + offsets.r) r
    let pixels ← setByte pixels (first + offsets.g) g
    let pixels ← setByte pixels (first + offsets.b) b
    match offsets.a with
    | none => pure pixels
    | some offset => setByte pixels (first + offset) a

def putPixel (pixels : List UInt8) (coords : ℤ × ℤ) (color : Color) (blend : Bool) : Except Panic (List UInt8) :=
  if coords.1 < 0 ∨ coords.2 < 0 then pure pixels
  else if d.width ≤ coords.1.toNat ∨ d.height ≤ coords.2.toNat then pure pixels
  else putInside shade d pixels coords.1.toNat (d.height - 1 - coords.2.toNat) color blend

/-! ## Drawing -/

/-- the pixels that a transformed rectangle covers: their bounds before these are clipped, and which of them are inside, with the
co-ordinates in the rectangle -/
structure Raster (UV : Type) where
  xStart : ℕ
  xEnd : ℕ
  yStart : ℕ
  yEnd : ℕ
  within : ℕ → ℕ → Option UV

/-- `x as i32` of a `u32` -/
def asI32 (x : ℕ) : ℤ := if x < 2 ^ 31 then x else x - 2 ^ 32

def iterTransformedPixels (raster : Raster UV) : List ((ℤ × ℤ) × UV) :=
  let xEnd := min raster.xEnd (throughF32 d.width)
  let yEnd := min raster.yEnd (throughF32 d.height)
  (List.range' raster.yStart (yEnd - raster.yStart)).flatMap fun y =>
    (List.range' raster.xStart (xEnd - raster.xStart)).filterMap fun x =>
      (raster.within x y).map fun uv => ((asI32 x, asI32 y), uv)

/-- the drawer puts pixels in the bytes of the context, whose colors can be missing -/
def drawPixels (m : Mem) (pixels : List ((ℤ × ℤ) × Option Color)) (blend : Bool) : Except Panic Mem := do
  let bytes ← getPixels d m
  let bytes ← pixels.foldlM (fun bytes p =>
    match p.2 with
    | none => pure bytes
    | some color => putPixel shade d bytes p.1 color blend) bytes
  m.writeBytes d.data bytes

def fillRect (m : Mem) (raster : Raster UV) (color : Color) (clear : Bool) : Except Panic Mem :=
  drawPixels shade d m ((iterTransformedPixels d raster).map fun p => (p.1, some color)) (!clear)

/-- an image has no color outside of it -/
def drawImage (m : Mem) (raster : Raster UV) (image : UV → Option Color) : Except Panic Mem :=
  drawPixels shade d m ((iterTransformedPixels d raster).map fun p => (p.1, image p.2)) true

end

/-! ## What the formats have in common -/

namespace Offsets

def list (o : Offsets) : List ℕ := [o.r, o.g, o.b] ++ o.a.toList

/-- the last byte of a pixel that is used -/
def last (o : Offsets) : ℕ := max (max o.r o.g) (max o.b (o.a.getD 0))

theorem le_last {o : Offsets} {k : ℕ} (hk : k ∈ o.list) : k ≤ o.last := by
  obtain ⟨r, g, b, a⟩ := o
  cases a <;> simp [list, last] at hk ⊢ <;> omega

theorem last_mem (o : Offsets) : o.last ∈ o.list := by
  obtain ⟨r, g, b, a⟩ := o
  cases a <;> simp [list, last] <;> omega

end Offsets

variable {Color UV : Type} {shade : Shading Color} {d : CGBitmapContextData} {size : ℕ} {offsets : Offsets}

/-- **A format** whose components are in a pixel -/
structure Format (d : CGBitmapContextData) (size : ℕ) (offsets : Offsets) : Prop where
  bytes : bytesPerPixel d = .ok size
  table : pixelOffsets d = .ok offsets
  lt : ∀ k ∈ offsets.list, k < size
  alphaOnly : d.alphaInfo = kCGImageAlphaOnly → offsets.r = 0

/-- the alpha info by itself has the same components -/
theorem componentsFor_cases {plain alpha bitmapInfo n : ℕ} (h : componentsFor plain alpha bitmapInfo = some n) :
    bitmapInfo &&& kCGBitmapAlphaInfoMask < 8 ∧
      componentsFor plain alpha (bitmapInfo &&& kCGBitmapAlphaInfoMask) = some n := by
  have hmask : (bitmapInfo &&& kCGBitmapAlphaInfoMask) &&& kCGBitmapAlphaInfoMask = bitmapInfo &&& kCGBitmapAlphaInfoMask := by
    rw [Nat.and_assoc, Nat.and_self]
  have horder : (bitmapInfo &&& kCGBitmapAlphaInfoMask) &&& kCGBitmapByteOrderMask = 0 := by
    rw [Nat.and_assoc, show kCGBitmapAlphaInfoMask &&& kCGBitmapByteOrderMask = 0 by decide, Nat.and_zero]
  unfold componentsFor at h
  simp only [hmask] at h
  split_ifs at h
  unfold componentsFor
  simp only [hmask, horder]
  generalize bitmapInfo &&& kCGBitmapAlphaInfoMask = alphaInfo at h
  rw [if_neg (by decide), if_neg (by simp)]
  split at h <;> simp_all

/-- what the table says about the formats that have a number of components -/
def wellPlaced (colorSpace : CGColorSpace) (alphaInfo : ℕ) : Bool :=
  match componentCount colorSpace alphaInfo, offsetsOf colorSpace alphaInfo with
  | .error _, _ => true
  | .ok size, .ok offsets => offsets.list.all (· < size) && (alphaInfo != kCGImageAlphaOnly || offsets.r == 0)
  | .ok _, .error _ => false

theorem wellPlaced_of_lt (colorSpace : CGColorSpace) {alphaInfo : ℕ} (h : alphaInfo < 8) : wellPlaced colorSpace alphaInfo = true := by
  cases colorSpace <;> interval_cases alphaInfo <;> decide

theorem componentCount_cases {colorSpace : CGColorSpace} {bitmapInfo : ℕ} (h : componentCount colorSpace bitmapInfo = .ok size) :
    bitmapInfo &&& kCGBitmapAlphaInfoMask < 8 ∧
      componentCount colorSpace (bitmapInfo &&& kCGBitmapAlphaInfoMask) = .ok size := by
  cases colorSpace with
  | genericRGB =>
    obtain ⟨hlt, hsame⟩ := componentsFor_cases (unwrap_eq_ok.1 h)
    exact ⟨hlt, unwrap_eq_ok.2 hsame⟩
  | genericGray =>
    obtain ⟨hlt, hsame⟩ := componentsFor_cases (unwrap_eq_ok.1 h)
    exact ⟨hlt, unwrap_eq_ok.2 hsame⟩
  | other => cases h

theorem format_of_components {bitmapInfo : ℕ} (hbits : d.bitsPerComponent = 8)
    (halpha : d.alphaInfo = bitmapInfo &&& kCGBitmapAlphaInfoMask)
    (h : componentCount d.colorSpace bitmapInfo = .ok size) : ∃ offsets, Format d size offsets := by
  obtain ⟨hlt, hsame⟩ := componentCount_cases h
  rw [← halpha] at hlt hsame
  have hplaced := wellPlaced_of_lt d.colorSpace hlt
  rw [wellPlaced, hsame] at hplaced
  cases htable : offsetsOf d.colorSpace d.alphaInfo with
  | error e =>
    rw [htable] at hplaced
    cases hplaced
  | ok offsets =>
    rw [htable] at hplaced
    simp only [Bool.and_eq_true, List.all_eq_true, decide_eq_true_eq, Bool.or_eq_true, bne_iff_ne, ne_eq, beq_iff_eq] at hplaced
    refine ⟨offsets, ?_, htable, hplaced.1, fun honly => ?_⟩
    · rw [bytesPerPixel, hbits, hsame]
      rfl
    · exact hplaced.2.resolve_left fun hne => hne honly

/-! ## Pixels -/

variable {pixels pixels' : List UInt8} {first x row : ℕ} {color : Color} {blend : Bool} {v : UInt8} {i : ℕ}

theorem getPixel_total (hf : Format d size offsets) (hin : ∀ k ∈ offsets.list, first + k < pixels.length) :
    ∃ bg, getPixel d pixels first = .ok bg := by
  have hget (k : ℕ) (hk : k ∈ offsets.list) : ∃ v, unwrap pixels[first + k]? Panic.index = .ok v := by
    rw [List.getElem?_eq_getElem (hin k hk)]
    exact ⟨_, rfl⟩
  obtain ⟨r, hr⟩ := hget offsets.r (by simp [Offsets.list])
  obtain ⟨g, hg⟩ := hget offsets.g (by simp [Offsets.list])
  obtain ⟨b, hb⟩ := hget offsets.b (by simp [Offsets.list])
  rw [getPixel, hf.table, ok_bind, hr, ok_bind, hg, ok_bind, hb, ok_bind]
  cases ha : offsets.a with
  | none => exact ⟨_, rfl⟩
  | some k =>
    obtain ⟨a, hk⟩ := hget k (by simp [Offsets.list, ha])
    dsimp only
    rw [hk]
    exact ⟨_, rfl⟩

theorem getPixel_reads {bg : UInt8 × UInt8 × UInt8 × Option UInt8} (hf : Format d size offsets)
    (h : getPixel d pixels first = .ok bg) : ∀ k ∈ offsets.list, first + k < pixels.length := by
  have hlt {k : ℕ} {v : UInt8} (hk : unwrap pixels[first + k]? Panic.index = .ok v) : first + k < pixels.length :=
    (List.getElem?_eq_some_iff.1 (unwrap_eq_ok.1 hk)).1
  rw [getPixel, hf.table, ok_bind] at h
  obtain ⟨r, hr, h⟩ := bind_eq_ok.1 h
  obtain ⟨g, hg, h⟩ := bind_eq_ok.1 h
  obtain ⟨b, hb, h⟩ := bind_eq_ok.1 h
  intro k hk
  simp only [Offsets.list, List.mem_append, List.mem_cons, List.not_mem_nil, or_false, Option.mem_toList] at hk
  rcases hk with (rfl | rfl | rfl) | hk
  · exact hlt hr
  · exact hlt hg
  · exact hlt hb
  · rw [hk] at h
    obtain ⟨a, ha, -⟩ := bind_eq_ok.1 h
    exact hlt ha

theorem setByte_total (h : i < pixels.length) :
    Ends (fun _ => False) (fun l => l.length = pixels.length) (setByte pixels i v) := by
  rw [setByte, if_pos h]
  exact List.length_set

/-- **A pixel** is put if all its bytes are there. -/
theorem putInside_total (hf : Format d size offsets) (hfirst : row * d.bytesPerRow + x * size < 2 ^ 32)
    (hin : ∀ k ∈ offsets.list, row * d.bytesPerRow + x * size + k < pixels.length) :
    Ends (fun _ => False) (fun l => l.length = pixels.length) (putInside shade d pixels x row color blend) := by
  obtain ⟨bg, hbg⟩ := getPixel_total hf hin
  rw [putInside, hf.bytes, ok_bind, mul32_ok (by omega), ok_bind, mul32_ok (by omega), ok_bind, add32_ok hfirst, ok_bind, hbg,
    ok_bind]
  obtain ⟨r, g, b, a⟩ := shade d.alphaInfo bg color blend
  dsimp only
  rw [hf.table, ok_bind]
  split_ifs with honly
  · have hr := hin offsets.r (by simp [Offsets.list])
    rw [hf.alphaOnly honly] at hr
    exact setByte_total hr
  · apply (setByte_total (hin offsets.r (by simp [Offsets.list]))).bind
    intro l₁ h₁
    apply (setByte_total (h₁.symm ▸ hin offsets.g (by simp [Offsets.list]))).bind
    intro l₂ h₂
    rw [h₁] at h₂
    apply (setByte_total (h₂.symm ▸ hin offsets.b (by simp [Offsets.list]))).bind
    intro l₃ h₃
    rw [h₂] at h₃
    cases ha : offsets.a with
    | none => exact h₃
    | some k =>
      apply (setByte_total (h₃.symm ▸ hin k (by simp [Offsets.list, ha]))).mono
      intro l₄ h₄
      exact h₄.trans h₃

theorem putInside_reads (hf : Format d size offsets) (h : putInside shade d pixels x row color blend = .ok pixels') :
    ∀ k ∈ offsets.list, row * d.bytesPerRow + x * size + k < pixels.length := by
  rw [putInside, hf.bytes, ok_bind] at h
  obtain ⟨top, htop, h⟩ := bind_eq_ok.1 h
  obtain ⟨left, hleft, h⟩ := bind_eq_ok.1 h
  obtain ⟨first, hfirst, h⟩ := bind_eq_ok.1 h
  obtain ⟨bg, hbg, -⟩ := bind_eq_ok.1 h
  obtain ⟨rfl, -⟩ := mul32_cases htop
  obtain ⟨rfl, -⟩ := mul32_cases hleft
  obtain ⟨rfl, -⟩ := add32_cases hfirst
  exact getPixel_reads hf hbg

/-! ## Drawing -/

variable {m m' : Mem}

/-- how far co-ordinates go that can be drawn at -/
def reach (n : ℕ) : ℕ := min (min n (throughF32 n)) (2 ^ 31)

/-- no row is too short for the pixels that can be drawn in it -/
def RowsFit (width height bytesPerRow size last : ℕ) : Prop :=
  reach width = 0 ∨ reach height = 0 ∨ (reach width - 1) * size + last < bytesPerRow

theorem used_lt (hrows : RowsFit d.width d.height d.bytesPerRow size offsets.last) {x y k : ℕ} (hx : x < reach d.width)
    (hy : y < reach d.height) (hk : k ∈ offsets.list) :
    (d.height - 1 - y) * d.bytesPerRow + x * size + k < d.height * d.bytesPerRow := by
  have hlast := Offsets.le_last hk
  have hin : x * size + k < d.bytesPerRow := by
    rcases hrows with hzero | hzero | hlt
    · omega
    · omega
    · have hmul : x * size ≤ (reach d.width - 1) * size := Nat.mul_le_mul_right size (by omega)
      omega
  have hyh : y < d.height := lt_of_lt_of_le hy ((min_le_left _ _).trans (min_le_left _ _))
  calc (d.height - 1 - y) * d.bytesPerRow + x * size + k
      < (d.height - 1 - y) * d.bytesPerRow + d.bytesPerRow := by omega
    _ = (d.height - 1 - y + 1) * d.bytesPerRow := (Nat.succ_mul _ _).symm
    _ ≤ d.height * d.bytesPerRow := Nat.mul_le_mul_right _ (by omega)

/-- a byte of the pixel of a place -/
def PixelByte (d : CGBitmapContextData) (size x y b : ℕ) : Prop :=
  ∃ k < size, b = (d.height - 1 - y) * d.bytesPerRow + x * size + k

/-- other places have other bytes -/
def Disjoint (d : CGBitmapContextData) (size : ℕ) : Prop :=
  ∀ x y x' y' b, x < d.width → y < d.height → x' < d.width → y' < d.height →
    PixelByte d size x y b → PixelByte d size x' y' b → x = x' ∧ y = y'

/-- no row reaches into the next one -/
def RowsApart (width height bytesPerRow size : ℕ) : Prop := width = 0 ∨ height ≤ 1 ∨ width * size ≤ bytesPerRow

theorem column_lt {x k width : ℕ} (hx : x < width) (hk : k < size) : x * size + k < width * size :=
  calc x * size + k < x * size + size := by omega
    _ = (x + 1) * size := (Nat.succ_mul _ _).symm
    _ ≤ width * size := Nat.mul_le_mul_right size hx

/-- **Pixels** have bytes of their own if and only if the rows have. -/
theorem disjoint_iff (hsize : 0 < size) : Disjoint d size ↔ RowsApart d.width d.height d.bytesPerRow size := by
  constructor
  · intro hdisjoint
    by_contra hrows
    simp only [RowsApart, not_or, not_le] at hrows
    obtain ⟨hwidth, hheight, hlong⟩ := hrows
    -- the first byte of the second row from the top is also one of the first row
    obtain ⟨-, hy⟩ := hdisjoint 0 (d.height - 2) (d.bytesPerRow / size) (d.height - 1) d.bytesPerRow (by omega) (by omega)
      ((Nat.div_lt_iff_lt_mul hsize).2 hlong) (by omega)
      ⟨0, hsize, by rw [show d.height - 1 - (d.height - 2) = 1 by omega]; simp⟩
      ⟨d.bytesPerRow % size, Nat.mod_lt _ hsize, by rw [Nat.sub_self, Nat.zero_mul, Nat.zero_add, Nat.div_add_mod']⟩
    omega
  · rintro hrows x y x' y' b hx hy hx' hy' ⟨k, hk, rfl⟩ ⟨k', hk', hsame⟩
    have hrow : y = y' := by
      rcases hrows with hzero | hone | hlong
      · omega
      · omega
      · have hin := (column_lt hx hk).trans_le hlong
        have hin' := (column_lt hx' hk').trans_le hlong
        have hdiv : ((d.height - 1 - y) * d.bytesPerRow + x * size + k) / d.bytesPerRow
            = ((d.height - 1 - y') * d.bytesPerRow + x' * size + k') / d.bytesPerRow := by rw [hsame]
        rw [Nat.add_assoc, Nat.add_assoc, Nat.mul_comm _ d.bytesPerRow, Nat.mul_comm _ d.bytesPerRow,
          Nat.mul_add_div (by omega), Nat.mul_add_div (by omega), Nat.div_eq_of_lt hin, Nat.div_eq_of_lt hin'] at hdiv
        omega
    subst hrow
    have hcolumn : x * size + k = x' * size + k' := by omega
    have hdiv : (x * size + k) / size = (x' * size + k') / size := by rw [hcolumn]
    rw [Nat.mul_comm x, Nat.mul_comm x', Nat.mul_add_div hsize, Nat.mul_add_div hsize, Nat.div_eq_of_lt hk,
      Nat.div_eq_of_lt hk'] at hdiv
    exact ⟨hdiv, rfl⟩

theorem throughF32_lt (n : ℕ) : throughF32 n < 2 ^ 32 := by
  unfold throughF32
  omega

theorem iter_reach {raster : Raster UV} {p : (ℤ × ℤ) × UV} (hp : p ∈ iterTransformedPixels d raster) :
    ∃ x y, p.1 = (asI32 x, asI32 y) ∧ x < throughF32 d.width ∧ y < throughF32 d.height := by
  simp only [iterTransformedPixels, List.mem_flatMap, List.mem_filterMap, Option.map_eq_some_iff, List.mem_range'_1] at hp
  obtain ⟨y, hy, x, hx, uv, -, rfl⟩ := hp
  exact ⟨x, y, rfl, by omega, by omega⟩

/-- **The step of a drawing**: a pixel at a place that can be drawn at. -/
theorem putPixel_total (hf : Format d size offsets)
    (hrows : RowsFit d.width d.height d.bytesPerRow size offsets.last) (hsize : d.height * d.bytesPerRow < 2 ^ 32)
    {x y : ℕ} (hx : x < throughF32 d.width) (hy : y < throughF32 d.height)
    (hlen : pixels.length = d.height * d.bytesPerRow) :
    Ends (fun _ => False) (fun l => l.length = d.height * d.bytesPerRow)
      (putPixel shade d pixels (asI32 x, asI32 y) color blend) := by
  have hx' := throughF32_lt d.width
  have hy' := throughF32_lt d.height
  unfold putPixel
  dsimp only
  split_ifs with hneg hout
  · exact hlen
  · exact hlen
  · unfold asI32 at hneg hout ⊢
    split_ifs at hneg hout ⊢ with hx32 hy32
    · rw [Int.toNat_natCast, Int.toNat_natCast] at hout ⊢
      have hxr : x < reach d.width := by
        unfold reach
        omega
      have hyr : y < reach d.height := by
        unfold reach
        omega
      have hin : ∀ k ∈ offsets.list, (d.height - 1 - y) * d.bytesPerRow + x * size + k < pixels.length := by
        intro k hk
        rw [hlen]
        exact used_lt hrows hxr hyr hk
      have hfirst := hin offsets.last offsets.last_mem
      rw [← hlen]
      exact putInside_total hf (by omega) hin
    all_goals omega

theorem getPixels_cases {bytes : List UInt8} (h : getPixels d m = .ok bytes) : d.height * d.bytesPerRow < 2 ^ 32 ∧
    m.InRange d.data (d.height * d.bytesPerRow) ∧ bytes.length = d.height * d.bytesPerRow := by
  obtain ⟨n, hn, h⟩ := bind_eq_ok.1 h
  obtain ⟨rfl, hlt⟩ := mul32_cases hn
  obtain ⟨u, hrange, h⟩ := bind_eq_ok.1 h
  cases h
  exact ⟨hlt, Mem.inRange_of_checkRange hrange, load_length⟩

/-- only bytes of the context change -/
def OnlyInside (d : CGBitmapContextData) (m m' : Mem) : Prop :=
  ∀ a, a < d.data ∨ d.data + d.height * d.bytesPerRow ≤ a → m'.bytes a = m.bytes a

/-- **A drawing** is inside the context if its rows fit. -/
theorem drawPixels_total (hf : Format d size offsets)
    (hrows : RowsFit d.width d.height d.bytesPerRow size offsets.last) (hsize : d.height * d.bytesPerRow < 2 ^ 32)
    (hrange : m.InRange d.data (d.height * d.bytesPerRow)) {drawn : List ((ℤ × ℤ) × Option Color)}
    (hdrawn : ∀ p ∈ drawn, ∃ x y, p.1 = (asI32 x, asI32 y) ∧ x < throughF32 d.width ∧ y < throughF32 d.height) :
    ∃ m', drawPixels shade d m drawn blend = .ok m' ∧ OnlyInside d m m' := by
  have hget : getPixels d m = .ok (load m.bytes d.data (d.height * d.bytesPerRow)) := by
    rw [getPixels, mul32_ok hsize, ok_bind, Mem.readBytes, Mem.checkRange_ok hrange]
    rfl
  have hends : Ends (fun _ => False) (OnlyInside d m) (drawPixels shade d m drawn blend) := by
    rw [drawPixels, hget, ok_bind]
    refine Ends.bind (P := fun l => l.length = d.height * d.bytesPerRow) (ends_foldlM (fun l hl p hp => ?_) load_length) ?_
    · obtain ⟨x, y, hp, hx, hy⟩ := hdrawn p hp
      cases p.2 with
      | none => exact hl
      | some color =>
        rw [hp]
        exact putPixel_total hf hrows hsize hx hy hl
    · intro l hl
      rw [Mem.writeBytes, Mem.checkRange_ok (by rwa [hl])]
      intro a ha
      exact store_outside (by rwa [hl])
  cases h : drawPixels shade d m drawn blend with
  | error e => exact (hends.error h).elim
  | ok m' => exact ⟨m', rfl, hends.ok h⟩

/-! ## Contexts -/

variable {h h' : Heap} {data width height bitsPerComponent bytesPerRow bitmapInfo : ℕ} {colorSpace : CGColorSpace}

/-- **What drawing in a context should do** -/
structure DrawsInside (UV : Type) (shade : Shading Color) (d : CGBitmapContextData) (m : Mem) : Prop where
  fills : ∀ (raster : Raster UV) color clear, ∃ m', fillRect shade d m raster color clear = .ok m' ∧ OnlyInside d m m'
  images : ∀ (raster : Raster UV) image, ∃ m', drawImage shade d m raster image = .ok m' ∧ OnlyInside d m m'
  disjoint : ∀ size, bytesPerPixel d = .ok size → Disjoint d size

/-- the size of a pixel and its last byte that is used -/
def sizeOf (colorSpace : CGColorSpace) (bitmapInfo : ℕ) : ℕ := (componentCount colorSpace bitmapInfo).toOption.getD 0

def lastOf (colorSpace : CGColorSpace) (bitmapInfo : ℕ) : ℕ :=
  (offsetsOf colorSpace (bitmapInfo &&& kCGBitmapAlphaInfoMask)).toOption.elim 0 Offsets.last

/-- **The condition**: a buffer of the guest is in memory, and no row is too short for the pixels that can be drawn in it, or for
its own if there are others; without a buffer and a length for the rows there is room for all of them. -/
structure Fits (h : Heap) (data width height bytesPerRow : ℕ) (colorSpace : CGColorSpace) (bitmapInfo : ℕ) : Prop where
  buffer : data = 0 ∨ height * bytesPerRow < 2 ^ 32 ∧ h.toMem.InRange data (height * bytesPerRow)
  rows : data = 0 ∧ bytesPerRow = 0 ∨
    RowsFit width height bytesPerRow (sizeOf colorSpace bitmapInfo) (lastOf colorSpace bitmapInfo) ∧
      RowsApart width height bytesPerRow (sizeOf colorSpace bitmapInfo)

theorem size_pos (hf : Format d size offsets) : 0 < size := (Nat.zero_le _).trans_lt (hf.lt _ offsets.last_mem)

theorem fills_range {UV : Type} [Inhabited UV] [Inhabited Color] (hdraws : DrawsInside UV shade d m) :
    d.height * d.bytesPerRow < 2 ^ 32 ∧ m.InRange d.data (d.height * d.bytesPerRow) := by
  obtain ⟨m', hfill, -⟩ := hdraws.fills ⟨0, 0, 0, 0, fun _ _ => none⟩ default true
  obtain ⟨bytes, hget, -⟩ := bind_eq_ok.1 hfill
  obtain ⟨hsize, hrange, -⟩ := getPixels_cases hget
  exact ⟨hsize, hrange⟩

/-- **The last pixel of the bottom row** that can be drawn needs the length of the row. -/
theorem fills_rows {UV : Type} [Inhabited UV] [Inhabited Color] (hf : Format d size offsets) (hdraws : DrawsInside UV shade d m) :
    RowsFit d.width d.height d.bytesPerRow size offsets.last := by
  by_contra hrows
  simp only [RowsFit, not_or, not_lt] at hrows
  obtain ⟨hwidth, hheight, hshort⟩ := hrows
  obtain ⟨m', hfill, -⟩ := hdraws.fills ⟨reach d.width - 1, reach d.width, 0, 1, fun _ _ => some default⟩ default true
  have hpixel : iterTransformedPixels d ⟨reach d.width - 1, reach d.width, 0, 1, fun _ _ => some (default : UV)⟩
      = [((asI32 (reach d.width - 1), asI32 0), default)] := by
    have hx : min (reach d.width) (throughF32 d.width) - (reach d.width - 1) = 1 := by
      unfold reach at hwidth ⊢
      omega
    have hy : min 1 (throughF32 d.height) - 0 = 1 := by
      unfold reach at hheight
      omega
    simp [iterTransformedPixels, hx, hy]
  rw [fillRect, hpixel] at hfill
  obtain ⟨bytes, hget, hfill⟩ := bind_eq_ok.1 hfill
  obtain ⟨bytes', hput, -⟩ := bind_eq_ok.1 hfill
  obtain ⟨-, -, hlen⟩ := getPixels_cases hget
  have hcolumn : reach d.width - 1 < d.width := by
    unfold reach at hwidth ⊢
    omega
  have hrow : 0 < d.height := by
    unfold reach at hheight
    omega
  have hint : asI32 (reach d.width - 1) = ((reach d.width - 1 : ℕ) : ℤ) := by
    rw [asI32, if_pos]
    unfold reach
    omega
  simp only [List.map_cons, List.map_nil, List.foldlM_cons, List.foldlM_nil, bind_pure] at hput
  rw [putPixel, hint, show asI32 0 = ((0 : ℕ) : ℤ) from rfl] at hput
  dsimp only at hput
  rw [Int.toNat_natCast, Int.toNat_natCast, if_neg (by omega), if_neg (by omega)] at hput
  have hread := putInside_reads hf hput offsets.last offsets.last_mem
  rw [hlen, Nat.sub_zero] at hread
  have hrows : d.height * d.bytesPerRow = (d.height - 1) * d.bytesPerRow + d.bytesPerRow := by
    rw [← Nat.succ_mul, Nat.succ_eq_add_one, Nat.sub_add_cancel hrow]
  omega

/-- **Drawing in a context** that was made in some way -/
theorem drawing_iff {UV : Type} [Inhabited UV] [Inhabited Color] (hf : Format d size offsets) :
    DrawsInside UV shade d m ↔ (d.height * d.bytesPerRow < 2 ^ 32 ∧ m.InRange d.data (d.height * d.bytesPerRow)) ∧
      RowsFit d.width d.height d.bytesPerRow size offsets.last ∧ RowsApart d.width d.height d.bytesPerRow size := by
  constructor
  · intro hdraws
    exact ⟨fills_range hdraws, fills_rows hf hdraws, (disjoint_iff (size_pos hf)).1 (hdraws.disjoint size hf.bytes)⟩
  · rintro ⟨⟨hsize, hrange⟩, hrows, hapart⟩
    refine ⟨fun raster color clear => ?_, fun raster image => ?_, fun n hn => ?_⟩
    · apply drawPixels_total hf hrows hsize hrange
      intro p hp
      obtain ⟨q, hq, rfl⟩ := List.mem_map.1 hp
      exact iter_reach (p := q) hq
    · apply drawPixels_total hf hrows hsize hrange
      intro p hp
      obtain ⟨q, hq, rfl⟩ := List.mem_map.1 hp
      exact iter_reach (p := q) hq
    · cases hf.bytes.symm.trans hn
      exact (disjoint_iff (size_pos hf)).2 hapart

/-- what a context has from its creation -/
structure Created (h : Heap) (data width height bytesPerRow : ℕ) (colorSpace : CGColorSpace) (bitmapInfo : ℕ)
    (d : CGBitmapContextData) : Prop where
  own : data = 0 → d.bytesPerRow = (if bytesPerRow = 0 then width * sizeOf colorSpace bitmapInfo else bytesPerRow) ∧
    height * d.bytesPerRow < 2 ^ 32 ∧ h.toMem.InRange d.data (height * d.bytesPerRow)
  guest : data ≠ 0 → d.bytesPerRow = bytesPerRow ∧ d.data = data
  components : componentCount colorSpace bitmapInfo = .ok (sizeOf colorSpace bitmapInfo)
  bits : d.bitsPerComponent = 8
  alphaInfo : d.alphaInfo = bitmapInfo &&& kCGBitmapAlphaInfoMask
  sameWidth : d.width = width
  sameHeight : d.height = height
  sameColorSpace : d.colorSpace = colorSpace

theorem alloc_inRange {n p : ℕ} (hv : h.Valid) (hlt : n < 2 ^ 32) (halloc : h.alloc n = .ok (p, h')) : h.toMem.InRange p n := by
  obtain ⟨c, rfl, hc⟩ := Heap.allocated_of_alloc hv hlt halloc
  have hmem : c ∈ h'.allocator.usedChunks.chunks := hc.chunks.mem_iff.2 List.mem_cons_self
  have hhigh : c.base + c.size ≤ 2 ^ 32 := hc.valid.inv.tiles.inside _ (Mem.Allocator.mem_span (Mem.Allocator.Inv.mem_used hmem))
  have hsize := hc.size_le
  exact ⟨hv.above_null (hc.apart _ c.span_has_base), by omega⟩

theorem create_cases (hv : h.Valid)
    (hcreate : create h data width height bitsPerComponent bytesPerRow colorSpace bitmapInfo = .ok (d, h')) :
    Created h data width height bytesPerRow colorSpace bitmapInfo d := by
  obtain ⟨u, hbits, hcreate⟩ := bind_eq_ok.1 hcreate
  have hbits : bitsPerComponent = 8 := by simpa using assert_eq_ok.1 hbits
  obtain ⟨components, hcomponents, hcreate⟩ := bind_eq_ok.1 hcreate
  have hsizeOf : sizeOf colorSpace bitmapInfo = components := by
    rw [sizeOf, hcomponents]
    rfl
  have hcomponents : componentCount colorSpace bitmapInfo = .ok (sizeOf colorSpace bitmapInfo) := by rw [hsizeOf, hcomponents]
  dsimp only at hcreate
  by_cases hnull : data = 0
  · rw [if_pos hnull] at hcreate
    obtain ⟨stride, hstride, hcreate⟩ := bind_eq_ok.1 hcreate
    obtain ⟨total, htotal, hcreate⟩ := bind_eq_ok.1 hcreate
    obtain ⟨⟨p, h₁⟩, halloc, hcreate⟩ := bind_eq_ok.1 hcreate
    cases hcreate
    obtain ⟨rfl, hlt⟩ := mul32_cases htotal
    have hrange := alloc_inRange hv hlt halloc
    rw [Nat.mul_comm] at hlt hrange
    refine ⟨fun _ => ⟨?_, hlt, hrange⟩, fun hne => absurd hnull hne, hcomponents, hbits, rfl, rfl, rfl, rfl⟩
    rw [hsizeOf]
    unfold ownBytesPerRow at hstride
    split_ifs at hstride ⊢
    · exact (mul32_cases hstride).1
    · exact (Except.ok.inj hstride).symm
  · rw [if_neg hnull] at hcreate
    obtain ⟨v, hrow, hcreate⟩ := bind_eq_ok.1 hcreate
    cases hcreate
    exact ⟨fun hzero => absurd hzero hnull, fun _ => ⟨rfl, rfl⟩, hcomponents, hbits, rfl, rfl, rfl, rfl⟩

/-- **Drawing** is inside if and only if the context fits. -/
theorem draws_inside_iff {UV : Type} [Inhabited UV] [Inhabited Color] (hv : h.Valid)
    (hcreate : create h data width height bitsPerComponent bytesPerRow colorSpace bitmapInfo = .ok (d, h'))
    (hnull : m.nullSegmentSize = h.nullSegmentSize) :
    DrawsInside UV shade d m ↔ Fits h data width height bytesPerRow colorSpace bitmapInfo := by
  have hc := create_cases hv hcreate
  have hcount : componentCount d.colorSpace bitmapInfo = .ok (sizeOf colorSpace bitmapInfo) := by
    rw [hc.sameColorSpace, hc.components]
  obtain ⟨offsets, hf⟩ := format_of_components hc.bits hc.alphaInfo hcount
  have hlast : offsets.last = lastOf colorSpace bitmapInfo := by
    have htable := hf.table
    rw [pixelOffsets, hc.sameColorSpace, hc.alphaInfo] at htable
    rw [lastOf, htable]
    rfl
  have hrange (n : ℕ) : m.InRange d.data n ↔ h.toMem.InRange d.data n := by rw [Mem.InRange, Mem.InRange, hnull]
  rw [drawing_iff hf, hrange, hc.sameWidth, hc.sameHeight]
  by_cases hdata : data = 0
  · obtain ⟨hstride, hsize, hin⟩ := hc.own hdata
    by_cases hzero : bytesPerRow = 0
    · -- the rows have exactly the length that is needed
      rw [if_pos hzero] at hstride
      refine ⟨fun _ => ⟨Or.inl hdata, Or.inl ⟨hdata, hzero⟩⟩, fun _ => ⟨⟨hsize, hin⟩, ?_, Or.inr (Or.inr hstride.ge)⟩⟩
      by_cases hreach : reach width = 0
      · exact Or.inl hreach
      · have hle : reach width ≤ width := (min_le_left _ _).trans (min_le_left _ _)
        rw [hstride]
        exact Or.inr (Or.inr (column_lt (by omega) (hf.lt _ offsets.last_mem)))
    · rw [if_neg hzero] at hstride
      rw [hlast, hstride] at *
      refine ⟨fun hdraws => ⟨Or.inl hdata, Or.inr hdraws.2⟩, fun hfits => ⟨⟨hsize, hin⟩, ?_⟩⟩
      exact hfits.rows.resolve_left fun hboth => hzero hboth.2
  · obtain ⟨hstride, hsame⟩ := hc.guest hdata
    rw [hlast, hstride, hsame]
    refine ⟨fun hdraws => ⟨Or.inr hdraws.1, Or.inr hdraws.2⟩, fun hfits => ⟨?_, ?_⟩⟩
    · exact hfits.buffer.resolve_left hdata
    · exact hfits.rows.resolve_left fun hboth => hdata hboth.1

/-- a host that makes everything black -/
def black : Shading Unit := fun _ _ _ _ => (0, 0, 0, 255)

/-- an RGBA context with a buffer of its own, and the memory that it is made in -/
def sampleContext (width height bytesPerRow : ℕ) : CGBitmapContextData × Heap :=
  (create Heap.twoAllocations 0 width height 8 bytesPerRow .genericRGB kCGImageAlphaPremultipliedLast).toOption.getD
    (⟨0, true, 0, 0, 8, 0, .genericRGB, kCGImageAlphaPremultipliedLast⟩, Heap.twoAllocations)

theorem draws_inside_iff_rgba : DrawsInside Unit black (sampleContext 3 2 0).1 (sampleContext 3 2 0).2.toMem := by
  have hcreate : create Heap.twoAllocations 0 3 2 8 0 .genericRGB kCGImageAlphaPremultipliedLast = .ok (sampleContext 3 2 0) :=
    eq_ok_of_toOption (by decide +kernel)
  exact (draws_inside_iff Heap.twoAllocations_valid hcreate (by decide +kernel)).2 ⟨Or.inl rfl, Or.inl ⟨rfl, rfl⟩⟩

/-- Rows of one byte are accepted for pixels of four: there are no bytes for the ones below. -/
theorem narrow_rows :
    create Heap.twoAllocations 0 2 2 8 1 .genericRGB kCGImageAlphaPremultipliedLast = .ok (sampleContext 2 2 1) ∧
      ¬DrawsInside Unit black (sampleContext 2 2 1).1 (sampleContext 2 2 1).2.toMem := by
  refine ⟨eq_ok_of_toOption (by decide +kernel), fun hdraws => ?_⟩
  obtain ⟨m', hfill, -⟩ := hdraws.fills ⟨0, 2, 0, 2, fun _ _ => some ()⟩ () false
  have hfails : (fillRect black (sampleContext 2 2 1).1 (sampleContext 2 2 1).2.toMem ⟨0, 2, 0, 2, fun _ _ => some ()⟩ ()
      false).toOption.isSome = false := by decide +kernel
  rw [hfill] at hfails
  cases hfails

end CGBitmapContext

end TouchHLE
