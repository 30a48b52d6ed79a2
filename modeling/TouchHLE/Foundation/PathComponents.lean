/-
`pathComponents` and `pathWithComponents:` (`ns_string.rs`): a path as its components, and back.

- `pathComponents`, `stringByAppendingPathComponent`, `substringFromIndex`, `pathWithComponents`: the methods.
- `roundTrip`: the components of a path, put together again. `Normalises`: what that is to give.
- `roundTrip_eq`: what it gives, which is one code unit less than it should be.
- `round_trip_never`: so it is never right.
-/
import TouchHLE.Foundation.PathAlgorithms
import TouchHLE.Foundation.StringViews

namespace TouchHLE.NSString

open Machine Utf16 Separated PathAlgorithms

def pathComponents (this : StringHostObject) : Except Panic (List StringHostObject) := do
  let string ← unwrap (toUtf8 this) .utf16
  pure ((splitPathComponents string).map .utf8)

def stringByAppendingPathComponent (this component : StringHostObject) : Except Panic StringHostObject := do
  let baseStr ← unwrap (toUtf8 this) .utf16
  let componentStr ← unwrap (toUtf8 component) .utf16
  pure (.utf8 (PathAlgorithms.stringByAppendingPathComponent baseStr componentStr))

def substringFromIndex (this : StringHostObject) (start : ℕ) : StringHostObject := .utf16 ((iterCodeUnits this).drop start)

/-- one turn of the loop of `pathWithComponents:` -/
def appendNext (res next : StringHostObject) : Except Panic StringHostObject := do
  let (utf16, next) := convertToUtf16Inplace next
  assert (utf16.length < 2 ^ 32) .conversion
  if utf16.length = 0 then pure res else stringByAppendingPathComponent res next

def pathWithComponents (components : List StringHostObject) : Except Panic (Option StringHostObject) := do
  assert (components.length < 2 ^ 32) .conversion
  if components.length = 0 then pure none
  else do
    let res ← run appendNext (.utf8 []) components
    -- a leading "/" is taken off, which is not there
    pure (some (substringFromIndex res 1))

def roundTrip (this : StringHostObject) : Except Panic (Option StringHostObject) := do
  let components ← pathComponents this
  pathWithComponents components

/-! ## What the round trip is to give -/

/-- **The purpose**: the same components, absolute exactly when the path is, without slashes that are repeated or
trailing, and the same once more. -/
structure Normalises (path : List Char) (r : StringHostObject) : Prop where
  text : ∃ t, toUtf8 r = some t ∧ components t = components path ∧ (IsAbsolute t ↔ IsAbsolute path) ∧ ¬['/', '/'] <:+: t ∧
    (t = ['/'] ∨ ¬['/'] <:+ t)
  again : ∃ r', roundTrip r = .ok (some r') ∧ iterCodeUnits r' = iterCodeUnits r

/-! ## What it gives -/

variable {path text : List Char} {cs ps : List (List Char)} {absolute : Bool} {res r this : StringHostObject}
  {c : List Char}

theorem parts_dropLast (h : path.getLast? = some '/') : parts '/' path.dropLast = parts '/' path := by
  conv_rhs => rw [← List.dropLast_append_getLast? '/' h, parts_concat]

/-- a slash at the end is a component of its own -/
theorem splitPathComponents_eq (path : List Char) : ∃ trailing : Bool, splitPathComponents path =
    (if IsAbsolute path then [['/']] else []) ++ components path ++ if trailing then [['/']] else [] := by
  refine ⟨decide ((if startsWith '/' path then path.tail else path).getLast? = some '/'), ?_⟩
  have hend : ∀ (root : List (List Char)) (l : List Char),
      (let r := if l.getLast? = some '/' then (l.dropLast, true) else (l, false);
        root ++ parts '/' r.1 ++ if r.2 then [['/']] else []) =
      root ++ parts '/' l ++ if decide (l.getLast? = some '/') then [['/']] else [] := by
    intro root l
    by_cases hlast : l.getLast? = some '/'
    · rw [if_pos hlast, decide_eq_true hlast, ← parts_dropLast hlast]
    · rw [if_neg hlast, decide_eq_false hlast]
  by_cases habs : startsWith '/' path = true
  · obtain ⟨l, rfl⟩ : ∃ l, path = '/' :: l := List.head?_eq_some_iff.1 (startsWith_iff.1 habs)
    have hcomponents : components ('/' :: l) = parts '/' l := parts_cons '/' l
    rw [splitPathComponents, if_pos habs, if_pos habs, if_pos (show IsAbsolute ('/' :: l) from rfl), hcomponents]
    exact hend [['/']] l
  · have hrelative : ¬IsAbsolute path := fun h => habs (startsWith_iff.2 h)
    rw [splitPathComponents, if_neg habs, if_neg habs, if_neg hrelative, components]
    exact hend [] path

theorem encode_ne_nil (h : text ≠ []) : encode text ≠ [] := fun hnil => h (encode_injective (hnil.trans rfl))

theorem appendNext_cases (hc : c ≠ []) (h : appendNext (.utf8 text) (.utf8 c) = .ok r) :
    r = .utf8 (PathAlgorithms.stringByAppendingPathComponent text c) := by
  have hlength : (encode c).length ≠ 0 := fun hz => encode_ne_nil hc (List.length_eq_zero_iff.1 hz)
  obtain ⟨-, -, hr⟩ := bind_eq_ok.1 h
  rw [iterCodeUnits, if_neg hlength, NSString.stringByAppendingPathComponent, toUtf8, toUtf8, decode_encode] at hr
  exact (Except.ok.inj hr).symm

/-- the rest of the loop, once there is something -/
theorem run_appendNext (hps : ∀ p ∈ ps, p ≠ [] ∧ '/' ∉ p) (hne : render absolute ps ≠ []) (hcs : ∀ c ∈ cs, c ≠ [])
    (h : run appendNext (.utf8 (render absolute ps)) (cs.map .utf8) = .ok r) :
    r = .utf8 (render absolute (ps ++ cs.flatMap components)) := by
  induction cs generalizing ps with
  | nil =>
    rw [List.flatMap_nil, List.append_nil]
    exact (Except.ok.inj h).symm
  | cons c cs ih =>
    rw [List.map_cons, run_cons_ok] at h
    obtain ⟨res, hstep, hrun⟩ := h
    obtain rfl := appendNext_cases (hcs c List.mem_cons_self) hstep
    have happend : PathAlgorithms.stringByAppendingPathComponent (render absolute ps) c =
        render absolute (ps ++ components c) := by
      rw [appending_eq, components_render hps]
      congr 1
      rw [Bool.eq_iff_iff, decide_eq_true_iff, isAbsolute_render hps, or_iff_left fun h => hne h.1]
    rw [happend] at hrun
    have hall : ∀ p ∈ ps ++ components c, p ≠ [] ∧ '/' ∉ p := fun p hp =>
      (List.mem_append.1 hp).elim (hps p) of_mem_components
    have hne' : render absolute (ps ++ components c) ≠ [] := by
      rw [Ne, render_eq_nil hall, List.append_eq_nil_iff]
      exact fun h => hne ((render_eq_nil hps).2 ⟨h.1, h.2.1⟩)
    rw [ih hall hne' (fun c' hc' => hcs c' (List.mem_cons_of_mem _ hc')) hrun, List.flatMap_cons, List.append_assoc]

theorem components_first (hne : path ≠ []) : ∃ c cs, splitPathComponents path = c :: cs ∧
    (IsAbsolute c ↔ IsAbsolute path) := by
  obtain ⟨trailing, hsplit⟩ := splitPathComponents_eq path
  rw [hsplit]
  split_ifs with habs
  · exact ⟨['/'], _, rfl, iff_of_true rfl habs⟩
  · exact ⟨['/'], _, rfl, iff_of_true rfl habs⟩
  all_goals
    obtain ⟨c, cs, hcs⟩ := List.exists_cons_of_ne_nil (components_ne_nil hne habs)
    have hc : c ∈ components path := hcs ▸ List.mem_cons_self
    refine ⟨c, _, by rw [hcs]; rfl, iff_of_false (fun h => (of_mem_components hc).2 (List.mem_of_mem_head? h)) habs⟩

theorem of_mem_splitPathComponents (h : c ∈ splitPathComponents path) : c ≠ [] := by
  obtain ⟨trailing, hsplit⟩ := splitPathComponents_eq path
  have hroot : ∀ b : Prop, [Decidable b] → c ∈ (if b then [['/']] else []) → c ≠ [] := by
    intro b _ hc
    split_ifs at hc
    · rw [List.mem_singleton.1 hc]
      exact List.cons_ne_nil _ _
    · exact absurd hc List.not_mem_nil
  rw [hsplit, List.mem_append, List.mem_append] at h
  rcases h with (h | h) | h
  · exact hroot _ h
  · exact (of_mem_components h).1
  · exact hroot _ h

theorem flatMap_splitPathComponents (path : List Char) : (splitPathComponents path).flatMap components =
    components path := by
  obtain ⟨trailing, hsplit⟩ := splitPathComponents_eq path
  have hroot : ∀ b : Prop, [Decidable b] → (if b then [['/']] else []).flatMap components = [] := by
    intro b _
    split_ifs <;> rfl
  rw [hsplit, List.flatMap_append, List.flatMap_append, hroot, hroot, flatMap_components fun _ => of_mem_components]
  exact List.append_nil _

/-- the whole loop, for the components of a path -/
theorem run_components (hne : path ≠ []) (h : run appendNext (.utf8 []) ((splitPathComponents path).map .utf8) = .ok r) :
    r = .utf8 (normalised path) := by
  obtain ⟨c, cs, hcs, habs⟩ := components_first hne
  have hall : ∀ c' ∈ c :: cs, c' ≠ [] := fun c' hc' => of_mem_splitPathComponents (hcs ▸ hc')
  have hflat := flatMap_splitPathComponents path
  rw [hcs, List.flatMap_cons] at hflat
  rw [hcs, List.map_cons, run_cons_ok] at h
  obtain ⟨res, hstep, hrun⟩ := h
  obtain rfl := appendNext_cases (hall c List.mem_cons_self) hstep
  have hfirst : IsAbsolute [] ∨ [] = ([] : List Char) ∧ IsAbsolute c ↔ IsAbsolute path := by
    rw [← habs]
    simp [IsAbsolute]
  rw [appending_eq, decide_eq_decide.2 hfirst] at hrun
  have hne' : render (IsAbsolute path) (components c) ≠ [] := by
    rw [Ne, render_eq_nil fun _ => of_mem_components, decide_eq_false_iff_not, ← habs]
    exact fun h => components_ne_nil (hall c List.mem_cons_self) h.1 h.2
  rw [run_appendNext (fun _ => of_mem_components) hne' (fun c' hc' => hall c' (List.mem_cons_of_mem _ hc')) hrun, hflat]
  rfl

/-- **What the round trip gives**: the normalised path, without its first code unit. -/
theorem roundTrip_eq (h : roundTrip this = .ok (some r)) :
    ∃ path, toUtf8 this = some path ∧ path ≠ [] ∧ r = .utf16 ((encode (normalised path)).drop 1) := by
  rw [roundTrip, pathComponents, bind_assoc] at h
  obtain ⟨path, hpath, h⟩ := bind_eq_ok.1 h
  rw [pure_bind, pathWithComponents] at h
  obtain ⟨-, -, h⟩ := bind_eq_ok.1 h
  split_ifs at h with hcount
  · exact absurd (Except.ok.inj h) (by simp)
  · obtain ⟨res, hrun, h⟩ := bind_eq_ok.1 h
    have hne : path ≠ [] := fun hnil => hcount (by rw [hnil]; rfl)
    obtain rfl := run_components hne hrun
    exact ⟨path, unwrap_eq_ok.1 hpath, hne, (Option.some.inj (Except.ok.inj h)).symm⟩

/-- a text without its first code unit -/
theorem encode_drop {t : List Char} {c : Char} (h : encode t = (encode (c :: text)).drop 1) : t = text := by
  rw [encode_cons] at h
  by_cases hc : c.toNat < 0x10000
  · obtain ⟨u, hu, -, -⟩ := encodeChar_of_lt hc
    rw [hu] at h
    exact encode_injective h
  · obtain ⟨u, v, huv, -, htrail, -⟩ := encodeChar_of_ge hc
    rw [huv] at h
    exact absurd ((head_encode h).symm.trans htrail) Bool.false_ne_true

/-- without its first character, a normalised path is not absolute any more or has lost a character of a component -/
theorem normalised_tail {c : Char} (h : normalised path = c :: text) :
    ¬(components text = components path ∧ (IsAbsolute text ↔ IsAbsolute path)) := by
  rintro ⟨hcomponents, habs⟩
  by_cases habsolute : IsAbsolute path
  · rw [normalised, decide_eq_true habsolute, render, if_pos rfl] at h
    exact head?_join (fun _ => of_mem_components) ((List.cons.inj h).2 ▸ habs.2 habsolute)
  · have hc : c ≠ '/' := by
      intro heq
      have hhead : IsAbsolute (normalised path) := by
        rw [h, heq]
        rfl
      exact habsolute ((isAbsolute_normalised path).1 hhead)
    have hlength := congrArg (fun ps => ps.flatten.length) (hcomponents.trans (components_normalised path).symm)
    simp [components, h, parts_flatten, hc] at hlength

/-- **The round trip is never right**: the first code unit of the path is taken off, and with it its first slash or the
first character of its first component. For the empty path there is no result. -/
theorem round_trip_never (this : StringHostObject) :
    ¬∃ path r, toUtf8 this = some path ∧ roundTrip this = .ok (some r) ∧ Normalises path r := by
  rintro ⟨path, r, hpath, hround, hnormal⟩
  obtain ⟨path', hpath', hne, rfl⟩ := roundTrip_eq hround
  obtain rfl := Option.some.inj (hpath.symm.trans hpath')
  obtain ⟨t, ht, hcomponents, habs, -, -⟩ := hnormal.text
  have hnormalised : normalised path ≠ [] := by
    rw [normalised, Ne, render_eq_nil fun _ => of_mem_components, decide_eq_false_iff_not]
    exact fun h => components_ne_nil hne h.1 h.2
  obtain ⟨c, text, htext⟩ := List.exists_cons_of_ne_nil hnormalised
  rw [toUtf8, htext] at ht
  obtain rfl := encode_drop (encode_of_decode ht)
  exact normalised_tail htext ⟨hcomponents, habs⟩

/-- "/tmp/a", which becomes "tmp/a" -/
theorem round_trip_tmp : roundTrip (.utf8 "/tmp/a".toList) = .ok (some (.utf16 (encode "tmp/a".toList))) ∧
    ¬Normalises "/tmp/a".toList (.utf16 (encode "tmp/a".toList)) := by
  refine ⟨rfl, fun h => ?_⟩
  obtain ⟨t, ht, -, habs, -⟩ := h.text
  rw [toUtf8, decode_encode] at ht
  obtain rfl := Option.some.inj ht
  exact absurd (habs.2 rfl) (by decide)

end TouchHLE.NSString
