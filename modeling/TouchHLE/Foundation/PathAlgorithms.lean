/-
`path_algorithms.rs`: how the path methods of `NSString` cut paths up and put them together. A path is a list of characters.

- `trimTrailingSlashes`, `splitLastPathComponent`, `splitPathComponents`, `splitPathExtension`,
  `stringByAppendingPathComponent`: the functions.
- `components`, `IsAbsolute`: what a path means. `normalised`: the shortest path that means the same.
- `appending_eq`: appending gives a normalised path.
- `path_splits`: the parts of a path make up the path.
-/
import TouchHLE.Lib.Machine
import TouchHLE.Lib.Separated
import TouchHLE.Panic

namespace TouchHLE.PathAlgorithms

open Machine Separated

/-- `starts_with`, for one character -/
def startsWith (c : Char) (path : List Char) : Bool := path.head? == some c

def trimTrailingSlashes (path : List Char) : List Char :=
  let withoutTrailingSlashes := trimEndMatches '/' path
  if withoutTrailingSlashes.isEmpty && startsWith '/' path then ['/'] else withoutTrailingSlashes

/-- everything before the last component, and the last component -/
def splitLastPathComponent (path : List Char) : List Char × List Char :=
  let path := trimTrailingSlashes path
  if path = ['/'] then (['/'], ['/'])
  else
    match rsplitOnce '/' path with
    | some (rest, lastPathComponent) =>
      let rest := if rest.isEmpty && startsWith '/' path then ['/'] else rest
      (rest, lastPathComponent)
    | none => ([], path)

def splitPathComponents (path : List Char) : List (List Char) :=
  let (root, path) := if startsWith '/' path then ([['/']], path.tail) else ([], path)
  let (path, trailingSlash) := if path.getLast? = some '/' then (path.dropLast, true) else (path, false)
  root ++ parts '/' path ++ if trailingSlash then [['/']] else []

/-- everything before the extension, and the extension -/
def splitPathExtension (path : List Char) : Except Panic (List Char × List Char) :=
  let path := trimTrailingSlashes path
  let (_, lastPathComponent) := splitLastPathComponent path
  -- a name that begins with '.' is not an extension
  if lastPathComponent.contains '.' && (!startsWith '.' lastPathComponent || lastPathComponent.tail.contains '.') then
    unwrap (rsplitOnce '.' path) .missing
  else pure (path, [])

def stringByAppendingPathComponent (base component : List Char) : List Char :=
  let components := (base.splitOn '/' ++ component.splitOn '/').filter (!·.isEmpty)
  if startsWith '/' base || base.isEmpty && startsWith '/' component then '/' :: join '/' components
  else join '/' components

/-! ## What paths mean -/

/-- the components that are not empty -/
def components (path : List Char) : List (List Char) := parts '/' path

def IsAbsolute (path : List Char) : Prop := path.head? = some '/'

instance (path : List Char) : Decidable (IsAbsolute path) := inferInstanceAs (Decidable (_ = _))

/-- the path of some components -/
def render (absolute : Bool) (ps : List (List Char)) : List Char := if absolute then '/' :: join '/' ps else join '/' ps

/-- without slashes that are repeated or trailing -/
def normalised (path : List Char) : List Char := render (IsAbsolute path) (components path)

variable {path base component rest ext : List Char} {absolute : Bool} {ps : List (List Char)} {c : Char}

theorem startsWith_iff : startsWith c path = true ↔ path.head? = some c := beq_iff_eq

theorem components_render (h : ∀ p ∈ ps, p ≠ [] ∧ '/' ∉ p) : components (render absolute ps) = ps := by
  rw [render]
  split_ifs
  · exact (parts_cons _ _).trans (parts_join h)
  · exact parts_join h

theorem isAbsolute_render (h : ∀ p ∈ ps, p ≠ [] ∧ '/' ∉ p) : IsAbsolute (render absolute ps) ↔ absolute = true := by
  rw [render]
  split_ifs with habs
  · exact ⟨fun _ => habs, fun _ => rfl⟩
  · exact ⟨fun hhead => absurd hhead (head?_join h), fun h => absurd h habs⟩

theorem render_eq_nil (h : ∀ p ∈ ps, p ≠ [] ∧ '/' ∉ p) : render absolute ps = [] ↔ absolute = false ∧ ps = [] := by
  cases absolute with
  | true => exact ⟨fun hnil => absurd hnil (List.cons_ne_nil _ _), fun h => absurd h.1.symm Bool.false_ne_true⟩
  | false =>
    refine ⟨fun hnil => ⟨rfl, ?_⟩, fun h => h.2 ▸ rfl⟩
    by_contra hps
    exact join_ne_nil h hps hnil

theorem of_mem_components {p : List Char} (h : p ∈ components path) : p ≠ [] ∧ '/' ∉ p := of_mem_parts h

/-- a path of slashes only is empty or absolute -/
theorem components_ne_nil (hne : path ≠ []) (hrelative : ¬IsAbsolute path) : components path ≠ [] := by
  intro hnil
  obtain ⟨c, path, rfl⟩ := List.exists_cons_of_ne_nil hne
  have hflat := parts_flatten '/' (c :: path)
  rw [components] at hnil
  rw [hnil, List.flatten_nil] at hflat
  refine List.filter_eq_nil_iff.1 hflat.symm c List.mem_cons_self (bne_iff_ne.2 fun heq => hrelative ?_)
  rw [IsAbsolute, heq]
  rfl

theorem flatMap_components (h : ∀ p ∈ ps, p ≠ [] ∧ '/' ∉ p) : ps.flatMap components = ps := by
  induction ps with
  | nil => rfl
  | cons p ps ih =>
    obtain ⟨hne, hslash⟩ := h p List.mem_cons_self
    rw [List.flatMap_cons, ih fun q hq => h q (List.mem_cons_of_mem _ hq), components, parts_of_notMem hslash, if_neg hne]
    rfl

theorem components_normalised (path : List Char) : components (normalised path) = components path :=
  components_render fun _ => of_mem_components

theorem isAbsolute_normalised (path : List Char) : IsAbsolute (normalised path) ↔ IsAbsolute path :=
  (isAbsolute_render fun _ => of_mem_components).trans decide_eq_true_iff

/-- **Appending** gives the normalised path of all components. -/
theorem appending_eq (base component : List Char) : stringByAppendingPathComponent base component =
    render (IsAbsolute base ∨ base = [] ∧ IsAbsolute component) (components base ++ components component) := by
  have hcond : (startsWith '/' base || base.isEmpty && startsWith '/' component) =
      decide (IsAbsolute base ∨ base = [] ∧ IsAbsolute component) := by
    rw [Bool.eq_iff_iff, Bool.or_eq_true, Bool.and_eq_true, startsWith_iff, startsWith_iff, List.isEmpty_iff,
      decide_eq_true_iff]
    rfl
  rw [stringByAppendingPathComponent, hcond, List.filter_append]
  rfl

/-! ## Slashes at the end -/

theorem head?_trim (h : trimEndMatches '/' path ≠ []) : (trimEndMatches '/' path).head? = path.head? := by
  obtain ⟨n, hn⟩ := exists_trim '/' path
  obtain ⟨c, l, hl⟩ := List.exists_cons_of_ne_nil h
  conv_rhs => rw [hn]
  rw [hl]
  rfl

/-- a path of slashes -/
theorem components_of_trim_eq_nil (h : trimEndMatches '/' path = []) : components path = [] := by
  rw [components, ← parts_trim, h, parts_nil]

theorem trimTrailingSlashes_cases (path : List Char) :
    IsAbsolute path ∧ trimEndMatches '/' path = [] ∧ trimTrailingSlashes path = ['/'] ∨
      path = [] ∧ trimTrailingSlashes path = [] ∨
      trimEndMatches '/' path ≠ [] ∧ trimTrailingSlashes path = trimEndMatches '/' path := by
  rw [trimTrailingSlashes]
  by_cases hnil : trimEndMatches '/' path = []
  · cases path with
    | nil => exact .inr (.inl ⟨rfl, rfl⟩)
    | cons c path =>
      obtain rfl := trim_eq_nil.1 hnil c List.mem_cons_self
      refine .inl ⟨rfl, hnil, ?_⟩
      rw [hnil]
      rfl
  · refine .inr (.inr ⟨hnil, if_neg ?_⟩)
    rw [Bool.and_eq_true, List.isEmpty_iff]
    exact fun h => hnil h.1

/-! ## The last component -/

/-- a path that is cut at a slash -/
theorem appending_cut (rest last : List Char) :
    stringByAppendingPathComponent (if rest.isEmpty && startsWith '/' (rest ++ '/' :: last) then ['/'] else rest) last =
      normalised (rest ++ '/' :: last) := by
  rw [appending_eq, normalised]
  have hcomponents : components (rest ++ '/' :: last) = components rest ++ components last :=
      parts_append_cons '/' rest last
  rw [hcomponents]
  cases rest with
  | nil => rfl
  | cons c rest =>
    have habsolute : IsAbsolute (c :: rest) ∨ c :: rest = [] ∧ IsAbsolute last ↔ IsAbsolute (c :: rest ++ '/' :: last) := by
      simp [IsAbsolute]
    rw [List.isEmpty_cons, Bool.false_and, if_neg Bool.false_ne_true, decide_eq_decide.2 habsolute]

/-- **The last component** and the rest, put together again, are the normalised path. -/
theorem appending_splitLast (path : List Char) :
    stringByAppendingPathComponent (splitLastPathComponent path).1 (splitLastPathComponent path).2 = normalised path := by
  rw [splitLastPathComponent]
  rcases trimTrailingSlashes_cases path with ⟨habs, hnil, htrim⟩ | ⟨rfl, htrim⟩ | ⟨hne, htrim⟩
  · rw [htrim, if_pos rfl, normalised, components_of_trim_eq_nil hnil, decide_eq_true habs]
    rfl
  · rw [htrim]
    rfl
  · have hroot : trimEndMatches '/' path ≠ ['/'] := fun h => getLast?_trim '/' path (by rw [h]; rfl)
    have habsolute : IsAbsolute (trimEndMatches '/' path) ↔ IsAbsolute path := by
      rw [IsAbsolute, head?_trim hne]
      rfl
    have hnormal : normalised (trimEndMatches '/' path) = normalised path := by
      rw [normalised, normalised, decide_eq_decide.2 habsolute, components, components, parts_trim]
    rw [htrim, if_neg hroot, ← hnormal]
    cases hsplit : rsplitOnce '/' (trimEndMatches '/' path) with
    | none =>
      have hrest : IsAbsolute [] ∨ [] = ([] : List Char) ∧ IsAbsolute (trimEndMatches '/' path) ↔
          IsAbsolute (trimEndMatches '/' path) := by simp [IsAbsolute]
      rw [appending_eq, normalised, decide_eq_decide.2 hrest]
      rfl
    | some cut =>
      obtain ⟨rest, last⟩ := cut
      obtain ⟨hcut, -⟩ := rsplitOnce_eq_some.1 hsplit
      rw [hcut]
      exact appending_cut rest last

/-! ## The extension -/

/-- the last component of a path that has a name in it -/
theorem splitLast_suffix (path : List Char) : (splitLastPathComponent path).2 <:+ trimTrailingSlashes path := by
  rw [splitLastPathComponent]
  split_ifs with hroot
  · rw [hroot]
  · cases hsplit : rsplitOnce '/' (trimTrailingSlashes path) with
    | none => exact List.suffix_refl _
    | some cut =>
      obtain ⟨hcut, -⟩ := rsplitOnce_eq_some.1 hsplit
      rw [hcut]
      exact (List.suffix_cons _ _).trans (List.suffix_append _ _)

/-- a path with a '.' in it is not empty, and is not the root -/
theorem trimTrailingSlashes_of_dot (h : '.' ∈ trimTrailingSlashes path) :
    trimTrailingSlashes path = trimEndMatches '/' path := by
  rcases trimTrailingSlashes_cases path with ⟨-, -, htrim⟩ | ⟨-, htrim⟩ | ⟨-, htrim⟩
  · rw [htrim] at h
    exact absurd h (by decide)
  · rw [htrim] at h
    exact absurd h List.not_mem_nil
  · exact htrim

/-- **The extension** -/
theorem splitPathExtension_spec (path : List Char) : ∃ rest ext, splitPathExtension path = .ok (rest, ext) ∧
    (ext ≠ [] → rest ++ '.' :: ext = trimEndMatches '/' path) := by
  have hunfold : splitPathExtension path =
      if (splitLastPathComponent (trimTrailingSlashes path)).2.contains '.' &&
          (!startsWith '.' (splitLastPathComponent (trimTrailingSlashes path)).2 ||
            (splitLastPathComponent (trimTrailingSlashes path)).2.tail.contains '.') then
        unwrap (rsplitOnce '.' (trimTrailingSlashes path)) .missing
      else pure (trimTrailingSlashes path, []) := rfl
  rw [hunfold]
  split_ifs with hdot
  · rw [Bool.and_eq_true, List.contains_iff_mem] at hdot
    -- the path is trimmed twice
    have htwice : '.' ∈ trimTrailingSlashes (trimTrailingSlashes path) := (splitLast_suffix _).subset hdot.1
    have hmem : '.' ∈ trimTrailingSlashes path := by
      rw [trimTrailingSlashes_of_dot htwice] at htwice
      exact (List.rdropWhile_prefix _ _).subset htwice
    obtain ⟨rest, ext, hcut, hext⟩ := exists_last hmem
    refine ⟨rest, ext, ?_, fun _ => ?_⟩
    · rw [hcut, rsplitOnce_append rest hext]
      rfl
    · rw [← hcut, trimTrailingSlashes_of_dot hmem]
  · exact ⟨_, _, rfl, fun h => absurd rfl h⟩

/-- **The parts of a path make up the path**: its last component, appended to the rest, gives a path with the same
components that is absolute exactly when the path is, and its extension, when there is one, follows the rest and a '.',
up to slashes at the end. -/
theorem path_splits (path : List Char) :
    components (stringByAppendingPathComponent (splitLastPathComponent path).1 (splitLastPathComponent path).2) =
      components path ∧
    (IsAbsolute (stringByAppendingPathComponent (splitLastPathComponent path).1 (splitLastPathComponent path).2) ↔
      IsAbsolute path) ∧
    ∃ rest ext, splitPathExtension path = .ok (rest, ext) ∧ (ext ≠ [] →
      (∃ n, path = rest ++ '.' :: ext ++ List.replicate n '/') ∧ (rest ++ '.' :: ext).getLast? ≠ some '/') := by
  refine ⟨?_, ?_, ?_⟩
  · rw [appending_splitLast, components_normalised]
  · rw [appending_splitLast, isAbsolute_normalised]
  · obtain ⟨rest, ext, hsplit, hback⟩ := splitPathExtension_spec path
    refine ⟨rest, ext, hsplit, fun hne => ?_⟩
    rw [hback hne]
    exact ⟨exists_trim '/' path, getLast?_trim '/' path⟩

example : splitPathExtension "/a/a..png/".toList = .ok ("/a/a.".toList, "png".toList) := by decide

end TouchHLE.PathAlgorithms
