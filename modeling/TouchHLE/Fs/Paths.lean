/-
Paths (`fs.rs`): strings whose components are separated by slashes. The host reads its paths in the same way.

- `applyPathComponent`, `resolvePath`: the components of a path.
- `joinPath`: the path of components. `hostJoin`: `PathBuf::join`.
- `Proper`: a name of a single file or directory.
- `resolvePath_proper`: what paths resolve to.
-/
import TouchHLE.Lib.Machine
import TouchHLE.Lib.Separated
import TouchHLE.Panic

namespace TouchHLE

open Machine

/-- a path of the guest or of the host -/
abbrev Path := List Char

/-- a component of a path -/
abbrev Component := List Char

namespace Fs

def dot : Component := ['.']

def dotDot : Component := ['.', '.']

def applyPathComponent (components : List Component) (component : Component) : List Component :=
  if component = [] then components
  else if component = dot then components
  else if component = dotDot then components.dropLast
  else components ++ [component]

/-- the components of a path are applied one after the other -/
def applyPath (components : List Component) (path : Path) : List Component :=
  (path.splitOn '/').foldl applyPathComponent components

def resolvePath (path : Path) (relativeTo : Option Path) : Except Panic (List Component) :=
  if path.head? ≠ some '/' then do
    let relativeTo ← unwrap relativeTo .relativePath
    assert (relativeTo.head? == some '/') .relativePath
    pure (applyPath (applyPath [] relativeTo) path)
  else pure (applyPath [] path)

/-- the absolute path of components, as `change_working_directory` builds it -/
def joinPath (components : List Component) : Path :=
  if components = [] then ['/'] else components.flatMap ('/' :: ·)

/-- `Path::join` -/
def hostJoin (path : Path) (name : Component) : Path :=
  if name.head? = some '/' then name
  else if path = [] ∨ path.getLast? = some '/' then path ++ name
  else path ++ '/' :: name

/-- the name of a single file or directory -/
structure Proper (name : Component) : Prop where
  ne_nil : name ≠ []
  ne_dot : name ≠ dot
  ne_dotDot : name ≠ dotDot
  no_slash : '/' ∉ name

instance (name : Component) : Decidable (Proper name) :=
  decidable_of_iff (name ≠ [] ∧ name ≠ dot ∧ name ≠ dotDot ∧ '/' ∉ name)
    ⟨fun ⟨h1, h2, h3, h4⟩ => ⟨h1, h2, h3, h4⟩, fun h => ⟨h.ne_nil, h.ne_dot, h.ne_dotDot, h.no_slash⟩⟩

variable {path path' d : Path} {components cs names : List Component} {name : Component} {relativeTo : Option Path}

/-! ## Components -/

theorem applyPathComponent_proper (h : ∀ c ∈ components, Proper c) (hname : '/' ∉ name) :
    ∀ c ∈ applyPathComponent components name, Proper c := by
  intro c hc
  unfold applyPathComponent at hc
  split_ifs at hc with hnil hdot hdotDot
  · exact h c hc
  · exact h c hc
  · exact h c (List.mem_of_mem_dropLast hc)
  · rcases List.mem_append.1 hc with hc | hc
    · exact h c hc
    · rw [List.mem_singleton.1 hc]
      exact ⟨hnil, hdot, hdotDot, hname⟩

theorem foldl_proper (h : ∀ c ∈ components, Proper c) (hnames : ∀ name ∈ names, '/' ∉ name) :
    ∀ c ∈ names.foldl applyPathComponent components, Proper c := by
  induction names generalizing components with
  | nil => exact h
  | cons name names ih =>
    refine ih (applyPathComponent_proper h (hnames name List.mem_cons_self)) fun n hn => ?_
    exact hnames n (List.mem_cons_of_mem _ hn)

theorem applyPath_proper (h : ∀ c ∈ components, Proper c) : ∀ c ∈ applyPath components path, Proper c :=
  foldl_proper h fun _ => Separated.notMem_of_mem_splitOn

/-- a name that is applied is pushed -/
theorem applyPathComponent_of_proper (h : Proper name) : applyPathComponent components name = components ++ [name] := by
  rw [applyPathComponent, if_neg h.ne_nil, if_neg h.ne_dot, if_neg h.ne_dotDot]

/-- a path and another one after a slash -/
theorem applyPath_append : applyPath components (path ++ '/' :: path') = applyPath (applyPath components path) path' := by
  rw [applyPath, List.splitOn_append_cons_self, List.foldl_append]
  rfl

@[simp] theorem applyPath_nil : applyPath components [] = components := rfl

theorem applyPath_name (h : Proper name) : applyPath components name = components ++ [name] := by
  rw [applyPath, List.splitOn_eq_singleton h.no_slash, List.foldl_cons, List.foldl_nil, applyPathComponent_of_proper h]

theorem applyPath_flatMap (h : ∀ c ∈ names, Proper c) : applyPath components (names.flatMap ('/' :: ·)) = components ++ names := by
  induction names using List.reverseRecOn with
  | nil => rw [List.flatMap_nil, applyPath_nil, List.append_nil]
  | append_singleton names name ih =>
    rw [List.flatMap_append, List.flatMap_singleton, applyPath_append, ih fun c hc => h c (List.mem_append_left _ hc),
      applyPath_name (h name (List.mem_append_right _ List.mem_cons_self)), List.append_assoc]

/-- **The path of components** has these components. -/
theorem applyPath_joinPath (h : ∀ c ∈ cs, Proper c) : applyPath [] (joinPath cs) = cs := by
  unfold joinPath
  split_ifs with hnil
  · rw [hnil]
    rfl
  · exact applyPath_flatMap h

theorem joinPath_absolute : (joinPath cs).head? = some '/' := by
  cases cs with
  | nil => rfl
  | cons c cs => rfl

/-! ## Resolution -/

theorem resolvePath_absolute (h : path.head? = some '/') :
    resolvePath path relativeTo = .ok (applyPath [] path) := if_neg (not_not.2 h)

theorem resolvePath_relative (h : path.head? ≠ some '/') (hd : d.head? = some '/') :
    resolvePath path (some d) = .ok (applyPath (applyPath [] d) path) := by
  rw [resolvePath, if_pos h, unwrap, ok_bind, assert_ok (beq_iff_eq.2 hd), ok_bind]
  rfl

theorem resolvePath_proper (h : resolvePath path relativeTo = .ok cs) : ∀ c ∈ cs, Proper c := by
  unfold resolvePath at h
  split_ifs at h
  · obtain ⟨d, -, h⟩ := bind_eq_ok.1 h
    obtain ⟨-, -, h⟩ := bind_eq_ok.1 h
    cases h
    exact applyPath_proper (applyPath_proper (nofun))
  · cases h
    exact applyPath_proper (nofun)

/-! ## Paths of the host -/

/-- the components of a path of the host -/
def hostComponents (path : Path) : List Component := applyPath [] path

/-- **A name that is joined** to a path of the host is one more component of it. -/
theorem hostComponents_join (h : Proper name) : hostComponents (hostJoin path name) = hostComponents path ++ [name] := by
  have hhead : name.head? ≠ some '/' := by
    intro hhead
    obtain ⟨rest, rfl⟩ := List.head?_eq_some_iff.1 hhead
    exact h.no_slash List.mem_cons_self
  unfold hostJoin
  rw [if_neg hhead]
  split_ifs with hend
  · rcases hend with rfl | hend
    · rw [List.nil_append]
      exact applyPath_name h
    · -- the path ends in a slash already
      obtain ⟨init, rfl⟩ := List.getLast?_eq_some_iff.1 hend
      have hinit : hostComponents (init ++ ['/']) = hostComponents init := applyPath_append
      rw [hinit, hostComponents, List.append_assoc, List.singleton_append, applyPath_append]
      exact applyPath_name h
  · rw [hostComponents, applyPath_append]
    exact applyPath_name h

end Fs

end TouchHLE
