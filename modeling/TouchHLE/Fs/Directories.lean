/-
The working directory, and the directories that `create_dir_all` makes.

- `Normal`: an absolute path without anything that is resolved away.
- `path_resolution`: what a path resolves to, and what becomes of the working directory.
- `createDirs_extends`: the loop of `create_dir_all`.
- `createDirAll_iff`: when its result is right. `file_in_the_way`: a file that has the name of the directory.
-/
import TouchHLE.Fs.Actions

namespace TouchHLE.Fs

open Machine

/-- an absolute path without `.`, `..`, empty components and a slash at the end -/
def Normal (path : Path) : Prop := ∃ cs, (∀ c ∈ cs, Proper c) ∧ path = joinPath cs

/-- **Resolution of paths.** The components that a path resolves to are names; they do not depend on the directory when the path is
absolute, and are those of both together when it is not; resolving them again gives them back. And the working directory stays
absolute and normal, is only set to a directory that there is, and stays the same otherwise. -/
theorem path_resolution :
    (∀ path d : Path, d.head? = some '/' → ∃ cs, resolvePath path (some d) = .ok cs ∧ (∀ c ∈ cs, Proper c) ∧
      (path.head? = some '/' → ∀ relativeTo, resolvePath path relativeTo = .ok cs) ∧
      (path.head? ≠ some '/' → resolvePath (d ++ '/' :: path) none = .ok cs) ∧
      ∀ relativeTo, resolvePath (joinPath cs) relativeTo = .ok cs) ∧
    ∀ (fs : Fs) (path : Path), Normal fs.workingDirectory → ∃ changed fs', changeWorkingDirectory fs path = .ok (changed, fs') ∧
      fs'.root = fs.root ∧ Normal fs'.workingDirectory ∧
      (changed = true → ∃ cs writeable, resolvePath path (some fs.workingDirectory) = .ok cs ∧ fs'.workingDirectory = joinPath cs ∧
        fs.root.labelAt cs = some (.inr writeable)) ∧
      (changed = false → fs' = fs) := by
  constructor
  · intro path d hd
    by_cases habs : path.head? = some '/'
    · have hproper : ∀ c ∈ applyPath [] path, Proper c := applyPath_proper (fun _ h => by cases h)
      refine ⟨_, resolvePath_absolute habs, hproper, fun _ _ => resolvePath_absolute habs, fun h => absurd habs h, fun relativeTo => ?_⟩
      rw [resolvePath_absolute joinPath_absolute, applyPath_joinPath hproper]
    · have hproper : ∀ c ∈ applyPath (applyPath [] d) path, Proper c :=
        applyPath_proper (applyPath_proper fun _ h => by cases h)
      refine ⟨_, resolvePath_relative habs hd, hproper, fun h => absurd h habs, fun _ => ?_, fun relativeTo => ?_⟩
      · have hhead : (d ++ '/' :: path).head? = some '/' := by
          obtain ⟨rest, rfl⟩ := List.head?_eq_some_iff.1 hd
          rfl
        rw [resolvePath_absolute hhead, applyPath_append]
      · rw [resolvePath_absolute joinPath_absolute, applyPath_joinPath hproper]
  · rintro fs path ⟨wd, hwd, hjoin⟩
    obtain ⟨cs, hresolve⟩ : ∃ cs, resolvePath path (some fs.workingDirectory) = .ok cs := by
      rw [hjoin]
      by_cases habs : path.head? = some '/'
      · exact ⟨_, resolvePath_absolute habs⟩
      · exact ⟨_, resolvePath_relative habs joinPath_absolute⟩
    have hproper := resolvePath_proper hresolve
    unfold changeWorkingDirectory
    rw [hresolve, ok_bind]
    split
    · rename_i writeable children hnode
      refine ⟨_, _, rfl, rfl, ⟨cs, hproper, rfl⟩, fun _ => ⟨cs, writeable, rfl, rfl, ?_⟩, (fun h => by cases h)⟩
      exact Tree.labelAt_of_lookup hnode
    · exact ⟨_, _, rfl, rfl, ⟨wd, hwd, hjoin⟩, (fun h => by cases h), fun _ => rfl⟩

/-! ## Directories -/

variable {w w' : World} {path : Path} {cs taken : List Component} {name : Component} {res : Except FsError Unit}

/-- **One directory**: it is made, or everything stays as it is; what is in the way if there is something. -/
theorem createDir_cases (hresolve : resolvePath path (some w.workingDirectory) = .ok (cs ++ [name]))
    (h : createDir w path = .ok (res, w')) : w'.workingDirectory = w.workingDirectory ∧ Extends w.root w'.root ∧
      (res = .ok () → (∃ writeable, w'.root.labelAt (cs ++ [name]) = some (.inr writeable)) ∧
        ∀ c rest, w'.root.labelAt (cs ++ [name] ++ c :: rest) = none) ∧
      (res = .error .alreadyExist → w'.root.labelAt (cs ++ [name]) ≠ none) ∧ (res ≠ .ok () → w'.root = w.root) := by
  unfold createDir lookupParentNode at h
  rw [hresolve, ok_bind, List.getLast?_concat, List.dropLast_concat] at h
  dsimp only at h
  rw [pure_eq_ok, ok_bind] at h
  cases hparent : w.root.lookup cs with
  | none =>
    rw [hparent, Option.map_none] at h
    cases h
    exact ⟨rfl, Extends.refl _, nofun, nofun, fun _ => rfl⟩
  | some parent =>
    rw [hparent, Option.map_some] at h
    cases parent with
    | leaf file =>
      cases h
      exact ⟨rfl, Extends.refl _, nofun, nofun, fun _ => rfl⟩
    | node writeable children =>
      have hlabel : w.root.labelAt (cs ++ [name]) = (Tree.child children name).map Tree.label := Tree.labelAt_child_node hparent
      dsimp only at h
      split_ifs at h with hexists
      · cases h
        refine ⟨rfl, Extends.refl _, nofun, fun _ hnone => ?_, fun _ => rfl⟩
        rw [hlabel, Option.map_eq_none_iff] at hnone
        rw [hnone] at hexists
        cases hexists
      · have hnone : w.root.labelAt (cs ++ [name]) = none := by
          rw [hlabel, Option.not_isSome_iff_eq_none.1 hexists]
          rfl
        cases writeable with
        | none =>
          cases h
          exact ⟨rfl, Extends.refl _, nofun, nofun, fun _ => rfl⟩
        | some dirHostPath =>
          obtain ⟨-, -, h⟩ := bind_eq_ok.1 h
          obtain ⟨w₁, hcall, h⟩ := bind_eq_ok.1 h
          obtain ⟨host, -, rfl⟩ := World.call_cases hcall
          cases h
          refine ⟨rfl, extends_insertAt hnone, fun _ => ⟨⟨_, Tree.labelAt_insertAt hparent []⟩, fun c rest => ?_⟩, nofun,
            fun hne => absurd rfl hne⟩
          rw [List.append_assoc, List.singleton_append]
          exact Tree.labelAt_insertAt hparent _

theorem createDir_exists (hresolve : resolvePath path (some w.workingDirectory) = .ok (cs ++ [name]))
    (h : w.root.labelAt (cs ++ [name]) ≠ none) : createDir w path = .ok (.error .alreadyExist, w) := by
  obtain ⟨writeable, hnode⟩ := Tree.node_above (q := []) h
  obtain ⟨children, hparent⟩ := Tree.lookup_node hnode
  rw [Tree.labelAt_child_node hparent, ne_eq, Option.map_eq_none_iff] at h
  unfold createDir lookupParentNode
  rw [hresolve, ok_bind, List.getLast?_concat, List.dropLast_concat]
  dsimp only
  rw [hparent, pure_eq_ok, ok_bind, Option.map_some]
  dsimp only
  rw [if_pos (Option.isSome_iff_ne_none.2 h)]
  rfl

/-- the path of components that `create_dir_all` has taken -/
theorem resolvePath_taken (relativeTo : Option Path) (h : ∀ c ∈ taken ++ [name], Proper c) :
    resolvePath ((taken ++ [name]).flatMap ('/' :: ·)) relativeTo = .ok (taken ++ [name]) := by
  have hhead : ((taken ++ [name]).flatMap ('/' :: ·)).head? = some '/' := by
    cases taken <;> rfl
  rw [resolvePath_absolute hhead, applyPath_flatMap h, List.nil_append]

/-- **The loop**: everything is still there, and if the result is a success, something is at the path, which is a directory if it
was not there before. -/
theorem createDirs_extends (hproper : ∀ c ∈ taken ++ cs, Proper c) (htaken : w.root.labelAt taken ≠ none)
    (h : createDirs w taken cs = .ok (res, w')) : Extends w.root w'.root ∧
      (res = .ok () → ∃ x, w'.root.labelAt (taken ++ cs) = some x ∧ (x.isRight ∨ w.root.labelAt (taken ++ cs) = some x)) := by
  induction cs generalizing w taken with
  | nil =>
    cases h
    refine ⟨Extends.refl _, fun _ => ?_⟩
    obtain ⟨x, hx⟩ := Option.ne_none_iff_exists'.1 htaken
    rw [List.append_nil]
    exact ⟨x, hx, .inr hx⟩
  | cons name cs ih =>
    have happend : taken ++ name :: cs = taken ++ [name] ++ cs := by
      rw [List.append_assoc, List.singleton_append]
    rw [happend] at hproper ⊢
    obtain ⟨⟨res₁, w₁⟩, hdir, h⟩ := bind_eq_ok.1 h
    have hresolve := resolvePath_taken (some w.workingDirectory) fun c hc => hproper c (List.mem_append_left _ hc)
    obtain ⟨-, hextends, hok, hexist, hsame⟩ := createDir_cases hresolve hdir
    -- what the rest of the loop does
    have hrest (hne : w₁.root.labelAt (taken ++ [name]) ≠ none) (h : createDirs w₁ (taken ++ [name]) cs = .ok (res, w')) :
        Extends w.root w'.root ∧ (res = .ok () → ∃ x, w'.root.labelAt (taken ++ [name] ++ cs) = some x ∧
          (x.isRight ∨ w₁.root.labelAt (taken ++ [name] ++ cs) = some x)) := by
      obtain ⟨hext, hres⟩ := ih hproper hne h
      exact ⟨hextends.trans hext, hres⟩
    cases res₁ with
    | ok u =>
      obtain ⟨⟨writeable, hnode⟩, hnew⟩ := hok rfl
      obtain ⟨hext, hres⟩ := hrest (by rw [hnode]; exact nofun) h
      refine ⟨hext, fun hr => ?_⟩
      obtain ⟨x, hx, hright⟩ := hres hr
      refine ⟨x, hx, .inl ?_⟩
      rcases hright with hright | hold
      · exact hright
      · cases cs with
        | nil =>
          rw [List.append_nil, hnode] at hold
          rw [← Option.some.inj hold]
          rfl
        | cons c cs =>
          -- nothing is below a directory that was just made
          rw [hnew c cs] at hold
          cases hold
    | error e =>
      cases e with
      | alreadyExist =>
        obtain ⟨hext, hres⟩ := hrest (hexist rfl) h
        rw [hsame nofun] at hres
        exact ⟨hext, hres⟩
      | invalidParentDir | nonexistentParentDir | readonlyParentDir =>
        cases h
        exact ⟨hextends, nofun⟩

/-- the loop when everything is there already -/
theorem createDirs_exists (hproper : ∀ c ∈ taken ++ cs, Proper c) (h : w.root.labelAt (taken ++ cs) ≠ none) :
    createDirs w taken cs = .ok (.ok (), w) := by
  induction cs generalizing taken with
  | nil => rfl
  | cons name cs ih =>
    have happend : taken ++ name :: cs = taken ++ [name] ++ cs := by
      rw [List.append_assoc, List.singleton_append]
    rw [happend] at hproper h
    have hresolve := resolvePath_taken (some w.workingDirectory) fun c hc => hproper c (List.mem_append_left _ hc)
    have hthere : w.root.labelAt (taken ++ [name]) ≠ none := fun hnone => h (Tree.labelAt_below_none hnone)
    rw [createDirs, createDir_exists hresolve hthere, ok_bind]
    exact ih hproper h

/-- **What the result promises**: all directories on the way if it is a success; and everything that was there still is. -/
def Delivers (w w' : World) (cs : List Component) : Except FsError Unit → Prop
  | .ok _ => (∀ p, p <+: cs → ∃ writeable, w'.root.labelAt p = some (.inr writeable)) ∧ Extends w.root w'.root
  | .error _ => Extends w.root w'.root

/-- **`create_dir_all`** keeps its promise if and only if the path is not that of a file. -/
theorem createDirAll_iff (w : World) {path : Path} (habs : path.head? = some '/') :
    (∀ res w', createDirAll w path = .ok (res, w') → Delivers w w' (applyPath [] path) res) ↔
      ¬∃ file, w.root.labelAt (applyPath [] path) = some (.inl file) := by
  have hproper : ∀ c ∈ [] ++ applyPath [] path, Proper c := applyPath_proper (fun _ h => by cases h)
  have hloop : createDirAll w path = createDirs w [] (applyPath [] path) := by
    rw [createDirAll, assert_ok (beq_iff_eq.2 habs), ok_bind, resolvePath_absolute habs, ok_bind]
  rw [hloop]
  generalize applyPath [] path = cs at hproper
  constructor
  · rintro hall ⟨file, hfile⟩
    have hdone : createDirs w [] cs = .ok (.ok (), w) := by
      refine createDirs_exists hproper ?_
      rw [List.nil_append, hfile]
      intro h
      cases h
    obtain ⟨writeable, hnode⟩ := (hall _ _ hdone).1 cs List.prefix_rfl
    rw [hfile] at hnode
    cases hnode
  · intro hfile res w' h
    have hroot : w.root.labelAt [] ≠ none := by
      rw [Tree.labelAt, Tree.lookup_nil]
      intro h
      cases h
    obtain ⟨hextends, hsuccess⟩ := createDirs_extends hproper hroot h
    cases res with
    | error e => exact hextends
    | ok u =>
      obtain ⟨x, hx, hkind⟩ := hsuccess rfl
      rw [List.nil_append] at hx hkind
      have hnode : ∃ writeable, x = .inr writeable := by
        cases x with
        | inr writeable => exact ⟨writeable, rfl⟩
        | inl file =>
          rcases hkind with hkind | hkind
          · cases hkind
          · exact absurd ⟨file, hkind⟩ hfile
      obtain ⟨writeable, rfl⟩ := hnode
      refine ⟨?_, hextends⟩
      rintro p ⟨rest, rfl⟩
      cases rest with
      | nil =>
        rw [List.append_nil] at hx
        exact ⟨writeable, hx⟩
      | cons c rest => exact Tree.node_above (by rw [hx]; intro h; cases h)

/-- a directory that can be written to, with a file in it -/
def oneFile : World where
  root := .node none [(['d'], .node (some ['/', 'h']) [(['f'], .leaf ⟨.path ['/', 'h', '/', 'f'], true⟩)])]
  workingDirectory := ['/']
  host := .node () [(['h'], .node () [(['f'], .leaf ())])]
  calls := []

theorem createDirAll_new : (∀ res w', createDirAll oneFile ['/', 'd', '/', 'e', '/', 'g'] = .ok (res, w') →
    Delivers oneFile w' (applyPath [] ['/', 'd', '/', 'e', '/', 'g']) res) ↔
      ¬∃ file, oneFile.root.labelAt (applyPath [] ['/', 'd', '/', 'e', '/', 'g']) = some (.inl file) :=
  createDirAll_iff oneFile rfl

/-- The name of a file counts as a directory that exists. -/
theorem file_in_the_way : createDirAll oneFile ['/', 'd', '/', 'f'] = .ok (.ok (), oneFile) ∧
    ¬Delivers oneFile oneFile (applyPath [] ['/', 'd', '/', 'f']) (.ok ()) := by
  refine ⟨rfl, fun ⟨hdirs, _⟩ => ?_⟩
  obtain ⟨writeable, hnode⟩ := hdirs _ List.prefix_rfl
  have hfile : oneFile.root.labelAt (applyPath [] ['/', 'd', '/', 'f']) = some (.inl ⟨.path ['/', 'h', '/', 'f'], true⟩) := rfl
  rw [hfile] at hnode
  exact nomatch hnode

end TouchHLE.Fs
