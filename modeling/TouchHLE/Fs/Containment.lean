/-
The sandbox of an app: what the file system of the guest does on the host stays inside the writeable directories.

- `Roots`: the directories of the host that are mounted, and where.
- `Mounted`: every writeable node is below such a root and is the file or directory of that name in it.
- `Edit`: the ways in which a call can change the tree.
- `new_mounted`: the file system of an app. `contained`: runs.
-/
import TouchHLE.Fs.Actions

namespace TouchHLE.Fs

open Machine

/-! ## Writeable directories -/

/-- the host path of a node that can be written to -/
def hostPathOf : FileNode ⊕ Option Path → Option Path
  | .inl ⟨.path p, true⟩ => some p
  | .inl _ => none
  | .inr writeable => writeable

/-- the places where directories of the host are mounted -/
abbrev Roots := List (List Component × Path)

/-- the path of the host that is reached from a root -/
def pathBelow (root : Path) (names : List Component) : Path := names.foldl hostJoin root

/-- none of the roots is in another one -/
def Apart (roots : Roots) : Prop := ∀ a ∈ roots, ∀ b ∈ roots, a.1 <+: b.1 → a = b

/-- **What can be written to** is what is in the mounted directories, and its path on the host is that of the root, with the names
on the way to it. -/
structure Mounted (roots : Roots) (t : FsNode) : Prop where
  inside : ∀ a ∈ roots, ∀ rest x, t.labelAt (a.1 ++ rest) = some x → hostPathOf x = some (pathBelow a.2 rest)
  outside : ∀ g x p, t.labelAt g = some x → hostPathOf x = some p → ∃ a ∈ roots, a.1 <+: g
  mount : ∀ a ∈ roots, t.labelAt a.1 = some (.inr (some a.2))

/-- a path strictly below one of the roots: the root with at least one name, and no other component -/
def Below (roots : Roots) (p : Path) : Prop :=
  ∃ a ∈ roots, ∃ names, names ≠ [] ∧ (∀ name ∈ names, Proper name) ∧ p = pathBelow a.2 names

variable {roots : Roots} {t t' c : FsNode} {g parent : List Component} {name : Component} {p d : Path}
  {x : FileNode ⊕ Option Path} {cs : List (Component × FsNode)}

theorem pathBelow_concat {root : Path} {names : List Component} :
    pathBelow root (names ++ [name]) = hostJoin (pathBelow root names) name := by
  rw [pathBelow, List.foldl_append]
  rfl

/-- the root that a writeable node is below -/
theorem Mounted.root_of (hm : Mounted roots t) (hx : t.labelAt g = some x) (hp : hostPathOf x = some p) :
    ∃ a ∈ roots, ∃ rest, g = a.1 ++ rest ∧ p = pathBelow a.2 rest := by
  obtain ⟨a, ha, rest, rfl⟩ := hm.outside g x p hx hp
  refine ⟨a, ha, rest, rfl, ?_⟩
  have hpath := hm.inside a ha rest x hx
  rw [hp] at hpath
  exact Option.some.inj hpath

/-- two roots above the same node are the same -/
theorem Apart.eq (h : Apart roots) {a b : List Component × Path} (ha : a ∈ roots) (hb : b ∈ roots) (hag : a.1 <+: g) (hbg : b.1 <+: g) :
    a = b := by
  rcases List.prefix_or_prefix_of_prefix hag hbg with hab | hba
  · exact h a ha b hb hab
  · exact (h b hb a ha hba).symm

/-- **A child of a writeable directory** is not a root, and is below the same root as the directory. -/
theorem Mounted.child_of (hm : Mounted roots t) (hapart : Apart roots) (name : Component)
    (hparent : t.labelAt parent = some (.inr (some d))) :
    ∃ a ∈ roots, ∃ rest, parent = a.1 ++ rest ∧ d = pathBelow a.2 rest ∧
      ∀ b ∈ roots, ∀ rest', parent ++ [name] <+: b.1 ++ rest' → b = a ∧ rest ++ [name] <+: rest' := by
  obtain ⟨a, ha, rest, rfl, rfl⟩ := hm.root_of hparent rfl
  refine ⟨a, ha, rest, rfl, rfl, fun b hb rest' hprefix => ?_⟩
  have hbelow : a.1 <+: b.1 ++ rest' := by
    rw [List.append_assoc] at hprefix
    exact (List.prefix_append _ _).trans hprefix
  obtain rfl := hapart.eq hb ha (List.prefix_append _ _) hbelow
  rw [List.append_assoc] at hprefix
  exact ⟨rfl, (List.prefix_append_right_inj _).1 hprefix⟩

/-! ## Edits -/

/-- the ways in which a call of the host and a change of the tree go together -/
inductive Edit (t : FsNode) : FsNode → Prop where
  | none : Edit t t
  /-- a file or an empty directory is added to a writeable directory -/
  | insert (parent : List Component) (name : Component) (d : Path) (x : FsNode) (hparent : t.labelAt parent = some (.inr (some d)))
      (hnew : t.labelAt (parent ++ [name]) = none) (hname : Proper name) (hx : hostPathOf x.label = some (hostJoin d name)) (hchildren : x.children = []) :
      Edit t (t.insertAt parent name x)
  /-- something is removed from a writeable directory -/
  | remove (parent : List Component) (name : Component) (d : Path) (hparent : t.labelAt parent = some (.inr (some d))) :
      Edit t (t.removeAt parent name)

theorem labelAt_leafless (hc : c.children = []) {rest : List Component} (h : c.labelAt rest = some x) : rest = [] ∧ x = c.label := by
  cases rest with
  | nil =>
    rw [Tree.labelAt, Tree.lookup_nil] at h
    exact ⟨rfl, (Option.some.inj h).symm⟩
  | cons name rest =>
    rw [Tree.labelAt_cons, hc] at h
    cases h

/-- **Edits** keep the writeable directories. -/
theorem Mounted.edit (hm : Mounted roots t) (hapart : Apart roots) (he : Edit t t') : Mounted roots t' := by
  cases he with
  | none => exact hm
  | insert parent name d c hparent hnew hname hc hchildren =>
    obtain ⟨a, ha, rest, rfl, rfl, honly⟩ := hm.child_of hapart name hparent
    obtain ⟨children, hlookup⟩ := Tree.lookup_node hparent
    have hcases (q : List Component) (x) (hx : (t.insertAt (a.1 ++ rest) name c).labelAt q = some x) :
        t.labelAt q = some x ∨ q = a.1 ++ (rest ++ [name]) ∧ hostPathOf x = some (pathBelow a.2 (rest ++ [name])) := by
      by_cases hprefix : a.1 ++ rest ++ [name] <+: q
      · obtain ⟨rest', rfl⟩ := hprefix
        rw [List.append_assoc _ [name], List.singleton_append, Tree.labelAt_insertAt hlookup] at hx
        obtain ⟨rfl, rfl⟩ := labelAt_leafless hchildren hx
        right
        rw [pathBelow_concat, List.append_nil, List.append_assoc]
        exact ⟨rfl, hc⟩
      · rw [Tree.labelAt_insertAt_of_ne hprefix] at hx
        exact .inl hx
    refine ⟨fun b hb rest' x hx => ?_, fun q x p hx hp => ?_, fun b hb => ?_⟩
    · rcases hcases _ x hx with hold | ⟨hq, hpath⟩
      · exact hm.inside b hb rest' x hold
      · obtain ⟨rfl, hprefix⟩ := honly b hb rest' (by rw [hq, List.append_assoc])
        rwa [List.append_cancel_left hq]
    · rcases hcases q x hx with hold | ⟨rfl, -⟩
      · exact hm.outside q x p hold hp
      · exact ⟨a, ha, List.prefix_append _ _⟩
    · rw [Tree.labelAt_insertAt_of_ne]
      · exact hm.mount b hb
      · intro hprefix
        obtain ⟨-, hnil⟩ := honly b hb [] (by rwa [List.append_nil])
        exact absurd (List.prefix_nil.1 hnil) (by simp)
  | remove parent name d hparent =>
    obtain ⟨a, ha, rest, rfl, rfl, honly⟩ := hm.child_of hapart name hparent
    obtain ⟨children, hlookup⟩ := Tree.lookup_node hparent
    have hcases (q : List Component) (x) (hx : (t.removeAt (a.1 ++ rest) name).labelAt q = some x) : t.labelAt q = some x := by
      by_cases hprefix : a.1 ++ rest ++ [name] <+: q
      · obtain ⟨rest', rfl⟩ := hprefix
        rw [List.append_assoc _ [name], List.singleton_append, Tree.labelAt_removeAt hlookup] at hx
        cases hx
      · rwa [Tree.labelAt_removeAt_of_ne hprefix] at hx
    refine ⟨fun b hb rest' x hx => hm.inside b hb rest' x (hcases _ x hx), fun q x p hx hp => hm.outside q x p (hcases q x hx) hp,
      fun b hb => ?_⟩
    rw [Tree.labelAt_removeAt_of_ne]
    · exact hm.mount b hb
    · intro hprefix
      obtain ⟨-, hnil⟩ := honly b hb [] (by rwa [List.append_nil])
      exact absurd (List.prefix_nil.1 hnil) (by simp)

/-- **What cannot be written to** is kept by edits. -/
theorem Edit.readOnly (hm : Mounted roots t) (he : Edit t t') (hx : t.labelAt g = some x) (hread : hostPathOf x = Option.none) :
    t'.labelAt g = some x := by
  have hout {parent : List Component} {name : Component} {d : Path} (hparent : t.labelAt parent = some (.inr (some d))) :
      ¬parent ++ [name] <+: g := by
    rintro ⟨rest, rfl⟩
    obtain ⟨a, ha, rest', rfl, -⟩ := hm.root_of hparent rfl
    rw [List.append_assoc, List.append_assoc] at hx
    rw [hm.inside a ha _ x hx] at hread
    cases hread
  cases he with
  | none => exact hx
  | insert parent name d c hparent => rwa [Tree.labelAt_insertAt_of_ne (hout hparent)]
  | remove parent name d hparent => rwa [Tree.labelAt_removeAt_of_ne (hout hparent)]

variable {self : Prop} {w w' : World} {bundleDirName : Component} {host : HostTree} {start : FsNode} {sandbox : Path}

/-- a file that can be written to is in a directory that can be written to -/
theorem Mounted.parent_of_file (hm : Mounted roots w.root) (hfile : HostFile w (parent ++ [name]) p true) :
    ∃ d, WriteableDir w parent d := by
  obtain ⟨a, ha, rest, hg, -⟩ := hm.root_of hfile rfl
  rcases List.eq_nil_or_concat rest with rfl | ⟨rest, name', rfl⟩
  · -- a root is a directory
    have hmount := hm.mount a ha
    rw [List.append_nil] at hg
    rw [← hg, hfile] at hmount
    cases hmount
  · rw [List.concat_eq_append, ← List.append_assoc] at hg
    obtain ⟨rfl, -⟩ := List.append_inj' hg rfl
    obtain ⟨n, hnode⟩ := Tree.node_above (t := w.root) (p := a.1 ++ rest) (k := name) (q := []) (by rw [hfile]; exact nofun)
    have hpath := hm.inside a ha rest _ hnode
    obtain rfl : n = some (pathBelow a.2 rest) := hpath
    exact ⟨_, hnode⟩

/-- **Acts** are edits of the tree. -/
theorem Act.edit (hm : Mounted roots w.root) (h : Act self w w') : Edit w.root w'.root := by
  cases h with
  | write | «open» | renameRefused => exact .none
  | create parent name d options host hproper hparent hnew =>
    exact .insert parent name d _ hparent hnew (hproper name (List.mem_append_right _ List.mem_cons_self)) rfl rfl
  | createDir parent name d host hproper hparent hnew =>
    exact .insert parent name d _ hparent hnew (hproper name (List.mem_append_right _ List.mem_cons_self)) rfl rfl
  | removeFile parent name d p host hproper hparent => exact .remove parent name d hparent
  | removeDir parent name d p host hproper hparent => exact .remove parent name d hparent
  | rename parent name g' p p' host hproper hproper' hsource =>
    obtain ⟨d, hparent⟩ := hm.parent_of_file hsource
    exact .remove parent name d hparent

/-- the path of a file that can be written to -/
theorem Mounted.below_file (hm : Mounted roots w.root) (hproper : ∀ c ∈ g, Proper c) (hfile : HostFile w g p true) : Below roots p := by
  obtain ⟨a, ha, rest, rfl, rfl⟩ := hm.root_of hfile rfl
  refine ⟨a, ha, rest, ?_, fun c hc => hproper c (List.mem_append_right _ hc), rfl⟩
  rintro rfl
  have hmount := hm.mount a ha
  rw [List.append_nil] at hfile
  rw [hfile] at hmount
  cases hmount

/-- the path of a new entry of a directory that can be written to -/
theorem Mounted.below_child (hm : Mounted roots w.root) (hproper : ∀ c ∈ parent ++ [name], Proper c)
    (hparent : WriteableDir w parent d) : Below roots (hostJoin d name) := by
  obtain ⟨a, ha, rest, rfl, rfl⟩ := hm.root_of hparent rfl
  refine ⟨a, ha, rest ++ [name], by simp, fun c hc => hproper c ?_, pathBelow_concat.symm⟩
  rw [List.append_assoc]
  exact List.mem_append_right _ hc

/-- the path of a directory in a directory that can be written to -/
theorem Mounted.below_dir (hm : Mounted roots w.root) (hapart : Apart roots) (hproper : ∀ c ∈ parent ++ [name], Proper c)
    (hparent : WriteableDir w parent d) (hdir : w.root.labelAt (parent ++ [name]) = some (.inr (some p))) : Below roots p := by
  obtain ⟨a, ha, rest, rfl, rfl, -⟩ := hm.child_of hapart name hparent
  rw [List.append_assoc] at hdir hproper
  refine ⟨a, ha, rest ++ [name], by simp, fun c hc => hproper c (List.mem_append_right _ hc), ?_⟩
  exact Option.some.inj (hm.inside a ha _ _ hdir)

/-- **What is modified** by the calls of an act is below the roots. -/
theorem Act.modified (hm : Mounted roots w.root) (hapart : Apart roots) (h : Act self w w') :
    ∃ call, w'.calls = call :: w.calls ∧ ∀ p ∈ call.modified, Below roots p := by
  cases h with
  | write g p hproper hfile =>
    refine ⟨_, rfl, fun q hq => ?_⟩
    rw [List.mem_singleton.1 hq]
    exact hm.below_file hproper hfile
  | «open» g p writeable options host hproper hfile hread hcreate hopen =>
    refine ⟨_, rfl, fun q hq => ?_⟩
    cases writeable with
    | true =>
      dsimp only [HostCall.modified] at hq
      split_ifs at hq
      · rw [List.mem_singleton.1 hq]
        exact hm.below_file hproper hfile
      · cases hq
    | false =>
      -- a file that is only read is not truncated
      obtain ⟨hwrite, happend⟩ := hread rfl
      have htruncate : options.truncate = false := by
        by_contra htruncate
        rw [hostOpen, hwrite, happend, hcreate, Bool.eq_true_of_not_eq_false htruncate] at hopen
        simp at hopen
      simp [HostCall.modified, hwrite, happend, hcreate, htruncate] at hq
  | create parent name d options host hproper hparent hnew hopen =>
    refine ⟨_, rfl, fun q hq => ?_⟩
    dsimp only [HostCall.modified] at hq
    split_ifs at hq
    · rw [List.mem_singleton.1 hq]
      exact hm.below_child hproper hparent
    · cases hq
  | createDir parent name d host hproper hparent =>
    refine ⟨_, rfl, fun q hq => ?_⟩
    rw [List.mem_singleton.1 hq]
    exact hm.below_child hproper hparent
  | removeFile parent name d p host hproper hparent hfile =>
    refine ⟨_, rfl, fun q hq => ?_⟩
    rw [List.mem_singleton.1 hq]
    exact hm.below_file hproper hfile
  | removeDir parent name d p host hproper hparent hdir =>
    refine ⟨_, rfl, fun q hq => ?_⟩
    rw [List.mem_singleton.1 hq]
    exact hm.below_dir hapart hproper hparent (Tree.labelAt_of_lookup hdir)
  | renameRefused g g' p p' hproper hproper' hsource htarget =>
    refine ⟨_, rfl, fun q hq => ?_⟩
    rcases List.mem_pair.1 hq with rfl | rfl
    · exact hm.below_file hproper hsource
    · exact hm.below_file hproper' htarget
  | rename parent name g' p p' host hproper hproper' hsource htarget =>
    refine ⟨_, rfl, fun q hq => ?_⟩
    rcases List.mem_pair.1 hq with rfl | rfl
    · exact hm.below_file hproper hsource
    · exact hm.below_file hproper' htarget

/-- the invariant: what can be written to, what was written to, and what cannot be written to is as it was at the beginning -/
structure Contained (roots : Roots) (start : FsNode) (w : World) : Prop where
  mounted : Mounted roots w.root
  modified : ∀ call ∈ w.calls, ∀ p ∈ call.modified, Below roots p
  readOnly : ∀ g x, start.labelAt g = some x → hostPathOf x = none → w.root.labelAt g = some x

theorem Contained.act (hc : Contained roots start w) (hapart : Apart roots) (h : Act self w w') :
    Contained roots start w' := by
  obtain ⟨hm, hmodified, hread⟩ := hc
  refine ⟨hm.edit hapart (h.edit hm), ?_, fun g x hx hnone => (h.edit hm).readOnly hm (hread g x hx hnone) hnone⟩
  obtain ⟨call, hcalls, hbelow⟩ := h.modified hm hapart
  rw [hcalls]
  intro call' hcall'
  rcases List.mem_cons.1 hcall' with rfl | hcall'
  · exact hbelow
  · exact hmodified call' hcall'

theorem Contained.step (hapart : Apart roots) (w : World) (o : Op) (w' : World) (hc : Contained roots start w)
    (h : step w o = .ok w') : Contained roots start w' := by
  obtain ⟨w₁, hacts, hw'⟩ := (step_acts w o).ok h
  have hc₁ : Contained roots start w₁ := hacts.inv (fun _ _ hw hact => hw.act hapart hact) hc
  rw [hw']
  exact ⟨hc₁.mounted, hc₁.modified, hc₁.readOnly⟩

/-! ## An app -/

/-- nothing in the tree can be written to -/
def ReadOnly (t : FsNode) : Prop := ∀ g x, t.labelAt g = some x → hostPathOf x = none

theorem ReadOnly.file {file : FileNode} (h : file.writeable = false) : ReadOnly (.leaf file) := by
  intro g x hx
  obtain ⟨-, rfl⟩ := labelAt_leafless (c := .leaf file) rfl hx
  obtain ⟨location, writeable⟩ := file
  obtain rfl : writeable = false := h
  cases location <;> rfl

/-- what can be written to in a directory that cannot is in one of its children -/
theorem writeable_child (hx : (Tree.node none cs : FsNode).labelAt g = some x) (hp : hostPathOf x = some p) :
    ∃ name rest c, g = name :: rest ∧ Tree.child cs name = some c ∧ c.labelAt rest = some x := by
  cases g with
  | nil =>
    obtain rfl : (Sum.inr none : FileNode ⊕ Option Path) = x := Option.some.inj hx
    cases hp
  | cons name rest =>
    rw [Tree.labelAt_cons] at hx
    obtain ⟨c, hc, hrest⟩ := Option.bind_eq_some_iff.1 hx
    exact ⟨name, rest, c, rfl, hc, hrest⟩

theorem ReadOnly.dir (h : ∀ name c, (name, c) ∈ cs → ReadOnly c) : ReadOnly (.node none cs) := by
  intro g x hx
  rw [Option.eq_none_iff_forall_ne_some]
  intro p hp
  obtain ⟨name, rest, c, rfl, hc, hrest⟩ := writeable_child hx hp
  rw [h name c (Assoc.mem_of_lookup hc) rest x hrest] at hp
  cases hp

theorem usrLib_readOnly : ReadOnly usrLib := by
  refine ReadOnly.dir fun name c hc => ?_
  simp only [List.mem_cons, List.not_mem_nil, or_false, Prod.mk.injEq] at hc
  rcases hc with ⟨-, rfl⟩ | ⟨-, rfl⟩ | ⟨-, rfl⟩ | ⟨-, rfl⟩ | ⟨-, rfl⟩ | ⟨-, rfl⟩ | ⟨-, rfl⟩ <;> exact ReadOnly.file rfl

/-- the directories of the sandbox, where an app finds them -/
def sandboxRoots (sandbox : Path) : Roots := [documents, library, tmp].map fun dir => (homeDirectory ++ [dir], hostJoin sandbox dir)

theorem sandboxRoots_apart (sandbox : Path) : Apart (sandboxRoots sandbox) := by
  intro a ha b hb hprefix
  obtain ⟨dir, hdir, rfl⟩ := List.mem_map.1 ha
  obtain ⟨dir', hdir', rfl⟩ := List.mem_map.1 hb
  have hsingle := (List.prefix_append_right_inj homeDirectory).1 hprefix
  obtain ⟨rfl, -⟩ := List.cons_prefix_cons.1 hsingle
  rfl

/-- the tree of a directory of the sandbox -/
theorem mountDir_labelAt {dir : Component} (h : mountDir sandbox dir host = .ok c) :
    c.label = .inr (some (hostJoin sandbox dir)) ∧
      ∀ rest x, c.labelAt rest = some x → hostPathOf x = some (pathBelow (hostJoin sandbox dir) rest) := by
  unfold mountDir at h
  split at h
  case h_1 entries _ =>
    cases h
    refine ⟨rfl, fun rest x hx => ?_⟩
    rw [fromHostDir, Tree.labelAt_mapPaths] at hx
    obtain ⟨y, -, rfl⟩ := Option.map_eq_some_iff.1 hx
    cases y <;> rfl
  case h_2 => cases h

theorem child_of_singleton {entry : Component × FsNode} (h : Tree.child [entry] name = some c) : name = entry.1 ∧ c = entry.2 := by
  obtain rfl := List.mem_singleton.1 (Assoc.mem_of_lookup h)
  exact ⟨rfl, rfl⟩

/-- what can be written to is in the app's home directory -/
theorem writeable_home (hx : (rootAround cs).labelAt g = some x) (hp : hostPathOf x = some p) :
    ∃ name rest c, g = homeDirectory ++ name :: rest ∧ Tree.child cs name = some c ∧ c.labelAt rest = some x := by
  have husr : ReadOnly (.node none [("lib".toList, usrLib)]) := by
    refine ReadOnly.dir fun name c hc => ?_
    obtain ⟨-, rfl⟩ := Prod.mk.inj (List.mem_singleton.1 hc)
    exact usrLib_readOnly
  obtain ⟨name₁, rest₁, c₁, rfl, hc₁, hx₁⟩ := writeable_child hx hp
  rcases List.mem_pair.1 (Assoc.mem_of_lookup hc₁) with hvar | husr'
  · obtain ⟨rfl, rfl⟩ := Prod.mk.inj hvar
    obtain ⟨name₂, rest₂, c₂, rfl, hc₂, hx₂⟩ := writeable_child hx₁ hp
    obtain ⟨rfl, rfl⟩ := child_of_singleton hc₂
    obtain ⟨name₃, rest₃, c₃, rfl, hc₃, hx₃⟩ := writeable_child hx₂ hp
    obtain ⟨rfl, rfl⟩ := child_of_singleton hc₃
    obtain ⟨name₄, rest₄, c₄, rfl, hc₄, hx₄⟩ := writeable_child hx₃ hp
    obtain ⟨rfl, rfl⟩ := child_of_singleton hc₄
    obtain ⟨name, rest, c, rfl, hc, hx⟩ := writeable_child hx₄ hp
    exact ⟨name, rest, c, rfl, hc, hx⟩
  · obtain ⟨rfl, rfl⟩ := Prod.mk.inj husr'
    rw [husr _ x hx₁] at hp
    cases hp

theorem rootAround_home : (rootAround cs).labelAt (homeDirectory ++ name :: g) = (Tree.child cs name).bind fun c => c.labelAt g := by
  rw [Tree.labelAt_append]
  have hhome : (rootAround cs).lookup homeDirectory = some (.node none cs) := rfl
  rw [hhome, Option.bind_some, Tree.labelAt_cons]
  rfl

/-- the entries of the app's home directory -/
theorem homeChild {bundle documentsNode libraryNode tmpNode : FsNode}
    (h : Tree.child (Assoc.insert tmp tmpNode (Assoc.insert library libraryNode (Assoc.insert documents documentsNode
      [(bundleDirName, bundle)]))) name = some c) :
    name = tmp ∧ c = tmpNode ∨ name = library ∧ c = libraryNode ∨ name = documents ∧ c = documentsNode ∨ c = bundle := by
  rcases Assoc.mem_insert (Assoc.mem_of_lookup h) with h | h
  · exact .inl (Prod.mk.inj h)
  · rcases Assoc.mem_insert h with h | h
    · exact .inr (.inl (Prod.mk.inj h))
    · rcases Assoc.mem_insert h with h | h
      · exact .inr (.inr (.inl (Prod.mk.inj h)))
      · exact .inr (.inr (.inr (Prod.mk.inj (List.mem_singleton.1 h)).2))

/-- **The file system of an app** has the directories of the sandbox, and nothing else can be written to. -/
theorem new_mounted {bundle : FsNode} (hbundle : ReadOnly bundle)
    (h : new bundle bundleDirName sandbox host = .ok w) : Mounted (sandboxRoots sandbox) w.root ∧ w.host = host ∧ w.calls = [] := by
  obtain ⟨documentsNode, hdocuments, h⟩ := bind_eq_ok.1 h
  obtain ⟨libraryNode, hlibrary, h⟩ := bind_eq_ok.1 h
  obtain ⟨tmpNode, htmp, h⟩ := bind_eq_ok.1 h
  obtain ⟨_, -, h⟩ := bind_eq_ok.1 h
  obtain ⟨_, -, h⟩ := bind_eq_ok.1 h
  cases h
  refine ⟨?_, rfl, rfl⟩
  have hmounts : ∀ a ∈ sandboxRoots sandbox, ∃ dir c, a = (homeDirectory ++ [dir], hostJoin sandbox dir) ∧
      mountDir sandbox dir host = .ok c ∧ Tree.child (Assoc.insert tmp tmpNode (Assoc.insert library libraryNode
        (Assoc.insert documents documentsNode [(bundleDirName, bundle)]))) dir = some c := by
    intro a ha
    obtain ⟨dir, hdir, rfl⟩ := List.mem_map.1 ha
    simp only [List.mem_cons, List.not_mem_nil, or_false] at hdir
    rcases hdir with rfl | rfl | rfl
    · exact ⟨_, documentsNode, rfl, hdocuments, rfl⟩
    · exact ⟨_, libraryNode, rfl, hlibrary, rfl⟩
    · exact ⟨_, tmpNode, rfl, htmp, rfl⟩
  constructor
  · intro a ha rest x hx
    obtain ⟨dir, c, rfl, hmount, hchild⟩ := hmounts a ha
    rw [List.append_assoc, List.singleton_append, rootAround_home, hchild] at hx
    exact (mountDir_labelAt hmount).2 rest x hx
  · intro g x p hx hp
    obtain ⟨name, rest, c, rfl, hc, hrest⟩ := writeable_home hx hp
    have hroot (hname : name ∈ [documents, library, tmp]) : ∃ a ∈ sandboxRoots sandbox, a.1 <+: homeDirectory ++ name :: rest :=
      ⟨_, List.mem_map_of_mem hname, by simp⟩
    rcases homeChild hc with ⟨rfl, -⟩ | ⟨rfl, -⟩ | ⟨rfl, -⟩ | rfl
    · exact hroot (by simp)
    · exact hroot (by simp)
    · exact hroot (by simp)
    · rw [hbundle rest x hrest] at hp
      cases hp
  · intro a ha
    obtain ⟨dir, c, rfl, hmount, hchild⟩ := hmounts a ha
    rw [rootAround_home, hchild, Option.bind_some, Tree.labelAt, Tree.lookup_nil, Option.map_some, (mountDir_labelAt hmount).1]

/-- **Containment.** Whatever paths an app gives, every path that is created, written, truncated, removed or renamed on the host is
below a directory of the sandbox. A node that can be written to is one of these directories, or its path on the host is that of the
directory around it with its own name. What cannot be written to stays as it was, and so does its file, if that is not in the sandbox
itself. -/
theorem contained {bundle : FsNode} {bundleDirName : Component} {sandbox : Path} {host : HostTree} {ops : List Op}
    (hbundle : ReadOnly bundle) (hnew : new bundle bundleDirName sandbox host = .ok w) (hrun : run step w ops = .ok w') :
    (∀ call ∈ w'.calls, ∀ p ∈ call.modified, Below (sandboxRoots sandbox) p) ∧
      (∀ g name x p, w'.root.labelAt (g ++ [name]) = some x → hostPathOf x = some p →
        (g ++ [name], p) ∈ sandboxRoots sandbox ∨ ∃ d, w'.root.labelAt g = some (.inr (some d)) ∧ p = hostJoin d name) ∧
      (∀ g x, w.root.labelAt g = some x → hostPathOf x = none → w'.root.labelAt g = some x) ∧
      ∀ g p, w.root.labelAt g = some (.inl ⟨.path p, false⟩) → ¬Below (sandboxRoots sandbox) p →
        ∀ call ∈ w'.calls, p ∉ call.modified := by
  obtain ⟨hmounted, -, hcalls⟩ := new_mounted hbundle hnew
  have hstart : Contained (sandboxRoots sandbox) w.root w := by
    refine ⟨hmounted, fun call hcall => ?_, fun _ _ hx _ => hx⟩
    rw [hcalls] at hcall
    exact nomatch hcall
  obtain ⟨hm, hmodified, hread⟩ := run_inv (Contained.step (sandboxRoots_apart sandbox)) hstart hrun
  refine ⟨hmodified, fun g name x p hx hp => ?_, hread, fun g p _ hp call hcall hmem => hp (hmodified call hcall p hmem)⟩
  obtain ⟨a, ha, rest, hg, rfl⟩ := hm.root_of hx hp
  rcases List.eq_nil_or_concat rest with rfl | ⟨rest, name', rfl⟩
  · left
    rw [List.append_nil] at hg
    rw [hg]
    exact ha
  · right
    rw [List.concat_eq_append, ← List.append_assoc] at hg
    obtain ⟨rfl, hname⟩ := List.append_inj' hg rfl
    obtain rfl := (List.cons.inj hname).1
    obtain ⟨writeable, hnode⟩ := Tree.node_above (t := w'.root) (p := a.1 ++ rest) (k := name) (q := []) (by rw [hx]; exact nofun)
    have hpath := hm.inside a ha rest _ hnode
    obtain rfl : writeable = some (pathBelow a.2 rest) := hpath
    refine ⟨_, hnode, ?_⟩
    rw [List.concat_eq_append, pathBelow_concat]

/-- a host with the directories of one app -/
def oneAppHost : HostTree :=
  .node () [(['s'], .node () [(documents, .node () [(['f'], .leaf ())]), (library, .node () []), (tmp, .node () [])])]

/-- the file system of this app -/
def oneApp : World := ((new (.node none []) ['b'] ['/', 's'] oneAppHost).toOption).getD
  ⟨⟨.node none [], []⟩, .node () [], []⟩

/-- a path upwards out of the home directory and back -/
def outAndBack : Path := "/../var/mobile/./Applications/00000000-0000-0000-0000-000000000000//Documents/../tmp/t/".toList

/-- what the app then has -/
def outAndBackEnd : World := (run step oneApp [.write outAndBack]).toOption.getD oneApp

theorem contained_sample : (∀ call ∈ outAndBackEnd.calls, ∀ p ∈ call.modified, Below (sandboxRoots ['/', 's']) p) ∧
    ∀ g p, oneApp.root.labelAt g = some (.inl ⟨.path p, false⟩) → ¬Below (sandboxRoots ['/', 's']) p →
      ∀ call ∈ outAndBackEnd.calls, p ∉ call.modified := by
  have hnew : new (.node none []) ['b'] ['/', 's'] oneAppHost = .ok oneApp := eq_ok_of_toOption rfl
  have hrun : run step oneApp [.write outAndBack] = .ok outAndBackEnd := eq_ok_of_toOption rfl
  have h := contained (ReadOnly.dir fun _ _ h => absurd h List.not_mem_nil) hnew hrun
  exact ⟨h.1, h.2.2.2⟩

end TouchHLE.Fs
