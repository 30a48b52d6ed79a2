/-
The tree of an app bundle that is read from an IPA archive (`fs/bundle.rs`). The entries of the archive come in any order,
and the directories that they need are made on the way.

- `alterDirectory`, `addDirectory`, `addFile`: `FsNodeBuilder`. `intoFsNode`: the loop over the entries.
- `At`: an entry is at a path below the bundle's directory. `BundleTree`: the tree has the files and directories that the
  entries say.
- `alterDirectory_ok`: a path is walked if no file is on it. `BundleTree.add`: one entry more.
- `into_fs_node`: the whole archive, in any order. `sibling_added`: an entry outside the directory that is in the tree
  all the same.
-/
import TouchHLE.Fs.Mirror

namespace TouchHLE.Fs

open Machine

/-- an entry of the archive; one whose name ends in a slash is a directory -/
structure ZipEntry where
  name : Path
  isDir : Bool
  slash : name.getLast? = some '/' → isDir = true

/-- `FsNode::dir` -/
def emptyDir : FsNode := .node none []

/-- `find_or_make_directory`, and what is done with the directory -/
def alterDirectory (f : FsNode → Except Panic FsNode) : List Component → FsNode → Except Panic FsNode
  | [], current => f current
  | part :: parts, current =>
    if part = [] then alterDirectory f parts current
    else do
      assert (part ≠ dotDot) .archivePath
      match current with
      | .leaf _ => throw .archivePath
      | .node writeable children => do
        let next ← alterDirectory f parts ((Tree.child children part).getD emptyDir)
        pure (.node writeable (Assoc.insert part next children))

def addDirectory (root : FsNode) (path : Path) : Except Panic FsNode := alterDirectory pure (path.splitOn '/') root

/-- `rsplit_once('/')` -/
def rsplitOnce : Path → Option (Path × Component)
  | [] => none
  | c :: path =>
    match rsplitOnce path with
    | some (parent, name) => some (c :: parent, name)
    | none => if c = '/' then some ([], path) else none

/-- `children.insert` in the directory of the new file -/
def putFile (fileName : Component) (node : FsNode) : FsNode → Except Panic FsNode
  | .leaf _ => throw .archivePath
  | .node writeable children => pure (.node writeable (Assoc.insert fileName node children))

def addFile (root : FsNode) (path : Path) (node : FsNode) : Except Panic FsNode := do
  assert (path.getLast? ≠ some '/') .archivePath
  let (parentName, fileName) ← unwrap (rsplitOnce path) .archivePath
  assert (fileName ≠ dotDot) .archivePath
  alterDirectory (putFile fileName node) (parentName.splitOn '/') root

/-- an entry of the archive, with its index; those whose names do not begin with the path of the bundle are left out -/
def addEntry (bundlePath : Path) (root : FsNode) (entry : ZipEntry × ℕ) : Except Panic FsNode :=
  if bundlePath.isPrefixOf entry.1.name then
    let path := entry.1.name.drop bundlePath.length
    if entry.1.isDir then addDirectory root path else addFile root path (.leaf ⟨.ipaFileRef entry.2, false⟩)
  else pure root

def intoFsNode (bundlePath : Path) (entries : List ZipEntry) : Except Panic FsNode :=
  entries.zipIdx.foldlM (addEntry bundlePath) emptyDir

/-! ## What the tree should be -/

/-- the components of a path; a slash may be doubled -/
def components (path : Path) : List Component := (path.splitOn '/').filter (· ≠ [])

/-- the entry is at these components below the directory of the bundle -/
def At (bundlePath : Path) (entry : ZipEntry) (cs : List Component) : Prop :=
  ∃ path, entry.name = bundlePath ++ '/' :: path ∧ cs = components path

/-- there is a file entry at the path -/
def FileAt (bundlePath : Path) (entries : List ZipEntry) (cs : List Component) : Prop :=
  ∃ entry ∈ entries, entry.isDir = false ∧ At bundlePath entry cs

/-- there is a directory entry at the path, or some entry below it; the bundle itself is a directory -/
def DirectoryAt (bundlePath : Path) (entries : List ZipEntry) (cs : List Component) : Prop :=
  cs = [] ∨ ∃ entry ∈ entries, ∃ cs', At bundlePath entry cs' ∧ cs <+: cs' ∧ (cs = cs' → entry.isDir = true)

/-- **The tree is that of the archive.** -/
structure BundleTree (bundlePath : Path) (entries : List ZipEntry) (t : FsNode) : Prop where
  file : ∀ cs, kindAt t cs = some .file ↔ FileAt bundlePath entries cs
  directory : ∀ cs, kindAt t cs = some .directory ↔ DirectoryAt bundlePath entries cs

/-- no path is both a file and a directory -/
def Consistent (bundlePath : Path) (entries : List ZipEntry) : Prop :=
  ∀ cs, FileAt bundlePath entries cs → ¬DirectoryAt bundlePath entries cs

/-- names that begin with the path of the bundle are in its directory -/
def NoSibling (bundlePath : Path) (entries : List ZipEntry) : Prop :=
  ∀ entry ∈ entries, bundlePath <+: entry.name → ∃ cs, At bundlePath entry cs

/-- no entry of the bundle has a ".." in its path -/
def NoDotDot (bundlePath : Path) (entries : List ZipEntry) : Prop :=
  ∀ entry ∈ entries, ∀ cs, At bundlePath entry cs → dotDot ∉ cs

variable {bundlePath path parent : Path} {entry : ZipEntry} {entries : List ZipEntry} {t t' sub : FsNode}
  {name part : Component} {ps cs q : List Component} {f : FsNode → Except Panic FsNode}
  {children : List (Component × FsNode)} {node : FsNode} {writeable : Option Path} {r : List Component} {l : FileNode}
  {i : ℕ}

/-! ## Paths -/

theorem components_slash : components ('/' :: path) = components path := by
  have h : ('/' :: path).splitOn '/' = [] :: path.splitOn '/' := by
    rw [← List.nil_append ('/' :: path), List.splitOn_append_cons_self]
    rfl
  rw [components, h, List.filter_cons_of_neg (by simp), components]

theorem rsplitOnce_eq_none (h : rsplitOnce path = none) : '/' ∉ path := by
  induction path with
  | nil => exact List.not_mem_nil
  | cons c path ih =>
    unfold rsplitOnce at h
    cases hpath : rsplitOnce path with
    | some p =>
      rw [hpath] at h
      cases h
    | none =>
      rw [hpath] at h
      dsimp only at h
      split_ifs at h with hc
      intro hmem
      rcases List.mem_cons.1 hmem with rfl | hmem
      · exact hc rfl
      · exact ih hpath hmem

theorem rsplitOnce_eq (h : rsplitOnce path = some (parent, name)) : path = parent ++ '/' :: name ∧ '/' ∉ name := by
  induction path generalizing parent with
  | nil => cases h
  | cons c path ih =>
    unfold rsplitOnce at h
    cases hpath : rsplitOnce path with
    | some p =>
      rw [hpath] at h
      cases h
      obtain ⟨heq, hname⟩ := ih hpath
      exact ⟨congrArg (c :: ·) heq, hname⟩
    | none =>
      rw [hpath] at h
      dsimp only at h
      split_ifs at h with hc
      cases h
      exact ⟨by rw [hc]; rfl, rsplitOnce_eq_none hpath⟩

/-- the last component is the name of the file -/
theorem components_concat (hname : '/' ∉ name) (hne : name ≠ []) :
    components (parent ++ '/' :: name) = components parent ++ [name] := by
  rw [components, List.splitOn_append_cons_self, List.splitOn_eq_singleton hname, List.filter_append, components,
    List.filter_cons_of_pos (by simpa using hne), List.filter_nil]

/-! ## Walking a path -/

theorem kindAt_cons (q : List Component) :
    kindAt t (part :: q) = (Tree.child t.children part).bind fun c => kindAt c q := by
  rw [kindAt, Tree.labelAt_cons]
  cases Tree.child t.children part <;> rfl

theorem kindAt_node_nil : kindAt (.node writeable children : FsNode) [] = some .directory := rfl

theorem kindAt_emptyDir : kindAt emptyDir q = if q = [] then some .directory else none := by
  rw [kindAt_leafless rfl]
  rfl

/-- nothing is below what is no directory -/
theorem kindAt_below (h : kindAt t q ≠ some .directory) (hr : r ≠ []) : kindAt t (q ++ r) = none := by
  obtain ⟨part, r, rfl⟩ := List.exists_cons_of_ne_nil hr
  by_contra hne
  rw [kindAt_eq_none] at hne
  obtain ⟨n, hn⟩ := Tree.node_above hne
  rw [kindAt, hn] at h
  exact h rfl

/-- the child that is found or made -/
theorem kindAt_getD_child (hq : kindAt (.node writeable children) (part :: q) ≠ some .file) :
    kindAt ((Tree.child children part).getD emptyDir) q ≠ some .file := by
  rw [kindAt_cons, Tree.children] at hq
  cases hc : Tree.child children part with
  | none =>
    rw [Option.getD_none, kindAt_emptyDir]
    split_ifs <;> exact fun h => by cases h
  | some c =>
    rw [hc] at hq
    exact hq

/-- the directory that a path leads to, which is empty if it has to be made -/
def directoryAt (t : FsNode) (cs : List Component) : FsNode := (t.lookup cs).getD emptyDir

theorem directoryAt_cons :
    directoryAt (.node writeable children) (part :: cs) = directoryAt ((Tree.child children part).getD emptyDir) cs := by
  rw [directoryAt, directoryAt, Tree.lookup_cons, Tree.children]
  cases Tree.child children part with
  | some c => rfl
  | none =>
    cases cs with
    | nil => rw [Option.getD_none, Tree.lookup_nil]; rfl
    | cons part' cs => rfl

/-- the components that are left of the way to a directory, in the child that is found or made -/
theorem kindAt_found :
    (if q <+: cs then some NodeKind.directory else kindAt ((Tree.child children part).getD emptyDir) q) =
      if q <+: cs then some .directory else kindAt (.node writeable children) (part :: q) := by
  refine ite_congr rfl (fun _ => rfl) fun hnot => ?_
  rw [kindAt_cons, Tree.children]
  cases Tree.child children part with
  | some c => rfl
  | none =>
    rw [Option.getD_none, kindAt_emptyDir, if_neg]
    · rfl
    · intro h
      exact hnot (h ▸ List.nil_prefix)

/-- **A path is walked** if no file is on it: its directories are made, and the last one is changed. -/
theorem alterDirectory_ok (hdot : dotDot ∉ ps) (hcs : ps.filter (· ≠ []) = cs)
    (hfree : ∀ q, q <+: cs → kindAt t q ≠ some .file) (hf : f (directoryAt t cs) = .ok sub) :
    ∃ t', alterDirectory f ps t = .ok t' ∧ (∀ r, kindAt t' (cs ++ r) = kindAt sub r) ∧
      ∀ q, ¬cs <+: q → kindAt t' q = if q <+: cs then some .directory else kindAt t q := by
  induction ps generalizing t cs with
  | nil =>
    rw [List.filter_nil] at hcs
    subst hcs
    rw [directoryAt, Tree.lookup_nil] at hf
    exact ⟨sub, hf, fun _ => rfl, fun q hq => absurd List.nil_prefix hq⟩
  | cons part ps ih =>
    rw [List.mem_cons, not_or] at hdot
    unfold alterDirectory
    by_cases hpart : part = []
    · rw [List.filter_cons_of_neg (by simpa using hpart)] at hcs
      rw [if_pos hpart]
      exact ih hdot.2 hcs hfree hf
    · rw [List.filter_cons_of_pos (by simpa using hpart)] at hcs
      subst hcs
      rw [if_neg hpart, assert_ok (decide_eq_true (Ne.symm hdot.1)), ok_bind]
      cases t with
      | leaf l => exact absurd rfl (hfree [] List.nil_prefix)
      | node writeable children =>
        rw [directoryAt_cons] at hf
        obtain ⟨next, hnext, hbelow, helse⟩ := ih hdot.2 rfl
          (fun q hq => kindAt_getD_child (hfree (part :: q) (List.cons_prefix_cons.2 ⟨rfl, hq⟩))) hf
        refine ⟨.node writeable (Assoc.insert part next children), by simp only [hnext, ok_bind]; rfl, fun r => ?_, ?_⟩
        · rw [List.cons_append, kindAt_cons, Tree.children, Tree.child_insert_self]
          exact hbelow r
        · intro q hq
          cases q with
          | nil => rw [if_pos List.nil_prefix]; rfl
          | cons k q =>
            rw [kindAt_cons, Tree.children]
            by_cases hk : k = part
            · subst hk
              have hq' : ¬ps.filter (· ≠ []) <+: q := fun h => hq (List.cons_prefix_cons.2 ⟨rfl, h⟩)
              rw [Tree.child_insert_self, Option.bind_some, helse q hq', kindAt_found]
              exact if_congr (by rw [List.cons_prefix_cons, and_iff_right rfl]) rfl rfl
            · rw [Tree.child_insert_of_ne hk, if_neg fun h => hk (List.cons_prefix_cons.1 h).1, kindAt_cons, Tree.children]

theorem alterDirectory_dotDot (h : dotDot ∈ ps) : ¬∃ t', alterDirectory f ps t = .ok t' := by
  induction ps generalizing t with
  | nil => exact absurd h List.not_mem_nil
  | cons part ps ih =>
    unfold alterDirectory
    by_cases hpart : part = []
    · rw [if_pos hpart]
      refine ih ((List.mem_cons.1 h).resolve_left ?_)
      rw [hpart]
      exact List.cons_ne_nil _ _
    · rw [if_neg hpart]
      rintro ⟨t', ht'⟩
      obtain ⟨_, hassert, ht'⟩ := bind_eq_ok.1 ht'
      have hdot : part ≠ dotDot := of_decide_eq_true (assert_cases hassert)
      cases t with
      | leaf l => cases ht'
      | node writeable children =>
        obtain ⟨next, hnext, -⟩ := bind_eq_ok.1 ht'
        exact ih ((List.mem_cons.1 h).resolve_left (Ne.symm hdot)) ⟨next, hnext⟩

/-! ## One entry -/

/-- what is at a path once an entry is added -/
def added (entry : ZipEntry) (cs : List Component) (t : FsNode) (q : List Component) : Option NodeKind :=
  if q = cs ∧ entry.isDir = false then some .file else if q <+: cs then some .directory else kindAt t q

theorem append_prefix_self : cs ++ r <+: cs ↔ r = [] := by
  constructor
  · intro h
    have hlength := h.length_le
    rw [List.length_append] at hlength
    exact List.length_eq_zero_iff.1 (by omega)
  · rintro rfl
    rw [List.append_nil]

theorem dotDot_mem_components : dotDot ∈ components path ↔ dotDot ∈ path.splitOn '/' := by
  rw [components, List.mem_filter, and_iff_left (by decide)]

/-- nothing below the directory changes but for what is done with it -/
theorem kindAt_directoryAt (h : kindAt t cs ≠ some .file) :
    kindAt (directoryAt t cs) r = if r = [] then some .directory else kindAt t (cs ++ r) := by
  cases hl : t.lookup cs with
  | none =>
    have hnone : t.labelAt cs = none := by rw [Tree.labelAt, hl]; rfl
    rw [directoryAt, hl, Option.getD_none, kindAt_emptyDir, kindAt_eq_none.2 (Tree.labelAt_below_none hnone)]
  | some c =>
    have hbelow : kindAt t (cs ++ r) = kindAt c r := by rw [kindAt, Tree.labelAt_append, hl]; rfl
    rw [directoryAt, hl, Option.getD_some, hbelow]
    rw [kindAt, Tree.labelAt_of_lookup hl] at h
    cases c with
    | leaf l => exact absurd rfl h
    | node n children =>
      by_cases hr : r = []
      · rw [if_pos hr, hr, kindAt_node_nil]
      · rw [if_neg hr]

/-- the directory that is changed is a directory -/
theorem directoryAt_node (h : kindAt t cs ≠ some .file) :
    ∃ writeable children, directoryAt t cs = .node writeable children := by
  have hkind := kindAt_directoryAt (r := []) h
  rw [if_pos rfl] at hkind
  cases hd : directoryAt t cs with
  | leaf l =>
    rw [hd] at hkind
    cases hkind
  | node writeable children => exact ⟨writeable, children, rfl⟩

theorem At.begins (h : At bundlePath entry cs) : bundlePath <+: entry.name := by
  obtain ⟨path, hname, -⟩ := h
  exact ⟨_, hname.symm⟩

theorem At.unique {cs' : List Component} (h : At bundlePath entry cs) (h' : At bundlePath entry cs') : cs = cs' := by
  obtain ⟨path, hname, rfl⟩ := h
  obtain ⟨path', hname', rfl⟩ := h'
  rw [hname, List.append_cancel_left_eq, List.cons.injEq, and_iff_right rfl] at hname'
  rw [hname']

theorem addDirectory_ok (hdot : dotDot ∉ components path) (hfree : ∀ q, q <+: components path → kindAt t q ≠ some .file) :
    ∃ t', addDirectory t path = .ok t' ∧
      ∀ q, kindAt t' q = if q <+: components path then some .directory else kindAt t q := by
  obtain ⟨t', ht', hbelow, helse⟩ := alterDirectory_ok (dotDot_mem_components.not.1 hdot) rfl hfree rfl
  refine ⟨t', ht', fun q => ?_⟩
  by_cases hq : components path <+: q
  · obtain ⟨r, rfl⟩ := hq
    refine (hbelow r).trans ((kindAt_directoryAt (hfree _ List.prefix_rfl)).trans (if_congr ?_ rfl rfl))
    rw [append_prefix_self]
  · exact helse q hq

/-- what a new file leaves in its directory -/
theorem kindAt_putFile
    (hname : kindAt (.node writeable children : FsNode) [name] ≠ some .directory) :
    kindAt (.node writeable (Assoc.insert name (.leaf l) children)) r =
      if r = [name] then some .file else kindAt (.node writeable children) r := by
  cases r with
  | nil => rw [if_neg (List.cons_ne_nil _ _).symm, kindAt_node_nil, kindAt_node_nil]
  | cons k r =>
    rw [kindAt_cons, Tree.children]
    by_cases hk : k = name
    · subst hk
      rw [Tree.child_insert_self, Option.bind_some, kindAt_leafless rfl]
      refine ite_congr (by rw [List.cons.injEq, and_iff_right rfl]) (fun _ => rfl) fun hr => ?_
      exact (kindAt_below (q := [k]) hname fun h => hr (h ▸ rfl)).symm
    · rw [Tree.child_insert_of_ne hk, if_neg fun h => hk (List.cons.inj h).1, kindAt_cons, Tree.children]

theorem addFile_ok (hslash : path.getLast? ≠ some '/') (hroot : '/' ∈ path) (hdot : dotDot ∉ components path)
    (hfree : ∀ q, q <+: components path → q ≠ components path → kindAt t q ≠ some .file)
    (hdir : kindAt t (components path) ≠ some .directory) :
    ∃ t', addFile t path (.leaf l) = .ok t' ∧
      ∀ q, kindAt t' q =
        if q = components path then some .file else if q <+: components path then some .directory else kindAt t q := by
  obtain ⟨⟨parent, name⟩, hsplit⟩ := Option.ne_none_iff_exists'.1 fun h => rsplitOnce_eq_none h hroot
  obtain ⟨rfl, hname⟩ := rsplitOnce_eq hsplit
  have hne : name ≠ [] := by
    rintro rfl
    exact hslash (by rw [List.getLast?_append]; rfl)
  rw [components_concat hname hne] at hdot hfree hdir ⊢
  rw [List.mem_append, List.mem_singleton, not_or] at hdot
  have hparent : ∀ q, q <+: components parent → kindAt t q ≠ some .file := fun q hq =>
    hfree q (hq.trans (List.prefix_append _ _)) fun h => by
      have := append_prefix_self.1 (h ▸ hq)
      cases this
  obtain ⟨writeable, children, hd⟩ := directoryAt_node (hparent _ List.prefix_rfl)
  have hput : putFile name (.leaf l) (directoryAt t (components parent)) =
      .ok (.node writeable (Assoc.insert name (.leaf l) children)) := by
    rw [hd]
    rfl
  obtain ⟨t', ht', hbelow, helse⟩ := alterDirectory_ok (dotDot_mem_components.not.1 hdot.1)
    (show _ = components parent from rfl) hparent hput
  refine ⟨t', ?_, fun q => ?_⟩
  · rw [addFile, assert_ok (decide_eq_true hslash), ok_bind, hsplit]
    change (assert (name ≠ dotDot) .archivePath >>= fun _ => _) = _
    rw [assert_ok (decide_eq_true (Ne.symm hdot.2)), ok_bind]
    exact ht'
  · by_cases hq : components parent <+: q
    · obtain ⟨r, rfl⟩ := hq
      have hsub : kindAt (.node writeable children : FsNode) [name] ≠ some .directory := by
        rw [← hd, kindAt_directoryAt (hparent _ List.prefix_rfl), if_neg (List.cons_ne_nil _ _)]
        exact hdir
      rw [hbelow, kindAt_putFile hsub, ← hd, kindAt_directoryAt (hparent _ List.prefix_rfl)]
      refine ite_congr (by rw [List.append_cancel_left_eq]) (fun _ => rfl) fun hr => if_congr ?_ rfl rfl
      rw [List.prefix_append_right_inj, ← List.nil_append [name], List.prefix_concat_iff, List.prefix_nil, List.nil_append,
        or_iff_right fun h => hr (by rw [h])]
    · have hnot : q ≠ components parent ++ [name] := by
        rintro rfl
        exact hq (List.prefix_append _ _)
      rw [helse q hq, if_neg hnot]
      refine if_congr ?_ rfl rfl
      rw [List.prefix_concat_iff, or_iff_right hnot]

theorem At.drop (h : At bundlePath entry cs) : components (entry.name.drop bundlePath.length) = cs := by
  obtain ⟨path, hname, rfl⟩ := h
  rw [hname, List.drop_left, components_slash]

theorem At.getLast? (h : At bundlePath entry cs) : (entry.name.drop bundlePath.length).getLast? = entry.name.getLast? := by
  obtain ⟨path, hname, -⟩ := h
  rw [hname, List.drop_left, List.getLast?_append, List.getLast?_cons]
  rfl

theorem At.slash_mem (h : At bundlePath entry cs) : '/' ∈ entry.name.drop bundlePath.length := by
  obtain ⟨path, hname, -⟩ := h
  rw [hname, List.drop_left]
  exact List.mem_cons_self

/-- **One entry is added** where it says, if nothing else is there. -/
theorem addEntry_ok (hat : At bundlePath entry cs) (hdot : dotDot ∉ cs)
    (hfree : ∀ q, q <+: cs → (q = cs → entry.isDir = true) → kindAt t q ≠ some .file)
    (hdir : entry.isDir = false → kindAt t cs ≠ some .directory) :
    ∃ t', addEntry bundlePath t (entry, i) = .ok t' ∧ ∀ q, kindAt t' q = added entry cs t q := by
  rw [addEntry, if_pos (List.isPrefixOf_iff_prefix.2 hat.begins)]
  rw [← hat.drop] at hdot hfree hdir ⊢
  cases hkind : entry.isDir with
  | true =>
    rw [if_pos rfl]
    obtain ⟨t', ht', hq⟩ := addDirectory_ok hdot fun q hq => hfree q hq fun _ => hkind
    refine ⟨t', ht', fun q => (hq q).trans ?_⟩
    have hnot : ¬(q = components (entry.name.drop bundlePath.length) ∧ entry.isDir = false) := by
      rintro ⟨-, h⟩
      exact Bool.noConfusion (hkind.symm.trans h)
    exact (if_neg hnot).symm
  | false =>
    rw [if_neg (by decide)]
    have hslash : (entry.name.drop bundlePath.length).getLast? ≠ some '/' := by
      rw [hat.getLast?]
      intro h
      cases hkind.symm.trans (entry.slash h)
    obtain ⟨t', ht', hq⟩ :=
      addFile_ok hslash hat.slash_mem hdot (fun q hq hne => hfree q hq fun h => absurd h hne) (hdir hkind)
    refine ⟨t', ht', fun q => (hq q).trans (if_congr ?_ rfl rfl)⟩
    rw [and_iff_left hkind]

theorem addFile_dotDot (hdot : dotDot ∈ components path) : ¬∃ t', addFile t path node = .ok t' := by
  rintro ⟨t', ht'⟩
  obtain ⟨_, hslash, hafter⟩ := bind_eq_ok.1 ht'
  obtain ⟨⟨parent, name⟩, hsplit, hthen⟩ := bind_eq_ok.1 hafter
  obtain ⟨_, hassert, hwalk⟩ := bind_eq_ok.1 hthen
  obtain ⟨rfl, hname⟩ := rsplitOnce_eq (unwrap_eq_ok.1 hsplit)
  have hne : name ≠ [] := by
    rintro rfl
    exact of_decide_eq_true (assert_cases hslash) (by rw [List.getLast?_append]; rfl)
  rw [components_concat hname hne, List.mem_append, List.mem_singleton] at hdot
  have hparent := hdot.resolve_right (Ne.symm (of_decide_eq_true (assert_cases hassert)))
  exact alterDirectory_dotDot (dotDot_mem_components.1 hparent) ⟨t', hwalk⟩

theorem addEntry_dotDot (hat : At bundlePath entry cs) (hdot : dotDot ∈ cs) :
    ¬∃ t', addEntry bundlePath t (entry, i) = .ok t' := by
  rw [addEntry, if_pos (List.isPrefixOf_iff_prefix.2 hat.begins)]
  rw [← hat.drop] at hdot
  dsimp only
  split_ifs
  · exact alterDirectory_dotDot (dotDot_mem_components.1 hdot)
  · exact addFile_dotDot hdot

/-- an entry whose name does not begin with the path of the bundle -/
theorem addEntry_outside (h : ¬bundlePath <+: entry.name) : addEntry bundlePath t (entry, i) = .ok t :=
  if_neg (List.isPrefixOf_iff_prefix.not.2 h)

/-! ## The archive -/

theorem fileAt_concat :
    FileAt bundlePath (entries ++ [entry]) q ↔
      FileAt bundlePath entries q ∨ entry.isDir = false ∧ At bundlePath entry q := by
  simp only [FileAt, List.mem_append, List.mem_singleton, or_and_right, exists_or, exists_eq_left]

theorem directoryAt_concat : DirectoryAt bundlePath (entries ++ [entry]) q ↔
    DirectoryAt bundlePath entries q ∨ ∃ cs, At bundlePath entry cs ∧ q <+: cs ∧ (q = cs → entry.isDir = true) := by
  simp only [DirectoryAt, List.mem_append, List.mem_singleton, or_and_right, exists_or, exists_eq_left, or_assoc]

theorem fileAt_inside (hat : At bundlePath entry cs) :
    FileAt bundlePath (entries ++ [entry]) q ↔ FileAt bundlePath entries q ∨ q = cs ∧ entry.isDir = false := by
  refine fileAt_concat.trans (or_congr_right ⟨fun h => ⟨h.2.unique hat, h.1⟩, ?_⟩)
  rintro ⟨rfl, hkind⟩
  exact ⟨hkind, hat⟩

theorem directoryAt_inside (hat : At bundlePath entry cs) : DirectoryAt bundlePath (entries ++ [entry]) q ↔
    DirectoryAt bundlePath entries q ∨ q <+: cs ∧ (q = cs → entry.isDir = true) := by
  refine directoryAt_concat.trans (or_congr_right ⟨?_, fun h => ⟨cs, hat, h⟩⟩)
  rintro ⟨cs', hat', h⟩
  rwa [hat'.unique hat] at h

/-- an entry outside is not in the tree -/
theorem BundleTree.outside (h : BundleTree bundlePath entries t) (hout : ¬bundlePath <+: entry.name) :
    BundleTree bundlePath (entries ++ [entry]) t := by
  refine ⟨fun q => ?_, fun q => ?_⟩
  · rw [fileAt_concat, or_iff_left fun hat => hout hat.2.begins]
    exact h.file q
  · rw [directoryAt_concat, or_iff_left fun ⟨_, hat, _⟩ => hout hat.begins]
    exact h.directory q

/-- **One entry more.** -/
theorem BundleTree.add (h : BundleTree bundlePath entries t) (hat : At bundlePath entry cs)
    (hconsistent : Consistent bundlePath (entries ++ [entry])) (hkind : ∀ q, kindAt t' q = added entry cs t q) :
    BundleTree bundlePath (entries ++ [entry]) t' := by
  constructor
  · intro q
    rw [hkind, added, fileAt_inside hat]
    by_cases hnew : q = cs ∧ entry.isDir = false
    · rw [if_pos hnew]
      exact iff_of_true rfl (.inr hnew)
    · rw [if_neg hnew, or_iff_left hnew]
      by_cases hq : q <+: cs
      · rw [if_pos hq]
        refine iff_of_false (fun h => nomatch h) fun hfile => ?_
        refine hconsistent q ((fileAt_inside hat).2 (.inl hfile)) ((directoryAt_inside hat).2 (.inr ⟨hq, fun hcs => ?_⟩))
        exact Bool.of_not_eq_false fun hfalse => hnew ⟨hcs, hfalse⟩
      · rw [if_neg hq]
        exact h.file q
  · intro q
    rw [hkind, added, directoryAt_inside hat]
    by_cases hnew : q = cs ∧ entry.isDir = false
    · rw [if_pos hnew]
      refine iff_of_false (fun h => nomatch h) fun hdir => ?_
      exact hconsistent q ((fileAt_inside hat).2 (.inr hnew)) ((directoryAt_inside hat).2 hdir)
    · rw [if_neg hnew]
      by_cases hq : q <+: cs
      · rw [if_pos hq]
        exact iff_of_true rfl (.inr ⟨hq, fun hcs => Bool.of_not_eq_false fun hfalse => hnew ⟨hcs, hfalse⟩⟩)
      · rw [if_neg hq, or_iff_left fun hp => hq hp.1]
        exact h.directory q

theorem intoFsNode_concat : intoFsNode bundlePath (entries ++ [entry]) =
    intoFsNode bundlePath entries >>= fun t => addEntry bundlePath t (entry, entries.length) := by
  rw [intoFsNode, List.zipIdx_append, List.foldlM_append, Nat.zero_add, List.zipIdx_singleton]
  refine bind_congr fun t => ?_
  rw [List.foldlM_cons]
  exact bind_pure _

theorem Consistent.mono {entries' : List ZipEntry} (h : Consistent bundlePath entries') (hsub : entries ⊆ entries') :
    Consistent bundlePath entries := by
  rintro cs ⟨e, he, hfile⟩ (rfl | ⟨e', he', hdir⟩)
  · exact h [] ⟨e, hsub he, hfile⟩ (.inl rfl)
  · exact h cs ⟨e, hsub he, hfile⟩ (.inr ⟨e', hsub he', hdir⟩)

/-- **The archive is read** into its tree, if no path has a "..". -/
theorem intoFsNode_ok (hconsistent : Consistent bundlePath entries) (hsibling : NoSibling bundlePath entries)
    (hdot : NoDotDot bundlePath entries) :
    ∃ t, intoFsNode bundlePath entries = .ok t ∧ BundleTree bundlePath entries t := by
  induction entries using List.reverseRecOn with
  | nil =>
    refine ⟨emptyDir, rfl, fun cs => ?_, fun cs => ?_⟩
    · rw [kindAt_emptyDir]
      refine iff_of_false (by split_ifs <;> exact fun h => nomatch h) ?_
      rintro ⟨e, he, -⟩
      cases he
    · rw [kindAt_emptyDir, DirectoryAt]
      simp
  | append_singleton entries entry ih =>
    have hsub : entries ⊆ entries ++ [entry] := List.subset_append_left _ _
    have hmem : entry ∈ entries ++ [entry] := List.mem_append_right _ (List.mem_singleton.2 rfl)
    obtain ⟨t, ht, htree⟩ := ih (hconsistent.mono hsub) (fun e he => hsibling e (hsub he)) (fun e he => hdot e (hsub he))
    rw [intoFsNode_concat, ht, ok_bind]
    by_cases hinside : bundlePath <+: entry.name
    · obtain ⟨cs, hat⟩ := hsibling entry hmem hinside
      have hfree : ∀ q, q <+: cs → (q = cs → entry.isDir = true) → kindAt t q ≠ some .file := fun q hq hdir hfile =>
        hconsistent q ((fileAt_inside hat).2 (.inl ((htree.file q).1 hfile))) ((directoryAt_inside hat).2 (.inr ⟨hq, hdir⟩))
      have hdir : entry.isDir = false → kindAt t cs ≠ some .directory := fun hkind hdir =>
        hconsistent cs ((fileAt_inside hat).2 (.inr ⟨rfl, hkind⟩))
          ((directoryAt_inside hat).2 (.inl ((htree.directory cs).1 hdir)))
      obtain ⟨t', ht', hkind⟩ := addEntry_ok hat (hdot entry hmem cs hat) hfree hdir
      exact ⟨t', ht', htree.add hat hconsistent hkind⟩
    · exact ⟨t, addEntry_outside hinside, htree.outside hinside⟩

theorem intoFsNode_dotDot (hat : At bundlePath entry cs) (hmem : entry ∈ entries) (hdot : dotDot ∈ cs) :
    ¬∃ t, intoFsNode bundlePath entries = .ok t := by
  induction entries using List.reverseRecOn with
  | nil => exact absurd hmem List.not_mem_nil
  | append_singleton entries last ih =>
    rintro ⟨t', ht'⟩
    rw [intoFsNode_concat] at ht'
    obtain ⟨t, ht, hlast⟩ := bind_eq_ok.1 ht'
    rcases List.mem_append.1 hmem with hmem | hmem
    · exact ih hmem ⟨t, ht⟩
    · rw [List.mem_singleton] at hmem
      subst hmem
      exact addEntry_dotDot hat hdot ⟨t', hlast⟩

/-- The archive is read whatever the order of its entries, and into the same tree. -/
theorem into_fs_node (hconsistent : Consistent bundlePath entries) (hsibling : NoSibling bundlePath entries)
    (entries' : List ZipEntry) (hperm : entries.Perm entries') :
    ((∃ t, intoFsNode bundlePath entries' = .ok t) ↔ NoDotDot bundlePath entries) ∧
      ∀ t, intoFsNode bundlePath entries' = .ok t → BundleTree bundlePath entries t := by
  have hfile : ∀ q, FileAt bundlePath entries' q ↔ FileAt bundlePath entries q := fun q => by
    simp only [FileAt, hperm.mem_iff]
  have hdirectory : ∀ q, DirectoryAt bundlePath entries' q ↔ DirectoryAt bundlePath entries q := fun q => by
    simp only [DirectoryAt, hperm.mem_iff]
  have hread : NoDotDot bundlePath entries →
      ∃ t, intoFsNode bundlePath entries' = .ok t ∧ BundleTree bundlePath entries' t := by
    intro hdot
    refine intoFsNode_ok (hconsistent.mono hperm.symm.subset) ?_ ?_
    · intro e he
      exact hsibling e (hperm.mem_iff.2 he)
    · intro e he
      exact hdot e (hperm.mem_iff.2 he)
  have hiff : (∃ t, intoFsNode bundlePath entries' = .ok t) ↔ NoDotDot bundlePath entries := by
    constructor
    · intro hok e he cs hat hdot
      exact intoFsNode_dotDot hat (hperm.mem_iff.1 he) hdot hok
    · intro hdot
      obtain ⟨t, ht, -⟩ := hread hdot
      exact ⟨t, ht⟩
  refine ⟨hiff, fun t ht => ?_⟩
  obtain ⟨t', ht', htree⟩ := hread (hiff.1 ⟨t, ht⟩)
  obtain rfl := Except.ok.inj (ht.symm.trans ht')
  exact ⟨fun q => (htree.file q).trans (hfile q), fun q => (htree.directory q).trans (hdirectory q)⟩

/-! ## Samples -/

/-- a directory entry if the name ends in a slash, else a file entry -/
def namedEntry (name : Path) : ZipEntry where
  name := name
  isDir := decide (name.getLast? = some '/')
  slash := fun h => decide_eq_true h

def sampleBundle : Path := "Payload/A.app".toList

def textEntry : ZipEntry := namedEntry "Payload/A.app/en/text".toList

def libEntry : ZipEntry := namedEntry "Payload/A.app/lib/".toList

/-- the file comes before its directory, which comes with another one -/
theorem into_fs_node_sample :
    BundleTree sampleBundle [textEntry, libEntry]
      ((intoFsNode sampleBundle [libEntry, textEntry]).toOption.getD emptyDir) := by
  have htext : At sampleBundle textEntry ["en".toList, "text".toList] := ⟨"en/text".toList, by decide, by decide⟩
  have hlib : At sampleBundle libEntry ["lib".toList] := ⟨"lib/".toList, by decide, by decide⟩
  refine (into_fs_node ?_ ?_ _ (List.Perm.swap _ _ _)).2 _ (eq_ok_of_toOption (by decide))
  · intro cs hfile hdir
    have hcs : cs = ["en".toList, "text".toList] := by
      obtain ⟨e, he, hkind, hat⟩ := hfile
      rcases List.mem_pair.1 he with rfl | rfl
      · exact hat.unique htext
      · exact absurd hkind (by decide)
    subst hcs
    rcases hdir with hnil | ⟨e, he, cs', hat, hbelow, hdir⟩
    · exact nomatch hnil
    · rcases List.mem_pair.1 he with rfl | rfl
      · exact absurd (hdir (htext.unique hat)) (by decide)
      · rw [hat.unique hlib] at hbelow
        exact absurd hbelow (by decide)
  · intro e he _
    rcases List.mem_pair.1 he with rfl | rfl
    · exact ⟨_, htext⟩
    · exact ⟨_, hlib⟩

/-- a file entry with a ".." -/
def dotDotEntry : ZipEntry := namedEntry "Payload/A.app/..".toList

/-- an entry of another directory -/
def siblingEntry : ZipEntry := namedEntry "Payload/A.appendix/text".toList

/-- An archive with a ".." is refused; an entry of a sibling of the bundle is in the tree. -/
theorem sibling_added :
    (Consistent sampleBundle [dotDotEntry] ∧ ¬∃ t, intoFsNode sampleBundle [dotDotEntry] = .ok t) ∧
      Consistent sampleBundle [siblingEntry] ∧
      ∃ t, intoFsNode sampleBundle [siblingEntry] = .ok t ∧ ¬BundleTree sampleBundle [siblingEntry] t := by
  have hdot : At sampleBundle dotDotEntry [dotDot] := ⟨dotDot, by decide, by decide⟩
  have hsibling : ∀ cs, ¬At sampleBundle siblingEntry cs := by
    rintro cs ⟨path, hname, -⟩
    have hslash : (siblingEntry.name.drop sampleBundle.length).head? = some '/' := by
      rw [hname, List.drop_left]
      rfl
    exact absurd hslash (by decide)
  refine ⟨⟨?_, intoFsNode_dotDot hdot List.mem_cons_self List.mem_cons_self⟩, ?_, ?_⟩
  · rintro cs ⟨e, he, hkind, hat⟩ hdir
    rw [List.mem_singleton.1 he] at hat
    rw [hat.unique hdot] at hdir
    rcases hdir with hnil | ⟨e', he', cs', hat', -, hdir⟩
    · exact nomatch hnil
    · rw [List.mem_singleton.1 he'] at hat' hdir
      exact absurd (hdir (hdot.unique hat')) (by decide)
  · rintro cs ⟨e, he, -, hat⟩
    rw [List.mem_singleton.1 he] at hat
    exact absurd hat (hsibling cs)
  · have hkind : (intoFsNode sampleBundle [siblingEntry]).toOption.bind
        (fun t => kindAt t ["endix".toList, "text".toList]) = some .file := by decide
    cases ht : intoFsNode sampleBundle [siblingEntry] with
    | error e =>
      rw [ht] at hkind
      exact nomatch hkind
    | ok t =>
      rw [ht] at hkind
      refine ⟨t, rfl, fun htree => ?_⟩
      obtain ⟨e, he, -, hat⟩ := (htree.file _).1 hkind
      rw [List.mem_singleton.1 he] at hat
      exact hsibling _ hat

end TouchHLE.Fs
