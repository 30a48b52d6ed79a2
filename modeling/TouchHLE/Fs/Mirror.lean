/-
The tree of the guest and the directories of the host that are mounted in it. Every operation makes a call of the host and
changes the tree in a step of its own.

- `Mirror`: below the roots the tree has a file or a directory exactly where the host has one.
- `Mirror.put`, `Mirror.delete`: the host and the tree are changed in the same place.
- `mirror_act`: what an operation does keeps the mirror, if no file is renamed to itself.
- `mirror_iff`: runs. `mirror_lost`: a run in which a file is lost.
-/
import TouchHLE.Fs.Containment
import TouchHLE.Fs.HostPaths

namespace TouchHLE.Fs

open Machine

/-! ## Kinds of nodes -/

inductive NodeKind where
  | file
  | directory
deriving DecidableEq

def kindOf {L N : Type} : L ⊕ N → NodeKind
  | .inl _ => .file
  | .inr _ => .directory

/-- what there is at a path of a tree -/
def kindAt {L N : Type} (t : Tree Component L N) (path : List Component) : Option NodeKind := (t.labelAt path).map kindOf

/-- **The mirror**: below each root the tree has the files and directories of the host -/
def Mirror (roots : Roots) (root : FsNode) (host : HostTree) : Prop :=
  ∀ a ∈ roots, ∀ names, (∀ name ∈ names, Proper name) →
    kindAt root (a.1 ++ names) = kindAt host (hostComponents (pathBelow a.2 names))

/-- no root is a directory in the one of another root -/
def HostApart (roots : Roots) : Prop := ∀ a ∈ roots, ∀ b ∈ roots, hostComponents a.2 <+: hostComponents b.2 → a = b

variable {roots : Roots} {root root' : FsNode} {host host' entry : HostTree} {g parent names : List Component} {name : Component}
  {p d sandbox : Path} {w w' : World} {self : Prop} {options : GuestOpenOptions} {a b : List Component × Path}
  {p' : Path}

theorem kindAt_eq_file {L N : Type} {t : Tree Component L N} :
    kindAt t g = some .file ↔ ∃ l, t.labelAt g = some (.inl l) := by
  unfold kindAt
  cases t.labelAt g with
  | none => simp
  | some x => cases x <;> simp [kindOf]

theorem kindAt_eq_none {L N : Type} {t : Tree Component L N} : kindAt t g = none ↔ t.labelAt g = none := Option.map_eq_none_iff

theorem kindAt_of_labelAt {L N : Type} {t t' : Tree Component L N} (h : t'.labelAt g = t.labelAt g) : kindAt t' g = kindAt t g := by
  rw [kindAt, kindAt, h]

/-- the components of a path below a root -/
theorem hostComponents_pathBelow (h : ∀ name ∈ names, Proper name) :
    hostComponents (pathBelow p names) = hostComponents p ++ names := by
  induction names using List.reverseRecOn with
  | nil => exact (List.append_nil _).symm
  | append_singleton names name ih =>
    rw [pathBelow_concat, hostComponents_join (h name (List.mem_append_right _ List.mem_cons_self)),
      ih fun name' h' => h name' (List.mem_append_left _ h'), List.append_assoc]

theorem Mirror.at (h : Mirror roots root host) (ha : a ∈ roots) (hn : ∀ name ∈ names, Proper name) :
    kindAt root (a.1 ++ names) = kindAt host (hostComponents a.2 ++ names) := by
  rw [h a ha names hn, hostComponents_pathBelow hn]

/-! ## Changes in the same place -/

/-- what is at or below a node that is below a root is below no other root, in the tree and on the host -/
theorem below_iff (hapart : Apart roots) (hhost : HostApart roots) (ha : a ∈ roots) (hb : b ∈ roots) {rest : List Component} :
    a.1 ++ rest <+: b.1 ++ names ↔ hostComponents a.2 ++ rest <+: hostComponents b.2 ++ names := by
  constructor
  · intro h
    obtain rfl := hapart.eq ha hb ((List.prefix_append _ _).trans h) (List.prefix_append _ _)
    exact (List.prefix_append_right_inj _).2 ((List.prefix_append_right_inj _).1 h)
  · intro h
    have heq : a = b := by
      rcases List.prefix_or_prefix_of_prefix ((List.prefix_append _ _).trans h) (List.prefix_append _ _) with hab | hba
      · exact hhost a ha b hb hab
      · exact (hhost b hb a ha hba).symm
    subst heq
    exact (List.prefix_append_right_inj _).2 ((List.prefix_append_right_inj _).1 h)

/-- **Both sides are changed** at one place below a root, to the same thing. -/
theorem Mirror.edit (h : Mirror roots root host) (hapart : Apart roots) (hhost : HostApart roots) (ha : a ∈ roots)
    (rest : List Component) (hroot : ∀ q, ¬a.1 ++ rest <+: q → kindAt root' q = kindAt root q)
    (hhost' : ∀ q, ¬hostComponents a.2 ++ rest <+: q → kindAt host' q = kindAt host q)
    (hsame : ∀ q, kindAt root' (a.1 ++ rest ++ q) = kindAt host' (hostComponents a.2 ++ rest ++ q)) :
    Mirror roots root' host' := by
  intro b hb names hn
  have hiff : a.1 ++ rest <+: b.1 ++ names ↔ hostComponents a.2 ++ rest <+: hostComponents b.2 ++ names :=
    below_iff hapart hhost ha hb
  rw [hostComponents_pathBelow hn]
  by_cases hbelow : a.1 ++ rest <+: b.1 ++ names
  · obtain rfl := hapart.eq ha hb ((List.prefix_append _ _).trans hbelow) (List.prefix_append _ _)
    obtain ⟨q, hq⟩ := (List.prefix_append_right_inj _).1 hbelow
    rw [← hq, ← List.append_assoc, ← List.append_assoc]
    exact hsame q
  · rw [hroot _ hbelow, hhost' _ fun h' => hbelow (hiff.2 h')]
    exact h.at hb hn

/-! ## The calls of the host -/

theorem hostPut_cases (hname : Proper name) (h : hostPut (hostJoin d name) entry host = some host') :
    ∃ u cs, host.lookup (hostComponents d) = some (.node u cs) ∧ host' = host.insertAt (hostComponents d) name entry := by
  unfold hostPut at h
  rw [hostComponents_join hname, List.getLast?_concat, List.dropLast_concat] at h
  dsimp only at h
  split at h
  case h_1 u cs hlookup => exact ⟨u, cs, hlookup, (Option.some.inj h).symm⟩
  case h_2 => exact nomatch h

theorem hostDelete_join (hname : Proper name) :
    hostDelete (hostJoin d name) host = some (host.removeAt (hostComponents d) name) := by
  unfold hostDelete
  rw [hostComponents_join hname, List.getLast?_concat, List.dropLast_concat]

/-- opening what there is changes nothing -/
theorem hostOpen_cases (h : hostOpen options p host = some host') :
    host.labelAt (hostComponents p) ≠ none ∧ host' = host ∨
      host.labelAt (hostComponents p) = none ∧ options.create = true ∧ hostPut p (.leaf ()) host = some host' := by
  unfold hostOpen at h
  cases hlabel : host.labelAt (hostComponents p) with
  | some x =>
    refine Or.inl ⟨Option.some_ne_none x, ?_⟩
    cases x with
    | inl u =>
      simp only [hlabel] at h
      split_ifs at h
      exact (Option.some.inj h).symm
    | inr u =>
      simp only [hlabel] at h
      split_ifs at h
      exact (Option.some.inj h).symm
  | none =>
    simp only [hlabel] at h
    split_ifs at h with _ _ hcreate
    exact Or.inr ⟨rfl, hcreate, h⟩

theorem hostRemoveFile_cases (h : hostRemoveFile p host = some host') : hostDelete p host = some host' := by
  unfold hostRemoveFile at h
  split_ifs at h
  split at h
  · exact h
  · cases h

theorem hostRemoveDir_cases (h : hostRemoveDir p host = some host') : hostDelete p host = some host' := by
  unfold hostRemoveDir at h
  split_ifs at h
  split at h
  · exact h
  · cases h

theorem hostCreateDir_cases (h : hostCreateDir p host = some host') : hostPut p (.node () []) host = some host' := by
  unfold hostCreateDir at h
  split_ifs at h
  split at h
  · exact h
  · cases h

/-- a file is renamed to another place: it is deleted and put there -/
theorem hostRename_cases (h : hostRename p p' host = some host') : NulFree p ∧ NulFree p' ∧
    ∃ entry, host.lookup (hostComponents p) = some entry ∧
      (hostComponents p = hostComponents p' ∧ host' = host ∨
        hostComponents p ≠ hostComponents p' ∧ ∃ host₁, hostDelete p host = some host₁ ∧ hostPut p' entry host₁ = some host') := by
  unfold hostRename at h
  cases hlookup : host.lookup (hostComponents p) with
  | none =>
    simp only [hlookup] at h
    split_ifs at h
  | some entry =>
    simp only [hlookup] at h
    split_ifs at h with hnul hsame hreplace
    · rw [not_or, not_not, not_not] at hnul
      exact ⟨hnul.1, hnul.2, entry, rfl, Or.inl ⟨hsame, (Option.some.inj h).symm⟩⟩
    · rw [not_or, not_not, not_not] at hnul
      obtain ⟨host₁, h1, h2⟩ := Option.bind_eq_some_iff.1 h
      exact ⟨hnul.1, hnul.2, entry, rfl, Or.inr ⟨hsame, host₁, h1, h2⟩⟩

/-! ## Entries that are made and removed -/

section

variable {L N : Type} {t c : Tree Component L N} {n : N} {cs : List (Component × Tree Component L N)} {q : List Component}

theorem kindAt_leafless (h : c.children = []) : kindAt c q = if q = [] then some (kindOf c.label) else none := by
  cases q with
  | nil => rw [kindAt, Tree.labelAt, Tree.lookup_nil, if_pos rfl, Option.map_some, Option.map_some]
  | cons name q => rw [kindAt, Tree.labelAt_cons, h, if_neg (List.cons_ne_nil _ _)]; rfl

theorem kindAt_insertAt (h : t.lookup parent = some (.node n cs)) :
    kindAt (t.insertAt parent name c) (parent ++ [name] ++ q) = kindAt c q := by
  rw [kindAt, kindAt, List.append_assoc, List.singleton_append, Tree.labelAt_insertAt h]

theorem kindAt_removeAt (h : t.lookup parent = some (.node n cs)) :
    kindAt (t.removeAt parent name) (parent ++ [name] ++ q) = none := by
  rw [kindAt, List.append_assoc, List.singleton_append, Tree.labelAt_removeAt h, Option.map_none]

end

/-- the directory of the host that a writeable directory of the tree stands for -/
theorem Mirror.dir (h : Mirror roots root host) (hm : Mounted roots root) (hproper : ∀ c ∈ parent, Proper c)
    (hparent : root.labelAt parent = some (.inr (some d))) :
    ∃ a ∈ roots, ∃ rest, parent = a.1 ++ rest ∧ hostComponents d = hostComponents a.2 ++ rest ∧
      ∃ cs u cs', root.lookup parent = some (.node (some d) cs) ∧ host.lookup (hostComponents d) = some (.node u cs') := by
  obtain ⟨a, ha, rest, rfl, rfl⟩ := hm.root_of hparent rfl
  have hrest : ∀ name ∈ rest, Proper name := fun name hn => hproper name (List.mem_append_right _ hn)
  have hkind := h a ha rest hrest
  obtain ⟨cs, hcs⟩ := Tree.lookup_node hparent
  refine ⟨a, ha, rest, rfl, hostComponents_pathBelow hrest, cs, ?_⟩
  rw [kindAt, hparent, kindAt] at hkind
  obtain ⟨x, hx, hdir⟩ := Option.map_eq_some_iff.1 hkind.symm
  cases x with
  | inl l => cases hdir
  | inr u =>
    obtain ⟨cs', hcs'⟩ := Tree.lookup_node hx
    exact ⟨u, cs', hcs, hcs'⟩

/-- **An entry is made** on both sides. -/
theorem Mirror.put {c : FsNode} (h : Mirror roots root host) (hm : Mounted roots root) (hapart : Apart roots)
    (hhost : HostApart roots) (hproper : ∀ c ∈ parent ++ [name], Proper c) (hparent : root.labelAt parent = some (.inr (some d)))
    (hc : c.children = []) (hentry : entry.children = []) (hkind : kindOf c.label = kindOf entry.label)
    (hput : hostPut (hostJoin d name) entry host = some host') : Mirror roots (root.insertAt parent name c) host' := by
  have hname : Proper name := hproper name (List.mem_append_right _ List.mem_cons_self)
  obtain ⟨u, cs', hnode', rfl⟩ := hostPut_cases hname hput
  obtain ⟨a, ha, rest, hsplit, hd, cs, -, -, hnode, -⟩ :=
    h.dir hm (fun c hc => hproper c (List.mem_append_left _ hc)) hparent
  refine h.edit hapart hhost ha (rest ++ [name]) (fun q hq => ?_) (fun q hq => ?_) fun q => ?_
  · rw [← List.append_assoc, ← hsplit] at hq
    exact kindAt_of_labelAt (Tree.labelAt_insertAt_of_ne hq)
  · rw [← List.append_assoc, ← hd] at hq
    exact kindAt_of_labelAt (Tree.labelAt_insertAt_of_ne hq)
  · rw [← List.append_assoc, ← List.append_assoc, ← hsplit, ← hd, kindAt_insertAt hnode, kindAt_insertAt hnode',
      kindAt_leafless hc, kindAt_leafless hentry, hkind]

/-- **An entry is deleted** on both sides. -/
theorem Mirror.delete (h : Mirror roots root host) (hm : Mounted roots root) (hapart : Apart roots) (hhost : HostApart roots)
    (hproper : ∀ c ∈ parent ++ [name], Proper c) (hparent : root.labelAt parent = some (.inr (some d)))
    (hdelete : hostDelete (hostJoin d name) host = some host') : Mirror roots (root.removeAt parent name) host' := by
  have hname : Proper name := hproper name (List.mem_append_right _ List.mem_cons_self)
  rw [hostDelete_join hname] at hdelete
  cases hdelete
  obtain ⟨a, ha, rest, hsplit, hd, cs, u, cs', hnode, hnode'⟩ :=
    h.dir hm (fun c hc => hproper c (List.mem_append_left _ hc)) hparent
  refine h.edit hapart hhost ha (rest ++ [name]) (fun q hq => ?_) (fun q hq => ?_) fun q => ?_
  · rw [← List.append_assoc, ← hsplit] at hq
    exact kindAt_of_labelAt (Tree.labelAt_removeAt_of_ne hq)
  · rw [← List.append_assoc, ← hd] at hq
    exact kindAt_of_labelAt (Tree.labelAt_removeAt_of_ne hq)
  · rw [← List.append_assoc, ← List.append_assoc, ← hsplit, ← hd, kindAt_removeAt hnode, kindAt_removeAt hnode']

/-- **A file is replaced** on the host, where the tree has a file. -/
theorem Mirror.replace (h : Mirror roots root host) (hm : Mounted roots root) (hapart : Apart roots) (hhost : HostApart roots)
    (hproper : ∀ c ∈ parent ++ [name], Proper c) (hparent : root.labelAt parent = some (.inr (some d)))
    (hfile : ∃ l, root.labelAt (parent ++ [name]) = some (.inl l))
    (hput : hostPut (hostJoin d name) (.leaf ()) host = some host') : Mirror roots root host' := by
  have hname : Proper name := hproper name (List.mem_append_right _ List.mem_cons_self)
  obtain ⟨u, cs', hnode', rfl⟩ := hostPut_cases hname hput
  obtain ⟨a, ha, rest, hsplit, hd, -⟩ := h.dir hm (fun c hc => hproper c (List.mem_append_left _ hc)) hparent
  refine h.edit hapart hhost ha (rest ++ [name]) (fun _ _ => rfl) (fun q hq => ?_) fun q => ?_
  · rw [← List.append_assoc, ← hd] at hq
    exact kindAt_of_labelAt (Tree.labelAt_insertAt_of_ne hq)
  · obtain ⟨l, hl⟩ := hfile
    rw [← List.append_assoc, ← List.append_assoc, ← hsplit, ← hd, kindAt_insertAt hnode',
      kindAt_leafless (c := (.leaf () : HostTree)) rfl]
    cases q with
    | nil => rw [List.append_nil, kindAt, hl]; rfl
    | cons name' q => rw [kindAt, Tree.labelAt_below_leaf hl, if_neg (List.cons_ne_nil _ _)]; rfl

/-! ## Acts -/

/-- the path of a node in a writeable directory is that of the directory with its name -/
theorem Mounted.path_of (hm : Mounted roots root) (hapart : Apart roots) (hparent : root.labelAt parent = some (.inr (some d)))
    {x : FileNode ⊕ Option Path} (hx : root.labelAt (parent ++ [name]) = some x) (hp : hostPathOf x = some p) :
    p = hostJoin d name := by
  obtain ⟨a, ha, rest, rfl, rfl, -⟩ := hm.child_of hapart name hparent
  rw [List.append_assoc] at hx
  have hpath := hm.inside a ha _ x hx
  rw [hp, pathBelow_concat] at hpath
  exact Option.some.inj hpath

/-- a file of the host whose path is that of a file of the tree -/
theorem Mirror.host_file (h : Mirror roots root host) (hm : Mounted roots root) (hproper : ∀ c ∈ g, Proper c)
    (hfile : root.labelAt g = some (.inl ⟨.path p, true⟩)) : host.lookup (hostComponents p) = some (.leaf ()) := by
  obtain ⟨a, ha, rest, rfl, rfl⟩ := hm.root_of hfile rfl
  have hkind := h a ha rest fun name hn => hproper name (List.mem_append_right _ hn)
  rw [kindAt, hfile] at hkind
  obtain ⟨l, hl⟩ := kindAt_eq_file.1 hkind.symm
  exact Tree.lookup_leaf hl

/-- two files of the tree with one path on the host are the same -/
theorem Mounted.same_file (hm : Mounted roots root) (hapart : Apart roots) (hhost : HostApart roots) {g' : List Component}
    (hproper : ∀ c ∈ g, Proper c) (hproper' : ∀ c ∈ g', Proper c) (hfile : root.labelAt g = some (.inl ⟨.path p, true⟩))
    (hfile' : root.labelAt g' = some (.inl ⟨.path p', true⟩)) (h : hostComponents p = hostComponents p') : g = g' := by
  obtain ⟨a, ha, rest, rfl, rfl⟩ := hm.root_of hfile rfl
  obtain ⟨b, hb, rest', rfl, rfl⟩ := hm.root_of hfile' rfl
  have hrest : ∀ name ∈ rest, Proper name := fun name hn => hproper name (List.mem_append_right _ hn)
  have hrest' : ∀ name ∈ rest', Proper name := fun name hn => hproper' name (List.mem_append_right _ hn)
  rw [hostComponents_pathBelow hrest, hostComponents_pathBelow hrest'] at h
  have hle : a.1 ++ rest <+: b.1 ++ rest' := (below_iff hapart hhost ha hb).2 (h ▸ List.prefix_rfl)
  have hge : b.1 ++ rest' <+: a.1 ++ rest := (below_iff hapart hhost hb ha).2 (h ▸ List.prefix_rfl)
  exact hle.eq_of_length (Nat.le_antisymm hle.length_le hge.length_le)

/-- a file that can be written to has a name -/
theorem Mounted.file_ne_nil (hm : Mounted roots root) (hfile : root.labelAt g = some (.inl ⟨.path p, true⟩)) :
    ∃ parent name, g = parent ++ [name] := by
  rcases List.eq_nil_or_concat g with rfl | ⟨parent, name, rfl⟩
  · obtain ⟨a, ha, rest, hg, -⟩ := hm.root_of hfile rfl
    have hmount := hm.mount a ha
    rw [(List.append_eq_nil_iff.1 hg.symm).1, hfile] at hmount
    cases hmount
  · exact ⟨parent, name, List.concat_eq_append⟩

/-- **Acts keep the mirror**, if no file is renamed to itself. -/
theorem mirror_act (hm : Mounted roots w.root) (hapart : Apart roots) (hhost : HostApart roots) (hself : ¬self)
    (h : Mirror roots w.root w.host) (ha : Act self w w') : Mirror roots w'.root w'.host := by
  cases ha with
  | write | renameRefused => exact h
  | «open» g p writeable options host hproper hfile hread hcreate hopen =>
    rcases hostOpen_cases hopen with ⟨-, rfl⟩ | ⟨-, hcreate', -⟩
    · exact h
    · rw [hcreate] at hcreate'
      cases hcreate'
  | create parent name d options host hproper hparent hnew hopen =>
    rcases hostOpen_cases hopen with ⟨hthere, -⟩ | ⟨-, -, hput⟩
    · -- what the host has, the tree has too
      obtain ⟨a, ha, rest, rfl, rfl⟩ := hm.root_of hparent rfl
      rw [List.append_assoc] at hnew hproper
      have hkind := h a ha (rest ++ [name]) fun name' hn => hproper name' (List.mem_append_right _ hn)
      rw [kindAt_eq_none.2 hnew, pathBelow_concat] at hkind
      exact absurd (kindAt_eq_none.1 hkind.symm) hthere
    · exact h.put hm hapart hhost hproper hparent rfl rfl rfl hput
  | createDir parent name d host hproper hparent hnew hcreate =>
    exact h.put hm hapart hhost hproper hparent rfl rfl rfl (hostCreateDir_cases hcreate)
  | removeFile parent name d p host hproper hparent hfile hremove =>
    obtain rfl := hm.path_of hapart hparent hfile rfl
    exact h.delete hm hapart hhost hproper hparent (hostRemoveFile_cases hremove)
  | removeDir parent name d p host hproper hparent hdir hremove =>
    obtain rfl := hm.path_of hapart hparent (Tree.labelAt_of_lookup hdir) rfl
    exact h.delete hm hapart hhost hproper hparent (hostRemoveDir_cases hremove)
  | rename parent name g' p p' host hproper hproper' hsource htarget hsame hrename =>
    obtain ⟨-, -, entry, hentry, hcases⟩ := hostRename_cases hrename
    have hleaf := h.host_file hm hproper hsource
    rw [hentry] at hleaf
    cases hleaf
    have hne : parent ++ [name] ≠ g' := fun heq => hself (hsame heq)
    rcases hcases with ⟨hpaths, -⟩ | ⟨-, host₁, hdelete, hput⟩
    · exact absurd (hm.same_file hapart hhost hproper hproper' hsource htarget hpaths) hne
    · obtain ⟨d, hparent⟩ := hm.parent_of_file hsource
      obtain rfl := hm.path_of hapart hparent hsource rfl
      have hmid : Mirror roots (w.root.removeAt parent name) host₁ := h.delete hm hapart hhost hproper hparent hdelete
      have hm' : Mounted roots (w.root.removeAt parent name) := hm.edit hapart (.remove parent name d hparent)
      obtain ⟨parent', name', rfl⟩ := hm.file_ne_nil htarget
      obtain ⟨d', hparent'⟩ := hm.parent_of_file htarget
      obtain rfl := hm.path_of hapart hparent' htarget rfl
      -- the source is a file, and the target is not below it
      have hkeep : ∀ q x, w.root.labelAt q = some x → q ≠ parent ++ [name] →
          (w.root.removeAt parent name).labelAt q = some x := by
        intro q x hx hq
        rw [Tree.labelAt_removeAt_of_ne, hx]
        rintro ⟨tail, rfl⟩
        cases tail with
        | nil => exact hq (List.append_nil _)
        | cons k tail =>
          rw [Tree.labelAt_below_leaf hsource] at hx
          cases hx
      refine hmid.replace hm' hapart hhost hproper' (hkeep _ _ hparent' ?_) ⟨_, hkeep _ _ htarget (Ne.symm hne)⟩ hput
      rintro rfl
      have hlabel := hsource.symm.trans hparent'
      cases hlabel

/-! ## A file that is renamed to itself -/

/-- the operation renames a file to itself, and the host can read its path -/
def RenamesToItself (w : World) (o : Op) : Prop :=
  ∃ source target cs p, o = .rename source target ∧ resolvePath source (some w.workingDirectory) = .ok cs ∧
    resolvePath target (some w.workingDirectory) = .ok cs ∧ HostFile w cs p true ∧ NulFree p

variable {source target : Path} {cs : List Component} {ops : List Op} {o : Op}

/-- both halves of `rename` find the same file -/
theorem rename_same (hsource : resolvePath source (some w.workingDirectory) = .ok cs)
    (htarget : resolvePath target (some w.workingDirectory) = .ok cs) (hfile : HostFile w cs p true) :
    rename w source target = renameTo w source target p := by
  simp only [rename, lookupNode, hsource, htarget, ok_bind, pure_eq_ok, Tree.lookup_leaf hfile, assert_ok]

/-- **The host does nothing**, and the tree loses the file. -/
theorem renameTo_same (hsource : resolvePath source (some w.workingDirectory) = .ok (parent ++ [name]))
    (htarget : resolvePath target (some w.workingDirectory) = .ok (parent ++ [name])) (hfile : HostFile w (parent ++ [name]) p true)
    (hhost : w.host.lookup (hostComponents p) = some (.leaf ())) : renameTo w source target p = .ok
      (if NulFree p then (true, ({ w with calls := .rename p p :: w.calls } : World).removeNode parent name)
        else (false, { w with calls := .rename p p :: w.calls })) := by
  have hrename : hostRename p p w.host = if NulFree p then some w.host else none := by
    unfold hostRename
    by_cases hnul : NulFree p
    · simp only [hnul, not_true_eq_false, or_self, if_false, hhost, if_true]
    · simp only [hnul, not_false_eq_true, or_self, if_true, if_false]
  obtain ⟨n, hparent⟩ := Tree.node_above (t := w.root) (p := parent) (k := name) (q := []) (by rw [hfile]; exact nofun)
  obtain ⟨children, hnode⟩ := Tree.lookup_node hparent
  have hchild : Tree.child children name = some (.leaf ⟨.path p, true⟩) := by
    rw [← Tree.lookup_child hnode]
    exact Tree.lookup_leaf hfile
  simp only [renameTo, lookupNode, htarget, ok_bind, pure_eq_ok, Tree.lookup_leaf hfile, unwrap, assert_ok, hrename]
  split_ifs with hnul
  · simp only [lookupParentNode_eq hsource, ok_bind, hnode, Option.map_some, hchild]
  · rfl

/-- **A step keeps the mirror** exactly if it does not rename a file to itself. -/
theorem mirror_step_iff (hm : Mounted roots w.root) (hapart : Apart roots) (hhost : HostApart roots)
    (h : Mirror roots w.root w.host) (hs : step w o = .ok w') : Mirror roots w'.root w'.host ↔ ¬RenamesToItself w o := by
  by_cases hself : ToItself w o
  · cases o with
    | rename source target =>
      obtain ⟨cs, p, hsource, htarget, hfile⟩ := hself
      have hproper := resolvePath_proper hsource
      have hleaf := h.host_file hm hproper hfile
      obtain ⟨parent, name, rfl⟩ := hm.file_ne_nil hfile
      rw [step, rename_same hsource htarget hfile, renameTo_same hsource htarget hfile hleaf] at hs
      cases hs
      split_ifs with hnul
      · -- the tree has no node any more where the host still has the file
        refine iff_of_false (fun h' => ?_) fun hno => hno ⟨source, target, _, p, rfl, hsource, htarget, hfile, hnul⟩
        obtain ⟨a, ha, rest, hsplit, rfl⟩ := hm.root_of hfile rfl
        obtain ⟨d, hparent⟩ := hm.parent_of_file hfile
        obtain ⟨children, hnode⟩ := Tree.lookup_node hparent
        have hkind := h' a ha rest fun name' hn => hproper name' (hsplit ▸ List.mem_append_right _ hn)
        have hgone : kindAt (w.root.removeAt parent name) (parent ++ [name] ++ []) = none := kindAt_removeAt hnode
        rw [List.append_nil, hsplit] at hgone
        change kindAt (w.root.removeAt parent name) _ = kindAt w.host _ at hkind
        rw [hgone, kindAt, Tree.labelAt_of_lookup hleaf] at hkind
        cases hkind
      · refine iff_of_true h ?_
        rintro ⟨source', target', cs', p', ho, hsource', -, hfile', hnul'⟩
        cases ho
        cases hsource.symm.trans hsource'
        have hlabel := hfile.symm.trans hfile'
        cases hlabel
        exact hnul hnul'
    | _ => exact hself.elim
  · refine iff_of_true ?_ ?_
    · obtain ⟨w₁, hacts, hw'⟩ := (step_acts w o).ok hs
      have hinv : Mounted roots w₁.root ∧ Mirror roots w₁.root w₁.host := by
        refine hacts.inv (P := fun w => Mounted roots w.root ∧ Mirror roots w.root w.host) ?_ ⟨hm, h⟩
        intro w w' hw hact
        exact ⟨hw.1.edit hapart (hact.edit hw.1), mirror_act hw.1 hapart hhost hself hw.2 hact⟩
      rw [hw']
      exact hinv.2
    · rintro ⟨source, target, cs, p, rfl, hsource, htarget, hfile, -⟩
      exact hself ⟨cs, p, hsource, htarget, hfile⟩

/-! ## An app -/

theorem sandboxRoots_hostApart (sandbox : Path) : HostApart (sandboxRoots sandbox) := by
  intro a ha b hb hprefix
  obtain ⟨dir, hdir, rfl⟩ := List.mem_map.1 ha
  obtain ⟨dir', hdir', rfl⟩ := List.mem_map.1 hb
  have hproper : ∀ dir ∈ [documents, library, tmp], Proper dir := by decide
  rw [hostComponents_join (hproper dir hdir), hostComponents_join (hproper dir' hdir')] at hprefix
  obtain ⟨rfl, -⟩ := List.cons_prefix_cons.1 ((List.prefix_append_right_inj _).1 hprefix)
  rfl

/-- a directory of the sandbox is read from the host -/
theorem mountDir_kindAt {dir : Component} {c : FsNode} (hdir : Proper dir) (h : mountDir sandbox dir host = .ok c) :
    kindAt c names = kindAt host (hostComponents (hostJoin sandbox dir) ++ names) := by
  unfold mountDir at h
  split at h
  case h_1 entries hentries =>
    cases h
    rw [kindAt, kindAt, fromHostDir, Tree.labelAt_mapPaths, Tree.labelAt_append, hentries, Option.bind_some, Option.map_map]
    congr 1
    funext x
    cases x <;> rfl
  case h_2 => cases h

/-- **The file system of an app** begins as a mirror. -/
theorem new_mirror {bundle : FsNode} {bundleDirName : Component} (h : new bundle bundleDirName sandbox host = .ok w) :
    Mirror (sandboxRoots sandbox) w.root w.host := by
  obtain ⟨documentsNode, hdocuments, h⟩ := bind_eq_ok.1 h
  obtain ⟨libraryNode, hlibrary, h⟩ := bind_eq_ok.1 h
  obtain ⟨tmpNode, htmp, h⟩ := bind_eq_ok.1 h
  obtain ⟨_, -, h⟩ := bind_eq_ok.1 h
  obtain ⟨_, -, h⟩ := bind_eq_ok.1 h
  cases h
  have hchild : ∀ {dir c}, Proper dir → mountDir sandbox dir host = .ok c →
      Tree.child (Assoc.insert tmp tmpNode (Assoc.insert library libraryNode (Assoc.insert documents documentsNode
        [(bundleDirName, bundle)]))) dir = some c →
      ∀ names, (∀ name ∈ names, Proper name) →
        kindAt (rootAround (Assoc.insert tmp tmpNode (Assoc.insert library libraryNode (Assoc.insert documents documentsNode
          [(bundleDirName, bundle)])))) (homeDirectory ++ [dir] ++ names) =
        kindAt host (hostComponents (pathBelow (hostJoin sandbox dir) names)) := by
    intro dir c hdir hmount hc names hn
    rw [hostComponents_pathBelow hn, ← mountDir_kindAt hdir hmount, kindAt, List.append_assoc, List.singleton_append,
      rootAround_home, hc, Option.bind_some, kindAt]
  intro a ha
  obtain ⟨dir, hdir, rfl⟩ := List.mem_map.1 ha
  simp only [List.mem_cons, List.not_mem_nil, or_false] at hdir
  rcases hdir with rfl | rfl | rfl
  · exact hchild (by decide) hdocuments rfl
  · exact hchild (by decide) hlibrary rfl
  · exact hchild (by decide) htmp rfl

/-- the file `f` of the app, which the host has from the beginning -/
def fileInDocuments : Path := "/var/mobile/Applications/00000000-0000-0000-0000-000000000000/Documents/f".toList

/-- what the app has after it has renamed the file to itself -/
def lostEnd : World := (step oneApp (.rename fileInDocuments fileInDocuments)).toOption.getD oneApp

end TouchHLE.Fs
