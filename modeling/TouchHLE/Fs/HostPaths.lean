/-
`Fs::host_path_for`: which file of the host a path means, decided apart from `open_with_options`.

- `hostPathFor`: the function.
- `Opens`: what `open_with_options` may do where that is the answer. `openExisting_opens`, `openNew_opens`: both halves of it.
- `host_path_for`: both agree.
-/
import TouchHLE.Fs.Actions

namespace TouchHLE.Fs

open Machine

def hostPathFor (fs : Fs) (path : Path) : Except Panic (Option Path) := do
  match ← lookupNode fs path with
  | some (.leaf ⟨.path hostPath, _⟩) => pure (some hostPath)
  | some _ => pure none
  | none =>
    -- where it would be created
    match ← lookupParentNode fs path with
    | some (_, .node (some dirHostPath) _, filename) => pure (some (hostJoin dirHostPath filename))
    | _ => pure none

variable {w : World} {path : Path} {options : GuestOpenOptions} {parent : List Component} {name : Component}
  {children : List (Component × FsNode)} {cs : List Component} {dirHostPath : Option Path} {hostPath : Option Path}

theorem hostPathFor_cases {r : Option Path} (h : hostPathFor w.toFs path = .ok r) :
    ∃ cs, resolvePath path (some w.workingDirectory) = .ok cs := by
  obtain ⟨node, hnode, -⟩ := bind_eq_ok.1 h
  obtain ⟨cs, hresolve, -⟩ := (lookupNode_ends w.toFs path).ok hnode
  exact ⟨cs, hresolve⟩

/-- the answer for a node that there is -/
def locationPath : FsNode → Option Path
  | .leaf ⟨.path hostPath, _⟩ => some hostPath
  | _ => none

theorem hostPathFor_of_some (w : World) {node : FsNode} (hresolve : resolvePath path (some w.workingDirectory) = .ok cs)
    (hlookup : w.root.lookup cs = some node) : hostPathFor w.toFs path = .ok (locationPath node) := by
  rw [hostPathFor, lookupNode, hresolve, ok_bind, hlookup]
  match node with
  | .leaf ⟨.path _, _⟩ | .leaf ⟨.ipaFileRef _, _⟩ | .leaf ⟨.resourceFilePath _, _⟩ | .node _ _ => rfl

theorem lookupParentNode_eq (hresolve : resolvePath path (some w.workingDirectory) = .ok (parent ++ [name])) :
    lookupParentNode w.toFs path = .ok ((w.root.lookup parent).map fun node => (parent, node, name)) := by
  rw [lookupParentNode, hresolve, ok_bind, List.getLast?_concat, List.dropLast_concat]
  rfl

theorem hostPathFor_of_none
    (hresolve : resolvePath path (some w.workingDirectory) = .ok (parent ++ [name]))
    (hparent : w.root.lookup parent = some (.node dirHostPath children)) (hchild : Tree.child children name = none) :
    hostPathFor w.toFs path = .ok (dirHostPath.map fun dirHostPath => hostJoin dirHostPath name) := by
  rw [hostPathFor, lookupNode, hresolve, ok_bind, Tree.lookup_child hparent, hchild, lookupParentNode_eq hresolve, hparent]
  cases dirHostPath <;> rfl

/-- it answers whenever the path can be resolved -/
theorem hostPathFor_total (hresolve : resolvePath path (some w.workingDirectory) = .ok cs) :
    ∃ r, hostPathFor w.toFs path = .ok r := by
  cases hlookup : w.root.lookup cs with
  | some node => exact ⟨_, hostPathFor_of_some w hresolve hlookup⟩
  | none =>
    rw [hostPathFor, lookupNode, hresolve, ok_bind, hlookup]
    rcases List.eq_nil_or_concat cs with rfl | ⟨parent, name, rfl⟩
    · rw [Tree.lookup_nil] at hlookup
      cases hlookup
    · rw [List.concat_eq_append] at hresolve
      rw [pure_bind]
      dsimp only
      rw [lookupParentNode_eq hresolve, ok_bind]
      match w.root.lookup parent with
      | none | some (.leaf _) | some (.node none _) | some (.node (some _) _) => exact ⟨_, rfl⟩

/-! ## Opening -/

/-- what `open_with_options` may do with a path, where that is what it means -/
def Opens (w : World) (path : Path) (hostPath : Option Path) : Except Panic (Option GuestFile × World) → Prop :=
  Ends (fun e => hostPath = none → e = .openOptions) fun r =>
    (∀ p, r.1 = some (.file p) → hostPath = some p ∧ hostPathFor r.2.toFs path = .ok (some p) ∧
      ∃ options, r.2.calls = .open p options :: w.calls) ∧
    ((∀ p, r.1 ≠ some (.file p)) → r.2 = w) ∧ (hostPath = none → ∀ p, r.1 ≠ some (.file p))

/-- nothing is opened on the host -/
theorem Opens.pure {file : Option GuestFile} (h : ∀ p, file ≠ some (.file p)) :
    Opens w path hostPath (.ok (file, w)) :=
  ⟨fun p hp => absurd hp (h p), fun _ => rfl, fun _ => h⟩

theorem Opens.assert {b : Bool} {file : GuestFile} (h : ∀ p, file ≠ .file p) :
    Opens w path hostPath (do assert b .openOptions; Pure.pure (some file, w)) := by
  cases b with
  | true => exact Opens.pure fun p hp => h p (Option.some.inj hp)
  | false => exact fun _ => rfl

theorem openExisting_opens {file : FileNode} (hresolve : resolvePath path (some w.workingDirectory) = .ok cs)
    (hlookup : w.root.lookup cs = some (.leaf file)) :
    Opens w path (locationPath (.leaf file)) (openExisting w options file) := by
  obtain ⟨location, writeable⟩ := file
  unfold openExisting
  split_ifs
  · exact Opens.pure fun _ hp => nomatch hp
  · cases location with
    | path p =>
      dsimp only
      cases hostOpen { options with create := false } p w.host with
      | none => exact fun hp => nomatch hp
      | some host =>
        refine ⟨fun p' hp => ?_, fun hp => absurd rfl (hp p), fun hp => nomatch hp⟩
        obtain rfl := GuestFile.file.inj (Option.some.inj hp)
        exact ⟨rfl, hostPathFor_of_some w hresolve hlookup, _, rfl⟩
    | ipaFileRef ref => exact Opens.assert fun _ hp => nomatch hp
    | resourceFilePath name => exact Opens.assert fun _ hp => nomatch hp

theorem openNew_opens
    (hresolve : resolvePath path (some w.workingDirectory) = .ok (parent ++ [name]))
    (hparent : w.root.lookup parent = some (.node dirHostPath children)) :
    Opens w path (dirHostPath.map fun dirHostPath => hostJoin dirHostPath name) (openNew w options parent dirHostPath name) := by
  unfold openNew
  split_ifs
  · exact Opens.pure fun _ hp => nomatch hp
  · cases dirHostPath with
    | none => exact Opens.pure fun _ hp => nomatch hp
    | some d =>
      rw [Option.map_some]
      dsimp only
      cases hassert : assert (decide ('/' ∉ name)) Panic.hostError with
      | error e => exact fun hp => nomatch hp
      | ok u =>
        rw [ok_bind]
        cases hostOpen options (hostJoin d name) w.host with
        | none => exact fun hp => nomatch hp
        | some host =>
          refine ⟨fun p hp => ?_, fun hp => absurd rfl (hp _), fun hp => nomatch hp⟩
          obtain rfl := GuestFile.file.inj (Option.some.inj hp)
          refine ⟨rfl, ?_, _, rfl⟩
          -- the new file is found from now on
          have hlabel : (w.root.insertAt parent name (.leaf ⟨.path (hostJoin d name), true⟩)).labelAt (parent ++ [name]) = _ :=
            Tree.labelAt_insertAt hparent []
          obtain ⟨node, hnode, hlabel⟩ := Tree.lookup_of_labelAt hlabel
          cases node with
          | node _ _ => cases hlabel
          | leaf file =>
            obtain rfl := Sum.inl.inj hlabel
            exact hostPathFor_of_some (w.insertNode parent name (.leaf ⟨.path (hostJoin d name), true⟩)) hresolve hnode

theorem openWithOptions_opens {hostPath : Option Path} (h : hostPathFor w.toFs path = .ok hostPath) :
    Opens w path hostPath (openWithOptions w path options) := by
  obtain ⟨cs, hresolve⟩ := hostPathFor_cases h
  unfold openWithOptions
  cases !options.truncate && !options.create || options.write || options.append with
  | false => exact fun _ => rfl
  | true =>
    rw [assert_ok rfl, ok_bind]
    rcases List.eq_nil_or_concat cs with rfl | ⟨parent, name, rfl⟩
    · rw [lookupParentNode, hresolve]
      exact Opens.pure fun _ hp => nomatch hp
    · rw [List.concat_eq_append] at hresolve
      rw [lookupParentNode_eq hresolve]
      match hparent : w.root.lookup parent with
      | none => exact Opens.pure fun _ hp => nomatch hp
      | some (.leaf _) => exact Opens.pure fun _ hp => nomatch hp
      | some (.node dirHostPath children) =>
        rw [Option.map_some, ok_bind]
        dsimp only
        have hnode := Tree.lookup_child (k := name) hparent
        match hchild : Tree.child children name with
        | none =>
          cases h.symm.trans (hostPathFor_of_none hresolve hparent hchild)
          exact openNew_opens hresolve hparent
        | some (.leaf file) =>
          rw [hchild] at hnode
          cases h.symm.trans (hostPathFor_of_some w hresolve hnode)
          exact openExisting_opens hresolve hnode
        | some (.node _ _) =>
          refine Opens.pure fun p hp => ?_
          cases hwrite : options.write with
          | true =>
            rw [hwrite] at hp
            cases hp
          | false =>
            rw [hwrite] at hp
            cases hp

/-- **Which file of the host** a path means is decided in the same way by both functions: where a path is opened and that opens or
makes a file of the host, it is the one that the path meant before, and the path means it afterwards; where the path means none,
the host is not called and there is no such file. -/
theorem host_path_for (w : World) (path : Path) (options : GuestOpenOptions) :
    (∀ p w', openWithOptions w path options = .ok (some (.file p), w') → hostPathFor w.toFs path = .ok (some p) ∧
      hostPathFor w'.toFs path = .ok (some p) ∧ ∃ options', w'.calls = .open p options' :: w.calls) ∧
    (hostPathFor w.toFs path = .ok none →
      Ends (fun e => e = .openOptions) (fun r => r.2 = w ∧ ∀ p, r.1 ≠ some (.file p)) (openWithOptions w path options)) := by
  constructor
  · intro p w' hopen
    obtain ⟨-, cs, hresolve, -⟩ := (@openWithOptions_acts True w path options).ok hopen
    obtain ⟨hostPath, hfor⟩ := hostPathFor_total hresolve
    obtain ⟨rfl, hafter⟩ := ((openWithOptions_opens hfor).ok hopen).1 p rfl
    exact ⟨hfor, hafter⟩
  · intro hfor
    have hopens := @openWithOptions_opens w path options none hfor
    cases hopen : openWithOptions w path options with
    | error e => exact hopens.error hopen rfl
    | ok r =>
      obtain ⟨-, hsame, hfile⟩ := hopens.ok hopen
      exact ⟨hsame (hfile rfl), hfile rfl⟩

end TouchHLE.Fs
