/-
What an operation of the file system can do, as a sequence of calls of the host and the changes of the tree that go with them.

- `Extends`: a tree in which everything is still there.
- `Act`: one call with its change of the tree. `Acts`: a sequence of these.
- `openWithOptions_acts`, `rename_acts` and so on: one lemma for each operation.
- `Op`, `step`, `step_acts`: any operation.
-/
import TouchHLE.Fs.FileSystem

namespace TouchHLE.Fs

open Machine

/-- **Everything is still there** and is what it was. -/
def Extends (t t' : FsNode) : Prop := ∀ q x, t.labelAt q = some x → t'.labelAt q = some x

theorem Extends.refl (t : FsNode) : Extends t t := fun _ _ h => h

theorem Extends.trans {t t' t'' : FsNode} (h : Extends t t') (h' : Extends t' t'') : Extends t t'' := fun q x hx => h' q x (h q x hx)

theorem extends_insertAt {t c : FsNode} {parent : List Component} {name : Component} (h : t.labelAt (parent ++ [name]) = none) :
    Extends t (t.insertAt parent name c) := by
  intro q x hx
  rw [Tree.labelAt_insertAt_of_ne, hx]
  rintro ⟨rest, rfl⟩
  rw [Tree.labelAt_below_none h] at hx
  cases hx

/-! ## Acts -/

/-- a directory of the tree that can be written to, and its path on the host -/
def WriteableDir (w : World) (g : List Component) (d : Path) : Prop := w.root.labelAt g = some (.inr (some d))

/-- a file of the tree with a path on the host -/
def HostFile (w : World) (g : List Component) (p : Path) (writeable : Bool) : Prop :=
  w.root.labelAt g = some (.inl ⟨.path p, writeable⟩)

/-- **A call of the host** and what becomes of the tree; `self` says whether a file may be renamed to itself -/
inductive Act (self : Prop) (w : World) : World → Prop where
  /-- an open file is written to -/
  | write (g : List Component) (p : Path) (hproper : ∀ c ∈ g, Proper c) (hfile : HostFile w g p true) :
      Act self w { w with calls := .write p :: w.calls }
  | open (g : List Component) (p : Path) (writeable : Bool) (options : GuestOpenOptions) (host : HostTree)
      (hproper : ∀ c ∈ g, Proper c) (hfile : HostFile w g p writeable)
      (hread : writeable = false → options.write = false ∧ options.append = false) (hcreate : options.create = false)
      (hopen : hostOpen options p w.host = some host) : Act self w { w with host, calls := .open p options :: w.calls }
  | create (parent : List Component) (name : Component) (d : Path) (options : GuestOpenOptions) (host : HostTree)
      (hproper : ∀ c ∈ parent ++ [name], Proper c) (hparent : WriteableDir w parent d)
      (hnew : w.root.labelAt (parent ++ [name]) = none) (hopen : hostOpen options (hostJoin d name) w.host = some host) :
      Act self w (({ w with host, calls := .open (hostJoin d name) options :: w.calls } : World).insertNode parent name
        (.leaf ⟨.path (hostJoin d name), true⟩))
  | createDir (parent : List Component) (name : Component) (d : Path) (host : HostTree)
      (hproper : ∀ c ∈ parent ++ [name], Proper c) (hparent : WriteableDir w parent d)
      (hnew : w.root.labelAt (parent ++ [name]) = none) (hcreate : hostCreateDir (hostJoin d name) w.host = some host) :
      Act self w (({ w with host, calls := .createDir (hostJoin d name) :: w.calls } : World).insertNode parent name
        (.node (some (hostJoin d name)) []))
  | removeFile (parent : List Component) (name : Component) (d p : Path) (host : HostTree)
      (hproper : ∀ c ∈ parent ++ [name], Proper c) (hparent : WriteableDir w parent d) (hfile : HostFile w (parent ++ [name]) p true)
      (hremove : hostRemoveFile p w.host = some host) :
      Act self w (({ w with host, calls := .removeFile p :: w.calls } : World).removeNode parent name)
  | removeDir (parent : List Component) (name : Component) (d p : Path) (host : HostTree)
      (hproper : ∀ c ∈ parent ++ [name], Proper c) (hparent : WriteableDir w parent d)
      (hdir : w.root.lookup (parent ++ [name]) = some (.node (some p) [])) (hremove : hostRemoveDir p w.host = some host) :
      Act self w (({ w with host, calls := .removeDir p :: w.calls } : World).removeNode parent name)
  | renameRefused (g g' : List Component) (p p' : Path) (hproper : ∀ c ∈ g, Proper c) (hproper' : ∀ c ∈ g', Proper c)
      (hsource : HostFile w g p true) (htarget : HostFile w g' p' true) :
      Act self w { w with calls := .rename p p' :: w.calls }
  | rename (parent : List Component) (name : Component) (g' : List Component) (p p' : Path) (host : HostTree)
      (hproper : ∀ c ∈ parent ++ [name], Proper c) (hproper' : ∀ c ∈ g', Proper c) (hsource : HostFile w (parent ++ [name]) p true)
      (htarget : HostFile w g' p' true) (hself : parent ++ [name] = g' → self) (hrename : hostRename p p' w.host = some host) :
      Act self w (({ w with host, calls := .rename p p' :: w.calls } : World).removeNode parent name)

def Acts (self : Prop) : World → World → Prop := Relation.ReflTransGen (Act self)

theorem Acts.refl {self : Prop} (w : World) : Acts self w w := Relation.ReflTransGen.refl

theorem Acts.single {self : Prop} {w w' : World} (h : Act self w w') : Acts self w w' := Relation.ReflTransGen.single h

theorem Acts.trans {self : Prop} {w w' w'' : World} (h : Acts self w w') (h' : Acts self w' w'') : Acts self w w'' :=
  Relation.ReflTransGen.trans h h'

/-- a property that every act keeps is kept by a sequence -/
theorem Acts.inv {self : Prop} {w w' : World} {P : World → Prop} (hact : ∀ w w', P w → Act self w w' → P w') (h : Acts self w w')
    (hw : P w) : P w' := by
  induction h with
  | refl => exact hw
  | tail _ hact' ih => exact hact _ _ ih hact'

theorem Act.workingDirectory {self : Prop} {w w' : World} (h : Act self w w') : w'.workingDirectory = w.workingDirectory := by
  cases h <;> rfl

theorem Acts.workingDirectory {self : Prop} {w w' : World} (h : Acts self w w') : w'.workingDirectory = w.workingDirectory :=
  h.inv (P := fun w' => w'.workingDirectory = w.workingDirectory) (fun _ _ hw hact => hact.workingDirectory.trans hw) rfl

/-- no panic is excluded -/
def Any (_ : Panic) : Prop := True

variable {self : Prop} {w w' : World} {path source target : Path} {options : GuestOpenOptions} {cs parent taken : List Component}
  {name : Component} {file : FileNode} {e : Panic} {α : Type}

/-! ## Looking up -/

theorem lookupParentNode_ends (fs : Fs) (path : Path) : Ends Any (fun r => ∃ cs, resolvePath path (some fs.workingDirectory) = .ok cs ∧
    (r = none ∨ ∃ parent node name, r = some (parent, node, name) ∧ cs = parent ++ [name] ∧ fs.root.lookup parent = some node))
    (lookupParentNode fs path) := by
  unfold lookupParentNode
  cases hresolve : resolvePath path (some fs.workingDirectory) with
  | error e => exact trivial
  | ok cs =>
    rw [ok_bind]
    cases hlast : cs.getLast? with
    | none => exact ⟨cs, rfl, .inl rfl⟩
    | some name =>
      obtain ⟨parent, rfl⟩ := List.getLast?_eq_some_iff.1 hlast
      rw [List.dropLast_concat]
      cases hlookup : fs.root.lookup parent with
      | none => exact ⟨_, rfl, .inl rfl⟩
      | some node => exact ⟨_, rfl, .inr ⟨parent, node, name, rfl, rfl, hlookup⟩⟩

theorem call_ends {call : HostCall} {result : Option HostTree} :
    Ends Any (fun w' => ∃ host, result = some host ∧ w' = { w with host, calls := call :: w.calls }) (w.call call result) := by
  cases result with
  | none => exact trivial
  | some host => exact ⟨host, rfl, rfl⟩

/-! ## Opening -/

theorem assert_ends {b : Bool} : Ends Any (fun _ => b = true) (assert b e) := by
  unfold assert
  split_ifs with hb
  · exact hb
  · exact trivial

/-- a file that is open for writing is one that can be written to, and nothing is lost -/
def OpenAt (w : World) (options : GuestOpenOptions) (cs : List Component) (r : Option GuestFile × World) : Prop :=
  Extends w.root r.2.root ∧ (options.write = true → ∀ p, r.1 = some (.file p) → HostFile r.2 cs p true)

theorem openExisting_acts (hproper : ∀ c ∈ cs, Proper c) (hfile : w.root.labelAt cs = some (.inl file)) :
    Ends Any (fun r => Acts self w r.2 ∧ OpenAt w options cs r) (openExisting w options file) := by
  obtain ⟨location, writeable⟩ := file
  unfold openExisting
  split_ifs with hread
  · exact ⟨Acts.refl w, Extends.refl _, fun _ _ h => nomatch h⟩
  · cases location with
    | path p =>
      refine call_ends.bind ?_
      rintro w' ⟨host, hopen, rfl⟩
      dsimp only at hread
      refine ⟨Acts.single (.open cs p writeable _ host hproper hfile (fun hw => ?_) rfl hopen), Extends.refl _, fun hwrite p' hp => ?_⟩
      · rw [hw] at hread
        simpa [and_comm] using hread
      · obtain rfl : p = p' := GuestFile.file.inj (Option.some.inj hp)
        cases writeable with
        | true => exact hfile
        | false =>
          rw [hwrite] at hread
          simp at hread
    | ipaFileRef ref => exact assert_ends.bind fun _ _ => ⟨Acts.refl w, Extends.refl _, fun _ _ h => nomatch h⟩
    | resourceFilePath name => exact assert_ends.bind fun _ _ => ⟨Acts.refl w, Extends.refl _, fun _ _ h => nomatch h⟩

theorem openNew_acts {dirHostPath : Option Path} {children : List (Component × FsNode)} (hproper : ∀ c ∈ parent ++ [name], Proper c)
    (hparent : w.root.lookup parent = some (.node dirHostPath children)) (hnew : w.root.labelAt (parent ++ [name]) = none) :
    Ends Any (fun r => Acts self w r.2 ∧ OpenAt w options (parent ++ [name]) r) (openNew w options parent dirHostPath name) := by
  unfold openNew
  split_ifs
  · exact ⟨Acts.refl w, Extends.refl _, fun _ _ h => nomatch h⟩
  · cases dirHostPath with
    | none => exact ⟨Acts.refl w, Extends.refl _, fun _ _ h => nomatch h⟩
    | some d =>
      refine assert_ends.bind fun _ _ => call_ends.bind ?_
      rintro w' ⟨host, hopen, rfl⟩
      refine ⟨Acts.single (.create parent name d options host hproper (Tree.labelAt_of_lookup hparent) hnew hopen), extends_insertAt hnew, fun _ p hp => ?_⟩
      obtain rfl := GuestFile.file.inj (Option.some.inj hp)
      exact Tree.labelAt_insertAt hparent []

theorem openWithOptions_acts : Ends Any (fun r => Acts self w r.2 ∧
    ∃ cs, resolvePath path (some w.workingDirectory) = .ok cs ∧ OpenAt w options cs r) (openWithOptions w path options) := by
  unfold openWithOptions
  refine assert_ends.bind fun _ _ => (lookupParentNode_ends w.toFs path).bind ?_
  rintro r ⟨cs, hresolve, rfl | ⟨parent, node, name, rfl, rfl, hlookup⟩⟩
  · exact ⟨Acts.refl w, cs, hresolve, Extends.refl _, fun _ _ h => nomatch h⟩
  · have hproper := resolvePath_proper hresolve
    cases node with
    | leaf file => exact ⟨Acts.refl w, _, hresolve, Extends.refl _, fun _ _ h => nomatch h⟩
    | node dirHostPath children =>
      have hlabel := Tree.labelAt_child_node (k := name) hlookup
      dsimp only
      cases hchild : Tree.child children name with
      | none =>
        rw [hchild] at hlabel
        exact (openNew_acts hproper hlookup hlabel).mono fun r hr => ⟨hr.1, _, hresolve, hr.2⟩
      | some child =>
        rw [hchild] at hlabel
        cases child with
        | leaf file => exact (openExisting_acts hproper hlabel).mono fun r hr => ⟨hr.1, _, hresolve, hr.2⟩
        | node _ _ =>
          refine ⟨Acts.refl w, _, hresolve, Extends.refl _, fun hwrite p h => ?_⟩
          dsimp only at h
          rw [hwrite, if_pos rfl] at h
          cases h

theorem write_acts : Ends Any (fun r => Acts self w r.2) (write w path) := by
  refine (@openWithOptions_acts self w path .toWrite).bind ?_
  rintro ⟨file, w'⟩ ⟨hacts, cs, hresolve, -, hopen⟩
  cases file with
  | none => exact hacts
  | some file =>
    cases file with
    | file p => exact hacts.trans (Acts.single (.write cs p (resolvePath_proper hresolve) (hopen rfl p rfl)))
    | directory | ipaBundleFile _ | resourceFile _ => exact trivial

/-! ## Renaming -/

/-- both paths are those of one file that can be written to -/
def SameFile (w : World) (source target : Path) : Prop :=
  ∃ cs p, resolvePath source (some w.workingDirectory) = .ok cs ∧ resolvePath target (some w.workingDirectory) = .ok cs ∧
    HostFile w cs p true

theorem lookupNode_ends (fs : Fs) (path : Path) : Ends Any
    (fun r => ∃ cs, resolvePath path (some fs.workingDirectory) = .ok cs ∧ r = fs.root.lookup cs) (lookupNode fs path) := by
  unfold lookupNode
  cases resolvePath path (some fs.workingDirectory) with
  | error e => exact trivial
  | ok cs => exact ⟨cs, rfl, rfl⟩

theorem unwrap_ends {x : Option α} : Ends Any (fun a => x = some a) (unwrap x e) := by
  cases x with
  | none => exact trivial
  | some a => exact rfl

/-- the second half of `rename`: the source is still the file that it was -/
theorem renameTo_acts {p : Path} (hresolve : resolvePath source (some w.workingDirectory) = .ok cs) (hsource : HostFile w cs p true)
    (hself : resolvePath target (some w.workingDirectory) = .ok cs → self) :
    Ends Any (fun r => Acts self w r.2) (renameTo w source target p) := by
  refine (lookupNode_ends w.toFs target).bind ?_
  rintro r ⟨cs', hresolve', rfl⟩
  refine unwrap_ends.bind fun toNode hto => ?_
  cases toNode with
  | node _ _ => exact Acts.refl w
  | leaf file =>
    obtain ⟨location, writeable⟩ := file
    cases location with
    | ipaFileRef _ | resourceFilePath _ => exact Acts.refl w
    | path p' =>
      dsimp only
      refine assert_ends.bind fun _ hwriteable => ?_
      obtain rfl : writeable = true := hwriteable
      have htarget : HostFile w cs' p' true := Tree.labelAt_of_lookup hto
      cases hrename : hostRename p p' w.host with
      | none => exact Acts.single (.renameRefused cs cs' p p' (resolvePath_proper hresolve) (resolvePath_proper hresolve') hsource htarget)
      | some host =>
        dsimp only
        refine (lookupParentNode_ends w.toFs source).bind ?_
        rintro r ⟨cs₁, hresolve₁, hr⟩
        obtain rfl : cs = cs₁ := Except.ok.inj (hresolve.symm.trans hresolve₁)
        refine unwrap_ends.bind ?_
        rintro ⟨parent, node, component⟩ hsome
        rcases hr with rfl | ⟨parent', node', name, rfl, rfl, hlookup⟩
        · cases hsome
        · obtain ⟨rfl, rfl, rfl⟩ : parent' = parent ∧ node' = node ∧ name = component := by simpa using hsome
          cases node' with
          | leaf _ => exact trivial
          | node _ children =>
            refine unwrap_ends.bind fun _ _ => Acts.single (.rename parent' name cs' p p' host (resolvePath_proper hresolve)
              (resolvePath_proper hresolve') hsource htarget (fun heq => hself ?_) hrename)
            rw [heq]
            exact hresolve'

theorem rename_acts : Ends Any (fun r => Acts (SameFile w source target) w r.2) (rename w source target) := by
  unfold rename
  refine (lookupNode_ends w.toFs source).bind ?_
  rintro r ⟨cs, hresolve, rfl⟩
  cases hlookup : w.root.lookup cs with
  | none => exact Acts.refl w
  | some node =>
    cases node with
    | node _ _ => exact trivial
    | leaf file =>
      obtain ⟨location, writeable⟩ := file
      cases location with
      | ipaFileRef _ | resourceFilePath _ => exact Acts.refl w
      | path p =>
        dsimp only
        refine assert_ends.bind fun _ hwriteable => ?_
        obtain rfl : writeable = true := hwriteable
        have hsource : HostFile w cs p true := Tree.labelAt_of_lookup hlookup
        refine (lookupNode_ends w.toFs target).bind ?_
        rintro r ⟨cs', hresolve', rfl⟩
        cases htarget : w.root.lookup cs' with
        | some _ =>
          refine renameTo_acts hresolve hsource fun hsame => ⟨cs, p, hresolve, hsame, hsource⟩
        | none =>
          -- the target is made first
          refine (@openWithOptions_acts (SameFile w source target) w target .toWrite).bind ?_
          rintro ⟨file, w'⟩ ⟨hacts, -, -, hextends, -⟩
          dsimp only at hacts ⊢
          split_ifs
          · exact hacts
          · have hwd : w'.workingDirectory = w.workingDirectory := hacts.workingDirectory
            have hkeep : HostFile w' cs p true := hextends _ _ hsource
            rw [← hwd] at hresolve hresolve'
            refine (renameTo_acts hresolve hkeep fun hsame => ?_).mono fun r hr => hacts.trans hr
            obtain rfl : cs' = cs := Except.ok.inj (hresolve'.symm.trans hsame)
            rw [htarget] at hlookup
            cases hlookup

/-! ## Removing and creating -/

theorem remove_acts : Ends Any (fun r => Acts self w r.2) (remove w path) := by
  unfold remove
  refine (lookupParentNode_ends w.toFs path).bind ?_
  rintro r ⟨cs, hresolve, rfl | ⟨parent, node, name, rfl, rfl, hlookup⟩⟩
  · exact Acts.refl w
  · have hproper := resolvePath_proper hresolve
    cases node with
    | leaf _ => exact Acts.refl w
    | node writeable children =>
      cases writeable with
      | none => exact Acts.refl w
      | some d =>
        have hparent : WriteableDir w parent d := Tree.labelAt_of_lookup hlookup
        have hchild := Tree.lookup_child (k := name) hlookup
        dsimp only
        cases hnode : Tree.child children name with
        | none => exact Acts.refl w
        | some node =>
          rw [hnode] at hchild
          cases node with
          | leaf file =>
            obtain ⟨location, writeable⟩ := file
            dsimp only
            cases writeable with
            | false => exact Acts.refl w
            | true =>
              cases location with
              | ipaFileRef _ | resourceFilePath _ => exact trivial
              | path p =>
                refine call_ends.bind ?_
                rintro w' ⟨host, hremove, rfl⟩
                exact Acts.single (.removeFile parent name d p host hproper hparent (Tree.labelAt_of_lookup hchild) hremove)
          | node writeable children =>
            cases children with
            | cons _ _ => exact Acts.refl w
            | nil =>
              cases writeable with
              | none => exact Acts.refl w
              | some p =>
                refine call_ends.bind ?_
                rintro w' ⟨host, hremove, rfl⟩
                exact Acts.single (.removeDir parent name d p host hproper hparent hchild hremove)

theorem createDir_acts : Ends Any (fun r => Acts self w r.2) (createDir w path) := by
  unfold createDir
  refine (lookupParentNode_ends w.toFs path).bind ?_
  rintro r ⟨cs, hresolve, rfl | ⟨parent, node, name, rfl, rfl, hlookup⟩⟩
  · exact Acts.refl w
  · cases node with
    | leaf _ => exact Acts.refl w
    | node dirHostPath children =>
      have hlabel := Tree.labelAt_child_node (k := name) hlookup
      dsimp only
      split_ifs with hexists
      · exact Acts.refl w
      · cases dirHostPath with
        | none => exact Acts.refl w
        | some d =>
          rw [Option.not_isSome_iff_eq_none.1 hexists, Option.map_none] at hlabel
          refine assert_ends.bind fun _ _ => call_ends.bind ?_
          rintro w' ⟨host, hcreate, rfl⟩
          exact Acts.single (.createDir parent name d host (resolvePath_proper hresolve) (Tree.labelAt_of_lookup hlookup) hlabel hcreate)

theorem createDirs_acts : Ends Any (fun r => Acts self w r.2) (createDirs w taken cs) := by
  induction cs generalizing w taken with
  | nil => exact Acts.refl w
  | cons name cs ih =>
    refine (@createDir_acts self w ((taken ++ [name]).flatMap ('/' :: ·))).bind ?_
    rintro ⟨res, w'⟩ hacts
    cases res with
    | ok _ => exact ih.mono fun r hr => hacts.trans hr
    | error e =>
      cases e with
      | alreadyExist => exact ih.mono fun r hr => hacts.trans hr
      | invalidParentDir | nonexistentParentDir | readonlyParentDir => exact hacts

theorem createDirAll_acts : Ends Any (fun r => Acts self w r.2) (createDirAll w path) := by
  refine assert_ends.bind fun _ _ => ?_
  cases resolvePath path none with
  | error e => exact trivial
  | ok cs => exact createDirs_acts

/-! ## Steps -/

inductive Op where
  | openWithOptions (path : Path) (options : GuestOpenOptions)
  | write (path : Path)
  | remove (path : Path)
  | rename (source target : Path)
  | createDir (path : Path)
  | createDirAll (path : Path)
  | changeWorkingDirectory (path : Path)

def step (w : World) : Op → Except Panic World
  | .openWithOptions path options => Prod.snd <$> openWithOptions w path options
  | .write path => Prod.snd <$> write w path
  | .remove path => Prod.snd <$> remove w path
  | .rename source target => Prod.snd <$> rename w source target
  | .createDir path => Prod.snd <$> createDir w path
  | .createDirAll path => Prod.snd <$> createDirAll w path
  | .changeWorkingDirectory path => do
    let (_, fs) ← changeWorkingDirectory w.toFs path
    pure { w with toFs := fs }

/-- the operation renames a file to itself -/
def ToItself (w : World) : Op → Prop
  | .rename source target => SameFile w source target
  | _ => False

theorem changeWorkingDirectory_ends (fs : Fs) (path : Path) :
    Ends Any (fun r => r.2.root = fs.root) (changeWorkingDirectory fs path) := by
  unfold changeWorkingDirectory
  cases resolvePath path (some fs.workingDirectory) with
  | error e => exact trivial
  | ok cs =>
    rw [ok_bind]
    split <;> rfl

theorem ends_snd {x : Except Panic (α × World)} {P : World → Prop} (h : Ends Any (fun r => P r.2) x) :
    Ends Any P (Prod.snd <$> x) := by
  cases x with
  | error e => exact trivial
  | ok r => exact h

/-- **Every step** is a sequence of acts, and perhaps a change of the working directory. -/
theorem step_acts (w : World) (o : Op) : Ends Any
    (fun w' => ∃ w₁, Acts (ToItself w o) w w₁ ∧ w' = { w₁ with workingDirectory := w'.workingDirectory }) (step w o) := by
  have hkeep {x : Except Panic World} (h : Ends Any (Acts (ToItself w o) w) x) : Ends Any
      (fun w' => ∃ w₁, Acts (ToItself w o) w w₁ ∧ w' = { w₁ with workingDirectory := w'.workingDirectory }) x :=
    h.mono fun w' hacts => ⟨w', hacts, rfl⟩
  cases o with
  | openWithOptions path options => exact hkeep (ends_snd (openWithOptions_acts.mono fun r hr => hr.1))
  | write path => exact hkeep (ends_snd write_acts)
  | remove path => exact hkeep (ends_snd remove_acts)
  | rename source target => exact hkeep (ends_snd rename_acts)
  | createDir path => exact hkeep (ends_snd createDir_acts)
  | createDirAll path => exact hkeep (ends_snd createDirAll_acts)
  | changeWorkingDirectory path =>
    refine (changeWorkingDirectory_ends w.toFs path).bind ?_
    rintro ⟨changed, fs⟩ hroot
    refine ⟨w, Acts.refl w, ?_⟩
    dsimp only at hroot ⊢
    rw [← hroot]

end TouchHLE.Fs
