/-
The file system of the guest (`fs.rs`): a tree that is kept in memory, whose writeable directories are directories of the host.

- `FsNode`, `fromHostDir`, `Fs`: the tree.
- `HostTree`, `hostOpen`, `hostRemoveFile` and so on: the directories of the host, and what its calls do to them.
- `World`: both, with the log of the calls.
- `changeWorkingDirectory`, `openWithOptions`, `write`, `rename`, `remove`, `createDir`, `createDirAll`: the operations.
- `new`: the file system of an app.
-/
import TouchHLE.Fs.Paths
import TouchHLE.Lib.Tree

namespace TouchHLE

open Machine

/-! ## The tree of the guest -/

inductive FileLocation where
  | path (p : Path)
  | ipaFileRef (ref : ℕ)
  | resourceFilePath (name : String)
deriving DecidableEq

inductive FsError where
  | alreadyExist
  | invalidParentDir
  | nonexistentParentDir
  | readonlyParentDir
deriving DecidableEq

/-- `FsNode::File` -/
structure FileNode where
  location : FileLocation
  writeable : Bool
deriving DecidableEq

/-- a file is a leaf, and the label of a directory is its `writeable` -/
abbrev FsNode := Tree Component FileNode (Option Path)

/-- a directory of the host -/
abbrev HostTree := Tree Component Unit Unit

structure Fs where
  root : FsNode
  workingDirectory : Path

namespace Fs

/-- `FsNode::from_host_dir`, where the host has such a directory -/
def fromHostDir (hostPath : Path) (writeable : Bool) (host : HostTree) : FsNode :=
  host.mapPaths (fun p () => ⟨.path p, writeable⟩) (fun p () => if writeable then some p else none) hostJoin hostPath

structure GuestOpenOptions where
  read : Bool
  write : Bool
  append : Bool
  create : Bool
  truncate : Bool
deriving DecidableEq

/-- the options of `write` and of `rename` -/
def GuestOpenOptions.toWrite : GuestOpenOptions := ⟨false, true, false, true, true⟩

inductive GuestFile where
  | directory
  | file (hostPath : Path)
  | ipaBundleFile (ref : ℕ)
  | resourceFile (name : String)
deriving DecidableEq

/-! ## The host -/

/-- a path that the host can read -/
def NulFree (path : Path) : Prop := '\x00' ∉ path

instance (path : Path) : Decidable (NulFree path) := inferInstanceAs (Decidable (_ ∉ _))

/-- an entry is made or replaced in a directory that there is -/
def hostPut (path : Path) (entry host : HostTree) : Option HostTree :=
  match (hostComponents path).getLast? with
  | none => none
  | some name =>
    match host.lookup (hostComponents path).dropLast with
    | some (.node _ _) => some (host.insertAt (hostComponents path).dropLast name entry)
    | _ => none

def hostDelete (path : Path) (host : HostTree) : Option HostTree :=
  match (hostComponents path).getLast? with
  | none => none
  | some name => some (host.removeAt (hostComponents path).dropLast name)

/-- `OpenOptions::open` -/
def hostOpen (options : GuestOpenOptions) (path : Path) (host : HostTree) : Option HostTree :=
  let writes := options.write || options.append
  -- combinations that the standard library refuses
  if !options.read && !writes || (options.truncate || options.create) && !writes || options.append && options.truncate then none
  else if ¬NulFree path then none
  else match host.labelAt (hostComponents path) with
    | some (.inl _) => some host
    | some (.inr _) => if writes then none else some host
    | none => if options.create then hostPut path (.leaf ()) host else none

/-- `remove_file` -/
def hostRemoveFile (path : Path) (host : HostTree) : Option HostTree :=
  if ¬NulFree path then none
  else match host.labelAt (hostComponents path) with
    | some (.inl _) => hostDelete path host
    | _ => none

/-- `remove_dir` -/
def hostRemoveDir (path : Path) (host : HostTree) : Option HostTree :=
  if ¬NulFree path then none
  else match host.lookup (hostComponents path) with
    | some (.node _ []) => hostDelete path host
    | _ => none

/-- `create_dir` -/
def hostCreateDir (path : Path) (host : HostTree) : Option HostTree :=
  if ¬NulFree path then none
  else match host.labelAt (hostComponents path) with
    | none => hostPut path (.node () []) host
    | some _ => none

/-- whether something can be renamed to what there is: a file to a file, a directory to an empty one -/
def canReplace : HostTree → Option HostTree → Bool
  | _, none => true
  | .leaf _, some (.leaf _) => true
  | .node _ _, some (.node _ []) => true
  | _, _ => false

/-- `rename`; nothing happens when both are the same -/
def hostRename (source target : Path) (host : HostTree) : Option HostTree :=
  if ¬NulFree source ∨ ¬NulFree target then none
  else match host.lookup (hostComponents source) with
    | none => none
    | some entry =>
      if hostComponents source = hostComponents target then some host
      else if canReplace entry (host.lookup (hostComponents target)) ∧ ¬hostComponents source <+: hostComponents target then
        (hostDelete source host).bind (hostPut target entry)
      else none

inductive HostCall where
  | open (path : Path) (options : GuestOpenOptions)
  | write (path : Path)
  | removeFile (path : Path)
  | removeDir (path : Path)
  | createDir (path : Path)
  | rename (source target : Path)

/-- the paths at which a call can create, write, truncate, remove or rename something -/
def HostCall.modified : HostCall → List Path
  | .open path options => if options.write || options.append || options.create || options.truncate then [path] else []
  | .write path => [path]
  | .removeFile path => [path]
  | .removeDir path => [path]
  | .createDir path => [path]
  | .rename source target => [source, target]

/-- both file systems -/
structure World extends Fs where
  host : HostTree
  /-- the calls of the host so far, the last one first -/
  calls : List HostCall

/-- `handle_open_err` -/
def World.call (w : World) (call : HostCall) (result : Option HostTree) : Except Panic World := do
  let host ← unwrap result .hostError
  pure { w with host, calls := call :: w.calls }

theorem World.call_cases {w w' : World} {call : HostCall} {result : Option HostTree} (h : w.call call result = .ok w') :
    ∃ host, result = some host ∧ w' = { w with host, calls := call :: w.calls } := by
  obtain ⟨host, hhost, h⟩ := bind_eq_ok.1 h
  cases result with
  | none => cases hhost
  | some host' =>
    cases hhost
    exact ⟨_, rfl, (Except.ok.inj h).symm⟩

/-! ## Looking up -/

variable (w : World)

def lookupNode (fs : Fs) (path : Path) : Except Panic (Option FsNode) := do
  let components ← resolvePath path (some fs.workingDirectory)
  pure (fs.root.lookup components)

/-- the parent of a node that need not exist: its path, the parent itself, and the name of the node -/
def lookupParentNode (fs : Fs) (path : Path) : Except Panic (Option (List Component × FsNode × Component)) := do
  let components ← resolvePath path (some fs.workingDirectory)
  match components.getLast? with
  | none => pure none
  | some finalComponent =>
    pure ((fs.root.lookup components.dropLast).map fun parent => (components.dropLast, parent, finalComponent))

/-- the result says whether the directory was changed -/
def changeWorkingDirectory (fs : Fs) (newPath : Path) : Except Panic (Bool × Fs) := do
  let resolved ← resolvePath newPath (some fs.workingDirectory)
  match fs.root.lookup resolved with
  | some (.node _ _) => pure (true, { fs with workingDirectory := joinPath resolved })
  | _ => pure (false, fs)

/-! ## The operations -/

/-- a node is added to the children of the directory at a path -/
def World.insertNode (parent : List Component) (name : Component) (node : FsNode) : World :=
  { w with root := w.root.insertAt parent name node }

def World.removeNode (parent : List Component) (name : Component) : World := { w with root := w.root.removeAt parent name }

/-- `open_with_options` with a file that there is -/
def openExisting (options : GuestOpenOptions) (file : FileNode) : Except Panic (Option GuestFile × World) :=
  if !file.writeable && (options.append || options.write) then pure (none, w)
  else match file.location with
    | .path hostPath => do
      let options := { options with create := false }
      let w ← w.call (.open hostPath options) (hostOpen options hostPath w.host)
      pure (some (.file hostPath), w)
    | .ipaFileRef ref => do
      assert (!(file.writeable || options.append || options.write)) .openOptions
      pure (some (.ipaBundleFile ref), w)
    | .resourceFilePath name => do
      assert (!(file.writeable || options.append || options.write)) .openOptions
      pure (some (.resourceFile name), w)

/-- `open_with_options` with a new file, in a directory that is at the path and has this `writeable` -/
def openNew (options : GuestOpenOptions) (parent : List Component) (dirHostPath : Option Path) (newFilename : Component) :
    Except Panic (Option GuestFile × World) :=
  if !options.create then pure (none, w)
  else match dirHostPath with
    | none => pure (none, w)
    | some dirHostPath => do
      assert ('/' ∉ newFilename) .hostError
      let hostPath := hostJoin dirHostPath newFilename
      let w ← w.call (.open hostPath options) (hostOpen options hostPath w.host)
      pure (some (.file hostPath), w.insertNode parent newFilename (.leaf ⟨.path hostPath, true⟩))

def openWithOptions (path : Path) (options : GuestOpenOptions) : Except Panic (Option GuestFile × World) := do
  assert (!options.truncate && !options.create || options.write || options.append) .openOptions
  match ← lookupParentNode w.toFs path with
  | none => pure (none, w)
  | some (_, .leaf _, _) => pure (none, w)
  | some (parent, .node dirHostPath children, newFilename) =>
    match Tree.child children newFilename with
    | some (.leaf file) => openExisting w options file
    | some (.node _ _) => pure (if options.write then none else some .directory, w)
    | none => openNew w options parent dirHostPath newFilename

/-- the result says whether it was written -/
def write (path : Path) : Except Panic (Bool × World) := do
  let (file, w) ← openWithOptions w path .toWrite
  match file with
  | some (.file hostPath) => pure (true, { w with calls := .write hostPath :: w.calls })
  | some _ => throw .openOptions
  | none => pure (false, w)

/-- `rename` of the file at a path of the host, when the target exists -/
def renameTo (source target fromHostPath : Path) : Except Panic (Bool × World) := do
  let toNode ← unwrap (← lookupNode w.toFs target) .missing
  match toNode with
  | .leaf ⟨.path toHostPath, toWriteable⟩ => do
    assert toWriteable .openOptions
    let w' := { w with calls := .rename fromHostPath toHostPath :: w.calls }
    match hostRename fromHostPath toHostPath w.host with
    | none => pure (false, w')
    | some host => do
      let (parent, node, component) ← unwrap (← lookupParentNode w.toFs source) .missing
      match node with
      | .leaf _ => throw .notAFile
      | .node _ children => do
        let _ ← unwrap (Tree.child children component) .missing
        pure (true, { w' with host }.removeNode parent component)
  | _ => pure (false, w)

def rename (source target : Path) : Except Panic (Bool × World) := do
  match ← lookupNode w.toFs source with
  | none => pure (false, w)
  | some (.node _ _) => throw .unimplemented
  | some (.leaf ⟨.path fromHostPath, fromWriteable⟩) => do
    assert fromWriteable .openOptions
    match ← lookupNode w.toFs target with
    | some _ => renameTo w source target fromHostPath
    | none => do
      let (file, w) ← openWithOptions w target .toWrite
      if file.isNone then pure (false, w) else renameTo w source target fromHostPath
  | some (.leaf _) => pure (false, w)

def remove (path : Path) : Except Panic (Bool × World) := do
  match ← lookupParentNode w.toFs path with
  | none => pure (false, w)
  | some (_, .leaf _, _) => pure (false, w)
  | some (_, .node none _, _) => pure (false, w)
  | some (parent, .node (some _) children, nodeName) =>
    match Tree.child children nodeName with
    | none => pure (false, w)
    | some (.leaf file) =>
      if !file.writeable then pure (false, w)
      else match file.location with
        | .path hostPath => do
          let w ← w.call (.removeFile hostPath) (hostRemoveFile hostPath w.host)
          pure (true, w.removeNode parent nodeName)
        | .ipaFileRef _ | .resourceFilePath _ => throw .openOptions
    | some (.node _ (_ :: _)) => pure (false, w)
    | some (.node none []) => pure (false, w)
    | some (.node (some hostPath) []) => do
      let w ← w.call (.removeDir hostPath) (hostRemoveDir hostPath w.host)
      pure (true, w.removeNode parent nodeName)

def createDir (path : Path) : Except Panic (Except FsError Unit × World) := do
  match ← lookupParentNode w.toFs path with
  | none => pure (.error .nonexistentParentDir, w)
  | some (_, .leaf _, _) => pure (.error .invalidParentDir, w)
  | some (parent, .node dirHostPath children, newDirName) =>
    if (Tree.child children newDirName).isSome then pure (.error .alreadyExist, w)
    else match dirHostPath with
      | none => pure (.error .readonlyParentDir, w)
      | some dirHostPath => do
        assert ('/' ∉ newDirName) .hostError
        let hostPath := hostJoin dirHostPath newDirName
        let w ← w.call (.createDir hostPath) (hostCreateDir hostPath w.host)
        pure (.ok (), w.insertNode parent newDirName (.node (some hostPath) []))

/-- the loop of `create_dir_all`: the components that were taken already, and those that are left -/
def createDirs (w : World) (taken : List Component) : List Component → Except Panic (Except FsError Unit × World)
  | [] => pure (.ok (), w)
  | component :: components => do
    let taken := taken ++ [component]
    let (res, w) ← createDir w (taken.flatMap ('/' :: ·))
    match res with
    | .ok _ | .error .alreadyExist => createDirs w taken components
    | .error e => pure (.error e, w)

def createDirAll (path : Path) : Except Panic (Except FsError Unit × World) := do
  assert (path.head? == some '/') .relativePath
  let components ← resolvePath path none
  createDirs w [] components

/-! ## The beginning -/

def homeDirectory : List Component :=
  ["var".toList, "mobile".toList, "Applications".toList, "00000000-0000-0000-0000-000000000000".toList]

def documents : Component := "Documents".toList

def library : Component := "Library".toList

def tmp : Component := "tmp".toList

/-- the libraries that come with the emulator; some of the names are those of links -/
def usrLib : FsNode :=
  let resource (name : String) : FsNode := .leaf ⟨.resourceFilePath ("touchHLE_dylibs/" ++ name), false⟩
  .node none [("libgcc_s.1.dylib".toList, resource "libgcc_s.1.dylib"), ("libstdc++.6.dylib".toList, resource "libstdc++.6.0.9.dylib"),
    ("libstdc++.6.0.9.dylib".toList, resource "libstdc++.6.0.9.dylib"), ("libz.1.2.3.dylib".toList, resource "libz.1.2.3.dylib"),
    ("libz.1.dylib".toList, resource "libz.1.2.3.dylib"), ("libz.dylib".toList, resource "libz.1.2.3.dylib"),
    ("libz.1.1.3.dylib".toList, resource "libz.1.2.3.dylib")]

/-- a directory of the sandbox, which the host has by now -/
def mountDir (sandbox : Path) (dir : Component) (host : HostTree) : Except Panic FsNode :=
  match host.lookup (hostComponents (hostJoin sandbox dir)) with
  | some (.node _ entries) => pure (fromHostDir (hostJoin sandbox dir) true (.node () entries))
  | _ => throw .hostError

/-- the tree around the app's home directory -/
def rootAround (appDirChildren : List (Component × FsNode)) : FsNode :=
  .node none [("var".toList, .node none [("mobile".toList, .node none [("Applications".toList,
    .node none [("00000000-0000-0000-0000-000000000000".toList, .node none appDirChildren)])])]),
    ("usr".toList, .node none [("lib".toList, usrLib)])]

/-- `Fs::new`, where the app is really run -/
def new (appBundle : FsNode) (bundleDirName : Component) (sandbox : Path) (host : HostTree) : Except Panic World := do
  let documentsNode ← mountDir sandbox documents host
  let libraryNode ← mountDir sandbox library host
  let tmpNode ← mountDir sandbox tmp host
  let appDirChildren := Assoc.insert tmp tmpNode (Assoc.insert library libraryNode (Assoc.insert documents documentsNode
    [(bundleDirName, appBundle)]))
  let fs : Fs := ⟨rootAround appDirChildren, ['/']⟩
  let bundle ← lookupNode fs (joinPath homeDirectory ++ '/' :: bundleDirName)
  assert bundle.isSome .missing
  pure { fs with host, calls := [] }

end Fs

end TouchHLE
