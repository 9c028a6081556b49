import BleCapture.Sink

/-!
# Files

The part of a file system that a capture touches: directories, regular files,
named pipes and devices.

A path is walked from directory to directory. A single dot stays where it is
and two dots lead to the parent; slashes in a row count as one. Everything
before the last component has to be a directory, and a slash at the end asks
for a directory too. A regular file may have room for so many bytes only.
-/

namespace BleCapture

inductive Node where
  | directory
  | file (content : Sink)
  | pipe
  /-- Gives every writer this sink and keeps nothing. -/
  | device (sink : Sink)

/-- Every node under the names on the way to it from the root. The root is a
directory and has no entry. -/
structure FileSystem where
  nodes : List (List String × Node) := []
  /-- The directory where paths that do not begin with a slash start. -/
  workingDirectory : List String := []
  /-- What a reader gets out of the pipe or device at a location until it ends. -/
  streams : List String → List UInt8 := fun _ => []

structure FileSystem.Target where
  location : List String
  /-- The path ends in the name of an entry, which may be missing. Otherwise
  it ends in dots, or is the root, and leads to a directory that is there. -/
  named : Bool
  slash : Bool

namespace FileSystem

def notFound : IoError := ⟨.notFound, "No such file or directory (os error 2)"⟩

def isADirectory : IoError := ⟨.isADirectory, "Is a directory (os error 21)"⟩

def notADirectory : IoError := ⟨.notADirectory, "Not a directory (os error 20)"⟩

def storageFull : IoError := ⟨.storageFull, "No space left on device (os error 28)"⟩

def nameTooLong : IoError := ⟨.nameTooLong, "File name too long (os error 36)"⟩

def nulInName : IoError := ⟨.invalidName, "file name contained an unexpected NUL byte"⟩

def maxNameSize : Nat := 255

def maxPathSize : Nat := 4095

/-- The components of a path, without the empty ones between slashes. -/
def components (path : String) : List String :=
  ((path.toList.splitOn '/').map String.ofList).filter (· ≠ "")

def find? (fs : FileSystem) (location : List String) : Option Node :=
  if location.isEmpty then some .directory else fs.nodes.lookup location

def insert (fs : FileSystem) (location : List String) (n : Node) : FileSystem :=
  { fs with nodes := (location, n) :: fs.nodes.filter (·.1 ≠ location) }

def erase (fs : FileSystem) (location : List String) : FileSystem :=
  { fs with nodes := fs.nodes.filter (·.1 ≠ location) }

/-- Looks an entry up in its directory, where no name is too long. -/
def lookup (fs : FileSystem) (location : List String) : Except IoError (Option Node) :=
  if (location.getLastD "").utf8ByteSize ≤ maxNameSize then .ok (fs.find? location)
  else .error nameTooLong

def enter (fs : FileSystem) (location : List String) : Except IoError Unit := do
  match ← fs.lookup location with
  | some .directory => return
  | some _ => throw notADirectory
  | none => throw notFound

/-- Follows components from the directory `here`. The last one is not looked
up. -/
def walk (fs : FileSystem) (slash : Bool) :
    List String → List String → Except IoError Target
  | here, [] => .ok ⟨here, false, slash⟩
  | here, name :: rest =>
    if name = "." then fs.walk slash here rest
    else if name = ".." then fs.walk slash here.dropLast rest
    else if rest.isEmpty then .ok ⟨here ++ [name], true, slash⟩
    else
      match fs.enter (here ++ [name]) with
      | .ok _ => fs.walk slash (here ++ [name]) rest
      | .error e => .error e

/-- Where a path leads, or the first obstacle on the way to its last
component. -/
def locate (fs : FileSystem) (path : String) : Except IoError Target :=
  if '\x00' ∈ path.toList then .error nulInName
  else if path = "" then .error notFound
  else if maxPathSize < path.utf8ByteSize then .error nameTooLong
  else
    let start := if path.toList.head? = some '/' then [] else fs.workingDirectory
    fs.walk (path.toList.getLast? = some '/') start (components path)

/-- Opens what is there and gives the bytes that are read from it. A directory
opens as well, but the first read of it fails. -/
def openFile (fs : FileSystem) (path : String) : Except IoError (List UInt8) := do
  let target ← fs.locate path
  match ← fs.lookup target.location with
  | none => throw notFound
  | some .directory => return []
  | some node =>
    if target.slash then throw notADirectory
    match node with
    | .file content => return content.bytes
    | _ => return fs.streams target.location

/-- Creates a file or empties an existing one, and gives the sink behind it. A
directory cannot be written, so nothing is created under a path that asks for
one. -/
def create (fs : FileSystem) (path : String) : Except IoError (FileSystem × Sink) := do
  let target ← fs.locate path
  if target.slash || !target.named then throw isADirectory
  match ← fs.lookup target.location with
  | some .directory => throw isADirectory
  | some (.file content) =>
    let sink : Sink := { limit := content.limit, failure := content.failure }
    return (fs.insert target.location (.file sink), sink)
  | some .pipe => return (fs, { failure := storageFull })
  | some (.device sink) => return (fs, sink)
  | none =>
    let sink : Sink := { failure := storageFull }
    return (fs.insert target.location (.file sink), sink)

/-- Makes the writes to an open file visible under its path, if the path still
leads to a file. -/
def update (fs : FileSystem) (path : String) (content : Sink) : FileSystem :=
  match fs.locate path with
  | .error _ => fs
  | .ok target =>
    match fs.find? target.location with
    | some (.file _) => fs.insert target.location (.file content)
    | _ => fs

/-- Removes anything but a directory. -/
def remove (fs : FileSystem) (path : String) : Except IoError FileSystem := do
  let target ← fs.locate path
  if !target.named then throw isADirectory
  match ← fs.lookup target.location with
  | none => throw notFound
  | some .directory => throw isADirectory
  | some _ => if target.slash then throw notADirectory else return fs.erase target.location

/-- Creates a named pipe in place of whatever file the path led to. -/
def makePipe (fs : FileSystem) (path : String) : Except IoError FileSystem :=
  match fs.remove path with
  | .ok fs => insertPipe fs
  | .error e => if e = notFound then insertPipe fs else .error e
where
  /-- Nothing is at the path by now. -/
  insertPipe (fs : FileSystem) : Except IoError FileSystem := do
    let target ← fs.locate path
    if target.slash then throw notFound else return fs.insert target.location .pipe

end FileSystem

end BleCapture
