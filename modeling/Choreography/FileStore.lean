import Choreography.Assoc

/-! # Files

What the settings and the command line need of a store of files, and a store in memory: a tree of
directories without links, with the home directory of a process and its current directory. -/
namespace Choreography

/-- Why a file cannot be read or written. -/
inductive FileFault where
  | notFound
  | notDirectory
  | isDirectory
  | other (reason : String)
deriving DecidableEq, Repr

def FileFault.message : FileFault → String
  | .notFound => "No such file or directory (os error 2)"
  | .notDirectory => "Not a directory (os error 20)"
  | .isDirectory => "Is a directory (os error 21)"
  | .other reason => reason

class FileStore (m : Type → Type) where
  /-- The path of the home directory. -/
  home : m String
  /-- Whether a path leads to a file or directory. -/
  isPresent : String → m Bool
  read : String → m (Except FileFault String)
  /-- Makes a directory and those on the way to it, as far as they are missing. -/
  createDirectories : String → m (Except FileFault Unit)
  /-- Makes or replaces a file in an existing directory. -/
  write : String → String → m (Except FileFault Unit)

namespace FilePath

/-- The parts of a path between slashes. -/
def parts (path : String) : List String := (path.toList.splitOn '/').map String.ofList

/-- The part of a path on the way to its last component. A path that has none has no parent. -/
def parent? (path : String) : Option String :=
  let named := (parts path).zipIdx.filter fun p => p.1 != "" && (p.1 != "." || p.2 == 0)
  match named.getLast? with
  | none => none
  | some _ =>
      let inner := "/".intercalate (named.dropLast.map (·.1))
      some (if path.startsWith "/" then "/" ++ inner else inner)

/-- A path below a directory, unless it is absolute. -/
def join (directory path : String) : String :=
  if path.startsWith "/" then path
  else if directory.endsWith "/" then directory ++ path
  else directory ++ "/" ++ path

/-- Why no file can have a path, if that is so. -/
def fault? (path : String) : Option FileFault :=
  if path.toList.contains '\x00' then
    some (.other "file name contained an unexpected NUL byte")
  else if 4096 ≤ path.utf8ByteSize || (parts path).any (255 < ·.utf8ByteSize) then
    some (.other "File name too long (os error 36)")
  else if path.isEmpty then some .notFound
  else none

/-- What follows the last point of the last component, unless that is its first character. -/
def extension? (path : String) : Option String :=
  match ((parts path).filter fun p => p != "" && p != ".").getLast? with
  | none => none
  | some name =>
      if name = ".." then none
      else
        let after := (name.toList.reverse.takeWhile (· != '.')).reverse
        let before := (name.toList.reverse.dropWhile (· != '.')).reverse
        if before.length ≤ 1 then none else some (String.ofList after)

end FilePath

inductive FileNode where
  | directory
  | file (text : String)
deriving DecidableEq, Repr

structure Whereabouts where
  home : List String
  /-- The directory from which relative paths start. -/
  current : List String
deriving DecidableEq, Repr

/-- A process that is started in its home directory. -/
instance : Coe (List String) Whereabouts := ⟨fun home => ⟨home, home⟩⟩

/-- A tree of files and directories. The home directory, the current one and those on the way to them
are always there. -/
structure FileTree extends Whereabouts where
  nodes : List (List String × FileNode)
deriving DecidableEq, Repr

namespace FileTree

def homePath (t : FileTree) : String := "/" ++ "/".intercalate t.home

def node? (t : FileTree) (place : List String) : Option FileNode :=
  if place.isPrefixOf t.home || place.isPrefixOf t.current then some .directory
  else Assoc.find? place t.nodes

/-- Where a path starts. -/
def start (t : FileTree) (path : String) : List String :=
  if path.startsWith "/" then [] else t.current

/-- Goes one component on from a directory. -/
def enter (t : FileTree) (place : List String) (part : String) : Except FileFault (List String) :=
  match t.node? place with
  | some .directory =>
      if part = "" ∨ part = "." then .ok place
      else if part = ".." then .ok place.dropLast
      else if (t.node? (place ++ [part])).isSome then .ok (place ++ [part])
      else .error .notFound
  | some (.file _) => .error .notDirectory
  | none => .error .notFound

/-- The place that a path leads to. -/
def locate (t : FileTree) (path : String) : Except FileFault (List String) :=
  match FilePath.fault? path with
  | some fault => .error fault
  | none => (FilePath.parts path).foldlM t.enter (t.start path)

def isPresent (t : FileTree) (path : String) : Bool :=
  match t.locate path with
  | .ok _ => true
  | .error _ => false

def read (t : FileTree) (path : String) : Except FileFault String := do
  let place ← t.locate path
  match t.node? place with
  | some (.file text) => .ok text
  | some .directory => .error .isDirectory
  | none => .error .notFound

def assign (t : FileTree) (place : List String) (n : FileNode) : FileTree :=
  { t with nodes := Assoc.assign place n t.nodes }

/-- Goes one component on and makes a directory where there is nothing. -/
def enterNew (s : FileTree × List String) (part : String) :
    Except FileFault (FileTree × List String) :=
  let (t, place) := s
  match t.enter place part with
  | .ok place => .ok (t, place)
  | .error .notFound => .ok (t.assign (place ++ [part]) .directory, place ++ [part])
  | .error fault => .error fault

def createDirectories (t : FileTree) (path : String) : Except FileFault FileTree :=
  if path.isEmpty then .ok t
  else
    match FilePath.fault? path with
    | some fault => .error fault
    | none => do
        let (t, place) ← (FilePath.parts path).foldlM enterNew (t, t.start path)
        match t.node? place with
        | some (.file _) => .error .notDirectory
        | _ => .ok t

/-- The place of a file that may be made or replaced: its directory exists and it has a name. -/
def target (t : FileTree) (path : String) : Except FileFault (List String) :=
  match FilePath.fault? path, (FilePath.parts path).getLast? with
  | some fault, _ => .error fault
  | none, none => .error .notFound
  | none, some name => do
      let place ← (FilePath.parts path).dropLast.foldlM t.enter (t.start path)
      if name = "" ∨ name = "." ∨ name = ".." then .error .isDirectory
      else
        match t.node? place with
        | some .directory => .ok (place ++ [name])
        | some (.file _) => .error .notDirectory
        | none => .error .notFound

def write (t : FileTree) (path text : String) : Except FileFault FileTree := do
  let place ← t.target path
  match t.node? place with
  | some .directory => .error .isDirectory
  | _ => .ok (t.assign place (.file text))

/-- Every file below the home directory with its path from there. -/
def files (t : FileTree) : List (String × String) :=
  t.nodes.filterMap fun n =>
    match n.2 with
    | .file text =>
        if t.home.isPrefixOf n.1 then some ("/".intercalate (n.1.drop t.home.length), text)
        else none
    | .directory => none

instance : FileStore (StateM FileTree) where
  home := do return (← get).homePath
  isPresent path := do return (← get).isPresent path
  read path := do return (← get).read path
  createDirectories path := do
    match (← get).createDirectories path with
    | .ok t => set t; return .ok ()
    | .error fault => return .error fault
  write path text := do
    match (← get).write path text with
    | .ok t => set t; return .ok ()
    | .error fault => return .error fault

end FileTree
end Choreography
