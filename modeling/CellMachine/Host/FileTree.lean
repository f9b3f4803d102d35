import CellMachine.Host.Basic
import CellMachine.Text.Path

/-!
# File trees as values

A file tree maps places to files and folders. A place is a list of names that starts at the root,
which is always a folder. Paths are followed step by step from a working folder, so that every
folder on the way has to exist. Names and paths have a greatest length in bytes.
-/

namespace CellMachine

/-- A file or a folder. -/
inductive FileNode
  | file (bytes : List UInt8)
  | folder
  deriving DecidableEq, Repr

/-- Why a path leads nowhere. -/
inductive PathFault
  | missing
  | notFolder
  | isFolder
  | tooLong
  /-- The path holds the character U+0000. -/
  | invalid
  deriving DecidableEq, Repr

/-- The text of a path fault. -/
def PathFault.message : PathFault → String
  | .missing => "no such file or directory"
  | .notFolder => "not a directory"
  | .isFolder => "is a directory"
  | .tooLong => "file name too long"
  | .invalid => "invalid argument"

/-- The greatest number of bytes of a name. -/
def maxNameBytes : Nat := 255

/-- The greatest number of bytes of a path. -/
def maxPathBytes : Nat := 4095

/-- Why no file and no folder can have a name. -/
def nameFault? (name : String) : Option PathFault :=
  if '\x00' ∈ name.toList then some .invalid
  else if maxNameBytes < name.utf8ByteSize then some .tooLong
  else none

/-- Why a path leads nowhere, whatever files there are. -/
def pathFault? (path : String) : Option PathFault :=
  if '\x00' ∈ path.toList then some .invalid
  else if path.isEmpty then some .missing
  else if maxPathBytes < path.utf8ByteSize then some .tooLong
  else none

/-- The steps before the last name of a path that ends in a slash. A step that is no name may lead
to a folder only, with or without the slash. -/
def stepsBeforeSlash? (path : String) : Option (List String) :=
  match (path.splitOn "/").reverse with
  | "" :: steps =>
    match steps.dropWhile (· == "") with
    | name :: before => if name == "." || name == ".." then none else some before.reverse
    | [] => none
  | _ => none

/-- Files and folders by their places. -/
structure FileTree where
  nodes : List (List String × FileNode) := []
  deriving Repr

namespace FileTree

/-- What is at a place. -/
def node? (t : FileTree) (place : List String) : Option FileNode :=
  if place.isEmpty then some .folder else t.nodes.lookup place

/-- Puts something at a place. -/
def put (t : FileTree) (place : List String) (node : FileNode) : FileTree where
  nodes := (place, node) :: t.nodes.filter fun n => n.1 != place

/-- Makes the folders on the way from the place `before` along the names. The answer is the place
that cannot be a folder, if there is one, and why. -/
def makeFolders (before : List String) :
    List String → FileTree → Option (List String × PathFault) × FileTree
  | [], t => (none, t)
  | name :: rest, t =>
    let place := before ++ [name]
    match t.node? place, nameFault? name with
    | some .folder, _ => makeFolders place rest t
    | some (.file _), _ => (some (place, .notFolder), t)
    | none, some fault => (some (place, fault), t)
    | none, none => makeFolders place rest (t.put place .folder)

/-- The place that steps lead to from a folder. Only the last step may lead to a file or to
nothing. -/
def walk (t : FileTree) : (place : List String) → List String → Except PathFault (List String)
  | place, [] => .ok place
  | place, step :: rest =>
    match t.node? place with
    | some .folder =>
      if step == "" || step == "." then t.walk place rest
      else if step == ".." then t.walk place.dropLast rest
      else match nameFault? step with
        | some fault => .error fault
        | none => t.walk (place ++ [step]) rest
    | some (.file _) => .error .notFolder
    | none => .error .missing

/-- The place of a path, seen from a working folder. -/
def place (t : FileTree) (folder : List String) (path : String) : Except PathFault (List String) :=
  match pathFault? path with
  | some fault => .error fault
  | none => t.walk (if Text.isAbsolute path then [] else folder) (path.splitOn "/")

/-- The place of a path at which a file is to be written. A slash at the end asks for a folder, and
whether there is one is not looked up. -/
def filePlace (t : FileTree) (folder : List String) (path : String) :
    Except PathFault (List String) :=
  match pathFault? path, stepsBeforeSlash? path with
  | some fault, _ => .error fault
  | none, none => t.place folder path
  | none, some before =>
    match t.walk (if Text.isAbsolute path then [] else folder) (before ++ [""]) with
    | .error fault => .error fault
    | .ok _ => .error .isFolder

end FileTree

/-- A system whose files, clock and streams are values. -/
structure Rehearsal where
  tree : FileTree := {}
  /-- The place of the working folder. -/
  folder : List String := []
  /-- The time that the clock shows. -/
  clock : Int := 0
  said : String := ""
  warned : String := ""
  deriving Repr

namespace Rehearsal

/-- The path of a place. -/
def pathOf (place : List String) : String := "/" ++ "/".intercalate place

/-- Whether there is something at a path. -/
def isThere (r : Rehearsal) (path : String) : Bool :=
  match r.tree.place r.folder path with
  | .ok place => (r.tree.node? place).isSome
  | .error _ => false

/-- The contents of the file at a path. -/
def read (r : Rehearsal) (path : String) : Except Failure (List UInt8) :=
  match r.tree.place r.folder path with
  | .error fault => .error (.file "open" path fault.message)
  | .ok place =>
    match r.tree.node? place with
    | some (.file bytes) => .ok bytes
    | some .folder => .error (.file "read" path PathFault.isFolder.message)
    | none => .error (.file "open" path PathFault.missing.message)

/-- Writes the file at a path. Its folder has to be there. -/
def write (path : String) (bytes : List UInt8) (r : Rehearsal) :
    Except Failure Unit × Rehearsal :=
  let refuse (fault : PathFault) := (Except.error (Failure.file "open" path fault.message), r)
  match r.tree.filePlace r.folder path with
  | .error fault => refuse fault
  | .ok place =>
    match r.tree.node? place, r.tree.node? place.dropLast with
    | some .folder, _ => refuse .isFolder
    | some (.file _), _ => (.ok (), { r with tree := r.tree.put place (.file bytes) })
    | none, some .folder => (.ok (), { r with tree := r.tree.put place (.file bytes) })
    | none, some (.file _) => refuse .notFolder
    | none, none => refuse .missing

/-- Makes the folder at a path and all folders on the way. -/
def makeFolders (path : String) (r : Rehearsal) : Except Failure Unit × Rehearsal :=
  let start := if Text.isAbsolute path then [] else r.folder
  match FileTree.makeFolders start (Text.pathSteps path) r.tree with
  | (none, tree) => (.ok (), { r with tree })
  | (some (place, fault), tree) =>
    (.error (.file "mkdir" (pathOf place) fault.message), { r with tree })

end Rehearsal

instance : Host (StateM Rehearsal) where
  folder := fun r => (Rehearsal.pathOf r.folder, r)
  isThere path := fun r => (r.isThere path, r)
  read path := fun r => (r.read path, r)
  write path bytes := Rehearsal.write path bytes
  makeFolders path := Rehearsal.makeFolders path
  now := fun r => (r.clock, r)
  say text := modify fun r => { r with said := r.said ++ text }
  warn text := modify fun r => { r with warned := r.warned ++ text }

end CellMachine
