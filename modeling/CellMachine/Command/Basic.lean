import CellMachine.Command.Flags
import CellMachine.Host.Basic
import CellMachine.Manifest

/-!
# Commands

A command reads its arguments, works on a host and ends with an exit code. It may stop early: with
a failure, which is reported, or with a usage.
-/

namespace CellMachine

/-- Why a command stops early. -/
inductive Stop
  | failed (failure : Failure)
  /-- A text for the user and an exit code. -/
  | usage (text : String) (code : Nat)
  deriving Repr

/-- A command on a host. -/
abbrev Command (m : Type → Type) := ExceptT Stop m

namespace Command

variable {m : Type → Type} [Monad m]

/-- Stops with a failure. -/
def fail {α : Type} (f : Failure) : Command m α := throw (.failed f)

/-- A result as a command. -/
def ofExcept {α : Type} : Except Failure α → Command m α
  | .ok a => pure a
  | .error f => fail f

/-- What a host does, with its failure as the command's. -/
def ask {α : Type} (question : Command m (Except Failure α)) : Command m α := do
  ofExcept (← question)

/-- The flags and the other arguments of a command. -/
def arguments (name : String) (flags : List Flag) (args : List String) : Command m Arguments :=
  match readFlags flags [] args with
  | .ok a => pure a
  | .error fault =>
    let code := if fault = .help then 0 else 2
    throw (.usage (fault.message ++ flagsUsage name flags) code)

variable [Host m]

/-- A command sees the host that it runs on. -/
instance : Host (Command m) where
  folder := ExceptT.lift Host.folder
  isThere path := ExceptT.lift (Host.isThere path)
  read path := ExceptT.lift (Host.read path)
  write path bytes := ExceptT.lift (Host.write path bytes)
  makeFolders path := ExceptT.lift (Host.makeFolders path)
  now := ExceptT.lift Host.now
  say text := ExceptT.lift (Host.say text)
  warn text := ExceptT.lift (Host.warn text)

/-- The text of a file. -/
def readText (path : String) : Command m RawText := do
  return RawText.ofBytes (← ask (Host.read path))

/-! ### Manifests -/

/-- The folder of the nearest manifest, from a folder upwards; `levels` bounds the way. -/
def findManifest : (levels : Nat) → (folder : String) → m (Option String)
  | 0, _ => pure none
  | levels + 1, folder => do
    if ← Host.isThere (Text.joinPaths folder manifestName) then return some folder
    if Text.folderOf folder == folder then return none
    findManifest levels (Text.folderOf folder)

/-- The manifest in a folder, or a text that says why there is none. -/
def readManifest (folder : String) : m (Except String Manifest) := do
  let path := Text.joinPaths folder manifestName
  match ← Host.read path with
  | .error f => return .error s!"cannot read {path}: {f.message}"
  | .ok bytes =>
    match Manifest.ofBytes bytes with
    | .ok manifest => return .ok { manifest with folder }
    | .error fault => return .error s!"{path}: {fault.message}"

/-- The nearest manifest; without one, the defaults in the working folder. -/
def loadManifest : m (Except String Manifest) := do
  let folder ← Host.folder
  match ← findManifest (Text.pathSteps folder).length.succ folder with
  | some folder => readManifest folder
  | none => return .ok { folder }

end Command

end CellMachine
