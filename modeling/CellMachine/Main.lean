import CellMachine.Command.Line
import Std.Time.DateTime.Timestamp

/-!
# The program

The command line on the real system. This module only hands questions of commands to the system; all
that a command decides is decided in `CellMachine.Command`.
-/

namespace CellMachine

namespace Native

/-- What the system says about a failure, as it stands at the end of a message. -/
def reason : IO.Error → String
  | .noFileOrDirectory _ _ text | .alreadyExists _ _ text | .inappropriateType _ _ text
  | .permissionDenied _ _ text | .invalidArgument _ _ text | .resourceExhausted _ _ text
  | .noSuchThing _ _ text => text.decapitalize
  | e => e.toString

/-- Asks the system about a path. -/
def ask {α : Type} (activity path : String) (question : IO α) : IO (Except Failure α) := do
  match ← question.toBaseIO with
  | .ok a => return .ok a
  | .error e => return .error (.file activity path (reason e))

/-- Whether there is something at a path. -/
def isThere (path : String) : IO Bool := do
  return (← ask "open" path (IO.FS.Handle.mk path .read)).isOk

/-- The contents of a file. -/
def read (path : String) : IO (Except Failure (List UInt8)) := do
  match ← ask "open" path (IO.FS.Handle.mk path .read) with
  | .error f => return .error f
  | .ok file => return (← ask "read" path file.readBinToEnd).map ByteArray.toList

/-- Makes folders from a folder along names. -/
def makeFolders (folder : String) : List String → IO (Except Failure Unit)
  | [] => return .ok ()
  | name :: rest => do
    let path := folder ++ "/" ++ name
    if ← isThere (path ++ "/.") then makeFolders path rest
    else if ← isThere path then return .error (.file "mkdir" path "not a directory")
    else
      match ← ask "mkdir" path (IO.FS.createDir path) with
      | .error f => return .error f
      | .ok () => makeFolders path rest

end Native

instance : Host IO where
  folder := return toString (← IO.currentDir)
  isThere := Native.isThere
  read := Native.read
  write path bytes := Native.ask "open" path (IO.FS.writeBinFile path ⟨bytes.toArray⟩)
  makeFolders path :=
    Native.makeFolders (if Text.isAbsolute path then "" else ".") (Text.pathSteps path)
  now := return (← Std.Time.Timestamp.now).toSecondsSinceUnixEpoch.val
  say := IO.print
  warn := IO.eprint

end CellMachine

/-- Runs the command line. -/
def main (args : List String) : IO UInt32 := do
  return UInt32.ofNat (← CellMachine.Command.perform args)
