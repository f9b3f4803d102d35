import CellMachine.Command.Image

/-!
# The command line

The first arguments are flags, then comes the name of a command with its own arguments.
-/

namespace CellMachine

/-- The flag for the verbosity of messages. -/
def verbosityFlag : Flag where
  name := "v"
  kind := "int"
  help := "Log verbosity (-4 none .. 2 debug); overrides cellemit.toml (default -99)"
  fault? := integerFault?

/-- The usage of the command line. -/
def mainUsage : String :=
  "Usage: cellemit [options] <command> [arguments]\n\n" ++
  "Commands:\n" ++
  "  build [-o out.img] [-save name] file.asm   Assemble a program into an image\n" ++
  "  run [-patch file] image routine [args...]  Load an image and call a routine\n" ++
  "  patch [-o out.img] image file.patch        Apply patches to an image\n" ++
  "  dis image [routine]                        Disassemble an image\n" ++
  "  store save|load|list|rm ...                Manage the image catalog\n" ++
  "\nAn image argument is a file path or store:<name>.\n\n" ++
  "Options:\n" ++ verbosityFlag.usage

namespace Command

variable {m : Type → Type} [Monad m] [Host m] [BaseOrder] [ImageTable]

/-- The command of a name, if there is one. -/
def named? (manifest : Manifest) (name : String) (args : List String) :
    Option (Command m Unit) :=
  match name with
  | "build" => some (buildImage manifest args)
  | "run" => some (runRoutine manifest args)
  | "patch" => some (patchImage manifest args)
  | "dis" => some (listImage manifest args)
  | "store" => some (manageStore manifest args)
  | _ => none

/-- Runs a command to its exit code. -/
def finish (command : Command m Unit) : m Nat := do
  match ← ExceptT.run command with
  | .ok () => return 0
  | .error (.usage text code) =>
    Host.warn text
    return code
  | .error (.failed f) =>
    if f.crashed then
      Host.warn s!"panic: {f.message}\n"
      return 2
    Host.warn s!"Error: {f.message}\n"
    return 1

/-- Runs the command line to its exit code. -/
def perform (args : List String) : m Nat := do
  match readFlags [verbosityFlag] [] args with
  | .error fault =>
    Host.warn (fault.message ++ mainUsage)
    return if fault = .help then 0 else 2
  | .ok a =>
    match ← loadManifest with
    | .error text =>
      Host.warn s!"Error loading manifest: {text}\n"
      return 1
    | .ok manifest =>
      match a.rest with
      | [] =>
        Host.warn mainUsage
        return 2
      | name :: args =>
        match named? manifest name args with
        | some command => finish command
        | none =>
          Host.warn (s!"Unknown command: {name}\n" ++ mainUsage)
          return 2

end Command

end CellMachine
