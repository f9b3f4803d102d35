import CellMachine.Failure

/-!
# Hosts

What a command asks of the system that it runs on: files, the time, and two streams for text. The
commands know nothing else of it, so they run on a real system and on a file tree held as a value
alike.
-/

namespace CellMachine

/-- A system with files, a clock and two streams. -/
class Host (m : Type → Type) where
  /-- The path of the folder in which a command runs. -/
  folder : m String
  /-- Whether there is a file or folder at a path. -/
  isThere : String → m Bool
  /-- The contents of a file. -/
  read : String → m (Except Failure (List UInt8))
  /-- Writes a file, in place of what it held. -/
  write : String → List UInt8 → m (Except Failure Unit)
  /-- Makes a folder and all folders on the way to it. -/
  makeFolders : String → m (Except Failure Unit)
  /-- The time in seconds since the start of 1970. -/
  now : m Int
  /-- Writes text for the user. -/
  say : String → m Unit
  /-- Writes text about what went wrong or aside. -/
  warn : String → m Unit

end CellMachine
