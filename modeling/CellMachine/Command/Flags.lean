import CellMachine.Text.Numeral
import CellMachine.Text.Quoted

/-!
# Flags

Flags stand before the other arguments of a command, with one dash or two. The value of a flag is
the next argument, or follows an equals sign. Two dashes alone end the flags. Of several values for
one flag the last counts.
-/

namespace CellMachine

/-- A flag that takes a value. -/
structure Flag where
  name : String
  /-- What the usage calls the value. -/
  kind : String
  /-- What the usage says about the flag. -/
  help : String
  /-- Why a text is no value of the flag. -/
  fault? : String → Option String := fun _ => none

/-- The flag in a usage. -/
def Flag.usage (f : Flag) : String :=
  "  -" ++ f.name ++ " " ++ f.kind ++ "\n    \t" ++ f.help ++ "\n"

/-- The usage of a command with flags. -/
def flagsUsage (command : String) (flags : List Flag) : String :=
  "Usage of " ++ command ++ ":\n" ++ String.join (flags.map Flag.usage)

/-- Why a text is no value of a flag for whole numbers. -/
def integerFault? (s : String) : Option String :=
  match Text.readSignedNumeral s.toList with
  | .ok _ => none
  | .error .malformed => some "parse error"
  | .error .outOfRange => some "value out of range"

/-- Arguments with their flags taken out. -/
structure Arguments where
  /-- The values of flags, the last one first. -/
  values : List (String × String) := []
  rest : List String := []
  deriving DecidableEq, Repr

/-- The value of a flag; a flag that is not given has the empty text. -/
def Arguments.value (a : Arguments) (name : String) : String := (a.values.lookup name).getD ""

/-- Why flags cannot be read. -/
inductive FlagFault
  /-- The usage is asked for. -/
  | help
  | malformed (arg : String)
  | unknown (name : String)
  | valueMissing (name : String)
  | badValue (value name reason : String)
  deriving DecidableEq, Repr

/-- The text of a flag fault. -/
def FlagFault.message : FlagFault → String
  | .help => ""
  | .malformed arg => s!"bad flag syntax: {arg}\n"
  | .unknown name => s!"flag provided but not defined: -{name}\n"
  | .valueMissing name => s!"flag needs an argument: -{name}\n"
  | .badValue value name reason =>
    s!"invalid value {Text.quoted value} for flag -{name}: {reason}\n"

/-- The flag of a name. An unknown flag may ask for help. -/
def findFlag (flags : List Flag) (name : String) : Except FlagFault Flag :=
  match flags.find? fun f => f.name == name with
  | some f => .ok f
  | none => .error (if name == "help" || name == "h" then .help else .unknown name)

/-- Notes the value of a flag. -/
def checkValue (f : Flag) (value : String) : Except FlagFault (String × String) :=
  match f.fault? value with
  | some reason => .error (.badValue value f.name reason)
  | none => .ok (f.name, value)

/-- What stands behind the dashes of an argument, if it is a flag. -/
def flagBody? : List Char → Option (List Char)
  | '-' :: '-' :: body => some body
  | '-' :: c :: body => some (c :: body)
  | _ => none

/-- The flag that the body of an argument names, with what stands behind an equals sign. -/
def readFlag (flags : List Flag) (arg : String) (body : List Char) :
    Except FlagFault (Flag × Option String) := do
  let name := body.takeWhile (· != '=')
  if name.isEmpty || name.head? == some '-' then throw (.malformed arg)
  let f ← findFlag flags (String.ofList name)
  match body.drop name.length with
  | [] => return (f, none)
  | _ :: value => return (f, some (String.ofList value))

/-- Takes flags from the front of arguments. -/
def readFlags (flags : List Flag) (values : List (String × String)) :
    List String → Except FlagFault Arguments
  | [] => .ok { values }
  | arg :: rest =>
    match flagBody? arg.toList with
    | none => .ok { values, rest := arg :: rest }
    | some [] => .ok { values, rest }
    | some (c :: body) =>
      match readFlag flags arg (c :: body), rest with
      | .error e, _ => .error e
      | .ok (f, some value), rest =>
        match checkValue f value with
        | .error e => .error e
        | .ok v => readFlags flags (v :: values) rest
      | .ok (f, none), [] => .error (.valueMissing f.name)
      | .ok (f, none), value :: rest =>
        match checkValue f value with
        | .error e => .error e
        | .ok v => readFlags flags (v :: values) rest

end CellMachine
