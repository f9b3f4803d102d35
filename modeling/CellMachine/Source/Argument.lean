import CellMachine.Operand.Parse
import CellMachine.Source.Statement

/-!
# Arguments of statements

The arguments of an instruction are operands; those of a directive are names and numbers, and there
is a fixed range for how many of them it takes.
-/

namespace CellMachine

namespace Arg

/-- The name that an argument states. -/
def name (arg : Arg) : Except Failure String :=
  if Text.isName arg.text.read then .ok arg.text.read
  else .error (.badArguments (.notName arg.text))

/-- The number that an argument states, as an integer or a character. -/
def number (arg : Arg) : Except Failure Cell :=
  match parseOperand arg.text.read with
  | .error failure => .error failure
  | .ok (.immediate value) => .ok value
  | .ok _ => .error (.badArguments (.notNumber arg.text.read))

end Arg

namespace Statement

/-- The operands of an instruction. -/
def operands (st : Statement) : Except Failure (List Operand) :=
  parseOperands (st.args.map fun arg => arg.text.read)

/-- Fails unless a directive has between `least` and `most` arguments. -/
def checkCount (st : Statement) (least most : Nat) : Except Failure Unit :=
  if st.args.length < least ∨ most < st.args.length then
    .error (.badArguments (.count (st.op?.getD "") least most st.args.length))
  else .ok ()

end Statement

/-- Reports the failure of an action at a place in source text. -/
def Action.at {σ α : Type} (pos : Position) (action : Action σ α) : Action σ α := fun s =>
  match action s with
  | .ok a s => .ok a s
  | .error cause s => .error (.atLine pos cause) s

end CellMachine
