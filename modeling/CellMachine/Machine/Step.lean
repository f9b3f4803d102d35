import CellMachine.Machine.Basic

/-!
# Running

One step of the machine fetches the instruction at the program counter and executes it. A run
repeats steps until the outermost routine returns, `HALT` is executed or a step fails. A failed
step is reported with the address of its instruction; an instruction that could not be told apart
yet is reported as `NOP`.
-/

namespace CellMachine

/-- An instruction as it stands in memory. An operand that the instruction does not have is zero. -/
structure Fetched where
  op : Op
  first : Cell := 0
  second : Cell := 0
  deriving DecidableEq, Repr

/-- The instruction at an address. -/
def Memory.fetch (m : Memory) (pc : Addr) : Except Failure Fetched := do
  let word ← (m.load pc).mapError (.machineFault pc 0)
  if word < 0 ∨ 0xFFFF < word then throw (.machineFault pc 0 (.opcodeCell word))
  match Op.ofCode? (opcodeOf word) with
  | none => throw (.machineFault pc (opcodeOf word) .opcode)
  | some op =>
    match op.slots.length with
    | 0 => return { op }
    | 1 =>
      let first ← (m.load (pc + 1)).mapError (.machineFault pc op.code)
      return { op, first }
    | _ =>
      let first ← (m.load (pc + 1)).mapError (.machineFault pc op.code)
      let second ← (m.load (pc + 2)).mapError (.machineFault pc op.code)
      return { op, first, second }

namespace Machine

/-- Sets `P` to a function of `P` and `S`. -/
def compute (f : Cell → Cell → Cell) : Action Machine Unit :=
  modifyProcessor fun r => { r with p := f r.p r.s }

/-- Sets `P` to the truth of a relation between `P` and `S`. -/
def compare (f : Cell → Cell → Bool) : Action Machine Unit :=
  compute fun p s => Cell.ofBool (f p s)

/-- Sets `P` to a function of `P` and a divisor `S` that is not zero. -/
def divide (f : Cell → Cell → Cell) : Action Machine Unit := do
  let r ← getProcessor
  if r.s = 0 then throw .divideByZero
  compute f

/-- Jumps by a distance that counts from the operand cell of the instruction at `pc`, if a relation
between `P` and `S` holds. -/
def branch (pc : Addr) (distance : Cell) (f : Cell → Cell → Bool) : Action Machine Unit :=
  modifyProcessor fun r => if f r.p r.s then { r with pc := pc + 1 + distance } else r

/-- The address of a frame offset. -/
def frameAddr (offset : Cell) : Action Machine Addr := do
  let r ← getProcessor
  return r.fp + offset

/-- The amount by which a cell shifts another one. -/
def shiftAmount (s : Cell) : Cell := s &&& 63

/-- Executes every instruction but those that can end a run. The instruction stands at `pc`, its
operands are `a` and `b`, and the program counter is behind it already. -/
def execute (pc : Addr) (a b : Cell) : Op → Action Machine Unit
  | .nop | .proc | .halt | .ret => pure ()
  | .trap => throw .trap
  | .stack => reserve a
  | .call => do
    let r ← getProcessor
    call (r.codeBase + a) r.pc
  | .calla => do
    let r ← getProcessor
    call a r.pc
  | .constP => setP a
  | .constS => setS a
  | .zeroP => setP 0
  | .zeroS => setS 0
  | .pushC => push a
  | .loadP => do setP (← load a)
  | .loadS => do setS (← load a)
  | .storP => do store a (← getProcessor).p
  | .storS => do store a (← getProcessor).s
  | .incG => addTo a 1
  | .decG => addTo a (-1)
  | .setm => store a b
  | .loadLP => do setP (← load (← frameAddr a))
  | .loadLS => do setS (← load (← frameAddr a))
  | .storLP => do store (← frameAddr a) (← getProcessor).p
  | .storLS => do store (← frameAddr a) (← getProcessor).s
  | .addrLP => do setP (← frameAddr a)
  | .incL => do addTo (← frameAddr a) 1
  | .decL => do addTo (← frameAddr a) (-1)
  | .liP => do setP (← load (← getProcessor).p)
  | .siP => do
    let r ← getProcessor
    store r.s r.p
  | .moveP => do setP (← getProcessor).s
  | .moveS => do setS (← getProcessor).p
  | .xchg => modifyProcessor fun r => { r with p := r.s, s := r.p }
  | .pushP => do push (← getProcessor).p
  | .pushS => do push (← getProcessor).s
  | .popP => do setP (← pop)
  | .popS => do setS (← pop)
  | .incP => compute fun p _ => p + 1
  | .decP => compute fun p _ => p - 1
  | .add => compute (· + ·)
  | .sub => compute (· - ·)
  | .mul => compute (· * ·)
  | .div => divide (· / ·)
  | .mod => divide (· % ·)
  | .and => compute (· &&& ·)
  | .or => compute (· ||| ·)
  | .xor => compute (· ^^^ ·)
  | .shl => compute fun p s => p <<< shiftAmount s
  | .shr => compute fun p s => p >>> shiftAmount s
  | .neg => compute fun p _ => -p
  | .not => compute fun p _ => ~~~p
  | .eq => compare (· == ·)
  | .neq => compare (· != ·)
  | .less => compare fun p s => p < s
  | .leq => compare fun p s => p ≤ s
  | .grtr => compare fun p s => s < p
  | .geq => compare fun p s => s ≤ p
  | .jump => do goto ((← getProcessor).codeBase + a)
  | .jrel => branch pc a fun _ _ => true
  | .jzer => branch pc a fun p _ => p == 0
  | .jnz => branch pc a fun p _ => p != 0
  | .jeq => branch pc a (· == ·)
  | .jneq => branch pc a (· != ·)

/-- Executes an instruction. The answer is whether the run is over. -/
def perform (pc : Addr) (ins : Fetched) : Action Machine Bool :=
  match ins.op with
  | .halt => pure true
  | .ret => ret
  | op => do
    execute pc ins.first ins.second op
    return false

/-- Fails if the run has taken all the steps that it may take, and else counts one more. -/
def countStep : Action Machine Unit := do
  let r ← getProcessor
  if 0 < r.stepLimit ∧ r.stepLimit ≤ r.steps then
    throw (.machineFault r.pc 0 (.stepLimit r.stepLimit))
  modifyProcessor fun r => { r with steps := r.steps + 1 }

/-- One step. The answer is whether the run is over. -/
def step : Action Machine Bool := do
  countStep
  let m ← get
  let pc := m.processor.pc
  let ins ← Action.ofExcept (m.memory.fetch pc)
  goto (pc + Int64.ofNat ins.op.width)
  fun m =>
    match perform pc ins m with
    | .ok ended m => .ok ended m
    | .error cause m => .error (.machineFault pc ins.op.code cause) m

/-- Repeats steps until the run is over; the result is `P`. -/
def runFor : (fuel : Nat) → Action Machine Cell
  | 0 => throw .outOfFuel
  | fuel + 1 => do
    if ← step then return (← getProcessor).p
    runFor fuel

/-- The greatest number of steps that can be counted, after which even a run without a limit is
stopped. -/
def endless : Nat := 1 <<< 63 - 1

/-- Runs until the outermost routine returns, within the step limit. -/
def run : Action Machine Cell := do
  let r ← getProcessor
  runFor (if 0 < r.stepLimit then r.stepLimit.toNat + 1 else endless)

/-- Calls the routine at an address from outside. -/
def start (entry : Addr) (args : List Cell) : Action Machine Cell := do
  modify fun m =>
    let top := Int64.ofNat m.memory.size
    { m with processor :=
      { m.processor with sp := top, fp := top, codeBase := 0, steps := 0, active := [] } }
  pushAll args.reverse
  push (Int64.ofNat args.length)
  call entry returnSentinel
  run

/-- Calls the routine at an address; without one there is nothing to call. Every region that was
entered is left again, however the call ends. -/
def invoke (target? : Option Addr) (args : List Cell) : Action Machine Cell := fun m =>
  match target? with
  | none => .error .noEntry m
  | some entry =>
    match start entry args m with
    | .ok v m => .ok v m.leaveAll
    | .error failure m => .error failure m.leaveAll

/-- Calls the region of a name. -/
def callNamed (name : String) (args : List Cell) : Action Machine Cell := fun m =>
  match m.memory.spanNamed? name with
  | none => .error (.unknownRegion name) m
  | some span => invoke (some span.base) args m

end Machine

end CellMachine
