import CellMachine.Source.Argument
import CellMachine.Source.Parse

/-!
# Patches

A patch is a new body for a region of loaded memory. A patch file is a sequence of patches:

    .patch name              a named region
        ... instructions and labels ...
    .endpatch
    .patch base, cells       a range of cells
        ...
    .endpatch

A label on the last line belongs to the body.
-/

namespace CellMachine

/-- The region that a patch overwrites. -/
inductive PatchTarget
  | region (name : String)
  | range (base : Addr) (capacity : Int64)
  deriving DecidableEq, Repr

/-- The text of a target. -/
def PatchTarget.text : PatchTarget → String
  | .region name => name
  | .range base capacity => s!"{capacity.toInt} cell(s) at {Addr.text base}"

/-- A new body for a region. -/
structure Patch where
  pos : Position
  target : PatchTarget
  body : List Statement := []
  deriving DecidableEq, Repr

/-- The target that the arguments of a patch's first line state. -/
def patchTarget : List Arg → Except Failure PatchTarget
  | [arg] => arg.name.map .region
  | [base, capacity] => do
    let base ← base.number
    let capacity ← capacity.number
    return .range base capacity
  | _ => .error (.badArguments .patchTarget)

/-- The patches of a list of statements. `open?` is the patch whose body is being read. -/
def readPatches : (open? : Option Patch) → List Statement → Except Failure (List Patch)
  | none, [] => .ok []
  | some p, [] => .error (.atLine p.pos (.misplaced (.noEndPatch p.target.text)))
  | open?, st :: rest =>
    let fail (cause : Failure) := Except.error (Failure.atLine st.pos cause)
    match st.op?, open? with
    | some ".patch", some p => fail (.misplaced (.patchInside p.target.text))
    | some ".patch", none =>
      match st.label? with
      | some label => fail (.misplaced (.labelledPatch label))
      | none =>
        match patchTarget st.args with
        | .error cause => fail cause
        | .ok target => readPatches (some { pos := st.pos, target }) rest
    | some ".endpatch", none => fail (.misplaced .endOutside)
    | some ".endpatch", some p =>
      let tail := match st.label? with
        | some label => [{ pos := st.pos, label? := some label }]
        | none => []
      (readPatches none rest).map ({ p with body := p.body ++ tail } :: ·)
    | _, none => fail (.misplaced (.outsidePatch st.text))
    | op?, some p =>
      if st.isDirective then fail (.misplaced (.directiveInside (op?.getD "")))
      else readPatches (some { p with body := p.body ++ [st] }) rest

/-- The patches of a patch file. -/
def parsePatches (source : RawText) : Except Failure (List Patch) := do
  readPatches none (← parseSource source)

end CellMachine
