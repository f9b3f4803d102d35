import CellMachine.Emission.Mode
import CellMachine.Instruction.Op
import CellMachine.Operand.Basic
import CellMachine.Source.Token
import CellMachine.Text.Numeral

/-!
# Failures

Everything that an operation can refuse, as data: a `Failure` says what went wrong and with what.
The wording stands in `Failure.message` alone, and `Failure.kinds` gives the general kinds under
which a caller may file a failure. A failure that reports another one carries it, and has its kinds
too.

Emissions and leases have no names of their own; where a message mentions one it says `<id>`.
-/

namespace CellMachine

/-! ### Groups of causes -/

/-- Why a text is no operand. -/
inductive OperandFault
  | empty
  | labelName (name : String)
  | noTarget
  | symbolName (name : String)
  | unreadable (text : String)
  | integer (text body : String) (fault : Text.NumeralFault)
  | negativeRange (text : String)
  | character (text : String)
  deriving DecidableEq, Repr

/-- Why conditional branches are out of balance. -/
inductive BranchFault
  /-- A branch word stands outside every conditional. -/
  | outside (word : String)
  | elseIfAfterElse
  | secondElse
  /-- A block was to be closed inside conditionals. -/
  | unclosed (levels : Nat)
  deriving DecidableEq, Repr

/-- What is wrong with the layout of an image. -/
inductive LayoutFault
  | negativeBase (base : Addr)
  | globalTwice (name : String)
  | globalOutside (name : String) (addr : Addr)
  | routineTwice (name : String)
  | routineOutside (name : String)
  | routinesOverlap (first second : String)
  deriving DecidableEq, Repr

/-- What is wrong with a line of source text. -/
inductive LineFault
  /-- Text that is no token. -/
  | badToken (reason : String)
  | noInstruction (found : Token)
  | noOperand (found : Token)
  | nothingNegated (found : Token)
  | trailing (found : Token)
  deriving DecidableEq, Repr

/-- How a statement stands where it must not. -/
inductive Misplacement
  | lateData
  | labelOutside (label : String)
  | outsideRoutine (op : String)
  | patchDirective (op : String)
  | globalInside (routine : String)
  | routineInside (routine : String)
  | noEnd (routine : String)
  | patchInside (target : String)
  | labelledPatch (label : String)
  | endOutside
  | outsidePatch (statement : RawText)
  | directiveInside (op : String)
  | noEndPatch (target : String)
  deriving DecidableEq, Repr

/-- What is wrong with the arguments of a directive. -/
inductive ArgumentFault
  | dataCount
  | dataSize (text : String)
  | count (op : String) (least most given : Nat)
  | notName (text : RawText)
  | notNumber (text : String)
  | noContents (name : String)
  | condition (text : String)
  | patchTarget
  deriving DecidableEq, Repr

/-- An access to memory that lies outside it. -/
inductive Access
  | load (addr : Addr)
  | store (addr : Addr)
  | enter (addr : Addr)
  | slice (addr : Addr) (count : Int)
  | unallocated (addr : Addr) (count : Int)
  deriving DecidableEq, Repr

/-- Why a region is busy. -/
inductive Occupation
  | overwritten (region : String)
  | leased (region : String)
  | executing (region : String)
  | bound (region : String)
  deriving DecidableEq, Repr

/-- What is wrong with the address of a catalog. -/
inductive AddressFault
  /-- A percent sign without two hexadecimal digits. -/
  | escape (text : RawText)
  | semicolon
  /-- An option has a value that there is not. -/
  | option (name : String) (value : RawText)
  deriving DecidableEq, Repr

/-! ### Failures -/

/-- What an operation refused, and why. -/
inductive Failure
  /-- An index outside its cells, or a size beyond all storage, that no check refused. -/
  | crash
  -- the instruction table
  | unknownMnemonic (mnemonic : String)
  | notGeneric (mnemonic : String)
  | noVariant (storage : StorageClass)
  | operandCount (op : Op) (given : Nat)
  | slotKind (op : Op) (slot : Nat) (wanted given : Kind)
  | exhausted (offset : Int)
  | truncated (op : Op) (offset : Nat)
  -- operands
  | operandText (fault : OperandFault)
  | noSlot (op : Op)
  | unfit (wanted given : Kind)
  | noSymbolTable (name : String)
  | unknownSymbol (name : String)
  | wrongStorage (name : String) (found : StorageClass) (op : Op) (wanted : StorageClass)
  | contentsUnknown (var : SymbolRef) (mode : Mode)
  | contentsOfRaw
  | noContents (name : String)
  | labelName (name : String)
  | noSymbolOperand
  /-- The failure of one operand of an instruction; slots count from one. -/
  | inOperand (op : Op) (slot : Int) (operand : Operand) (cause : Failure)
  /-- The failure to classify the variable of a generic mnemonic. -/
  | inSelection (mnemonic : String) (cause : Failure)
  -- emission
  | overflow (op : Op) (cursor capacity : Nat)
  | duplicateLabel (name : String) (offset : Nat)
  | unresolvedLabels (names : List String)
  | notOpen (status : Status)
  | noRegion
  | attestRefused (cause : Failure)
  | storeRefused (cause : Failure)
  | sealRefused (cause : Failure)
  | discardRefused (cause : Failure)
  | poisonRefused (cause : Failure)
  | bufferSealed (base : Addr)
  | bufferPoisoned (base : Addr)
  | bufferBound (base : Addr)
  | bufferReleased (base : Addr)
  -- programs
  | blockOpen
  | unbalanced (fault : BranchFault)
  | dataFull (cells : Nat) (name : String)
  | duplicateGlobal (name : String)
  | duplicateLocal (name : String)
  | noFrame
  | localOutside (name : String)
  | routineOpen (name : String)
  | blockOpenIn (routine : String)
  | noRoutine
  | duplicateRoutine (name : String)
  | siteMoved (segment program : Addr)
  | reserveTooSmall (name : String) (length reserve : Int)
  | layout (fault : LayoutFault)
  -- source text
  | malformedSource (faults : List (Position × LineFault))
  | unknownDirective (op : String)
  | misplaced (fault : Misplacement)
  | badArguments (fault : ArgumentFault)
  /-- A failure at a place in source text. -/
  | atLine (pos : Position) (cause : Failure)
  | inRoutine (name : String) (cause : Failure)
  | inPatch (target : String) (cause : Failure)
  -- memory and machine
  | outOfBounds (access : Access)
  | stackTooLarge (size stack : Int)
  | noRoom (count free : Int)
  | imageMisplaced (base limit next free : Addr)
  | stackOverflow
  | stackUnderflow
  | argumentUnderflow (count : Cell)
  | trap
  | opcodeCell (cell : Cell)
  | opcode
  | divideByZero
  | stepLimit (limit : Int)
  /-- A failure of the instruction at `pc`. -/
  | machineFault (pc : Addr) (code : UInt16) (cause : Failure)
  /-- The machine was stopped before the run came to an end. -/
  | outOfFuel
  | unknownRegion (name : String)
  | noEntry
  | unknownGlobal (name : String)
  | globalTaken (name : String)
  | regionTaken (name : String)
  | regionOverlap (region : String)
  | regionTooSmall (name : String) (capacity : Int)
  | regionBusy (occupation : Occupation)
  | regionPoisoned (region : String)
  | leaseReleased (region : String)
  -- images
  | loadVersion (version : UInt16)
  /-- Bytes that encode no image. -/
  | undecodable
  | wireVersion (version : UInt16)
  | wireMalformed (cause : Failure)
  | wrongDigest (found recorded : String)
  | inImage (name : String) (cause : Failure)
  | imageNotFound (name : String)
  | catalogClosed (activity : String)
  | catalogAddress (fault : AddressFault)
  /-- The file of a catalog is there but cannot be opened. -/
  | catalogUnopened
  /-- The file of a catalog holds something else. -/
  | catalogForeign
  | inRegion (name : String) (cause : Failure)
  -- commands
  | usage (text : String)
  | outputRequired
  | unknownSubcommand (name : String)
  | argument (text : String) (fault : Text.NumeralFault)
  /-- What the file system refused. -/
  | file (activity path reason : String)
  | catalogFolder (cause : Failure)
  | inFile (path : String) (cause : Failure)
  deriving DecidableEq, Repr

/-- The version of images that this library makes and loads. -/
def imageVersion : UInt16 := 1

/-- The least capacity of a reserved region: room for a routine that returns zero. -/
def minRegionCells : Nat := 3

/-! ### Wording -/

/-- The text of an operand fault. -/
def OperandFault.message : OperandFault → String
  | .empty => "empty operand"
  | .labelName name => s!"invalid label name: {Text.quoted name}"
  | .noTarget => "address-of without a target"
  | .symbolName name => s!"invalid symbol name {Text.quoted name}"
  | .unreadable text => Text.quoted text
  | .integer text body fault =>
    s!"integer literal {Text.quoted text}: " ++
      s!"strconv.ParseUint: parsing {Text.quoted body}: {fault.message}"
  | .negativeRange text => s!"integer literal {Text.quoted text} out of range"
  | .character text => s!"character literal {text}"

/-- The text of a branch fault. -/
def BranchFault.message : BranchFault → String
  | .outside word => s!"{word} without if"
  | .elseIfAfterElse => "elseif after else"
  | .secondElse => "duplicate else"
  | .unclosed levels => s!"{levels} level(s) still open"

/-- The text of a layout fault. -/
def LayoutFault.message : LayoutFault → String
  | .negativeBase base => s!"negative base {Addr.text base}"
  | .globalTwice name => s!"global {name} listed twice"
  | .globalOutside name addr => s!"global {name} at {Addr.text addr} lies outside the image"
  | .routineTwice name => s!"routine {name} listed twice"
  | .routineOutside name => s!"routine {name} lies outside the image"
  | .routinesOverlap first second => s!"routines {first} and {second} overlap"

/-- The text of a line fault. -/
def LineFault.message : LineFault → String
  | .badToken reason => reason
  | .noInstruction found => s!"expected instruction or directive, got {found.text}"
  | .noOperand found => s!"expected operand, got {found.text}"
  | .nothingNegated found => s!"expected name or number after '!', got {found.text}"
  | .trailing found => s!"unexpected {found.text} at end of statement"

/-- The text of a misplacement. -/
def Misplacement.message : Misplacement → String
  | .lateData => ".data after globals or code"
  | .labelOutside label => s!"label {label} outside a routine"
  | .outsideRoutine op => s!"{op} outside a routine"
  | .patchDirective op => s!"{op} belongs in a patch file"
  | .globalInside routine => s!".global inside routine {routine}"
  | .routineInside routine => s!".routine inside routine {routine}"
  | .noEnd routine => s!"routine {routine} has no .end"
  | .patchInside target => s!".patch inside patch for {target}"
  | .labelledPatch label => s!"label {label} on .patch"
  | .endOutside => ".endpatch without .patch"
  | .outsidePatch statement => s!"{statement.quoted} outside a patch"
  | .directiveInside op => s!"{op} inside a patch"
  | .noEndPatch target => s!"patch for {target} has no .endpatch"

/-- The text of an argument fault. -/
def ArgumentFault.message : ArgumentFault → String
  | .dataCount => ".data takes one count"
  | .dataSize text => s!".data {text}"
  | .count op least most given => s!"{op} takes {least} to {most} argument(s), got {given}"
  | .notName text => s!"{text.quoted} is not a name"
  | .notNumber text => s!"{Text.quoted text} is not a number"
  | .noContents name => s!"{name} has no compile-time value"
  | .condition text => s!"condition {Text.quoted text}"
  | .patchTarget => ".patch takes a region name or a base and capacity"

/-- The text of an access. -/
def Access.message : Access → String
  | .load addr => s!"load {Addr.text addr}"
  | .store addr => s!"store {Addr.text addr}"
  | .enter addr => s!"enter {Addr.text addr}"
  | .slice addr count => s!"{count} cell(s) at {Addr.text addr}"
  | .unallocated addr count => s!"{count} cell(s) at {Addr.text addr} is not allocated memory"

/-- The text of an occupation. -/
def Occupation.message : Occupation → String
  | .overwritten region => s!"{region} is being rewritten"
  | .leased region => s!"{region} is already leased"
  | .executing region => s!"{region} is executing"
  | .bound region => s!"lease on {region} is bound to another context"

/-- The text of an address fault. -/
def AddressFault.message : AddressFault → String
  | .escape text => s!"invalid URL escape {text.quoted}"
  | .semicolon => "invalid semicolon separator in query"
  | .option name value => s!"unknown {name} {value.quoted}"

/-- The text of a failure. -/
def Failure.message : Failure → String
  | .crash => "index out of range"
  | .unknownMnemonic mnemonic =>
    s!"unknown mnemonic or operand shape: {Text.quoted mnemonic}"
  | .notGeneric mnemonic =>
    s!"unknown mnemonic or operand shape: {Text.quoted mnemonic} is not a generic mnemonic"
  | .noVariant storage => s!"invalid operand kind: {storage.text}"
  | .operandCount op given =>
    s!"unknown mnemonic or operand shape: {op.mnemonic} takes {op.slots.length} operand(s), " ++
      s!"got {given}"
  | .slotKind op slot wanted given =>
    s!"invalid operand kind: {op.mnemonic} operand {slot} wants {wanted.text}, got {given.text}"
  | .exhausted offset => s!"truncated instruction: at offset {offset}"
  | .truncated op offset => s!"truncated instruction: {op.mnemonic} at offset {offset}"
  | .operandText fault => s!"invalid operand: {fault.message}"
  | .noSlot op =>
    s!"unknown mnemonic or operand shape: {op.mnemonic} has {op.slots.length} operand(s)"
  | .unfit wanted given => s!"invalid operand kind: want {wanted.text}, got {given.text}"
  | .noSymbolTable name => s!"unknown symbol: {name} (no symbol table)"
  | .unknownSymbol name => s!"unknown symbol: {name}"
  | .wrongStorage name found op wanted =>
    s!"invalid operand kind: {name} is {found.text}, {op.mnemonic} expects {wanted.text}"
  | .contentsUnknown var mode =>
    s!"invalid operand kind: value of {var.text} is not known to a {mode.text} context"
  | .contentsOfRaw => "invalid operand kind: value of a raw address"
  | .noContents name => s!"invalid operand kind: {name} has no compile-time value"
  | .labelName name => s!"invalid label name: {Text.quoted name}"
  | .noSymbolOperand => "invalid operand kind: no symbol operand to select a variant"
  | .inOperand op slot operand cause =>
    s!"{op.mnemonic} operand {slot} ({operand.text}): {cause.message}"
  | .inSelection mnemonic cause => s!"{mnemonic}: {cause.message}"
  | .overflow op cursor capacity =>
    s!"buffer overflow: {op.mnemonic} needs {op.width} cell(s) at offset {cursor}, " ++
      s!"capacity {capacity}"
  | .duplicateLabel name offset =>
    s!"duplicate label: {Text.quoted name} already defined at offset {offset}"
  | .unresolvedLabels names => "unresolved label: " ++ ", ".intercalate names
  | .notOpen status => s!"context is not open: context <id> is {status.text}"
  | .noRegion => "region unavailable: nil region"
  | .attestRefused cause => s!"region unavailable: {cause.message}"
  | .storeRefused cause => s!"region unavailable: context <id>: {cause.message}"
  | .sealRefused cause => s!"finalize context <id>: {cause.message}"
  | .discardRefused cause => s!"discard: {cause.message}"
  | .poisonRefused cause => s!"discard context <id>: {cause.message}"
  | .bufferSealed base => s!"region unavailable: buffer at {Addr.text base} is sealed"
  | .bufferPoisoned base => s!"region unavailable: buffer at {Addr.text base} is poisoned"
  | .bufferBound base =>
    s!"region unavailable: buffer at {Addr.text base} is bound to another context"
  | .bufferReleased base => s!"region unavailable: buffer at {Addr.text base} already released"
  | .blockOpen => "static block already open"
  | .unbalanced fault => s!"unbalanced conditional: {fault.message}"
  | .dataFull cells name => s!"data segment full: {cells} cell(s), declaring {name}"
  | .duplicateGlobal name => s!"duplicate symbol: global {name}"
  | .duplicateLocal name => s!"duplicate symbol: local {name}"
  | .noFrame => "no local frame"
  | .localOutside name => s!"no local frame: local {name} outside a routine"
  | .routineOpen name => s!"routine still open: {name}"
  | .blockOpenIn routine => s!"routine still open: block still open in {routine}"
  | .noRoutine => "no open routine"
  | .duplicateRoutine name => s!"duplicate routine: {name}"
  | .siteMoved segment program =>
    s!"emission site moved: segment at {Addr.text segment}, program at {Addr.text program}"
  | .reserveTooSmall name length reserve =>
    s!"routine exceeds its reservation: {name} is {length} cell(s), reserved {reserve}"
  | .layout fault => s!"bad image layout: {fault.message}"
  | .malformedSource faults =>
    "\n".intercalate (faults.map fun f => s!"line {f.1.line}: syntax error: {f.2.message}")
  | .unknownDirective op => s!"unknown directive: {op}"
  | .misplaced fault => s!"misplaced statement: {fault.message}"
  | .badArguments fault => s!"bad directive arguments: {fault.message}"
  | .atLine pos cause => s!"line {pos.line}: {cause.message}"
  | .inRoutine name cause => s!"routine {name}: {cause.message}"
  | .inPatch target cause => s!"patch for {target}: {cause.message}"
  | .outOfBounds access => s!"address out of bounds: {access.message}"
  | .stackTooLarge size stack =>
    s!"out of memory: {size} cell(s) cannot hold a {stack} cell stack"
  | .noRoom count free => s!"out of memory: {count} cell(s) requested, {free} free"
  | .imageMisplaced base limit next free =>
    "out of memory: image " ++ Addr.text base ++ ".." ++ Addr.text limit ++ ", free " ++
      Addr.text next ++ ".." ++ Addr.text free
  | .stackOverflow => "stack overflow"
  | .stackUnderflow => "stack underflow"
  | .argumentUnderflow count => s!"stack underflow: {count.toInt} argument(s)"
  | .trap => "trap"
  | .opcodeCell cell => s!"trap: invalid opcode cell {cell.toInt}"
  | .opcode => "trap: invalid opcode"
  | .divideByZero => "division by zero"
  | .stepLimit limit => s!"step limit exceeded: {limit}"
  | .machineFault pc code cause => s!"fault at {Addr.text pc} ({opcodeText code}): {cause.message}"
  | .outOfFuel => "stopped"
  | .unknownRegion name => s!"unknown region: {name}"
  | .noEntry => "unknown region: nil entry"
  | .unknownGlobal name => s!"unknown global: {name}"
  | .globalTaken name => s!"name already defined: global {name}"
  | .regionTaken name => s!"name already defined: region {name}"
  | .regionOverlap region => s!"region overlaps another region: {region}"
  | .regionTooSmall name capacity =>
    s!"region too small: {name} needs at least {minRegionCells} cells, got {capacity}"
  | .regionBusy occupation => s!"region busy: {occupation.message}"
  | .regionPoisoned region => s!"region poisoned: {region}"
  | .leaseReleased region => s!"lease already released: {region}"
  | .loadVersion version => s!"image version {version}, want {imageVersion}"
  | .undecodable => "dist: unmarshal image:"
  | .wireVersion version => s!"unsupported image version: {version}, want {imageVersion}"
  | .wireMalformed cause => s!"malformed image: {cause.message}"
  | .wrongDigest found recorded => s!"malformed image: digest {found}, recorded {recorded}"
  | .inImage name cause => s!"image {name}: {cause.message}"
  | .imageNotFound name => s!"image not found: {name}"
  | .catalogClosed activity => s!"{activity}: sql: database is closed"
  | .catalogAddress fault => s!"setting busy timeout: {fault.message}"
  | .catalogUnopened => "setting busy timeout: unable to open database file: out of memory (14)"
  | .catalogForeign => "creating table: file is not a database (26)"
  | .inRegion name cause => s!"region {name}: {cause.message}"
  | .usage text => s!"usage: {text}"
  | .outputRequired => "-o is required when patching a stored image"
  | .unknownSubcommand name => s!"unknown store subcommand: {name}"
  | .argument text fault =>
    s!"argument {Text.quoted text}: strconv.ParseInt: parsing {Text.quoted text}: {fault.message}"
  | .file activity path reason => s!"{activity} {path}: {reason}"
  | .catalogFolder cause => s!"creating store directory: {cause.message}"
  | .inFile path cause => s!"{path}: {cause.message}"

/-! ### Kinds -/

/-- The general kinds of failures. -/
inductive FailureKind
  | unknownInstruction
  | operandKind
  | truncated
  | overflow
  | duplicateLabel
  | unresolvedLabel
  | labelName
  | operand
  | unknownSymbol
  | notOpen
  | regionUnavailable
  | blockOpen
  | unbalanced
  | dataFull
  | routineOpen
  | noRoutine
  | duplicateRoutine
  | siteMoved
  | reserveTooSmall
  | layout
  | duplicateSymbol
  | noFrame
  | malformedSource
  | unknownDirective
  | misplaced
  | badArguments
  | outOfBounds
  | outOfMemory
  | stackOverflow
  | stackUnderflow
  | trap
  | divideByZero
  | stepLimit
  | unknownRegion
  | unknownGlobal
  | nameTaken
  | regionOverlap
  | regionTooSmall
  | regionBusy
  | regionPoisoned
  | leaseReleased
  | wireVersion
  | wireMalformed
  | imageNotFound
  | numeralMalformed
  | numeralRange
  deriving DecidableEq, Repr

/-- Every kind once, from the instruction table up to the catalog. -/
def FailureKind.all : List FailureKind :=
  [.unknownInstruction, .operandKind, .truncated, .overflow, .duplicateLabel, .unresolvedLabel,
   .labelName, .operand, .unknownSymbol, .notOpen, .regionUnavailable, .blockOpen, .unbalanced,
   .dataFull, .routineOpen, .noRoutine, .duplicateRoutine, .siteMoved, .reserveTooSmall, .layout,
   .duplicateSymbol, .noFrame, .malformedSource, .unknownDirective, .misplaced, .badArguments,
   .outOfBounds, .outOfMemory, .stackOverflow, .stackUnderflow, .trap, .divideByZero, .stepLimit,
   .unknownRegion, .unknownGlobal, .nameTaken, .regionOverlap, .regionTooSmall, .regionBusy,
   .regionPoisoned, .leaseReleased, .wireVersion, .wireMalformed, .imageNotFound,
   .numeralMalformed, .numeralRange]

/-- The kind of a numeral fault. -/
def numeralKind : Text.NumeralFault → FailureKind
  | .malformed => .numeralMalformed
  | .outOfRange => .numeralRange

/-- The kinds of an operand fault. -/
def OperandFault.kinds : OperandFault → List FailureKind
  | .labelName _ => [.operand, .labelName]
  | .integer _ _ fault => [.operand, numeralKind fault]
  | _ => [.operand]

/-- The kinds of a failure, those of the failures it reports included. -/
def Failure.kinds : Failure → List FailureKind
  | .crash => []
  | .unknownMnemonic _ | .notGeneric _ | .operandCount _ _ | .noSlot _ => [.unknownInstruction]
  | .noVariant _ | .slotKind _ _ _ _ | .unfit _ _ | .wrongStorage _ _ _ _ | .contentsUnknown _ _
  | .contentsOfRaw | .noContents _ | .noSymbolOperand => [.operandKind]
  | .exhausted _ | .truncated _ _ => [.truncated]
  | .operandText fault => fault.kinds
  | .noSymbolTable _ | .unknownSymbol _ => [.unknownSymbol]
  | .labelName _ => [.labelName]
  | .inOperand _ _ _ cause | .inSelection _ cause => cause.kinds
  | .overflow _ _ _ => [.overflow]
  | .duplicateLabel _ _ => [.duplicateLabel]
  | .unresolvedLabels _ => [.unresolvedLabel]
  | .notOpen _ => [.notOpen]
  | .noRegion | .bufferSealed _ | .bufferPoisoned _ | .bufferBound _ | .bufferReleased _ =>
    [.regionUnavailable]
  | .attestRefused cause | .storeRefused cause => .regionUnavailable :: cause.kinds
  | .sealRefused cause | .discardRefused cause | .poisonRefused cause => cause.kinds
  | .blockOpen => [.blockOpen]
  | .unbalanced _ => [.unbalanced]
  | .dataFull _ _ => [.dataFull]
  | .duplicateGlobal _ | .duplicateLocal _ => [.duplicateSymbol]
  | .noFrame | .localOutside _ => [.noFrame]
  | .routineOpen _ | .blockOpenIn _ => [.routineOpen]
  | .noRoutine => [.noRoutine]
  | .duplicateRoutine _ => [.duplicateRoutine]
  | .siteMoved _ _ => [.siteMoved]
  | .reserveTooSmall _ _ _ => [.reserveTooSmall]
  | .layout _ => [.layout]
  | .malformedSource _ => [.malformedSource]
  | .unknownDirective _ => [.unknownDirective]
  | .misplaced _ => [.misplaced]
  | .badArguments _ => [.badArguments]
  | .atLine _ cause | .inRoutine _ cause | .inPatch _ cause => cause.kinds
  | .outOfBounds _ => [.outOfBounds]
  | .stackTooLarge _ _ | .noRoom _ _ | .imageMisplaced _ _ _ _ => [.outOfMemory]
  | .stackOverflow => [.stackOverflow]
  | .stackUnderflow | .argumentUnderflow _ => [.stackUnderflow]
  | .trap | .opcodeCell _ | .opcode => [.trap]
  | .divideByZero => [.divideByZero]
  | .stepLimit _ => [.stepLimit]
  | .machineFault _ _ cause => cause.kinds
  | .outOfFuel => []
  | .unknownRegion _ | .noEntry => [.unknownRegion]
  | .unknownGlobal _ => [.unknownGlobal]
  | .globalTaken _ | .regionTaken _ => [.nameTaken]
  | .regionOverlap _ => [.regionOverlap]
  | .regionTooSmall _ _ => [.regionTooSmall]
  | .regionBusy _ => [.regionBusy]
  | .regionPoisoned _ => [.regionPoisoned]
  | .leaseReleased _ => [.leaseReleased]
  | .loadVersion _ | .undecodable => []
  | .wireVersion _ => [.wireVersion]
  | .wireMalformed cause => .wireMalformed :: cause.kinds
  | .wrongDigest _ _ => [.wireMalformed]
  | .inImage _ cause | .inRegion _ cause | .inFile _ cause | .catalogFolder cause => cause.kinds
  | .imageNotFound _ => [.imageNotFound]
  | .catalogClosed _ | .catalogAddress _ | .catalogUnopened | .catalogForeign => []
  | .usage _ | .outputRequired | .unknownSubcommand _ | .file _ _ _ => []
  | .argument _ fault => [numeralKind fault]

/-- Whether a failure comes from a crash: an index or a size that no check refused. -/
def Failure.crashed : Failure → Bool
  | .crash => true
  | .inOperand _ _ _ cause | .inSelection _ cause | .attestRefused cause | .storeRefused cause
  | .sealRefused cause | .discardRefused cause | .poisonRefused cause | .atLine _ cause
  | .inRoutine _ cause | .inPatch _ cause | .machineFault _ _ cause | .wireMalformed cause
  | .inImage _ cause | .inRegion _ cause | .inFile _ cause | .catalogFolder cause => cause.crashed
  | _ => false

/-- The places in source text that a failure points at. -/
def Failure.positions : Failure → List Position
  | .atLine pos _ => [pos]
  | .malformedSource faults => faults.map (·.1)
  | .inFile _ cause => cause.positions
  | _ => []

/-! ### Actions that may fail -/

/-- An action on a state: it ends with a value or a failure and, in both cases, with a state, so
that what a failed action has already done stays visible. -/
abbrev Action (σ : Type) := EStateM Failure σ

/-- A result as an action that leaves the state alone. -/
def Action.ofExcept {σ α : Type} : Except Failure α → Action σ α
  | .ok a => pure a
  | .error e => throw e

end CellMachine
