import CellMachine.Text.Utf8
import CellMachine.Toml.Grammar

/-!
# The tables of a document

The lines of a document are put together one after the other. A table that a longer key has only
implied may be stated once later on; any other key is not defined twice. An array that holds tables
is implied by its members until the whole of it is read. A line that writes `a.b` may add to a table
that stands elsewhere, and to the last element of an array of tables.
-/

namespace CellMachine.Toml

/-- A value of a document. -/
inductive Value
  | text (s : String)
  | integer (n : Int)
  | boolean (b : Bool)
  | float
  /-- A date or time; `distant` says that it is a day or more away from universal time. -/
  | moment (distant : Bool)
  | array (items : List Value)
  | table (entries : List (String × Value))
  /-- An array of tables, which lines may continue. -/
  | tables (elements : List (List (String × Value)))
  deriving Repr, Inhabited

/-- The entries of a table, each name once. -/
abbrev Entries := List (String × Value)

namespace Entries

/-- Gives a name a value, in place of what it had. -/
def set (name : String) (value : Value) : Entries → Entries
  | [] => [(name, value)]
  | e :: rest => if e.1 = name then (name, value) :: rest else e :: set name value rest

/-- The table that a context leads to from a table. Of an array of tables the last element
counts. -/
def follow? : (context : Key) → Entries → Option Entries
  | [], entries => some entries
  | name :: context, entries =>
    match entries.lookup name with
    | some (.table inner) => follow? context inner
    | some (.tables elements) => elements.getLast?.bind (follow? context)
    | _ => none

/-- Gives a name a value in the table that a context leads to. -/
def setAt (context : Key) (name : String) (value : Value) (entries : Entries) : Entries :=
  match context with
  | [] => entries.set name value
  | step :: context =>
    match entries.lookup step with
    | some (.table inner) => entries.set step (.table (setAt context name value inner))
    | some (.tables elements) =>
      match elements.getLast? with
      | some inner =>
        entries.set step (.tables (elements.dropLast ++ [setAt context name value inner]))
      | none => entries
    | _ => entries

end Entries

/-- A document under way. -/
structure Builder where
  root : Entries := []
  /-- The tables that are implied and not stated yet. -/
  implied : List Key := []
  /-- The keys whose last value was an array, or is one under way. -/
  arrays : List Key := []
  /-- The table that the current line belongs to. -/
  context : Key := []
  /-- The name of the current line. -/
  name : String := ""
  deriving Repr

/-- A step in building a document. -/
abbrev Build := StateT Builder Option

namespace Build

/-- Marks a key as implied. -/
def imply (key : Key) : Build Unit := modify fun b => { b with implied := key :: b.implied }

/-- Takes the mark of an implied key back. -/
def state (key : Key) : Build Unit :=
  modify fun b => { b with implied := b.implied.filter (· != key) }

/-- Notes whether the value of a name is an array. A name without characters stands for the table
around it. -/
def noteKind (name : String) (isArray : Bool) : Build Unit :=
  modify fun b =>
    let key := if name.isEmpty then if b.context.isEmpty then [""] else b.context
      else b.context ++ [name]
    let others := b.arrays.filter (· != key)
    { b with arrays := if isArray then key :: others else others }

/-- Sets the value of a name in a context. -/
def put (context : Key) (name : String) (value : Value) : Build Unit :=
  modify fun b => { b with root := b.root.setAt context name value }

/-- The value of a name in a context, if it has one. It fails if the context leads to no table. -/
def get? (context : Key) (name : String) : Build (Option Value) := fun b =>
  (b.root.follow? context).map fun entries => (entries.lookup name, b)

/-- Defines a name of the current table. -/
def define (name : String) (value : Value) : Build Unit := do
  let b ← get
  let key := b.context ++ [name]
  match ← get? b.context name with
  | none => put b.context name value
  | some _ =>
    if !b.implied.contains key then failure
    state key
    if b.arrays.contains key then put b.context name value

/-- Makes sure that there is a table for each name on the way; `before` leads to the first. -/
def implyParents : (before : Key) → (parents : List String) → Build Unit
  | _, [] => pure ()
  | before, name :: rest => do
    match ← get? before name with
    | none =>
      imply (before ++ [name])
      put before name (.table [])
    | some (.table _) => pure ()
    | some (.tables _) => pure ()
    | some _ => failure
    implyParents (before ++ [name]) rest

/-- Makes the table of a key the current one: a new element of an array of tables, or a table. -/
def enter (key : Key) (element : Bool) : Build Unit := do
  match key.getLast? with
  | none => failure
  | some name =>
    let parents := key.dropLast
    implyParents [] parents
    modify fun b => { b with context := parents }
    if element then
      match ← get? parents name with
      | none => put parents name (.tables [[]])
      | some (.tables elements) => put parents name (.tables (elements ++ [[]]))
      | some _ => failure
    else define name (.table [])
    modify fun b => { b with context := key }

/-- Makes the tables on the way of a key implied, one inside the other. -/
def enterParents : List String → Build Unit
  | [] => pure ()
  | name :: rest => do
    let key := (← get).context ++ [name]
    imply key
    enter key false
    enterParents rest

/-- Whether a value is an array as it is written. -/
def isArray : Expr → Bool
  | .array _ => true
  | _ => false

/-- Puts a value into a table of its own along a key. It fails if something other than a table
stands on the way. -/
def nest : Key → Value → Entries → Option Entries
  | [], _, entries => some entries
  | [name], value, entries => some (entries.set name value)
  | name :: rest, value, entries => do
    let inner ← match entries.lookup name with
      | none => some []
      | some (.table inner) => some inner
      | some _ => none
    return entries.set name (.table (← nest rest value inner))

mutual

/-- The value of an expression. `inArray` says that it is a member of an array. -/
def eval (inArray : Bool) : Expr → Build Value
  | .text s => pure (.text s)
  | .integer n => pure (.integer n)
  | .boolean b => pure (.boolean b)
  | .float => pure .float
  | .moment distant => pure (.moment distant)
  | .array items => do
    noteKind (← get).name true
    return .array (← evalItems items)
  | .inline pairs => do
    let b ← get
    let context := b.context ++ [b.name]
    modify fun b => { b with context, name := "" }
    imply context
    enter context inArray
    let entries ← evalPairs context pairs []
    modify fun b' => { b' with context := b.context, name := b.name }
    return .table entries

/-- The values of the members of an array. -/
def evalItems : List Expr → Build (List Value)
  | [] => pure []
  | e :: rest => do
    let v ← eval true e
    return v :: (← evalItems rest)

/-- Defines the pairs of an inline table in its context; the answer is the table by itself. -/
def evalPairs (context : Key) : List (Key × Expr) → Entries → Build Entries
  | [], entries => pure entries
  | (key, e) :: rest, entries => do
    let name := key.getLast?.getD ""
    modify fun b => { b with name }
    enterParents key.dropLast
    let v ← eval false e
    define name v
    noteKind name (isArray e)
    modify fun b => { b with context }
    evalPairs context rest (← StateT.lift (nest key v entries))

end

/-- Adds a line. -/
def line : Line → Build Unit
  | .table key => do
    enter key false
    noteKind "" false
  | .element key => do
    enter key true
    noteKind "" false
  | .pair key e => do
    let context := (← get).context
    let name := key.getLast?.getD ""
    modify fun b => { b with name }
    enterParents key.dropLast
    let v ← eval false e
    define name v
    noteKind name (isArray e)
    modify fun b => { b with context, name := "" }

/-- Adds lines in their order. -/
def lines : List Line → Build Unit
  | [] => pure ()
  | l :: rest => do
    line l
    lines rest

end Build

/-- The text of a file without the mark of an encoding at its start. The text is in UTF-8 whatever
the mark says. -/
def textOf? : (bytes : List UInt8) → Option String
  | 0xFF :: 0xFE :: bytes => Text.ofUtf8? bytes
  | 0xFE :: 0xFF :: bytes => Text.ofUtf8? bytes
  | 0xEF :: 0xBB :: 0xBF :: bytes => Text.ofUtf8? bytes
  | bytes => Text.ofUtf8? bytes

/-- The tables of a document. -/
def document? (text : String) : Option Entries := do
  let ls ← lines? text
  let (_, b) ← Build.lines ls {}
  return b.root

end CellMachine.Toml
