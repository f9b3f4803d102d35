import CellMachine.Machine.Basic
import CellMachine.Text.Path
import CellMachine.Toml.Document

/-!
# Manifests

A manifest is the configuration of a project: the sizes of its machine, where data go, where
messages and images are kept, and the regions to reserve. It is written as a document with the
sections `machine`, `data`, `log` and `store` and the array `region`. Every section and field may be
left out; a section or field that does not exist is refused.
-/

namespace CellMachine

/-- A region to reserve. -/
structure RegionRequest where
  name : String
  capacity : Int64
  deriving DecidableEq, Repr

/-- The configuration of a project. -/
structure Manifest where
  /-- The number of memory cells. -/
  memory : Int := 65536
  /-- The number of stack cells. -/
  stack : Int := defaultStackCells
  /-- The number of steps that a run may take; zero is no limit. -/
  stepLimit : Int := defaultStepLimit
  dataBase : Addr := 0
  dataCells : Int := 0
  verbosity : Int := 0
  /-- The file for messages; the empty text stands for none. -/
  logFile : String := ""
  /-- The file of the image catalog. -/
  storeFile : String := ".cellemit/images.db"
  regions : List RegionRequest := []
  /-- The folder of the project. -/
  folder : String := ""
  deriving DecidableEq, Repr

/-- The name of manifest files. -/
def manifestName : String := "cellemit.toml"

/-- Why a text is no manifest. -/
inductive ManifestFault
  /-- It is no document, or a text field holds a date. -/
  | unreadable
  /-- A section or field is unknown, missing or of the wrong kind. -/
  | schema
  | regionTwice (name : String)
  | stackTooLarge (stack memory : Int)
  deriving DecidableEq, Repr

/-- The text of a manifest fault. -/
def ManifestFault.message : ManifestFault → String
  | .unreadable => "parse error"
  | .schema => "invalid manifest"
  | .regionTwice name => s!"invalid manifest: region {name} declared twice"
  | .stackTooLarge stack memory =>
    s!"invalid manifest: stack of {stack} cells does not fit in {memory} cells of memory"

namespace Manifest

/-! ### Fields -/

/-- A text field, or a date in its place. -/
inductive TextField
  | text (s : String)
  | moment
  deriving DecidableEq, Repr

/-- A section of a document, which holds only the named fields. -/
def section? (doc : Toml.Entries) (name : String) (fields : List String) : Option Toml.Entries :=
  match doc.lookup name with
  | none => some []
  | some (.table entries) => if entries.all fun e => e.1 ∈ fields then some entries else none
  | some _ => none

/-- A whole number that satisfies a test, or `default` if the field is left out. -/
def number? (entries : Toml.Entries) (name : String) (default : Int) (test : Int → Bool) :
    Option Int :=
  match entries.lookup name with
  | none => some default
  | some (.integer n) => if test n then some n else none
  | some _ => none

/-- A text that satisfies a test, or `default` if the field is left out. A date can stand for a text
unless it is a day or more away from universal time. -/
def text? (entries : Toml.Entries) (name default : String) (test : String → Bool) :
    Option TextField :=
  match entries.lookup name with
  | none => some (.text default)
  | some (.text s) => if test s then some (.text s) else none
  | some (.moment distant) => if distant then none else some .moment
  | some _ => none

/-- Whether a text may name a region: letters, digits and `_`, `$` and points, of which digits and
points do not come first. -/
def isRegionName (s : String) : Bool :=
  match s.toList with
  | [] => false
  | c :: rest =>
    (c.isAlpha || c == '_' || c == '$') &&
      rest.all fun c => c.isAlphanum || c == '_' || c == '$' || c == '.'

/-- A region to reserve. Both fields are needed. -/
def region? (entries : Toml.Entries) : Option RegionRequest :=
  match entries.lookup "name", entries.lookup "capacity" with
  | some (.text name), some (.integer capacity) =>
    if isRegionName name && 3 ≤ capacity && entries.all fun e => e.1 ∈ ["name", "capacity"] then
      some { name, capacity := Int64.ofInt capacity }
    else none
  | _, _ => none

/-- A member of an array as a region to reserve. -/
def regionOf? : Toml.Value → Option RegionRequest
  | .table entries => region? entries
  | _ => none

/-- The regions to reserve. -/
def regions? (doc : Toml.Entries) : Option (List RegionRequest) :=
  match doc.lookup "region" with
  | none => some []
  | some (.tables elements) => elements.mapM region?
  | some (.array items) => items.mapM regionOf?
  | some _ => none

/-- The manifest that a document describes, with its two text fields. -/
def ofDocument? (doc : Toml.Entries) : Option (Manifest × TextField × TextField) := do
  if !doc.all fun e => e.1 ∈ ["machine", "data", "log", "store", "region"] then none
  let machine ← section? doc "machine" ["memory", "stack", "step-limit"]
  let data ← section? doc "data" ["base", "cells"]
  let log ← section? doc "log" ["verbosity", "file"]
  let store ← section? doc "store" ["path"]
  let defaults : Manifest := {}
  let memory ← number? machine "memory" defaults.memory fun n => 0 < n
  let stack ← number? machine "stack" defaults.stack fun n => 0 < n
  let stepLimit ← number? machine "step-limit" defaults.stepLimit fun n => 0 ≤ n
  let base ← number? data "base" 0 fun n => 0 ≤ n
  let dataCells ← number? data "cells" 0 fun n => 0 ≤ n
  let verbosity ← number? log "verbosity" 0 fun n => -4 ≤ n && n ≤ 2
  let logFile ← text? log "file" "" fun _ => true
  let storeFile ← text? store "path" defaults.storeFile fun s => s != ""
  let regions ← regions? doc
  let manifest : Manifest :=
    { memory, stack, stepLimit, dataBase := Int64.ofInt base, dataCells, verbosity, regions }
  return (manifest, logFile, storeFile)

/-- The first name that occurs a second time; `seen` are the names before. -/
def repeated? : (seen : List String) → List String → Option String
  | _, [] => none
  | seen, name :: rest => if name ∈ seen then some name else repeated? (name :: seen) rest

/-- The manifest that a text describes. -/
def parse (text : String) : Except ManifestFault Manifest :=
  match Toml.document? text with
  | none => .error .unreadable
  | some doc =>
    match ofDocument? doc with
    | none => .error .schema
    | some (m, .text logFile, .text storeFile) =>
      match repeated? [] (m.regions.map RegionRequest.name) with
      | some name => .error (.regionTwice name)
      | none =>
        if m.memory ≤ m.stack then .error (.stackTooLarge m.stack m.memory)
        else .ok { m with logFile, storeFile }
    | some _ => .error .unreadable

/-- The manifest that the bytes of a file describe. -/
def ofBytes (bytes : List UInt8) : Except ManifestFault Manifest :=
  match Toml.textOf? bytes with
  | none => .error .unreadable
  | some text => parse text

/-! ### What a manifest sets up -/

/-- The path of the image catalog. -/
def storePath (m : Manifest) : String := Text.placedIn m.folder m.storeFile

/-- The path of the file for messages, if there is one. -/
def logPath? (m : Manifest) : Option String :=
  if m.logFile.isEmpty then none else some (Text.placedIn m.folder m.logFile)

/-- A memory of the sizes of the manifest. -/
def newMemory (m : Manifest) : Except Failure Memory := Memory.new m.memory m.stack

/-- A processor with the step limit of the manifest. -/
def newProcessor (m : Manifest) : Processor := { stepLimit := m.stepLimit }

/-- Reserves regions in their order. -/
def reserveRegions : List RegionRequest → Action Memory Unit
  | [] => pure ()
  | r :: rest => do
    let _ ← fun m =>
      match Memory.reserve r.name r.capacity m with
      | .ok span m => .ok span m
      | .error cause m => .error (.inRegion r.name cause) m
    reserveRegions rest

end Manifest

end CellMachine
