import CellMachine.Assembly.Basic
import CellMachine.Catalog.Address
import CellMachine.Catalog.Basic
import CellMachine.Catalog.Moment
import CellMachine.Command.Basic
import CellMachine.Instruction.Listing
import CellMachine.Machine.Step
import CellMachine.Memory.Load
import CellMachine.Patch.Apply

/-!
# Commands on images

`build` assembles a source, `run` calls a routine, `patch` overwrites routines, `dis` lists them and
`store` keeps images in the catalog of the project. An image is named by the path of its file, or by
`store:` and its name in the catalog.
-/

namespace CellMachine

/-- A memory of the manifest's sizes with an image and the manifest's regions. -/
def Manifest.loadMemory [BaseOrder] (manifest : Manifest) (img : Image) :
    Except Failure Memory := do
  let memory ← manifest.newMemory
  let set : Action Memory Unit := do
    Memory.loadImage img
    Manifest.reserveRegions manifest.regions
  match set memory with
  | .ok () memory => .ok memory
  | .error f _ => .error f

/-- The image with the cells that a memory holds in its place. A list without cells is left
absent. -/
def Image.withCellsOf (img : Image) (memory : Memory) : Except Failure Image :=
  (memory.slice img.base (Int64.ofNat img.cells.size)).map fun cells =>
    { img with cells? := if cells.isEmpty then none else some cells }

/-- The result of calling a routine in a memory. -/
def Manifest.call (manifest : Manifest) (memory : Memory) (name : String) (args : List Cell) :
    Except Failure Cell :=
  match Machine.callNamed name args { processor := manifest.newProcessor, memory } with
  | .ok v _ => .ok v
  | .error f _ => .error f

namespace Command

variable {m : Type → Type} [Monad m] [Host m] [BaseOrder] [ImageTable]

/-! ### The catalog -/

/-- A catalog and the path of the file that keeps it. -/
structure KeptCatalog where
  path : String
  catalog : Catalog

/-- The bytes of a catalog's file. A file that is not there is made without bytes. -/
def catalogBytes (path : String) : Command m (List UInt8) := do
  let made ← if ← Host.isThere path then pure (.ok ()) else Host.write path []
  match made, ← Host.read path with
  | .ok (), .ok bytes => return bytes
  | _, _ => fail .catalogUnopened

/-- The catalog of the project. It is made if it is not there. -/
def openCatalog (manifest : Manifest) : Command m KeptCatalog := do
  let place := manifest.storePath
  ofExcept ((← Host.makeFolders (Text.folderOf place)).mapError .catalogFolder)
  let address ← ofExcept ((CatalogAddress.ofText place).mapError .catalogAddress)
  let bytes ← catalogBytes address.path
  ofExcept (address.checkOptions.mapError .catalogAddress)
  match Catalog.ofBytes? bytes with
  | none => fail .catalogForeign
  | some catalog =>
    ask (Host.write address.path catalog.toBytes)
    return { path := address.path, catalog }

/-- Does something to a catalog. -/
def onCatalog {α : Type} (kept : KeptCatalog) (action : Action Catalog α) : Command m α :=
  match action kept.catalog with
  | .error f _ => fail f
  | .ok a catalog => do
    ask (Host.write kept.path catalog.toBytes)
    return a

/-- Saves an image in a catalog and says so. -/
def saveImage (kept : KeptCatalog) (name : String) (img : Image) : Command m Unit := do
  let row ← onCatalog kept (Catalog.save name img (← Host.now))
  Host.say s!"saved {row.name} ({row.digest})\n"

/-! ### Image files -/

/-- The image in a file. -/
def readImageFile (path : String) : Command m Image := do
  let bytes ← ask (Host.read path)
  ofExcept ((Image.ofBytes bytes).mapError (.inFile path))

/-- The mark of an image in the catalog. -/
def catalogMark : String := "store:"

/-- The name in the catalog that an argument states, if it states one. -/
def catalogName? (arg : String) : Option String :=
  if arg.startsWith catalogMark then some (String.ofList (arg.toList.drop catalogMark.length))
  else none

/-- The image that an argument names. -/
def readImage (manifest : Manifest) (arg : String) : Command m Image := do
  match catalogName? arg with
  | none => readImageFile arg
  | some name => onCatalog (← openCatalog manifest) (Catalog.load name)

/-- Writes an image into a file. -/
def writeImage (path : String) (img : Image) : Command m Unit :=
  ask (Host.write path img.toBytes)

/-- Applies the patches of a file and says what was patched. -/
def patchMemory (memory : Memory) (path : String) : Command m Memory := do
  let text ← readText path
  let patches ← ofExcept ((parsePatches text).mapError (.inFile path))
  match Patched.applyAll patches { memory } with
  | .error f _ => fail (.inFile path f)
  | .ok () s =>
    for (p, r) in patches.zip s.done.toList do
      Host.warn s!"patched {p.target.text}: {r.length} cell(s) at {Addr.text r.base}\n"
    return s.memory

/-! ### Subcommands -/

/-- The flag for the path of an image to write. -/
def outputFlag (fallback : String) : Flag where
  name := "o"
  kind := "string"
  help := s!"Output image path (default: {fallback})"

/-- The path of the image that a source is assembled into. -/
def imagePath (source : String) : String :=
  (if source.endsWith ".asm" then String.ofList (source.toList.take (source.length - 4))
    else source) ++ ".img"

/-- Assembles a source into an image. -/
def buildImage (manifest : Manifest) (args : List String) : Command m Unit := do
  let saveFlag : Flag :=
    { name := "save", kind := "string", help := "Also save the image in the store under this name" }
  let a ← arguments "build" [outputFlag "source name with .img", saveFlag] args
  match a.rest with
  | [source] =>
    let text ← readText source
    let options : AssemblyOptions :=
      { dataBase := manifest.dataBase, dataCells := manifest.dataCells }
    let img ← ofExcept ((assemble text options).mapError (.inFile source))
    let output := if a.value "o" == "" then imagePath source else a.value "o"
    writeImage output img
    Host.say s!"{output}: {img.cells.size} cell(s), {img.routines.length} routine(s)\n"
    if a.value "save" != "" then
      saveImage (← openCatalog manifest) (a.value "save") img
  | _ => fail (.usage "cellemit build [-o out.img] [-save name] file.asm")

/-- The number that an argument states. -/
def numberArgument (arg : String) : Except Failure Cell :=
  match Text.readSignedNumeral arg.toList with
  | .ok n => .ok (Int64.ofInt n)
  | .error fault => .error (.argument arg fault)

/-- Calls a routine of an image. -/
def runRoutine (manifest : Manifest) (args : List String) : Command m Unit := do
  let patchFlag : Flag :=
    { name := "patch", kind := "string", help := "Patch file applied before the call" }
  let a ← arguments "run" [patchFlag] args
  match a.rest with
  | image :: routine :: numbers =>
    let img ← readImage manifest image
    let cells ← ofExcept (numbers.mapM numberArgument)
    let memory ← ofExcept (manifest.loadMemory img)
    let memory ← if a.value "patch" == "" then pure memory
      else patchMemory memory (a.value "patch")
    let v ← ofExcept (manifest.call memory routine cells)
    Host.say s!"{v.toInt}\n"
  | _ => fail (.usage "cellemit run [-patch file] image routine [args...]")

/-- Overwrites routines of an image. The layout of the image stays; what is patched outside it is
not written. -/
def patchImage (manifest : Manifest) (args : List String) : Command m Unit := do
  let a ← arguments "patch" [outputFlag "overwrite the input file"] args
  match a.rest with
  | [image, patches] =>
    if a.value "o" == "" && (catalogName? image).isSome then fail .outputRequired
    let img ← readImage manifest image
    let memory ← ofExcept (manifest.loadMemory img)
    let memory ← patchMemory memory patches
    let img ← ofExcept (img.withCellsOf memory)
    writeImage (if a.value "o" == "" then image else a.value "o") img
  | _ => fail (.usage "cellemit patch [-o out.img] image file.patch")

/-- Lists a routine. -/
def listRoutine (img : Image) (r : RoutineEntry) : Command m Unit := do
  let cells ← ofExcept (img.routineCells r.name)
  Host.say (r.name ++ ":\n" ++ listing (cells.getD #[]).toList r.base ++ "\n\n")

/-- Lists the routines of an image, or one of them. -/
def listImage (manifest : Manifest) : (args : List String) → Command m Unit
  | [image] => do
    let img ← readImage manifest image
    img.routines.forM (listRoutine img)
  | [image, name] => do
    let img ← readImage manifest image
    (img.routines.filter fun r => r.name == name).forM (listRoutine img)
    if (img.routine? name).isNone then fail (.unknownRegion name)
  | _ => fail (.usage "cellemit dis image [routine]")

/-- The line of an image in a list of the catalog. -/
def rowLine (r : CatalogRow) : String :=
  Text.padRight 20 r.name ++ " " ++ Text.padLeft ' ' 8 (toString r.count) ++ "  " ++
    String.ofList (r.digest.toList.take 12) ++ "  " ++ Catalog.momentText r.savedAt ++ "\n"

/-- Manages the catalog. -/
def manageStore (manifest : Manifest) (args : List String) : Command m Unit := do
  if args.isEmpty then fail (.usage "cellemit store [save|load|list|rm] ...")
  let kept ← openCatalog manifest
  match args with
  | ["save", name, image] => saveImage kept name (← readImageFile image)
  | "save" :: _ => fail (.usage "cellemit store save <name> <image>")
  | ["load", name, output] =>
    writeImage output (← onCatalog kept (Catalog.load name))
  | "load" :: _ => fail (.usage "cellemit store load <name> <out.img>")
  | "list" :: _ =>
    let rows ← onCatalog kept Catalog.list
    rows.forM fun r => Host.say (rowLine r)
  | ["rm", name] => onCatalog kept (Catalog.delete name)
  | "rm" :: _ => fail (.usage "cellemit store rm <name>")
  | name :: _ => fail (.unknownSubcommand name)
  | [] => pure ()

end Command

end CellMachine
