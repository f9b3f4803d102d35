import CellMachine.Command.Image
import CellMachine.Proofs.Host.FileTree
import CellMachine.Proofs.Patch.PatchedImage

/-!
# Patching an image and running it

A routine runs with patches in two ways: the image is patched and the image that was written runs,
or the image runs with the patches. The commands read the same files and stop at the same failures,
and what they answer is told by the memories in which the routine is called.

* `Command.rehearse` — what a command answers on a rehearsed system, and the system after it.
* `Command.answer_run`, `Command.answer_run_patched` — what is said and answered when a routine
  runs.
* `Command.run_of_patch` — **running the image that was written answers and says what running
  the first image with the patches does**, and one of the commands fails to patch if and only if the
  other one does.
-/

namespace CellMachine.Command

open CellMachine

variable {α β : Type}

/-! ### Rehearsed commands -/

/-- What a command answers on a rehearsed system, and the system after it. -/
def rehearse (c : Command (StateM Rehearsal) α) (r : Rehearsal) : Except Stop α × Rehearsal :=
  c.run.run r

section rehearse

variable {c : Command (StateM Rehearsal) α} {f : α → Command (StateM Rehearsal) β}
  {r r' : Rehearsal} {a : α} {stop : Stop} {path : String}

/-- A command goes on with what its first part gave. -/
theorem rehearse_bind_of_ok (h : rehearse c r = (.ok a, r')) :
    rehearse (c >>= f) r = rehearse (f a) r' := by
  change c r = (Except.ok a, r') at h
  show (match c r with | (x, r') => ExceptT.bindCont f x r') = _
  rw [h]
  rfl

/-- A command stops where its first part stops. -/
theorem rehearse_bind_of_error (h : rehearse c r = (.error stop, r')) :
    rehearse (c >>= f) r = (.error stop, r') := by
  change c r = (Except.error stop, r') at h
  show (match c r with | (x, r') => ExceptT.bindCont f x r') = _
  rw [h]
  rfl

/-- A file is read. -/
theorem rehearse_read {bytes : List UInt8} (h : r.read path = .ok bytes) :
    rehearse (ask (Host.read path)) r = (.ok bytes, r) := by
  have hhost : rehearse (Host.read path) r = (.ok (.ok bytes), r) := by
    show (Except.ok (r.read path), r) = _
    rw [h]
  exact (rehearse_bind_of_ok hhost).trans rfl

/-- An image is read from a file. -/
theorem rehearse_readImage [BaseOrder] [ImageTable] {manifest : Manifest} {bytes : List UInt8}
    {img : Image} (hfile : r.read path = .ok bytes) (hplain : catalogName? path = none)
    (hread : Image.ofBytes bytes = .ok img) :
    rehearse (readImage manifest path) r = (.ok img, r) := by
  unfold readImage
  rw [hplain]
  refine (rehearse_bind_of_ok (rehearse_read hfile)).trans ?_
  rw [hread]
  rfl

/-- What a command answers and what was said by then. -/
def answer (x : Except Stop α × Rehearsal) : Except Stop α × String := (x.1, x.2.said)

/-- A loop that warns at most says nothing and changes no file. -/
theorem rehearse_forIn_warned {body : β → PUnit → Command (StateM Rehearsal) (ForInStep PUnit)}
    {next : Command (StateM Rehearsal) α}
    (hbody : ∀ b r, ∃ warned, rehearse (body b ⟨⟩) r = (.ok (.yield ⟨⟩), { r with warned }))
    (l : List β) : ∀ r : Rehearsal, ∃ warned,
      rehearse (do let _ ← forIn l PUnit.unit body; next) r = rehearse next { r with warned } := by
  induction l with
  | nil => exact fun r => ⟨r.warned, rfl⟩
  | cons b rest ih =>
    intro r
    obtain ⟨first, hfirst⟩ := hbody b r
    obtain ⟨warned, hrest⟩ := ih { r with warned := first }
    refine ⟨warned, ?_⟩
    rw [List.forIn_cons, bind_assoc, rehearse_bind_of_ok hfirst]
    exact hrest

end rehearse

/-! ### Runs of routines -/

section run

variable {manifest : Manifest} {r r₁ : Rehearsal} {image patchFile : String} {text : List UInt8}
  {img : Image} {patches : List Patch}

/-- The memory after the patches of a file. -/
def patchedMemory (path : String) (patches : List Patch) (m : Memory) : Except Failure Memory :=
  match Patched.applyAll patches { memory := m } with
  | .ok () s => .ok s.memory
  | .error f _ => .error (.inFile path f)

/-- The patches of a file are applied, with warnings at most. -/
theorem rehearse_patchMemory (m : Memory) (htext : r.read patchFile = .ok text)
    (hparse : parsePatches (RawText.ofBytes text) = .ok patches) : ∃ warned,
    rehearse (patchMemory m patchFile) r =
      ((patchedMemory patchFile patches m).mapError Stop.failed, { r with warned }) := by
  have hread : rehearse (readText patchFile) r = (.ok (RawText.ofBytes text), r) :=
    (rehearse_bind_of_ok (rehearse_read htext)).trans rfl
  have hpatches : rehearse (ofExcept ((parsePatches (RawText.ofBytes text)).mapError
      (.inFile patchFile))) r = (.ok patches, r) := by
    rw [hparse]
    rfl
  unfold patchMemory patchedMemory
  rw [rehearse_bind_of_ok hread, rehearse_bind_of_ok hpatches]
  cases Patched.applyAll patches { memory := m } with
  | error f s => exact ⟨r.warned, rfl⟩
  | ok _ s =>
    show ∃ warned, rehearse (forIn _ PUnit.unit _ >>= fun _ => pure s.memory) r =
      rehearse (pure s.memory) { r with warned }
    exact rehearse_forIn_warned (fun _ _ => ⟨_, rfl⟩) _ r

/-- What is answered and said when a call is reported. -/
def reported (said : String) : Except Failure Cell → Except Stop Unit × String
  | .ok v => (.ok (), said ++ s!"{v.toInt}\n")
  | .error f => (.error (.failed f), said)

/-- A result is reported as an answer, in the system as it is but for what is said. -/
theorem answer_report (result : Except Failure Cell) (r : Rehearsal) :
    answer (rehearse (do Host.say s!"{(← ofExcept result).toInt}\n") r) =
      reported r.said result := by
  cases result with
  | ok v => rfl
  | error f => rfl

/-- Runs a routine of an image. -/
def run [BaseOrder] [ImageTable] (manifest : Manifest) (image name : String)
    (numbers : List String) : Command (StateM Rehearsal) Unit :=
  runRoutine manifest ("--" :: image :: name :: numbers)

/-- Runs a routine of an image with the patches of a file. -/
def runPatched [BaseOrder] [ImageTable] (manifest : Manifest) (patchFile image name : String)
    (numbers : List String) : Command (StateM Rehearsal) Unit :=
  runRoutine manifest ("-patch" :: patchFile :: "--" :: image :: name :: numbers)

/-- Patches an image with the patches of a file. -/
def patch [BaseOrder] [ImageTable] (manifest : Manifest) (output image patchFile : String) :
    Command (StateM Rehearsal) Unit :=
  patchImage manifest ["-o", output, "--", image, patchFile]

/-- The path at which a patched image is written. -/
def patchedPath (output image : String) : String := if output == "" then image else output

/-- A routine of an image runs in the memory that is set up with it. -/
theorem answer_run [BaseOrder] [ImageTable]
    (himage : rehearse (readImage manifest image) r = (.ok img, r₁)) (name : String)
    (numbers : List String) :
    answer (rehearse (run manifest image name numbers) r) =
      reported r₁.said (do
        let cells ← numbers.mapM numberArgument
        manifest.call (← manifest.loadMemory img) name cells) := by
  show answer (rehearse (readImage manifest image >>= _) r) = _
  rw [rehearse_bind_of_ok himage]
  cases numbers.mapM numberArgument with
  | error f => rfl
  | ok cells =>
    cases manifest.loadMemory img with
    | error f => rfl
    | ok m => exact answer_report (manifest.call m name cells) r₁

/-- A routine of an image runs with patches in the memory that is set up with it and patched. -/
theorem answer_run_patched [BaseOrder] [ImageTable]
    (himage : rehearse (readImage manifest image) r = (.ok img, r₁))
    (htext : r₁.read patchFile = .ok text)
    (hparse : parsePatches (RawText.ofBytes text) = .ok patches) (name : String)
    (numbers : List String) :
    answer (rehearse (runPatched manifest patchFile image name numbers) r) =
      reported r₁.said (do
        let cells ← numbers.mapM numberArgument
        let m ← manifest.loadMemory img
        manifest.call (← patchedMemory patchFile patches m) name cells) := by
  have hpath : (patchFile == "") = false := by
    rw [beq_eq_false_iff_ne]
    rintro rfl
    cases htext
  show answer (rehearse (readImage manifest image >>= _) r) = _
  rw [rehearse_bind_of_ok himage]
  cases numbers.mapM numberArgument with
  | error f => rfl
  | ok cells =>
    cases manifest.loadMemory img with
    | error f => rfl
    | ok m =>
      obtain ⟨warned, hpatched⟩ := rehearse_patchMemory m htext hparse
      show answer (rehearse (if patchFile == "" then _ else patchMemory m patchFile >>= _) r₁) = _
      rw [hpath]
      show answer (rehearse (patchMemory m patchFile >>= _) r₁) = reported r₁.said
        (patchedMemory patchFile patches m >>= fun m => manifest.call m name cells)
      cases hmemory : patchedMemory patchFile patches m with
      | error f =>
        rw [hmemory] at hpatched
        exact congrArg answer (rehearse_bind_of_error hpatched)
      | ok m₁ =>
        rw [hmemory] at hpatched
        refine (congrArg answer (rehearse_bind_of_ok hpatched)).trans ?_
        exact answer_report (manifest.call m₁ name cells) { r₁ with warned }

/-- An image is patched, and written unless it cannot be patched. -/
theorem rehearse_patch [BaseOrder] [ImageTable] {m : Memory} {output : String}
    (himage : rehearse (readImage manifest image) r = (.ok img, r₁))
    (houtput : output = "" → catalogName? image = none) (hload : manifest.loadMemory img = .ok m)
    (htext : r₁.read patchFile = .ok text)
    (hparse : parsePatches (RawText.ofBytes text) = .ok patches) : ∃ warned,
    rehearse (patch manifest output image patchFile) r =
      match patchedMemory patchFile patches m >>= img.withCellsOf with
      | .ok img' => rehearse (writeImage (patchedPath output image) img') { r₁ with warned }
      | .error f => (.error (.failed f), { r₁ with warned }) := by
  have hnamed : (output == "" && (catalogName? image).isSome) = false := by
    rw [Bool.and_eq_false_imp, beq_iff_eq]
    exact fun h => Option.isSome_eq_false_iff.mpr (Option.isNone_iff_eq_none.mpr (houtput h))
  obtain ⟨warned, hpatched⟩ := rehearse_patchMemory m htext hparse
  refine ⟨warned, ?_⟩
  show rehearse (if output == "" && (catalogName? image).isSome then _ else
    readImage manifest image >>= _) r = _
  rw [hnamed]
  show rehearse (readImage manifest image >>= _) r = _
  rw [rehearse_bind_of_ok himage, hload]
  show rehearse (patchMemory m patchFile >>= _) r₁ = _
  cases hmemory : patchedMemory patchFile patches m with
  | error f =>
    rw [hmemory] at hpatched
    exact rehearse_bind_of_error hpatched
  | ok m₁ =>
    rw [hmemory] at hpatched
    rw [rehearse_bind_of_ok hpatched]
    show _ = match img.withCellsOf m₁ with | .ok img' => _ | .error f => _
    cases img.withCellsOf m₁ with
    | error f => rfl
    | ok img' => rfl

/-- An image is written as its bytes. -/
theorem rehearse_writeImage (path : String) (img : Image) (r : Rehearsal) :
    rehearse (writeImage path img) r =
      rehearse (ofExcept (Rehearsal.write path img.toBytes r).1)
        (Rehearsal.write path img.toBytes r).2 :=
  rehearse_bind_of_ok rfl

/-- A file is written with the bytes of an image, and nothing is said. -/
theorem written_of_writeImage {path : String} {r' : Rehearsal}
    (h : rehearse (writeImage path img) r = (.ok (), r')) :
    r'.read path = .ok img.toBytes ∧ r'.said = r.said := by
  rw [rehearse_writeImage] at h
  cases hwrite : Rehearsal.write path img.toBytes r with
  | mk x r₂ =>
    rw [hwrite] at h
    cases x with
    | error f => cases h
    | ok _ =>
      obtain rfl : r₂ = r' := (Prod.mk.inj h).2
      exact ⟨Rehearsal.read_of_write hwrite, Rehearsal.said_of_write hwrite⟩

end run

/-! ### Patched images that run -/

variable {manifest : Manifest} {r r₁ : Rehearsal} {image output patchFile : String}
  {bytes text : List UInt8} {img : Image} {m : Memory} {patches : List Patch}

/-- **Running the image that was written answers and says what running the first image with the
patches does.** An image is read, from a file or from the catalog, and a memory can be set up with
it. Patches that cannot be applied stop both commands, with the same failure. If they can be
applied, the patched image is written; it differs from the first one in cells of patched routines
only, it can be read and set up again, and there every call gives the same result or the same
failure as in the patched memory, in which the first image runs with the patches. -/
theorem run_of_patch [BaseOrder] [ImageTable] (hbytes : bytes.length < UInt64.size)
    (hread : Image.ofBytes bytes = .ok img) (hinside : ∀ e ∈ img.routines, img.Contains e)
    (hload : manifest.loadMemory img = .ok m)
    (himage : rehearse (readImage manifest image) r = (.ok img, r₁))
    (houtput : output = "" → catalogName? image = none)
    (htext : r₁.read patchFile = .ok text)
    (hparse : parsePatches (RawText.ofBytes text) = .ok patches)
    (hpatches : ∀ p ∈ patches, ∃ e ∈ img.routines, p.target = .region e.name) :
    (∀ f s, Patched.applyAll patches { memory := m } = .error f s →
      (rehearse (patch manifest output image patchFile) r).1 =
          .error (.failed (.inFile patchFile f)) ∧
        ∀ name numbers cells, numbers.mapM numberArgument = .ok cells →
          (rehearse (runPatched manifest patchFile image name numbers) r).1 =
            .error (.failed (.inFile patchFile f))) ∧
    ∀ s, Patched.applyAll patches { memory := m } = .ok () s →
      ∃ img', img.SameBut patches img' ∧ Image.ofBytes img'.toBytes = .ok img' ∧
        (∃ warned, rehearse (patch manifest output image patchFile) r =
          rehearse (writeImage (patchedPath output image) img') { r₁ with warned }) ∧
        (∃ m', manifest.loadMemory img' = .ok m' ∧
          ∀ name args, manifest.call m' name args = manifest.call s.memory name args) ∧
        (∀ name numbers cells, numbers.mapM numberArgument = .ok cells →
          answer (rehearse (runPatched manifest patchFile image name numbers) r) =
            reported r₁.said (manifest.call s.memory name cells)) ∧
        ∀ r', rehearse (patch manifest output image patchFile) r = (.ok (), r') →
          catalogName? (patchedPath output image) = none → ∀ name numbers,
            answer (rehearse (run manifest (patchedPath output image) name numbers) r') =
              answer (rehearse (runPatched manifest patchFile image name numbers) r) := by
  obtain ⟨warned, hpatch⟩ := rehearse_patch himage houtput hload htext hparse
  have hrun (name : String) (numbers : List String) :
      answer (rehearse (runPatched manifest patchFile image name numbers) r) =
        reported r₁.said (do
          let cells ← numbers.mapM numberArgument
          manifest.call (← patchedMemory patchFile patches m) name cells) := by
    rw [answer_run_patched himage htext hparse, hload]
    rfl
  constructor
  · intro f s happly
    have hfails : patchedMemory patchFile patches m = .error (.inFile patchFile f) := by
      unfold patchedMemory
      rw [happly]
    rw [hpatch, hfails]
    refine ⟨rfl, fun name numbers cells hcells => ?_⟩
    have hanswer := hrun name numbers
    rw [hcells, hfails] at hanswer
    exact (Prod.mk.inj hanswer).1
  · intro s happly
    have hpatched : patchedMemory patchFile patches m = .ok s.memory := by
      unfold patchedMemory
      rw [happly]
    obtain ⟨img', hwith, hsame, hback, m', hreload, hcall⟩ :=
      Manifest.exists_patched_image hbytes hread hinside hload hpatches happly
    have hwrite : rehearse (patch manifest output image patchFile) r =
        rehearse (writeImage (patchedPath output image) img') { r₁ with warned } := by
      rw [hpatch, hpatched]
      show (match img.withCellsOf s.memory with | .ok img' => _ | .error f => _) = _
      rw [hwith]
    refine ⟨img', hsame, hback, ⟨warned, hwrite⟩, ⟨m', hreload, hcall⟩, ?_, ?_⟩
    · intro name numbers cells hcells
      rw [hrun, hcells, hpatched]
      rfl
    · intro r' hdone hplain name numbers
      obtain ⟨hfile, hsaid⟩ := written_of_writeImage (hwrite.symm.trans hdone)
      rw [answer_run (rehearse_readImage hfile hplain hback), hsaid, hreload, hrun, hpatched]
      cases numbers.mapM numberArgument with
      | error f => rfl
      | ok cells => exact congrArg (reported r₁.said) (hcall name cells)

/-- The bytes of an image with one routine, which adds two to a global of forty. -/
def answerBytes : List UInt8 :=
  [165, 1, 1, 2, 0, 3, 137, 24, 40, 16, 24, 48, 0, 24, 89, 24, 89, 17, 0, 0, 4, 129, 162, 1, 100,
    98, 97, 115, 101, 2, 0, 5, 129, 163, 1, 102, 97, 110, 115, 119, 101, 114, 2, 1, 3, 8]

/-- The image of these bytes. -/
def answerImage : Image where
  version := 1
  base := 0
  cells? := some #[40, 16, 48, 0, 89, 89, 17, 0, 0]
  globals := [⟨"base", 0⟩]
  routines := [⟨"answer", 1, 8⟩]

/-- The bytes of a patch of the routine, after which it gives seven. -/
def sevenBytes : List UInt8 :=
  [46, 112, 97, 116, 99, 104, 32, 97, 110, 115, 119, 101, 114, 10, 80, 82, 79, 67, 10, 67, 79, 78,
    83, 84, 46, 80, 32, 55, 10, 82, 69, 84, 10, 46, 101, 110, 100, 112, 97, 116, 99, 104, 10]

/-- The patch of these bytes. -/
def sevenPatch : Patch where
  pos := ⟨1, 1⟩
  target := .region "answer"
  body := [
    { pos := ⟨2, 1⟩, op? := some "PROC" },
    { pos := ⟨3, 1⟩, op? := some "CONST.P", args := [{ pos := ⟨3, 9⟩, text := [.char '7'] }] },
    { pos := ⟨4, 1⟩, op? := some "RET" }]

/-- A project with a small machine and a region behind the image. -/
def smallManifest : Manifest := { memory := 64, stack := 32, regions := [⟨"spare", 4⟩] }

/-- A system with the image in one file and the patch in another one. -/
def answerSystem : Rehearsal where
  tree := ⟨[(["a"], .file answerBytes), (["p"], .file sevenBytes)]⟩

/-- The image is patched, and its routine gives seven. -/
theorem run_of_patch_sample :
    Image.ofBytes answerBytes = .ok answerImage ∧
      ∃ r', rehearse (patch smallManifest "b" "a" "p") answerSystem = (.ok (), r') ∧
        answer (rehearse (run smallManifest "b" "answer" []) r') = (.ok (), "7\n") := by
  have hread : Image.ofBytes answerBytes = .ok answerImage :=
    Action.ok_of_toOption (by decide +kernel)
  have hparse : parsePatches (RawText.ofBytes sevenBytes) = .ok [sevenPatch] :=
    Action.ok_of_toOption (by decide +kernel)
  have hinside : ∀ e ∈ answerImage.routines, answerImage.Contains e := by
    intro e he
    rw [List.mem_singleton.mp he]
    exact ⟨by decide, by decide, by decide⟩
  -- the file names have one step each
  have hstep : "a".splitOn "/" = ["a"] ∧ "p".splitOn "/" = ["p"] ∧ "b".splitOn "/" = ["b"] := by
    refine ⟨?_, ?_, ?_⟩ <;> rw [String.splitOn, if_neg (by decide), String.splitOnAux,
      if_neg (by decide), if_neg (by decide), String.splitOnAux, if_pos (by decide)] <;> rfl
  have hfile : answerSystem.read "a" = .ok answerBytes := by
    unfold Rehearsal.read FileTree.place
    rw [hstep.1]
    rfl
  have htext : answerSystem.read "p" = .ok sevenBytes := by
    unfold Rehearsal.read FileTree.place
    rw [hstep.2.1]
    rfl
  have himage : rehearse (readImage smallManifest "a") answerSystem =
      (.ok answerImage, answerSystem) := rehearse_readImage hfile (by decide +kernel) hread
  -- seven is the result of the call in the patched memory
  have hseven : ((smallManifest.loadMemory answerImage).toOption.bind fun m =>
      ((Patched.applyAll [sevenPatch]).result? { memory := m }).bind fun s =>
        (smallManifest.call s.2.memory "answer" []).toOption) = some 7 := by decide +kernel
  obtain ⟨m, hload, s, happly, hcall⟩ : ∃ m, smallManifest.loadMemory answerImage = .ok m ∧
      ∃ s, Patched.applyAll [sevenPatch] { memory := m } = .ok () s ∧
        smallManifest.call s.memory "answer" [] = .ok 7 := by
    obtain ⟨m, hload, hseven⟩ := Option.bind_eq_some_iff.mp hseven
    obtain ⟨⟨_, s⟩, happly, hseven⟩ := Option.bind_eq_some_iff.mp hseven
    exact ⟨m, Action.ok_of_toOption hload, s, Action.of_result? happly,
      Action.ok_of_toOption hseven⟩
  have houtput : "b" = "" → catalogName? "a" = none := by decide
  obtain ⟨img', -, -, ⟨warned, hpatch⟩, -, hpatched, hrun⟩ :=
    (run_of_patch (by decide) hread hinside hload himage houtput htext hparse
      (by decide +kernel)).2 s happly
  have hwrite : rehearse (writeImage "b" img') { answerSystem with warned } = (.ok (),
      { answerSystem with warned, tree := answerSystem.tree.put ["b"] (.file img'.toBytes) }) := by
    rw [rehearse_writeImage]
    unfold Rehearsal.write FileTree.filePlace stepsBeforeSlash? FileTree.place
    rw [hstep.2.2]
    rfl
  have hdone := hpatch.trans hwrite
  have hsame := hrun _ hdone (by decide +kernel) "answer" []
  rw [hpatched "answer" [] [] rfl, hcall] at hsame
  exact ⟨hread, _, hdone, hsame⟩

end CellMachine.Command
