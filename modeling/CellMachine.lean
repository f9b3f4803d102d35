import CellMachine.Workspace
import CellMachine.Instruction.Listing
import CellMachine.Wire.Digest
import CellMachine.Toml.Document
import CellMachine.Manifest
import CellMachine.Catalog.Address
import CellMachine.Catalog.Basic
import CellMachine.Catalog.Moment
import CellMachine.Catalog.Table
import CellMachine.Command.Line
import CellMachine.Host.FileTree
import CellMachine.Main
import CellMachine.Proofs.Emission.Region
import CellMachine.Proofs.Emission.Label
import CellMachine.Proofs.Emission.TwoPass
import CellMachine.Proofs.Emission.Write
import CellMachine.Proofs.Emission.Invariant
import CellMachine.Proofs.Emission.Backpatching
import CellMachine.Proofs.Emission.Decoding
import CellMachine.Proofs.Emission.Target
import CellMachine.Proofs.Program.Blocks
import CellMachine.Proofs.Program.LabelAgreement
import CellMachine.Proofs.Machine.Upkeep
import CellMachine.Proofs.Memory.Ordered
import CellMachine.Proofs.Memory.Reachable
import CellMachine.Proofs.Memory.Loading
import CellMachine.Proofs.Program.Bounds
import CellMachine.Proofs.Memory.Outline
import CellMachine.Proofs.Memory.Table
import CellMachine.Proofs.Memory.Within
import CellMachine.Proofs.Wire.Lengths
import CellMachine.Proofs.Memory.Safety
import CellMachine.Proofs.Memory.Exclusive
import CellMachine.Proofs.Memory.Torn
import CellMachine.Proofs.Machine.Entry
import CellMachine.Proofs.Machine.Trespass
import CellMachine.Proofs.Patch.Outcome
import CellMachine.Proofs.Program.Linked
import CellMachine.Proofs.Cbor.Written
import CellMachine.Proofs.Wire.Texts
import CellMachine.Proofs.Wire.RoundTrip
import CellMachine.Proofs.Machine.Frame
import CellMachine.Proofs.Machine.Activation
import CellMachine.Proofs.Machine.Unseen
import CellMachine.Proofs.Machine.Plain
import CellMachine.Proofs.Memory.Reloading
import CellMachine.Proofs.Memory.Installation
import CellMachine.Proofs.Patch.Registry
import CellMachine.Proofs.Host.FileTree
import CellMachine.Proofs.Patch.PatchedImage
import CellMachine.Proofs.Patch.Twins
import CellMachine.Proofs.Patch.Blind
import CellMachine.Proofs.Patch.Effect
import CellMachine.Proofs.Patch.Commute
import CellMachine.Proofs.Command.PatchedRun
import CellMachine.Proofs.Assembly.Selection
import CellMachine.Proofs.Assembly.Steps
import CellMachine.Proofs.Assembly.Bare
import CellMachine.Proofs.Assembly.Conditional
import CellMachine.Proofs.Lockstep
import CellMachine.Proofs.Machine.Bookkeeping
import CellMachine.Proofs.Machine.Decoders
import CellMachine.Proofs.Machine.Access
import CellMachine.Proofs.Machine.Relocation
import CellMachine.Proofs.Machine.Return
import CellMachine.Proofs.Machine.StepLimit
import CellMachine.Proofs.Machine.Reserved
import CellMachine.Proofs.Emission.Ready
import CellMachine.Proofs.Operand.Modes
import CellMachine.Proofs.Operand.Generic
import CellMachine.Proofs.Emission.Modes
import CellMachine.Proofs.Emission.Refusal
import CellMachine.Proofs.Emission.Unresolved
import CellMachine.Proofs.Catalog.File
import CellMachine.Proofs.Catalog.History
import CellMachine.Proofs.Source.Listing
import CellMachine.Proofs.Program.SoundLayout
import CellMachine.Proofs.Program.Conditionals
import CellMachine.Proofs.Source.Cover
import CellMachine.Proofs.Source.LineByLine
import CellMachine.Proofs.Patch.Blocks
import CellMachine.Proofs.Text.Numeral
import CellMachine.Proofs.Text.Name
import CellMachine.Proofs.Operand.Spelling
import CellMachine.Proofs.Text.Hexadecimal
import CellMachine.Proofs.Text.Words
import CellMachine.Proofs.Instruction.Reading
import CellMachine.Proofs.Instruction.Lines
import CellMachine.Proofs.Instruction.Tiling
import CellMachine.Proofs.Instruction.Naming
import CellMachine.Proofs.Source.Names
import CellMachine.Proofs.Workspace.Parts
import CellMachine.Proofs.Workspace.Steps
import CellMachine.Proofs.Workspace.Estates
import CellMachine.Proofs.Workspace.Builds
