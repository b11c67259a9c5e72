import TernaryMachine.Main
import TernaryMachine.Proofs.Digits
import TernaryMachine.Proofs.Word
import TernaryMachine.Proofs.Storage
import TernaryMachine.Proofs.Field
import TernaryMachine.Proofs.Result
import TernaryMachine.Proofs.Codec
import TernaryMachine.Proofs.Text
import TernaryMachine.Proofs.Table
import TernaryMachine.Proofs.Layout
import TernaryMachine.Proofs.Program
import TernaryMachine.Proofs.Execution
import TernaryMachine.Proofs.Tracing
import TernaryMachine.Proofs.Control
import TernaryMachine.Proofs.IntegerMachine
import TernaryMachine.Proofs.Refinement
import TernaryMachine.Proofs.Labels
import TernaryMachine.Proofs.Relocation
import TernaryMachine.Proofs.Image
import TernaryMachine.Proofs.Disk
import TernaryMachine.Proofs.Commands
import TernaryMachine.Proofs.Reading
import TernaryMachine.Proofs.Disassembly
import TernaryMachine.Proofs.Limbs
import TernaryMachine.Proofs.Faults
import TernaryMachine.Proofs.History
import TernaryMachine.Proofs.Footprint
import TernaryMachine.Proofs.CodecDomain
import TernaryMachine.Proofs.Listing
import TernaryMachine.Proofs.Product
import TernaryMachine.Proofs.TotalMap
import TernaryMachine.Proofs.Normal
import TernaryMachine.Proofs.Grammar
import TernaryMachine.Proofs.Declarations
import TernaryMachine.Proofs.Errors
import TernaryMachine.Proofs.Edits
import TernaryMachine.Proofs.ImageForms
import TernaryMachine.Proofs.Sweep
import TernaryMachine.Proofs.Connectives
import TernaryMachine.Proofs.Toggles
import TernaryMachine.Proofs.NumeralForms
import TernaryMachine.Proofs.Wrapping
import TernaryMachine.Proofs.Shifts
import TernaryMachine.Proofs.Rotations
import TernaryMachine.Proofs.Quotients
import TernaryMachine.Proofs.Parts
import TernaryMachine.Proofs.Order
