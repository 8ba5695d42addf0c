import WasmBinary.Main
import WasmBinary.Session
import WasmBinary.Proofs.Expression
import WasmBinary.Proofs.Roundtrip
import WasmBinary.Proofs.DataReplacement
import WasmBinary.Proofs.Template
import WasmBinary.Proofs.Truncation
import WasmBinary.Proofs.Insertion
import WasmBinary.Proofs.Output
import WasmBinary.Proofs.Overwriting
import WasmBinary.Proofs.Accounting
import WasmBinary.Proofs.FloatText
import WasmBinary.Proofs.Queries
import WasmBinary.Proofs.Mnemonics
import WasmBinary.Proofs.Legibility
import WasmBinary.Proofs.Numbers
import WasmBinary.Proofs.Mirror
import WasmBinary.Proofs.CodeReading
import WasmBinary.Proofs.NameSection
import WasmBinary.Proofs.ShortestForms
import WasmBinary.Proofs.RunSearch
import WasmBinary.Proofs.InitialMemory
import WasmBinary.Proofs.Lengths
import WasmBinary.Proofs.BoundedSinks
import WasmBinary.Proofs.Failures
import WasmBinary.Proofs.CallSites
import WasmBinary.Proofs.CutShort
import WasmBinary.Proofs.CodePlaces
import WasmBinary.Proofs.Interface
import WasmBinary.Proofs.Elements
import WasmBinary.Proofs.CustomSections
import WasmBinary.Proofs.ReverseNames
import WasmBinary.Proofs.DescriptorReading
import WasmBinary.Proofs.BodyReading
import WasmBinary.Proofs.ReportedNames
import WasmBinary.Proofs.SectionCounts
