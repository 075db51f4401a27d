import Cpu6502.Main
import Cpu6502.Proofs.SweepRun
import Cpu6502.Proofs.Trimming
import Cpu6502.Proofs.NumeralGrammar
import Cpu6502.Proofs.DigitText
import Cpu6502.Proofs.AddressNotations
import Cpu6502.Proofs.TextLines
import Cpu6502.Proofs.LineGrammar
import Cpu6502.Proofs.FieldPlaces
import Cpu6502.Proofs.FieldTiling
import Cpu6502.Proofs.FaultMessage
import Cpu6502.Proofs.LineRefusal
import Cpu6502.Proofs.TableParts
import Cpu6502.Proofs.LineEndings
import Cpu6502.Proofs.LineRoundTrip
import Cpu6502.Proofs.ParsedTable
import Cpu6502.Proofs.LastRecord
import Cpu6502.Proofs.DenseRows
import Cpu6502.Proofs.SweepLossless
import Cpu6502.Proofs.OperandReader
import Cpu6502.Proofs.OperandText
import Cpu6502.Proofs.DeclarationReader
import Cpu6502.Proofs.DeclarationLines
import Cpu6502.Proofs.DeclarationReadBack
import Cpu6502.Proofs.RecordOrder
import Cpu6502.Proofs.DeclarationSymbols
import Cpu6502.Proofs.ListingLine
import Cpu6502.Proofs.ListingReadBack
import Cpu6502.Proofs.Relocation
import Cpu6502.Proofs.SweepParts
import Cpu6502.Proofs.SweepLimits
import Cpu6502.Proofs.EndPositions
import Cpu6502.Proofs.IllFormedBytes
import Cpu6502.Proofs.TableFaults
import Cpu6502.Proofs.EditScripts
import Cpu6502.Proofs.EditTable
import Cpu6502.Proofs.LabelSuggestions
import Cpu6502.Proofs.NearestLabel
import Cpu6502.Proofs.PathLookup
import Cpu6502.Proofs.FileWrite
import Cpu6502.Proofs.TableRejection
import Cpu6502.Proofs.ShownTexts
import Cpu6502.Proofs.CommandLine
import Cpu6502.Proofs.DeclareRun
import Cpu6502.Proofs.ListingRun
import Cpu6502.Proofs.TableEncoding
import Cpu6502.Proofs.IllFormedPlaces
import Cpu6502.Proofs.RepeatedOpcodes
import Cpu6502.Proofs.ReplacedRecords
import Cpu6502.Proofs.GivenMnemonics
import Cpu6502.Proofs.AddedRecord
import Cpu6502.Proofs.ShortRows
