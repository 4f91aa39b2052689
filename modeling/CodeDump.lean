import CodeDump.Codec.Ir
import CodeDump.Codec.Text
import CodeDump.Codec.Tree
import CodeDump.Command.Args
import CodeDump.Command.Run
import CodeDump.Fault
import CodeDump.Ir.Basic
import CodeDump.Json.Reader
import CodeDump.Json.Record
import CodeDump.Json.Value
import CodeDump.Json.Writer
import CodeDump.Main
import CodeDump.Number.Decimal
import CodeDump.Number.Double
import CodeDump.Number.Numeral
import CodeDump.Number.Radix
import CodeDump.Number.Reading
import CodeDump.Print.Dump
import CodeDump.Print.Listing
import CodeDump.Print.Parts
import CodeDump.Print.Tree
import CodeDump.Proofs.AppendOnly
import CodeDump.Proofs.Brackets
import CodeDump.Proofs.Columns
import CodeDump.Proofs.Composition
import CodeDump.Proofs.Decimals
import CodeDump.Proofs.Delivery
import CodeDump.Proofs.FloatLiterals
import CodeDump.Proofs.Format
import CodeDump.Proofs.GeneralText
import CodeDump.Proofs.Handles
import CodeDump.Proofs.Height
import CodeDump.Proofs.Identity
import CodeDump.Proofs.IntegerLiterals
import CodeDump.Proofs.JsonGrammar
import CodeDump.Proofs.JsonParts
import CodeDump.Proofs.JsonText
import CodeDump.Proofs.ListingItems
import CodeDump.Proofs.ListingLines
import CodeDump.Proofs.LoopSteps
import CodeDump.Proofs.Nearest
import CodeDump.Proofs.Nesting
import CodeDump.Proofs.NumeralValues
import CodeDump.Proofs.Numerals
import CodeDump.Proofs.Outline
import CodeDump.Proofs.ParameterRuns
import CodeDump.Proofs.Paths
import CodeDump.Proofs.Patterns
import CodeDump.Proofs.Positions
import CodeDump.Proofs.Predecessors
import CodeDump.Proofs.Presentation
import CodeDump.Proofs.ReadBack
import CodeDump.Proofs.ReadLines
import CodeDump.Proofs.Recoding
import CodeDump.Proofs.Reencoding
import CodeDump.Proofs.RefusedWindow
import CodeDump.Proofs.Rendering
import CodeDump.Proofs.Retry
import CodeDump.Proofs.Rounding
import CodeDump.Proofs.SettingsFree
import CodeDump.Proofs.SharingFree
import CodeDump.Proofs.Shortest
import CodeDump.Proofs.ShownNames
import CodeDump.Proofs.StringLiterals
import CodeDump.Proofs.TreeCodec
import CodeDump.Proofs.Truncation
import CodeDump.Proofs.TypeTexts
import CodeDump.Proofs.Visits
import CodeDump.Proofs.WholeWrites
import CodeDump.Proofs.Window
import CodeDump.Proofs.Words
import CodeDump.Settings
import CodeDump.Source.Input
import CodeDump.Source.Location
import CodeDump.Source.Store
import CodeDump.Text.Buffer
import CodeDump.Text.Piece
import CodeDump.Text.Quoted
import CodeDump.Text.Window
import CodeDump.Tree.Equal
import CodeDump.Tree.Node
import CodeDump.Tree.Op
