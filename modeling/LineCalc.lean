import LineCalc.Word
import LineCalc.Text.Printable
import LineCalc.Text.DecimalDigit
import LineCalc.Text.Blank
import LineCalc.Text.Quoted
import LineCalc.Text.Escaped
import LineCalc.Token
import LineCalc.Error
import LineCalc.ChartNode
import LineCalc.Platform
import LineCalc.Numeral
import LineCalc.Cursor
import LineCalc.Feed
import LineCalc.Expr
import LineCalc.Parser
import LineCalc.Expr.Eval
import LineCalc.Expr.Chart
import LineCalc.Page.Path
import LineCalc.Page
import LineCalc.IR.Module
import LineCalc.IR.Header
import LineCalc.IR.Names
import LineCalc.IR.Builder
import LineCalc.IR.Machine
import LineCalc.Expr.Compile
import LineCalc.Line
import LineCalc.CommandLine.Options
import LineCalc.CommandLine.Session
import LineCalc.Main
import LineCalc.Proofs.Monad
import LineCalc.Proofs.Walk
import LineCalc.Proofs.Word
import LineCalc.Proofs.IR.Straight
import LineCalc.Proofs.IR.Emission
import LineCalc.Proofs.IR.ControlFlow
import LineCalc.Proofs.IR.WellFormed
import LineCalc.Proofs.IR.Correspondence
import LineCalc.Proofs.IR.Numbers
import LineCalc.Proofs.IR.Simulation
import LineCalc.Proofs.Backends
import LineCalc.Proofs.Grammar
import LineCalc.Proofs.Parser.Eating
import LineCalc.Proofs.Parser.Symbols
import LineCalc.Proofs.Parser.Completeness
import LineCalc.Proofs.Parser.Soundness
import LineCalc.Proofs.Parsing
import LineCalc.Proofs.Parser.Levels
import LineCalc.Proofs.Lexing
import LineCalc.Proofs.Place
import LineCalc.Proofs.Pieces
import LineCalc.Proofs.Outline
import LineCalc.Proofs.Reading
import LineCalc.Proofs.InOrder
import LineCalc.Proofs.Printing
import LineCalc.Proofs.Depth
import LineCalc.Proofs.Nesting
import LineCalc.Proofs.Running
import LineCalc.Proofs.Output
import LineCalc.Proofs.Culprits
import LineCalc.Proofs.Composition
import LineCalc.Proofs.Reports
import LineCalc.Proofs.Command
import LineCalc.Proofs.Towers
import LineCalc.Proofs.Truncation
import LineCalc.Proofs.MachineArithmetic
import LineCalc.Proofs.ExactValue
import LineCalc.Proofs.Listing
import LineCalc.Proofs.Diagnostics
import LineCalc.Proofs.Session
import LineCalc.Proofs.Cursor.Calls
import LineCalc.Proofs.Cursor.Progress
import LineCalc.Proofs.Charts
import LineCalc.Proofs.Parser.Relocation
import LineCalc.Proofs.Cursor.Gaps
import LineCalc.Proofs.Spacing
