import LineCalc.Binary64.Bits
import LineCalc.CommandLine
import LineCalc.Dialogue
import LineCalc.Main
import LineCalc.Proofs.Calculator.DefaultBase
import LineCalc.Proofs.Calculator.Echo
import LineCalc.Proofs.Calculator.IntegerScript
import LineCalc.Proofs.Calculator.Layout
import LineCalc.Proofs.Calculator.LeadingConfig
import LineCalc.Proofs.Calculator.Printed
import LineCalc.Proofs.Calculator.Requests
import LineCalc.Proofs.Dialogue.Listing
import LineCalc.Proofs.Dialogue.Script
import LineCalc.Proofs.Line.Columns
import LineCalc.Proofs.Line.Effects
import LineCalc.Proofs.Line.Outcome
import LineCalc.Proofs.Line.Writing
import LineCalc.Proofs.Numeral.Decimal
import LineCalc.Proofs.Program.Idle
import LineCalc.Proofs.Program.Sequence
import LineCalc.Proofs.Report.Text
import LineCalc.Proofs.Token.Canonical
import LineCalc.Proofs.Program.Faults
import LineCalc.Proofs.Decimal.Meaning
import LineCalc.Proofs.Line.Trailing
import LineCalc.Proofs.Expr.Conservation
import LineCalc.Proofs.Numeral.Loops
