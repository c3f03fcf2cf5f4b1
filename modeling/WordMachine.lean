import WordMachine.Main
import WordMachine.Proofs.Encoding.Layout
import WordMachine.Proofs.Instruction.Code
import WordMachine.Proofs.Instruction.Accepted
import WordMachine.Proofs.Encoding.Immediate
import WordMachine.Proofs.Machine.Effect
import WordMachine.Proofs.Memory
import WordMachine.Proofs.Machine.Step
import WordMachine.Proofs.Machine.Outcome
import WordMachine.Proofs.Machine.Run
import WordMachine.Proofs.Assembly.Operand
import WordMachine.Proofs.Assembly.Line
import WordMachine.Proofs.Assembly.Append
import WordMachine.Proofs.Text.Lines
import WordMachine.Proofs.Assembly.Listing
import WordMachine.Proofs.Assembly.Untyped
import WordMachine.Proofs.Machine.Change
import WordMachine.Proofs.Machine.Simulation
import WordMachine.Proofs.Machine.Policy
import WordMachine.Proofs.Machine.Report
import WordMachine.Proofs.Machine.Enlargement
import WordMachine.Proofs.Machine.StoreFree
import WordMachine.Proofs.Machine.AdditionLoop
import WordMachine.Proofs.Machine.LostControl
import WordMachine.Proofs.Machine.Reachable
import WordMachine.Proofs.Assembly.TextLayout
import WordMachine.Proofs.Encoding.Kind
import WordMachine.Proofs.Assembly.Backtracking
import WordMachine.Proofs.Assembly.LineGrammar
import WordMachine.Proofs.Assembly.OperandVerdict
import WordMachine.Proofs.Assembly.Verdict
import WordMachine.Proofs.Encoding.FieldKind
import WordMachine.Proofs.Machine.Constant
import WordMachine.Proofs.Display.Row
import WordMachine.Proofs.Display.State
