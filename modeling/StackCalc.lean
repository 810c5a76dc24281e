import StackCalc.Decimal.RoundTrip
import StackCalc.Engine.Step
import StackCalc.Machine.History
import StackCalc.Main
import StackCalc.Program.Row
import StackCalc.Proofs.Source.Statement
import StackCalc.Proofs.Text.Lines
import StackCalc.Proofs.Program.Outline
import StackCalc.Proofs.Program.Row
import StackCalc.Proofs.Source.Assembly
import StackCalc.Proofs.Source.RoundTrip
import StackCalc.Proofs.Machine.Coupling
import StackCalc.Proofs.Machine.Image
import StackCalc.Proofs.Machine.Listing
import StackCalc.Proofs.Machine.ControlFlow
import StackCalc.Proofs.Machine.Move
import StackCalc.Proofs.Machine.CallChain
import StackCalc.Proofs.Machine.Bracket
import StackCalc.Proofs.Machine.Leaving
import StackCalc.Proofs.Machine.Activation
import StackCalc.Proofs.Machine.Lifecycle
import StackCalc.Proofs.Engine.Action
import StackCalc.Proofs.Engine.Failure
import StackCalc.Proofs.Engine.Refinement
import StackCalc.Proofs.Engine.Lifecycle
import StackCalc.Proofs.Machine.NormalForm
import StackCalc.Proofs.Console.Strategy
import StackCalc.Proofs.Console.Course
import StackCalc.Proofs.Console.Account
import StackCalc.Proofs.Console.Budget
import StackCalc.Proofs.Machine.Dialogue
import StackCalc.Proofs.Text.Words
import StackCalc.Proofs.Console.Agreement
import StackCalc.Proofs.Source.Lexical
import StackCalc.Proofs.Source.Grammar
import StackCalc.Proofs.Source.Rendering
import StackCalc.Proofs.Source.FirstError
import StackCalc.Proofs.Source.Composition
import StackCalc.Proofs.Source.Numbering
import StackCalc.Proofs.Machine.Bodies
import StackCalc.Proofs.Machine.Labels
import StackCalc.Proofs.Machine.RowOrder
import StackCalc.Proofs.Source.Layout
import StackCalc.Proofs.Machine.Rules
import StackCalc.Proofs.Machine.Locality
import StackCalc.Proofs.Machine.Wrapping
import StackCalc.Proofs.Console.Wrapping
import StackCalc.Proofs.Console.Conversation
import StackCalc.Proofs.Source.Spelling
