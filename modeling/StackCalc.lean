import StackCalc.Main
import StackCalc.Proofs.Citation
import StackCalc.Proofs.Climbing
import StackCalc.Proofs.Coverage
import StackCalc.Proofs.Decoration
import StackCalc.Proofs.EventLog
import StackCalc.Proofs.FirstError
import StackCalc.Proofs.Forecast
import StackCalc.Proofs.History
import StackCalc.Proofs.Interleaving
import StackCalc.Proofs.LexicalErrors
import StackCalc.Proofs.LineNumbers
import StackCalc.Proofs.Lossless
import StackCalc.Proofs.Nesting
import StackCalc.Proofs.Overflow
import StackCalc.Proofs.ReadBack
import StackCalc.Proofs.Relocation
import StackCalc.Proofs.Spacing
import StackCalc.Proofs.Transcript
