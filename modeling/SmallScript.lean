import SmallScript.Main
import SmallScript.Tree.Outline
import SmallScript.Proofs.Evaluation.Signals
import SmallScript.Proofs.Evaluation.Reliance
import SmallScript.Proofs.Evaluation.Privacy
import SmallScript.Proofs.Evaluation.Shape
import SmallScript.Proofs.Evaluation.Refinement
import SmallScript.Proofs.Evaluation.Standing
import SmallScript.Proofs.Evaluation.Limit
import SmallScript.Proofs.Evaluation.Refill
import SmallScript.Proofs.Evaluation.Memory
import SmallScript.Proofs.Evaluation.Renumbering
import SmallScript.Proofs.Printing.Reevaluation
import SmallScript.Proofs.Reading.Concatenation
import SmallScript.Proofs.Evaluation.Tables
import SmallScript.Proofs.Reading.Underline
import SmallScript.Proofs.Scanning.Quotation
import SmallScript.Proofs.Evaluation.Faults
import SmallScript.Proofs.Printing.Unfolding
import SmallScript.Proofs.Evaluation.Sequence
import SmallScript.Proofs.Evaluation.Slices
import SmallScript.Proofs.Evaluation.Forest
import SmallScript.Proofs.Evaluation.Members
import SmallScript.Proofs.Operators.Integers
import SmallScript.Proofs.Operators.Repetition
import SmallScript.Proofs.Numbers.Texts
import SmallScript.Proofs.Reading.Nesting
