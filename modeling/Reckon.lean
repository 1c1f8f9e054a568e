import Reckon.Main
import Reckon.Node.Outline
import Reckon.Proofs.Grammar.Tidy
import Reckon.Proofs.Grammar.Phrase
import Reckon.Proofs.Grammar.Rounds
import Reckon.Proofs.Grammar.Soundness
import Reckon.Proofs.Grammar.Completeness
import Reckon.Proofs.Grammar.Derivation
import Reckon.Proofs.Continuation
import Reckon.Proofs.Evaluation.Adequacy
import Reckon.Proofs.Evaluation.Frame
import Reckon.Proofs.Evaluation.Renaming
import Reckon.Proofs.Grammar.Longer
import Reckon.Proofs.Joining
import Reckon.Proofs.Grammar.Shape
import Reckon.Proofs.Names
import Reckon.Proofs.Conversation
import Reckon.Proofs.Evaluation.LastResult
import Reckon.Proofs.Session
import Reckon.Proofs.Script
import Reckon.Proofs.Alike
import Reckon.Proofs.Grammar.Extent
import Reckon.Proofs.Grammar.Limit
import Reckon.Proofs.Grammar.Anchors
import Reckon.Proofs.Diagnostics
import Reckon.Proofs.Ways
import Reckon.Proofs.Grammar.Unlimited
import Reckon.Proofs.Grammar.Shift
import Reckon.Proofs.Grammar.Nesting
import Reckon.Proofs.Grammar.Expected
import Reckon.Proofs.Grammar.Truthful
import Reckon.Proofs.Expectations
import Reckon.Proofs.Cursor.Safety
import Reckon.Proofs.Evaluation.Agreement
import Reckon.Proofs.Token.Legal
import Reckon.Proofs.Phases
import Reckon.Proofs.Lines
import Reckon.Proofs.Underlines
import Reckon.Proofs.Cursor.Checks
import Reckon.Proofs.Evaluation.Operands
import Reckon.Proofs.Grammar.Contents
import Reckon.Proofs.Token.Conversion
import Reckon.Proofs.Token.Numbers
import Reckon.Proofs.Token.Spacing
import Reckon.Proofs.Hiding
import Reckon.Proofs.Evaluation.Counting
import Reckon.Proofs.Interruption
import Reckon.Proofs.Advance
import Reckon.Proofs.Outline
import Reckon.Proofs.Number.Words
import Reckon.Proofs.Token.Printed
