import Pseudocode.Main
import Pseudocode.Proofs.LabelInsertion
import Pseudocode.Proofs.NumeralText
import Pseudocode.Proofs.TextLines
import Pseudocode.Proofs.Navigation
import Pseudocode.Proofs.Rounding
import Pseudocode.Proofs.ShortestDecimal
import Pseudocode.Proofs.JsonText
import Pseudocode.Proofs.Encoding
import Pseudocode.Proofs.RoundTrip
import Pseudocode.Proofs.Reading
import Pseudocode.Proofs.Decoding
import Pseudocode.Proofs.Reordering
import Pseudocode.Proofs.Respelling
import Pseudocode.Proofs.BalancedText
import Pseudocode.Proofs.ClassNavigation
import Pseudocode.Proofs.Qualification
import Pseudocode.Proofs.EmittedLabels
import Pseudocode.Proofs.StoredNodes
import Pseudocode.Proofs.SingleFunction
import Pseudocode.Proofs.FiniteNumbers
import Pseudocode.Proofs.DecodedNumbers
import Pseudocode.Proofs.StoredAgain
import Pseudocode.Proofs.CutNumbers
import Pseudocode.Proofs.CutText
import Pseudocode.Proofs.Faultless
import Pseudocode.Proofs.CutDecoding
import Pseudocode.Proofs.CutDump
import Pseudocode.Proofs.Locality
import Pseudocode.Proofs.JumpTargets
import Pseudocode.Proofs.SeparateScripts
import Pseudocode.Proofs.DoubleConstants
import Pseudocode.Proofs.StatementForms
import Pseudocode.Proofs.Unterminated
import Pseudocode.Proofs.SwitchBranches
import Pseudocode.Proofs.Metadata
import Pseudocode.Proofs.EngineNames
import Pseudocode.Proofs.Ownership
import Pseudocode.Proofs.Literals
import Pseudocode.Proofs.RepeatedMembers
