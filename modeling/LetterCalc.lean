import LetterCalc.Cursor.Command
import LetterCalc.CommandLine
import LetterCalc.Token.Lemmas
import LetterCalc.Proofs.Language
import LetterCalc.Proofs.Reading
import LetterCalc.Proofs.Precedence
import LetterCalc.Proofs.RoundTrip
import LetterCalc.Proofs.Evaluation
import LetterCalc.Proofs.Definedness
import LetterCalc.Proofs.Wraparound
import LetterCalc.Proofs.Layout
import LetterCalc.Proofs.Renaming
import LetterCalc.Proofs.Frame
import LetterCalc.Proofs.Recording
import LetterCalc.Proofs.Transcript
import LetterCalc.Proofs.Modes
import LetterCalc.Proofs.Splitting
import LetterCalc.Proofs.StackMachine
import LetterCalc.Proofs.Conservation
import LetterCalc.Proofs.Lookahead
import LetterCalc.Proofs.LongestMatch
import LetterCalc.Proofs.Forgetting
import LetterCalc.Proofs.Paraphrase
import LetterCalc.Proofs.Consumption
import LetterCalc.Proofs.Shortcut
import LetterCalc.Proofs.Diagnosis
import LetterCalc.Proofs.Balance
import LetterCalc.Proofs.Listing
import LetterCalc.Proofs.Classification
