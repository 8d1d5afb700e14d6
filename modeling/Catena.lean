import Catena.Text.Class
import Catena.Text.Formless
import Catena.Text.Blank
import Catena.Text.Line
import Catena.Text.Quoted
import Catena.Text.Colour
import Catena.Text.Pad
import Catena.Number.Binary
import Catena.Number.Decimal
import Catena.Number.Notation
import Catena.Number.Reader
import Catena.Value
import Catena.Builtin
import Catena.Fault
import Catena.Operator
import Catena.Token
import Catena.Words
import Catena.Source.Lexeme
import Catena.Source.ParseError
import Catena.Source.Program
import Catena.Render
import Catena.Layout
import Catena.Excerpt
import Catena.Machine
import Catena.Evaluation
import Catena.Plain
import Catena.Direct
import Catena.Session
import Catena.Files
import Catena.Shell.Arguments
import Catena.Shell.Runner
import Catena.Shell.Command
import Catena.Main
import Catena.Proofs.Pairing
import Catena.Proofs.Sequence
import Catena.Proofs.Termination
import Catena.Proofs.Blanks
import Catena.Proofs.Scanning
import Catena.Proofs.Grammar
import Catena.Proofs.Reading
import Catena.Proofs.Lexing
import Catena.Proofs.Joining
import Catena.Proofs.Safety
import Catena.Proofs.Number.Bits
import Catena.Proofs.Number.Rounding
import Catena.Proofs.Number.Shortest
import Catena.Proofs.Number.Digits
import Catena.Proofs.Number.Notation
import Catena.Proofs.Number.Rereading
import Catena.Proofs.Quoting
import Catena.Proofs.Rereading
import Catena.Proofs.RoundTrip
import Catena.Proofs.Places
import Catena.Proofs.Positions
import Catena.Proofs.Pointing
import Catena.Proofs.Deepening
import Catena.Proofs.History
import Catena.Proofs.Origins
import Catena.Proofs.Simulation
import Catena.Proofs.Limits
import Catena.Proofs.Blame
import Catena.Proofs.Vocabulary
import Catena.Proofs.Refinement
import Catena.Proofs.Raising
import Catena.Proofs.Strictness
import Catena.Proofs.Attribution
import Catena.Proofs.Nesting
import Catena.Proofs.Numbering
import Catena.Proofs.Colouring
import Catena.Proofs.Lines
import Catena.Proofs.Excerpts
import Catena.Proofs.Reporting
import Catena.Proofs.Locating
import Catena.Proofs.Arguments
import Catena.Proofs.Agreement
import Catena.Proofs.Matching
import Catena.Proofs.Conditionals
import Catena.Proofs.Repetition
import Catena.Proofs.Erasure
import Catena.Proofs.Effects
import Catena.Proofs.Actions
import Catena.Proofs.Rejoining
import Catena.Proofs.Exchange
import Catena.Proofs.Fields
import Catena.Proofs.Broadcasting
import Catena.Proofs.Stripping
