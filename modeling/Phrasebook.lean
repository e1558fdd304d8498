import Phrasebook.Pattern.Cursor
import Phrasebook.Number.Nearest
import Phrasebook.Localizer
import Phrasebook.Lock.Timed
import Phrasebook.Proofs.Loading.Answer
import Phrasebook.Proofs.Loading.Orphan
import Phrasebook.Proofs.Loading.Definition
import Phrasebook.Proofs.Pattern.Exact
import Phrasebook.Proofs.Loading.Ownership
import Phrasebook.Proofs.Loading.Late
import Phrasebook.Proofs.Loading.Inheritance
import Phrasebook.Proofs.Loading.Exclusion
import Phrasebook.Proofs.Loading.Confluence
import Phrasebook.Proofs.Pattern.Printing
import Phrasebook.Proofs.Loading.Coalescing
import Phrasebook.Proofs.Lexicon.Memo
import Phrasebook.Proofs.Loading.Once
import Phrasebook.Proofs.Loading.Handles
import Phrasebook.Proofs.Loading.Lasting
import Phrasebook.Proofs.Loading.Stability
import Phrasebook.Proofs.Lock.Sleepers
import Phrasebook.Proofs.Lock.Clock
import Phrasebook.Proofs.Pattern.Totality
import Phrasebook.Proofs.Formatter.Composition
import Phrasebook.Proofs.Lexicon.Library
import Phrasebook.Proofs.Loading.Rejection
import Phrasebook.Proofs.Quantity.Values
import Phrasebook.Proofs.Pattern.Openings
import Phrasebook.Proofs.Formatter.Source
import Phrasebook.Proofs.Lexicon.Derivation
import Phrasebook.Proofs.Formatter.Binding
import Phrasebook.Proofs.Formatter.Relevance
import Phrasebook.Proofs.Quantity.Choice
import Phrasebook.Proofs.Language.Resolved
import Phrasebook.Proofs.Files.Containment
import Phrasebook.Proofs.Lock.Quiet
import Phrasebook.Proofs.Formatter.Calling
import Phrasebook.Proofs.Locale.Detection
import Phrasebook.Proofs.Config.Options
import Phrasebook.Proofs.Loading.Served
import Phrasebook.Proofs.Diagnostic.Places
import Phrasebook.Proofs.Diagnostic.Lines
import Phrasebook.Proofs.Quantity.Absence
import Phrasebook.Proofs.Number.Precision
import Phrasebook.Proofs.Locale.Numbers
import Phrasebook.Proofs.Pattern.Escaping
import Phrasebook.Proofs.Language.Pieces
