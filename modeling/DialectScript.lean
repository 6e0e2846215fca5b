import DialectScript.Main
import DialectScript.Program.Depth
import DialectScript.Run.Fuel
import DialectScript.Value.Equality
import DialectScript.Proofs.Soundness
import DialectScript.Proofs.Completeness
import DialectScript.Proofs.Writable
import DialectScript.Proofs.Prompt
import DialectScript.Proofs.FirstError
import DialectScript.Proofs.Backtrace
import DialectScript.Proofs.Limit
import DialectScript.Proofs.Termination
import DialectScript.Proofs.Scopes
import DialectScript.Proofs.Locality
import DialectScript.Proofs.Declarations
import DialectScript.Proofs.Tiling
import DialectScript.Proofs.Restarts
import DialectScript.Proofs.Alike
import DialectScript.Proofs.Respelling
import DialectScript.Proofs.ErrorPlaces
import DialectScript.Proofs.Sessions
import DialectScript.Proofs.Unobserved
import DialectScript.Proofs.Resolution
import DialectScript.Proofs.Shapes
import DialectScript.Proofs.Purity
import DialectScript.Proofs.Numbers
import DialectScript.Proofs.Comparison
import DialectScript.Proofs.Unfolding
import DialectScript.Proofs.Members
import DialectScript.Proofs.Parameters
import DialectScript.Proofs.Rendering
import DialectScript.Proofs.LetterCase
import DialectScript.Proofs.Layout
import DialectScript.Proofs.Cursor
import DialectScript.Proofs.Walks
import DialectScript.Proofs.Endings
import DialectScript.Proofs.Lookahead
import DialectScript.Proofs.Joining
import DialectScript.Proofs.Punctuation
import DialectScript.Proofs.ParsedTrees
import DialectScript.Proofs.Repetition
import DialectScript.Proofs.Queues
import DialectScript.Proofs.Conversations
import DialectScript.Proofs.Arguments
