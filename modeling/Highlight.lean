import Highlight.Interchange.Codec
import Highlight.Main
import Highlight.Theme
import Highlight.Proofs.Selector.RoundTrip
import Highlight.Proofs.Selector.Errors
import Highlight.Proofs.Selector.Filters
import Highlight.Proofs.Selector.Combined
import Highlight.Proofs.Selector.Spacing
import Highlight.Proofs.Scope.Following
import Highlight.Proofs.Scope.Placement
import Highlight.Proofs.Scope.Greedy
import Highlight.Proofs.Scope.Loosening
import Highlight.Proofs.Scope.OwnText
import Highlight.Proofs.Selector.Visibility
import Highlight.Proofs.Theme.Precedence
import Highlight.Proofs.Theme.Loading
import Highlight.Proofs.Scope.RoundTrip
import Highlight.Proofs.Interchange.RoundTrip
import Highlight.Proofs.Command.SelfCheck
import Highlight.Proofs.Scope.Refining
import Highlight.Proofs.Selector.Positive
import Highlight.Proofs.Selector.Chain
import Highlight.Proofs.Selector.Duality
import Highlight.Proofs.Selector.Distribution
import Highlight.Proofs.Name.Rejected
import Highlight.Proofs.Scope.WordByWord
import Highlight.Proofs.Lexeme.Places
import Highlight.Proofs.SyntaxError
import Highlight.Proofs.Color
import Highlight.Proofs.Style.Keys
import Highlight.Proofs.Theme.Log
import Highlight.Proofs.Position.Coordinates
import Highlight.Proofs.Text.Hex
import Highlight.Proofs.Name.Order
import Highlight.Proofs.Scope.Walk
import Highlight.Proofs.Text.Edit
import Highlight.Proofs.Command.Diff
import Highlight.Proofs.Command.Gutter
