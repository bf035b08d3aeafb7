import TimedGraph.Graph.Request
import TimedGraph.Graph.Snapshot
import TimedGraph.Handles
import TimedGraph.Interchange.Form
import TimedGraph.Proofs.Graph.Consistency
import TimedGraph.Proofs.Graph.Courses
import TimedGraph.Proofs.Graph.Transparency
import TimedGraph.Word.Stream
import TimedGraph.Proofs.Remainder
import TimedGraph.Proofs.Graph.Purging
import TimedGraph.Proofs.Graph.Frame
import TimedGraph.Proofs.Graph.Refusal
import TimedGraph.Proofs.Graph.Forgetting
import TimedGraph.Proofs.Graph.Permanence
import TimedGraph.Proofs.Word.RoundTrip
import TimedGraph.Proofs.Series.Encodability
import TimedGraph.Proofs.Series.Concatenation
import TimedGraph.Proofs.Series.Reduction
import TimedGraph.Proofs.Catalogue
import TimedGraph.Proofs.Graph.Window
import TimedGraph.Proofs.Graph.Appending
import TimedGraph.Proofs.Graph.Attachment
import TimedGraph.Proofs.Graph.Agreement
import TimedGraph.Proofs.Graph.Commuting
import TimedGraph.Proofs.Word.Widths
import TimedGraph.Proofs.Word.Minimality
import TimedGraph.Proofs.Graph.Size
