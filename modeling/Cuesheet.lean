import Cuesheet.Expr.Report
import Cuesheet.Files.Tree
import Cuesheet.Main
import Cuesheet.Proofs.Expr.Monotone
import Cuesheet.Stage.Report
import Cuesheet.Proofs.Resolution.Knowledge
import Cuesheet.Proofs.Resolution.Draft
import Cuesheet.Proofs.Resolution.Progress
import Cuesheet.Proofs.Resolution.Confluence
import Cuesheet.Proofs.Resolution.Passes
import Cuesheet.Proofs.Resolution.Solution
import Cuesheet.Proofs.Stage.Clocks
import Cuesheet.Proofs.Stage.Requests
import Cuesheet.Proofs.Stage.Ticks
import Cuesheet.Proofs.Stage.Frames
import Cuesheet.Proofs.Stage.Awake
import Cuesheet.Proofs.Stage.Telling
import Cuesheet.Proofs.Stage.Tidy
import Cuesheet.Proofs.Document.Around
import Cuesheet.Proofs.Document.Keys
import Cuesheet.Proofs.Document.Writing
import Cuesheet.Proofs.Patch.Sealing
import Cuesheet.Proofs.Data.Entries
import Cuesheet.Proofs.Player.Turns
import Cuesheet.Proofs.Player.Fitting
import Cuesheet.Proofs.Stage.Keeping
import Cuesheet.Proofs.Stage.Batches
import Cuesheet.Proofs.Stage.Turning
import Cuesheet.Proofs.Stage.Visibility
import Cuesheet.Proofs.Stage.Rebinding
import Cuesheet.Proofs.Resolution.Counting
import Cuesheet.Proofs.Expr.Grammar
import Cuesheet.Proofs.Document.Snapshot
import Cuesheet.Proofs.Document.Rewriting
import Cuesheet.Proofs.Patch.Sparing
import Cuesheet.Proofs.Stage.Seals
import Cuesheet.Proofs.Player.Edges
import Cuesheet.Proofs.Stage.Edges
import Cuesheet.Proofs.Host.Loads
import Cuesheet.Proofs.Host.History
import Cuesheet.Proofs.Stage.Hosting
import Cuesheet.Proofs.Stage.Noting
import Cuesheet.Proofs.Stage.Coalescing
import Cuesheet.Proofs.Number.Doubles
import Cuesheet.Proofs.Expr.Breakdown
import Cuesheet.Proofs.Expr.References
import Cuesheet.Proofs.Resolution.Formed
import Cuesheet.Proofs.Player.Tiling
import Cuesheet.Proofs.Stage.Tiling
import Cuesheet.Proofs.Stage.Modes
import Cuesheet.Proofs.Stage.Hearing
import Cuesheet.Proofs.Clock.Elapsing
import Cuesheet.Proofs.Stage.Rates
import Cuesheet.Proofs.Player.Bracketing
import Cuesheet.Proofs.Stage.Interruptions
import Cuesheet.Proofs.Stage.Seats
import Cuesheet.Proofs.Stage.Reporting
import Cuesheet.Proofs.Stage.Courses
import Cuesheet.Proofs.Stage.Remembering
import Cuesheet.Proofs.Patch.Aiming
import Cuesheet.Proofs.Document.Pieces
import Cuesheet.Proofs.Patch.Confining
import Cuesheet.Proofs.Stage.Ignoring
import Cuesheet.Proofs.Stage.Booking
import Cuesheet.Proofs.Stage.Visiting
import Cuesheet.Proofs.Stage.Lockstep
import Cuesheet.Proofs.Number.Signs
import Cuesheet.Proofs.Clock.Sinking
import Cuesheet.Proofs.Stage.Sinking
import Cuesheet.Proofs.Stage.Tallying
import Cuesheet.Proofs.Stage.Retiring
import Cuesheet.Proofs.Stage.Closing
import Cuesheet.Proofs.Time.Latest
import Cuesheet.Proofs.Resolution.Logging
import Cuesheet.Proofs.Resolution.Nesting
import Cuesheet.Proofs.Resolution.Following
import Cuesheet.Proofs.Resolution.Dissolving
import Cuesheet.Proofs.Resolution.Transparency
import Cuesheet.Proofs.Number.Sums
import Cuesheet.Proofs.Time.Rising
import Cuesheet.Proofs.Resolution.Sequencing
import Cuesheet.Proofs.Xml.Refused
import Cuesheet.Proofs.Xml.Settled
import Cuesheet.Proofs.Xml.Attributable
import Cuesheet.Proofs.Patch.Keeping
import Cuesheet.Proofs.Patch.Loading
import Cuesheet.Proofs.Resolution.Anchoring
import Cuesheet.Proofs.Resolution.Ending
import Cuesheet.Proofs.Resolution.Shifting
import Cuesheet.Proofs.Stage.Handles
import Cuesheet.Proofs.Stage.Starting
import Cuesheet.Proofs.Document.Fragments
import Cuesheet.Proofs.Resolution.Cascading
import Cuesheet.Proofs.Composition.Drawing
import Cuesheet.Proofs.Manifest.Playback
import Cuesheet.Proofs.Expr.Spacing
import Cuesheet.Proofs.Stage.Promises
import Cuesheet.Proofs.Resolution.Naming
import Cuesheet.Proofs.Manifest.Patch
