import NestedLayout.Scalar.Binary32
import NestedLayout.Table
import NestedLayout.Geometry.AxisMap
import NestedLayout.Geometry.Side
import NestedLayout.Geometry.Polyline
import NestedLayout.Number.Text
import NestedLayout.Text.Name
import NestedLayout.Json.Value
import NestedLayout.Json.Reader
import NestedLayout.Json5.Reader
import NestedLayout.Diagram.Document
import NestedLayout.Settings.File
import NestedLayout.Settings.Json
import NestedLayout.Measure.Extent
import NestedLayout.Hierarchy.Connector
import NestedLayout.Space.Search
import NestedLayout.Sizing.Containment
import NestedLayout.Sizing.Proportional
import NestedLayout.Sizing.Dot.Sizer
import NestedLayout.Routing.Route
import NestedLayout.Separation
import NestedLayout.Pipeline
import NestedLayout.Drawing.Sized
import NestedLayout.Drawing.Placed
import NestedLayout.Drawing.Separated
import NestedLayout.Drawing.Compacted
import NestedLayout.Listing
import NestedLayout.CommandLine.Command
import NestedLayout.Main
import NestedLayout.Proofs.Fold
import NestedLayout.Proofs.Pairs
import NestedLayout.Proofs.Hierarchy.Extraction
import NestedLayout.Proofs.Hierarchy.Depths
import NestedLayout.Proofs.Hierarchy.Accepted
import NestedLayout.Proofs.Hierarchy.Tree
import NestedLayout.Proofs.Hierarchy.Walk
import NestedLayout.Proofs.Hierarchy.Shape
import NestedLayout.Proofs.Exact.Rect
import NestedLayout.Proofs.Sizing.Tracks
import NestedLayout.Proofs.Measure
import NestedLayout.Proofs.Space.Requirement
import NestedLayout.Proofs.Sizing.Shrinking
import NestedLayout.Proofs.Sizing.Cells
import NestedLayout.Proofs.Sizing.Plan
import NestedLayout.Proofs.Sizing.Containment
import NestedLayout.Proofs.Drawing.Ground
import NestedLayout.Proofs.Drawing.Sized
import NestedLayout.Proofs.Space.Search
import NestedLayout.Proofs.Drawing.Placed
import NestedLayout.Proofs.Drawing.Separated
import NestedLayout.Proofs.Drawing.Tight
import NestedLayout.Proofs.Drawing.Compacted
import NestedLayout.Proofs.Engine.Phases
import NestedLayout.Proofs.Engine.Completion
import NestedLayout.Proofs.Engine.Nesting
import NestedLayout.Proofs.Space.ExactRoom
import NestedLayout.Proofs.Engine.FailingSizer
import NestedLayout.Proofs.Engine.Completeness
import NestedLayout.Proofs.Drawing.Unlinked
import NestedLayout.Proofs.Engine.Connectivity
import NestedLayout.Proofs.Drawing.Failures
import NestedLayout.Proofs.Engine.Reports
import NestedLayout.Proofs.Binary32.Order
import NestedLayout.Proofs.Sizing.Breakdown
import NestedLayout.Proofs.Binary32.Identity
import NestedLayout.Proofs.Engine.Breakdown
import NestedLayout.Proofs.Routing.Ends
import NestedLayout.Proofs.Drawing.Attached
import NestedLayout.Proofs.Engine.Attachment
import NestedLayout.Proofs.Hierarchy.Derivation
import NestedLayout.Proofs.Engine.Hooks
import NestedLayout.Proofs.Engine.Overlaps
import NestedLayout.Proofs.Routing.Bends
import NestedLayout.Proofs.Hierarchy.Building
import NestedLayout.Proofs.Space.Records
import NestedLayout.Proofs.Space.Store
import NestedLayout.Proofs.Drawing.Mirrored
import NestedLayout.Proofs.Engine.Mirroring
import NestedLayout.Proofs.Sizing.Dot.Text
import NestedLayout.Proofs.Sizing.Dot.Outline
import NestedLayout.Proofs.Sizing.Dot.Nesting
import NestedLayout.Proofs.Sizing.Dot.Request
import NestedLayout.Proofs.Routing.Between
import NestedLayout.Proofs.Drawing.Enclosed
import NestedLayout.Proofs.Picture.Canvas
import NestedLayout.Proofs.Engine.Canvas
import NestedLayout.Proofs.Diagram.RoundTrip
import NestedLayout.Proofs.Space.Nested
import NestedLayout.Proofs.Space.Growth
import NestedLayout.Proofs.Space.Larger
import NestedLayout.Proofs.Space.Monotone
import NestedLayout.Proofs.Sizing.Rooms
import NestedLayout.Proofs.Sizing.Repair
import NestedLayout.Proofs.Drawing.Seated
import NestedLayout.Proofs.Drawing.Carried
import NestedLayout.Proofs.Drawing.Cleared
import NestedLayout.Proofs.Drawing.Rigid
import NestedLayout.Proofs.Space.Nearest
import NestedLayout.Proofs.Space.Positions
import NestedLayout.Proofs.Space.Thinning
import NestedLayout.Proofs.Routing.Settled
import NestedLayout.Proofs.Separation
import NestedLayout.Proofs.Drawing.Harmless
import NestedLayout.Proofs.Routing.Survivors
import NestedLayout.Proofs.Hierarchy.Innermost
import NestedLayout.Proofs.Routing.Reordered
import NestedLayout.Proofs.Routing.Waypoints
import NestedLayout.Proofs.Pipeline.Arrangement
import NestedLayout.Proofs.Hierarchy.Orders
import NestedLayout.Proofs.Hierarchy.Faults
import NestedLayout.Proofs.Sizing.Dot.Blocks
import NestedLayout.Proofs.Sizing.Dot.TrueScale
import NestedLayout.Proofs.Settings.Loading
import NestedLayout.Proofs.Sizing.Agreement
import NestedLayout.Proofs.Sizing.Refitting
import NestedLayout.Proofs.Exact.Clamping
import NestedLayout.Proofs.Exact.Crossing
import NestedLayout.Proofs.Sizing.Tiling
import NestedLayout.Proofs.Space.Candidates
