import LiveMarkup.Page.App
import LiveMarkup.Proofs.Heap.Change
import LiveMarkup.Proofs.Heap.Ownership
import LiveMarkup.Proofs.Reactive.Subscription
import LiveMarkup.Proofs.Reactive.Write
import LiveMarkup.Proofs.Reactive.Run
import LiveMarkup.Proofs.Reactive.History
import LiveMarkup.Proofs.Reactive.Adequacy
import LiveMarkup.Proofs.Heap.Reads
import LiveMarkup.Proofs.Reactive.Notification
import LiveMarkup.Proofs.Reactive.Reader
import LiveMarkup.Proofs.Reactive.Freshness
import LiveMarkup.Proofs.Heap.Display
import LiveMarkup.Proofs.Heap.Mirror
import LiveMarkup.Proofs.Reactive.Observation
import LiveMarkup.Proofs.Reactive.Simulation
import LiveMarkup.Proofs.Expr.Counterpart
import LiveMarkup.Proofs.Expr.Determinacy
import LiveMarkup.Proofs.Expr.Spelling
import LiveMarkup.Proofs.Expr.Taking
import LiveMarkup.Proofs.Expr.Printing
import LiveMarkup.Proofs.Expr.Front
import LiveMarkup.Proofs.Expr.Level
import LiveMarkup.Proofs.Expr.Whole
import LiveMarkup.Proofs.Heap.Reach
import LiveMarkup.Proofs.Reactive.Yield
import LiveMarkup.Proofs.Expr.Plain
import LiveMarkup.Proofs.Document.Face
import LiveMarkup.Proofs.Document.Layout
import LiveMarkup.Proofs.Document.Forest
import LiveMarkup.Proofs.Text.Span
import LiveMarkup.Proofs.Document.Markup
import LiveMarkup.Proofs.Document.Reprint
import LiveMarkup.Proofs.Directive.Duty
import LiveMarkup.Proofs.Directive.Slot
import LiveMarkup.Proofs.Page.Live
import LiveMarkup.Proofs.Page.Sound
import LiveMarkup.Proofs.Page.Course
import LiveMarkup.Proofs.Page.Run
import LiveMarkup.Proofs.Page.Attach
import LiveMarkup.Proofs.Page.Walk
import LiveMarkup.Proofs.Reactive.Nesting
import LiveMarkup.Proofs.Reactive.Attribution
import LiveMarkup.Proofs.Reactive.Endings
import LiveMarkup.Proofs.Reactive.FanOut
import LiveMarkup.Proofs.Page.Rerun
import LiveMarkup.Proofs.Reactive.Supply
import LiveMarkup.Proofs.Reactive.Grounded
import LiveMarkup.Proofs.Expr.Grounded
import LiveMarkup.Proofs.Heap.Copy
import LiveMarkup.Proofs.Reactive.Territory
import LiveMarkup.Proofs.Page.Change
import LiveMarkup.Proofs.Page.Agreement
import LiveMarkup.Proofs.Page.Incremental
import LiveMarkup.Proofs.Json.RoundTrip
import LiveMarkup.Proofs.Document.Bubbling
import LiveMarkup.Proofs.Page.Isolation
import LiveMarkup.Proofs.Reactive.Limit
import LiveMarkup.Proofs.Expr.Grammar
import LiveMarkup.Proofs.Reactive.Origin
import LiveMarkup.Proofs.Expr.Safety
import LiveMarkup.Proofs.Document.Style
import LiveMarkup.Proofs.Directive.Likeness
import LiveMarkup.Proofs.Directive.Neighbour
import LiveMarkup.Proofs.Page.Becoming
import LiveMarkup.Proofs.Page.Rendered
import LiveMarkup.Proofs.Page.Failure
import LiveMarkup.Proofs.Reactive.Refusal
import LiveMarkup.Proofs.Expr.Expansion
import LiveMarkup.Proofs.Expr.Append
import LiveMarkup.Proofs.Reactive.Standstill
import LiveMarkup.Proofs.Heap.Sharing
import LiveMarkup.Proofs.Reactive.Passing
import LiveMarkup.Proofs.Heap.Veil
import LiveMarkup.Proofs.Expr.Lockstep
import LiveMarkup.Proofs.Expr.Shadowing
import LiveMarkup.Proofs.Reactive.Storing
import LiveMarkup.Proofs.Reactive.Pushing
import LiveMarkup.Proofs.Reactive.Tidy
import LiveMarkup.Proofs.Heap.Shelf
import LiveMarkup.Proofs.Reactive.Storage
import LiveMarkup.Proofs.Heap.Replica
import LiveMarkup.Proofs.Reactive.Crossing
import LiveMarkup.Proofs.Reactive.Additions
import LiveMarkup.Proofs.Reactive.Feeding
import LiveMarkup.Proofs.Expr.Reentry
import LiveMarkup.Proofs.Heap.Showing
import LiveMarkup.Proofs.Heap.Equality
import LiveMarkup.Proofs.Expr.Address
import LiveMarkup.Proofs.Reactive.Naming
import LiveMarkup.Proofs.Expr.Cutting
import LiveMarkup.Proofs.Document.Copying
import LiveMarkup.Proofs.Document.Listening
import LiveMarkup.Proofs.Document.Hosting
import LiveMarkup.Proofs.Reactive.Dividing
import LiveMarkup.Proofs.Reactive.Homing
import LiveMarkup.Proofs.Directive.Discipline
import LiveMarkup.Proofs.Expr.Dividing
import LiveMarkup.Proofs.Page.Minding
import LiveMarkup.Proofs.Page.Tending
import LiveMarkup.Proofs.Page.Dividing
import LiveMarkup.Proofs.Page.Casting
import LiveMarkup.Proofs.Page.Repeating
import LiveMarkup.Proofs.Expr.Phrase
import LiveMarkup.Proofs.Expr.Recognition
import LiveMarkup.Proofs.Expr.Reparse
import LiveMarkup.Proofs.Expr.Composition
import LiveMarkup.Proofs.Expr.Keyword
import LiveMarkup.Proofs.Expr.Tearing
import LiveMarkup.Proofs.Expr.Cutoff
import LiveMarkup.Proofs.Expr.Faltering
import LiveMarkup.Proofs.Directive.Variable
import LiveMarkup.Proofs.Directive.Attribute
import LiveMarkup.Proofs.Document.Entity
