import ReactiveView.Main
import ReactiveView.Proofs.BindingTable.InsertionOrder
import ReactiveView.Proofs.Client.Effects
import ReactiveView.Proofs.Client.Forgetting
import ReactiveView.Proofs.Client.Scopes
import ReactiveView.Proofs.Compiler.Coherence
import ReactiveView.Proofs.Compiler.Watchers
import ReactiveView.Proofs.Demo.Program
import ReactiveView.Proofs.Document.Leftmost
import ReactiveView.Proofs.Isolation.Neighbours
import ReactiveView.Proofs.Observable.Release
import ReactiveView.Proofs.Observable.Shape
import ReactiveView.Proofs.Observable.Snapshot
import ReactiveView.Proofs.Page.Changes
import ReactiveView.Proofs.Page.Lifetimes
import ReactiveView.Proofs.Page.Rerendering
import ReactiveView.Proofs.Store.Enrolment
import ReactiveView.Proofs.Store.Numbering
import ReactiveView.Proofs.Store.Snapshot
import ReactiveView.Proofs.Store.Tended
import ReactiveView.Proofs.Template.Substitution
import ReactiveView.Proofs.Value.Documents
import ReactiveView.Proofs.View.Dropped
import ReactiveView.Proofs.View.ExternalWrite
import ReactiveView.Proofs.View.Freshness
import ReactiveView.Proofs.View.Recompiling
import ReactiveView.Proofs.View.Stale
import ReactiveView.Proofs.Watcher.Collections
import ReactiveView.Proofs.Watcher.Firing
import ReactiveView.Proofs.Watcher.Registration
import ReactiveView.Proofs.Watcher.Tracking
import ReactiveView.Scenario.Perform
import ReactiveView.Proofs.Template.Attributes
import ReactiveView.Proofs.Page.Repeating
import ReactiveView.Proofs.Text.Base36.Words
import ReactiveView.Proofs.View.Counted
import ReactiveView.Proofs.Demo.CommandLine
import ReactiveView.Proofs.Number.Rounding
import ReactiveView.Proofs.Number.Shortest
import ReactiveView.Proofs.Number.Interpolation
