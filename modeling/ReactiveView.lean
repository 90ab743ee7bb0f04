import ReactiveView.Screen.Bench
import ReactiveView.Session
import ReactiveView.Proofs.Binding.Values
import ReactiveView.Proofs.Run
import ReactiveView.Proofs.Binding.Construction
import ReactiveView.Proofs.Binding.InitialState
import ReactiveView.Proofs.Binding.Plain
import ReactiveView.Proofs.Binding.Consistency
import ReactiveView.Proofs.Forest.Growth
import ReactiveView.Proofs.Forest.Sweep
import ReactiveView.Proofs.Ownership.Build
import ReactiveView.Proofs.Ownership.Create
import ReactiveView.Proofs.Ownership.Edit
import ReactiveView.Proofs.Ownership.Invariant
import ReactiveView.Proofs.Ownership.Outcome
import ReactiveView.Proofs.Ownership.Refill
import ReactiveView.Proofs.Ownership.Splice
import ReactiveView.Proofs.Template.Chain
import ReactiveView.Proofs.Typing.Store
import ReactiveView.Proofs.View.Attributes
import ReactiveView.Proofs.Recovery.Documents
import ReactiveView.Proofs.Ownership.Detach
import ReactiveView.Proofs.Template.Composition
import ReactiveView.Proofs.Outliving.Edits
import ReactiveView.Proofs.View.Deferral
import ReactiveView.Proofs.Loading.Compiling
import ReactiveView.Proofs.Loading.Markers
import ReactiveView.Proofs.Projection.RoundTrip
import ReactiveView.Proofs.Interrupted.Splices
import ReactiveView.Proofs.Binding.Announcements
import ReactiveView.Proofs.Slots.Replacing
import ReactiveView.Proofs.Template.Naming
import ReactiveView.Proofs.Template.Redeclaring
import ReactiveView.Proofs.View.Substitution
import ReactiveView.Proofs.Bubbling.Dispatching
import ReactiveView.Proofs.Template.Stages
import ReactiveView.Proofs.Template.Strictness
import ReactiveView.Proofs.View.Commuting
import ReactiveView.Proofs.Template.Reordering
import ReactiveView.Proofs.Typing.Declarations
import ReactiveView.Proofs.Template.Handlers
import ReactiveView.Proofs.Constructors.Chain
import ReactiveView.Proofs.Loading.Discovery
import ReactiveView.Proofs.Forest.Edits
