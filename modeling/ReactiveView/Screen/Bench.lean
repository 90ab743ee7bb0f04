import ReactiveView.Screen.Basic

/-!
# Labelled nodes

A bench holds live trees, formatted attributes and node sets under labels, with one queue for all of
them, so that edits and deferred writes can be tried one by one. A node stays in use as long as a
label, a text place or a node in use holds it.

`TreeStep` and `WriteStep` are the operations by name, `Bench.runTree` and `Bench.runWrite` carry them
out, and a `Reply` is what an operation answers. `Bench.writing_drop_of_not_contains` states what
dropping an unknown label answers.
-/

set_option autoImplicit false

namespace ReactiveView

/-- What an operation on a bench answers. -/
inductive Reply where
  | nothing
  | flag (b : Bool)
  | count (n : Nat)
  | text (s : String)
  | texts (ss : List String)
  | maybe (s : Option String)
  | binding (name : String) (sources : List Source)
  | taken (removed : Bool) (size : Nat)

/-- Operations on labelled nodes. -/
inductive TreeStep where
  | new (label : String) (tree : Markup)
  | child (label : String) (position : Nat) (childLabel : String)
  | append (label child : String)
  | insertAfter (anchor node : String)
  | insertBefore (reference node : String)
  | remove (label : String)
  | hasParent (label : String)
  | parentTag (label : String)
  | ancestor (above label : String)
  | setText (label text : String)
  | text (label : String)
  | name (label : String)
  | getAttr (label name : String)
  | setAttr (label name value : String)
  | removeAttr (label name : String)
  | html (label : String)
  | children (label : String)
  | find (label name : String)

/-- Operations on labelled formatted attributes and node sets. -/
inductive WriteStep where
  | element (label : String) (tree : Markup)
  | drop (label : String)
  | bind (label element attr : String) (format : Format)
  | bindText (label element : String)
  | fill (label : String) (source : Source) (text : String)
  | write (label : String)
  | mark (label : String)
  | add (set label : String)
  | take (set label : String)
  | render (set : String) (source : Source) (text : String)
  | flush
  | poll (delta : Int)

/-- Live trees, formatted attributes and node sets under labels. -/
structure Bench where
  screen : Screen
  queue : QueueId
  nodes : Dict String NodeId := []
  places : Dict String BoundNode := []
  sets : Dict String NodeSet := []

namespace Bench

/-- A bench whose queue has the given delay. -/
def withDelay (delay : Nat) : Bench :=
  let (queue, screen) := ({} : Screen).addQueue delay
  { screen := screen, queue := queue }

/-- The node under a label. -/
def node (b : Bench) (label : String) : NodeId := (b.nodes.get? label).getD ⟨b.screen.forest.size⟩

/-- The live trees of a bench. -/
def forest (b : Bench) : Forest := b.screen.forest

/-- Changes the live trees. -/
def mapForest (b : Bench) (g : Forest → Forest) : Bench := { b with screen := b.screen.mapForest g }

/-- The text nodes among some places. -/
def textNodes (places : List BoundNode) : List NodeId :=
  places.filterMap fun p =>
    match p with
    | .text n => some n
    | .attr _ => none

/-- Takes nodes that nothing holds out of use. -/
def settle (b : Bench) : Bench :=
  let held := b.nodes.map (·.2) ++ textNodes (b.places.map (·.2))
    ++ textNodes (b.sets.flatMap (·.2))
  b.mapForest fun f => f.sweep held.contains f.size

/-- Registers a tree under a label. -/
def plant (b : Bench) (label : String) (tree : Markup) : Bench :=
  let (n, f) := b.forest.plant tree
  { b.mapForest fun _ => f with nodes := b.nodes.insert label n }

/-- The printed form of a node. -/
def html (b : Bench) (n : NodeId) : String := (b.forest.tree n).printed

/-- Carries out an edit that may fail. -/
def edit (b : Bench) (result : Except Error Unit × Forest) : Except Error Reply × Bench :=
  (result.1.map fun _ => .nothing, b.mapForest fun _ => result.2)

/-- Carries out an operation on labelled nodes. -/
def tree (b : Bench) : TreeStep → Except Error Reply × Bench
  | .new label t => (.ok .nothing, b.plant label t)
  | .child label position childLabel =>
    match (b.forest.children (b.node label))[position]? with
    | some n => (.ok (.flag true), { b with nodes := b.nodes.insert childLabel n })
    | none => (.ok (.flag false), b)
  | .append label child =>
    let b := b.mapForest fun f => f.append (b.node label) (b.node child)
    (.ok (.text (b.html (b.node label))), b)
  | .insertAfter anchor node => b.edit (b.forest.insertAfter (b.node anchor) (b.node node))
  | .insertBefore reference node =>
    b.edit (b.forest.insertBefore (b.node reference) (b.node node))
  | .remove label => (.ok .nothing, b.mapForest fun f => f.unlink (b.node label))
  | .hasParent label => (.ok (.flag (b.forest.parent? (b.node label)).isSome), b)
  | .parentTag label =>
    (.ok (.maybe ((b.forest.parent? (b.node label)).bind b.forest.tag?)), b)
  | .ancestor above label =>
    (.ok (.flag (b.forest.isInclusiveAncestor (b.node above) (b.node label))), b)
  | .setText label text => (.ok .nothing, b.mapForest fun f => f.setText (b.node label) text)
  | .text label => (.ok (.text (b.forest.tree (b.node label)).textContent), b)
  | .name label => (.ok (.maybe (b.forest.tag? (b.node label))), b)
  | .getAttr label name => (.ok (.maybe (b.forest.attr? (b.node label) name)), b)
  | .setAttr label name value =>
    (.ok .nothing, b.mapForest fun f => f.setAttr (b.node label) (.plain name) value)
  | .removeAttr label name =>
    (.ok .nothing, b.mapForest fun f => f.removeAttr (b.node label) name)
  | .html label => (.ok (.text (b.html (b.node label))), b)
  | .children label => (.ok (.count (b.forest.children (b.node label)).length), b)
  | .find label name =>
    let test (m : Markup) : Bool := m.tag? == some name || (m.attr? name).isSome
    (.ok (.texts (((b.forest.tree (b.node label)).find test).map Markup.printed)), b)

/-- The places of a node set. -/
def set (b : Bench) (label : String) : NodeSet := (b.sets.get? label).getD []

/-- Carries out an operation on a formatted attribute under a label. -/
def onBinding (b : Bench) (label : String) (act : BindingId → Reply × Screen) : Reply × Bench :=
  match b.places.get? label with
  | some (.attr id) =>
    let (reply, screen) := act id
    (reply, { b with screen := screen })
  | _ => (.nothing, b)

/-- Carries out an operation on labelled formatted attributes and node sets. -/
def writing (b : Bench) : WriteStep → Reply × Bench
  | .element label t => (.nothing, b.plant label t)
  | .drop label => (.flag (b.nodes.contains label), { b with nodes := b.nodes.erase label })
  | .bind label element attr format =>
    let binding := Binding.ofFormat (b.node element) (.plain attr) format
    let (id, screen) := b.screen.addBinding binding
    (.binding attr binding.sources,
      { b with screen := screen, places := b.places.insert label (.attr id) })
  | .bindText label element =>
    (.nothing, { b with places := b.places.insert label (.text (b.node element)) })
  | .fill label source text =>
    b.onBinding label fun id =>
      let s := b.screen.modifyBinding id fun binding => binding.fill source text
      (.text (((s.binding? id).map Binding.joined).getD ""), s)
  | .write label =>
    b.onBinding label fun id =>
      let (done, s) := b.screen.write id
      (.flag done, s)
  | .mark label => b.onBinding label fun id => (.nothing, b.screen.mark b.queue id)
  | .add set label =>
    match b.places.get? label with
    | some place =>
      let nodes := b.set set ++ [place]
      (.count nodes.length, { b with sets := b.sets.insert set nodes })
    | none => (.nothing, b)
  | .take set label =>
    match b.places.get? label with
    | some place =>
      let (removed, nodes) := NodeSet.take (b.set set) place
      (.taken removed nodes.length, { b with sets := b.sets.insert set nodes })
    | none => (.nothing, b)
  | .render set source text =>
    (.nothing, { b with screen := b.screen.render b.queue (b.set set) source text })
  | .flush =>
    let (n, s) := b.screen.flush b.queue
    (.count n, { b with screen := s })
  | .poll delta =>
    let (n, s) := b.screen.pollAfterDeadline b.queue delta
    (.count n, { b with screen := s })

/-- Carries out an operation on labelled nodes and drops what it leaves unheld. -/
def runTree (b : Bench) (step : TreeStep) : Except Error Reply × Bench :=
  let (reply, b) := b.tree step
  (reply, b.settle)

/-- Carries out an operation on formatted attributes and drops what it leaves unheld. -/
def runWrite (b : Bench) (step : WriteStep) : Reply × Bench :=
  let (reply, b) := b.writing step
  (reply, b.settle)

/-- The printed form of all labelled elements. -/
def printedNodes (b : Bench) : List (String × String) := b.nodes.map fun e => (e.1, b.html e.2)

/-- Dropping a label that is not there is answered with no. -/
theorem writing_drop_of_not_contains (b : Bench) (label : String)
    (h : b.nodes.contains label = false) : (b.writing (.drop label)).1 = .flag false := by
  simp [writing, h]

end Bench

end ReactiveView
