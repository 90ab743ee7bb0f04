import ReactiveView.Error
import ReactiveView.Identity
import ReactiveView.Markup.Basic
import ReactiveView.Table

/-!
# Forests of live nodes

A live tree is changed in place, and nodes keep their identity while they move. A forest is the table
of all nodes; each node lists its children in order and knows the node that lists it. A node that
has gone out of use is no longer alive, and a parent that is not alive counts as none.

Edits: `unlink` takes a node out of its place, `append` makes it the last child of another node,
`insertAfter` and `insertBefore` put it beside another node. The latter two look for the place after
the node has been taken out of its old one, so a node cannot be put beside itself.

`Forest.WellFormed` is what the edits keep when nobody puts a node below itself: every listed child
knows its parent, no child is listed twice, and climbing from parent to parent ends.
-/

set_option autoImplicit false

namespace ReactiveView

/-- What a live node is. -/
inductive NodeKind where
  /-- The top of a document. -/
  | fragment
  | element (name : QName) (attrs : List Attr) (apart : Bool)
  | text (s : String)
  | comment (s : String)

/-- A live node. -/
structure Node where
  kind : NodeKind
  parent : Option NodeId := none
  children : List NodeId := []
  alive : Bool := true

/-- All nodes there have been. -/
structure Forest where
  nodes : Table Node := {}

namespace Forest

/-- The node with an identity. -/
def node? (f : Forest) (n : NodeId) : Option Node := f.nodes.get? n.index

/-- Changes a node. -/
def modify (f : Forest) (n : NodeId) (g : Node → Node) : Forest := ⟨f.nodes.modify n.index g⟩

/-- The number of nodes there have been. -/
def size (f : Forest) : Nat := f.nodes.size

/-- The children of a node. -/
def children (f : Forest) (n : NodeId) : List NodeId :=
  match f.node? n with
  | some node => node.children
  | none => []

/-- What a node is. -/
def kind? (f : Forest) (n : NodeId) : Option NodeKind := (f.node? n).map (·.kind)

/-- Whether a node is in use. -/
def isAlive (f : Forest) (n : NodeId) : Bool :=
  match f.node? n with
  | some node => node.alive
  | none => false

/-- The node that lists a node among its children, while it is in use. -/
def parent? (f : Forest) (n : NodeId) : Option NodeId :=
  match f.node? n with
  | some node => node.parent.filter f.isAlive
  | none => none

/-- Adds a node that stands alone. -/
def create (f : Forest) (kind : NodeKind) : NodeId × Forest :=
  (⟨f.nodes.size⟩, ⟨f.nodes.push { kind := kind }⟩)

/-! ## Edits -/

/-- Takes a node out of its place. -/
def unlink (f : Forest) (n : NodeId) : Forest :=
  let f :=
    match f.parent? n with
    | some p => f.modify p fun node => { node with children := node.children.erase n }
    | none => f
  f.modify n fun node => { node with parent := none }

/-- Lists a node, which stands alone, among the children of another at a position. -/
def place (f : Forest) (parent : NodeId) (position : Nat) (n : NodeId) : Forest :=
  let f := f.modify n fun node => { node with parent := some parent }
  f.modify parent fun node => { node with children := node.children.insertIdx position n }

/-- Makes a node the last child of another. -/
def append (f : Forest) (parent n : NodeId) : Forest :=
  let f := f.unlink n
  f.place parent (f.children parent).length n

/-- Puts a node directly after another one. -/
def insertAfter (f : Forest) (anchor n : NodeId) : Except Error Unit × Forest :=
  match f.parent? anchor with
  | none => (.error .anchorOutsideTree, f)
  | some parent =>
    let f := f.unlink n
    match (f.children parent).idxOf? anchor with
    | none => (.error .anchorNotListed, f)
    | some i => (.ok (), f.place parent (i + 1) n)

/-- Puts a node directly before another one. -/
def insertBefore (f : Forest) (reference n : NodeId) : Except Error Unit × Forest :=
  match f.parent? reference with
  | none => (.error .referenceOutsideTree, f)
  | some parent =>
    let f := f.unlink n
    match (f.children parent).idxOf? reference with
    | none => (.error .referenceNotListed, f)
    | some i => (.ok (), f.place parent i n)

/-- Sets the text of a text node; other nodes stay as they are. -/
def setText (f : Forest) (n : NodeId) (s : String) : Forest :=
  f.modify n fun node =>
    match node.kind with
    | .text _ => { node with kind := .text s }
    | _ => node

/-- A list of attributes with the first one of a name set, or one added at the end. -/
def withAttr (name : QName) (value : String) : List Attr → List Attr
  | [] => [⟨name, value⟩]
  | a :: rest =>
    if a.name.tag = name.tag then { a with value := value } :: rest
    else a :: withAttr name value rest

/-- Sets an attribute of an element; other nodes stay as they are. -/
def setAttr (f : Forest) (n : NodeId) (name : QName) (value : String) : Forest :=
  f.modify n fun node =>
    match node.kind with
    | .element tag attrs apart => { node with kind := .element tag (withAttr name value attrs) apart }
    | _ => node

/-- Removes the attributes of a name from an element. -/
def removeAttr (f : Forest) (n : NodeId) (name : String) : Forest :=
  f.modify n fun node =>
    match node.kind with
    | .element tag attrs apart =>
      { node with kind := .element tag (attrs.filter fun a => a.name.tag != name) apart }
    | _ => node

mutual

/-- Adds the nodes of a tree; gives the topmost. -/
def plant (f : Forest) : Markup → NodeId × Forest
  | .text s => f.create (.text s)
  | .comment s => f.create (.comment s)
  | .element name attrs apart children =>
    let (n, f) := f.create (.element name attrs apart)
    (n, plantBelow f n children)

/-- Adds the nodes of trees as children of a node. -/
def plantBelow (f : Forest) (parent : NodeId) : List Markup → Forest
  | [] => f
  | m :: ms =>
    let (n, f) := plant f m
    plantBelow (f.append parent n) parent ms

end

/-- Adds the nodes of a document; gives its top. -/
def plantDocument (f : Forest) (trees : List Markup) : NodeId × Forest :=
  let (n, f) := f.create .fragment
  (n, plantBelow f n trees)

/-! ## Queries -/

/-- Whether climbing from `n` at most `fuel` times meets `target`. -/
def climbs (f : Forest) (target : NodeId) : Nat → NodeId → Bool
  | 0, n => n == target
  | fuel + 1, n =>
    n == target ||
      match f.parent? n with
      | some p => climbs f target fuel p
      | none => false

/-- Whether `ancestor` is the node or stands above it. -/
def isInclusiveAncestor (f : Forest) (ancestor n : NodeId) : Bool := f.climbs ancestor f.size n

/-- The tag of an element. -/
def tag? (f : Forest) (n : NodeId) : Option String :=
  match f.kind? n with
  | some (.element name _ _) => some name.tag
  | _ => none

/-- The attributes of an element. -/
def attrs (f : Forest) (n : NodeId) : List Attr :=
  match f.kind? n with
  | some (.element _ attrs _) => attrs
  | _ => []

/-- The value of an attribute of an element. -/
def attr? (f : Forest) (n : NodeId) (name : String) : Option String := attrValue? (f.attrs n) name

/-- The tree that stands below a node, at most `fuel` levels deep. -/
def treeBelow (f : Forest) : Nat → NodeId → Markup
  | 0, _ => .text ""
  | fuel + 1, n =>
    match f.node? n with
    | some node =>
      match node.kind with
      | .text s => .text s
      | .comment s => .comment s
      | .element name attrs apart =>
        .element name attrs apart (node.children.map (treeBelow f fuel))
      | .fragment => .element (.html "") [] false (node.children.map (treeBelow f fuel))
    | none => .text ""

/-- The tree that a node stands on top of. -/
def tree (f : Forest) (n : NodeId) : Markup := f.treeBelow (f.size + 1) n

/-- The nodes at and below a node in document order, at most `fuel` levels deep; what stands apart is
passed over unless `throughApart`. -/
def nodesBelow (f : Forest) (throughApart : Bool) : Nat → NodeId → List NodeId
  | 0, n => [n]
  | fuel + 1, n =>
    match f.node? n with
    | some node =>
      let enters :=
        match node.kind with
        | .element _ _ apart => throughApart || !apart
        | _ => true
      n :: (if enters then node.children.flatMap (nodesBelow f throughApart fuel) else [])
    | none => [n]

/-! ## Nodes that go out of use -/

/-- Takes nodes out of use; these nodes and all nodes below them lose their children. -/
def release (f : Forest) (dead : List NodeId) : Forest :=
  let below := dead.flatMap (f.nodesBelow true f.size)
  let f := dead.foldl (fun f n => f.modify n fun node => { node with alive := false }) f
  below.foldl (fun f n => f.modify n fun node => { node with children := [] }) f

/-- Whether a node is listed by a node in use. -/
def isListed (f : Forest) (n : NodeId) : Bool :=
  match f.parent? n with
  | some p => (f.children p).contains n
  | none => false

/-- The nodes in use that nothing holds: neither `held` nor listed by a node in use. -/
def unheld (f : Forest) (held : NodeId → Bool) : List NodeId :=
  ((List.range f.size).map NodeId.mk).filter fun n =>
    f.isAlive n && !(f.isListed n || held n)

/-- Takes nodes that nothing holds out of use, until all that are in use are held. -/
def sweep (f : Forest) (held : NodeId → Bool) : Nat → Forest
  | 0 => f
  | fuel + 1 =>
    match f.unheld held with
    | [] => f
    | dead => (f.release dead).sweep held fuel

/-! ## Well-formed forests -/

/-- Climbing from a node ends within the given number of steps. -/
def EndsWithin (f : Forest) : Nat → NodeId → Prop
  | 0, n => f.parent? n = none
  | k + 1, n => ∀ p, f.parent? n = some p → EndsWithin f k p

/-- Parents and lists of children agree, no child is listed twice, and there is no cycle. -/
structure WellFormed (f : Forest) : Prop where
  listed_of_parent : ∀ n p, f.parent? n = some p → n ∈ f.children p
  parent_of_listed : ∀ n p, f.isAlive p = true → n ∈ f.children p → f.parent? n = some p
  nodup : ∀ p, (f.children p).Nodup
  ends : ∀ n, ∃ k, f.EndsWithin k n

/-- A node that has just been added is found. -/
theorem node?_create (f : Forest) (kind : NodeKind) :
    (f.create kind).2.node? (f.create kind).1 = some { kind := kind } := by
  simp [create, node?]

end Forest

end ReactiveView
