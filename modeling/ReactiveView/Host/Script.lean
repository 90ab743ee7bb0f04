import ReactiveView.Files
import ReactiveView.Json.Basic

/-!
# Host programs

What a host program does to a system of live objects, as data. A *command* is one operation on a
namespace, an instance or a collection; an *action* is one line of a script that runs as a method, a
constructor or a listener, and may itself be a command. Values are given by expressions, since what
they denote depends on the state in which the command runs: a label names an instance, and inside a
script the running instance, its properties and the payload can be referred to.

A missing target stands for the running instance.
-/

set_option autoImplicit false

namespace ReactiveView.Host

/-- What a host program writes for a value. -/
inductive Expr where
  | null
  | bool (b : Bool)
  | number (x : Float)
  | text (s : String)
  | array (items : List Expr)
  | object (fields : List (String × Expr))
  /-- The instance registered under a label. -/
  | labelled (label : String)
  /-- The collection in a property of the instance registered under a label. -/
  | collectionOf (label property : String)
  /-- A collection that is held on its own. -/
  | heldCollection (label : String)
  /-- The payload of the running script. -/
  | payload
  /-- The text the payload would leave in a view. -/
  | payloadText
  /-- The running instance. -/
  | self
  /-- A property of the running instance. -/
  | property (name : String)

/-- How a host program makes the instance of an abstract class. -/
inductive Factory where
  | fail (e : Error)
  | existing (label : String)
  | construct (className : String) (init : Option Expr)

/-- Questions to a namespace and its queue, and construction in it. -/
inductive NamespaceOp where
  | create (settings : Option Json) (imports : List (String × String × String))
  | names
  | debug
  | document (index : Nat) (tag : String)
  | classSummary (className : String)
  | classDescriptor (className : String)
  | isA (className other : String)
  | construct (className : String) (init : Option Expr) (label : Option String)
  | constructText (className text : String) (label : Option String)
  | constructWith (className : String) (factory : Factory) (init : Option Expr)
      (label : Option String)
  | object (name : String) (label : Option String)
  | flush
  | poll (delta : Int)
  | queue

/-- Operations on an instance. -/
inductive InstanceOp where
  | get (property : String) (label : Option String)
  | set (property : String) (value : Expr)
  | attr (name : String)
  | attrs
  | setAttr (name : String) (value : Expr)
  | setAttrs (values : List (String × Expr))
  | assign (value : Expr)
  | values
  | toObject
  | toJson
  | html
  | text
  | classOf
  | same (other : String)
  | debug
  | state
  | attach (parent property : String)
  | detach
  | exposed (key : String)
  | call (method : String) (data : Expr)
  | dispatch (name : String) (data : Expr)
  | domEvent (path : List Nat) (event : String) (data : Expr)
  | trigger (key event : String) (data : Expr)
  | hold (property label : String)

/-- Operations on a collection. -/
inductive CollectionOp where
  | push (value : Expr)
  | unshift (value : Expr)
  | pop (label : Option String)
  | shift (label : Option String)
  | remove (index : Nat) (label : Option String)
  | get (index : Nat) (label : Option String)
  | insert (index : Nat) (value : Expr)
  | move (source target : Nat)
  | splice (start count : Nat) (values : List Expr) (labels : List String)
  | replaceAll (values : List Expr) (labels : List String)
  | items
  | indexOf (item : String)
  | info
  | debug
  | toArray (start stop : Option Nat)
  | toJson (start stop : Option Nat) (indentation : Nat)

/-- Where a collection is found: in a property of an instance, or held on its own. -/
inductive CollectionRef where
  | property (target : Option String) (name : String)
  | held (label : String)

mutual

/-- One line of a script. -/
inductive Action where
  | log (text : String)
  | give (value : Expr)
  | fail (e : Error)
  | branch (left right : Expr) (yes : List Action) (no : List Action)
  | callSuper
  | prevent
  | emit (name : String) (data : Expr)
  | command (c : Command)

/-- One operation of a host program. -/
inductive Command where
  | namespaceOp (ns : String) (op : NamespaceOp)
  | load (ns html : String) (bindings : List (String × Behavior))
  | loadFiles (ns : String) (files : FileTree) (directory : String)
      (bindings : List (String × Behavior))
  | instanceOp (target : Option String) (op : InstanceOp)
  | listen (target : Option String) (eventClass name tag : String) (script : List Action)
  | drop (label : String)
  | collectionOp (source : CollectionRef) (op : CollectionOp)

/-- What a host program supplies for a class. -/
inductive Behavior where
  | mk (methods : List (String × List Action)) (constructor : Option (List Action))
      (factory : Option Factory)

end

/-- The lines of a script in order. -/
abbrev Script := List Action

/-- The methods supplied for a class. -/
def Behavior.methods : Behavior → List (String × Script)
  | mk methods _ _ => methods

/-- The constructor supplied for a class. -/
def Behavior.constructor : Behavior → Option Script
  | mk _ constructor _ => constructor

/-- The factory supplied for a class. -/
def Behavior.factory : Behavior → Option Factory
  | mk _ _ factory => factory

/-- Nothing supplied. -/
def Behavior.none : Behavior := mk [] Option.none Option.none

/-- A class for which nothing is supplied has no methods. -/
theorem Behavior.methods_none : Behavior.none.methods = [] := rfl

end ReactiveView.Host
