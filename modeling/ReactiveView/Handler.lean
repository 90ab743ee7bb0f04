import ReactiveView.Error
import ReactiveView.Text.Lowercase
import ReactiveView.Template.Grammar

/-!
# Handlers

The body of an event handler is a list of statements separated by semicolons. A statement calls a
method of the class (`save`, `this.save`, `save(event)`) or dispatches an event (`dispatch("name")`,
with an optional second argument); empty statements are passed over. Event names are kept in lower
case.

`Handler.compile` reads a body; `steps_ne_nil_of_compile` says that a compiled handler has at least one
step.
-/

set_option autoImplicit false

namespace ReactiveView

/-- One step of a handler. -/
inductive HandlerStep where
  /-- Calls a method with the payload. -/
  | call (method : String)
  /-- Dispatches the payload under an event name. -/
  | dispatch (event : String)
deriving DecidableEq, Repr

/-- A handler: its body as written, without blanks around it, and its steps. -/
structure Handler where
  source : String
  steps : List HandlerStep
deriving DecidableEq, Repr

namespace Handler

open ReactiveView.Text
open ReactiveView.Template

/-- Words that stand for the payload. -/
def payloadWords : List (List Char) := ["event".toList, "data".toList]

/-- A character of an event name after the first. -/
def isEventChar (c : Char) : Bool := isAlnum c || c == '_' || c == '-'

/-- Whether a text between quotes is an event name. -/
def isEventName (cs : List Char) : Bool := leads isLetter isEventChar cs

/-- What stands between `cs`, which opens with `lead`, and a closing parenthesis at its end. -/
def inParens? (lead : List Char) (cs : List Char) : Option (List Char) :=
  if lead.isPrefixOf cs then
    match (cs.drop lead.length).reverse with
    | ')' :: inner => some inner.reverse
    | _ => none
  else none

/-- Reads a quoted event name at the front. -/
def quotedName? (cs : List Char) : Option (List Char × List Char) :=
  match cs with
  | [] => none
  | quote :: rest =>
    if quote = '"' ∨ quote = '\'' then
      match cut? [quote] rest with
      | some (name, after) => if isEventName name then some (name, after) else none
      | none => none
    else none

/-- The event of a dispatch statement. -/
def dispatchStatement? (cs : List Char) : Option String :=
  match inParens? "dispatch(".toList cs with
  | none => none
  | some inner =>
    match quotedName? (trimStart inner) with
    | none => none
    | some (name, after) =>
      match trimStart after with
      | [] => some (lowercase (String.ofList name))
      | ',' :: more =>
        if payloadWords.contains (trim more) then some (lowercase (String.ofList name)) else none
      | _ => none

/-- The method of a call statement. -/
def callStatement? (cs : List Char) : Option String :=
  let cs := if "this.".toList.isPrefixOf cs then cs.drop 5 else cs
  let isWordChar (c : Char) : Bool := isAlnum c || c == '_' || c == '$'
  let name := cs.takeWhile isWordChar
  let after := cs.dropWhile isWordChar
  if isIdentifier name then
    if after.isEmpty then some (String.ofList name)
    else
      match inParens? ['('] after with
      | some inner =>
        let inner := trim inner
        if inner.isEmpty || payloadWords.contains inner then some (String.ofList name) else none
      | none => none
  else none

/-- The statements of a body: its parts between semicolons, without blanks around them, those that
are empty left out. -/
def statements (body : List Char) : List (List Char) :=
  ((splitAt ';' body).map trim).filter fun s => !s.isEmpty

/-- The step of one statement. -/
def step (isMethod : String → Bool) (body : String) (statement : List Char) :
    Except Error HandlerStep :=
  match dispatchStatement? statement with
  | some event => .ok (.dispatch event)
  | none =>
    match callStatement? statement with
    | some method =>
      if isMethod method then .ok (.call method) else .error (.unknownHandlerMethod body method)
    | none => .error (.badHandlerStatement (String.ofList statement))

/-- The steps of statements in order, up to the first that is not one. -/
def stepsOf (isMethod : String → Bool) (body : String) :
    List (List Char) → Except Error (List HandlerStep)
  | [] => .ok []
  | s :: rest =>
    match step isMethod body s with
    | .error e => .error e
    | .ok st =>
      match stepsOf isMethod body rest with
      | .error e => .error e
      | .ok sts => .ok (st :: sts)

/-- Reads the body of a handler. -/
def compile (isMethod : String → Bool) (body : String) : Except Error Handler :=
  let source := trimmed body
  match stepsOf isMethod source (statements body.toList) with
  | .error e => .error e
  | .ok [] => .error .emptyHandler
  | .ok steps => .ok ⟨source, steps⟩

/-- A compiled handler does something. -/
theorem steps_ne_nil_of_compile (isMethod : String → Bool) (body : String) (h : Handler)
    (hc : compile isMethod body = .ok h) : h.steps ≠ [] := by
  unfold compile at hc
  simp only at hc
  split at hc
  · cases hc
  · cases hc
  · next hne _ => cases hc; intro he; exact hne he

end Handler

end ReactiveView
