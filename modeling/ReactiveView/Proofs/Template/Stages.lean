import ReactiveView.Template.Parse

/-!
# The stages of the reader

The functions of the reader stop at the first error, and what follows starts from the draft that has been left.
The equations here say so for the places where one function of the reader calls another: what is read is read by
the first stage and then, from its draft, by the rest. Statements about the whole reader follow from statements
about single stages that are kept by `>>=`.
-/

set_option autoImplicit false

namespace ReactiveView.Template

variable (r : Reading) (d : Draft)

theorem declareAll_cons (declare : Draft → Markup → Except Error Draft) (m : Markup) (ms : List Markup) :
    declareAll declare d (m :: ms) = declare d m >>= fun d => declareAll declare d ms := by
  rw [declareAll]
  cases declare d m <;> rfl

/-! ## Pieces -/

theorem nodesOfPieces_ofText (code : List Char) (rest : List Piece) :
    nodesOfPieces r d (.ofText code :: rest) = registerText r d code >>= fun x =>
      (nodesOfPieces r x.2 rest).map fun y => (.text "" (some x.1) :: y.1, y.2) := by
  rw [nodesOfPieces]
  cases registerText r d code <;> rfl

theorem nodesOfPieces_ofElement (code : List Char) (rest : List Piece) :
    nodesOfPieces r d (.ofElement code :: rest) = registerElement r d code >>= fun x =>
      (nodesOfPieces r x.2 rest).map fun y => (.marker "" (some x.1) :: y.1, y.2) := by
  rw [nodesOfPieces]
  cases registerElement r d code <;> rfl

theorem formatOfPieces_ofText (f : Format) (code : List Char) (rest : List Piece) :
    formatOfPieces r d f (.ofText code :: rest) = registerText r d code >>= fun x =>
      formatOfPieces r x.2 (f.addHole x.1) rest := by
  rw [formatOfPieces]
  cases registerText r d code <;> rfl

/-! ## Elements -/

/-- The attributes of an element are read in order, each under a name of its own. -/
theorem readAttributes_cons (shape : ElementShape) (seen : List String) (a : Attr) (rest : List Attr) :
    readAttributes r d shape seen (a :: rest) =
      if seen.contains (Text.lowercase a.name.tag) then .error (.repeatedAttribute (Text.lowercase a.name.tag))
      else readAttribute r d shape a (Text.lowercase a.name.tag) >>= fun x =>
        readAttributes r x.2 x.1 (Text.lowercase a.name.tag :: seen) rest := by
  rw [readAttributes]
  cases readAttribute r d shape a (Text.lowercase a.name.tag) <;> rfl

/-- What stands apart from an element is not read. -/
theorem readNode_element (path : List Nat) (name : QName) (attrs : List Attr) (apart : Bool)
    (children : List Markup) :
    readNode r d path (.element name attrs apart children) =
      if name.tag = extensionPointTag then
        if d.extensionPoint.isSome then .error .secondExtensionPoint
        else .ok ([.extensionPoint], { d with extensionPoint := some path })
      else if name.tag = propertyTag ∨ name.tag = attributeTag then .error (.misplacedDeclaration name.tag)
      else readAttributes r d { name := name } [] attrs >>= fun x =>
        (if apart then .ok ([], x.2) else readNodes r x.2 path [] children) >>= fun y =>
          .ok ([.element x.1 y.1], y.2) := by
  rw [readNode]
  cases readAttributes r d { name := name } [] attrs with
  | error e => rfl
  | ok x =>
    cases apart with
    | true => rfl
    | false =>
      simp only [bind, Except.bind, Bool.false_eq_true, if_false]
      cases readNodes r x.2 path [] children <;> rfl

theorem readNodes_cons (path : List Nat) (read : List ViewNode) (m : Markup) (ms : List Markup) :
    readNodes r d path read (m :: ms) = readNode r d (path ++ [read.length]) m >>= fun x =>
      readNodes r x.2 path (read ++ x.1) ms := by
  rw [readNodes]
  cases readNode r d (path ++ [read.length]) m <;> rfl

end ReactiveView.Template
