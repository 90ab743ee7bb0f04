import ReactiveView.Proofs.Template.Composition
import ReactiveView.Proofs.Template.Stages

/-!
# Strict and loose names of properties

The reader asks in a few places whether a name can be that of a property: at the declaration of a property and
at each substitution of one. In the strict setting it takes fewer names there. `Narrows` says of a reading in
either setting that this is the whole difference: both end alike, errors included, or the strict one is refused
for a name that the loose one takes. There is one lemma for each function of the reader that asks, or calls one
that does; whatever runs afterwards runs from the same draft.

`parse_loose_of_strict` draws the conclusion for whole templates.
-/

set_option autoImplicit false

namespace ReactiveView.Template

/-- Either both end alike, or the first is refused for a name that is a loose one only. -/
def Narrows {α : Type} (x y : Except Error α) : Prop :=
  x = y ∨ ∃ name, isPropertyName true name = false ∧ isPropertyName false name = true ∧
    x = .error (.badPropertyName name)

section Basic

variable {α β : Type} {x y : Except Error α}

theorem narrows_rfl : Narrows x x := Or.inl rfl

/-- What the first gives, the second gives. -/
theorem Narrows.ok (h : Narrows x y) {a : α} (hx : x = .ok a) : y = .ok a := by
  rcases h with rfl | ⟨name, -, -, herror⟩
  · exact hx
  · rw [herror] at hx
    cases hx

theorem Narrows.bind (h : Narrows x y) {k l : α → Except Error β} (hk : ∀ a, Narrows (k a) (l a)) :
    Narrows (x >>= k) (y >>= l) := by
  rcases h with rfl | ⟨name, hstrict, hloose, rfl⟩
  · cases x with
    | error e => exact narrows_rfl
    | ok a => exact hk a
  · exact Or.inr ⟨name, hstrict, hloose, rfl⟩

theorem Narrows.map (h : Narrows x y) (f : α → β) : Narrows (x.map f) (y.map f) := by
  rcases h with rfl | ⟨name, hstrict, hloose, rfl⟩
  · exact narrows_rfl
  · exact Or.inr ⟨name, hstrict, hloose, rfl⟩

/-- The one test that depends on the setting. -/
theorem narrows_propertyName (name : String) :
    Narrows (if !isPropertyName true name then .error (.badPropertyName name) else x)
      (if !isPropertyName false name then .error (.badPropertyName name) else x) := by
  cases hstrict : isPropertyName true name with
  | true =>
    rw [isPropertyName_mono name hstrict]
    exact narrows_rfl
  | false =>
    cases hloose : isPropertyName false name with
    | true => exact Or.inr ⟨name, hstrict, hloose, rfl⟩
    | false => exact narrows_rfl

end Basic

variable {resolve : Resolver} {d : Draft}

/-! ## Declarations -/

theorem narrows_declareProperty (decl : Markup) :
    Narrows (declareProperty true d decl) (declareProperty false d decl) := by
  unfold declareProperty
  cases decl.attr? "name" with
  | none => exact narrows_rfl
  | some name => exact narrows_propertyName name

theorem narrows_declareAll (decls : List Markup) :
    Narrows (declareAll (declareProperty true) d decls) (declareAll (declareProperty false) d decls) := by
  induction decls generalizing d with
  | nil => exact narrows_rfl
  | cons decl decls ih =>
    rw [declareAll_cons, declareAll_cons]
    exact (narrows_declareProperty decl).bind fun d => ih

/-! ## Substitutions -/

theorem narrows_registerText (code : List Char) :
    Narrows (registerText ⟨resolve, true⟩ d code) (registerText ⟨resolve, false⟩ d code) := by
  unfold registerText
  split
  · exact narrows_rfl
  · exact narrows_rfl
  · next declared name _ => exact Narrows.map (narrows_propertyName name) _

theorem narrows_registerElement (code : List Char) :
    Narrows (registerElement ⟨resolve, true⟩ d code) (registerElement ⟨resolve, false⟩ d code) := by
  unfold registerElement
  split
  · exact narrows_rfl
  · next phrase _ => exact narrows_propertyName phrase.property

/-! ## The walk through the view -/

theorem narrows_nodesOfPieces (pieces : List Piece) :
    Narrows (nodesOfPieces ⟨resolve, true⟩ d pieces) (nodesOfPieces ⟨resolve, false⟩ d pieces) := by
  induction pieces generalizing d with
  | nil => exact narrows_rfl
  | cons piece rest ih =>
    cases piece with
    | plain s => exact ih.map _
    | ofText code =>
      rw [nodesOfPieces_ofText, nodesOfPieces_ofText]
      exact (narrows_registerText code).bind fun _ => ih.map _
    | ofElement code =>
      rw [nodesOfPieces_ofElement, nodesOfPieces_ofElement]
      exact (narrows_registerElement code).bind fun _ => ih.map _
    | fault e => exact narrows_rfl

theorem narrows_formatOfPieces (f : Format) (pieces : List Piece) :
    Narrows (formatOfPieces ⟨resolve, true⟩ d f pieces) (formatOfPieces ⟨resolve, false⟩ d f pieces) := by
  induction pieces generalizing d f with
  | nil => exact narrows_rfl
  | cons piece rest ih =>
    cases piece with
    | plain s => exact ih _
    | ofText code =>
      rw [formatOfPieces_ofText, formatOfPieces_ofText]
      exact (narrows_registerText code).bind fun _ => ih _
    | ofElement code => exact ih f
    | fault e => exact narrows_rfl

theorem narrows_readAttribute (shape : ElementShape) (a : Attr) (name : String) :
    Narrows (readAttribute ⟨resolve, true⟩ d shape a name) (readAttribute ⟨resolve, false⟩ d shape a name) := by
  unfold readAttribute
  -- only the value with holes is read in the setting
  split
  · exact narrows_rfl
  · split
    · exact narrows_rfl
    · split
      · exact narrows_rfl
      · split
        · exact narrows_rfl
        · dsimp only
          split
          · exact Narrows.bind (narrows_formatOfPieces {} _) fun _ => narrows_rfl
          · exact narrows_rfl

theorem narrows_readAttributes (shape : ElementShape) (seen : List String) (as : List Attr) :
    Narrows (readAttributes ⟨resolve, true⟩ d shape seen as)
      (readAttributes ⟨resolve, false⟩ d shape seen as) := by
  induction as generalizing d shape seen with
  | nil => exact narrows_rfl
  | cons a rest ih =>
    rw [readAttributes_cons, readAttributes_cons]
    split
    · exact narrows_rfl
    · exact (narrows_readAttribute shape a _).bind fun _ => ih _ _

mutual

theorem narrows_readNode : ∀ (m : Markup) (d : Draft) (path : List Nat),
    Narrows (readNode ⟨resolve, true⟩ d path m) (readNode ⟨resolve, false⟩ d path m)
  | .text s, d, path => by
    unfold readNode
    exact narrows_nodesOfPieces _
  | .comment s, d, path => by
    unfold readNode
    exact narrows_rfl
  | .element name attrs apart children, d, path => by
    rw [readNode_element, readNode_element]
    split
    · exact narrows_rfl
    · split
      · exact narrows_rfl
      · refine (narrows_readAttributes { name := name } [] attrs).bind fun x => Narrows.bind ?_ fun _ => narrows_rfl
        split
        · exact narrows_rfl
        · exact narrows_readNodes children x.2 path []

theorem narrows_readNodes : ∀ (ms : List Markup) (d : Draft) (path : List Nat) (read : List ViewNode),
    Narrows (readNodes ⟨resolve, true⟩ d path read ms) (readNodes ⟨resolve, false⟩ d path read ms)
  | [], d, path, read => by
    unfold readNodes
    exact narrows_rfl
  | m :: ms, d, path, read => by
    rw [readNodes_cons, readNodes_cons]
    exact (narrows_readNode m d _).bind fun _ => narrows_readNodes ms _ path _

end

theorem narrows_ownView (definition : Definition) (inherited : Option Descriptor) :
    Narrows (ownView ⟨resolve, true⟩ definition inherited) (ownView ⟨resolve, false⟩ definition inherited) := by
  unfold ownView declared
  refine Narrows.bind ?_ fun x => ?_
  · -- methods come first, and are named alike in either setting
    refine narrows_rfl.bind fun d => narrows_rfl.bind fun parts => narrows_rfl.bind fun d => ?_
    exact (narrows_declareAll parts.properties).bind fun _ => narrows_rfl
  · obtain ⟨d, root⟩ := x
    cases root with
    | none => exact narrows_rfl
    | some m => exact (narrows_readNode m d []).map _

/-! ## Whole templates -/

/-- A template is read alike in either setting, or refused in the strict one for a name that is a loose one
only. -/
theorem narrows_parse (definition : Definition) (parent : Option (ClassRef × Descriptor)) :
    Narrows (parse ⟨resolve, true⟩ definition parent) (parse ⟨resolve, false⟩ definition parent) := by
  rw [parse_eq, parse_eq]
  exact (narrows_ownView definition _).bind fun _ => narrows_rfl

/-- What is read with strict names is read the same with loose ones: for every template, with any parent and
any methods, and however classes are resolved. -/
theorem parse_loose_of_strict (resolve : Resolver) (definition : Definition)
    (parent : Option (ClassRef × Descriptor)) {d : Descriptor}
    (h : parse ⟨resolve, true⟩ definition parent = .ok d) :
    parse ⟨resolve, false⟩ definition parent = .ok d :=
  (narrows_parse definition parent).ok h

/-- The template of the card, which names its properties strictly. -/
def cardDefinition : Definition := { header := ⟨"Card", false, none⟩, template := Descriptor.cardTemplate }

/-- The card is read in the strict setting, and so in the loose one. -/
theorem parse_loose_of_strict_card : ∃ d : Descriptor,
    parse ⟨fun _ => some ⟨⟨0⟩, "Card"⟩, true⟩ cardDefinition none = .ok d ∧
      parse ⟨fun _ => some ⟨⟨0⟩, "Card"⟩, false⟩ cardDefinition none = .ok d ∧
      d.propertyNames = ["title", "next"] := by
  have hnames : ((parse ⟨fun _ => some ⟨⟨0⟩, "Card"⟩, true⟩ cardDefinition none).toOption.any
      fun d => d.propertyNames == ["title", "next"]) = true := by
    decide +kernel
  cases hparse : parse ⟨fun _ => some ⟨⟨0⟩, "Card"⟩, true⟩ cardDefinition none with
  | error e =>
    rw [hparse] at hnames
    cases hnames
  | ok d =>
    rw [hparse] at hnames
    exact ⟨d, rfl, parse_loose_of_strict _ cardDefinition none hparse, eq_of_beq hnames⟩

end ReactiveView.Template
