import ReactiveView.Proofs.Template.Stages
import ReactiveView.Proofs.Template.Walk

/-!
# What a view asks of its class

Reading a view mixes two things: it makes the shape of the view, and it checks or extends what is known of the
class. This module separates the second from the first. The *demands* of a view are what the reader comes across
that concerns the class, in the order in which it does (`demands`): text and element substitutions, handlers, keys,
extension points, and what is refused in any class. `meet` says what a draft becomes when it meets one demand, if
it can, and `meets` is the same for a list of demands.

`outcome_readNode` states that reading a view ends well exactly when the draft can meet its demands, one after the
other, and leaves the draft that has met them. Only the path of the extension point, which depends on the shape of
the view, is left out (`Draft.blind`).
-/

set_option autoImplicit false

namespace ReactiveView.Template

/-! ## Demands -/

/-- One thing that a view asks of its class. -/
inductive Demand where
  /-- The inside of a text substitution, in a text or in the value of an attribute. -/
  | text (code : List Char)
  /-- The inside of an element substitution. -/
  | element (code : List Char)
  /-- A handler that is written in an attribute. -/
  | handler (attrName event body : String)
  /-- A key under which an element is exposed. -/
  | expose (key : String)
  /-- A place for the views of subclasses. -/
  | point
  /-- Something that no class takes. -/
  | refused
deriving DecidableEq, Repr

/-- What a piece of a text asks for. -/
def textDemands : Piece → List Demand
  | .plain _ => []
  | .ofText code => [.text code]
  | .ofElement code => [.element code]
  | .fault _ => [.refused]

/-- What a piece of the value of an attribute asks for; elements are not substituted in values. -/
def valueDemands : Piece → List Demand
  | .plain _ => []
  | .ofText code => [.text code]
  | .ofElement _ => []
  | .fault _ => [.refused]

/-- What an attribute asks for, `name` being its name in lower case. -/
def attrDemands (a : Attr) (name : String) : List Demand :=
  match afterLead? "childon" name with
  | some event => [.handler name event a.value]
  | none =>
    match afterLead? "domon" name with
    | some event => [.handler name event a.value]
    | none =>
      if (afterLead? "on" name).isSome then [.refused]
      else if name = "ooml-expose" then [.expose (Text.trimmed a.value)]
      else if hasHoles a.value.toList then
        (valuePieces .bracesNotClosed a.value.toList).flatMap valueDemands
      else []

/-- The names of attributes in lower case. -/
def lowerNames (attrs : List Attr) : List String := attrs.map fun a => Text.lowercase a.name.tag

/-- What the attributes of an element ask for; no two of them may have the same name. -/
def attrsDemands (attrs : List Attr) : List Demand :=
  (attrs.flatMap fun a => attrDemands a (Text.lowercase a.name.tag)) ++
    if (lowerNames attrs).Nodup then [] else [.refused]

mutual

/-- What a tree asks for. -/
def demands : Markup → List Demand
  | .text s => (textPieces s.toList).flatMap textDemands
  | .comment _ => []
  | .element name attrs apart children =>
    if name.tag = extensionPointTag then [.point]
    else if name.tag = propertyTag ∨ name.tag = attributeTag then [.refused]
    else attrsDemands attrs ++ if apart then [] else demandsAll children

/-- What a list of trees asks for. -/
def demandsAll : List Markup → List Demand
  | [] => []
  | m :: ms => demands m ++ demandsAll ms

end

/-! ## Meeting a demand -/

/-- What a substitution claims of the property that it names. -/
inductive Claim where
  | primitive (types : Option (List PrimitiveType))
  | element (isArray : Bool) (type : ElementType)

/-- The kind of a property that has the site of an element. -/
def siteKind (isArray : Bool) (type : ElementType) : PropertyKind :=
  if isArray then .sequence type else .slot type

namespace Claim

/-- What the first claim makes of a property that was not known before. -/
def first (name : String) : Claim → PropertyDescriptor
  | .primitive types => { PropertyDescriptor.ofTypes name types with hasSite := true }
  | .element isArray type => { name := name, kind := siteKind isArray type, default := .null, hasSite := true }

/-- The kind of a property after a claim, if the claim fits; an element has only one site. -/
def kind? (hasSite : Bool) (c : Claim) (known : PropertyKind) : Option PropertyKind :=
  match c with
  | .primitive types =>
    match known, types with
    | .primitive (some ks), some ts => if sameTypes ks ts then some known else none
    | .primitive none, some ts => some (.primitive (some ts))
    | .primitive _, none => some known
    | _, _ => none
  | .element isArray type => if hasSite || known.types?.isSome then none else some (siteKind isArray type)

/-- The property after a claim, if the claim fits. -/
def on (name : String) (c : Claim) : Option PropertyDescriptor → Option PropertyDescriptor
  | none => some (c.first name)
  | some p => (c.kind? p.hasSite p.kind).map fun kind => { p with kind := kind, hasSite := true }

end Claim

/-- What a demand changes of a draft. -/
inductive Act where
  | nothing
  | claim (name : String) (c : Claim)
  | key (key : String)
  | point

namespace Draft

/-- The draft without the path of its extension point. -/
def blind (d : Draft) : Draft := { d with extensionPoint := d.extensionPoint.map fun _ => [] }

/-- Puts a property in the place of the one with its name, or adds it. -/
def put (d : Draft) (p : PropertyDescriptor) : Draft :=
  if (d.property? p.name).isSome then d.setProperty p else d.addProperty p

theorem put_blind_of_none {d : Draft} {p : PropertyDescriptor} {name : String} (h : d.property? name = none)
    (hp : p.name = name) : d.blind.put p = (d.addProperty p).blind := by
  subst hp
  refine if_neg ?_
  change ¬ (d.property? p.name).isSome = true
  rw [h]
  exact Bool.false_ne_true

theorem put_blind_of_some {d : Draft} {p q : PropertyDescriptor} {name : String} (h : d.property? name = some q)
    (hp : p.name = name) : d.blind.put p = (d.setProperty p).blind := by
  subst hp
  refine if_pos ?_
  change (d.property? p.name).isSome = true
  rw [h]
  rfl

/-- The draft after an act, if that is possible. -/
def perform (d : Draft) : Act → Option Draft
  | .nothing => some d
  | .claim name c => (c.on name (d.property? name)).map d.put
  | .key key => if d.exposeKeys.contains key then none else some { d with exposeKeys := d.exposeKeys ++ [key] }
  | .point => if d.extensionPoint.isSome then none else some { d with extensionPoint := some [] }

end Draft

/-- An attribute is only looked up. -/
def attributeAct? (d : Draft) (declared : Option String) (name : String) : Option Act :=
  (registerAttribute d declared name).toOption.map fun _ => .nothing

/-- A property that is substituted as a text is claimed. -/
def primitiveAct? (r : Reading) (d : Draft) (declared : Option String) (name : String) : Option Act :=
  if !isPropertyName r.strict name || d.isMethod name then none
  else (declaredTypes declared).toOption.map fun types => .claim name (.primitive types)

/-- The act that the inside of a text substitution amounts to. -/
def textAct? (r : Reading) (d : Draft) (code : List Char) : Option Act :=
  match textSubstitution? code with
  | none => none
  | some (declared, .attr name) => attributeAct? d declared name
  | some (declared, .property name) => primitiveAct? r d declared name

/-- The act that the inside of an element substitution amounts to. -/
def elementAct? (r : Reading) (d : Draft) (code : List Char) : Option Act :=
  match elementSubstitution? code with
  | none => none
  | some phrase =>
    if !isPropertyName r.strict phrase.property || d.isMethod phrase.property then none
    else (elementType r phrase.className).toOption.map fun element =>
      .claim phrase.property (.element phrase.isArray element)

/-- The act that a demand amounts to; the draft is asked for its attributes and methods only. -/
def Demand.act? (r : Reading) (d : Draft) : Demand → Option Act
  | .text code => textAct? r d code
  | .element code => elementAct? r d code
  | .handler attrName event body => (readHandler d attrName event body).toOption.map fun _ => .nothing
  | .expose key => if isExposeKey key then some (.key key) else none
  | .point => some .point
  | .refused => none

/-- The draft after a demand has been met. -/
def meet (r : Reading) (d : Draft) (x : Demand) : Option Draft := (x.act? r d).bind d.perform

/-- The draft after demands have been met, one after the other. -/
def meets (r : Reading) (d : Draft) (xs : List Demand) : Option Draft := xs.foldlM (meet r) d

variable {r : Reading} {d : Draft}

theorem meets_cons (x : Demand) (xs : List Demand) : meets r d (x :: xs) = (meet r d x).bind fun d => meets r d xs :=
  rfl

theorem meets_singleton (x : Demand) : meets r d [x] = meet r d x := by
  rw [meets_cons]
  cases meet r d x <;> rfl

theorem meets_append (xs ys : List Demand) : meets r d (xs ++ ys) = (meets r d xs).bind fun d => meets r d ys :=
  List.foldlM_append

/-- Nothing follows what is refused. -/
theorem meets_of_refused {xs : List Demand} (h : .refused ∈ xs) : meets r d xs = none := by
  induction xs generalizing d with
  | nil => exact absurd h List.not_mem_nil
  | cons x xs ih =>
    rw [meets_cons]
    rcases List.mem_cons.1 h with rfl | h
    · rfl
    · rw [Option.bind_eq_none_iff]
      exact fun d _ => ih h

/-! ## Outcomes -/

section Outcome

variable {α β : Type}

/-- The draft that a reader leaves, if it ends well. -/
def outcome (x : Except Error (α × Draft)) : Option Draft := x.toOption.map fun y => y.2.blind

theorem outcome_ok (a : α) (d : Draft) : outcome (.ok (a, d)) = some d.blind := rfl

theorem outcome_map (x : Except Error (α × Draft)) {f : α × Draft → β × Draft} (hf : ∀ y, (f y).2 = y.2) :
    outcome (x.map f) = outcome x := by
  cases x with
  | error e => rfl
  | ok y =>
    change some (f y).2.blind = some y.2.blind
    rw [hf]

theorem outcome_bind {x : Except Error (α × Draft)} {k : α × Draft → Except Error (β × Draft)}
    {f : Draft → Option Draft} (hk : ∀ y, x = .ok y → outcome (k y) = f y.2.blind) :
    outcome (x >>= k) = (outcome x).bind f := by
  cases x with
  | error e => rfl
  | ok y => exact hk y rfl

end Outcome

/-! ## Substitutions -/

theorem attributeAct?_congr {e : Draft} (h : e.attributes = d.attributes) (declared : Option String) (name : String) :
    attributeAct? e declared name = attributeAct? d declared name := by
  unfold attributeAct? registerAttribute Draft.attribute?
  rw [h]
  (repeat' split) <;> rfl

theorem blind_registerAttribute (declared : Option String) (name : String) :
    (registerAttribute d declared name).toOption.map Draft.blind =
      (attributeAct? d.blind declared name).bind d.blind.perform := by
  have hsame (d' : Draft) (h : registerAttribute d declared name = .ok d') : d' = d := by
    unfold registerAttribute at h
    (repeat' split at h) <;> cases h <;> rfl
  rw [attributeAct?_congr (d := d) (e := d.blind) rfl]
  unfold attributeAct?
  cases h : registerAttribute d declared name with
  | error e => rfl
  | ok d' =>
    rw [hsame d' h]
    rfl

theorem blind_registerPrimitive (declared : Option String) (name : String) :
    (registerPrimitive r d declared name).toOption.map Draft.blind =
      (primitiveAct? r d.blind declared name).bind d.blind.perform := by
  change _ = (if !isPropertyName r.strict name || d.isMethod name then none else _).bind _
  unfold registerPrimitive
  -- the name and the types are checked first, and in the same way
  cases isPropertyName r.strict name with
  | false => rfl
  | true =>
    cases d.isMethod name with
    | true => rfl
    | false =>
      cases declaredTypes declared with
      | error e => rfl
      | ok types =>
        change _ = ((Claim.primitive types).on name (d.property? name)).map d.blind.put
        cases hp : d.property? name with
        | none => exact congrArg some (Draft.put_blind_of_none hp rfl).symm
        | some p =>
          have hname := (Draft.property?_some hp).2
          have hput {q : PropertyDescriptor} (hq : q.name = name) :
              some (d.setProperty q).blind = (some q).map d.blind.put :=
            congrArg some (Draft.put_blind_of_some hp hq).symm
          dsimp only [Claim.on, Claim.kind?]
          cases p.kind with
          | slot e => rfl
          | sequence e => rfl
          | primitive known =>
            cases known with
            | none => cases types <;> exact hput hname
            | some ks =>
              cases types with
              | none => exact hput hname
              | some ts =>
                dsimp only
                cases sameTypes ks ts with
                | false => rfl
                | true => exact hput hname

theorem outcome_registerText (code : List Char) :
    outcome (registerText r d code) = meet r d.blind (.text code) := by
  have houtcome {x : Except Error Draft} (source : Source) :
      outcome (x.map fun d => (source, d)) = x.toOption.map Draft.blind := by
    cases x <;> rfl
  change _ = (textAct? r d.blind code).bind d.blind.perform
  unfold registerText textAct?
  cases textSubstitution? code with
  | none => rfl
  | some x =>
    obtain ⟨declared, name | name⟩ := x
    · exact (houtcome _).trans (blind_registerPrimitive declared name)
    · exact (houtcome _).trans (blind_registerAttribute declared name)

theorem outcome_registerElement (code : List Char) :
    outcome (registerElement r d code) = meet r d.blind (.element code) := by
  change _ = (elementAct? r d.blind code).bind d.blind.perform
  unfold registerElement elementAct?
  cases elementSubstitution? code with
  | none => rfl
  | some phrase =>
    change _ = (if !isPropertyName r.strict phrase.property || d.isMethod phrase.property then none else _).bind _
    dsimp only
    cases isPropertyName r.strict phrase.property with
    | false => rfl
    | true =>
      cases d.isMethod phrase.property with
      | true => rfl
      | false =>
        cases elementType r phrase.className with
        | error e => rfl
        | ok element =>
          change _ = ((Claim.element _ _).on phrase.property (d.property? phrase.property)).map d.blind.put
          cases hp : d.property? phrase.property with
          | none =>
            exact congrArg some (Draft.put_blind_of_none hp rfl).symm
          | some p =>
            dsimp only [Claim.on, Claim.kind?]
            cases p.hasSite with
            | true => rfl
            | false =>
              cases p.kind.types?.isSome with
              | true => rfl
              | false =>
                refine congrArg some (Draft.put_blind_of_some hp ?_).symm
                exact (Draft.property?_some hp).2

/-! ## Texts and values -/

theorem outcome_nodesOfPieces (pieces : List Piece) :
    outcome (nodesOfPieces r d pieces) = meets r d.blind (pieces.flatMap textDemands) := by
  induction pieces generalizing d with
  | nil => rfl
  | cons piece rest ih =>
    let afterwards (d : Draft) := meets r d (rest.flatMap textDemands)
    have hmap {x : Except Error (List ViewNode × Draft)} (v : ViewNode) :
        outcome (x.map fun y => (v :: y.1, y.2)) = outcome x := outcome_map x fun _ => rfl
    cases piece with
    | plain s => exact (hmap _).trans ih
    | ofText code =>
      rw [nodesOfPieces_ofText, outcome_bind (f := afterwards) fun y _ => (hmap _).trans ih, outcome_registerText]
      rfl
    | ofElement code =>
      rw [nodesOfPieces_ofElement, outcome_bind (f := afterwards) fun y _ => (hmap _).trans ih,
        outcome_registerElement]
      rfl
    | fault e => rfl

theorem outcome_formatOfPieces (f : Format) (pieces : List Piece) :
    outcome (formatOfPieces r d f pieces) = meets r d.blind (pieces.flatMap valueDemands) := by
  induction pieces generalizing d f with
  | nil => rfl
  | cons piece rest ih =>
    cases piece with
    | plain s => exact ih _
    | ofText code =>
      rw [formatOfPieces_ofText, outcome_bind (f := fun d => meets r d (rest.flatMap valueDemands)) fun y _ => ih _,
        outcome_registerText]
      rfl
    | ofElement code => exact ih _
    | fault e => rfl

/-! ## Attributes of elements -/

theorem eq_of_afterLead? {lead name rest : String} (h : afterLead? lead name = some rest) : name = lead ++ rest := by
  unfold afterLead? at h
  split at h
  · next hlead =>
    obtain ⟨cs, hcs⟩ := List.isPrefixOf_iff_prefix.1 hlead
    obtain rfl := Option.some.inj h
    rw [← String.toList_inj, String.toList_append, String.toList_ofList, ← hcs, ← String.length_toList,
      List.drop_left]
  · cases h

/-- The handlers that a shape has so far come from attributes that have been read. -/
structure Known (shape : ElementShape) (seen : List String) : Prop where
  domHandlers : ∀ event, shape.domHandlers.contains event = true → "domon" ++ event ∈ seen
  childHandlers : ∀ event, shape.childHandlers.contains event = true → "childon" ++ event ∈ seen

theorem eq_or_contains_of_contains_insert {handlers : Dict String Handler} {event other : String} {handler : Handler}
    (h : (handlers.insert event handler).contains other = true) : other = event ∨ handlers.contains other = true := by
  by_cases heq : event = other
  · exact .inl heq.symm
  · unfold Dict.contains at *
    rw [Dict.get?_insert_of_ne _ _ _ _ heq] at h
    exact .inr h

theorem known_domHandler {shape : ElementShape} {seen : List String} {event : String} (h : Known shape seen)
    (handler : Handler) :
    Known { shape with domHandlers := shape.domHandlers.insert event handler } (("domon" ++ event) :: seen) where
  domHandlers other hother := by
    rcases eq_or_contains_of_contains_insert hother with rfl | hother
    · exact .head _
    · exact .tail _ (h.domHandlers other hother)
  childHandlers other hother := .tail _ (h.childHandlers other hother)

theorem known_childHandler {shape : ElementShape} {seen : List String} {event : String} (h : Known shape seen)
    (handler : Handler) :
    Known { shape with childHandlers := shape.childHandlers.insert event handler } (("childon" ++ event) :: seen) where
  domHandlers other hother := .tail _ (h.domHandlers other hother)
  childHandlers other hother := by
    rcases eq_or_contains_of_contains_insert hother with rfl | hother
    · exact .head _
    · exact .tail _ (h.childHandlers other hother)

/-- A handler is met as it asks, wherever it is put. -/
theorem outcome_handler {seen : List String} (attrName event body : String) {put : Handler → ElementShape}
    (hput : ∀ handler, Known (put handler) seen) :
    outcome (readHandler d attrName event body >>= fun handler => .ok (put handler, d)) =
        meets r d.blind [.handler attrName event body] ∧
      ∀ y, (readHandler d attrName event body >>= fun handler => .ok (put handler, d)) = .ok y → Known y.1 seen := by
  rw [meets_singleton]
  change _ = ((readHandler d attrName event body).toOption.map fun _ => Act.nothing).bind d.blind.perform ∧ _
  cases readHandler d attrName event body with
  | error e => exact ⟨rfl, nofun⟩
  | ok handler =>
    refine ⟨rfl, fun y hy => ?_⟩
    obtain rfl := Except.ok.inj hy
    exact hput handler

/-- An attribute is met as it asks, and its name is one more that has been seen. -/
theorem outcome_readAttribute {shape : ElementShape} {seen : List String} {name : String} (h : Known shape seen)
    (hname : name ∉ seen) (a : Attr) :
    outcome (readAttribute r d shape a name) = meets r d.blind (attrDemands a name) ∧
      ∀ y, readAttribute r d shape a name = .ok y → Known y.1 (name :: seen) := by
  have hseen : Known shape (name :: seen) :=
    ⟨fun e he => .tail _ (h.domHandlers e he), fun e he => .tail _ (h.childHandlers e he)⟩
  unfold readAttribute attrDemands
  cases hchild : afterLead? "childon" name with
  | some event =>
    -- the name of the attribute is new, so there is no handler for the event
    obtain rfl := eq_of_afterLead? hchild
    have hnew : shape.childHandlers.contains event = false :=
      Bool.eq_false_iff.2 fun hcontains => hname (h.childHandlers event hcontains)
    dsimp only
    rw [hnew]
    exact outcome_handler _ event a.value (known_childHandler h)
  | none =>
    cases hdom : afterLead? "domon" name with
    | some event =>
      obtain rfl := eq_of_afterLead? hdom
      have hnew : shape.domHandlers.contains event = false :=
        Bool.eq_false_iff.2 fun hcontains => hname (h.domHandlers event hcontains)
      dsimp only
      rw [hnew]
      exact outcome_handler _ event a.value (known_domHandler h)
    | none =>
      dsimp only
      cases (afterLead? "on" name).isSome with
      | true => exact ⟨rfl, nofun⟩
      | false =>
        simp only [Bool.false_eq_true, if_false]
        split
        · -- a key is taken once
          rw [meets_singleton]
          change _ = (if isExposeKey (Text.trimmed a.value) then some (Act.key (Text.trimmed a.value)) else none).bind
            d.blind.perform ∧ _
          cases isExposeKey (Text.trimmed a.value) with
          | false => exact ⟨rfl, nofun⟩
          | true =>
            change _ = (if d.exposeKeys.contains (Text.trimmed a.value) then none else _) ∧ _
            cases d.exposeKeys.contains (Text.trimmed a.value) with
            | true => exact ⟨rfl, nofun⟩
            | false =>
              refine ⟨rfl, fun y hy => ?_⟩
              obtain rfl := Except.ok.inj hy
              exact ⟨hseen.domHandlers, hseen.childHandlers⟩
        · split
          · have hformat := outcome_formatOfPieces (r := r) (d := d) {} (valuePieces .bracesNotClosed a.value.toList)
            unfold readFormat
            rw [← hformat]
            cases formatOfPieces r d {} (valuePieces .bracesNotClosed a.value.toList) with
            | error e => exact ⟨rfl, nofun⟩
            | ok x =>
              refine ⟨rfl, fun y hy => ?_⟩
              obtain rfl := Except.ok.inj hy
              exact ⟨hseen.domHandlers, hseen.childHandlers⟩
          · refine ⟨rfl, fun y hy => ?_⟩
            obtain rfl := Except.ok.inj hy
            exact ⟨hseen.domHandlers, hseen.childHandlers⟩

/-- The attributes of an element are met as they ask, if their names are different and new. -/
theorem outcome_readAttributes {shape : ElementShape} {seen : List String} (h : Known shape seen) (attrs : List Attr) :
    outcome (readAttributes r d shape seen attrs) =
      if (lowerNames attrs).Nodup ∧ ∀ n ∈ lowerNames attrs, n ∉ seen then
        meets r d.blind (attrs.flatMap fun a => attrDemands a (Text.lowercase a.name.tag))
      else none := by
  induction attrs generalizing d shape seen with
  | nil => exact (if_pos ⟨List.nodup_nil, nofun⟩).symm
  | cons a rest ih =>
    have hnames : lowerNames (a :: rest) = Text.lowercase a.name.tag :: lowerNames rest := rfl
    rw [readAttributes_cons, hnames, List.flatMap_cons]
    generalize Text.lowercase a.name.tag = name
    let afterwards (d : Draft) :=
      if (lowerNames rest).Nodup ∧ ∀ n ∈ lowerNames rest, n ∉ name :: seen then
        meets r d (rest.flatMap fun a => attrDemands a (Text.lowercase a.name.tag))
      else none
    by_cases hname : name ∈ seen
    · rw [if_pos (List.contains_iff_mem.2 hname), if_neg fun hnew => hnew.2 name (.head _) hname]
      rfl
    · obtain ⟨hfirst, hknown⟩ := outcome_readAttribute (r := r) (d := d) h hname a
      have hiff : ((name :: lowerNames rest).Nodup ∧ ∀ n ∈ name :: lowerNames rest, n ∉ seen) ↔
          (lowerNames rest).Nodup ∧ ∀ n ∈ lowerNames rest, n ∉ name :: seen := by
        rw [List.nodup_cons, List.forall_mem_cons]
        simp only [List.mem_cons, not_or]
        constructor
        · rintro ⟨⟨hfresh, hnodup⟩, -, hrest⟩
          exact ⟨hnodup, fun n hn => ⟨fun heq => hfresh (heq ▸ hn), hrest n hn⟩⟩
        · rintro ⟨hnodup, hrest⟩
          exact ⟨⟨fun hn => (hrest name hn).1 rfl, hnodup⟩, hname, fun n hn => (hrest n hn).2⟩
      rw [if_neg (mt List.contains_iff_mem.1 hname), outcome_bind (f := afterwards) fun y hy => ih (hknown y hy),
        hfirst]
      simp only [hiff, afterwards]
      split
      · exact (meets_append _ _).symm
      · cases meets r d.blind (attrDemands a name) <;> rfl

theorem outcome_attrsDemands (name : QName) (attrs : List Attr) :
    outcome (readAttributes r d { name := name } [] attrs) = meets r d.blind (attrsDemands attrs) := by
  have hnone : Known { name := name } [] :=
    ⟨fun _ h => absurd h Bool.false_ne_true, fun _ h => absurd h Bool.false_ne_true⟩
  rw [outcome_readAttributes hnone]
  unfold attrsDemands
  by_cases hnodup : (lowerNames attrs).Nodup
  · rw [if_pos ⟨hnodup, fun _ _ => List.not_mem_nil⟩, if_pos hnodup, List.append_nil]
  · rw [if_neg fun h => hnodup h.1, if_neg hnodup,
      meets_of_refused (List.mem_append_right _ List.mem_cons_self)]

/-! ## Nodes -/

mutual

/-- Reading a tree ends well exactly when the draft can meet what the tree asks for, and leaves it so. -/
theorem outcome_readNode : ∀ (m : Markup) (d : Draft) (path : List Nat),
    outcome (readNode r d path m) = meets r d.blind (demands m)
  | .text s, d, path => outcome_nodesOfPieces _
  | .comment s, d, path => rfl
  | .element name attrs apart children, d, path => by
    rw [readNode_element, demands]
    split
    · -- an extension point is the only one
      rw [meets_singleton]
      change _ = if (d.extensionPoint.map fun _ => []).isSome then none else _
      rw [Option.isSome_map]
      cases hpoint : d.extensionPoint with
      | some place => rfl
      | none => rfl
    · split
      · rfl
      · have hchildren (x : ElementShape × Draft) :
            outcome (if apart then .ok ([], x.2) else readNodes r x.2 path [] children) =
              meets r x.2.blind (if apart then [] else demandsAll children) := by
          cases apart with
          | true => rfl
          | false => exact outcome_readNodes children x.2 path []
        rw [meets_append, ← outcome_attrsDemands name]
        refine outcome_bind fun x _ => ?_
        rw [← hchildren]
        exact (outcome_bind fun y _ => outcome_ok _ y.2).trans (Option.bind_fun_some _)

theorem outcome_readNodes : ∀ (ms : List Markup) (d : Draft) (path : List Nat) (read : List ViewNode),
    outcome (readNodes r d path read ms) = meets r d.blind (demandsAll ms)
  | [], d, path, read => by rw [readNodes, demandsAll]; rfl
  | m :: ms, d, path, read => by
    rw [readNodes_cons, demandsAll, meets_append, ← outcome_readNode m d (path ++ [read.length])]
    exact outcome_bind fun y _ => outcome_readNodes ms y.2 path (read ++ y.1)

end

end ReactiveView.Template
