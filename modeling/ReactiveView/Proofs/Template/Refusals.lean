import ReactiveView.Proofs.Template.Cutting
import ReactiveView.Template.Parse

/-!
# What reading a template reports

Reading a template fails on account of what the template says: none of the functions of the reader ends with
an error of the kind for inner conditions, and none but the reading of an element substitution ends with the
error for a class that is not known (`Blames`). Putting the own view into that of the parent would end with an
error for an inner condition if the recorded extension point led nowhere; that this does not happen is shown
where views are composed. There is one lemma for each function, from the types of a declaration up to the root
element and the settling of properties.
-/

set_option autoImplicit false

namespace ReactiveView.Template

/-- If it fails, then not for an inner condition. -/
def Reports {α : Type} (x : Except Error α) : Prop := ∀ e, x = .error e → e.kind ≠ .logicKind

/-- An error about the template itself: neither an inner condition nor a class that is not known. -/
def Plain (e : Error) : Prop := e.kind ≠ .logicKind ∧ ∀ n, e ≠ .unknownClass n

/-- If it fails, then not for an inner condition, and for a class that is not known only if that is lost. -/
def Blames {α : Type} (lost : String → Prop) (x : Except Error α) : Prop :=
  ∀ e, x = .error e → e.kind ≠ .logicKind ∧ ∀ n, e = .unknownClass n → lost n

section Basic

variable {α β : Type} {lost : String → Prop} {x : Except Error α}

theorem Blames.reports (hx : Blames lost x) : Reports x := fun e he => (hx e he).1

theorem reports_ok (a : α) : Reports (.ok a : Except Error α) := fun _ h => by cases h

theorem reports_error {e : Error} (h : e.kind ≠ .logicKind) : Reports (.error e : Except Error α) :=
  fun _ he => Except.error.inj he ▸ h

theorem Reports.bind {f : α → Except Error β} (hx : Reports x) (hf : ∀ a, x = .ok a → Reports (f a)) :
    Reports (x >>= f) := by
  cases x with
  | error e => exact reports_error (hx e rfl)
  | ok a => exact hf a rfl

theorem blames_ok (a : α) : Blames lost (.ok a : Except Error α) := fun _ h => by cases h

theorem blames_error {e : Error} (h : Plain e) : Blames lost (.error e : Except Error α) := by
  intro e' he
  cases he
  exact ⟨h.1, fun n hn => absurd hn (h.2 n)⟩

/-- What a failed part blames may be blamed on. -/
theorem Blames.again {e : Error} (hx : Blames lost x) (h : x = .error e) :
    Blames lost (.error e : Except Error β) := by
  intro e' he
  cases he
  exact hx e h

theorem Blames.bind {f : α → Except Error β} (hx : Blames lost x) (hf : ∀ a, x = .ok a → Blames lost (f a)) :
    Blames lost (x >>= f) := by
  cases x with
  | error e => exact hx.again rfl
  | ok a => exact hf a rfl

theorem Blames.map {f : α → β} (hx : Blames lost x) : Blames lost (x.map f) := by
  cases x with
  | error e => exact hx.again rfl
  | ok a => exact blames_ok (f a)

end Basic

variable {r : Reading} {d : Draft} {lost : String → Prop}

/-! ## Types, defaults and bindings -/

theorem blames_parseTags (read : List PrimitiveType) (words : List String) :
    Blames lost (parseTags read words) := by
  induction words generalizing read with
  | nil => exact blames_ok read
  | cons word words ih =>
    unfold parseTags
    split
    · exact blames_error ⟨nofun, nofun⟩
    · split
      · exact blames_error ⟨nofun, nofun⟩
      · split
        · exact blames_error ⟨nofun, nofun⟩
        · exact ih _

theorem blames_parseTypes (declaration : String) : Blames lost (parseTypes declaration) :=
  blames_parseTags _ _

theorem blames_declaredTypes (declared : Option String) : Blames lost (declaredTypes declared) := by
  cases declared with
  | none => exact blames_ok none
  | some declaration => exact (blames_parseTypes declaration).map

theorem blames_writtenTypes (decl : Markup) : Blames lost (writtenTypes decl) := by
  unfold writtenTypes
  split
  · exact blames_ok none
  · exact (blames_parseTypes _).map

theorem blames_writtenDefault (decl : Markup) : Blames lost (writtenDefault decl) := by
  unfold writtenDefault
  dsimp only
  split
  · exact blames_ok none
  · split
    · exact blames_ok _
    · exact blames_error ⟨nofun, nofun⟩

theorem blames_checkDefault (name : String) (v : Value) (types : Option (List PrimitiveType)) :
    Blames lost (checkDefault name v types) := by
  unfold checkDefault
  split
  · exact blames_error ⟨nofun, nofun⟩
  · split
    · split
      · exact blames_ok ()
      · exact blames_error ⟨nofun, nofun⟩
    · exact blames_ok ()

/-- The fault of a value is that an opening has no closing. -/
theorem eq_of_fault_mem_valuePieces {fault e : Error} {cs : List Char}
    (h : .fault e ∈ valuePieces fault cs) : e = fault := by
  have hplain (s : List Char) : .fault e ∉ plainPiece s := by
    unfold plainPiece
    split <;> simp
  induction cs using valuePieces.induct with
  | case1 cs hcut =>
    unfold valuePieces at h
    split at h
    · exact absurd h (hplain cs)
    · next before rest hcut' =>
      rw [hcut] at hcut'
      cases hcut'
  | case2 cs before rest hcut ih =>
    unfold valuePieces at h
    split at h
    · exact absurd h (hplain cs)
    · next before' rest' hcut' =>
      obtain ⟨rfl, rfl⟩ := Prod.mk.inj (Option.some.inj (hcut.symm.trans hcut'))
      rcases List.mem_append.1 h with h | h
      · exact absurd h (hplain before)
      · split at h
        · simpa using h
        · next code after hclose =>
          rcases List.mem_cons.1 h with h | h
          · cases h
          · exact ih code after hclose h

theorem blames_bindingOfPieces {name : String} {pieces : List Piece} (f : Format)
    (hfault : ∀ e, .fault e ∈ pieces → Plain e) : Blames lost (bindingOfPieces name f pieces) := by
  induction pieces generalizing f with
  | nil => exact blames_ok f
  | cons piece rest ih =>
    have hrest := fun f => ih f fun e he => hfault e (List.mem_cons_of_mem _ he)
    unfold bindingOfPieces
    cases piece with
    | plain s => exact hrest _
    | ofText code =>
      dsimp only
      split
      · exact blames_error ⟨nofun, nofun⟩
      · exact hrest _
      · exact blames_error ⟨nofun, nofun⟩
    | ofElement code => exact hrest _
    | fault e => exact blames_error (hfault e List.mem_cons_self)

theorem blames_parseBinding (name source : String) : Blames lost (parseBinding name source) := by
  have hpieces : Blames lost (bindingOfPieces name {}
      (valuePieces (.bindingUnterminated name) source.toList)) := by
    refine blames_bindingOfPieces _ fun e he => ?_
    rw [eq_of_fault_mem_valuePieces he]
    exact ⟨nofun, nofun⟩
  unfold parseBinding
  split
  · next e he => exact hpieces.again he
  · split
    · exact blames_error ⟨nofun, nofun⟩
    · exact blames_ok _

theorem blames_writtenBinding (name : String) (decl : Markup) : Blames lost (writtenBinding name decl) := by
  unfold writtenBinding
  split
  · exact blames_ok none
  · exact (blames_parseBinding name _).map

/-! ## Declarations -/

theorem blames_addMethods (methods : List (String × Host.Script)) : Blames lost (d.addMethods methods) := by
  induction methods generalizing d with
  | nil => exact blames_ok d
  | cons m rest ih =>
    obtain ⟨name, script⟩ := m
    unfold Draft.addMethods
    split
    · exact blames_error ⟨nofun, nofun⟩
    · exact ih

theorem blames_sortParts (className : String) (parts : Parts) (ms : List Markup) :
    Blames lost (sortParts className parts ms) := by
  induction ms generalizing parts with
  | nil => exact blames_ok parts
  | cons m rest ih =>
    cases m with
    | text s =>
      unfold sortParts
      split
      · exact ih parts
      · exact blames_error ⟨nofun, nofun⟩
    | comment s => exact ih parts
    | element name attrs apart children =>
      unfold sortParts
      dsimp only
      split
      · exact ih _
      · split
        · exact ih _
        · split
          · exact blames_error ⟨nofun, nofun⟩
          · exact ih _

theorem blames_declareAttribute (decl : Markup) : Blames lost (declareAttribute d decl) := by
  unfold declareAttribute
  split
  · split
    · exact blames_error ⟨nofun, nofun⟩
    · split
      · exact blames_error ⟨nofun, nofun⟩
      · refine (blames_writtenTypes decl).bind fun types _ => ?_
        refine (blames_writtenDefault decl).bind fun default _ => ?_
        cases default with
        | none => exact blames_ok _
        | some v => exact (blames_checkDefault _ v types).bind fun _ _ => blames_ok _
  · exact blames_error ⟨nofun, nofun⟩

theorem blames_declareProperty (strict : Bool) (decl : Markup) :
    Blames lost (declareProperty strict d decl) := by
  unfold declareProperty
  split
  · split
    · exact blames_error ⟨nofun, nofun⟩
    · split
      · exact blames_error ⟨nofun, nofun⟩
      · split
        · exact blames_error ⟨nofun, nofun⟩
        · refine (blames_writtenTypes decl).bind fun types _ => ?_
          refine (blames_writtenDefault decl).bind fun default _ => ?_
          dsimp only
          split
          · exact blames_error ⟨nofun, nofun⟩
          · refine (blames_writtenBinding _ decl).bind fun binding _ => ?_
            split
            · split
              · exact blames_ok _
              · exact blames_error ⟨nofun, nofun⟩
            · exact blames_ok _
  · exact blames_error ⟨nofun, nofun⟩

theorem blames_declareAll {declare : Draft → Markup → Except Error Draft}
    (hdeclare : ∀ d m, Blames lost (declare d m)) (ms : List Markup) : Blames lost (declareAll declare d ms) := by
  induction ms generalizing d with
  | nil => exact blames_ok d
  | cons m ms ih =>
    unfold declareAll
    split
    · next e he => exact (hdeclare d m).again he
    · exact ih

/-! ## The walk through the view -/

/-- A class that a reading does not find. -/
def Reading.Lost (r : Reading) (n : String) : Prop := r.resolve n = none

theorem blames_registerText (code : List Char) : Blames lost (registerText r d code) := by
  unfold registerText
  split
  · exact blames_error ⟨nofun, nofun⟩
  · next declared name _ =>
    refine Blames.map ?_
    unfold registerAttribute
    split
    · exact blames_error ⟨nofun, nofun⟩
    · split
      · exact blames_error ⟨nofun, nofun⟩
      · split
        · next e he => exact (blames_declaredTypes declared).again he
        · exact blames_ok _
        · split
          · split
            · exact blames_ok _
            · exact blames_error ⟨nofun, nofun⟩
          · exact blames_error ⟨nofun, nofun⟩
  · next declared name _ =>
    refine Blames.map ?_
    unfold registerPrimitive
    split
    · exact blames_error ⟨nofun, nofun⟩
    · split
      · exact blames_error ⟨nofun, nofun⟩
      · split
        · next e he => exact (blames_declaredTypes declared).again he
        · split
          · exact blames_ok _
          · split
            · split
              · split
                · exact blames_ok _
                · exact blames_error ⟨nofun, nofun⟩
              · exact blames_ok _
              · exact blames_ok _
            · exact blames_error ⟨nofun, nofun⟩

theorem blames_registerElement (code : List Char) : Blames r.Lost (registerElement r d code) := by
  unfold registerElement
  split
  · exact blames_error ⟨nofun, nofun⟩
  · dsimp only
    split
    · exact blames_error ⟨nofun, nofun⟩
    · split
      · exact blames_error ⟨nofun, nofun⟩
      · split
        · next e he =>
          -- the one place where a class is looked up
          unfold elementType at he
          split at he
          · cases he
          · split at he
            · cases he
            · next hnone =>
              cases he
              intro e' he'
              cases he'
              exact ⟨nofun, fun n hn => Error.unknownClass.inj hn ▸ hnone⟩
        · split
          · exact blames_ok _
          · split
            · exact blames_error ⟨nofun, nofun⟩
            · split
              · exact blames_error ⟨nofun, nofun⟩
              · exact blames_ok _

theorem blames_nodesOfPieces {pieces : List Piece}
    (hfault : ∀ e, .fault e ∈ pieces → Plain e) : Blames r.Lost (nodesOfPieces r d pieces) := by
  induction pieces generalizing d with
  | nil => exact blames_ok _
  | cons piece rest ih =>
    have hrest {d : Draft} := ih (d := d) fun e he => hfault e (List.mem_cons_of_mem _ he)
    unfold nodesOfPieces
    cases piece with
    | plain s => exact hrest.map
    | ofText code =>
      dsimp only
      split
      · next e he => exact (blames_registerText code).again he
      · exact hrest.map
    | ofElement code =>
      dsimp only
      split
      · next e he => exact (blames_registerElement code).again he
      · exact hrest.map
    | fault e => exact blames_error (hfault e List.mem_cons_self)

theorem blames_readText (s : String) : Blames r.Lost (readText r d s) := by
  refine blames_nodesOfPieces fun e he => ?_
  rcases (cuts_textPieces s.toList).eq_of_fault_mem he with rfl | rfl <;> exact ⟨nofun, nofun⟩

theorem blames_formatOfPieces {pieces : List Piece} (f : Format)
    (hfault : ∀ e, .fault e ∈ pieces → Plain e) : Blames lost (formatOfPieces r d f pieces) := by
  induction pieces generalizing d f with
  | nil => exact blames_ok _
  | cons piece rest ih =>
    have hrest {d : Draft} (f : Format) := ih (d := d) f fun e he => hfault e (List.mem_cons_of_mem _ he)
    unfold formatOfPieces
    cases piece with
    | plain s => exact hrest _
    | ofText code =>
      dsimp only
      split
      · next e he => exact (blames_registerText code).again he
      · exact hrest _
    | ofElement code => exact hrest f
    | fault e => exact blames_error (hfault e List.mem_cons_self)

theorem blames_readFormat (value : String) : Blames lost (readFormat r d value) := by
  refine blames_formatOfPieces _ fun e he => ?_
  rw [eq_of_fault_mem_valuePieces he]
  exact ⟨nofun, nofun⟩

theorem blames_stepsOf (isMethod : String → Bool) (body : String) (statements : List (List Char)) :
    Blames lost (Handler.stepsOf isMethod body statements) := by
  induction statements with
  | nil => exact blames_ok _
  | cons s rest ih =>
    have hstep : Blames lost (Handler.step isMethod body s) := by
      unfold Handler.step
      split
      · exact blames_ok _
      · split
        · split
          · exact blames_ok _
          · exact blames_error ⟨nofun, nofun⟩
        · exact blames_error ⟨nofun, nofun⟩
    unfold Handler.stepsOf
    split
    · next e he => exact hstep.again he
    · split
      · next e he => exact ih.again he
      · exact blames_ok _

theorem blames_readHandler (attrName event body : String) : Blames lost (readHandler d attrName event body) := by
  unfold readHandler
  split
  · exact blames_error ⟨nofun, nofun⟩
  · unfold Handler.compile
    dsimp only
    split
    · next e he => exact (blames_stepsOf _ _ _).again he
    · exact blames_error ⟨nofun, nofun⟩
    · exact blames_ok _

theorem blames_readAttribute (shape : ElementShape) (a : Attr) (name : String) :
    Blames lost (readAttribute r d shape a name) := by
  unfold readAttribute
  split
  · refine (blames_readHandler _ _ _).bind fun handler _ => ?_
    split
    · exact blames_error ⟨nofun, nofun⟩
    · exact blames_ok _
  · split
    · refine (blames_readHandler _ _ _).bind fun handler _ => ?_
      split
      · exact blames_error ⟨nofun, nofun⟩
      · exact blames_ok _
    · split
      · exact blames_error ⟨nofun, nofun⟩
      · split
        · dsimp only
          split
          · exact blames_error ⟨nofun, nofun⟩
          · split
            · exact blames_error ⟨nofun, nofun⟩
            · exact blames_ok _
        · dsimp only
          split
          · exact (blames_readFormat a.value).bind fun x _ => blames_ok _
          · exact blames_ok _

theorem blames_readAttributes (shape : ElementShape) (seen : List String) (as : List Attr) :
    Blames lost (readAttributes r d shape seen as) := by
  induction as generalizing d shape seen with
  | nil => exact blames_ok _
  | cons a rest ih =>
    unfold readAttributes
    dsimp only
    split
    · exact blames_error ⟨nofun, nofun⟩
    · split
      · next e he => exact (blames_readAttribute shape a _).again he
      · exact ih _ _

mutual

theorem blames_readNode : ∀ (m : Markup) (d : Draft) (path : List Nat), Blames r.Lost (readNode r d path m)
  | .text s, d, path => by
    unfold readNode
    exact blames_readText s
  | .comment s, d, path => by
    unfold readNode
    exact blames_ok _
  | .element name attrs apart children, d, path => by
    unfold readNode
    split
    · split
      · exact blames_error ⟨nofun, nofun⟩
      · exact blames_ok _
    · split
      · exact blames_error ⟨nofun, nofun⟩
      · split
        · next e he => exact (blames_readAttributes _ _ attrs).again he
        · split
          · exact blames_ok _
          · split
            · next e he => exact (blames_readNodes children _ path []).again he
            · exact blames_ok _

theorem blames_readNodes : ∀ (ms : List Markup) (d : Draft) (path : List Nat) (read : List ViewNode),
    Blames r.Lost (readNodes r d path read ms)
  | [], d, path, read => by
    unfold readNodes
    exact blames_ok _
  | m :: ms, d, path, read => by
    unfold readNodes
    split
    · next e he => exact (blames_readNode m d _).again he
    · exact blames_readNodes ms _ path _

end

theorem blames_readRoot (root : Option Markup) : Blames r.Lost (readRoot r d root) := by
  cases root with
  | none => exact blames_ok _
  | some m => exact (blames_readNode m d []).map

/-! ## Settling -/

theorem blames_settleDefault (p : PropertyDescriptor) : Blames lost (settleDefault d p) := by
  unfold settleDefault
  split
  · split
    · exact blames_error ⟨nofun, nofun⟩
    · split
      · exact (blames_checkDefault _ _ _).map
      · split
        · exact blames_ok _
        · split
          · split
            · exact blames_ok _
            · exact blames_ok _
          · exact blames_ok _
  · split
    · split
      · exact blames_error ⟨nofun, nofun⟩
      · exact blames_ok _
    · split
      · exact blames_error ⟨nofun, nofun⟩
      · exact blames_ok _
    · exact blames_error ⟨nofun, nofun⟩
  · dsimp only
    split
    · next e he =>
      (repeat' split at he) <;> cases he
      · exact blames_error ⟨nofun, nofun⟩
      · exact blames_error ⟨nofun, nofun⟩
    · split
      · exact blames_error ⟨nofun, nofun⟩
      · exact blames_ok _

theorem blames_checkReads (ps : List PropertyDescriptor) (name : String) (reads : List String) :
    Blames lost (checkReads ps name reads) := by
  induction reads with
  | nil => exact blames_ok ()
  | cons dependency rest ih =>
    unfold checkReads
    split
    · exact blames_error ⟨nofun, nofun⟩
    · split
      · exact blames_error ⟨nofun, nofun⟩
      · split
        · exact ih
        · exact blames_error ⟨nofun, nofun⟩

theorem blames_checkProperty (p : PropertyDescriptor) : Blames lost (checkProperty d p) := by
  unfold checkProperty
  split
  · exact blames_error ⟨nofun, nofun⟩
  · split
    · next e he => exact (blames_settleDefault p).again he
    · next q _ =>
      have hbinding : Blames lost (checkBinding d.properties q) := by
        unfold checkBinding
        split
        · exact blames_ok ()
        · extract_lets acceptsText
          split
          · exact blames_checkReads _ _ _
          · exact blames_error ⟨nofun, nofun⟩
      split
      · next e he => exact hbinding.again he
      · exact blames_ok _

theorem blames_checkProperties : Blames lost (checkProperties d) := by
  have heach (ps : List PropertyDescriptor) : Blames lost (checkEach d ps) := by
    induction ps with
    | nil => exact blames_ok _
    | cons p ps ih =>
      unfold checkEach
      split
      · next e he => exact (blames_checkProperty p).again he
      · split
        · next e he => exact ih.again he
        · exact blames_ok _
  unfold checkProperties
  split
  · next e he => exact (heach _).again he
  · exact blames_ok _

end ReactiveView.Template
