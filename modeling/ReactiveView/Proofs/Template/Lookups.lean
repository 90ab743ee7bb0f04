import ReactiveView.Proofs.Template.Composition

/-!
# The classes that reading a template looks up

Reading a template looks up the class of an element substitution when it comes to it. `met` lists the classes
of all the substitutions that the walk through a tree can come to: it passes over the content of extension
points and over what stands apart, and leaves a text at the first place where it cannot be cut.

The scan for dependencies cuts texts in a simpler way, at any opening brace and the next closing one, and goes
everywhere. It still finds each class that can be met (`met_subset`, `lookups_subset_requires`). What a template
is read as depends on the classes that can be met and on no others (`parse_congr`), so all that reading can ask
for is scanned.
-/

set_option autoImplicit false

namespace ReactiveView

namespace Text

/-- A text is cut at the first occurrence of a character. -/
theorem cut?_append {c : Char} {before : List Char} (h : c ∉ before) (after : List Char) :
    cut? [c] (before ++ c :: after) = some (before, after) := by
  induction before with
  | nil => simp [cut?]
  | cons b before ih =>
    obtain ⟨hne, hrest⟩ := not_or.1 (mt List.mem_cons.2 h)
    rw [List.cons_append, cut?, ih hrest]
    simp [hne]

end Text

namespace Template

/-! ## The two ways of cutting a text -/

/-- The class that an element substitution names, unless it takes instances of any class. -/
def namedClass? (code : List Char) : Option String :=
  match elementSubstitution? code with
  | some phrase => if isAnyElement phrase.className then none else some phrase.className
  | none => none

theorem braced_eq (cs : List Char) : braced cs =
    match Text.cut? ['\x7b'] cs with
    | none => []
    | some (_, rest) =>
      match Text.cut? ['\x7d'] rest with
      | none => []
      | some (code, after) => code :: braced after := by
  rw [braced]
  split
  · next hopen => rw [hopen]
  · next before rest hopen =>
    rw [hopen]
    split
    · next hclose => simp only [hclose]
    · next code after hclose => simp only [hclose]

theorem braced_append {before code : List Char} (hbefore : '\x7b' ∉ before) (hcode : '\x7d' ∉ code)
    (after : List Char) : braced (before ++ '\x7b' :: (code ++ '\x7d' :: after)) = code :: braced after := by
  rw [braced_eq, Text.cut?_append hbefore]
  simp only [Text.cut?_append hcode]

/-- What stands before the first opening brace is of no account. -/
theorem braced_cons {c : Char} (hc : c ≠ '\x7b') (cs : List Char) : braced (c :: cs) = braced cs := by
  have hcut : Text.cut? ['\x7b'] (c :: cs) = (Text.cut? ['\x7b'] cs).map fun p => (c :: p.1, p.2) := by
    have hne : ('\x7b' == c) = false := by simpa using Ne.symm hc
    rw [Text.cut?]
    simp only [List.isPrefixOf, hne, Bool.false_and, Bool.false_eq_true, if_false]
    cases Text.cut? ['\x7b'] cs <;> rfl
  rw [braced_eq, braced_eq cs, hcut]
  cases Text.cut? ['\x7b'] cs <;> rfl

/-- The inside of each element substitution is found by the scan as well. -/
theorem Cuts.mem_braced {cs code : List Char} {pieces : List Piece} (h : Cuts cs pieces)
    (hcode : .ofElement code ∈ pieces) : code ∈ braced cs := by
  have hplain (s : List Char) : .ofElement code ∉ plainPiece s := by
    unfold plainPiece
    split <;> simp
  induction h with
  | plain cs hcs => exact absurd hcode (hplain cs)
  | ofText before inner after hbefore hinner hafter ih =>
    -- the scan takes one brace less on either side
    have hbraced : braced (before ++ '\x7b' :: '\x7b' :: (inner ++ '\x7d' :: '\x7d' :: after)) =
        ('\x7b' :: inner) :: braced ('\x7d' :: after) :=
      braced_append hbefore (List.not_mem_cons_of_ne_of_not_mem (by decide) hinner) _
    rw [hbraced, braced_cons (by decide)]
    rcases List.mem_append.1 hcode with hcode | hcode
    · exact absurd hcode (hplain before)
    · exact List.mem_cons_of_mem _ (ih ((List.mem_cons.1 hcode).resolve_left nofun))
  | ofElement before inner after hbefore hinner hhead hafter ih =>
    rw [braced_append hbefore hinner]
    rcases List.mem_append.1 hcode with hcode | hcode
    · exact absurd hcode (hplain before)
    · rcases List.mem_cons.1 hcode with hcode | hcode
      · rw [Piece.ofElement.inj hcode]
        exact List.mem_cons_self
      · exact List.mem_cons_of_mem _ (ih hcode)
  | fault before rest hbefore he =>
    rcases List.mem_append.1 hcode with hcode | hcode
    · exact absurd hcode (hplain before)
    · exact absurd (List.mem_singleton.1 hcode) nofun

/-! ## The classes that can be met -/

/-- The classes of the element substitutions of a text, as far as it can be cut. -/
def metInText (s : String) : List String :=
  (textPieces s.toList).filterMap fun piece =>
    match piece with
    | .ofElement code => namedClass? code
    | _ => none

mutual

/-- The classes that the walk through a tree can meet. -/
def met : Markup → List String
  | .text s => metInText s
  | .comment _ => []
  | .element name _ apart children =>
    if name.tag = extensionPointTag ∨ apart = true then [] else metAll children

/-- The classes that the walk through a list of trees can meet. -/
def metAll : List Markup → List String
  | [] => []
  | m :: ms => met m ++ metAll ms

end

/-- The classes that reading a template can look up: its parent, and what can be met below its root. -/
def lookups (header : Header) (template : Markup) : List String :=
  header.parent.toList ++ ((rootElement? template.contentChildren).map met).getD []

theorem metInText_subset (s : String) : metInText s ⊆ referencesInText s := by
  intro n hn
  obtain ⟨piece, hpiece, hname⟩ := List.mem_filterMap.1 hn
  cases piece with
  | ofElement code => exact List.mem_filterMap.2 ⟨code, (cuts_textPieces s.toList).mem_braced hpiece, hname⟩
  | plain | ofText | fault => cases hname

mutual

theorem met_subset : ∀ m : Markup, met m ⊆ referencesIn m
  | .text s => metInText_subset s
  | .comment _ => List.nil_subset _
  | .element name attrs apart children => by
    unfold met referencesIn
    split
    · exact List.nil_subset _
    · exact metAll_subset children

theorem metAll_subset : ∀ ms : List Markup, metAll ms ⊆ referencesInAll ms
  | [] => List.nil_subset _
  | m :: ms => by
    unfold metAll referencesInAll
    exact List.append_subset.2 ⟨List.subset_append_of_subset_left _ (met_subset m),
      List.subset_append_of_subset_right _ (metAll_subset ms)⟩

end

theorem referencesIn_subset_all {m : Markup} {ms : List Markup} (h : m ∈ ms) :
    referencesIn m ⊆ referencesInAll ms := by
  induction ms with
  | nil => exact absurd h List.not_mem_nil
  | cons m' ms ih =>
    unfold referencesInAll
    rcases List.mem_cons.1 h with rfl | h
    · exact List.subset_append_left _ _
    · exact List.subset_append_of_subset_right _ (ih h)

/-- The scan finds all that reading a template can look up, in every template. -/
theorem lookups_subset_requires (header : Header) (template : Markup) :
    lookups header template ⊆ requires header template := by
  intro n hn
  unfold requires
  rw [mem_sortedKeys]
  rcases List.mem_append.1 hn with hn | hn
  · exact List.mem_append_left _ hn
  · refine List.mem_append_right _ ?_
    cases hroot : rootElement? template.contentChildren with
    | none =>
      rw [hroot] at hn
      exact absurd hn List.not_mem_nil
    | some m =>
      rw [hroot] at hn
      exact referencesIn_subset_all (List.mem_of_find?_eq_some hroot) (met_subset m hn)

/-! ## Reading depends on what can be met only -/

variable {f g : Resolver} {strict : Bool} {d : Draft}

/-- Two resolvers give the same class for each of some names. -/
def Agree (f g : Resolver) (names : List String) : Prop := ∀ n ∈ names, f n = g n

theorem Agree.mono {ms ns : List String} (h : Agree f g ns) (hms : ms ⊆ ns) : Agree f g ms :=
  fun n hn => h n (hms hn)

theorem registerElement_congr {code : List Char} (h : ∀ n, namedClass? code = some n → f n = g n) :
    registerElement ⟨f, strict⟩ d code = registerElement ⟨g, strict⟩ d code := by
  unfold registerElement
  cases hphrase : elementSubstitution? code with
  | none => rfl
  | some phrase =>
    have htype : elementType ⟨f, strict⟩ phrase.className = elementType ⟨g, strict⟩ phrase.className := by
      unfold elementType
      split
      · rfl
      · next hany =>
        have hname : namedClass? code = some phrase.className := by
          unfold namedClass?
          rw [hphrase]
          exact if_neg hany
        dsimp only
        rw [h _ hname]
    dsimp only
    rw [htype]

theorem registerText_congr (code : List Char) :
    registerText ⟨f, strict⟩ d code = registerText ⟨g, strict⟩ d code := rfl

theorem nodesOfPieces_congr {pieces : List Piece}
    (h : ∀ code, .ofElement code ∈ pieces → ∀ n, namedClass? code = some n → f n = g n) :
    nodesOfPieces ⟨f, strict⟩ d pieces = nodesOfPieces ⟨g, strict⟩ d pieces := by
  induction pieces generalizing d with
  | nil => rfl
  | cons piece rest ih =>
    have hrest {d : Draft} := ih (d := d) fun code hcode => h code (List.mem_cons_of_mem _ hcode)
    unfold nodesOfPieces
    cases piece with
    | plain s => simp only [hrest]
    | ofText code =>
      dsimp only
      rw [registerText_congr (g := g)]
      simp only [hrest]
    | ofElement code =>
      dsimp only
      rw [registerElement_congr (h code List.mem_cons_self)]
      simp only [hrest]
    | fault e => rfl

theorem formatOfPieces_congr (format : Format) (pieces : List Piece) :
    formatOfPieces ⟨f, strict⟩ d format pieces = formatOfPieces ⟨g, strict⟩ d format pieces := by
  induction pieces generalizing d format with
  | nil => rfl
  | cons piece rest ih =>
    unfold formatOfPieces
    cases piece with
    | plain s => exact ih _
    | ofText code =>
      dsimp only
      rw [registerText_congr (g := g)]
      simp only [ih]
    | ofElement code => exact ih _
    | fault e => rfl

theorem readAttributes_congr (shape : ElementShape) (seen : List String) (as : List Attr) :
    readAttributes ⟨f, strict⟩ d shape seen as = readAttributes ⟨g, strict⟩ d shape seen as := by
  induction as generalizing d shape seen with
  | nil => rfl
  | cons a rest ih =>
    have hattribute (name : String) :
        readAttribute ⟨f, strict⟩ d shape a name = readAttribute ⟨g, strict⟩ d shape a name := by
      unfold readAttribute readFormat
      rw [formatOfPieces_congr (g := g)]
    unfold readAttributes
    dsimp only
    rw [hattribute]
    simp only [ih]

mutual

theorem readNode_congr : ∀ (m : Markup) (d : Draft) (path : List Nat), Agree f g (met m) →
    readNode ⟨f, strict⟩ d path m = readNode ⟨g, strict⟩ d path m
  | .text s, d, path, h => by
    unfold readNode readText
    refine nodesOfPieces_congr fun code hcode n hn => h n ?_
    exact List.mem_filterMap.2 ⟨_, hcode, hn⟩
  | .comment s, d, path, h => by
    unfold readNode
    rfl
  | .element name attrs apart children, d, path, h => by
    unfold readNode
    by_cases htag : name.tag = extensionPointTag
    · rw [if_pos htag, if_pos htag]
    · rw [if_neg htag, if_neg htag, readAttributes_congr (g := g)]
      cases apart with
      | true => rfl
      | false =>
        have hchildren : Agree f g (metAll children) := by
          unfold met at h
          simpa [htag] using h
        simp only [readNodes_congr children _ path [] hchildren]

theorem readNodes_congr : ∀ (ms : List Markup) (d : Draft) (path : List Nat) (read : List ViewNode),
    Agree f g (metAll ms) →
      readNodes ⟨f, strict⟩ d path read ms = readNodes ⟨g, strict⟩ d path read ms
  | [], d, path, read, h => by
    unfold readNodes
    rfl
  | m :: ms, d, path, read, h => by
    unfold metAll at h
    unfold readNodes
    rw [readNode_congr m d _ (h.mono (List.subset_append_left _ _))]
    simp only [readNodes_congr ms _ path _ (h.mono (List.subset_append_right _ _))]

end

theorem root_of_declared {r : Reading} {definition : Definition} {inherited : Option Descriptor}
    {root : Option Markup} (h : declared r definition inherited = .ok (d, root)) :
    root = rootElement? definition.template.contentChildren := by
  unfold declared at h
  cases hmethods : (Draft.ofParent inherited).addMethods definition.methods with
  | error e =>
    rw [hmethods] at h
    cases h
  | ok d₁ =>
    cases hsort : sortParts definition.header.name {} definition.template.contentChildren with
    | error e =>
      rw [hmethods, hsort] at h
      cases h
    | ok parts =>
      rw [hmethods, hsort] at h
      have hroot := root_of_sortParts hsort
      rw [Option.none_or] at hroot
      simp only [bind, Except.bind, pure, Except.pure] at h
      (repeat' split at h) <;> cases h
      exact hroot

theorem ownView_congr {definition : Definition} (h : Agree f g (lookups definition.header definition.template))
    (inherited : Option Descriptor) :
    ownView ⟨f, strict⟩ definition inherited = ownView ⟨g, strict⟩ definition inherited := by
  have hdeclared : declared ⟨f, strict⟩ definition inherited = declared ⟨g, strict⟩ definition inherited := rfl
  unfold ownView
  rw [hdeclared]
  cases hd : declared ⟨g, strict⟩ definition inherited with
  | error e => rfl
  | ok x =>
    obtain ⟨d, root⟩ := x
    have hroot := root_of_declared hd
    change readRoot ⟨f, strict⟩ d root = readRoot ⟨g, strict⟩ d root
    cases hm : root with
    | none => rfl
    | some m =>
      unfold readRoot
      dsimp only
      rw [readNode_congr m d [] (h.mono fun n hn => List.mem_append_right _ ?_)]
      rw [← hroot, hm]
      exact hn

/-- What a template is read as does not depend on the classes that reading it cannot look up. -/
theorem parse_congr {definition : Definition} (h : Agree f g (lookups definition.header definition.template))
    (parent : Option (ClassRef × Descriptor)) :
    parse ⟨f, strict⟩ definition parent = parse ⟨g, strict⟩ definition parent := by
  rw [parse_eq, parse_eq, ownView_congr h]

/-- Putting views together asks for no class. -/
theorem compose_ne_unknownClass (inherited : Option Descriptor) (own : Option ViewNode)
    (point : Option (List Nat)) (n : String) : compose inherited own point ≠ .error (.unknownClass n) := by
  intro h
  unfold compose at h
  (repeat' split at h) <;> cases h

/-- A sequence that fails has a part that fails. -/
theorem error_of_bind {α β : Type} {x : Except Error α} {k : α → Except Error β} {e : Error}
    (h : x >>= k = .error e) : x = .error e ∨ ∃ a, x = .ok a ∧ k a = .error e := by
  cases x with
  | error e' =>
    cases h
    exact Or.inl rfl
  | ok a => exact Or.inr ⟨a, rfl, h⟩

/-- A template that fails for a class that is not known fails for one that is not found. -/
theorem lost_of_parse {r : Reading} {definition : Definition} {parent : Option (ClassRef × Descriptor)}
    {n : String} (h : parse r definition parent = .error (.unknownClass n)) : r.Lost n := by
  rw [parse_eq] at h
  rcases error_of_bind h with hown | ⟨⟨own, draft⟩, -, h⟩
  · exact (blames_ownView definition _ _ hown).2 n rfl
  · rcases error_of_bind h with hcompose | ⟨⟨view, point⟩, -, h⟩
    · exact absurd hcompose (compose_ne_unknownClass _ own draft.extensionPoint n)
    · rcases error_of_bind h with hcheck | ⟨draft, -, h⟩
      · exact (blames_checkProperties _ hcheck).2 n rfl
      · cases h

/-- Reading a template looks a name up: it is that of the parent, or what the template is read as would change
with the answer. -/
def LooksUp (r : Reading) (definition : Definition) (parent : Option (ClassRef × Descriptor)) (n : String) :
    Prop :=
  definition.header.parent = some n ∨
    ∃ f : Resolver, (∀ m, m ≠ n → f m = r.resolve m) ∧
      parse ⟨f, r.strict⟩ definition parent ≠ parse r definition parent

/-- All that reading looks up is among what it can meet. -/
theorem LooksUp.mem_lookups {r : Reading} {definition : Definition} {parent : Option (ClassRef × Descriptor)}
    {n : String} (h : LooksUp r definition parent n) : n ∈ lookups definition.header definition.template := by
  rcases h with hparent | ⟨f, hf, hne⟩
  · exact List.mem_append_left _ (by rw [hparent]; exact List.mem_singleton.2 rfl)
  · by_contra hn
    exact hne (parse_congr (fun m hm => hf m fun heq => hn (heq ▸ hm)) parent)

/-- A name that reading fails for has been looked up. -/
theorem looksUp_of_parse {r : Reading} {definition : Definition} {parent : Option (ClassRef × Descriptor)}
    {n : String} (h : parse r definition parent = .error (.unknownClass n)) :
    LooksUp r definition parent n := by
  let f : Resolver := fun m => if m = n then some ⟨⟨0⟩, n⟩ else r.resolve m
  refine Or.inr ⟨f, fun m hm => if_neg hm, fun hsame => ?_⟩
  have hlost : f n = none := lost_of_parse (hsame.trans h)
  simp [f] at hlost

end Template

end ReactiveView
