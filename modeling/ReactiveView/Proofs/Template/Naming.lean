import ReactiveView.Proofs.Template.Lookups
import ReactiveView.Proofs.Text

/-!
# Names in element substitutions

The words of a class header, of a property declaration and of an element substitution are described apart from
each other. An element substitution names classes by letters alone and properties without dollar signs
(`ElementPhrase.IsNameable`), whereas a header may give a class digits, and a loose name may hold dollar signs.

So a class that can be declared and a property that can be declared are put together by an element substitution
exactly when they are nameable: then it is read as what its author wrote and the class is found by the scan for
dependencies, and otherwise it is a syntax error and nothing is found (`ElementPhrase.readText_written`).
-/

set_option autoImplicit false

namespace ReactiveView

namespace Text

variable {w rest : List Char} {b : Char}

theorem isBlank_of_all (h : w.all (fun c => !isBlank c) = true) : ∀ c ∈ w, isBlank c = false := by
  intro c hc
  simpa using List.all_eq_true.1 h c hc

/-- The characters of a word are collected one after the other. -/
theorem wordsFrom_append (hw : ∀ c ∈ w, isBlank c = false) (word rest : List Char) :
    wordsFrom word (w ++ rest) = wordsFrom (w.reverse ++ word) rest := by
  induction w generalizing word with
  | nil => rfl
  | cons c w ih =>
    have hc : ¬ isBlank c = true := by simp [hw c List.mem_cons_self]
    rw [List.cons_append, wordsFrom, if_neg hc, ih fun c' hc' => hw c' (List.mem_cons_of_mem c hc')]
    simp

/-- A blank character in front of a text belongs to no word. -/
theorem words_cons_blank (hb : isBlank b = true) (rest : List Char) : words (b :: rest) = words rest := by
  unfold words
  rw [wordsFrom, if_pos hb]
  rfl

/-- A word ends at the first blank character. -/
theorem words_append_blank (hne : w ≠ []) (hw : ∀ c ∈ w, isBlank c = false) (hb : isBlank b = true)
    (rest : List Char) : words (w ++ b :: rest) = w :: words rest := by
  unfold words
  rw [wordsFrom_append hw, wordsFrom, if_pos hb, List.append_nil]
  simp [hne]

end Text

namespace Template

open ReactiveView.Text

/-! ## Characters of names -/

/-- A letter, a digit, an underscore or a dollar sign. -/
def isNameChar (c : Char) : Bool := isAlnum c || c == '_' || c == '$'

theorem toNat_of_isNameChar {c : Char} (h : isNameChar c = true) :
    (48 ≤ c.toNat ∧ c.toNat ≤ 57) ∨ (65 ≤ c.toNat ∧ c.toNat ≤ 90) ∨ (97 ≤ c.toNat ∧ c.toNat ≤ 122) ∨
      c.toNat = 95 ∨ c.toNat = 36 := by
  simp only [isNameChar, isAlnum, isLetter, isLower, isUpper, isNumeral, Bool.or_eq_true, Bool.and_eq_true,
    decide_eq_true_eq, beq_iff_eq, Char.le_def, UInt32.le_iff_toNat_le] at h
  rcases h with ((((h | h) | h) | rfl) | rfl)
  · exact Or.inr (Or.inr (Or.inl h))
  · exact Or.inr (Or.inl h)
  · exact Or.inl h
  · exact Or.inr (Or.inr (Or.inr (Or.inl rfl)))
  · exact Or.inr (Or.inr (Or.inr (Or.inr rfl)))

/-- No character of a name separates words. -/
theorem isBlank_of_isNameChar {c : Char} (h : isNameChar c = true) : isBlank c = false := by
  have hrange := toNat_of_isNameChar h
  unfold isBlank
  simp only [Bool.or_eq_false_iff, Bool.and_eq_false_iff, decide_eq_false_iff_not, beq_eq_false_iff_ne]
  omega

/-- No character of a name is a closing brace or a point. -/
theorem ne_of_isNameChar {c : Char} (h : isNameChar c = true) : c ≠ '\x7d' ∧ c ≠ '.' := by
  constructor
  all_goals
    rintro rfl
    exact absurd h (by decide)

/-- What starts with a name character and goes on with name characters is a name. -/
theorem name_of_leads {first later : Char → Bool} {cs : List Char} (h : leads first later cs = true)
    (hfirst : ∀ c, first c = true → isNameChar c = true) (hlater : ∀ c, later c = true → isNameChar c = true) :
    cs ≠ [] ∧ ∀ c ∈ cs, isNameChar c = true := by
  cases cs with
  | nil => cases h
  | cons c rest =>
    obtain ⟨hc, hrest⟩ := Bool.and_eq_true_iff.1 h
    refine ⟨List.cons_ne_nil c rest, fun d hd => ?_⟩
    rcases List.mem_cons.1 hd with rfl | hd
    · exact hfirst d hc
    · exact hlater d (List.all_eq_true.1 hrest d hd)

/-- A property that can be declared is named by name characters, in either mode. -/
theorem name_of_isPropertyName {strict : Bool} {p : String} (h : isPropertyName strict p = true) :
    p.toList ≠ [] ∧ ∀ c ∈ p.toList, isNameChar c = true := by
  have hloose : isPropertyName false p = true := by
    cases strict with
    | true => exact isPropertyName_mono p h
    | false => exact h
  simp only [isPropertyName, Bool.and_eq_true, Bool.false_eq_true, if_false] at hloose
  refine name_of_leads hloose.1.1 (fun c hc => ?_) fun c hc => hc
  simp only [isNameChar, isAlnum, Bool.or_eq_true] at hc ⊢
  exact hc.imp_left (Or.imp_left Or.inl)

/-- A header names its class by letters and digits, and by no word for all classes. -/
theorem name_of_readHeader {m : Markup} {header : Header} (h : readHeader m = .ok header) :
    leads isLetter isAlnum header.name.toList = true ∧ isAnyElement header.name = false := by
  have hdeclaration {isAbstract : Bool} {declaration : String}
      (h : Header.ofDeclaration isAbstract declaration = .ok header) :
      leads isLetter isAlnum header.name.toList = true ∧ isAnyElement header.name = false := by
    unfold Header.ofDeclaration at h
    dsimp only at h
    split at h
    · cases h
    · next name parent hphrase =>
      split at h
      · cases h
      · next hany =>
        cases h
        refine ⟨?_, by simpa using hany⟩
        unfold classPhrase? at hphrase
        split at hphrase
        · split at hphrase
          · next hname =>
            cases hphrase
            simpa using hname
          · cases hphrase
        · split at hphrase
          · next hname =>
            cases hphrase
            simpa using hname.1
          · cases hphrase
        · cases hphrase
  unfold readHeader at h
  split at h
  · exact hdeclaration h
  · exact hdeclaration h
  · cases h
  · cases h

theorem name_of_leads_isAlnum {cs : List Char} (h : leads isLetter isAlnum cs = true) :
    cs ≠ [] ∧ ∀ c ∈ cs, isNameChar c = true := by
  refine name_of_leads h (fun c hc => ?_) fun c hc => ?_
  · simp [isNameChar, isAlnum, hc]
  · simp [isNameChar, hc]

/-! ## Element substitutions as they are written -/

namespace ElementPhrase

/-- What an author writes between the braces. -/
def code (phrase : ElementPhrase) : List Char :=
  if phrase.isArray then
    " for ".toList ++ phrase.className.toList ++ " of this.".toList ++ phrase.property.toList ++ [' ']
  else ' ' :: phrase.className.toList ++ " this.".toList ++ phrase.property.toList ++ [' ']

/-- An element substitution as an author writes it. -/
def written (phrase : ElementPhrase) : String :=
  String.ofList ('\x7b' :: (phrase.code ++ ['\x7d']))

/-- The class is named by letters alone, and the property without a dollar sign. -/
def IsNameable (phrase : ElementPhrase) : Prop :=
  (∀ c ∈ phrase.className.toList, isLetter c = true) ∧ '$' ∉ phrase.property.toList

instance (phrase : ElementPhrase) : Decidable phrase.IsNameable :=
  decidable_of_iff (phrase.className.toList.all isLetter = true ∧ '$' ∉ phrase.property.toList) <| by
    rw [IsNameable, List.all_eq_true]

/-- What the property holds. -/
def kind (phrase : ElementPhrase) (element : ElementType) : PropertyKind :=
  if phrase.isArray then .sequence element else .slot element

/-- The property whose only place the substitution is. -/
def declared (phrase : ElementPhrase) (element : ElementType) : PropertyDescriptor :=
  { name := phrase.property, kind := phrase.kind element, default := .null, hasSite := true }

variable {phrase : ElementPhrase}

/-- The words of a substitution. -/
theorem words_code (hclass : phrase.className.toList ≠ [] ∧ ∀ c ∈ phrase.className.toList, isNameChar c = true)
    (hproperty : ∀ c ∈ phrase.property.toList, isNameChar c = true) :
    words phrase.code =
      if phrase.isArray then
        ["for".toList, phrase.className.toList, "of".toList, "this.".toList ++ phrase.property.toList]
      else [phrase.className.toList, "this.".toList ++ phrase.property.toList] := by
  have hblank : isBlank ' ' = true := by decide
  have hlast : words ("this.".toList ++ phrase.property.toList ++ [' ']) =
      ["this.".toList ++ phrase.property.toList] := by
    refine words_append_blank (by simp) (fun c hc => ?_) hblank []
    rcases List.mem_append.1 hc with hc | hc
    · exact isBlank_of_all (by decide) c hc
    · exact isBlank_of_isNameChar (hproperty c hc)
  have hname (rest : List Char) :
      words (phrase.className.toList ++ ' ' :: rest) = phrase.className.toList :: words rest :=
    words_append_blank hclass.1 (fun c hc => isBlank_of_isNameChar (hclass.2 c hc)) hblank rest
  have hof (rest : List Char) : words ('o' :: 'f' :: ' ' :: rest) = "of".toList :: words rest :=
    words_append_blank (w := ['o', 'f']) (by simp) (isBlank_of_all (by decide)) hblank rest
  have hfor (rest : List Char) : words ('f' :: 'o' :: 'r' :: ' ' :: rest) = "for".toList :: words rest :=
    words_append_blank (w := ['f', 'o', 'r']) (by simp) (isBlank_of_all (by decide)) hblank rest
  unfold code
  split
  · have hsplit : " for ".toList ++ phrase.className.toList ++ " of this.".toList ++ phrase.property.toList ++
        [' '] = ' ' :: 'f' :: 'o' :: 'r' :: ' ' :: (phrase.className.toList ++ ' ' :: 'o' :: 'f' :: ' ' ::
          ("this.".toList ++ phrase.property.toList ++ [' '])) := by simp
    rw [hsplit, words_cons_blank hblank, hfor, hname, hof, hlast]
  · have hsplit : ' ' :: phrase.className.toList ++ " this.".toList ++ phrase.property.toList ++ [' '] =
        ' ' :: (phrase.className.toList ++ ' ' :: ("this.".toList ++ phrase.property.toList ++ [' '])) := by
      simp
    rw [hsplit, words_cons_blank hblank, hname, hlast]

/-- The property of the last word. -/
theorem thisName?_append {p : String} (hp : p.toList ≠ [] ∧ ∀ c ∈ p.toList, isNameChar c = true) :
    thisName? ("this.".toList ++ p.toList) = if '$' ∈ p.toList then none else some p := by
  have hlead : dropLead? "this.".toList ("this.".toList ++ p.toList) = some p.toList := by
    have hlength : 0 < p.toList.length := List.length_pos_iff.2 hp.1
    unfold dropLead?
    rw [if_pos ⟨List.isPrefixOf_iff_prefix.2 (List.prefix_append _ _), by rw [List.length_append]; omega⟩,
      List.drop_left]
  unfold thisName?
  rw [hlead]
  dsimp only
  by_cases hdollar : '$' ∈ p.toList
  · have hbad : ¬ (p.toList.all fun c => isAlnum c || c == '_') = true := fun hall =>
      absurd (List.all_eq_true.1 hall _ hdollar) (by decide)
    rw [if_pos hdollar, if_neg hbad]
  · have hgood : (p.toList.all fun c => isAlnum c || c == '_') = true := by
      refine List.all_eq_true.2 fun c hc => ?_
      rcases Bool.or_eq_true_iff.1 (hp.2 c hc) with h | h
      · exact h
      · exact absurd (beq_iff_eq.1 h ▸ hc) hdollar
    rw [if_neg hdollar, if_pos hgood, String.ofList_toList]

/-- The first word of a substitution is a class if it holds letters alone. -/
theorem isDottedWord_eq {cs : List Char} (hcs : cs ≠ [] ∧ ∀ c ∈ cs, isNameChar c = true) :
    isDottedWord cs = cs.all isLetter := by
  have hpoint : '.' ∉ cs := fun h => (ne_of_isNameChar (hcs.2 _ h)).2 rfl
  unfold isDottedWord
  rw [splitAt_of_not_mem hpoint]
  simp [hcs.1]

/-- What stands between the braces is read as an element substitution exactly if its names allow it. -/
theorem elementSubstitution?_code
    (hclass : phrase.className.toList ≠ [] ∧ ∀ c ∈ phrase.className.toList, isNameChar c = true)
    (hproperty : phrase.property.toList ≠ [] ∧ ∀ c ∈ phrase.property.toList, isNameChar c = true) :
    elementSubstitution? phrase.code = if phrase.IsNameable then some phrase else none := by
  obtain ⟨isArray, className, property⟩ := phrase
  unfold elementSubstitution?
  rw [words_code hclass hproperty.2]
  have hthis := thisName?_append hproperty
  have hletters : (isDottedWord className.toList = true) ↔ ∀ c ∈ className.toList, isLetter c = true := by
    rw [isDottedWord_eq hclass, List.all_eq_true]
  by_cases hdotted : ∀ c ∈ className.toList, isLetter c = true
  · have hnameable (isArray : Bool) : IsNameable ⟨isArray, className, property⟩ ↔ '$' ∉ property.toList :=
      and_iff_right hdotted
    by_cases hdollar : '$' ∈ property.toList <;> cases isArray <;> simp_all
  · have hwrong : ¬ IsNameable ⟨isArray, className, property⟩ := fun h => hdotted h.1
    have hnot : isDottedWord className.toList = false := by simpa using mt hletters.1 hdotted
    rw [if_neg hwrong]
    cases isArray <;> simp [hnot]

/-- Neither name has a closing brace in it, so the braces around them are the only ones. -/
theorem not_mem_code (hclass : ∀ c ∈ phrase.className.toList, isNameChar c = true)
    (hproperty : ∀ c ∈ phrase.property.toList, isNameChar c = true) : '\x7d' ∉ phrase.code := by
  have hclose {cs : List Char} (hcs : ∀ c ∈ cs, isNameChar c = true) : '\x7d' ∉ cs :=
    fun h => (ne_of_isNameChar (hcs _ h)).1 rfl
  unfold code
  split
  · simp [hclose hclass, hclose hproperty]
  · simp [hclose hclass, hclose hproperty]

/-- A written substitution is one piece. -/
theorem textPieces_written (hclose : '\x7d' ∉ phrase.code) :
    textPieces phrase.written.toList = [.ofElement phrase.code] := by
  have htwo : ∃ rest, phrase.code = ' ' :: rest ∧ rest ≠ [] := by
    unfold code
    split
    · exact ⟨_, rfl, by simp⟩
    · exact ⟨_, rfl, by simp⟩
  obtain ⟨rest, hcode, hrest⟩ := htwo
  have hsize : ¬ byteSize phrase.code < 2 := by
    obtain ⟨c, cs, rfl⟩ := List.exists_cons_of_ne_nil hrest
    rw [hcode]
    have hc := Char.utf8Size_pos c
    simp only [byteSize, List.foldr_cons]
    have : (' ' : Char).utf8Size = 1 := by decide
    omega
  have hhead : ¬ phrase.code.head? = some '\x7b' := by
    rw [hcode, List.head?_cons]
    decide
  have hwritten : phrase.written.toList = [] ++ '\x7b' :: (phrase.code ++ '\x7d' :: []) := by
    simp [written]
  rw [hwritten, textPieces]
  split
  · next hnone =>
    rw [cut?_append List.not_mem_nil] at hnone
    cases hnone
  · next before rest hcut =>
    rw [cut?_append List.not_mem_nil] at hcut
    obtain ⟨rfl, rfl⟩ := Prod.mk.inj (Option.some.inj hcut)
    split
    · next hnone =>
      rw [cut?_append hclose] at hnone
      cases hnone
    · next code after hcut =>
      rw [cut?_append hclose] at hcut
      obtain ⟨rfl, rfl⟩ := Prod.mk.inj (Option.some.inj hcut)
      rw [if_neg hsize, if_neg hhead, textPieces_nil]
      rfl

/-- The scan for dependencies takes a written substitution for what it is. -/
theorem referencesInText_written (hclose : '\x7d' ∉ phrase.code) :
    referencesInText phrase.written = (namedClass? phrase.code).toList := by
  have hbraced : braced phrase.written.toList = [phrase.code] := by
    have hwritten : phrase.written.toList = [] ++ '\x7b' :: (phrase.code ++ '\x7d' :: []) := by
      simp [written]
    rw [hwritten, braced_append List.not_mem_nil hclose, braced_eq]
    rfl
  change (braced phrase.written.toList).filterMap namedClass? = _
  rw [hbraced]
  cases hname : namedClass? phrase.code with
  | none => exact List.filterMap_cons_none hname
  | some name => exact List.filterMap_cons_some hname

end ElementPhrase

/-! ## Names that can be declared, put into substitutions -/

/-- A tree stands in another one, at any depth, ordinarily or apart. -/
inductive Inside (m : Markup) : Markup → Prop where
  | itself : Inside m m
  | ofChild {child t : Markup} (hchild : child ∈ t.contentChildren) (h : Inside m child) : Inside m t

theorem references_of_child {child t : Markup} (h : child ∈ t.contentChildren) :
    referencesIn child ⊆ referencesIn t := by
  cases t with
  | element name attrs apart children =>
    rw [referencesIn]
    exact referencesIn_subset_all h
  | text s => exact absurd h List.not_mem_nil
  | comment s => exact absurd h List.not_mem_nil

theorem Inside.references {m t : Markup} (h : Inside m t) : referencesIn m ⊆ referencesIn t := by
  induction h with
  | itself => exact List.Subset.refl _
  | ofChild hchild _ ih => exact List.Subset.trans ih (references_of_child hchild)

/-- What stands in a template is scanned for classes. -/
theorem Inside.requires {m t : Markup} (h : Inside m t) (hm : m ≠ t) (header : Header) :
    referencesIn m ⊆ Template.requires header t := by
  intro n hn
  unfold Template.requires
  rw [mem_sortedKeys]
  cases h with
  | itself => exact absurd rfl hm
  | ofChild hchild h => exact List.mem_append_right _ (referencesIn_subset_all hchild (h.references hn))

variable {r : Reading} {d : Draft} {header : Header} {m : Markup} {c : ClassRef}

/-- A property that is placed by a substitution and is no method passes the final check. -/
theorem checkProperty_declared {phrase : ElementPhrase} (hmethod : d.isMethod phrase.property = false)
    (element : ElementType) :
    ∃ settled, checkProperty d (phrase.declared element) = .ok settled ∧ settled.name = phrase.property ∧
      settled.kind = phrase.kind element := by
  obtain ⟨isArray, className, property⟩ := phrase
  unfold checkProperty
  rw [if_neg (by simpa [ElementPhrase.declared] using hmethod)]
  cases isArray with
  | true => exact ⟨{ ElementPhrase.declared ⟨true, className, property⟩ element with default := .array [] },
      rfl, rfl, rfl⟩
  | false => exact ⟨ElementPhrase.declared ⟨false, className, property⟩ element, rfl, rfl, rfl⟩

/-- The substitution of a nameable class and property is registered as what its author wrote. -/
theorem registerElement_code {phrase : ElementPhrase}
    (hphrase : elementSubstitution? phrase.code = some phrase) (hany : isAnyElement phrase.className = false)
    (hp : isPropertyName r.strict phrase.property = true) (hc : r.resolve phrase.className = some c)
    (hmethod : d.isMethod phrase.property = false) (hfree : d.property? phrase.property = none) :
    registerElement r d phrase.code = .ok (phrase.property, d.addProperty (phrase.declared (.ofClass c))) := by
  have htype : elementType r phrase.className = .ok (.ofClass c) := by
    unfold elementType
    rw [hany, hc]
    rfl
  unfold registerElement
  rw [hphrase]
  dsimp only
  rw [hp, hmethod, htype]
  dsimp only
  rw [hfree]
  rfl

/-- A class that is declared and a name that can be declared are put together by an element substitution exactly
when they are nameable. Then the substitution is read as the only place of a new property that holds one instance
of the class or a collection of them, the property passes the final check, and every template in which the
substitution stands is found to depend on the class. Otherwise the substitution is a syntax error, and the scan for
dependencies finds nothing. -/
theorem ElementPhrase.readText_written (phrase : ElementPhrase) (hheader : readHeader m = .ok header)
    (hname : header.name = phrase.className) (hp : isPropertyName r.strict phrase.property = true)
    (hc : r.resolve phrase.className = some c) (hmethod : d.isMethod phrase.property = false)
    (hfree : d.property? phrase.property = none) :
    (phrase.IsNameable →
      readText r d phrase.written =
        .ok ([.marker "" (some phrase.property)], d.addProperty (phrase.declared (.ofClass c))) ∧
      (∀ d' : Draft, d'.isMethod phrase.property = false →
        ∃ settled, checkProperty d' (phrase.declared (.ofClass c)) = .ok settled ∧
          settled.name = phrase.property ∧ settled.kind = phrase.kind (.ofClass c)) ∧
      referencesInText phrase.written = [phrase.className] ∧
      ∀ (user : Header) (template : Markup), template.isElement = true →
        Inside (.text phrase.written) template → phrase.className ∈ requires user template) ∧
    (¬ phrase.IsNameable →
      (∃ e, readText r d phrase.written = .error e ∧ e.kind = .syntaxKind) ∧
      referencesInText phrase.written = []) := by
  obtain ⟨hleads, hany⟩ := name_of_readHeader hheader
  rw [hname] at hleads hany
  have hclass := name_of_leads_isAlnum hleads
  have hproperty := name_of_isPropertyName hp
  have hclose := phrase.not_mem_code hclass.2 hproperty.2
  have hphrase := phrase.elementSubstitution?_code hclass hproperty
  have hread : readText r d phrase.written = nodesOfPieces r d [.ofElement phrase.code] := by
    unfold readText
    rw [phrase.textPieces_written hclose]
  have hscan := phrase.referencesInText_written hclose
  constructor
  · intro hnameable
    rw [if_pos hnameable] at hphrase
    have hfound : referencesInText phrase.written = [phrase.className] := by
      have hnamed : namedClass? phrase.code = some phrase.className := by
        unfold namedClass?
        rw [hphrase]
        exact if_neg (by simp [hany])
      rw [hscan, hnamed]
      rfl
    refine ⟨?_, fun d' hd' => checkProperty_declared hd' _, hfound, fun user template helement hinside => ?_⟩
    · rw [hread, nodesOfPieces, registerElement_code hphrase hany hp hc hmethod hfree]
      rfl
    · have hne : Markup.text phrase.written ≠ template := by
        rintro rfl
        cases helement
      refine hinside.requires hne user ?_
      rw [referencesIn, hfound]
      exact List.mem_singleton.2 rfl
  · intro hnameable
    rw [if_neg hnameable] at hphrase
    refine ⟨⟨.badElementSubstitution (String.ofList phrase.code), ?_, rfl⟩, ?_⟩
    · rw [hread, nodesOfPieces, registerElement, hphrase]
    · rw [hscan, namedClass?, hphrase]
      rfl

/-- A template that declares a class. -/
def classTemplate (declaration : String) : Markup :=
  .element (.html "template") [⟨.plain classAttr, declaration⟩] true [.element (.html "p") [] false []]

/-- With the classes `Card` and `Card2` declared, cards can be listed under a strict name, whereas no template can
hold a `Card2`, and none can hold a card under the loose name `top$`. -/
theorem ElementPhrase.readText_written_cards :
    (readText ⟨fun name => some ⟨⟨0⟩, name⟩, true⟩ (.ofParent none) "\x7b for Card of this.cards \x7d").toOption.isSome
      = true ∧
    (∃ e, readText ⟨fun name => some ⟨⟨0⟩, name⟩, true⟩ (.ofParent none) "\x7b Card2 this.card \x7d" = .error e ∧
      e.kind = .syntaxKind) ∧
    (∃ e, readText ⟨fun name => some ⟨⟨0⟩, name⟩, false⟩ (.ofParent none) "\x7b Card this.top$ \x7d" = .error e ∧
      e.kind = .syntaxKind) := by
  have hcard : readHeader (classTemplate "Card") = .ok ⟨"Card", false, none⟩ := by rfl
  have hcard2 : readHeader (classTemplate "Card2") = .ok ⟨"Card2", false, none⟩ := by rfl
  have hlist := ElementPhrase.readText_written (r := ⟨fun name => some ⟨⟨0⟩, name⟩, true⟩) (d := .ofParent none)
    ⟨true, "Card", "cards"⟩ hcard rfl (by decide) rfl rfl rfl
  have hdigit := ElementPhrase.readText_written (r := ⟨fun name => some ⟨⟨0⟩, name⟩, true⟩) (d := .ofParent none)
    ⟨false, "Card2", "card"⟩ hcard2 rfl (by decide) rfl rfl rfl
  have hdollar := ElementPhrase.readText_written (r := ⟨fun name => some ⟨⟨0⟩, name⟩, false⟩) (d := .ofParent none)
    ⟨false, "Card", "top$"⟩ hcard rfl (by decide) rfl rfl rfl
  refine ⟨?_, (hdigit.2 (by decide)).1, (hdollar.2 (by decide)).1⟩
  have hok := (hlist.1 (by decide)).1
  have hwritten : ElementPhrase.written ⟨true, "Card", "cards"⟩ = "\x7b for Card of this.cards \x7d" := by rfl
  rw [← hwritten, hok]
  rfl

end Template

end ReactiveView
