import ReactiveView.Handler
import ReactiveView.Proofs.Template.Naming

/-!
# Handlers as they are written

A body of a handler is written from a list of steps: a call is the name of a method, with `this.` in front of it or
not, and with parentheses behind it or not; a dispatch is the word `dispatch` and, in parentheses, the name of an
event in quotes of either kind and perhaps a word for the payload. Blanks may stand around each part, and what stands
between two semicolons may be blank altogether. `HandlerStep.Writes` and `Fills` say this, without the order in which
the reader tries the two kinds of statements.

A body is compiled exactly when it is written from steps that call known methods, and the steps are those it is
written from, with the names of events in lower case (`compile_written`).
-/

set_option autoImplicit false

namespace ReactiveView

open ReactiveView.Text
open ReactiveView.Template

namespace HandlerStep

/-! ## The grammar -/

/-- A word for the payload, with blanks around it. -/
inductive Payload : List Char → Prop where
  | word {a w b : List Char} (ha : Blanks a) (hw : w ∈ Handler.payloadWords) (hb : Blanks b) : Payload (a ++ w ++ b)

/-- What may follow the name of a method. -/
inductive Arguments : List Char → Prop where
  | absent : Arguments []
  | blank {inner : List Char} (h : Blanks inner) : Arguments ('(' :: (inner ++ [')']))
  | payload {inner : List Char} (h : Payload inner) : Arguments ('(' :: (inner ++ [')']))

/-- What may follow the name of an event. -/
inductive SecondArgument : List Char → Prop where
  | absent {a : List Char} (ha : Blanks a) : SecondArgument a
  | payload {a inner : List Char} (ha : Blanks a) (h : Payload inner) : SecondArgument (a ++ ',' :: inner)

/-- How a step can be written as a statement, without blanks around it. -/
inductive Writes : HandlerStep → List Char → Prop where
  | call {method : String} {lead arguments : List Char} (hlead : lead = [] ∨ lead = "this.".toList)
      (hmethod : isIdentifier method.toList = true) (harguments : Arguments arguments) :
      Writes (.call method) (lead ++ (method.toList ++ arguments))
  | dispatch {event : String} {quote : Char} {a second : List Char} (hquote : quote = '"' ∨ quote = '\'')
      (ha : Blanks a) (hevent : Handler.isEventName event.toList = true) (hsecond : SecondArgument second) :
      Writes (.dispatch event)
        ("dispatch(".toList ++ (a ++ quote :: (event.toList ++ quote :: second)) ++ [')'])

/-- The pieces between the semicolons of a body, with the steps they are written from. -/
inductive Fills : List HandlerStep → List (List Char) → Prop where
  | nil : Fills [] []
  | blank {steps : List HandlerStep} {piece : List Char} {pieces : List (List Char)} (hpiece : Blanks piece)
      (h : Fills steps pieces) : Fills steps (piece :: pieces)
  | statement {s : HandlerStep} {steps : List HandlerStep} {a cs b : List Char} {pieces : List (List Char)}
      (ha : Blanks a) (hs : Writes s cs) (hb : Blanks b) (h : Fills steps pieces) :
      Fills (s :: steps) ((a ++ cs ++ b) :: pieces)

/-- A body written from steps: pieces with semicolons between them. -/
def Spells (steps : List HandlerStep) (body : String) : Prop :=
  ∃ pieces, Fills steps pieces ∧ body.toList = joinWith [';'] pieces

/-- The step as it is kept: names of events are in lower case. -/
def lowered : HandlerStep → HandlerStep
  | call method => call method
  | dispatch event => dispatch (lowercase event)

/-- A step that calls a method calls a known one. -/
def Known (isMethod : String → Bool) : HandlerStep → Prop
  | call method => isMethod method = true
  | dispatch _ => True

/-! ## Which characters occur -/

section Characters

variable {cs : List Char} {c : Char}

theorem not_mem_of_name (h : ∀ x ∈ cs, isNameChar x = true) (hc : isNameChar c = false) : c ∉ cs := by
  intro hmem
  simp [h c hmem] at hc

/-- A method is named by name characters. -/
theorem name_of_isIdentifier (h : isIdentifier cs = true) : cs ≠ [] ∧ ∀ x ∈ cs, isNameChar x = true := by
  refine name_of_leads h (fun x hx => ?_) fun x hx => hx
  simp only [isNameChar, isAlnum, Bool.or_eq_true] at hx ⊢
  exact hx.imp_left (Or.imp_left Or.inl)

/-- The name of an event is letters, digits, underscores and hyphens. -/
theorem not_mem_of_isEventName (h : Handler.isEventName cs = true) (hname : isNameChar c = false) (hhyphen : c ≠ '-') :
    c ∉ cs := by
  have hchar : ∀ x, Handler.isEventChar x = true → isNameChar x = true ∨ x = '-' := by
    intro x hx
    simp only [Handler.isEventChar, isNameChar, Bool.or_eq_true, beq_iff_eq] at hx ⊢
    exact hx.imp_left Or.inl
  cases cs with
  | nil => exact List.not_mem_nil
  | cons first rest =>
    obtain ⟨hfirst, hrest⟩ := Bool.and_eq_true_iff.1 h
    have hletter : isNameChar first = true := by
      simp [isNameChar, isAlnum, hfirst]
    intro hmem
    rcases List.mem_cons.1 hmem with rfl | hmem
    · simp [hletter] at hname
    · rcases hchar c (List.all_eq_true.1 hrest c hmem) with hc | hc
      · simp [hc] at hname
      · exact hhyphen hc

/-- In what stands for the payload there are blanks and name characters only. -/
theorem Payload.not_mem (h : Payload cs) (hblank : isBlank c = false) (hname : isNameChar c = false) : c ∉ cs := by
  obtain ⟨ha, hw, hb⟩ := h
  have hwords : (Handler.payloadWords.all fun w => w.all isNameChar) = true := by decide
  have hword : ∀ x ∈ _, isNameChar x = true := List.all_eq_true.1 (List.all_eq_true.1 hwords _ hw)
  simp only [List.mem_append, not_or]
  exact ⟨⟨ha.not_mem hblank, not_mem_of_name hword hname⟩, hb.not_mem hblank⟩

theorem Arguments.not_mem (h : Arguments cs) (hblank : isBlank c = false) (hname : isNameChar c = false)
    (hopen : c ≠ '(') (hclose : c ≠ ')') : c ∉ cs := by
  cases h with
  | absent => exact List.not_mem_nil
  | blank h => simp [hopen, hclose, h.not_mem hblank]
  | payload h => simp [hopen, hclose, h.not_mem hblank hname]

theorem SecondArgument.not_mem (h : SecondArgument cs) (hblank : isBlank c = false) (hname : isNameChar c = false)
    (hcomma : c ≠ ',') : c ∉ cs := by
  cases h with
  | absent ha => exact ha.not_mem hblank
  | payload ha h => simp [hcomma, ha.not_mem hblank, h.not_mem hblank hname]

/-- No statement holds a semicolon. -/
theorem Writes.semicolon_not_mem {s : HandlerStep} (h : Writes s cs) : ';' ∉ cs := by
  cases h with
  | call hlead hmethod harguments =>
    have hname := not_mem_of_name (c := ';') (name_of_isIdentifier hmethod).2 (by decide)
    have hrest := harguments.not_mem (c := ';') (by decide) (by decide) (by decide) (by decide)
    rcases hlead with rfl | rfl
    · simp [hname, hrest]
    · simp [hname, hrest]
  | dispatch hquote ha hevent hsecond =>
    have hname := not_mem_of_isEventName (c := ';') hevent (by decide) (by decide)
    have hrest := hsecond.not_mem (c := ';') (by decide) (by decide) (by decide)
    have hblank := ha.not_mem (c := ';') (by decide)
    rcases hquote with rfl | rfl
    · simp [hblank, hname, hrest]
    · simp [hblank, hname, hrest]

/-- A call holds no quote, whereas every dispatch does, so nothing is written from both. -/
theorem Writes.not_call_of_dispatch {method event : String} (hcall : Writes (.call method) cs)
    (hdispatch : Writes (.dispatch event) cs) : False := by
  have hfree : ∀ quote : Char, quote = '"' ∨ quote = '\'' → quote ∉ cs := by
    intro quote hquote
    cases hcall with
    | call hlead hmethod harguments =>
      have hnot : isBlank quote = false ∧ isNameChar quote = false ∧ quote ≠ '(' ∧ quote ≠ ')' ∧
          quote ∉ "this.".toList := by
        rcases hquote with rfl | rfl
        · decide
        · decide
      obtain ⟨hblank, hname, hopen, hclose, hthis⟩ := hnot
      have hmethod := not_mem_of_name (name_of_isIdentifier hmethod).2 hname
      have hrest := harguments.not_mem hblank hname hopen hclose
      rcases hlead with rfl | rfl
      · simp [hmethod, hrest]
      · simp only [List.mem_append, hthis, hmethod, hrest, or_self, not_false_eq_true]
  cases hdispatch with
  | dispatch hquote ha hevent hsecond =>
    apply hfree _ hquote
    simp

/-- A statement neither starts nor ends with a blank. -/
theorem Writes.trim_eq {s : HandlerStep} (h : Writes s cs) : trim cs = cs := by
  cases h with
  | @call method lead arguments hlead hmethod harguments =>
    obtain ⟨hne, hchars⟩ := name_of_isIdentifier hmethod
    have hmem : ∀ x ∈ method.toList, isBlank x = false := fun x hx => isBlank_of_isNameChar (hchars x hx)
    apply trim_eq_self
    · intro x hx
      rcases hlead with rfl | rfl
      · rw [List.nil_append, List.head?_append_of_ne_nil _ hne] at hx
        exact hmem x (List.mem_of_mem_head? hx)
      · obtain rfl : 't' = x := by simpa using hx
        decide
    · intro x hx
      rw [List.getLast?_append, List.getLast?_append] at hx
      cases harguments with
      | absent =>
        obtain ⟨last, hlast⟩ := Option.ne_none_iff_exists'.1 (mt List.getLast?_eq_none_iff.1 hne)
        obtain rfl : last = x := by simpa [hlast] using hx
        exact hmem last (List.mem_of_getLast? hlast)
      | blank hinner =>
        obtain rfl : ')' = x := by simpa [List.getLast?_cons, List.getLast?_append] using hx
        decide
      | payload hinner =>
        obtain rfl : ')' = x := by simpa [List.getLast?_cons, List.getLast?_append] using hx
        decide
  | dispatch hquote ha hevent hsecond =>
    apply trim_eq_self
    · intro x hx
      obtain rfl : 'd' = x := by simpa using hx
      decide
    · intro x hx
      rw [List.getLast?_concat] at hx
      obtain rfl := Option.some.inj hx
      decide

theorem Writes.ne_nil {s : HandlerStep} (h : Writes s cs) : cs ≠ [] := by
  cases h with
  | call hlead hmethod harguments => simp [(name_of_isIdentifier hmethod).1]
  | dispatch hquote ha hevent hsecond => simp

end Characters

end HandlerStep

namespace Handler

open HandlerStep

/-! ## Reading one statement -/

section Reading

variable {cs : List Char}

theorem payload_iff : Payload cs ↔ trim cs ∈ payloadWords := by
  constructor
  · rintro ⟨ha, hw, hb⟩
    have hbare : ∀ w ∈ payloadWords, trim w = w := by decide
    rwa [trim_surrounded ha hb, hbare _ hw]
  · intro h
    obtain ⟨a, b, ha, hb, hcs⟩ := exists_trim cs
    rw [hcs]
    exact .word ha h hb

theorem inParens?_eq_some_iff {lead inner : List Char} :
    inParens? lead cs = some inner ↔ cs = lead ++ inner ++ [')'] := by
  unfold inParens?
  constructor
  · intro h
    split at h
    · next hlead =>
      obtain ⟨rest, rfl⟩ := List.isPrefixOf_iff_prefix.1 hlead
      rw [List.drop_left] at h
      split at h
      · next reversed hreversed =>
        obtain rfl := Option.some.inj h
        have hrest := congrArg List.reverse hreversed
        rw [List.reverse_reverse, List.reverse_cons] at hrest
        rw [hrest, List.append_assoc]
      · cases h
    · cases h
  · rintro rfl
    have hlead : lead.isPrefixOf (lead ++ inner ++ [')']) = true := by
      simp [List.isPrefixOf_iff_prefix]
    rw [if_pos hlead, List.append_assoc, List.drop_left]
    simp

/-- A quoted name ends at the first quote of its kind, and no name holds a quote. -/
theorem quotedName?_eq_some_iff {name after : List Char} : quotedName? cs = some (name, after) ↔
    ∃ quote, (quote = '"' ∨ quote = '\'') ∧ cs = quote :: (name ++ quote :: after) ∧ isEventName name = true := by
  constructor
  · intro h
    unfold quotedName? at h
    split at h
    · cases h
    · next quote rest =>
      split at h
      · next hquote =>
        split at h
        · next found behind hcut =>
          split at h
          · next hname =>
            obtain ⟨rfl, rfl⟩ := Prod.mk.inj (Option.some.inj h)
            obtain ⟨rfl, -⟩ := cut?_spec hcut
            exact ⟨quote, hquote, rfl, hname⟩
          · cases h
        · cases h
      · cases h
  · rintro ⟨quote, hquote, rfl, hname⟩
    have hfree : quote ∉ name := by
      apply not_mem_of_isEventName hname
      all_goals rcases hquote with rfl | rfl
      all_goals decide
    simp only [quotedName?, if_pos hquote, cut?_append hfree, if_pos hname]

/-- What follows the name of an event is blank, or a comma and a word for the payload. -/
theorem secondArgument_iff : SecondArgument cs ↔
    trimStart cs = [] ∨ ∃ more, trimStart cs = ',' :: more ∧ trim more ∈ payloadWords := by
  constructor
  · intro h
    cases h with
    | absent ha => exact .inl (trimStart_eq_nil_iff.2 ha)
    | payload ha h => exact .inr ⟨_, trimStart_append_cons ha (by decide) _, payload_iff.1 h⟩
  · rintro (hnil | ⟨more, hmore, hword⟩)
    · exact .absent (trimStart_eq_nil_iff.1 hnil)
    · obtain ⟨a, ha, hcs⟩ := exists_trimStart cs
      rw [hcs, hmore]
      exact .payload ha (payload_iff.2 hword)

/-- A dispatch is read exactly as it is written, with its event in lower case. -/
theorem dispatchStatement?_eq_some_iff {event : String} :
    dispatchStatement? cs = some event ↔ ∃ e, Writes (.dispatch e) cs ∧ event = lowercase e := by
  constructor
  · intro h
    unfold dispatchStatement? at h
    split at h
    · cases h
    · next inner hinner =>
      split at h
      · cases h
      · next name after hquoted =>
        obtain rfl := inParens?_eq_some_iff.1 hinner
        obtain ⟨quote, hquote, hstart, hname⟩ := quotedName?_eq_some_iff.1 hquoted
        obtain ⟨a, ha, hfront⟩ := exists_trimStart inner
        have hwritten (hsecond : SecondArgument after) :
            Writes (.dispatch (String.ofList name)) ("dispatch(".toList ++ inner ++ [')']) := by
          rw [hfront, hstart]
          have hdispatch : Writes (.dispatch (String.ofList name))
              ("dispatch(".toList ++ (a ++ quote :: ((String.ofList name).toList ++ quote :: after)) ++ [')']) :=
            .dispatch hquote ha (by simpa using hname) hsecond
          simpa using hdispatch
        split at h
        · next hrest =>
          obtain rfl := Option.some.inj h
          exact ⟨_, hwritten (secondArgument_iff.2 (.inl hrest)), rfl⟩
        · next more hrest =>
          split at h
          · next hmore =>
            obtain rfl := Option.some.inj h
            exact ⟨_, hwritten (secondArgument_iff.2 (.inr ⟨more, hrest, by simpa using hmore⟩)), rfl⟩
          · cases h
        · cases h
  · rintro ⟨e, hwritten, rfl⟩
    cases hwritten with
    | @dispatch event quote a second hquote ha hevent hsecond =>
      have hnotBlank : isBlank quote = false := by
        rcases hquote with rfl | rfl
        · decide
        · decide
      have hquoted : quotedName? (quote :: (e.toList ++ quote :: second)) = some (e.toList, second) :=
        quotedName?_eq_some_iff.2 ⟨quote, hquote, rfl, hevent⟩
      unfold dispatchStatement?
      rw [inParens?_eq_some_iff.2 rfl]
      simp only [trimStart_append_cons ha hnotBlank, hquoted]
      rcases secondArgument_iff.1 hsecond with hnil | ⟨more, hmore, hword⟩
      · rw [hnil]
        simp
      · rw [hmore]
        simp [hword]

/-- Reads a call without `this.` in front. -/
def bareCall? (cs : List Char) : Option String :=
  if isIdentifier (cs.takeWhile isNameChar) then
    if (cs.dropWhile isNameChar).isEmpty then some (String.ofList (cs.takeWhile isNameChar))
    else
      match inParens? ['('] (cs.dropWhile isNameChar) with
      | some inner =>
        if (trim inner).isEmpty || payloadWords.contains (trim inner) then
          some (String.ofList (cs.takeWhile isNameChar))
        else none
      | none => none
  else none

theorem callStatement?_eq (cs : List Char) :
    callStatement? cs = bareCall? (if "this.".toList.isPrefixOf cs then cs.drop 5 else cs) :=
  rfl

/-- What follows the name of a method is empty or in parentheses. -/
theorem arguments_iff : Arguments cs ↔
    cs = [] ∨ ∃ inner, inParens? ['('] cs = some inner ∧ (trim inner = [] ∨ trim inner ∈ payloadWords) := by
  simp only [inParens?_eq_some_iff, trim_eq_nil_iff, ← payload_iff]
  constructor
  · intro h
    cases h with
    | absent => exact .inl rfl
    | @blank inner h => exact .inr ⟨inner, rfl, .inl h⟩
    | @payload inner h => exact .inr ⟨inner, rfl, .inr h⟩
  · rintro (rfl | ⟨inner, rfl, h | h⟩)
    · exact .absent
    · exact .blank h
    · exact .payload h

/-- The name of a method ends where its arguments begin. -/
theorem span_append {name arguments : List Char} (hname : ∀ x ∈ name, isNameChar x = true)
    (harguments : Arguments arguments) :
    (name ++ arguments).takeWhile isNameChar = name ∧ (name ++ arguments).dropWhile isNameChar = arguments := by
  have hopen : isNameChar '(' = false := by decide
  have hends : arguments.takeWhile isNameChar = [] ∧ arguments.dropWhile isNameChar = arguments := by
    cases harguments with
    | absent => simp
    | blank h => simp [hopen]
    | payload h => simp [hopen]
  rw [List.takeWhile_append_of_pos hname, List.dropWhile_append_of_pos hname, hends.1, hends.2, List.append_nil]
  exact ⟨rfl, rfl⟩

/-- A call without `this.` in front is read exactly as it is written. -/
theorem bareCall?_eq_some_iff {method : String} : bareCall? cs = some method ↔
    isIdentifier method.toList = true ∧ ∃ arguments, Arguments arguments ∧ cs = method.toList ++ arguments := by
  constructor
  · intro h
    have hcs : cs = cs.takeWhile isNameChar ++ cs.dropWhile isNameChar := List.takeWhile_append_dropWhile.symm
    unfold bareCall? at h
    split at h
    · next hname =>
      have hread (harguments : Arguments (cs.dropWhile isNameChar))
          (hmethod : String.ofList (cs.takeWhile isNameChar) = method) :
          isIdentifier method.toList = true ∧
            ∃ arguments, Arguments arguments ∧ cs = method.toList ++ arguments := by
        subst hmethod
        rw [String.toList_ofList]
        exact ⟨hname, _, harguments, hcs⟩
      split at h
      · next hempty =>
        exact hread (arguments_iff.2 (.inl (by simpa using hempty))) (Option.some.inj h)
      · split at h
        · next inner hinner =>
          split at h
          · next hinside =>
            have hkind : trim inner = [] ∨ trim inner ∈ payloadWords := by
              simpa using hinside
            exact hread (arguments_iff.2 (.inr ⟨inner, hinner, hkind⟩)) (Option.some.inj h)
          · cases h
        · cases h
    · cases h
  · rintro ⟨hmethod, arguments, harguments, rfl⟩
    obtain ⟨htake, hdrop⟩ := span_append (name_of_isIdentifier hmethod).2 harguments
    unfold bareCall?
    rw [htake, hdrop, if_pos hmethod, String.ofList_toList]
    rcases arguments_iff.1 harguments with rfl | ⟨inner, hinner, hkind⟩
    · simp
    · rw [hinner]
      have hinside : ((trim inner).isEmpty || payloadWords.contains (trim inner)) = true := by
        simpa using hkind
      by_cases hempty : arguments.isEmpty = true
      · exact if_pos hempty
      · rw [if_neg hempty]
        exact if_pos hinside

/-- A call is read exactly as it is written. -/
theorem callStatement?_eq_some_iff {method : String} : callStatement? cs = some method ↔ Writes (.call method) cs := by
  rw [callStatement?_eq]
  constructor
  · intro h
    split at h
    · next hthis =>
      obtain ⟨rest, rfl⟩ := List.isPrefixOf_iff_prefix.1 hthis
      obtain ⟨hmethod, arguments, harguments, hrest⟩ := bareCall?_eq_some_iff.1 h
      obtain rfl : rest = method.toList ++ arguments := hrest
      exact .call (.inr rfl) hmethod harguments
    · obtain ⟨hmethod, arguments, harguments, rfl⟩ := bareCall?_eq_some_iff.1 h
      exact .call (.inl rfl) hmethod harguments
  · intro h
    cases h with
    | @call method lead arguments hlead hmethod harguments =>
      have hbare := bareCall?_eq_some_iff.2 ⟨hmethod, arguments, harguments, rfl⟩
      rcases hlead with rfl | rfl
      · -- without `this.` there is no point, so nothing is taken away
        have hthis : ¬ "this.".toList.isPrefixOf (method.toList ++ arguments) = true := by
          intro hprefix
          obtain ⟨rest, hrest⟩ := List.isPrefixOf_iff_prefix.1 hprefix
          have hname := not_mem_of_name (c := '.') (name_of_isIdentifier hmethod).2 (by decide)
          have hfree := harguments.not_mem (c := '.') (by decide) (by decide) (by decide) (by decide)
          have hpoint : '.' ∈ method.toList ++ arguments := by
            rw [← hrest]
            simp
          exact (List.mem_append.1 hpoint).elim hname hfree
        rw [List.nil_append, if_neg hthis]
        exact hbare
      · have hthis : "this.".toList.isPrefixOf ("this.".toList ++ (method.toList ++ arguments)) = true :=
          List.isPrefixOf_iff_prefix.2 (List.prefix_append _ _)
        rw [if_pos hthis]
        exact hbare

/-- One statement gives the step it is written from, whichever kind of statement is tried first. -/
theorem step_eq_ok_iff {isMethod : String → Bool} {body : String} {st : HandlerStep} :
    step isMethod body cs = .ok st ↔ ∃ s, Writes s cs ∧ s.Known isMethod ∧ st = s.lowered := by
  unfold step
  constructor
  · intro h
    split at h
    · next event hevent =>
      obtain rfl := Except.ok.inj h
      obtain ⟨e, hwritten, rfl⟩ := dispatchStatement?_eq_some_iff.1 hevent
      exact ⟨.dispatch e, hwritten, trivial, rfl⟩
    · split at h
      · next method hmethod =>
        split at h
        · next hknown =>
          obtain rfl := Except.ok.inj h
          exact ⟨.call method, callStatement?_eq_some_iff.1 hmethod, hknown, rfl⟩
        · cases h
      · cases h
  · rintro ⟨s, hwritten, hknown, rfl⟩
    cases s with
    | dispatch event =>
      rw [dispatchStatement?_eq_some_iff.2 ⟨event, hwritten, rfl⟩]
      rfl
    | call method =>
      have hnone : dispatchStatement? cs = none := by
        rw [Option.eq_none_iff_forall_ne_some]
        intro event hevent
        obtain ⟨e, hdispatch, -⟩ := dispatchStatement?_eq_some_iff.1 hevent
        exact hwritten.not_call_of_dispatch hdispatch
      rw [hnone, callStatement?_eq_some_iff.2 hwritten]
      exact if_pos hknown

end Reading

/-! ## Reading a body -/

section Bodies

variable {isMethod : String → Bool} {body : String} {steps : List HandlerStep}

theorem stepsOf_eq_ok_iff {statements : List (List Char)} {sts : List HandlerStep} :
    stepsOf isMethod body statements = .ok sts ↔
      ∃ steps, List.Forall₂ Writes steps statements ∧ (∀ s ∈ steps, s.Known isMethod) ∧
        sts = steps.map lowered := by
  induction statements generalizing sts with
  | nil =>
    rw [stepsOf]
    constructor
    · intro h
      obtain rfl := Except.ok.inj h
      exact ⟨[], .nil, by simp, rfl⟩
    · rintro ⟨steps, hwritten, -, rfl⟩
      cases hwritten
      rfl
  | cons cs rest ih =>
    rw [stepsOf]
    constructor
    · intro h
      split at h
      · cases h
      · next st hst =>
        split at h
        · cases h
        · next sts' hrest =>
          obtain rfl := Except.ok.inj h
          obtain ⟨s, hs, hknown, rfl⟩ := step_eq_ok_iff.1 hst
          obtain ⟨steps, hsteps, hall, rfl⟩ := ih.1 hrest
          exact ⟨s :: steps, .cons hs hsteps, List.forall_mem_cons.2 ⟨hknown, hall⟩, rfl⟩
    · rintro ⟨steps, hwritten, hknown, rfl⟩
      cases hwritten with
      | @cons s _ steps _ hs hsteps =>
        obtain ⟨hfirst, hall⟩ := List.forall_mem_cons.1 hknown
        rw [step_eq_ok_iff.2 ⟨s, hs, hfirst, rfl⟩, ih.2 ⟨steps, hsteps, hall, rfl⟩]
        rfl

/-- A body is refused with a syntax error and no other. -/
theorem kind_of_stepsOf {statements : List (List Char)} {e : Error}
    (h : stepsOf isMethod body statements = .error e) : e.kind = .syntaxKind := by
  have hstep {cs : List Char} {e : Error} (h : step isMethod body cs = .error e) : e.kind = .syntaxKind := by
    unfold step at h
    split at h
    · cases h
    · split at h
      · split at h
        · cases h
        · cases h; rfl
      · cases h; rfl
  induction statements with
  | nil => cases h
  | cons cs rest ih =>
    rw [stepsOf] at h
    split at h
    · next hs =>
      cases h
      exact hstep hs
    · split at h
      · next hrest =>
        cases h
        exact ih hrest
      · cases h

/-- The pieces that are not blank are the statements, in order. -/
theorem fills_iff {pieces : List (List Char)} :
    Fills steps pieces ↔ List.Forall₂ Writes steps ((pieces.map trim).filter fun s => !s.isEmpty) := by
  constructor
  · intro h
    induction h with
    | nil => exact .nil
    | blank hpiece h ih => simpa [trim_eq_nil_iff.2 hpiece] using ih
    | @statement s steps a cs b pieces ha hs hb h ih =>
      have htrim : trim (a ++ cs ++ b) = cs := (trim_surrounded ha hb cs).trans hs.trim_eq
      have hkept : (!cs.isEmpty) = true := by simpa using hs.ne_nil
      rw [List.map_cons, htrim, List.filter_cons_of_pos (p := fun s : List Char => !s.isEmpty) hkept]
      exact .cons hs ih
  · intro h
    induction pieces generalizing steps with
    | nil =>
      cases h
      exact .nil
    | cons piece rest ih =>
      by_cases hblank : Blanks piece
      · rw [List.map_cons, trim_eq_nil_iff.2 hblank, List.filter_cons_of_neg (by simp)] at h
        exact .blank hblank (ih h)
      · have hkept : (!(trim piece).isEmpty) = true := by simpa using mt trim_eq_nil_iff.1 hblank
        rw [List.map_cons, List.filter_cons_of_pos (p := fun s : List Char => !s.isEmpty) hkept] at h
        cases h with
        | cons hs hrest =>
          obtain ⟨a, b, ha, hb, hpiece⟩ := exists_trim piece
          rw [hpiece]
          exact .statement ha hs hb (ih hrest)

theorem Fills.semicolon_not_mem {pieces : List (List Char)} (h : Fills steps pieces) :
    ∀ piece ∈ pieces, ';' ∉ piece := by
  induction h with
  | nil => simp
  | blank hpiece h ih => exact List.forall_mem_cons.2 ⟨hpiece.not_mem (by decide), ih⟩
  | statement ha hs hb h ih =>
    refine List.forall_mem_cons.2 ⟨?_, ih⟩
    have hfront := ha.not_mem (c := ';') (by decide)
    have hback := hb.not_mem (c := ';') (by decide)
    simp [hfront, hback, hs.semicolon_not_mem]

/-- A body is written from steps exactly when its statements are, one from each. -/
theorem spells_iff (hne : steps ≠ []) :
    Spells steps body ↔ List.Forall₂ Writes steps (statements body.toList) := by
  constructor
  · rintro ⟨pieces, hfills, hbody⟩
    have hpieces : pieces ≠ [] := by
      rintro rfl
      cases hfills
      exact hne rfl
    rw [statements, hbody, splitAt_joinWith hpieces (Fills.semicolon_not_mem hfills)]
    exact fills_iff.1 hfills
  · intro h
    exact ⟨splitAt ';' body.toList, fills_iff.2 h, (joinWith_splitAt ';' body.toList).symm⟩

/-- A body compiles exactly when it is written from at least one step and calls known methods only. -/
theorem compile_eq_ok_iff {h : Handler} : compile isMethod body = .ok h ↔
    ∃ steps, steps ≠ [] ∧ (∀ s ∈ steps, s.Known isMethod) ∧ Spells steps body ∧
      h = ⟨trimmed body, steps.map lowered⟩ := by
  unfold compile
  constructor
  · intro hcompile
    dsimp only at hcompile
    split at hcompile
    · cases hcompile
    · cases hcompile
    · next sts hne hsts =>
      obtain rfl := Except.ok.inj hcompile
      obtain ⟨steps, hwritten, hknown, rfl⟩ := stepsOf_eq_ok_iff.1 hsts
      have hsteps : steps ≠ [] := by
        rintro rfl
        exact hne rfl
      exact ⟨steps, hsteps, hknown, (spells_iff hsteps).2 hwritten, rfl⟩
  · rintro ⟨steps, hsteps, hknown, hspells, rfl⟩
    have hsts : stepsOf isMethod (trimmed body) (statements body.toList) = .ok (steps.map lowered) :=
      stepsOf_eq_ok_iff.2 ⟨steps, (spells_iff hsteps).1 hspells, hknown, rfl⟩
    cases steps with
    | nil => exact absurd rfl hsteps
    | cons s rest =>
      dsimp only
      rw [hsts]
      rfl

/-- A body that does not compile is a syntax error. -/
theorem kind_of_compile {e : Error} (h : compile isMethod body = .error e) : e.kind = .syntaxKind := by
  unfold compile at h
  dsimp only at h
  split at h
  · next hsts =>
    cases h
    exact kind_of_stepsOf hsts
  · cases h
    rfl
  · cases h

end Bodies

/-- A body compiles to the steps it is written from, with the names of events in lower case, and to nothing else. It
compiles if it is written from at least one step and all methods it calls are known; a body that is not written so is
a syntax error. -/
theorem compile_written (isMethod : String → Bool) (body : String) :
    (∀ h : Handler, compile isMethod body = .ok h ↔
      ∃ steps, steps ≠ [] ∧ (∀ s ∈ steps, s.Known isMethod) ∧ Spells steps body ∧
        h = ⟨trimmed body, steps.map lowered⟩) ∧
    ((¬ ∃ steps, steps ≠ [] ∧ (∀ s ∈ steps, s.Known isMethod) ∧ Spells steps body) →
      ∃ e, compile isMethod body = .error e ∧ e.kind = .syntaxKind) := by
  refine ⟨fun h => compile_eq_ok_iff, fun hnone => ?_⟩
  cases hcompile : compile isMethod body with
  | ok h =>
    obtain ⟨steps, hsteps, hknown, hspells, -⟩ := compile_eq_ok_iff.1 hcompile
    exact absurd ⟨steps, hsteps, hknown, hspells⟩ hnone
  | error e => exact ⟨e, rfl, kind_of_compile hcompile⟩

/-- Blanks and empty statements are passed over, and names of events are lowered. -/
example : (compile (· == "save") " this.save( ) ; ;dispatch('Done' , event);").toOption.map Handler.steps =
    some [.call "save", .dispatch "done"] := by
  decide +kernel

end Handler

end ReactiveView
