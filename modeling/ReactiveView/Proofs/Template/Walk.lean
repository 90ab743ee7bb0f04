import ReactiveView.Proofs.Template.Serves
import ReactiveView.Proofs.Template.Validity

/-!
# The walk through a template

Every declaration and every step of the walk through the view leaves a draft that serves what has been
read so far (`Template.Draft.Serves`): there is one lemma for each function of the reader, down from
`serves_readNode` and `serves_readNodes` to the substitutions.

The walk also finds the extension point. After a node has been read the draft has the extension point it
had before, or one that leads to a place in the node (`Leads`).
-/

set_option autoImplicit false

namespace ReactiveView.Template

open Draft

variable {r : Reading} {d d' : Draft} {u : Uses} {point : Option (List Nat)}

/-! ## Substitutions -/

theorem declarable_declaredTypes {declared : Option String} {types : Option (List PrimitiveType)}
    (h : declaredTypes declared = .ok types) : ∀ ts, types = some ts → Declarable ts := by
  intro ts hts
  subst hts
  unfold declaredTypes at h
  cases declared with
  | none => cases h
  | some declaration =>
    dsimp only at h
    cases hparse : parseTypes declaration with
    | error e => simp [hparse, Except.map] at h
    | ok ts' =>
      simp only [hparse, Except.map, Except.ok.injEq, Option.some.injEq] at h
      rw [← h]
      exact declarable_parseTypes hparse

theorem serves_registerAttribute {declared : Option String} {name : String}
    (h : registerAttribute d declared name = .ok d') (hd : d.Serves u point) :
    d'.Serves u point ∧ d'.Provides (.attr name) := by
  unfold registerAttribute at h
  split at h
  · cases h
  · split at h
    · cases h
    · next a ha =>
      have hprovides : d.Provides (.attr name) :=
        ⟨a, List.mem_of_find?_eq_some ha, by simpa using List.find?_some ha⟩
      have heq : d' = d := by
        (repeat' split at h) <;> first | cases h; done | exact (Except.ok.inj h).symm
      rw [heq]
      exact ⟨hd, hprovides⟩

theorem serves_registerPrimitive {declared : Option String} {name : String}
    (h : registerPrimitive r d declared name = .ok d') (hd : d.Serves u point) :
    d'.Serves u point ∧ d'.Provides (.property name) := by
  -- whatever is put under the name is primitive and has its place
  have hput {p : PropertyDescriptor} (hput : d.Puts p d') (hname : p.name = name)
      (hprim : p.kind.isPrimitive = true) (hsite : p.hasSite = true)
      (htypes : ∀ ts, p.kind.types? = some ts → Declarable ts)
      (hold : ∀ q, d.property? name = some q → q.kind.isPrimitive = true) :
      d'.Serves u point ∧ d'.Provides (.property name) := by
    subst hname
    refine ⟨hd.putPrimitive hput hprim ⟨fun _ => hsite, htypes⟩ fun q hq => ⟨hold q hq, fun _ => hsite⟩,
      p, ?_, hprim, hsite⟩
    rw [hput.property?, if_pos rfl]
  unfold registerPrimitive at h
  split at h
  · cases h
  · split at h
    · cases h
    · split at h
      · cases h
      · next types htypes =>
        have hdeclarable := declarable_declaredTypes htypes
        split at h
        · next hnone =>
          obtain rfl := Except.ok.inj h
          refine hput (puts_addProperty hnone) rfl rfl rfl hdeclarable fun q hq => ?_
          rw [hnone] at hq
          cases hq
        · next p hp =>
          have hname := (property?_some hp).2
          split at h
          · next known hkind =>
            have hprim : p.kind.isPrimitive = true := by rw [hkind]; rfl
            have hold : ∀ q, d.property? name = some q → q.kind.isPrimitive = true := by
              intro q hq
              rw [hp] at hq
              rw [← Option.some.inj hq]
              exact hprim
            have hknown := (hd.placed _ p hp).types
            split at h
            · split at h
              · obtain rfl := Except.ok.inj h
                exact hput (puts_setProperty hp hname) hname hprim rfl hknown hold
              · cases h
            · obtain rfl := Except.ok.inj h
              exact hput (puts_setProperty hp hname) hname rfl rfl hdeclarable hold
            · obtain rfl := Except.ok.inj h
              exact hput (puts_setProperty hp hname) hname hprim rfl hknown hold
          · cases h

theorem serves_registerText {code : List Char} {source : Source}
    (h : registerText r d code = .ok (source, d')) (hd : d.Serves u point) :
    d'.Serves u point ∧ d'.Provides source := by
  unfold registerText at h
  split at h
  · cases h
  · next declared name _ =>
    cases hreg : registerAttribute d declared name with
    | error e => rw [hreg] at h; cases h
    | ok d₁ =>
      rw [hreg] at h
      obtain ⟨rfl, rfl⟩ := Prod.mk.inj (Except.ok.inj h)
      exact serves_registerAttribute hreg hd
  · next declared name _ =>
    cases hreg : registerPrimitive r d declared name with
    | error e => rw [hreg] at h; cases h
    | ok d₁ =>
      rw [hreg] at h
      obtain ⟨rfl, rfl⟩ := Prod.mk.inj (Except.ok.inj h)
      exact serves_registerPrimitive hreg hd

theorem serves_registerElement {code : List Char} {name : String}
    (h : registerElement r d code = .ok (name, d')) (hd : d.Serves u point) :
    d'.Serves (u ++ { markers := [name] }) point := by
  unfold registerElement at h
  split at h
  · cases h
  · next phrase _ =>
    extract_lets name at h
    split at h
    · cases h
    · split at h
      · cases h
      · split at h
        · cases h
        · next element _ =>
          extract_lets kind at h
          have hkind : kind.isPrimitive = false := by
            simp only [kind]
            split <;> rfl
          split at h
          · next hnone =>
            obtain ⟨rfl, rfl⟩ := Prod.mk.inj (Except.ok.inj h)
            refine hd.putElement (puts_addProperty hnone) hkind rfl fun q hq => ?_
            dsimp only at hq
            rw [hnone] at hq
            cases hq
          · next p hp =>
            have hname := (property?_some hp).2
            split at h
            · cases h
            · next hsite =>
              split at h
              · cases h
              · obtain ⟨rfl, rfl⟩ := Prod.mk.inj (Except.ok.inj h)
                have hput := @puts_setProperty d { p with kind := kind, hasSite := true } p name hp hname
                have hserves := hd.putElement hput hkind rfl fun q hq => by
                  dsimp only at hq
                  rw [hname, hp] at hq
                  rw [← Option.some.inj hq]
                  simpa using hsite
                have hmarker : ({ markers := [name] } : Uses) = { markers := [p.name] } := by
                  rw [hname]
                rw [hmarker]
                exact hserves

/-! ## Texts and values -/

theorem serves_nodesOfPieces {pieces : List Piece} {nodes : List ViewNode}
    (h : nodesOfPieces r d pieces = .ok (nodes, d')) (hd : d.Serves u point) :
    d'.Serves (u ++ ViewNode.usesAll nodes) point := by
  have map_ok {α β : Type} {x : Except Error α} {f : α → β} {b : β} (h : x.map f = .ok b) :
      ∃ a, x = .ok a ∧ f a = b := by
    cases x with
    | error e => cases h
    | ok a => exact ⟨a, rfl, Except.ok.inj h⟩
  induction pieces generalizing d u nodes with
  | nil =>
    unfold nodesOfPieces at h
    obtain ⟨rfl, rfl⟩ := Prod.mk.inj (Except.ok.inj h)
    simpa [ViewNode.usesAll] using hd
  | cons piece rest ih =>
    unfold nodesOfPieces at h
    cases piece with
    | plain s =>
      obtain ⟨⟨nodes', d₁⟩, hrest, heq⟩ := map_ok h
      obtain ⟨rfl, rfl⟩ := Prod.mk.inj heq
      simpa [ViewNode.usesAll, ViewNode.uses] using ih hrest hd
    | ofText code =>
      dsimp only at h
      split at h
      · cases h
      · next source d₁ hreg =>
        obtain ⟨⟨nodes', d₂⟩, hrest, heq⟩ := map_ok h
        obtain ⟨rfl, rfl⟩ := Prod.mk.inj heq
        obtain ⟨hserves, hprovides⟩ := serves_registerText hreg hd
        have := ih hrest (hserves.addText hprovides)
        rwa [Uses.append_assoc] at this
    | ofElement code =>
      dsimp only at h
      split at h
      · cases h
      · next name d₁ hreg =>
        obtain ⟨⟨nodes', d₂⟩, hrest, heq⟩ := map_ok h
        obtain ⟨rfl, rfl⟩ := Prod.mk.inj heq
        have := ih hrest (serves_registerElement hreg hd)
        rwa [Uses.append_assoc] at this
    | fault e => cases h

/-- The format under construction counts as part of the view. -/
theorem serves_formatOfPieces {pieces : List Piece} {f g : Format}
    (h : formatOfPieces r d f pieces = .ok (g, d')) (hd : d.Serves (u ++ { formats := [f] }) point) :
    d'.Serves (u ++ { formats := [g] }) point := by
  induction pieces generalizing d f with
  | nil =>
    unfold formatOfPieces at h
    obtain ⟨rfl, rfl⟩ := Prod.mk.inj (Except.ok.inj h)
    exact hd
  | cons piece rest ih =>
    unfold formatOfPieces at h
    cases piece with
    | plain s =>
      exact ih h (hd.changeFormat (fun hf => hf.addText _) fun s hs =>
        Or.inr (by rwa [Format.sources_addText] at hs))
    | ofText code =>
      dsimp only at h
      split at h
      · cases h
      · next source d₁ hreg =>
        obtain ⟨hserves, hprovides⟩ := serves_registerText hreg hd
        refine ih h (hserves.changeFormat (fun hf => hf.addHole _) fun s hs => ?_)
        rcases mem_sources_addHole hs with rfl | hs
        · exact Or.inl hprovides
        · exact Or.inr hs
    | ofElement code => exact ih h hd
    | fault e => cases h

theorem serves_readFormat {value : String} {f : Format}
    (h : readFormat r d value = .ok (f, d')) (hd : d.Serves u point) :
    d'.Serves (u ++ { formats := [f] }) point := by
  apply serves_formatOfPieces h
  apply hd.addFormat .empty
  intro s hs
  cases hs

/-! ## Attributes of elements -/

theorem isMethod_of_readHandler {attrName event body : String} {handler : Handler}
    (h : readHandler d attrName event body = .ok handler) :
    ∀ m, .call m ∈ handler.steps → d.isMethod m = true := by
  unfold readHandler at h
  split at h
  · cases h
  · exact fun m hm => Handler.isMethod_of_compile h hm

/-- An element with one more handler for an event of the browser uses that handler as well. -/
theorem covers_domHandler (shape : ElementShape) (event : String) (handler : Handler) :
    (shape.uses ++ { handlers := [handler] }).Covers
      { shape with domHandlers := shape.domHandlers.insert event handler }.uses where
  texts := by simp [ElementShape.uses]
  formats := by simp [ElementShape.uses]
  markers := by simp [ElementShape.uses]
  handlers := by
    intro x hx
    simp only [ElementShape.uses, Uses.handlers_append, List.mem_append, List.mem_map,
      List.mem_singleton] at hx ⊢
    rcases hx with ⟨e, he, rfl⟩ | hx
    · rcases Dict.eq_or_mem_of_mem_insert he with rfl | he
      · exact Or.inr rfl
      · exact Or.inl (Or.inl ⟨e, he, rfl⟩)
    · exact Or.inl (Or.inr hx)
  keys := by simp [ElementShape.uses]

/-- An element with one more handler for an event of a child uses that handler as well. -/
theorem covers_childHandler (shape : ElementShape) (event : String) (handler : Handler) :
    (shape.uses ++ { handlers := [handler] }).Covers
      { shape with childHandlers := shape.childHandlers.insert event handler }.uses where
  texts := by simp [ElementShape.uses]
  formats := by simp [ElementShape.uses]
  markers := by simp [ElementShape.uses]
  handlers := by
    intro x hx
    simp only [ElementShape.uses, Uses.handlers_append, List.mem_append, List.mem_map,
      List.mem_singleton] at hx ⊢
    rcases hx with hx | ⟨e, he, rfl⟩
    · exact Or.inl (Or.inl hx)
    · rcases Dict.eq_or_mem_of_mem_insert he with rfl | he
      · exact Or.inr rfl
      · exact Or.inl (Or.inr ⟨e, he, rfl⟩)
  keys := by simp [ElementShape.uses]

/-- The element under construction counts as part of the view. An attribute that exposes the element
stands at most once. -/
theorem serves_readAttribute {shape shape' : ElementShape} {a : Attr} {name : String}
    (h : readAttribute r d shape a name = .ok (shape', d')) (hd : d.Serves (u ++ shape.uses) point)
    (hkey : name = "ooml-expose" → shape.exposeKey = none) :
    d'.Serves (u ++ shape'.uses) point ∧ (name ≠ "ooml-expose" → shape'.exposeKey = shape.exposeKey) := by
  unfold readAttribute at h
  split at h
  · next event _ =>
    cases hh : readHandler d name event a.value with
    | error e => simp [hh, bind, Except.bind] at h
    | ok handler =>
      simp only [hh, bind, Except.bind] at h
      split at h
      · cases h
      · obtain ⟨rfl, rfl⟩ := Prod.mk.inj (Except.ok.inj h)
        have hserves := hd.addHandler (isMethod_of_readHandler hh)
        rw [Uses.append_assoc] at hserves
        exact ⟨hserves.mono (Uses.Covers.rfl.append (covers_childHandler shape event handler)), fun _ => rfl⟩
  · split at h
    · next event _ =>
      cases hh : readHandler d name event a.value with
      | error e => simp [hh, bind, Except.bind] at h
      | ok handler =>
        simp only [hh, bind, Except.bind] at h
        split at h
        · cases h
        · obtain ⟨rfl, rfl⟩ := Prod.mk.inj (Except.ok.inj h)
          have hserves := hd.addHandler (isMethod_of_readHandler hh)
          rw [Uses.append_assoc] at hserves
          exact ⟨hserves.mono (Uses.Covers.rfl.append (covers_domHandler shape event handler)), fun _ => rfl⟩
    · split at h
      · cases h
      · split at h
        · next hname =>
          extract_lets key at h
          split at h
          · cases h
          · split at h
            · cases h
            · next hnew =>
              obtain ⟨rfl, rfl⟩ := Prod.mk.inj (Except.ok.inj h)
              have hfresh : key ∉ d.exposeKeys := by simpa using hnew
              have hserves := hd.addKey hfresh
              rw [Uses.append_assoc] at hserves
              refine ⟨hserves.mono (Uses.Covers.rfl.append ⟨?_, ?_, ?_, ?_, ?_⟩), fun hne => absurd hname hne⟩ <;>
                simp [ElementShape.uses, hkey hname]
        · extract_lets target at h
          split at h
          · cases hf : readFormat r d a.value with
            | error e => simp [hf, bind, Except.bind] at h
            | ok x =>
              obtain ⟨f, d₁⟩ := x
              simp only [hf, bind, Except.bind] at h
              obtain ⟨rfl, rfl⟩ := Prod.mk.inj (Except.ok.inj h)
              have hserves := serves_readFormat hf hd
              rw [Uses.append_assoc] at hserves
              refine ⟨hserves.mono (Uses.Covers.rfl.append ⟨?_, ?_, ?_, ?_, ?_⟩), fun _ => rfl⟩ <;>
                simp [ElementShape.uses]
          · obtain ⟨rfl, rfl⟩ := Prod.mk.inj (Except.ok.inj h)
            refine ⟨hd.mono (Uses.Covers.rfl.append ⟨?_, ?_, ?_, ?_, ?_⟩), fun _ => rfl⟩ <;>
              simp [ElementShape.uses]

theorem serves_readAttributes {as : List Attr} {shape shape' : ElementShape} {seen : List String}
    (h : readAttributes r d shape seen as = .ok (shape', d')) (hd : d.Serves (u ++ shape.uses) point)
    (hkey : "ooml-expose" ∉ seen → shape.exposeKey = none) : d'.Serves (u ++ shape'.uses) point := by
  induction as generalizing d shape seen with
  | nil =>
    unfold readAttributes at h
    obtain ⟨rfl, rfl⟩ := Prod.mk.inj (Except.ok.inj h)
    exact hd
  | cons a rest ih =>
    unfold readAttributes at h
    extract_lets name at h
    split at h
    · cases h
    · next hseen =>
      split at h
      · cases h
      · next shape₁ d₁ ha =>
        have hnew : name ∉ seen := by simpa using hseen
        obtain ⟨hserves, hkept⟩ := serves_readAttribute ha hd fun hname => hkey (hname ▸ hnew)
        refine ih h hserves fun hrest => ?_
        simp only [List.mem_cons, not_or] at hrest
        rw [hkept (Ne.symm hrest.1)]
        exact hkey hrest.2

/-! ## Nodes -/

/-- The extension point is the one there was, or leads to a place in one of the nodes that stand, from
`n` on, below `path`. -/
def Leads (path : List Nat) (nodes : List ViewNode) (point point' : Option (List Nat)) : Prop :=
  point' = point ∨ ∃ n rest node, point' = some (path ++ n :: rest) ∧ nodes[n]? = some node ∧
    node.at? rest = some .extensionPoint

mutual

theorem serves_readNode : ∀ (m : Markup) {d d' : Draft} {path : List Nat} {nodes : List ViewNode}
    {u : Uses} {point : Option (List Nat)}, readNode r d path m = .ok (nodes, d') →
    d.Serves u point → ∃ point', d'.Serves (u ++ ViewNode.usesAll nodes) point' ∧
      (point' = point ∨ ∃ rest node, nodes = [node] ∧ point' = some (path ++ rest) ∧
        node.at? rest = some .extensionPoint)
  | .text s, d, d', path, nodes, u, point, h, hd => by
    unfold readNode at h
    exact ⟨point, serves_nodesOfPieces h hd, Or.inl rfl⟩
  | .comment s, d, d', path, nodes, u, point, h, hd => by
    unfold readNode at h
    obtain ⟨rfl, rfl⟩ := Prod.mk.inj (Except.ok.inj h)
    refine ⟨point, ?_, Or.inl rfl⟩
    simpa [ViewNode.usesAll, ViewNode.uses] using hd
  | .element name attrs apart children, d, d', path, nodes, u, point, h, hd => by
    unfold readNode at h
    split at h
    · split at h
      · cases h
      · obtain ⟨rfl, rfl⟩ := Prod.mk.inj (Except.ok.inj h)
        refine ⟨some path, ?_, Or.inr ⟨[], .extensionPoint, rfl, by rw [List.append_nil], rfl⟩⟩
        simpa [ViewNode.usesAll, ViewNode.uses] using hd.withPoint path
    · split at h
      · cases h
      · split at h
        · cases h
        · next shape d₁ hattrs =>
          have hempty : ({ name := name } : ElementShape).uses = {} := rfl
          have hd₁ := serves_readAttributes hattrs (by rwa [hempty, Uses.append_empty]) fun _ => rfl
          split at h
          · obtain ⟨rfl, rfl⟩ := Prod.mk.inj (Except.ok.inj h)
            refine ⟨point, ?_, Or.inl rfl⟩
            simpa [ViewNode.usesAll, ViewNode.uses] using hd₁
          · split at h
            · cases h
            · next nodes' d₂ hnodes =>
              obtain ⟨rfl, rfl⟩ := Prod.mk.inj (Except.ok.inj h)
              obtain ⟨more, point', rfl, hd₂, hleads⟩ := serves_readNodes children hnodes
                (by simpa [ViewNode.usesAll] using hd₁)
              refine ⟨point', ?_, ?_⟩
              · rw [ViewNode.usesAll_singleton, ViewNode.uses, ← Uses.append_assoc]
                exact hd₂
              · rcases hleads with rfl | ⟨n, rest, node, rfl, hnode, hat⟩
                · exact Or.inl rfl
                · refine Or.inr ⟨n :: rest, _, rfl, rfl, ?_⟩
                  simp only [ViewNode.at?, ViewNode.children, hnode]
                  exact hat

theorem serves_readNodes : ∀ (ms : List Markup) {d d' : Draft} {path : List Nat}
    {read nodes : List ViewNode} {u : Uses} {point : Option (List Nat)},
    readNodes r d path read ms = .ok (nodes, d') → d.Serves (u ++ ViewNode.usesAll read) point →
    ∃ more point', nodes = read ++ more ∧ d'.Serves (u ++ ViewNode.usesAll nodes) point' ∧
      Leads path nodes point point'
  | [], d, d', path, read, nodes, u, point, h, hd => by
    unfold readNodes at h
    obtain ⟨rfl, rfl⟩ := Prod.mk.inj (Except.ok.inj h)
    exact ⟨[], point, (List.append_nil _).symm, hd, Or.inl rfl⟩
  | m :: ms, d, d', path, read, nodes, u, point, h, hd => by
    unfold readNodes at h
    split at h
    · cases h
    · next nodes₁ d₁ hm =>
      obtain ⟨point₁, hd₁, hleads₁⟩ := serves_readNode m hm hd
      rw [Uses.append_assoc, ← ViewNode.usesAll_append] at hd₁
      obtain ⟨more, point', rfl, hd', hleads⟩ := serves_readNodes ms h hd₁
      refine ⟨nodes₁ ++ more, point', List.append_assoc _ _ _, hd', ?_⟩
      rcases hleads with rfl | hfurther
      · rcases hleads₁ with rfl | ⟨rest, node, rfl, rfl, hat⟩
        · exact Or.inl rfl
        · refine Or.inr ⟨read.length, rest, node, by simp, by simp, hat⟩
      · exact Or.inr hfurther

end

end ReactiveView.Template
