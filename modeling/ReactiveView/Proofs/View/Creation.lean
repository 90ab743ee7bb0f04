import ReactiveView.Proofs.Ownership.Create
import ReactiveView.Proofs.Template.Chain
import ReactiveView.Proofs.View.Building

/-!
# The view of a new instance

When an instance is made its view is built, and the places that the walk has listed become the sites of
its properties and attributes. The new view is wired along what the class uses and shows empty texts in
places of its own, and what was on the screen before stays (`World.Builds`).
-/

set_option autoImplicit false

namespace ReactiveView

/-- The position of an attribute is found under its name. -/
theorem Descriptor.WellFormed.attributeIndex?_name {d : Descriptor} (hd : d.WellFormed)
    {a : AttributeDescriptor} {n : Nat} (ha : d.attributes[n]? = some a) :
    d.attributeIndex? a.name = some n := by
  obtain ⟨m, hm⟩ : ∃ m, d.attributeIndex? a.name = some m := by
    rw [← Option.isSome_iff_exists, Descriptor.attributeIndex?, List.findIdx?_isSome, List.any_eq_true]
    exact ⟨a, List.mem_of_getElem? ha, by simp⟩
  obtain ⟨b, hb, hname⟩ := Descriptor.attributeIndex?_some hm
  have hnodup := hd.attributes_nodup
  have hm' : (d.attributes.map (·.name))[m]? = some a.name := by rw [List.getElem?_map, hb, ← hname]; rfl
  have hn' : (d.attributes.map (·.name))[n]? = some a.name := by rw [List.getElem?_map, ha]; rfl
  rw [hm, (List.getElem?_inj (List.getElem?_eq_some_iff.1 hm').1 hnodup).1 (hm'.trans hn'.symm)]

/-- The places of a view where a primitive property or an attribute is rendered are those of its source. -/
structure View.Wired (view : View) (d : Descriptor) (g : Wiring) : Prop where
  properties : ∀ (n : Nat) p, d.properties[n]? = some p → p.kind.isPrimitive = true →
    ∃ places, view.sites[n]? = some (.nodes places) ∧
      ∀ place, place ∈ places ↔ g.Lists (.property p.name) place
  attributes : ∀ (n : Nat) a, d.attributes[n]? = some a → ∃ places, view.attributeNodes[n]? = some places ∧
    ∀ place, place ∈ places ↔ g.Lists (.attr a.name) place

namespace World

variable {w w' : World} {i : InstanceId}

/-- Primitive properties get the places that have been listed for them. -/
theorem nodes_sitesOf {owner : InstanceId} {anchors : Dict String (NodeId × Sink)}
    {ps : List PropertyDescriptor} {nodes : List NodeSet} {sites : List Site}
    (h : w.sitesOf owner anchors ps nodes = .ok (sites, w')) : ∀ (n : Nat) p, ps[n]? = some p →
      p.kind.isPrimitive = true → sites[n]? = some (.nodes (nodes[n]?.getD [])) := by
  induction ps generalizing w nodes sites with
  | nil =>
    intro n p hp
    cases hp
  | cons q ps ih =>
    unfold sitesOf at h
    split at h
    · cases h
    · next site w₁ hsite =>
      split at h
      · cases h
      · next sites' w₂ hsites =>
        obtain ⟨rfl, rfl⟩ := Prod.mk.inj (Except.ok.inj h)
        intro n p hp hprim
        cases n with
        | zero =>
          obtain rfl := Option.some.inj hp
          unfold siteOf at hsite
          split at hsite
          · obtain ⟨rfl, -⟩ := Prod.mk.inj (Except.ok.inj hsite)
            rw [List.head?_eq_getElem?]
            rfl
          · next hk =>
            rw [hk] at hprim
            cases hprim
          · next hk =>
            rw [hk] at hprim
            cases hprim
        | succ n =>
          have hrest := ih hsites n p hp hprim
          rw [List.getElem?_tail] at hrest
          exact hrest

/-- The wiring of a view that has just been built. -/
structure Builds (w w' : World) (d : Descriptor) (view : View) (g : Wiring) : Prop where
  wired : view.Wired d g
  serves : g.Serves d.uses
  grows : w.screen.Extends w'.screen
  root : (w'.forest.tag? view.root).isSome = true
  shows : w'.screen.Shows g fun _ => ""
  new : ∀ place, g.Has place → match place with
    | .text t => w.screen.forest.size ≤ t.index
    | .attr b => w.screen.binding? b = none
  /-- All attributes that are new are wired. -/
  format : ∀ k x, w'.screen.binding? k = some x → w.screen.binding? k = none →
    ∃ f, (k, f) ∈ g.formats ∧ x.slots = f.slots ∧ x.parts = f.parts

theorem exists_builds_bindView {d : Descriptor} (hd : d.Parsed) {owner : InstanceId} {view : View}
    (h : w.bindView d owner = .ok (view, w')) : ∃ g, w.Builds w' d view g := by
  obtain ⟨hvalid, hwell, hext⟩ := hd.spec
  unfold bindView at h
  split at h
  · next shape children hview =>
    extract_lets start at h
    split at h
    · cases h
    · cases h
    · next root b hbuild =>
      split at h
      · cases h
      · next sites w₁ hsites =>
        obtain ⟨rfl, rfl⟩ := Prod.mk.inj (Except.ok.inj h)
        obtain ⟨g, hg, halong⟩ := Building.exists_wires_build _ (hd.blank _ hview) hbuild
        have huses : d.uses = (ViewNode.element shape children).uses := by
          unfold Descriptor.uses
          rw [hview]
          rfl
        have hscreen : w₁.screen = b.screen := by
          rw [(sitesOf_sound hsites).same]
        have hlaid : ∀ f ∈ d.uses.formats, f.Laid := hext.formats
        refine ⟨g, ⟨fun n p hp hprim => ?_, fun n a ha => ?_⟩, ⟨huses ▸ halong.texts, huses ▸ halong.formats,
          hg.texts_nodup, hg.formats_nodup, hlaid⟩, hscreen ▸ hg.grows, ?_, ⟨fun t σ ht => ?_, fun k f hf => ?_⟩,
          fun place hp => ?_, fun k x hx hnone => ?_⟩
        · have hindex := hvalid.propertyIndex?_name hp
          have hstart : start.placesOf d (.property p.name) = some [] := by
            unfold Building.placesOf
            dsimp only [start]
            rw [hindex, Option.bind_some, List.getElem?_map, hp]
            rfl
          obtain ⟨places, hplaces, hiff⟩ := hg.places _ _ hstart
          refine ⟨places, ?_, fun place => (hiff place).trans (or_iff_right List.not_mem_nil)⟩
          unfold Building.placesOf at hplaces
          dsimp only at hplaces
          rw [hindex] at hplaces
          rw [nodes_sitesOf hsites n p hp hprim]
          exact congrArg (fun ps => some (Site.nodes (Option.getD ps []))) hplaces
        · have hindex := hwell.attributeIndex?_name ha
          have hstart : start.placesOf d (.attr a.name) = some [] := by
            unfold Building.placesOf
            dsimp only [start]
            rw [hindex, Option.bind_some, List.getElem?_map, ha]
            rfl
          obtain ⟨places, hplaces, hiff⟩ := hg.places _ _ hstart
          refine ⟨places, ?_, fun place => (hiff place).trans (or_iff_right List.not_mem_nil)⟩
          unfold Building.placesOf at hplaces
          dsimp only at hplaces
          rw [hindex] at hplaces
          exact hplaces
        · obtain ⟨n, hn, htag⟩ := Building.tag?_build (hd.blank _ hview) hbuild
          obtain rfl := Option.some.inj hn
          unfold forest
          rw [hscreen, htag]
          rfl
        · rw [hscreen]
          exact (hg.text t σ ht).2
        · obtain ⟨-, x, hx, hslots, hparts⟩ := hg.format k f hf
          rw [hscreen]
          refine ⟨x, hx, hslots, hparts ▸ (hlaid f ?_).filled_parts⟩
          rw [huses, ← halong.formats]
          exact List.mem_map_of_mem (f := (·.2)) hf
        · cases place with
          | text t =>
            obtain ⟨⟨t', σ⟩, ht, rfl⟩ := List.mem_map.1 hp
            exact (hg.text t' σ ht).1
          | attr k =>
            obtain ⟨⟨k', f⟩, hf, rfl⟩ := List.mem_map.1 hp
            exact (hg.format k' f hf).1
        · rw [hscreen] at hx
          obtain ⟨⟨k', f⟩, hf, rfl⟩ := List.mem_map.1 (hg.wired k (by rw [hx]; rfl) hnone)
          obtain ⟨-, y, hy, hsame⟩ := hg.format k' f hf
          obtain rfl := Option.some.inj (hx.symm.trans hy)
          exact ⟨f, hf, hsame⟩
  · cases h

theorem exists_builds_createInstance {id : ClassId} {d : Descriptor} (hd : d.Parsed)
    (h : w.createInstance id d = .ok (i, w')) {x : Instance} (hx : w'.inst? i = some x) :
    ∃ view g, x.view = some view ∧ w.Builds w' d view g := by
  unfold createInstance at h
  dsimp only [pushInstance] at h
  split at h
  · cases h
  · next view w₁ hview =>
    obtain ⟨rfl, rfl⟩ := Prod.mk.inj (Except.ok.inj h)
    obtain ⟨g, hg⟩ := exists_builds_bindView hd hview
    rw [inst?_modifyInstance_self] at hx
    obtain ⟨y, -, rfl⟩ := Option.map_eq_some_iff.1 hx
    exact ⟨view, g, rfl, ⟨hg.wired, hg.serves, hg.grows, hg.root, hg.shows, hg.new, hg.format⟩⟩

end World

end ReactiveView
