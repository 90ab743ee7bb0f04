import ReactiveView.Proofs.Forest.Growth
import ReactiveView.Proofs.Dict
import ReactiveView.World.View

/-!
# Building views

The walk that builds a live view adds nodes to the forest and appends them to nodes that it has added
before (`Building.build_sound`). Every node that it adds is listed below the node that it returns, which
stands on no list yet, and the markers that it notes are different nodes of this tree.
-/

set_option autoImplicit false

namespace ReactiveView

open Relation

namespace Building

variable {f₀ : Forest} {b b' b'' : Building} {d : Descriptor} {n : NodeId}

/-- The live trees. -/
def forest (b : Building) : Forest := b.screen.forest

/-! ## What leaves the trees and the markers alone -/

/-- Two states of the walk with the same links and the same markers. -/
structure Alike (b b' : Building) : Prop where
  links : b.forest.SameLinks b'.forest
  anchors : b'.anchors = b.anchors

theorem Alike.rfl : b.Alike b := ⟨.rfl, .refl _⟩

theorem Alike.trans (h : b.Alike b') (h' : b'.Alike b'') : b.Alike b'' :=
  ⟨h.links.trans h'.links, h'.anchors.trans h.anchors⟩

theorem alike_addPlace {source : Source} {place : BoundNode}
    (h : b.addPlace d source place = .ok b') : b.Alike b' := by
  unfold addPlace at h
  split at h
  all_goals
    split at h
    · obtain rfl := Except.ok.inj h
      exact ⟨.rfl, rfl⟩
    · cases h

theorem alike_addPlaces {place : BoundNode} {sources : List Source}
    (h : b.addPlaces d place sources = .ok b') : b.Alike b' := by
  induction sources generalizing b with
  | nil =>
    obtain rfl := Except.ok.inj h
    exact .rfl
  | cons s rest ih =>
    unfold addPlaces at h
    split at h
    · cases h
    · next b₁ h₁ => exact (alike_addPlace h₁).trans (ih h)

theorem alike_addAttributes {attrs : List AttributeShape} (h : b.addAttributes d n attrs = .ok b') :
    b.Alike b' := by
  induction attrs generalizing b with
  | nil =>
    obtain rfl := Except.ok.inj h
    exact .rfl
  | cons a rest ih =>
    unfold addAttributes at h
    split at h
    · have hset : b.Alike (b.mapScreen fun s => s.mapForest fun f => f.setAttr n a.name a.value) :=
        ⟨Forest.sameLinks_setAttr _ _ _ _, rfl⟩
      exact hset.trans (ih h)
    · next format _ =>
      dsimp only at h
      split at h
      · cases h
      · next b₁ h₁ =>
        have hwrite := (b.screen.addBinding (Binding.ofFormat n a.name format)).2.sameLinks_write
          (b.screen.addBinding (Binding.ofFormat n a.name format)).1
        have hplaces := alike_addPlaces h₁
        exact Alike.trans ⟨hwrite.trans hplaces.links, hplaces.anchors⟩ (ih h)

theorem alike_noteElement (b : Building) (shape : ElementShape) (n : NodeId) :
    b.Alike (b.noteElement shape n) := by
  unfold noteElement
  dsimp only
  split <;> split <;> exact ⟨.rfl, rfl⟩

/-! ## The walk -/

/-- What holds of the trees and the markers all along: the trees have grown out of `f₀`, and different
names have different markers, none of which is the first node that was added. -/
structure Sturdy (f₀ : Forest) (b : Building) : Prop where
  grown : f₀.Grown b.forest
  range : ∀ name m s, b.anchors.get? name = some (m, s) → f₀.size < m.index ∧ m.index < b.forest.size
  inj : ∀ name name' m s s', b.anchors.get? name = some (m, s) → b.anchors.get? name' = some (m, s') →
    name = name'

/-- Between the two states the nodes of a tree have been added, the first of which stands on no list. -/
structure Planted (b b' : Building) (n : NodeId) : Prop where
  index : n.index = b.forest.size
  lt : n.index < b'.forest.size
  free : b'.forest.recorded? n = none
  below : ∀ m : NodeId, b.forest.size ≤ m.index → m.index < b'.forest.size →
    ReflTransGen b'.forest.Listed m n

/-- What a step of the walk that may add a tree does. -/
def Adds (b b' : Building) : Option NodeId → Prop
  | some n => b.Planted b' n
  | none => b' = b

theorem Sturdy.alike (h : b.Sturdy f₀) (ha : b.Alike b') : b'.Sturdy f₀ where
  grown := h.grown.sameLinks ha.links
  range name m s hm := by
    rw [ha.anchors] at hm
    rw [ha.links.size]
    exact h.range name m s hm
  inj name name' m s s' hm hm' := by
    rw [ha.anchors] at hm hm'
    exact h.inj name name' m s s' hm hm'

theorem Sturdy.of_forest (h : b.Sturdy f₀) (hg : f₀.Grown b'.forest)
    (hle : b.forest.size ≤ b'.forest.size) (ha : b'.anchors = b.anchors) : b'.Sturdy f₀ where
  grown := hg
  range name m s hm := by
    rw [ha] at hm
    exact ⟨(h.range name m s hm).1, Nat.lt_of_lt_of_le (h.range name m s hm).2 hle⟩
  inj name name' m s s' hm hm' := by
    rw [ha] at hm hm'
    exact h.inj name name' m s s' hm hm'

theorem Sturdy.create (h : b.Sturdy f₀) (kind : NodeKind) : (b.create kind).2.Sturdy f₀ := by
  refine h.of_forest (h.grown.create kind) ?_ rfl
  change b.forest.size ≤ (b.forest.create kind).2.size
  rw [Forest.size_create]
  exact Nat.le_succ _

/-- Noting a marker that has just been added. -/
theorem Sturdy.note (h : b.Sturdy f₀) (hlt : f₀.size < b.forest.size) (kind : NodeKind) (name : String)
    (sink : Sink) :
    ({ (b.create kind).2 with
        anchors := (b.create kind).2.anchors.insert name ((b.create kind).1, sink) } : Building).Sturdy
      f₀ := by
  have hsize : (b.create kind).2.forest.size = b.forest.size + 1 := Forest.size_create b.forest kind
  have hnew : (b.create kind).1.index = b.forest.size := rfl
  refine ⟨(h.create kind).grown, ?_, ?_⟩
  · intro name' m s hm
    change f₀.size < m.index ∧ m.index < (b.create kind).2.forest.size
    by_cases hname : name = name'
    · subst hname
      rw [Dict.get?_insert_self] at hm
      obtain ⟨rfl, -⟩ := Prod.mk.inj (Option.some.inj hm)
      omega
    · rw [Dict.get?_insert_of_ne _ _ _ _ hname] at hm
      have hold := h.range name' m s hm
      omega
  · -- the new marker is none of those noted before
    intro name₁ name₂ m s₁ s₂ h₁ h₂
    have hfresh {name' : String} {s : Sink} (hm : b.anchors.get? name' = some ((b.create kind).1, s)) :
        False := by
      have hold := (h.range name' _ s hm).2
      omega
    by_cases hname₁ : name = name₁ <;> by_cases hname₂ : name = name₂
    · exact hname₁.symm.trans hname₂
    · subst hname₁
      rw [Dict.get?_insert_self] at h₁
      rw [Dict.get?_insert_of_ne _ _ _ _ hname₂] at h₂
      obtain ⟨rfl, -⟩ := Prod.mk.inj (Option.some.inj h₁)
      exact (hfresh h₂).elim
    · subst hname₂
      rw [Dict.get?_insert_self] at h₂
      rw [Dict.get?_insert_of_ne _ _ _ _ hname₁] at h₁
      obtain ⟨rfl, -⟩ := Prod.mk.inj (Option.some.inj h₂)
      exact (hfresh h₁).elim
    · rw [Dict.get?_insert_of_ne _ _ _ _ hname₁] at h₁
      rw [Dict.get?_insert_of_ne _ _ _ _ hname₂] at h₂
      exact h.inj name₁ name₂ m s₁ s₂ h₁ h₂

/-- A node that has just been added is a tree. -/
theorem planted_create (b : Building) (kind : NodeKind) : b.Planted (b.create kind).2 (b.create kind).1 := by
  have hsize : (b.create kind).2.forest.size = b.forest.size + 1 := Forest.size_create b.forest kind
  have hnew : (b.create kind).1.index = b.forest.size := rfl
  refine ⟨hnew, by omega, ?_, ?_⟩
  · refine (Forest.recorded?_create b.forest kind _).trans (Forest.recorded?_eq_none_of_le ?_)
    exact Nat.le_of_eq hnew.symm
  · intro m hle hlt
    have hindex : m.index = (b.create kind).1.index := by omega
    have hm : m = (b.create kind).1 := by
      cases m
      exact congrArg NodeId.mk hindex
    rw [hm]

theorem Planted.sameLinks (h : b.Planted b' n) (hl : b'.forest.SameLinks b''.forest) :
    b.Planted b'' n where
  index := h.index
  lt := by
    rw [hl.size]
    exact h.lt
  free := (hl.recorded? n).trans h.free
  below m hle hlt := by
    rw [hl.size] at hlt
    exact (Forest.Grows.of_sameLinks hl).listed (h.below m hle hlt)

/-- Making a planted tree the last child of a node that was there before. -/
theorem Planted.append (h : b.Planted b' n) (hs : b'.Sturdy f₀) {p : NodeId} (hp : f₀.size ≤ p.index)
    (hlt : p.index < b.forest.size) (hg : b.forest.Grows b'.forest) :
    (b'.append p n).Sturdy f₀ ∧ b.forest.Grows (b'.append p n).forest ∧
      ∀ m : NodeId, b.forest.size ≤ m.index → m.index < (b'.append p n).forest.size →
        ReflTransGen (b'.append p n).forest.Listed m p := by
  have hpn : p.index < n.index := by
    rw [h.index]
    exact hlt
  have happ : b'.forest.Appended (b'.append p n).forest p n :=
    Forest.appended_append h.lt (Nat.lt_trans hpn h.lt) h.free
  have hsub {m q : NodeId} (hm : ReflTransGen b'.forest.Listed m q) :
      ReflTransGen (b'.append p n).forest.Listed m q :=
    ReflTransGen.mono (fun _ q hab => happ.children_subset q hab) _ _ hm
  refine ⟨?_, ?_, ?_⟩
  · exact hs.of_forest (hs.grown.append hp hpn h.free happ) (Nat.le_of_eq happ.size.symm) rfl
  · exact hg.append (Nat.le_of_eq h.index.symm) happ
  · intro m hle hltm
    rw [happ.size] at hltm
    refine .tail (hsub (h.below m hle hltm)) ?_
    change n ∈ (b'.append p n).forest.children p
    rw [happ.row]
    exact List.mem_append_right _ (List.mem_singleton_self n)

mutual

/-- Building a node keeps what holds all along, and plants the tree that it returns. -/
theorem build_sound {owner : InstanceId} {b b' : Building} {around : Option Sink} {top : Option NodeId}
    (hs : b.Sturdy f₀) (hlt : around.isSome = true → f₀.size < b.forest.size) :
    ∀ v : ViewNode, b.build d owner around v = .ok (top, b') →
      b'.Sturdy f₀ ∧ b.forest.Grows b'.forest ∧ b.Adds b' top
  | .element shape children, h => by
    unfold build at h
    dsimp only at h
    split at h
    · cases h
    · next b₁ hattrs =>
      split at h
      · cases h
      · next b₂ hchildren =>
        obtain ⟨rfl, rfl⟩ := Prod.mk.inj (Except.ok.inj h)
        have halike := (alike_addAttributes hattrs).trans
          (alike_noteElement b₁ shape (b.create (.element shape.name [] false)).1)
        have hplanted := (planted_create b (.element shape.name [] false)).sameLinks halike.links
        have hstart := (hs.create (.element shape.name [] false)).alike halike
        have hgrows : b.forest.Grows (b₁.noteElement shape _).forest :=
          (Forest.Grows.create b.forest _).trans (.of_sameLinks halike.links)
        obtain ⟨hb', hg, hbelow⟩ := buildAll_sound hstart
          (by rw [hplanted.index]; exact hs.grown.size_le) hplanted.lt children hchildren
        refine ⟨hb', hgrows.trans hg, hplanted.index, Nat.lt_of_lt_of_le hplanted.lt hg.size_le, ?_, ?_⟩
        · exact (hg.recorded _ hplanted.lt).trans hplanted.free
        · intro m hle hltm
          rcases Nat.lt_or_ge m.index (b₁.noteElement shape _).forest.size with hm | hm
          · exact hg.listed (hplanted.below m hle hm)
          · exact hbelow m hm hltm
  | .text value source, h => by
    unfold build at h
    dsimp only at h
    split at h
    · cases h
    · next b₁ hplaces =>
      obtain ⟨rfl, rfl⟩ := Prod.mk.inj (Except.ok.inj h)
      have halike := alike_addPlaces hplaces
      refine ⟨(hs.create _).alike halike, ?_, (planted_create b _).sameLinks halike.links⟩
      exact (Forest.Grows.create b.forest _).trans (.of_sameLinks halike.links)
  | .marker value property, h => by
    unfold build at h
    dsimp only at h
    split at h
    · next name sink =>
      obtain ⟨rfl, rfl⟩ := Prod.mk.inj (Except.ok.inj h)
      refine ⟨hs.note (hlt rfl) _ name sink, Forest.Grows.create b.forest _, ?_⟩
      exact (planted_create b _).sameLinks .rfl
    · obtain ⟨rfl, rfl⟩ := Prod.mk.inj (Except.ok.inj h)
      exact ⟨hs.create _, Forest.Grows.create b.forest _, planted_create b _⟩
  | .extensionPoint, h => by
    unfold build at h
    obtain ⟨rfl, rfl⟩ := Prod.mk.inj (Except.ok.inj h)
    exact ⟨hs, .rfl, rfl⟩

/-- Building nodes inside of an element lists everything that is added below the element. -/
theorem buildAll_sound {owner : InstanceId} {b b' : Building} {sink : Sink} (hs : b.Sturdy f₀)
    (hle : f₀.size ≤ sink.node.index) (hlt : sink.node.index < b.forest.size) :
    ∀ vs : List ViewNode, b.buildAll d owner sink vs = .ok b' →
      b'.Sturdy f₀ ∧ b.forest.Grows b'.forest ∧
        ∀ m : NodeId, b.forest.size ≤ m.index → m.index < b'.forest.size →
          ReflTransGen b'.forest.Listed m sink.node
  | [], h => by
    unfold buildAll at h
    obtain rfl := Except.ok.inj h
    exact ⟨hs, .rfl, fun m hle hlt => absurd hlt (Nat.not_lt.2 hle)⟩
  | v :: rest, h => by
    unfold buildAll at h
    split at h
    · cases h
    · next n b₁ hv =>
      obtain ⟨hs₁, hg₁, hplanted⟩ := build_sound hs (fun _ => Nat.lt_of_le_of_lt hle hlt) v hv
      obtain ⟨hs₂, hg₂, hbelow₂⟩ := Planted.append hplanted hs₁ hle hlt hg₁
      obtain ⟨hs₃, hg₃, hbelow₃⟩ :=
        buildAll_sound hs₂ hle (Nat.lt_of_lt_of_le hlt hg₂.size_le) rest h
      refine ⟨hs₃, hg₂.trans hg₃, fun m hlem hltm => ?_⟩
      rcases Nat.lt_or_ge m.index (b₁.append sink.node n).forest.size with hm | hm
      · exact hg₃.listed (hbelow₂ m hlem hm)
      · exact hbelow₃ m hm hltm
    · next b₁ hv =>
      obtain ⟨-, -, rfl⟩ := build_sound hs (fun _ => Nat.lt_of_le_of_lt hle hlt) v hv
      exact buildAll_sound hs hle hlt rest h

end

end Building

end ReactiveView
