import FactForm.Proofs.Entity.Values
import FactForm.Proofs.Template.Walk

/-!
# FactForm.Proofs.Entity.RoundTrip

The three shapes of an entity determine each other when both templates of the codec are separated:
values, display text and atom text are read back from one another.

* `Template.valuesOf_render` — an assignment is read back from the text it fills.
* `Codec.round_trip` — from any of the three shapes a codec makes the same entity.
-/

namespace FactForm

theorem Template.valuesOf_render {t : Template} (h : t.isSeparated = true) {m : Dictionary Text}
    (hm : t.IsAssignment m) : ∃ s, t.render m = .ok s ∧ t.valuesOf s = .ok m := by
  obtain ⟨s, values, hs, hsp, hagree⟩ := render_ok hm
  exact ⟨s, hs, valuesOf_eq_of_agree hm (readWhole_of_spells h hsp) hagree⟩

theorem Template.find?_keys_eq_none_iff {t : Template} {m : Dictionary Text} :
    (m.keys.find? fun k => !t.ids.contains k) = none ↔ ∀ k ∈ m.keys, k ∈ t.ids := by
  simp [List.find?_eq_none]

theorem Entity.ofValues_eq_ok_iff {display atom : Template} {m : Dictionary Text} {e : Entity} :
    Entity.ofValues display atom m = .ok e ↔
      e.values = m ∧ display.render m = .ok e.display ∧ atom.render m = .ok e.atom := by
  obtain ⟨values, d, a⟩ := e
  unfold Entity.ofValues
  cases display.render m with
  | error _ => simp
  | ok s =>
    cases atom.render m with
    | error _ => simp
    | ok u => simp [eq_comm]

theorem Entity.ofDisplayText_of_valuesOf {display atom : Template} {m : Dictionary Text} {s : Text}
    (h : display.valuesOf s = .ok m) :
    Entity.ofDisplayText display atom s = Entity.ofValues display atom m := by
  rw [Entity.ofDisplayText, h]

theorem Entity.ofAtomText_of_valuesOf {display atom : Template} {m : Dictionary Text} {s : Text}
    (h : atom.valuesOf s = .ok m) :
    Entity.ofAtomText display atom s = Entity.ofValues display atom m := by
  rw [Entity.ofAtomText, h]

namespace Codec

variable {c : Codec}

theorem isAssignment_of_fromDisplayText {s : Text} {e : Entity}
    (h : c.fromDisplayText s = .ok e) :
    c.display.IsAssignment e.values ∧ Entity.ofValues c.display c.atom e.values = .ok e := by
  unfold fromDisplayText Entity.ofDisplayText at h
  split at h
  · cases h
  · rename_i m hm
    rw [(Entity.ofValues_eq_ok_iff.1 h).1]
    exact ⟨Template.isAssignment_of_valuesOf hm, h⟩

theorem isAssignment_of_fromAtomText {s : Text} {e : Entity} (h : c.fromAtomText s = .ok e) :
    c.display.IsAssignment e.values ∧ Entity.ofValues c.display c.atom e.values = .ok e := by
  unfold fromAtomText Entity.ofAtomText at h
  split at h
  · cases h
  · rename_i m hm
    rw [(Entity.ofValues_eq_ok_iff.1 h).1]
    exact ⟨isAssignment_iff.1 (Template.isAssignment_of_valuesOf hm), h⟩

theorem exists_entity (hd : c.display.isSeparated = true) (ha : c.atom.isSeparated = true)
    {m : Dictionary Text} (hm : c.display.IsAssignment m) :
    ∃ e, Entity.ofValues c.display c.atom m = .ok e ∧ e.values = m ∧
      c.display.render m = .ok e.display ∧ c.display.valuesOf e.display = .ok m ∧
      c.atom.render m = .ok e.atom ∧ c.atom.valuesOf e.atom = .ok m := by
  obtain ⟨s, hs, hsread⟩ := Template.valuesOf_render hd hm
  obtain ⟨u, hu, huread⟩ := Template.valuesOf_render ha (isAssignment_iff.2 hm)
  exact ⟨⟨m, s, u⟩, Entity.ofValues_eq_ok_iff.2 ⟨rfl, hs, hu⟩, rfl, hs, hsread, hu, huread⟩

theorem readsBack_of_valuesOf {t : Template} {s : Text} {m : Dictionary Text}
    (h : t.valuesOf s = .ok m) : t.readsBack s m = true := by
  simp [Template.readsBack, h]

theorem fromValues_of_ofValues_ok {m : Dictionary Text} {e : Entity}
    (h : ∀ k ∈ m.keys, k ∈ c.display.ids) (he : Entity.ofValues c.display c.atom m = .ok e) :
    c.fromValues m =
      if !c.display.readsBack e.display m then .error (.unmatched e.display c.display.shape)
      else if !c.atom.readsBack e.atom m then .error (.unmatched e.atom c.atom.shape)
      else .ok e := by
  simp only [fromValues, Template.find?_keys_eq_none_iff.2 h, he]

theorem fromValues_of_readsBack {m : Dictionary Text} {e : Entity}
    (hm : c.display.IsAssignment m) (he : Entity.ofValues c.display c.atom m = .ok e)
    (hd : c.display.valuesOf e.display = .ok m) (ha : c.atom.valuesOf e.atom = .ok m) :
    c.fromValues m = .ok e := by
  rw [fromValues_of_ofValues_ok (fun k => (hm.keys k).1) he, readsBack_of_valuesOf hd,
    readsBack_of_valuesOf ha]
  rfl

/-- Over separated templates the same entity is made from values, from the display text that they
fill and from the atom text that they fill. -/
theorem round_trip (c : Codec) (hd : c.display.isSeparated = true)
    (ha : c.atom.isSeparated = true) :
    (∀ m, c.display.IsAssignment m →
      ∃ e s u, c.fromValues m = .ok e ∧ e.values = m ∧
        c.display.render m = .ok s ∧ c.fromDisplayText s = .ok e ∧
        c.atom.render m = .ok u ∧ c.fromAtomText u = .ok e) ∧
    (∀ s e, c.fromDisplayText s = .ok e → c.fromAtomText e.atom = .ok e) ∧
    (∀ s e, c.fromAtomText s = .ok e → c.fromDisplayText e.display = .ok e) := by
  refine ⟨?_, ?_, ?_⟩
  · intro m hm
    obtain ⟨e, he, hv, hs, hsread, hu, huread⟩ := exists_entity hd ha hm
    refine ⟨e, e.display, e.atom, fromValues_of_readsBack hm he hsread huread, hv, hs, ?_, hu, ?_⟩
    · rw [fromDisplayText, Entity.ofDisplayText_of_valuesOf hsread, he]
    · rw [fromAtomText, Entity.ofAtomText_of_valuesOf huread, he]
  · intro s e h
    obtain ⟨hm, he⟩ := isAssignment_of_fromDisplayText h
    obtain ⟨e', he', _, _, _, _, huread⟩ := exists_entity hd ha hm
    obtain rfl : e = e' := Except.ok.inj (he.symm.trans he')
    rw [fromAtomText, Entity.ofAtomText_of_valuesOf huread, he]
  · intro s e h
    obtain ⟨hm, he⟩ := isAssignment_of_fromAtomText h
    obtain ⟨e', he', _, _, hsread, _, _⟩ := exists_entity hd ha hm
    obtain rfl : e = e' := Except.ok.inj (he.symm.trans he')
    rw [fromDisplayText, Entity.ofDisplayText_of_valuesOf hsread, he]

/-- `::from -> ::to` for display, `edge(::to,::from)` for atoms. -/
def edge : Codec where
  display := ⟨[.slot ⟨"from".toList, "from".toList, .any⟩, .fixed " -> ".toList,
    .slot ⟨"to".toList, "to".toList, .any⟩]⟩
  atom := ⟨[.fixed "edge(".toList, .slot ⟨"to".toList, "to".toList, .any⟩, .fixed ",".toList,
    .slot ⟨"from".toList, "from".toList, .any⟩, .fixed ")".toList]⟩
  same_ids := by decide

/-- Values for `edge`, one of which contains the text between the slots. -/
def arrows : Dictionary Text :=
  .ofList [("from".toList, "\"a -> b\"".toList), ("to".toList, ['7'])]

theorem edge_round_trip :
    edge.display.isSeparated = true ∧ edge.atom.isSeparated = true ∧
    ∃ e s u, edge.fromValues arrows = .ok e ∧ e.values = arrows ∧
      edge.display.render arrows = .ok s ∧ edge.fromDisplayText s = .ok e ∧
      edge.atom.render arrows = .ok u ∧ edge.fromAtomText u = .ok e := by
  have hd : edge.display.isSeparated = true := by decide
  have ha : edge.atom.isSeparated = true := by decide
  have hm : edge.display.IsAssignment arrows := by decide
  exact ⟨hd, ha, (edge.round_trip hd ha).1 arrows hm⟩

end Codec
end FactForm
