import FactForm.Proofs.Entity.RoundTrip

/-!
# FactForm.Proofs.Entity.Decoding

What is decoded from a text is encoded back to that text, whether or not the templates are separated.
A text may have several readings; the values taken are those of one of them, and that one spells the
text.

* `Template.valuesOf_cases` — a text has values, cannot be spelled, or has two values under one id.
* `Codec.fromDisplayText_eq_ok_iff`, `fromAtomText_eq_ok_iff` — the entity of a text keeps the text.
* `Codec.encode_decode` — decoding gives the text back or one of two errors.
-/

namespace FactForm

theorem Template.valuesOf_cases (t : Template) (s : Text) :
    (∃ m, t.valuesOf s = .ok m) ∨
    (t.valuesOf s = .error (.unmatched s t.shape) ∧ ∀ values, ¬ Spells t.parts values s) ∨
    ∃ id values v w, t.valuesOf s = .error (.conflictingValues id s t.shape) ∧
      Spells t.parts values s ∧ (id, v) ∈ t.ids.zip values ∧ (id, w) ∈ t.ids.zip values ∧
      v ≠ w := by
  cases hr : readWhole t.parts s with
  | none =>
    refine .inr (.inl ⟨?_, readWhole_eq_none_iff.1 hr⟩)
    simp only [valuesOf, hr]
  | some r =>
    cases hc : collectValues .empty (t.ids.zip r.values) with
    | ok m =>
      refine .inl ⟨m, ?_⟩
      simp only [valuesOf, hr, hc]
    | error id =>
      obtain ⟨v, w, hne, hv, hw⟩ := collectValues_error hc
      rcases hv with hempty | hv
      · cases hempty
      · refine .inr (.inr ⟨id, r.values, v, w, ?_, spells_of_readWhole hr, hv, hw, hne⟩)
        simp only [valuesOf, hr, hc]

namespace Codec

variable {c : Codec} {s : Text} {e : Entity} {m : Dictionary Text}

theorem exists_ofValues (h : c.display.IsAssignment m) :
    ∃ e, Entity.ofValues c.display c.atom m = .ok e := by
  obtain ⟨d, _, hd, _⟩ := Template.render_ok h
  obtain ⟨a, _, ha, _⟩ := Template.render_ok (isAssignment_iff.2 h)
  exact ⟨⟨m, d, a⟩, Entity.ofValues_eq_ok_iff.2 ⟨rfl, hd, ha⟩⟩

theorem fromDisplayText_eq_ok_iff :
    c.fromDisplayText s = .ok e ↔
      c.display.valuesOf s = .ok e.values ∧ e.display = s ∧
        c.atom.render e.values = .ok e.atom := by
  rw [fromDisplayText, Entity.ofDisplayText]
  cases hm : c.display.valuesOf s with
  | error _ => simp
  | ok m =>
    have hrender := Template.render_of_valuesOf hm
    simp only [Entity.ofValues_eq_ok_iff, Except.ok.injEq]
    constructor
    · rintro ⟨rfl, hd, ha⟩
      rw [hrender] at hd
      exact ⟨rfl, (Except.ok.inj hd).symm, ha⟩
    · rintro ⟨rfl, rfl, ha⟩
      exact ⟨rfl, hrender, ha⟩

theorem fromAtomText_eq_ok_iff :
    c.fromAtomText s = .ok e ↔
      c.atom.valuesOf s = .ok e.values ∧ e.atom = s ∧
        c.display.render e.values = .ok e.display := by
  rw [fromAtomText, Entity.ofAtomText]
  cases hm : c.atom.valuesOf s with
  | error _ => simp
  | ok m =>
    have hrender := Template.render_of_valuesOf hm
    simp only [Entity.ofValues_eq_ok_iff, Except.ok.injEq]
    constructor
    · rintro ⟨rfl, hd, ha⟩
      rw [hrender] at ha
      exact ⟨rfl, (Except.ok.inj ha).symm, hd⟩
    · rintro ⟨rfl, rfl, hd⟩
      exact ⟨rfl, hd, hrender⟩

theorem atom_of_fromAtomText (h : c.fromAtomText s = .ok e) : e.atom = s :=
  (fromAtomText_eq_ok_iff.1 h).2.1

theorem exists_fromDisplayText (h : c.display.valuesOf s = .ok m) :
    ∃ e, c.fromDisplayText s = .ok e ∧ e.values = m := by
  obtain ⟨e, he⟩ := exists_ofValues (Template.isAssignment_of_valuesOf h)
  refine ⟨e, ?_, (Entity.ofValues_eq_ok_iff.1 he).1⟩
  rw [fromDisplayText, Entity.ofDisplayText_of_valuesOf h, he]

theorem exists_fromAtomText (h : c.atom.valuesOf s = .ok m) :
    ∃ e, c.fromAtomText s = .ok e ∧ e.values = m := by
  obtain ⟨e, he⟩ := exists_ofValues (isAssignment_iff.1 (Template.isAssignment_of_valuesOf h))
  refine ⟨e, ?_, (Entity.ofValues_eq_ok_iff.1 he).1⟩
  rw [fromAtomText, Entity.ofAtomText_of_valuesOf h, he]

/-- Values read from a text are an assignment that fills the template to this text. So an entity is
made from its own text, whichever of the two that is, and the only errors are that nothing spells the
text and that one id has two values in it. -/
theorem encode_decode (c : Codec) :
    (∀ (t : Template) s m, t.valuesOf s = .ok m → t.IsAssignment m ∧ t.render m = .ok s) ∧
    (∀ s,
      (c.fromDisplayText s = .error (.unmatched s c.display.shape) ∧
        ∀ values, ¬ Spells c.display.parts values s) ∨
      (∃ id values v w, c.fromDisplayText s = .error (.conflictingValues id s c.display.shape) ∧
        Spells c.display.parts values s ∧ (id, v) ∈ c.display.ids.zip values ∧
        (id, w) ∈ c.display.ids.zip values ∧ v ≠ w) ∨
      ∃ e, c.fromDisplayText s = .ok e ∧ e.display = s ∧ c.fromDisplayText e.display = .ok e ∧
        c.atom.render e.values = .ok e.atom) ∧
    ∀ s,
      (c.fromAtomText s = .error (.unmatched s c.atom.shape) ∧
        ∀ values, ¬ Spells c.atom.parts values s) ∨
      (∃ id values v w, c.fromAtomText s = .error (.conflictingValues id s c.atom.shape) ∧
        Spells c.atom.parts values s ∧ (id, v) ∈ c.atom.ids.zip values ∧
        (id, w) ∈ c.atom.ids.zip values ∧ v ≠ w) ∨
      ∃ e, c.fromAtomText s = .ok e ∧ e.atom = s ∧ c.fromAtomText e.atom = .ok e ∧
        c.display.render e.values = .ok e.display := by
  refine ⟨?_, ?_, ?_⟩
  · intro t s m h
    exact ⟨Template.isAssignment_of_valuesOf h, Template.render_of_valuesOf h⟩
  · intro s
    rcases c.display.valuesOf_cases s with ⟨m, hm⟩ | ⟨herr, hnone⟩ | ⟨id, values, v, w, herr, h⟩
    · obtain ⟨e, he, _⟩ := exists_fromDisplayText hm
      obtain ⟨_, hdisplay, hatom⟩ := fromDisplayText_eq_ok_iff.1 he
      exact .inr (.inr ⟨e, he, hdisplay, by rwa [hdisplay], hatom⟩)
    · refine .inl ⟨?_, hnone⟩
      rw [fromDisplayText, Entity.ofDisplayText, herr]
    · refine .inr (.inl ⟨id, values, v, w, ?_, h⟩)
      rw [fromDisplayText, Entity.ofDisplayText, herr]
  · intro s
    rcases c.atom.valuesOf_cases s with ⟨m, hm⟩ | ⟨herr, hnone⟩ | ⟨id, values, v, w, herr, h⟩
    · obtain ⟨e, he, _⟩ := exists_fromAtomText hm
      obtain ⟨_, hatom, hdisplay⟩ := fromAtomText_eq_ok_iff.1 he
      exact .inr (.inr ⟨e, he, hatom, by rwa [hatom], hdisplay⟩)
    · refine .inl ⟨?_, hnone⟩
      rw [fromAtomText, Entity.ofAtomText, herr]
    · refine .inr (.inl ⟨id, values, v, w, ?_, h⟩)
      rw [fromAtomText, Entity.ofAtomText, herr]

/-- `::a::b` for display, `p(::b,::a,::b)` for atoms: two slots side by side, and one id twice. -/
def adjacent : Codec where
  display := ⟨[.slot ⟨['a'], ['a'], .any⟩, .slot ⟨['b'], ['b'], .any⟩]⟩
  atom := ⟨[.fixed "p(".toList, .slot ⟨['b'], ['b'], .any⟩, .fixed ",".toList,
    .slot ⟨['a'], ['a'], .any⟩, .fixed ",".toList, .slot ⟨['b'], ['b'], .any⟩, .fixed ")".toList]⟩
  same_ids := by decide

/-- The values of `x21`, which is also `x` and `21`. -/
def adjacentValues : Dictionary Text := .ofList [(['a'], "x2".toList), (['b'], ['1'])]

theorem adjacent_encode_decode :
    adjacent.display.valuesOf "x21".toList = .ok adjacentValues ∧
    adjacent.display.IsAssignment adjacentValues ∧
    adjacent.display.render adjacentValues = .ok "x21".toList := by
  have hread : adjacent.display.valuesOf "x21".toList = .ok adjacentValues := by rfl
  exact ⟨hread, adjacent.encode_decode.1 _ _ _ hread⟩

end Codec
end FactForm
