import FactForm.Proofs.Value.Boundary
import FactForm.Template.Reading

/-!
# FactForm.Proofs.Template.Spelling

What the readings of a text are. `Spells parts values s` says that `s` is the text of `parts`, each
fixed text verbatim and each slot filled with the value that is its turn; it does not say how such
values are found.

* `mem_readings_iff` — the readings of a text are the ways to spell a front of it.
* `readFront_eq_head`, `readWhole_eq_find` — the preferred readings as members of the list.
* `readWhole_eq_none_iff` — nothing is read from a whole text exactly if nothing spells it.
-/

namespace FactForm

@[simp] theorem filterMap_fixed {text : Text} {parts : List Part} :
    (Part.fixed text :: parts).filterMap Part.placeholder? =
      parts.filterMap Part.placeholder? := rfl

@[simp] theorem filterMap_slot {p : Placeholder} {parts : List Part} :
    (Part.slot p :: parts).filterMap Part.placeholder? =
      p :: parts.filterMap Part.placeholder? := rfl

/-- `s` is the text of `parts` with `values` in the slots. -/
inductive Spells : List Part → List Text → Text → Prop where
  | nil : Spells [] [] []
  | fixed {text s : Text} {parts : List Part} {values : List Text} :
      Spells parts values s → Spells (.fixed text :: parts) values (text ++ s)
  | slot {p : Placeholder} {v s : Text} {parts : List Part} {values : List Text} :
      isValue v = true → Spells parts values s →
      Spells (.slot p :: parts) (v :: values) (v ++ s)

namespace Spells

theorem isValue_of_mem {parts : List Part} {values : List Text} {s : Text}
    (h : Spells parts values s) : ∀ v ∈ values, isValue v = true := by
  induction h with
  | nil => intro v hv; cases hv
  | fixed _ ih => exact ih
  | slot hw _ ih =>
    intro v hv
    rcases List.mem_cons.1 hv with rfl | hv
    · exact hw
    · exact ih v hv

theorem length_values {parts : List Part} {values : List Text} {s : Text}
    (h : Spells parts values s) :
    values.length = (parts.filterMap Part.placeholder?).length := by
  induction h with
  | nil => rfl
  | fixed _ ih => rw [filterMap_fixed, ih]
  | slot _ _ ih => rw [filterMap_slot, List.length_cons, List.length_cons, ih]

theorem fixed_inv {text s : Text} {parts : List Part} {values : List Text}
    (h : Spells (.fixed text :: parts) values s) : ∃ t, s = text ++ t ∧ Spells parts values t := by
  cases h with
  | fixed h => exact ⟨_, rfl, h⟩

theorem slot_inv {p : Placeholder} {s : Text} {parts : List Part} {values : List Text}
    (h : Spells (.slot p :: parts) values s) :
    ∃ v vs t, values = v :: vs ∧ s = v ++ t ∧ isValue v = true ∧ Spells parts vs t := by
  cases h with
  | slot hv h => exact ⟨_, _, _, rfl, rfl, hv, h⟩

end Spells

/-! ## Readings -/

theorem mem_readings_fixed {text s : Text} {parts : List Part} {r : Reading} :
    r ∈ readings (.fixed text :: parts) s ↔ ∃ t, s = text ++ t ∧ r ∈ readings parts t := by
  simp only [readings]
  cases h : Text.after? text s with
  | none =>
    constructor
    · intro hr; cases hr
    · rintro ⟨t, ht, _⟩
      rw [Text.after?_eq_some_iff.2 ht] at h
      cases h
  | some u =>
    have hu := Text.after?_eq_some_iff.1 h
    constructor
    · exact fun hr => ⟨u, hu, hr⟩
    · rintro ⟨t, ht, hr⟩
      rw [hu] at ht
      rwa [List.append_cancel_left ht]

theorem mem_readings_slot {p : Placeholder} {s : Text} {parts : List Part} {r : Reading} :
    r ∈ readings (.slot p :: parts) s ↔
      ∃ v t q, s = v ++ t ∧ isValue v = true ∧ q ∈ readings parts t ∧ r = q.cons v := by
  simp only [readings, List.mem_flatMap, List.mem_map]
  constructor
  · rintro ⟨n, hn, q, hq, rfl⟩
    exact ⟨s.take n, s.drop n, q, (List.take_append_drop n s).symm,
      (mem_valueLengths_iff.1 hn).2, hq, rfl⟩
  · rintro ⟨v, t, q, rfl, hv, hq, rfl⟩
    refine ⟨v.length, mem_valueLengths_iff.2 ⟨by simp, by simpa using hv⟩, q, ?_, ?_⟩
    · simpa using hq
    · simp

theorem mem_readings_iff {parts : List Part} {s : Text} {r : Reading} :
    r ∈ readings parts s ↔ ∃ t, Spells parts r.values t ∧ s = t ++ r.rest := by
  induction parts generalizing s r with
  | nil =>
    rw [readings, List.mem_singleton]
    constructor
    · rintro rfl
      exact ⟨[], .nil, rfl⟩
    · rintro ⟨t, ht, rfl⟩
      cases r
      cases ht
      rfl
  | cons part parts ih =>
    cases part with
    | fixed text =>
      rw [mem_readings_fixed]
      constructor
      · rintro ⟨u, rfl, hr⟩
        obtain ⟨t, ht, rfl⟩ := ih.1 hr
        exact ⟨text ++ t, .fixed ht, (List.append_assoc ..).symm⟩
      · rintro ⟨t, ht, rfl⟩
        obtain ⟨u, rfl, hu⟩ := ht.fixed_inv
        exact ⟨u ++ r.rest, List.append_assoc .., ih.2 ⟨u, hu, rfl⟩⟩
    | slot p =>
      rw [mem_readings_slot]
      constructor
      · rintro ⟨v, u, q, rfl, hv, hq, rfl⟩
        obtain ⟨t, ht, rfl⟩ := ih.1 hq
        exact ⟨v ++ t, .slot hv ht, (List.append_assoc ..).symm⟩
      · rintro ⟨t, ht, rfl⟩
        obtain ⟨v, vs, u, hvs, rfl, hv, hu⟩ := ht.slot_inv
        refine ⟨v, u ++ r.rest, ⟨vs, r.rest⟩, List.append_assoc .., hv, ih.2 ⟨u, hu, rfl⟩, ?_⟩
        rw [Reading.cons, ← hvs]

/-! ## Preferred readings -/

theorem readFront_eq_head (parts : List Part) (s : Text) :
    readFront parts s = (readings parts s).head? := by
  rw [readFront, preferred_eq_find]
  cases readings parts s <;> simp

theorem readWhole_eq_find (parts : List Part) (s : Text) :
    readWhole parts s = (readings parts s).find? fun r => r.rest.isEmpty :=
  preferred_eq_find ..

theorem readWhole_eq_none_iff {parts : List Part} {s : Text} :
    readWhole parts s = none ↔ ∀ values, ¬ Spells parts values s := by
  rw [readWhole_eq_find, List.find?_eq_none]
  constructor
  · intro h values hs
    have hmem : ⟨values, []⟩ ∈ readings parts s := mem_readings_iff.2 ⟨s, hs, by simp⟩
    exact h _ hmem rfl
  · intro h r hr hrest
    obtain ⟨t, ht, rfl⟩ := mem_readings_iff.1 hr
    rw [List.isEmpty_iff.1 hrest, List.append_nil] at h
    exact h r.values ht

theorem readWhole_of_readFront {parts : List Part} {s : Text} {r : Reading}
    (h : readFront parts s = some r) (hr : r.rest = []) : readWhole parts s = some r := by
  rw [readFront_eq_head] at h
  rw [readWhole_eq_find]
  cases hl : readings parts s with
  | nil => rw [hl] at h; cases h
  | cons q l =>
    rw [hl] at h
    cases h
    simp [hr]

theorem spells_of_readWhole {parts : List Part} {s : Text} {r : Reading}
    (h : readWhole parts s = some r) : Spells parts r.values s := by
  rw [readWhole_eq_find] at h
  obtain ⟨t, ht, rfl⟩ := mem_readings_iff.1 (List.mem_of_find?_eq_some h)
  have hr : r.rest = [] := by simpa using List.find?_some h
  rwa [hr, List.append_nil]

theorem spells_of_readFront {parts : List Part} {s : Text} {r : Reading}
    (h : readFront parts s = some r) : ∃ t, Spells parts r.values t ∧ s = t ++ r.rest := by
  rw [readFront_eq_head] at h
  exact mem_readings_iff.1 (List.mem_of_head? h)

end FactForm
