import FactForm.Entity.Codec
import FactForm.Proofs.Template.Spelling

/-!
# FactForm.Proofs.Entity.Values

Dictionaries of values and the texts made from them.

* `Template.IsAssignment` — a dictionary gives each id of a template a value, and has no other name.
* `Template.render_ok` — an assignment fills the template to a text that spells it.
* `collectValues_ok`, `collectValues_error` — values found in a text are collected unless one id has
  two of them.
* `Template.valuesOf_ok` — the values read from a whole text are those of one way to spell it.
* `Template.isAssignment_of_valuesOf` — values read from a text are an assignment.
* `Template.valuesOf_eq_of_agree` — an assignment that agrees with the preferred reading of a text
  is what is read from it.
* `Template.render_of_valuesOf` — values read from a text fill the template to that text.
-/

namespace FactForm

/-! ## Names of a dictionary -/

namespace Dictionary

variable {β : Type}

theorem get?_eq_none_iff {d : Dictionary β} {k : Text} : d.get? k = none ↔ k ∉ d.keys := by
  rw [get?, List.lookup_eq_none_iff, keys, List.mem_map]
  constructor
  · rintro h ⟨e, he, rfl⟩
    simpa using h e he
  · intro h e he
    rw [bne_iff_ne]
    rintro rfl
    exact h ⟨e, he, rfl⟩

theorem mem_keys_iff {d : Dictionary β} {k : Text} : k ∈ d.keys ↔ ∃ v, d.get? k = some v := by
  rw [← Option.ne_none_iff_exists', ne_eq, get?_eq_none_iff, Decidable.not_not]

theorem mem_keys_set {d : Dictionary β} {j k : Text} {v : β} :
    j ∈ (d.set k v).keys ↔ j = k ∨ j ∈ d.keys := by
  rw [mem_keys_iff, mem_keys_iff, get?_set]
  by_cases h : j = k <;> simp [h]

theorem mem_keys_ofList {pairs : List (Text × β)} {k : Text} :
    k ∈ (ofList pairs).keys ↔ k ∈ pairs.map (·.1) := by
  have general : ∀ d : Dictionary β,
      k ∈ (pairs.foldl (fun d e => d.set e.1 e.2) d).keys ↔ k ∈ pairs.map (·.1) ∨ k ∈ d.keys := by
    induction pairs with
    | nil => intro d; simp
    | cons e pairs ih =>
      intro d
      rw [List.foldl_cons, ih, mem_keys_set, List.map_cons, List.mem_cons]
      exact ⟨by rintro (h | h | h) <;> simp [h], by rintro ((h | h) | h) <;> simp [h]⟩
  rw [ofList, general]
  simp [keys, empty]

end Dictionary

theorem Template.mem_keys_idSet {t : Template} {id : Text} : id ∈ t.idSet.keys ↔ id ∈ t.ids := by
  rw [Template.idSet, Dictionary.mem_keys_ofList, List.map_map, List.mem_map]
  simp

theorem Codec.mem_ids_iff (c : Codec) {id : Text} : id ∈ c.atom.ids ↔ id ∈ c.display.ids := by
  rw [← Template.mem_keys_idSet, ← Template.mem_keys_idSet, c.same_ids]

/-- The dictionary gives each id of the template a value, and has no other name. -/
structure Template.IsAssignment (t : Template) (m : Dictionary Text) : Prop where
  keys : ∀ id, id ∈ m.keys ↔ id ∈ t.ids
  values : ∀ id v, m.get? id = some v → isValue v = true

instance (t : Template) (m : Dictionary Text) : Decidable (t.IsAssignment m) :=
  decidable_of_iff
    ((∀ id ∈ m.keys, id ∈ t.ids) ∧ (∀ id ∈ t.ids, id ∈ m.keys) ∧
      ∀ id ∈ m.keys, ∀ v ∈ m.get? id, isValue v = true)
    ⟨fun h => ⟨fun id => ⟨h.1 id, h.2.1 id⟩, fun id v hv =>
        h.2.2 id (Dictionary.mem_keys_iff.2 ⟨v, hv⟩) v hv⟩,
      fun h => ⟨fun id => (h.keys id).1, fun id => (h.keys id).2, fun id _ v hv =>
        h.values id v hv⟩⟩

theorem Codec.isAssignment_iff {c : Codec} {m : Dictionary Text} :
    c.atom.IsAssignment m ↔ c.display.IsAssignment m :=
  ⟨fun h => ⟨fun id => (h.keys id).trans c.mem_ids_iff, h.values⟩,
    fun h => ⟨fun id => (h.keys id).trans c.mem_ids_iff.symm, h.values⟩⟩

/-! ## Filling -/

theorem fillParts_ok {m : Dictionary Text} {parts : List Part}
    (hv : ∀ id v, m.get? id = some v → isValue v = true)
    (h : ∀ p ∈ parts.filterMap Part.placeholder?, p.id ∈ m.keys) :
    ∃ s values, fillParts m parts = .ok s ∧ Spells parts values s ∧
      ∀ e ∈ ((parts.filterMap Part.placeholder?).map (·.id)).zip values,
        m.get? e.1 = some e.2 := by
  induction parts with
  | nil => exact ⟨[], [], rfl, .nil, by simp⟩
  | cons part parts ih =>
    cases part with
    | fixed text =>
      obtain ⟨s, values, hs, hsp, hm⟩ := ih (by simpa using h)
      exact ⟨text ++ s, values, by simp [fillParts, hs], .fixed hsp, by simpa using hm⟩
    | slot p =>
      simp only [filterMap_slot, List.mem_cons, forall_eq_or_imp] at h
      obtain ⟨s, values, hs, hsp, hm⟩ := ih h.2
      obtain ⟨v, hget⟩ := Dictionary.mem_keys_iff.1 h.1
      refine ⟨v ++ s, v :: values, by simp [fillParts, hget, hs], .slot (hv _ _ hget) hsp, ?_⟩
      simpa [hget] using hm

theorem fillParts_of_spells {m : Dictionary Text} {parts : List Part} {values : List Text}
    {s : Text} (hs : Spells parts values s)
    (hm : ∀ e ∈ ((parts.filterMap Part.placeholder?).map (·.id)).zip values,
      m.get? e.1 = some e.2) : fillParts m parts = .ok s := by
  induction hs with
  | nil => rfl
  | fixed _ ih =>
    rw [filterMap_fixed] at hm
    rw [fillParts, ih hm]
  | slot _ _ ih =>
    rw [filterMap_slot, List.map_cons, List.zip_cons_cons, List.forall_mem_cons] at hm
    simp only [fillParts, hm.1, ih hm.2]

namespace Template

theorem render_ok {t : Template} {m : Dictionary Text} (h : t.IsAssignment m) :
    ∃ s values, t.render m = .ok s ∧ Spells t.parts values s ∧
      ∀ e ∈ t.ids.zip values, m.get? e.1 = some e.2 := by
  have hids : ∀ p ∈ t.parts.filterMap Part.placeholder?, p.id ∈ m.keys := by
    intro p hp
    exact (h.keys p.id).2 (List.mem_map.2 ⟨p, hp, rfl⟩)
  obtain ⟨s, values, hs, hsp, hm⟩ := fillParts_ok h.values hids
  exact ⟨s, values, by rw [render, hs], hsp, hm⟩

end Template

/-! ## Collecting -/

theorem collectValues_ok {values d : Dictionary Text} {pairs : List (Text × Text)}
    (h : collectValues values pairs = .ok d) :
    (∀ id v, values.get? id = some v → d.get? id = some v) ∧
      (∀ e ∈ pairs, d.get? e.1 = some e.2) ∧
      ∀ id v, d.get? id = some v → values.get? id = some v ∨ (id, v) ∈ pairs := by
  induction pairs generalizing values with
  | nil =>
    cases h
    exact ⟨fun _ _ => id, by simp, fun _ _ => .inl⟩
  | cons e pairs ih =>
    obtain ⟨k, w⟩ := e
    simp only [collectValues] at h
    split at h
    · rename_i hk
      obtain ⟨hkeep, hpairs, honly⟩ := ih h
      have hw : d.get? k = some w := hkeep k w (by rw [Dictionary.get?_set, if_pos rfl])
      refine ⟨?_, ?_, ?_⟩
      · intro id v hv
        refine hkeep id v ?_
        rw [Dictionary.get?_set, if_neg (by rintro rfl; rw [hk] at hv; cases hv), hv]
      · simpa [hw] using fun a b => hpairs (a, b)
      · intro id v hv
        rcases honly id v hv with hset | hmem
        · rw [Dictionary.get?_set] at hset
          split at hset
          · rename_i hid
            cases hset
            exact .inr (by simp [hid])
          · exact .inl hset
        · exact .inr (List.mem_cons_of_mem _ hmem)
    · rename_i u hk
      split at h
      · rename_i hu
        obtain ⟨hkeep, hpairs, honly⟩ := ih h
        have hw : d.get? k = some w := hkeep k w (hu ▸ hk)
        refine ⟨hkeep, by simpa [hw] using fun a b => hpairs (a, b), ?_⟩
        intro id v hv
        exact (honly id v hv).imp_right (List.mem_cons_of_mem _)
      · cases h

theorem collectValues_error {values : Dictionary Text} {pairs : List (Text × Text)} {id : Text}
    (h : collectValues values pairs = .error id) :
    ∃ v w, v ≠ w ∧ (values.get? id = some v ∨ (id, v) ∈ pairs) ∧ (id, w) ∈ pairs := by
  induction pairs generalizing values with
  | nil => cases h
  | cons e pairs ih =>
    obtain ⟨k, u⟩ := e
    simp only [collectValues] at h
    split at h
    · obtain ⟨v, w, hne, hv, hw⟩ := ih h
      refine ⟨v, w, hne, ?_, List.mem_cons_of_mem _ hw⟩
      rcases hv with hv | hv
      · rw [Dictionary.get?_set] at hv
        split at hv
        · rename_i hid
          cases hv
          exact .inr (by simp [hid])
        · exact .inl hv
      · exact .inr (List.mem_cons_of_mem _ hv)
    · rename_i x hk
      split at h
      · obtain ⟨v, w, hne, hv, hw⟩ := ih h
        exact ⟨v, w, hne, hv.imp_right (List.mem_cons_of_mem _), List.mem_cons_of_mem _ hw⟩
      · rename_i hx
        cases h
        exact ⟨x, u, hx, .inl hk, by simp⟩

namespace Template

/-- The values found in a whole text are those of one way to spell it. -/
theorem valuesOf_ok {t : Template} {s : Text} {m : Dictionary Text} (h : t.valuesOf s = .ok m) :
    ∃ r, readWhole t.parts s = some r ∧ Spells t.parts r.values s ∧
      (∀ e ∈ t.ids.zip r.values, m.get? e.1 = some e.2) ∧
      ∀ id v, m.get? id = some v → (id, v) ∈ t.ids.zip r.values := by
  unfold valuesOf at h
  split at h
  · cases h
  · rename_i r hr
    split at h
    · rename_i found hfound
      cases h
      obtain ⟨_, hpairs, honly⟩ := collectValues_ok hfound
      refine ⟨r, hr, spells_of_readWhole hr, hpairs, ?_⟩
      intro id v hv
      rcases honly id v hv with hempty | hmem
      · cases hempty
      · exact hmem
    · cases h

theorem length_ids (t : Template) :
    t.ids.length = (t.parts.filterMap Part.placeholder?).length := by
  rw [ids, List.length_map, placeholders]

theorem mem_ids_iff_mem_zip {t : Template} {values : List Text} {s : Text}
    (hs : Spells t.parts values s) {id : Text} :
    id ∈ t.ids ↔ ∃ v, (id, v) ∈ t.ids.zip values := by
  have hlen : t.ids.length = values.length := by rw [length_ids, hs.length_values]
  constructor
  · intro hid
    rw [← List.map_fst_zip (Nat.le_of_eq hlen)] at hid
    obtain ⟨e, he, rfl⟩ := List.mem_map.1 hid
    exact ⟨e.2, he⟩
  · rintro ⟨v, hv⟩
    exact (List.of_mem_zip hv).1

theorem isAssignment_of_valuesOf {t : Template} {s : Text} {m : Dictionary Text}
    (h : t.valuesOf s = .ok m) : t.IsAssignment m := by
  obtain ⟨r, _, hs, hpairs, honly⟩ := valuesOf_ok h
  refine ⟨?_, ?_⟩
  · intro id
    rw [Dictionary.mem_keys_iff, mem_ids_iff_mem_zip hs]
    exact ⟨fun ⟨v, hv⟩ => ⟨v, honly id v hv⟩, fun ⟨v, hv⟩ => ⟨v, hpairs _ hv⟩⟩
  · intro id v hv
    exact hs.isValue_of_mem v (List.of_mem_zip (honly id v hv)).2

theorem render_of_valuesOf {t : Template} {s : Text} {m : Dictionary Text}
    (h : t.valuesOf s = .ok m) : t.render m = .ok s := by
  obtain ⟨_, _, hs, hpairs, _⟩ := valuesOf_ok h
  rw [render, fillParts_of_spells hs hpairs]

theorem valuesOf_eq_of_agree {t : Template} {s : Text} {m : Dictionary Text} {r : Reading}
    (hm : t.IsAssignment m) (hr : readWhole t.parts s = some r)
    (hagree : ∀ e ∈ t.ids.zip r.values, m.get? e.1 = some e.2) : t.valuesOf s = .ok m := by
  have hs := spells_of_readWhole hr
  rw [valuesOf, hr]
  cases hc : collectValues .empty (t.ids.zip r.values) with
  | error id =>
    obtain ⟨v, w, hne, hv, hw⟩ := collectValues_error hc
    rcases hv with hv | hv
    · cases hv
    · have hvw : some v = some w := (hagree _ hv).symm.trans (hagree _ hw)
      exact absurd (Option.some.inj hvw) hne
  | ok d =>
    obtain ⟨_, hpairs, honly⟩ := collectValues_ok hc
    have hd : d = m := by
      refine Dictionary.ext fun id => ?_
      by_cases hid : id ∈ t.ids
      · obtain ⟨v, hv⟩ := (mem_ids_iff_mem_zip hs).1 hid
        rw [hpairs _ hv, hagree _ hv]
      · have hnone := Dictionary.get?_eq_none_iff.2 (mt (hm.keys id).1 hid)
        rw [hnone, Option.eq_none_iff_forall_ne_some]
        intro v hv
        rcases honly id v hv with hempty | hmem
        · cases hempty
        · exact hid (List.of_mem_zip hmem).1
    simp [hc, hd]

end Template
end FactForm
