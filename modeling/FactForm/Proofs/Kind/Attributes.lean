import FactForm.Kind
import Mathlib.Data.List.Induction

/-!
# FactForm.Proofs.Kind.Attributes

The attributes of a definition. An attribute that is set for an id replaces the one set before, so a
definition has for each id the attribute that was set last, and no other.

* `KindDefinition.IsLastFor` — the last attribute that was set for an id.
* `KindDefinition.IsUndefined` — no attribute was set for an id.
* `KindDefinition.ofCalls` — the definition after attributes were set.
* `KindDefinition.nodup_ofCalls` — no id has two attributes.
* `KindDefinition.mem_ofCalls` — the attributes are those that were set last.
* `KindDefinition.attribute?_ofCalls` — and they are found by their ids.
-/

namespace FactForm

namespace KindDefinition

/-- The attribute that was set last for the id. -/
def IsLastFor (calls : List Attribute) (id : Text) (a : Attribute) : Prop :=
  ∃ front rest, calls = front ++ a :: rest ∧ a.id = id ∧ ∀ b ∈ rest, b.id ≠ id

/-- The definition of two texts after attributes were set one after the other. -/
def ofCalls (display atom : Text) (calls : List Attribute) : KindDefinition :=
  (ofTemplates display atom).withAttributes calls

/-- No attribute was set for the id. -/
def IsUndefined (calls : List Attribute) (id : Text) : Prop := ∀ a ∈ calls, a.id ≠ id

variable {calls : List Attribute} {a b : Attribute} {id : Text} {d : KindDefinition}
  (display atom : Text)

theorem not_isLastFor_nil : ¬ IsLastFor [] id a := by
  intro h
  obtain ⟨front, rest, hcalls, _⟩ := h
  simp at hcalls

/-- The last call is the last one for its id, and leaves those for other ids as they were. -/
theorem isLastFor_snoc :
    IsLastFor (calls ++ [b]) id a ↔ b.id = id ∧ a = b ∨ b.id ≠ id ∧ IsLastFor calls id a := by
  constructor
  · intro h
    obtain ⟨front, rest, hcalls, hid, hrest⟩ := h
    rcases List.eq_nil_or_concat rest with rfl | ⟨rest', c, rfl⟩
    · have hlast : b = a := by simpa using congrArg List.getLast? hcalls
      exact .inl ⟨hlast ▸ hid, hlast.symm⟩
    · have hsplit : calls ++ [b] = (front ++ a :: rest') ++ [c] := by simpa using hcalls
      obtain ⟨hfront, hlast⟩ := List.append_inj' hsplit rfl
      have hb : b = c := by simpa using hlast
      exact .inr ⟨hb ▸ hrest c (by simp), front, rest', hfront, hid,
        fun x hx => hrest x (by simp [hx])⟩
  · intro h
    rcases h with ⟨hb, rfl⟩ | ⟨hb, front, rest, hcalls, hid, hrest⟩
    · exact ⟨calls, [], rfl, hb, by simp⟩
    · refine ⟨front, rest ++ [b], by simp [hcalls], hid, ?_⟩
      intro x hx
      rcases List.mem_append.1 hx with hx | hx
      · exact hrest x hx
      · simpa [List.mem_singleton.1 hx] using hb

theorem ofCalls_nil : ofCalls display atom [] = ⟨display, atom, []⟩ := rfl

theorem ofCalls_snoc (calls : List Attribute) (b : Attribute) :
    ofCalls display atom (calls ++ [b]) = (ofCalls display atom calls).withAttribute b := by
  simp [ofCalls, withAttributes]

theorem mem_withAttribute :
    a ∈ (d.withAttribute b).attributes ↔ a = b ∨ a ∈ d.attributes ∧ a.id ≠ b.id := by
  simp [withAttribute, or_comm]

theorem nodup_withAttribute (h : (d.attributes.map (·.id)).Nodup) :
    ((d.withAttribute b).attributes.map (·.id)).Nodup := by
  have hkept : ((d.attributes.filter (·.id ≠ b.id)).map (·.id)).Nodup :=
    h.sublist (List.filter_sublist.map _)
  rw [withAttribute, List.map_append, List.nodup_append]
  refine ⟨hkept, by simp, ?_⟩
  intro i hi j hj
  obtain ⟨a, ha, rfl⟩ := List.mem_map.1 hi
  have hne := (List.mem_filter.1 ha).2
  simp at hj hne
  rw [hj]
  exact hne

theorem nodup_ofCalls (calls : List Attribute) :
    ((ofCalls display atom calls).attributes.map (·.id)).Nodup := by
  induction calls using List.reverseRecOn with
  | nil => simp [ofCalls_nil]
  | append_singleton calls b ih =>
    rw [ofCalls_snoc]
    exact nodup_withAttribute ih

theorem mem_ofCalls :
    a ∈ (ofCalls display atom calls).attributes ↔ IsLastFor calls a.id a := by
  induction calls using List.reverseRecOn with
  | nil => simp [ofCalls_nil, not_isLastFor_nil]
  | append_singleton calls b ih =>
    rw [ofCalls_snoc, mem_withAttribute, ih, isLastFor_snoc]
    by_cases hab : a = b
    · simp [hab]
    · simp [hab, eq_comm, and_comm]

theorem find?_filter_id (attributes : List Attribute) (i id : Text) :
    (attributes.filter (·.id ≠ i)).find? (·.id = id) =
      if i = id then none else attributes.find? (·.id = id) := by
  induction attributes with
  | nil => simp
  | cons a attributes ih =>
    by_cases ha : a.id = i
    · by_cases hi : i = id
      · simp [ha, hi]
      · simpa [ha, hi] using ih
    · by_cases hid : a.id = id
      · have hne : i ≠ id := fun hi => ha (hid.trans hi.symm)
        simp [hid, hne, Ne.symm hne]
      · simpa [ha, hid] using ih

theorem attribute?_withAttribute :
    (d.withAttribute b).attribute? id = if b.id = id then some b else d.attribute? id := by
  rw [attribute?, withAttribute, List.find?_append, find?_filter_id]
  by_cases h : b.id = id
  · simp [h]
  · simp [h, attribute?]

theorem attribute?_ofCalls :
    (ofCalls display atom calls).attribute? id = some a ↔ IsLastFor calls id a := by
  induction calls using List.reverseRecOn with
  | nil => simp [ofCalls_nil, attribute?, not_isLastFor_nil]
  | append_singleton calls b ih =>
    rw [ofCalls_snoc, attribute?_withAttribute, isLastFor_snoc]
    by_cases hb : b.id = id
    · simp [hb, eq_comm]
    · simp [hb, ih]

theorem IsLastFor.unique (ha : IsLastFor calls id a) (hb : IsLastFor calls id b) : a = b := by
  rw [← attribute?_ofCalls [] []] at ha hb
  simpa [ha] using hb

theorem attribute?_ofCalls_eq_none_iff :
    (ofCalls display atom calls).attribute? id = none ↔ IsUndefined calls id := by
  induction calls using List.reverseRecOn with
  | nil => simp [ofCalls_nil, attribute?, IsUndefined]
  | append_singleton calls b ih =>
    rw [ofCalls_snoc, attribute?_withAttribute]
    by_cases hb : b.id = id
    · simp [hb, IsUndefined]
    · simp only [hb, if_false, ih]
      simp [IsUndefined, or_imp, forall_and, hb]

theorem texts_ofCalls (calls : List Attribute) :
    (ofCalls display atom calls).display = display ∧ (ofCalls display atom calls).atom = atom := by
  induction calls using List.reverseRecOn with
  | nil => simp [ofCalls_nil]
  | append_singleton calls b ih =>
    rw [ofCalls_snoc]
    exact ih

end KindDefinition

end FactForm
