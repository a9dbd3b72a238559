import FactForm.Proofs.Exchange.RoundTrip
import Mathlib.Data.List.Nodup

/-!
# FactForm.Proofs.Exchange.Calls

What single calls do to lists, slots and conditions. When a list is rebuilt from a set nothing looks for
repeated entities: there are none, because the atom text of an entity is the text of the atom that it
was made from.

* `Entity.MadeBy` — the values of an entity are those of the slots, and its texts are made from them.
* `EntityList.isSound_serve`, `ValueSlot.isSound_serve` — what every call keeps.
* `EntityList.state_of_failed`, `ValueSlot.state_of_failed` — a call that fails changes nothing.
* `EntityList.serve_add`, `EntityList.serve_remove` — what adding and removing answer.
* `Condition.fulfilled_receiveAll` — of the sets that a condition receives only the last counts.
-/

namespace FactForm

/-! ## Entities of a codec -/

/-- The values are those of the slots, and both texts are made from them. -/
structure Entity.MadeBy (c : Codec) (e : Entity) : Prop where
  values : c.display.IsAssignment e.values
  display : c.display.render e.values = .ok e.display
  atom : c.atom.render e.values = .ok e.atom

namespace Codec

variable {c : Codec} {e : Entity}

theorem madeBy_of_fromDisplayText {s : Text} (h : c.fromDisplayText s = .ok e) : e.MadeBy c := by
  obtain ⟨hm, he⟩ := isAssignment_of_fromDisplayText h
  obtain ⟨_, hd, ha⟩ := Entity.ofValues_eq_ok_iff.1 he
  exact ⟨hm, hd, ha⟩

theorem madeBy_of_fromAtom {a : Atom} (h : c.fromAtom a = .ok e) : e.MadeBy c := by
  obtain ⟨hm, he⟩ := isAssignment_of_fromAtomText h
  obtain ⟨_, hd, ha⟩ := Entity.ofValues_eq_ok_iff.1 he
  exact ⟨hm, hd, ha⟩

theorem fromAtom_injective {a b : Atom} (ha : c.fromAtom a = .ok e) (hb : c.fromAtom b = .ok e) :
    a = b := by
  have htext : a.text = b.text := (atom_of_fromAtomText ha).symm.trans (atom_of_fromAtomText hb)
  have hparse : Atom.parse a.text = .ok b := by rw [htext, Atom.parse_text]
  exact Except.ok.inj ((Atom.parse_text a).symm.trans hparse)

end Codec

theorem AtomSet.nodup_toList (s : AtomSet) : s.toList.Nodup :=
  s.ascending.imp fun hab heq => by
    rw [heq] at hab
    exact Atom.strictOrder.not_self hab

theorem nodup_entitiesOf (c : Codec) (atoms : AtomSet) : (entitiesOf c atoms).Nodup := by
  refine List.Nodup.filterMap ?_ atoms.nodup_toList
  intro a b e ha hb
  exact Codec.fromAtom_injective (Codec.toOption_fromAtom_eq_some_iff.1 ha)
    (Codec.toOption_fromAtom_eq_some_iff.1 hb)

theorem madeBy_of_mem_entitiesOf {c : Codec} {atoms : AtomSet} {e : Entity}
    (h : e ∈ entitiesOf c atoms) : e.MadeBy c := by
  obtain ⟨a, _, ha⟩ := mem_entitiesOf.1 h
  exact Codec.madeBy_of_fromAtom ha

/-! ## Lists -/

namespace EntityList

/-- What holds of a list of one codec between any two calls. -/
structure IsSound (c : Codec) (l : EntityList) : Prop where
  codec : l.codec = c
  nodup : l.entities.Nodup
  made : ∀ e ∈ l.entities, e.MadeBy c

variable {c : Codec} {l : EntityList} {e : Entity}

theorem isSound_empty (c : Codec) : IsSound c (empty c) :=
  ⟨rfl, List.nodup_nil, fun _ h => absurd h List.not_mem_nil⟩

theorem push_of_mem (h : e ∈ l.entities) : l.push e = (false, l) := by
  rw [push, if_pos (List.contains_iff_mem.2 h)]

theorem push_of_not_mem (h : e ∉ l.entities) :
    l.push e = (true, { l with entities := l.entities ++ [e] }) := by
  rw [push, if_neg (mt List.contains_iff_mem.1 h)]

theorem isSound_push (hl : IsSound c l) (he : e.MadeBy c) : IsSound c (l.push e).2 := by
  by_cases h : e ∈ l.entities
  · rwa [push_of_mem h]
  · rw [push_of_not_mem h]
    refine ⟨hl.codec, ?_, ?_⟩
    · exact hl.nodup.append (List.nodup_singleton e) (by simpa using h)
    · intro x hx
      rcases List.mem_append.1 hx with hx | hx
      · exact hl.made x hx
      · rwa [List.mem_singleton.1 hx]

theorem serve_add_of_error {text : Text} {err : RepresentationError}
    (h : l.codec.fromDisplayText text = .error err) : l.serve (.add text) = (.failed err, l) := by
  rw [serve, add, h]

theorem serve_add_of_ok {text : Text} (h : l.codec.fromDisplayText text = .ok e) :
    l.serve (.add text) = (.answer (l.push e).1, (l.push e).2) := by
  rw [serve, add, h]

theorem mem_remove {x : Entity} : x ∈ (l.remove e).2.entities ↔ x ∈ l.entities ∧ x ≠ e := by
  simp [remove]

theorem sublist_remove (l : EntityList) (e : Entity) :
    (l.remove e).2.entities.Sublist l.entities := List.filter_sublist

theorem remove_fst_iff : (l.remove e).1 = true ↔ e ∈ l.entities := by
  rw [remove, bne_iff_ne, ne_eq, List.length_filter_eq_length_iff]
  simp

theorem isSound_remove (hl : IsSound c l) (e : Entity) : IsSound c (l.remove e).2 :=
  ⟨hl.codec, hl.nodup.sublist (sublist_remove l e), fun x hx => hl.made x (mem_remove.1 hx).1⟩

theorem isSound_receive (hl : IsSound c l) (atoms : AtomSet) : IsSound c (l.receive atoms) := by
  obtain ⟨rfl, _, _⟩ := hl
  exact ⟨rfl, nodup_entitiesOf _ _, fun _ => madeBy_of_mem_entitiesOf⟩

theorem isSound_serve (hl : IsSound c l) (call : Call) : IsSound c (l.serve call).2 := by
  cases call with
  | add text =>
    cases h : l.codec.fromDisplayText text with
    | error err => rwa [serve_add_of_error h]
    | ok e =>
      rw [serve_add_of_ok h]
      have he : e.MadeBy c := by
        rw [← hl.codec]
        exact Codec.madeBy_of_fromDisplayText h
      exact isSound_push hl he
  | remove e => exact isSound_remove hl e
  | clear => exact ⟨hl.codec, List.nodup_nil, fun _ h => absurd h List.not_mem_nil⟩

theorem state_of_failed {call : Call} {err : RepresentationError}
    (h : (l.serve call).1 = .failed err) : (l.serve call).2 = l := by
  cases call with
  | add text =>
    cases hread : l.codec.fromDisplayText text with
    | error err' => rw [serve_add_of_error hread]
    | ok e =>
      rw [serve_add_of_ok hread] at h
      cases h
  | remove e => cases h
  | clear => cases h

theorem serve_add {text : Text} (h : l.codec.fromDisplayText text = .ok e) :
    ∃ isNew l', l.serve (.add text) = (.answer isNew, l') ∧ (isNew = false ↔ e ∈ l.entities) ∧
      l'.entities = if isNew then l.entities ++ [e] else l.entities := by
  rw [serve_add_of_ok h]
  by_cases hmem : e ∈ l.entities
  · rw [push_of_mem hmem]
    exact ⟨false, l, rfl, by simp [hmem], rfl⟩
  · rw [push_of_not_mem hmem]
    exact ⟨true, _, rfl, by simp [hmem], rfl⟩

theorem serve_remove (l : EntityList) (e : Entity) :
    ∃ found l', l.serve (.remove e) = (.answer found, l') ∧ (found = true ↔ e ∈ l.entities) ∧
      l'.entities.Sublist l.entities ∧ ∀ x, x ∈ l'.entities ↔ x ∈ l.entities ∧ x ≠ e :=
  ⟨_, _, rfl, remove_fst_iff, sublist_remove l e, fun _ => mem_remove⟩

end EntityList

/-! ## Slots -/

namespace ValueSlot

structure IsSound (c : Codec) (s : ValueSlot) : Prop where
  codec : s.codec = c
  made : ∀ e ∈ s.value, e.MadeBy c

variable {c : Codec} {s : ValueSlot}

theorem isSound_empty (c : Codec) : IsSound c (empty c) := ⟨rfl, fun _ h => by cases h⟩

theorem mem_of_smallest {entities : List Entity} {e : Entity} (h : smallest entities = some e) :
    e ∈ entities := by
  induction entities generalizing e with
  | nil => cases h
  | cons d entities ih =>
    rw [smallest] at h
    split at h
    · cases h
      exact List.mem_cons_self
    · rename_i m hm
      split at h
      · cases h
        exact List.mem_cons_of_mem _ (ih hm)
      · cases h
        exact List.mem_cons_self

theorem serve_set_of_error {text : Text} {err : RepresentationError}
    (h : s.codec.fromDisplayText text = .error err) : s.serve (.set text) = (.failed err, s) := by
  rw [serve, set, h]

theorem serve_set_of_ok {text : Text} {e : Entity} (h : s.codec.fromDisplayText text = .ok e) :
    s.serve (.set text) = (.done, { s with value := some e }) := by
  rw [serve, set, h]

theorem isSound_receive (hs : IsSound c s) (atoms : AtomSet) : IsSound c (s.receive atoms) := by
  obtain ⟨rfl, _⟩ := hs
  exact ⟨rfl, fun e he => madeBy_of_mem_entitiesOf (mem_of_smallest he)⟩

theorem isSound_serve (hs : IsSound c s) (call : Call) : IsSound c (s.serve call).2 := by
  obtain rfl : s.codec = c := hs.codec
  cases call with
  | set text =>
    cases h : s.codec.fromDisplayText text with
    | error err => rwa [serve_set_of_error h]
    | ok e =>
      rw [serve_set_of_ok h]
      refine ⟨rfl, ?_⟩
      rintro _ ⟨⟩
      exact Codec.madeBy_of_fromDisplayText h
  | clear => exact ⟨rfl, fun _ h => by cases h⟩

theorem state_of_failed {call : Call} {err : RepresentationError}
    (h : (s.serve call).1 = .failed err) : (s.serve call).2 = s := by
  cases call with
  | set text =>
    cases hread : s.codec.fromDisplayText text with
    | error err' => rw [serve_set_of_error hread]
    | ok e =>
      rw [serve_set_of_ok hread] at h
      cases h
  | clear => cases h

end ValueSlot

/-! ## Conditions -/

namespace Condition

/-- A condition that has received sets of atoms one after the other. -/
def receiveAll (c : Condition) (sets : List AtomSet) : Condition := sets.foldl receive c

theorem receiveAll_snoc (c : Condition) (sets : List AtomSet) (atoms : AtomSet) :
    c.receiveAll (sets ++ [atoms]) = (c.receiveAll sets).receive atoms := by
  simp [receiveAll]

theorem atom_receiveAll (c : Condition) (sets : List AtomSet) :
    (c.receiveAll sets).atom = c.atom := by
  induction sets generalizing c with
  | nil => rfl
  | cons atoms sets ih => exact ih (c.receive atoms)

theorem fulfilled_receiveAll (c : Condition) (sets : List AtomSet) :
    (c.receiveAll sets).fulfilled =
      match sets.getLast? with
      | none => c.fulfilled
      | some atoms => c.holdsIn atoms := by
  induction sets generalizing c with
  | nil => rfl
  | cons atoms sets ih =>
    rw [receiveAll, List.foldl_cons, ← receiveAll, ih, List.getLast?_cons]
    cases sets.getLast? <;> rfl

theorem atom_ofText_iff {text : Text} {a : Atom} :
    (ofText text).atom = some a ↔ Atom.parse (Text.trim text) = .ok a := by
  cases h : Atom.parse (Text.trim text) <;> simp [ofText, h, Except.toOption]

theorem fulfilled_ofText (text : Text) : (ofText text).fulfilled = (ofText text).atom.isNone := rfl

theorem fulfilled_of_atom_none {text : Text} (h : (ofText text).atom = none) (sets : List AtomSet) :
    ((ofText text).receiveAll sets).fulfilled = true := by
  rw [fulfilled_receiveAll]
  cases sets.getLast? with
  | none => simp [fulfilled_ofText, h]
  | some atoms => simp [holdsIn, h]

theorem fulfilled_iff {text : Text} {a : Atom} (h : (ofText text).atom = some a)
    (sets : List AtomSet) :
    ((ofText text).receiveAll sets).fulfilled = true ↔ ∃ atoms ∈ sets.getLast?, a ∈ atoms := by
  rw [fulfilled_receiveAll]
  cases sets.getLast? with
  | none => simp [fulfilled_ofText, h]
  | some atoms => simp [holdsIn, h, AtomSet.contains_iff]

end Condition

theorem Member.state_of_failed {m : Member} {call : Member.Call} {err : RepresentationError}
    (h : (m.serve call).1 = .failed err) : (m.serve call).2 = m := by
  cases m with
  | pool atoms =>
    cases call with
    | pool call => cases call <;> cases h
    | list call => rfl
    | slot call => rfl
  | list l =>
    cases call with
    | list call => exact congrArg Member.list (EntityList.state_of_failed h)
    | pool call => rfl
    | slot call => rfl
  | slot s =>
    cases call with
    | slot call => exact congrArg Member.slot (ValueSlot.state_of_failed h)
    | pool call => rfl
    | list call => rfl
  | condition g => rfl

end FactForm
