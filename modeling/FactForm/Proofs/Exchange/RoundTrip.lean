import FactForm.Exchange
import FactForm.Proofs.Atom.Compact
import FactForm.Proofs.Entity.Decoding

/-!
# FactForm.Proofs.Exchange.RoundTrip

Entities that are exported as atoms and imported again. On the way out the text of an entity may have
blanks around its arguments; on the way in the canonical text of the atom is read, which has none. An
entity comes back exactly if its text is canonical, and a template in which no blank stands outside
strings has canonical texts only.

* `Codec.fromAtom_eq_ok_iff` — the entity is made from an atom exactly if the text of the entity is the
  canonical text of the atom.
* `Template.isPlain` — no fixed text has a blank outside strings.
* `Codec.text_eq_of_isPlain` — over a plain template every text that is an atom is canonical.
* `EntityList.mem_receive_gather` — what a list holds after its atoms are handed back to it.
* `Codec.export_import` — entities and lists that come back.
-/

namespace FactForm

/-- No fixed text has a blank outside strings, and each closes the strings that it opens. -/
def Template.isPlain (t : Template) : Bool :=
  t.parts.all fun
    | .fixed text => FactForm.isPlain text
    | .slot _ => true

theorem compact_of_spells {parts : List Part} {values : List Text} {s : Text}
    (hs : Spells parts values s) (h : Template.isPlain ⟨parts⟩ = true) : compact s = s := by
  induction hs with
  | nil => exact compact_nil
  | fixed _ ih =>
    simp only [Template.isPlain, List.all_cons, Bool.and_eq_true] at h
    rw [compact_append_of_isPlain h.1, ih h.2]
  | slot hv _ ih =>
    simp only [Template.isPlain, List.all_cons, Bool.and_eq_true] at h
    rw [compact_value hv, ih h.2]

namespace Codec

variable {c : Codec} {s : Text} {e : Entity} {a : Atom}

theorem fromAtomText_atom (hd : c.display.isSeparated = true) (ha : c.atom.isSeparated = true)
    (h : c.fromDisplayText s = .ok e) : c.fromAtomText e.atom = .ok e := by
  obtain ⟨hm, he⟩ := isAssignment_of_fromDisplayText h
  obtain ⟨e', he', _, _, _, _, hread⟩ := exists_entity hd ha hm
  obtain rfl : e = e' := Except.ok.inj (he.symm.trans he')
  rw [fromAtomText, Entity.ofAtomText_of_valuesOf hread, he]

theorem fromAtom_eq_ok_iff (hd : c.display.isSeparated = true) (ha : c.atom.isSeparated = true)
    (h : c.fromDisplayText s = .ok e) : c.fromAtom a = .ok e ↔ a.text = e.atom := by
  rw [fromAtom]
  constructor
  · exact fun hok => (atom_of_fromAtomText hok).symm
  · intro htext
    rw [htext]
    exact fromAtomText_atom hd ha h

theorem text_eq_of_isPlain (hplain : c.atom.isPlain = true) (h : c.fromDisplayText s = .ok e)
    (hparse : Atom.parse e.atom = .ok a) : a.text = e.atom := by
  obtain ⟨hm, he⟩ := isAssignment_of_fromDisplayText h
  obtain ⟨u, values, hu, hsp, _⟩ := Template.render_ok (isAssignment_iff.2 hm)
  have hatom : e.atom = u := by
    have hrender := (Entity.ofValues_eq_ok_iff.1 he).2.2
    rw [hu] at hrender
    exact (Except.ok.inj hrender).symm
  rw [Atom.text_eq_compact hparse, hatom]
  exact compact_of_spells hsp hplain

end Codec

/-! ## Lists -/

theorem mem_atomsOf {a : Atom} {entities : List Entity} :
    a ∈ atomsOf entities ↔ ∃ d ∈ entities, Atom.parse d.atom = .ok a := by
  rw [atomsOf, mem_parseAll]
  constructor
  · rintro ⟨s, hs, hparse⟩
    obtain ⟨d, hd, rfl⟩ := List.mem_map.1 hs
    exact ⟨d, hd, hparse⟩
  · rintro ⟨d, hd, hparse⟩
    exact ⟨d.atom, List.mem_map.2 ⟨d, hd, rfl⟩, hparse⟩

theorem Codec.toOption_fromAtom_eq_some_iff {c : Codec} {a : Atom} {e : Entity} :
    (c.fromAtom a).toOption = some e ↔ c.fromAtom a = .ok e := by
  cases c.fromAtom a with
  | error _ => simp [Except.toOption]
  | ok _ => simp [Except.toOption]

theorem mem_entitiesOf {c : Codec} {atoms : AtomSet} {e : Entity} :
    e ∈ entitiesOf c atoms ↔ ∃ a ∈ atoms, c.fromAtom a = .ok e := by
  simp only [entitiesOf, List.mem_filterMap, Codec.toOption_fromAtom_eq_some_iff, AtomSet.mem_def]

theorem EntityList.mem_receive_gather {l : EntityList} {e : Entity} :
    e ∈ (l.receive (gather [.list l])).entities ↔
      ∃ d ∈ l.entities, ∃ a, Atom.parse d.atom = .ok a ∧ l.codec.fromAtom a = .ok e := by
  have hgather : ∀ a, a ∈ gather [.list l] ↔ ∃ d ∈ l.entities, Atom.parse d.atom = .ok a := by
    intro a
    rw [gather, AtomSet.mem_ofList, List.flatMap_singleton, Member.supplied, EntityList.atoms,
      mem_atomsOf]
  rw [EntityList.receive, mem_entitiesOf]
  constructor
  · rintro ⟨a, ha, he⟩
    obtain ⟨d, hd, hparse⟩ := (hgather a).1 ha
    exact ⟨d, hd, a, hparse, he⟩
  · rintro ⟨d, hd, a, hparse, he⟩
    exact ⟨a, (hgather a).2 ⟨d, hd, hparse⟩, he⟩

namespace Codec

/-- A list of entities that were typed in holds the same entities after its atoms are handed back to
it, exactly if their texts are canonical. -/
theorem mem_receive_gather_iff (hd : c.display.isSeparated = true)
    (ha : c.atom.isSeparated = true) {l : EntityList} (hl : l.codec = c)
    (htyped : ∀ e ∈ l.entities, ∃ s, c.fromDisplayText s = .ok e) :
    (∀ e, e ∈ (l.receive (gather [.list l])).entities ↔ e ∈ l.entities) ↔
      ∀ e ∈ l.entities, ∃ a : Atom, a.text = e.atom := by
  subst hl
  constructor
  · intro hsame e he
    obtain ⟨_, _, a, _, hok⟩ := EntityList.mem_receive_gather.1 ((hsame e).2 he)
    exact ⟨a, (atom_of_fromAtomText hok).symm⟩
  · intro hcanonical e
    rw [EntityList.mem_receive_gather]
    constructor
    · rintro ⟨d, hmem, a, hparse, hok⟩
      obtain ⟨b, hb⟩ := hcanonical d hmem
      rw [← hb, Atom.parse_text] at hparse
      obtain rfl := Except.ok.inj hparse
      obtain ⟨s, hs⟩ := htyped d hmem
      rw [(fromAtom_eq_ok_iff hd ha hs).2 hb] at hok
      rwa [← Except.ok.inj hok]
    · intro hmem
      obtain ⟨a, htext⟩ := hcanonical e hmem
      obtain ⟨s, hs⟩ := htyped e hmem
      refine ⟨e, hmem, a, ?_, (fromAtom_eq_ok_iff hd ha hs).2 htext⟩
      rw [← htext, Atom.parse_text]

/-- An entity that was typed in comes back exactly if its text is the canonical text of its atom, and
always does if the atom template is plain. So a list comes back with the same entities exactly if all
their texts are canonical. -/
theorem export_import (c : Codec) (hd : c.display.isSeparated = true)
    (ha : c.atom.isSeparated = true) :
    (∀ s e a, c.fromDisplayText s = .ok e → Atom.parse e.atom = .ok a →
      (c.fromAtom a = .ok e ↔ a.text = e.atom) ∧
      (c.atom.isPlain = true → c.fromAtom a = .ok e)) ∧
    (∀ l : EntityList, l.codec = c → (∀ e ∈ l.entities, ∃ s, c.fromDisplayText s = .ok e) →
      ∃ l', distribute (gather [.list l]) [.list l] = [.list l'] ∧
        ((∀ e, e ∈ l'.entities ↔ e ∈ l.entities) ↔
          ∀ e ∈ l.entities, ∃ a : Atom, a.text = e.atom) ∧
        (c.atom.isPlain = true → (∀ e ∈ l.entities, ∃ a, Atom.parse e.atom = .ok a) →
          ∀ e, e ∈ l'.entities ↔ e ∈ l.entities)) := by
  refine ⟨?_, ?_⟩
  · intro s e a hs hparse
    have hiff : c.fromAtom a = .ok e ↔ a.text = e.atom := fromAtom_eq_ok_iff hd ha hs
    exact ⟨hiff, fun hplain => hiff.2 (text_eq_of_isPlain hplain hs hparse)⟩
  · intro l hl htyped
    have hiff := mem_receive_gather_iff hd ha hl htyped
    refine ⟨l.receive (gather [.list l]), rfl, hiff, ?_⟩
    intro hplain hatoms
    refine hiff.2 ?_
    intro e he
    obtain ⟨s, hs⟩ := htyped e he
    obtain ⟨a, hparse⟩ := hatoms e he
    exact ⟨a, text_eq_of_isPlain hplain hs hparse⟩

/-- An entity of `edge`, with a string in which blanks stand around a comma. -/
def listed : Entity where
  values := .ofList [("from".toList, "\"a , b\"".toList), ("to".toList, ['7'])]
  display := "\"a , b\" -> 7".toList
  atom := "edge(7,\"a , b\")".toList

def listedAtom : Atom := ⟨"edge".toList, [['7'], "\"a , b\"".toList], by rfl, by rfl⟩

theorem edge_export_import :
    edge.display.isSeparated = true ∧ edge.atom.isSeparated = true ∧
    edge.fromDisplayText listed.display = .ok listed ∧
    Atom.parse listed.atom = .ok listedAtom ∧ edge.fromAtom listedAtom = .ok listed := by
  have hd : edge.display.isSeparated = true := by decide
  have ha : edge.atom.isSeparated = true := by decide
  have hs : edge.fromDisplayText listed.display = .ok listed := by rfl
  have hparse : Atom.parse listed.atom = .ok listedAtom := Atom.parse_text listedAtom
  have hplain : edge.atom.isPlain = true := by decide +kernel
  exact ⟨hd, ha, hs, hparse, ((edge.export_import hd ha).1 _ _ _ hs hparse).2 hplain⟩

/-- `::from -> ::to` for display, `edge(::from, ::to)` for atoms, with a blank behind the comma. -/
def spaced : Codec where
  display := ⟨[.slot ⟨"from".toList, "from".toList, .any⟩, .fixed " -> ".toList,
    .slot ⟨"to".toList, "to".toList, .any⟩]⟩
  atom := ⟨[.fixed "edge(".toList, .slot ⟨"from".toList, "from".toList, .any⟩,
    .fixed ", ".toList, .slot ⟨"to".toList, "to".toList, .any⟩, .fixed ")".toList]⟩
  same_ids := by decide

def spacedEntity : Entity where
  values := .ofList [("from".toList, ['a']), ("to".toList, ['b'])]
  display := "a -> b".toList
  atom := "edge(a, b)".toList

/-- The atom of `spacedEntity` does not fit `spaced`, and a list with this entity loses it. -/
theorem spaced_not_imported :
    spaced.display.isSeparated = true ∧ spaced.atom.isSeparated = true ∧
    spaced.fromDisplayText "a -> b".toList = .ok spacedEntity ∧
    ∃ a, Atom.parse spacedEntity.atom = .ok a ∧
      spaced.fromAtom a = .error (.unmatched "edge(a,b)".toList "edge(from, to)".toList) ∧
      distribute (gather [.list ⟨spaced, [spacedEntity]⟩]) [.list ⟨spaced, [spacedEntity]⟩] =
        [.list ⟨spaced, []⟩] := by
  have hspells : SpellsAtom "edge".toList [['a'], ['b']] "edge(a, b)".toList :=
    .compound (p := "edge".toList) (t := "a, b".toList) rfl
      (.more (s := ['a']) (t := " b".toList) rfl (padded_self _)
        (.last rfl ⟨[' '], [], rfl, rfl, rfl⟩))
  have hlost : distribute (gather [.list ⟨spaced, [spacedEntity]⟩])
      [.list ⟨spaced, [spacedEntity]⟩] = [.list ⟨spaced, []⟩] := by decide +kernel
  exact ⟨by decide, by decide, by rfl, ⟨"edge".toList, [['a'], ['b']], by rfl, by rfl⟩,
    Atom.parse_eq_ok_iff_spells.2 hspells, by rfl, hlost⟩

end Codec
end FactForm
