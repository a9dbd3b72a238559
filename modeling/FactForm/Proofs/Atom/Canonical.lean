import FactForm.Proofs.Atom.Grammar

/-!
# FactForm.Proofs.Atom.Canonical

The canonical text of an atom, which is the way to spell it without blanks.

* `Atom.spells_text` — the canonical text spells its atom.
* `Atom.readAtom_text_append` — an atom is read from its canonical text, if what follows cannot
  continue it.
* `Atom.parse_text`, `parseAll_texts` — so is a single atom, and a batch of them.
* `Atom.text_inj` — the canonical text fixes its atom.
-/

namespace FactForm

theorem padded_self (v : Text) : Padded v v := ⟨[], [], rfl, rfl, by simp⟩

theorem spellsArguments_joinWith {vs : List Text} (hne : vs ≠ []) (hv : vs.all isValue = true) :
    SpellsArguments vs (Text.joinWith [','] vs) := by
  induction vs with
  | nil => exact absurd rfl hne
  | cons v vs ih =>
    rw [List.all_cons, Bool.and_eq_true] at hv
    cases vs with
    | nil =>
      rw [Text.joinWith_singleton]
      exact .last hv.1 (padded_self v)
    | cons w vs =>
      have hrest := ih (List.cons_ne_nil w vs) hv.2
      rw [Text.joinWith_cons (List.cons_ne_nil w vs), List.append_assoc]
      exact .more hv.1 (padded_self v) hrest

namespace Atom

theorem spells_text (a : Atom) : SpellsAtom a.predicate a.arguments a.text := by
  rw [text, atomText]
  split
  · rename_i h
    rw [List.isEmpty_iff.1 h]
    exact .constant a.predicate_ok
  · rename_i h
    have hne : a.arguments ≠ [] := fun e => h (List.isEmpty_iff.2 e)
    exact .compound a.predicate_ok (spellsArguments_joinWith hne a.arguments_ok)

theorem readAtom_text_append (a : Atom) {rest : Text} (h : endsAtom rest = true) :
    readAtom (a.text ++ rest) = some (a, rest) :=
  readAtom_eq_some_iff.2 (readAtomParts_append a.spells_text h)

theorem parse_text (a : Atom) : parse a.text = .ok a := parse_eq_ok_iff_spells.2 a.spells_text

theorem text_inj {a b : Atom} : a.text = b.text ↔ a = b := by
  refine ⟨fun h => ?_, fun h => by rw [h]⟩
  have hparse := a.parse_text
  rw [h, b.parse_text] at hparse
  cases hparse
  rfl

end Atom

theorem parseAll_texts (atoms : List Atom) : parseAll (atoms.map Atom.text) = ⟨atoms, []⟩ := by
  induction atoms with
  | nil => rfl
  | cons a atoms ih => simp only [List.map_cons, parseAll, ih, Atom.parse_text]

end FactForm
