import FactForm.Proofs.Atom.Compact

/-!
# FactForm.Proofs.Atom.Construction

Atoms made from parts, and texts brought into canonical form. Both go through the reader: parts are
written down and must be read back as they are, so that parts which are no tokens are refused even
where their text is that of another atom.

* `Atom.ofParts_eq_ok_iff` — what is made from parts has these parts.
* `Atom.exists_ofParts_iff` — which parts make an atom.
* `Atom.normalize` — the canonical text of what a text spells.
* `Atom.normalize_eq_ok_iff` — it is the text without the blanks around the arguments.
* `Atom.construction_agrees` — construction, reading and canonical text fit together.
-/

namespace FactForm
namespace Atom

/-! ## From parts -/

theorem ofParts_eq_ok_iff {p : Text} {vs : List Text} {a : Atom} :
    ofParts p vs = .ok a ↔ a.predicate = p ∧ a.arguments = vs := by
  constructor
  · intro h
    unfold ofParts at h
    split at h
    · split at h
      · rename_i hparts
        cases h
        exact hparts
      · cases h
    · cases h
  · rintro ⟨rfl, rfl⟩
    have hparse : parse (atomText a.predicate a.arguments) = .ok a := a.parse_text
    simp [ofParts, hparse]

theorem ofParts_error {p : Text} {vs : List Text} {e : MalformedAtom}
    (h : ofParts p vs = .error e) : e = ⟨atomText p vs⟩ := by
  unfold ofParts at h
  split at h
  · split at h
    · cases h
    · cases h
      rfl
  · rename_i hparse
    cases h
    exact parse_error hparse

theorem exists_ofParts_iff {p : Text} {vs : List Text} :
    (∃ a, ofParts p vs = .ok a) ↔ isPredicate p = true ∧ vs.all isValue = true := by
  constructor
  · rintro ⟨a, h⟩
    obtain ⟨rfl, rfl⟩ := ofParts_eq_ok_iff.1 h
    exact ⟨a.predicate_ok, a.arguments_ok⟩
  · rintro ⟨hp, hvs⟩
    exact ⟨⟨p, vs, hp, hvs⟩, ofParts_eq_ok_iff.2 ⟨rfl, rfl⟩⟩

theorem ofParts_eq_error_iff {p : Text} {vs : List Text} :
    ofParts p vs = .error ⟨atomText p vs⟩ ↔ ¬ (isPredicate p = true ∧ vs.all isValue = true) := by
  rw [← exists_ofParts_iff]
  cases h : ofParts p vs with
  | ok a => simp
  | error e => simp [ofParts_error h]

/-! ## Canonical form -/

def normalize (s : Text) : Except MalformedAtom Text :=
  match parse s with
  | .ok a => .ok a.text
  | .error e => .error e

theorem normalize_text (a : Atom) : normalize a.text = .ok a.text := by
  simp only [normalize, parse_text]

/-- What spells an atom is brought into canonical form by leaving out the blanks around the arguments,
which are its blanks outside strings. -/
theorem normalize_eq_ok_iff {s t : Text} :
    normalize s = .ok t ↔ t = compact s ∧ ∃ p vs, SpellsAtom p vs s ∧ t = atomText p vs := by
  constructor
  · intro h
    unfold normalize at h
    split at h
    · rename_i a ha
      cases h
      exact ⟨text_eq_compact ha, _, _, parse_eq_ok_iff_spells.1 ha, rfl⟩
    · cases h
  · rintro ⟨_, p, vs, hspells, rfl⟩
    obtain ⟨a, rfl, rfl⟩ := exists_of_spells hspells
    simp only [normalize, parse_eq_ok_iff_spells.2 hspells]
    rfl

theorem normalize_normalize (s : Text) : (normalize s).bind normalize = normalize s := by
  cases h : parse s with
  | error e => simp only [normalize, h, Except.bind]
  | ok a =>
    have hs : normalize s = .ok a.text := by simp only [normalize, h]
    rw [hs, Except.bind, normalize_text]

/-- Parts make an atom exactly if each of them is a token, and then the atom with these parts; every
atom is read back from its canonical text, which is therefore its own; and bringing a text into
canonical form leaves out the blanks around the arguments and nothing else, so that doing it again
changes nothing. -/
theorem construction_agrees :
    (∀ p vs, (∃ a, ofParts p vs = .ok a) ↔ isPredicate p = true ∧ vs.all isValue = true) ∧
    (∀ p vs a, ofParts p vs = .ok a ↔ a.predicate = p ∧ a.arguments = vs) ∧
    (∀ p vs, ofParts p vs = .error ⟨atomText p vs⟩ ↔
      ¬ (isPredicate p = true ∧ vs.all isValue = true)) ∧
    (∀ a : Atom, parse a.text = .ok a) ∧
    (∀ a b : Atom, a.text = b.text ↔ a = b) ∧
    (∀ s t, normalize s = .ok t ↔ t = compact s ∧ ∃ p vs, SpellsAtom p vs s ∧ t = atomText p vs) ∧
    ∀ s, (normalize s).bind normalize = normalize s :=
  ⟨fun _ _ => exists_ofParts_iff, fun _ _ _ => ofParts_eq_ok_iff, fun _ _ => ofParts_eq_error_iff,
    parse_text, fun _ _ => text_inj, fun _ _ => normalize_eq_ok_iff, normalize_normalize⟩

end Atom
end FactForm
