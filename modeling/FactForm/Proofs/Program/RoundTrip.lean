import FactForm.AtomSet
import FactForm.Program
import FactForm.Proofs.Atom.Canonical

/-!
# FactForm.Proofs.Program.RoundTrip

A fact base that is written as program text and loaded again. The search for facts goes from
statement to statement: after the period of one the next may start, and the blank between them is
passed over, so that nothing inside a string is ever looked at.

* `readFact_eq_some_iff` — a fact is an atom in front of a period.
* `factsFrom_spells`, `factsFrom_text` — a fact at the start of a statement is taken, and the search
  goes on behind its period.
* `factsFrom_programText`, `factsFrom_programLines` — the search through text that was written.
* `sortTexts_ascending` — the order in which facts are written.
* `program_round_trip` — facts, batches of lines and pools are loaded as they were.
-/

namespace FactForm

/-! ## Statement by statement -/

theorem readFact_eq_some_iff {s fact rest : Text} :
    readFact s = some (fact, rest) ↔
      (∃ p vs, SpellsAtom p vs fact) ∧ s = fact ++ '.' :: rest := by
  constructor
  · intro h
    unfold readFact at h
    split at h
    · rename_i a rest' hread
      cases h
      obtain ⟨t, ht, rfl⟩ := readAtomParts_spells (readAtom_eq_some_iff.1 hread)
      rw [Text.consumed_append]
      exact ⟨⟨_, _, ht⟩, rfl⟩
    · cases h
  · rintro ⟨⟨p, vs, h⟩, rfl⟩
    obtain ⟨a, rfl, rfl⟩ := Atom.exists_of_spells h
    have hread : readAtom (fact ++ '.' :: rest) = some (a, '.' :: rest) :=
      readAtom_eq_some_iff.2 (readAtomParts_append h (by rfl))
    simp only [readFact, hread, Text.consumed_append]

theorem factsFrom_spells {p fact : Text} {vs : List Text} (h : SpellsAtom p vs fact) (rest : Text) :
    factsFrom true (fact ++ '.' :: rest) = fact :: factsFrom true rest :=
  factsFrom_of_readFact (readFact_eq_some_iff.2 ⟨⟨p, vs, h⟩, rfl⟩)

theorem factsFrom_text (a : Atom) (rest : Text) :
    factsFrom true (a.text ++ '.' :: rest) = a.text :: factsFrom true rest :=
  factsFrom_spells a.spells_text rest

theorem readFact_eq_none {c : Char} (hlower : c.isLower = false) (hminus : c ≠ '-') (r : Text) :
    readFact (c :: r) = none := by
  have hatom : readAtom (c :: r) = none := readAtom_eq_none hlower hminus r
  simp only [readFact, hatom]

theorem readFact_blank {c : Char} (h : Text.isBlank c = true) (r : Text) :
    readFact (c :: r) = none :=
  readFact_eq_none (isLower_of_isBlank h) (ne_of_isBlank h rfl) r

theorem factsFrom_blank {c : Char} (h : Text.isBlank c = true) (r : Text) :
    factsFrom true (c :: r) = factsFrom true r := by
  rw [factsFrom_skip fun _ => readFact_blank h r, h, Bool.true_and, Bool.or_true]

/-! ## Written programs -/

/-- Atoms in the order of their texts. -/
def sortByText (atoms : List Atom) : List Atom :=
  atoms.mergeSort fun a b => !Text.before b.text a.text

theorem sortTexts_map_text (atoms : List Atom) :
    sortTexts (atoms.map Atom.text) = (sortByText atoms).map Atom.text := by
  have h : (sortByText atoms).map Atom.text = sortTexts (atoms.map Atom.text) :=
    List.map_mergeSort fun _ _ _ _ => rfl
  exact h.symm

theorem sortByText_perm (atoms : List Atom) : (sortByText atoms).Perm atoms :=
  List.mergeSort_perm _ _

theorem sortTexts_ascending (texts : List Text) :
    (sortTexts texts).Pairwise fun s t => Text.before t s = false := by
  have hsorted : (sortTexts texts).Pairwise fun s t => (!Text.before t s) = true := by
    refine List.pairwise_mergeSort ?_ ?_ texts
    · intro s t u hst htu
      rw [Bool.not_eq_true'] at hst htu ⊢
      exact Text.strictOrder.trans_false hst htu
    · intro s t
      rw [Bool.or_eq_true, Bool.not_eq_true', Bool.not_eq_true']
      exact Text.strictOrder.total t s
  exact hsorted.imp fun h => by simpa using h

theorem factsFrom_statements (atoms : List Atom) (rest : Text) :
    factsFrom true ((atoms.map Atom.text).flatMap (· ++ ['.', ' ']) ++ rest) =
      atoms.map Atom.text ++ factsFrom true rest := by
  induction atoms with
  | nil => rfl
  | cons a atoms ih =>
    have hsplit : ((a :: atoms).map Atom.text).flatMap (· ++ ['.', ' ']) ++ rest =
        a.text ++ '.' :: ' ' :: ((atoms.map Atom.text).flatMap (· ++ ['.', ' ']) ++ rest) := by
      simp
    rw [hsplit, factsFrom_text, factsFrom_blank (by decide), ih]
    rfl

theorem factsFrom_programText (atoms : List Atom) (rest : Text) :
    factsFrom true (programText atoms ++ rest) =
      sortTexts (atoms.map Atom.text) ++ factsFrom true rest := by
  rw [programText, sortTexts_map_text]
  exact factsFrom_statements (sortByText atoms) rest

/-- Lines are searched one after the other, since a line break is a blank behind the last period. -/
theorem factsFrom_programLines (groups : List (List Atom)) :
    factsFrom true (Text.joinWith ['\n'] (programLines groups)) =
      (groups.flatMap sortByText).map Atom.text := by
  induction groups with
  | nil => exact factsFrom_nil true
  | cons group groups ih =>
    cases groups with
    | nil =>
      have hline := factsFrom_programText group []
      rw [List.append_nil, factsFrom_nil, List.append_nil, sortTexts_map_text] at hline
      rw [programLines, List.map_singleton, Text.joinWith_singleton, hline]
      simp
    | cons next groups =>
      have hne : programLines (next :: groups) ≠ [] := List.cons_ne_nil _ _
      have hcons : programLines (group :: next :: groups) =
          programText group :: programLines (next :: groups) := rfl
      have hflat : (group :: next :: groups).flatMap sortByText =
          sortByText group ++ (next :: groups).flatMap sortByText := rfl
      rw [hcons, Text.joinWith_cons hne, List.append_assoc, factsFrom_programText, List.singleton_append,
        factsFrom_blank (by decide), ih, hflat, List.map_append, sortTexts_map_text]

theorem flatMap_sortByText_perm (groups : List (List Atom)) :
    (groups.flatMap sortByText).Perm groups.flatten := by
  induction groups with
  | nil => exact List.Perm.refl _
  | cons group groups ih =>
    rw [List.flatMap_cons, List.flatten_cons]
    exact (sortByText_perm group).append ih

/-! ## Loading -/

/-- What is written is loaded again. The facts found in program text are the texts of the atoms,
ascending; of lines, the texts of all groups. In both cases they are parsed as the atoms that were
written, each as often as it was, and a pool is rebuilt from its own text. -/
theorem program_round_trip :
    (∀ atoms : List Atom,
      (programFacts (programText atoms)).Perm (atoms.map Atom.text) ∧
      (programFacts (programText atoms)).Pairwise (fun s t => Text.before t s = false) ∧
      (parseAll (programFacts (programText atoms))).atoms.map Atom.text =
        programFacts (programText atoms) ∧
      (parseAll (programFacts (programText atoms))).atoms.Perm atoms ∧
      (parseAll (programFacts (programText atoms))).diagnostics = []) ∧
    (∀ groups : List (List Atom),
      (programFacts (Text.joinWith ['\n'] (programLines groups))).Perm
        (groups.flatten.map Atom.text) ∧
      (parseAll (programFacts (Text.joinWith ['\n'] (programLines groups)))).atoms.Perm
        groups.flatten ∧
      (parseAll (programFacts (Text.joinWith ['\n'] (programLines groups)))).diagnostics = []) ∧
    (∀ pool : AtomSet,
      AtomSet.ofList (parseAll (programFacts (programText pool.toList))).atoms = pool) := by
  have hfacts : ∀ atoms : List Atom,
      programFacts (programText atoms) = (sortByText atoms).map Atom.text := by
    intro atoms
    have h := factsFrom_programText atoms []
    rwa [List.append_nil, factsFrom_nil, List.append_nil, sortTexts_map_text] at h
  refine ⟨?_, ?_, ?_⟩
  · intro atoms
    have hascending := sortTexts_ascending (atoms.map Atom.text)
    rw [sortTexts_map_text] at hascending
    rw [hfacts, parseAll_texts]
    exact ⟨(sortByText_perm atoms).map _, hascending, rfl, sortByText_perm atoms, rfl⟩
  · intro groups
    rw [programFacts, factsFrom_programLines, parseAll_texts]
    exact ⟨(flatMap_sortByText_perm groups).map _, flatMap_sortByText_perm groups, rfl⟩
  · intro pool
    rw [hfacts, parseAll_texts, AtomSet.ofList_perm (sortByText_perm _), AtomSet.ofList_toList]

end FactForm
