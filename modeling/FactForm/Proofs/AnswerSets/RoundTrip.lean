import FactForm.AnswerSets
import FactForm.Proofs.Atom.Canonical
import Mathlib.Data.List.TakeWhile

/-!
# FactForm.Proofs.AnswerSets.RoundTrip

Solver output that lists answer sets, and what is read back from it. Within the braces atoms are found
one after the other, and whatever is found is an atom. The braces themselves are found without regard
to strings: a closing brace in a string ends the listing there, and the atom that is cut loses its
arguments.

* `setText`, `solverOutput` — an answer set and a sequence of them as a solver prints them.
* `readAnswerSets_diagnostics` — nothing found in a listing is malformed, whatever the output is.
* `parseAll_listedAtoms_listing` — the atoms of a whole listing are found in order.
* `atoms_ne_of_cut` — a listing that is cut at a closing brace gives other atoms.
* `bracedTexts_setText` — what stands between the braces, up to the first closing brace.
* `readAnswerSets_solverOutput` — answer sets are read back exactly if no string has a closing brace.
-/

namespace FactForm

/-! ## Printing -/

def listing (atoms : List Atom) : Text := Text.joinWith [',', ' '] (atoms.map Atom.text)

def setText (atoms : List Atom) : Text := '\x7b' :: listing atoms ++ ['\x7d']

/-- One answer set on each line. -/
def solverOutput (sets : List (List Atom)) : Text := Text.joinWith ['\n'] (sets.map setText)

theorem listing_cons (a b : Atom) (atoms : List Atom) :
    listing (a :: b :: atoms) = a.text ++ ',' :: ' ' :: listing (b :: atoms) := by
  have hne : (b :: atoms).map Atom.text ≠ [] := List.cons_ne_nil _ _
  rw [listing, List.map_cons, Text.joinWith_cons hne, List.append_assoc]
  rfl

theorem listing_singleton (a : Atom) : listing [a] = a.text :=
  Text.joinWith_singleton _ _

theorem solverOutput_cons (atoms : List Atom) (sets : List (List Atom)) :
    ∃ rest, solverOutput (atoms :: sets) = setText atoms ++ rest ∧
      bracedTexts rest = bracedTexts (solverOutput sets) := by
  cases sets with
  | nil => exact ⟨[], by simp [solverOutput, Text.joinWith], by simp [solverOutput, Text.joinWith]⟩
  | cons next sets =>
    have hne : (next :: sets).map setText ≠ [] := List.cons_ne_nil _ _
    refine ⟨'\n' :: solverOutput (next :: sets), ?_, ?_⟩
    · rw [solverOutput, List.map_cons, Text.joinWith_cons hne, List.append_assoc]
      rfl
    · rw [bracedTexts, if_neg (by decide)]

/-! ## Atoms of a listing -/

theorem Atom.parse_consumed {s rest : Text} {a : Atom} (h : readAtom s = some (a, rest)) :
    Atom.parse (Text.consumed s rest) = .ok a := by
  obtain ⟨t, ht, rfl⟩ := readAtomParts_spells (readAtom_eq_some_iff.1 h)
  rw [Text.consumed_append]
  exact Atom.parse_eq_ok_iff_spells.2 ht

theorem parseAll_cons {s : Text} {a : Atom} (h : Atom.parse s = .ok a) (texts : List Text) :
    parseAll (s :: texts) = ⟨a :: (parseAll texts).atoms, (parseAll texts).diagnostics⟩ := by
  simp only [parseAll, h]

theorem listedAtoms_of_readAtom {s rest : Text} {a : Atom} (h : readAtom s = some (a, rest)) :
    listedAtoms s = Text.consumed s rest :: listedAtoms rest := by
  cases s with
  | nil => exact absurd (readAtom_length_lt h) (Nat.not_lt_zero _)
  | cons c r =>
    rw [listedAtoms]
    split
    · rename_i h'
      rw [h] at h'
      cases h'
      rfl
    · rename_i h'
      rw [h] at h'
      cases h'

theorem listedAtoms_nil : listedAtoms [] = [] := by rw [listedAtoms]

theorem listedAtoms_of_none {c : Char} {r : Text} (h : readAtom (c :: r) = none) :
    listedAtoms (c :: r) = listedAtoms r := by
  rw [listedAtoms]
  split
  · rename_i h'
    rw [h] at h'
    cases h'
  · rfl

theorem listedAtoms_skip {c : Char} (hlower : c.isLower = false) (hminus : c ≠ '-') (r : Text) :
    listedAtoms (c :: r) = listedAtoms r :=
  listedAtoms_of_none (readAtom_eq_none hlower hminus r)

theorem parseAll_listedAtoms {s rest : Text} {a : Atom} (h : readAtom s = some (a, rest)) :
    (parseAll (listedAtoms s)).atoms = a :: (parseAll (listedAtoms rest)).atoms := by
  rw [listedAtoms_of_readAtom h, parseAll_cons (Atom.parse_consumed h)]

theorem parseAll_listedAtoms_diagnostics (s : Text) :
    (parseAll (listedAtoms s)).diagnostics = [] := by
  fun_induction listedAtoms s with
  | case1 => rfl
  | case2 c r a rest h ih =>
    rw [parseAll_cons (Atom.parse_consumed h)]
    exact ih
  | case3 c r h ih => exact ih

theorem readAnswerSets_diagnostics (output : Text) : (readAnswerSets output).diagnostics = [] := by
  simp [readAnswerSets, parseAll_listedAtoms_diagnostics]

theorem parseAll_listedAtoms_listing (atoms : List Atom) :
    (parseAll (listedAtoms (listing atoms))).atoms = atoms := by
  induction atoms with
  | nil =>
    have hnil : listedAtoms (listing []) = [] := listedAtoms_nil
    rw [hnil]
    rfl
  | cons a atoms ih =>
    cases atoms with
    | nil =>
      have hread : readAtom (listing [a]) = some (a, []) := by
        have h : readAtom (a.text ++ []) = some (a, []) := a.readAtom_text_append rfl
        rwa [List.append_nil, ← listing_singleton] at h
      rw [parseAll_listedAtoms hread, listedAtoms_nil]
      rfl
    | cons b atoms =>
      have hread : readAtom (listing (a :: b :: atoms)) =
          some (a, ',' :: ' ' :: listing (b :: atoms)) := by
        rw [listing_cons]
        exact a.readAtom_text_append rfl
      rw [parseAll_listedAtoms hread, listedAtoms_skip (by decide) (by decide),
        listedAtoms_skip (by decide) (by decide), ih]

/-! ## Listings that are cut -/

/-- The part of a text in front of its first closing brace. -/
def cutAtBrace (s : Text) : Text := s.takeWhile (· ≠ '\x7d')

theorem ne_brace_of_mem {s : Text} (h : '\x7d' ∉ s) : ∀ c ∈ s, decide (c ≠ '\x7d') = true := by
  intro c hc
  rw [decide_eq_true_eq]
  rintro rfl
  exact h hc

theorem cutAtBrace_append {s : Text} (h : '\x7d' ∉ s) (t : Text) :
    cutAtBrace (s ++ t) = s ++ cutAtBrace t :=
  List.takeWhile_append_of_pos (ne_brace_of_mem h)

theorem cutAtBrace_eq_self {s : Text} (h : '\x7d' ∉ s) : cutAtBrace s = s := by
  have hcut : cutAtBrace (s ++ []) = s ++ [] := cutAtBrace_append h []
  rwa [List.append_nil] at hcut

theorem cutAtBrace_brace {s : Text} (h : '\x7d' ∉ s) (t : Text) :
    cutAtBrace (s ++ '\x7d' :: t) = s := by
  rw [cutAtBrace_append h, cutAtBrace, List.takeWhile_cons_of_neg (by decide), List.append_nil]

theorem cutAtBrace_append_of_mem {s : Text} (h : '\x7d' ∈ s) (t : Text) :
    cutAtBrace (s ++ t) = cutAtBrace s := by
  obtain ⟨u, v, rfl, hu⟩ := List.eq_append_cons_of_mem h
  rw [List.append_assoc, List.cons_append, cutAtBrace_brace hu, cutAtBrace_brace hu]

/-- Of an argument list no part can be read that ends before the closing parenthesis. -/
theorem readArguments_eq_none_of_append {vs : List Text} {s u v : Text}
    (h : SpellsArguments vs s) (hsplit : s ++ [')'] = u ++ v) (hv : v ≠ []) :
    readArguments u = none := by
  rw [Option.eq_none_iff_forall_ne_some]
  rintro ⟨ws, rest⟩ hread
  obtain ⟨t, ht, rfl⟩ := readArguments_spells hread
  have hwhole : readArguments (s ++ [')']) = some (vs, []) := readArguments_append h []
  have hpart : readArguments (s ++ [')']) = some (ws, rest ++ v) := by
    rw [hsplit, List.append_assoc, List.cons_append]
    exact readArguments_append ht (rest ++ v)
  rw [hwhole] at hpart
  simp only [Option.some.injEq, Prod.mk.injEq] at hpart
  exact hv (List.append_eq_nil_iff.1 hpart.2.symm).2

/-- An atom that is cut at a closing brace is read without its arguments. -/
theorem readAtomParts_cutAtBrace {p s : Text} {vs : List Text} (h : SpellsAtom p vs s)
    (hmem : '\x7d' ∈ s) :
    vs ≠ [] ∧ ∃ rest, readAtomParts (cutAtBrace s) = some (p, [], rest) := by
  cases h with
  | constant hp => exact absurd hmem (not_mem_of_isPredicate hp (by decide) (by decide))
  | compound hp hargs =>
    rename_i t
    have hpred : '\x7d' ∉ p := not_mem_of_isPredicate hp (by decide) (by decide)
    have hargmem : '\x7d' ∈ t ++ [')'] := by
      rw [List.append_assoc, List.mem_append, List.cons_append, List.mem_cons] at hmem
      rcases hmem with hmem | hmem | hmem
      · exact absurd hmem hpred
      · exact absurd hmem (by decide)
      · exact hmem
    obtain ⟨u, v, hsplit, hu⟩ := List.eq_append_cons_of_mem hargmem
    have hnone : readArguments u = none :=
      readArguments_eq_none_of_append hargs hsplit (List.cons_ne_nil _ _)
    have hcut : cutAtBrace (p ++ '(' :: t ++ [')']) = p ++ '(' :: u := by
      have hfront : '\x7d' ∉ p ++ '(' :: u := by simp [hpred, hu]
      rw [← cutAtBrace_brace hfront v, List.append_assoc, List.append_assoc, List.cons_append,
        List.cons_append, hsplit]
    have hb : isBoundary ('(' :: u) = true := isBoundary_cons.2 (by decide)
    refine ⟨hargs.ne_nil, '(' :: u, ?_⟩
    rw [hcut]
    unfold readAtomParts
    simp only [readPredicate_append_boundary hp hb, hnone]

theorem atoms_ne_of_cut_head {a : Atom} (h : '\x7d' ∈ a.text) (atoms : List Atom) :
    (parseAll (listedAtoms (cutAtBrace a.text))).atoms ≠ a :: atoms := by
  obtain ⟨hne, rest, hread⟩ := readAtomParts_cutAtBrace a.spells_text h
  have hatom : readAtom (cutAtBrace a.text) = some (⟨a.predicate, [], a.predicate_ok, rfl⟩, rest) :=
    readAtom_eq_some_iff.2 hread
  rw [parseAll_listedAtoms hatom]
  intro heq
  exact hne (congrArg Atom.arguments (List.cons.inj heq).1).symm

theorem atoms_ne_of_cut {atoms : List Atom} {a : Atom} (ha : a ∈ atoms) (h : '\x7d' ∈ a.text) :
    (parseAll (listedAtoms (cutAtBrace (listing atoms)))).atoms ≠ atoms := by
  induction atoms with
  | nil => cases ha
  | cons b atoms ih =>
    cases atoms with
    | nil =>
      obtain rfl := List.mem_singleton.1 ha
      rw [listing_singleton]
      exact atoms_ne_of_cut_head h []
    | cons c atoms =>
      rw [listing_cons]
      by_cases hb : '\x7d' ∈ b.text
      · rw [cutAtBrace_append_of_mem hb]
        exact atoms_ne_of_cut_head hb (c :: atoms)
      · have hsep : '\x7d' ∉ b.text ++ [',', ' '] := by simp [hb]
        have hcut : cutAtBrace (b.text ++ ',' :: ' ' :: listing (c :: atoms)) =
            b.text ++ ',' :: ' ' :: cutAtBrace (listing (c :: atoms)) := by
          have := cutAtBrace_append hsep (listing (c :: atoms))
          rwa [List.append_assoc, List.append_assoc] at this
        have hread : readAtom (b.text ++ ',' :: ' ' :: cutAtBrace (listing (c :: atoms))) =
            some (b, ',' :: ' ' :: cutAtBrace (listing (c :: atoms))) :=
          b.readAtom_text_append rfl
        have hrest : a ∈ c :: atoms := by
          rcases List.mem_cons.1 ha with rfl | hrest
          · exact absurd h hb
          · exact hrest
        rw [hcut, parseAll_listedAtoms hread, listedAtoms_skip (by decide) (by decide),
          listedAtoms_skip (by decide) (by decide)]
        intro heq
        exact ih hrest (List.cons.inj heq).2

/-! ## Between the braces -/

theorem bracedTexts_nil : bracedTexts [] = [] := by rw [bracedTexts]

theorem bracedTexts_brace {s : Text} (h : '\x7d' ∉ s) (rest : Text) :
    bracedTexts ('\x7b' :: (s ++ '\x7d' :: rest)) = s :: bracedTexts rest := by
  have hdrop : (s ++ '\x7d' :: rest).dropWhile (· ≠ '\x7d') = '\x7d' :: rest := by
    rw [List.dropWhile_append_of_pos (ne_brace_of_mem h), List.dropWhile_cons_of_neg (by decide)]
  rw [bracedTexts, if_pos rfl]
  split
  · rename_i h'
    rw [hdrop] at h'
    cases h'
  · rename_i h'
    rw [hdrop] at h'
    cases h'
    exact congrArg (· :: bracedTexts rest) (cutAtBrace_brace h rest)

/-- A set is taken up to the first closing brace, which is that of the set unless a string has one. -/
theorem bracedTexts_setText (atoms : List Atom) (rest : Text) :
    ∃ tail, bracedTexts (setText atoms ++ rest) = cutAtBrace (listing atoms) :: tail ∧
      ('\x7d' ∉ listing atoms → tail = bracedTexts rest) := by
  have hset : setText atoms ++ rest = '\x7b' :: (listing atoms ++ '\x7d' :: rest) := by
    simp [setText]
  rw [hset]
  by_cases h : '\x7d' ∈ listing atoms
  · obtain ⟨u, v, hsplit, hu⟩ := List.eq_append_cons_of_mem h
    refine ⟨bracedTexts (v ++ '\x7d' :: rest), ?_, fun hnot => absurd h hnot⟩
    rw [hsplit, cutAtBrace_brace hu, List.append_assoc, List.cons_append, bracedTexts_brace hu]
  · exact ⟨bracedTexts rest, by rw [bracedTexts_brace h, cutAtBrace_eq_self h], fun _ => rfl⟩

theorem brace_mem_listing_iff {atoms : List Atom} :
    '\x7d' ∈ listing atoms ↔ ∃ a ∈ atoms, '\x7d' ∈ a.text := by
  induction atoms with
  | nil => simp [listing, Text.joinWith]
  | cons a atoms ih =>
    cases atoms with
    | nil => simp [listing_singleton]
    | cons b atoms =>
      rw [listing_cons, List.mem_append, List.mem_cons, List.mem_cons, ih]
      simp

/-! ## Reading back -/

theorem readAnswerSets_sets (output : Text) :
    (readAnswerSets output).sets =
      (bracedTexts output).map fun s => (parseAll (listedAtoms s)).atoms := by
  rw [readAnswerSets, List.map_map]
  rfl

theorem sets_solverOutput_iff (sets : List (List Atom)) :
    (readAnswerSets (solverOutput sets)).sets = sets ↔
      ∀ atoms ∈ sets, ∀ a ∈ atoms, '\x7d' ∉ a.text := by
  rw [readAnswerSets_sets]
  induction sets with
  | nil => simp [solverOutput, Text.joinWith, bracedTexts_nil]
  | cons atoms sets ih =>
    obtain ⟨rest, hout, hrest⟩ := solverOutput_cons atoms sets
    obtain ⟨tail, htail, hwhole⟩ := bracedTexts_setText atoms rest
    rw [hout, htail, List.map_cons, List.cons.injEq, List.forall_mem_cons]
    by_cases h : ∃ a ∈ atoms, '\x7d' ∈ a.text
    · obtain ⟨a, ha, hbrace⟩ := h
      exact ⟨fun heq => absurd heq.1 (atoms_ne_of_cut ha hbrace),
        fun hnone => absurd hbrace (hnone.1 a ha)⟩
    · have hlisting : '\x7d' ∉ listing atoms := fun hmem => h (brace_mem_listing_iff.1 hmem)
      have hnone : ∀ a ∈ atoms, '\x7d' ∉ a.text := fun a ha hmem => h ⟨a, ha, hmem⟩
      rw [cutAtBrace_eq_self hlisting, parseAll_listedAtoms_listing, hwhole hlisting, hrest, ih]
      exact ⟨fun heq => ⟨hnone, heq.2⟩, fun hall => ⟨rfl, hall.2⟩⟩

theorem Text.trim_eq_nil_iff {s : Text} :
    Text.trim s = [] ↔ ∀ c ∈ s, Text.isBlank c = true := by
  rw [Text.trim, List.reverse_eq_nil_iff, Text.skipBlanks, List.dropWhile_eq_nil_iff]
  constructor
  · intro h c hc
    obtain ⟨blanks, hblanks, hs⟩ := Text.exists_skipBlanks s
    rw [hs, List.mem_append] at hc
    rcases hc with hc | hc
    · exact List.all_eq_true.1 hblanks c hc
    · exact h c (List.mem_reverse.2 hc)
  · intro h c hc
    exact h c ((List.dropWhile_suffix _).subset (List.mem_reverse.1 hc))

theorem noOutput_solverOutput_iff (sets : List (List Atom)) :
    (readAnswerSets (solverOutput sets)).noOutput = true ↔ sets = [] := by
  rw [readAnswerSets, List.isEmpty_iff, Text.trim_eq_nil_iff]
  constructor
  · intro h
    cases sets with
    | nil => rfl
    | cons atoms sets =>
      obtain ⟨rest, hout, _⟩ := solverOutput_cons atoms sets
      have hblank : Text.isBlank '\x7b' = true := h '\x7b' (by rw [hout]; exact List.mem_cons_self)
      exact absurd hblank (by decide)
  · rintro rfl c hc
    cases hc

/-- Answer sets are read back exactly if no string has a closing brace. In any case no diagnostic is
reported, and the output counts as empty exactly if there are no sets. -/
theorem readAnswerSets_solverOutput (sets : List (List Atom)) :
    ((readAnswerSets (solverOutput sets)).sets = sets ↔
      ∀ atoms ∈ sets, ∀ a ∈ atoms, '\x7d' ∉ a.text) ∧
    (readAnswerSets (solverOutput sets)).diagnostics = [] ∧
    ((readAnswerSets (solverOutput sets)).noOutput = true ↔ sets = []) :=
  ⟨sets_solverOutput_iff sets, readAnswerSets_diagnostics _, noOutput_solverOutput_iff sets⟩

/-- An atom with a closing brace in its string. -/
def braced : Atom := ⟨['p'], ["\"\x7d\"".toList], by rfl, by rfl⟩

/-- The set of `braced` is read as a set of another atom. -/
theorem braced_not_read_back :
    solverOutput [[braced]] = "\x7bp(\"\x7d\")\x7d".toList ∧
    (readAnswerSets (solverOutput [[braced]])).sets = [[⟨['p'], [], rfl, rfl⟩]] ∧
    (readAnswerSets (solverOutput [[braced]])).sets ≠ [[braced]] := by
  refine ⟨by decide, ?_, ?_⟩
  · decide +kernel
  · decide +kernel

end FactForm
