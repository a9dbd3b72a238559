import FactForm.Proofs.Atom.Canonical

/-!
# FactForm.Proofs.Atom.Compact

Blanks outside strings. They are all that the canonical text of an atom leaves out of a text that the
atom was read from.

* `compact` — a text without its blanks outside strings.
* `isPlain` — a text has no such blank, and closes every string that it opens.
* `Atom.text_eq_compact` — the canonical text of what is read is the compacted text.
* `compact_append_of_isPlain` — compacting leaves plain text as it is.
-/

namespace FactForm

/-- The text without the blanks outside strings. -/
def compact (s : Text) : Text :=
  match s with
  | [] => []
  | c :: r =>
    if c = '"' then
      match _h : readString r with
      | some (body, rest) => '"' :: body ++ compact rest
      | none => '"' :: compact r
    else if Text.isBlank c then compact r
    else c :: compact r
termination_by s.length
decreasing_by
  · rw [readString_append _h]
    simp only [List.length_cons, List.length_append]
    omega
  · simp
  · simp
  · simp

/-- The text has no blank outside strings, and closes every string that it opens. -/
def isPlain (s : Text) : Bool :=
  match s with
  | [] => true
  | c :: r =>
    if c = '"' then
      match _h : readString r with
      | some (_, rest) => isPlain rest
      | none => false
    else !Text.isBlank c && isPlain r
termination_by s.length
decreasing_by
  · rw [readString_append _h]
    simp only [List.length_cons, List.length_append]
    omega
  · simp

/-! ## Compacting a text in front of another -/

theorem compact_char {c : Char} (hq : c ≠ '"') (hb : Text.isBlank c = false) (s : Text) :
    compact (c :: s) = c :: compact s := by
  rw [compact]
  simp [hq, hb]

theorem compact_blank {c : Char} (h : Text.isBlank c = true) (s : Text) :
    compact (c :: s) = compact s := by
  have hq : c ≠ '"' := by
    rintro rfl
    revert h
    decide
  rw [compact]
  simp [hq, h]

theorem compact_string {body : Text} (h : closesString body = true) (s : Text) :
    compact ('"' :: (body ++ s)) = '"' :: body ++ compact s := by
  have hread := readString_of_closes h s
  rw [compact, if_pos rfl]
  split
  · rename_i h'
    rw [hread] at h'
    cases h'
    rfl
  · rename_i h'
    rw [hread] at h'
    cases h'

theorem compact_blanks {blanks : Text} (h : blanks.all Text.isBlank = true) (s : Text) :
    compact (blanks ++ s) = compact s := by
  induction blanks with
  | nil => rfl
  | cons c r ih =>
    rw [List.all_cons, Bool.and_eq_true] at h
    rw [List.cons_append, compact_blank h.1, ih h.2]

theorem compact_word {word : Text} (h : word.all isWordChar = true) (s : Text) :
    compact (word ++ s) = word ++ compact s := by
  induction word with
  | nil => rfl
  | cons c r ih =>
    rw [List.all_cons, Bool.and_eq_true] at h
    have hq : c ≠ '"' := by
      rintro rfl
      exact absurd h.1 (by decide)
    rw [List.cons_append, compact_char hq (isBlank_of_isWordChar h.1), ih h.2, List.cons_append]

theorem compact_value {v : Text} (h : isValue v = true) (s : Text) :
    compact (v ++ s) = v ++ compact s := by
  by_cases hq : v.head? = some '"'
  · cases v with
    | nil => cases hq
    | cons c r =>
      obtain rfl : c = '"' := by simpa using hq
      have hclose : closesString r = true := by
        simpa [isValue, isIdentifier, isNumber, isQuotedString] using h
      exact compact_string hclose s
  · exact compact_word (isValue_all_isWordChar h hq) s

theorem compact_append_of_isPlain {s : Text} (h : isPlain s = true) (t : Text) :
    compact (s ++ t) = s ++ compact t := by
  fun_induction isPlain s with
  | case1 => rfl
  | case2 r body rest hread ih =>
    rw [readString_append hread, List.cons_append, List.append_assoc,
      compact_string (readString_closes hread), ih h]
    simp
  | case3 => cases h
  | case4 c r hq ih =>
    rw [Bool.and_eq_true, Bool.not_eq_true'] at h
    rw [List.cons_append, compact_char hq h.1, ih h.2, List.cons_append]

/-! ## Compacting what spells an atom -/

theorem compact_padded {v s : Text} (hv : isValue v = true) (hs : Padded v s) (t : Text) :
    compact (s ++ t) = v ++ compact t := by
  obtain ⟨lead, trail, hlead, htrail, rfl⟩ := hs
  rw [List.append_assoc, List.append_assoc, compact_blanks hlead, compact_value hv,
    compact_blanks htrail]

theorem compact_arguments {vs : List Text} {s : Text} (h : SpellsArguments vs s) (t : Text) :
    compact (s ++ t) = Text.joinWith [','] vs ++ compact t := by
  induction h with
  | last hv hs => rw [compact_padded hv hs, Text.joinWith_singleton]
  | more hv hs hrest ih =>
    rw [List.append_assoc, List.cons_append, compact_padded hv hs,
      compact_char (by decide) (by decide), ih, Text.joinWith_cons hrest.ne_nil]
    simp

theorem compact_predicate {p : Text} (h : isPredicate p = true) (s : Text) :
    compact (p ++ s) = p ++ compact s := by
  unfold isPredicate at h
  split at h
  · rw [List.cons_append, compact_char (by decide) (by decide),
      compact_word (isIdentifier_all_isWordChar h), List.cons_append]
  · exact compact_word (isIdentifier_all_isWordChar h) s

theorem compact_nil : compact [] = [] := by rw [compact]

theorem compact_of_spellsAtom {p s : Text} {vs : List Text} (h : SpellsAtom p vs s) :
    compact s = atomText p vs := by
  cases h with
  | constant hp =>
    have hcompact := compact_predicate hp []
    rwa [List.append_nil, compact_nil, List.append_nil] at hcompact
  | compound hp hs =>
    have hne : vs.isEmpty = false := by
      rw [Bool.eq_false_iff]
      exact fun e => hs.ne_nil (List.isEmpty_iff.1 e)
    have hclose : compact [')'] = [')'] := by
      rw [compact_char (by decide) (by decide), compact_nil]
    rw [List.append_assoc, compact_predicate hp, List.cons_append,
      compact_char (by decide) (by decide), compact_arguments hs, hclose]
    simp [atomText, hne]

theorem Atom.text_eq_compact {s : Text} {a : Atom} (h : parse s = .ok a) : a.text = compact s :=
  (compact_of_spellsAtom (parse_eq_ok_iff_spells.1 h)).symm

end FactForm
