import FactForm.Value

/-!
# FactForm.Proofs.Value.Boundary

Where the value at the front of a text ends. An identifier or a number runs on as long as word
characters follow, so it ends at a boundary; a string ends at its closing quote, whatever follows.

* `isBoundary` — the text is empty or begins with a character that is no word character.
* `readIdentifier_eq_some_iff` — what is read as an identifier, and what is left behind it.
* `readValue_append_boundary` — a value in front of a boundary is read as it stands.
* `valueLengths_eq_cons` — the longest value comes first, and behind every shorter one a word
  character follows.
* `isValue_prefix_readValue` — no value at the front is longer than the one that is read.
* `isValue_prefix` — what is typed of an identifier or a number is one, too.
-/

namespace FactForm

/-- A value in front of such a text cannot be continued by it. -/
def isBoundary : Text → Bool
  | [] => true
  | c :: _ => !isWordChar c

theorem isBoundary_cons {c : Char} {s : Text} :
    isBoundary (c :: s) = true ↔ isWordChar c = false := by
  simp [isBoundary]

theorem isBoundary_append {s : Text} (h : s ≠ []) (t : Text) : isBoundary (s ++ t) = isBoundary s := by
  cases s with
  | nil => exact absurd rfl h
  | cons c r => rfl

theorem isBoundary_dropWhile (s : Text) : isBoundary (s.dropWhile isWordChar) = true := by
  induction s with
  | nil => rfl
  | cons c r ih =>
    by_cases h : isWordChar c = true
    · rwa [List.dropWhile_cons_of_pos h]
    · rw [List.dropWhile_cons_of_neg h, isBoundary_cons]
      exact Bool.eq_false_iff.2 h

/-! ## Tokens without quotes -/

theorem isWordChar_of_isDigit {c : Char} (h : c.isDigit = true) : isWordChar c = true := by
  simp [isWordChar, Char.isAlphanum, h]

theorem isWordChar_of_isLower {c : Char} (h : c.isLower = true) : isWordChar c = true := by
  have ha : c.isAlpha = true := by
    show (c.isUpper || c.isLower) = true
    rw [h, Bool.or_true]
  simp [isWordChar, Char.isAlphanum, ha]

theorem isIdentifier_cons {c : Char} {r : Text} :
    isIdentifier (c :: r) = true ↔ c.isLower = true ∧ r.all isWordChar = true := by
  simp [isIdentifier]

theorem isNumber_cons {c : Char} {r : Text} :
    isNumber (c :: r) = true ↔
      c = '0' ∧ r = [] ∨ c ≠ '0' ∧ c.isDigit = true ∧ r.all Char.isDigit = true := by
  by_cases h : c = '0' <;> simp [isNumber, h]

theorem isNumber_all_isDigit {v : Text} (h : isNumber v = true) : v.all Char.isDigit = true := by
  cases v with
  | nil => rfl
  | cons c r =>
    rcases isNumber_cons.1 h with ⟨rfl, rfl⟩ | ⟨_, hc, hr⟩
    · decide
    · rw [List.all_cons, hc, hr]; rfl

theorem isIdentifier_all_isWordChar {v : Text} (h : isIdentifier v = true) :
    v.all isWordChar = true := by
  cases v with
  | nil => rfl
  | cons c r =>
    obtain ⟨hc, hr⟩ := isIdentifier_cons.1 h
    rw [List.all_cons, isWordChar_of_isLower hc, hr]; rfl

theorem isValue_cases {v : Text} (h : isValue v = true) (hq : v.head? ≠ some '"') :
    isIdentifier v = true ∨ isNumber v = true := by
  simp only [isValue, Bool.or_eq_true] at h
  rcases h with h | h
  · exact h
  · cases v with
    | nil => simp [isQuotedString] at h
    | cons c r =>
      have hc : c ≠ '"' := by simpa using hq
      simp [isQuotedString, hc] at h

theorem isValue_all_isWordChar {v : Text} (h : isValue v = true) (hq : v.head? ≠ some '"') :
    v.all isWordChar = true := by
  rcases isValue_cases h hq with hi | hn
  · exact isIdentifier_all_isWordChar hi
  · rw [List.all_eq_true]
    intro c hc
    exact isWordChar_of_isDigit (List.all_eq_true.1 (isNumber_all_isDigit hn) c hc)

/-! ## Reading up to a boundary -/

theorem span_of_isBoundary {p : Char → Bool} (hp : ∀ c, p c = true → isWordChar c = true)
    {body rest : Text} (hb : body.all p = true) (hr : isBoundary rest = true) :
    (body ++ rest).takeWhile p = body ∧ (body ++ rest).dropWhile p = rest := by
  have hall : ∀ c ∈ body, p c = true := List.all_eq_true.1 hb
  rw [List.takeWhile_append_of_pos hall, List.dropWhile_append_of_pos hall]
  cases rest with
  | nil => simp
  | cons c r =>
    have hc : p c = false := by
      rw [Bool.eq_false_iff]
      intro h
      rw [isBoundary_cons, hp c h] at hr
      cases hr
    simp [hc]

theorem readIdentifier_append_boundary {v rest : Text} (h : isIdentifier v = true)
    (hr : isBoundary rest = true) : readIdentifier (v ++ rest) = some (v, rest) := by
  cases v with
  | nil => simp [isIdentifier] at h
  | cons c r =>
    obtain ⟨hc, hall⟩ := isIdentifier_cons.1 h
    obtain ⟨ht, hd⟩ := span_of_isBoundary (fun _ => id) hall hr
    simp [readIdentifier, hc, ht, hd]

theorem readIdentifier_eq_some_iff {s id rest : Text} :
    readIdentifier s = some (id, rest) ↔
      isIdentifier id = true ∧ isBoundary rest = true ∧ s = id ++ rest := by
  constructor
  · intro h
    refine ⟨readIdentifier_isIdentifier h, ?_, readIdentifier_append h⟩
    cases s with
    | nil => cases h
    | cons c r =>
      simp only [readIdentifier] at h
      split at h
      · cases h
        exact isBoundary_dropWhile r
      · cases h
  · rintro ⟨hid, hrest, rfl⟩
    exact readIdentifier_append_boundary hid hrest

theorem readValue_quoted {v : Text} (h : isQuotedString v = true) (rest : Text) :
    readValue (v ++ rest) = some (v, rest) := by
  unfold isQuotedString at h
  split at h
  · simp [readValue, readString_of_closes h]
  · cases h

theorem isLower_ne {c d : Char} (h : c.isLower = true) (hd : d.isLower = false) : c ≠ d := by
  rintro rfl
  rw [h] at hd
  cases hd

theorem readValue_append_boundary {v rest : Text} (h : isValue v = true)
    (hr : isBoundary rest = true) : readValue (v ++ rest) = some (v, rest) := by
  by_cases hq : v.head? = some '"'
  · cases v with
    | nil => cases hq
    | cons c r =>
      have hc : c = '"' := by simpa using hq
      subst hc
      refine readValue_quoted ?_ rest
      simpa [isValue, isIdentifier, isNumber] using h
  · rcases isValue_cases h hq with hi | hn
    · cases v with
      | nil => simp [isIdentifier] at hi
      | cons c r =>
        have hl := (isIdentifier_cons.1 hi).1
        have hd : c.isDigit = false := by
          rw [Bool.eq_false_iff]
          intro hd
          rw [isLower_of_isDigit hd] at hl
          cases hl
        have hread := readIdentifier_append_boundary hi hr
        rw [List.cons_append] at hread ⊢
        simp [readValue, isLower_ne hl (d := '"') rfl, isLower_ne hl (d := '0') rfl, hd, hread]
    · cases v with
      | nil => simp [isNumber] at hn
      | cons c r =>
        have hc : c ≠ '"' := by simpa using hq
        rcases isNumber_cons.1 hn with ⟨rfl, rfl⟩ | ⟨h0, hd, hall⟩
        · simp [readValue]
        · obtain ⟨ht, hdr⟩ := span_of_isBoundary (fun _ => isWordChar_of_isDigit) hall hr
          simp [readValue, hc, h0, hd, ht, hdr]

theorem readValue_append_of_isBoundary {s v rest x : Text} (h : readValue s = some (v, rest))
    (hne : rest ≠ []) (hb : isBoundary rest = true) : readValue (s ++ x) = some (v, rest ++ x) := by
  rw [readValue_append h, List.append_assoc]
  refine readValue_append_boundary (readValue_isValue h) ?_
  rw [isBoundary_append hne, hb]

/-! ## Shorter values -/

theorem readValue_head {s v rest : Text} (h : readValue s = some (v, rest)) :
    v.head? = s.head? := by
  rw [readValue_append h]
  cases v with
  | nil => exact absurd rfl (readValue_ne_nil h)
  | cons c r => rfl

theorem countdown_succ (n : Nat) : countdown (n + 1) = (n + 1) :: countdown n := rfl

/-- The longest value comes first, and behind every shorter one a word character follows. -/
theorem valueLengths_eq_cons {s v rest : Text} (h : readValue s = some (v, rest)) :
    ∃ shorter, valueLengths s = v.length :: shorter ∧
      ∀ n ∈ shorter, isBoundary (s.drop n) = false := by
  have hpos : 0 < v.length := List.length_pos_iff.2 (readValue_ne_nil h)
  by_cases hq : s.head? = some '"'
  · exact ⟨[], by simp [valueLengths, h, hq], by simp⟩
  · obtain ⟨k, hk⟩ : ∃ k, v.length = k + 1 := ⟨v.length - 1, by omega⟩
    refine ⟨countdown k, by simp [valueLengths, h, hq, hk, countdown_succ], ?_⟩
    intro n hn
    have hlt : n < v.length := by
      have := (mem_countdown.1 hn).2
      omega
    have hall := isValue_all_isWordChar (readValue_isValue h) (readValue_head h ▸ hq)
    rw [readValue_append h, List.drop_append_of_le_length (by omega),
      List.drop_eq_getElem_cons hlt, List.cons_append, isBoundary,
      List.all_eq_true.1 hall _ (List.getElem_mem hlt)]
    rfl

theorem isValue_prefix_readValue {s u v rest : Text} (hu : isValue u = true) (hpre : u <+: s)
    (h : readValue s = some (v, rest)) : u <+: v := by
  have hmem : u.length ∈ valueLengths s := by
    rw [mem_valueLengths_iff, ← List.prefix_iff_eq_take.1 hpre]
    exact ⟨hpre.length_le, hu⟩
  have hle : u.length ≤ v.length := by
    obtain ⟨shorter, hl, _⟩ := valueLengths_eq_cons h
    have hdesc := valueLengths_descending s
    rw [hl, List.mem_cons] at hmem
    rw [hl, List.pairwise_cons] at hdesc
    rcases hmem with heq | hlt
    · exact Nat.le_of_eq heq
    · exact Nat.le_of_lt (hdesc.1 _ hlt)
  exact List.prefix_of_prefix_length_le hpre ⟨rest, (readValue_append h).symm⟩ hle

/-! ## Values that are being typed -/

theorem isIdentifier_prefix {u v : Text} (h : isIdentifier v = true) (hu : u <+: v)
    (hne : u ≠ []) : isIdentifier u = true := by
  obtain ⟨x, rfl⟩ := hu
  cases u with
  | nil => exact absurd rfl hne
  | cons c r =>
    rw [List.cons_append, isIdentifier_cons, List.all_append, Bool.and_eq_true] at h
    exact isIdentifier_cons.2 ⟨h.1, h.2.1⟩

theorem isNumber_prefix {u v : Text} (h : isNumber v = true) (hu : u <+: v) (hne : u ≠ []) :
    isNumber u = true := by
  obtain ⟨x, rfl⟩ := hu
  cases u with
  | nil => exact absurd rfl hne
  | cons c r =>
    rw [List.cons_append, isNumber_cons, List.append_eq_nil_iff, List.all_append,
      Bool.and_eq_true] at h
    rcases h with ⟨hc, hr, _⟩ | ⟨hc, hd, hr, _⟩
    · exact isNumber_cons.2 (.inl ⟨hc, hr⟩)
    · exact isNumber_cons.2 (.inr ⟨hc, hd, hr⟩)

theorem isValue_prefix {u v : Text} (h : isValue v = true) (hq : v.head? ≠ some '"')
    (hu : u <+: v) (hne : u ≠ []) : isValue u = true := by
  rcases isValue_cases h hq with hi | hn
  · simp [isValue, isIdentifier_prefix hi hu hne]
  · simp [isValue, isNumber_prefix hn hu hne]

end FactForm
