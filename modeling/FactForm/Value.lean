import FactForm.Text

/-!
# FactForm.Value

The tokens of logic programs that may fill a placeholder or stand as an argument of an atom:
identifiers `[a-z][A-Za-z0-9_]*`, numbers without leading zeros, and double-quoted strings in
which a backslash escapes any character but a line feed.

* `isValue`      — what a value is.
* `readValue`    — the longest value at the front of a text.
* `valueLengths` — the lengths of all values at the front of a text, the longest first.

The main statements are `readValue_isValue`, every token read is a value, and
`mem_valueLengths_iff`, the listed lengths are exactly those of the values at the front.
-/

namespace FactForm

/-- A letter, a digit or an underscore, in ASCII. -/
def isWordChar (c : Char) : Bool := c.isAlphanum || c == '_'

def isIdentifier : Text → Bool
  | [] => false
  | c :: r => c.isLower && r.all isWordChar

def isNumber : Text → Bool
  | [] => false
  | c :: r => if c = '0' then r.isEmpty else c.isDigit && r.all Char.isDigit

/-- A text that closes a string opened before it, with its last character. -/
def closesString : Text → Bool
  | [] => false
  | '"' :: r => r.isEmpty
  | '\\' :: [] => false
  | '\\' :: c :: r => c != '\n' && closesString r
  | _ :: r => closesString r

def isQuotedString : Text → Bool
  | '"' :: r => closesString r
  | _ => false

def isValue (v : Text) : Bool := isIdentifier v || isNumber v || isQuotedString v

/-! ## Reading -/

/-- Splits a text after the quote that closes the string opened before it. -/
def readString : Text → Option (Text × Text)
  | [] => none
  | '"' :: r => some (['"'], r)
  | '\\' :: [] => none
  | '\\' :: c :: r =>
    if c = '\n' then none else (readString r).map fun (body, rest) => ('\\' :: c :: body, rest)
  | c :: r => (readString r).map fun (body, rest) => (c :: body, rest)

def readIdentifier : Text → Option (Text × Text)
  | [] => none
  | c :: r => if c.isLower then some (c :: r.takeWhile isWordChar, r.dropWhile isWordChar) else none

/-- Splits a text after the longest value at its front. -/
def readValue : Text → Option (Text × Text)
  | [] => none
  | c :: r =>
    if c = '"' then (readString r).map fun (body, rest) => ('"' :: body, rest)
    else if c = '0' then some (['0'], r)
    else if c.isDigit then some (c :: r.takeWhile Char.isDigit, r.dropWhile Char.isDigit)
    else readIdentifier (c :: r)

def countdown : Nat → List Nat
  | 0 => []
  | n + 1 => (n + 1) :: countdown n

/-- Lengths of the values at the front of a text, the longest first. A string is read whole; an
identifier or a number may be cut after any of its characters. -/
def valueLengths (s : Text) : List Nat :=
  match readValue s with
  | none => []
  | some (v, _) => if s.head? = some '"' then [v.length] else countdown v.length

/-! ## Laws -/

theorem mem_countdown {m n : Nat} : m ∈ countdown n ↔ 0 < m ∧ m ≤ n := by
  induction n with
  | zero => simp [countdown]; omega
  | succ n ih => simp [countdown, ih]; omega

theorem countdown_descending (n : Nat) : (countdown n).Pairwise (· > ·) := by
  induction n with
  | zero => simp [countdown]
  | succ n ih =>
    refine List.pairwise_cons.2 ⟨fun m hm => ?_, ih⟩
    have := (mem_countdown.1 hm).2
    omega

theorem valueLengths_descending (s : Text) : (valueLengths s).Pairwise (· > ·) := by
  unfold valueLengths
  split
  · exact List.Pairwise.nil
  · split
    · exact List.pairwise_singleton _ _
    · exact countdown_descending _

theorem readString_append {s body rest : Text} (h : readString s = some (body, rest)) :
    s = body ++ rest := by
  fun_induction readString s generalizing body rest with
  | case1 => simp at h
  | case2 r => simp at h; obtain ⟨rfl, rfl⟩ := h; rfl
  | case3 => simp at h
  | case4 => simp at h
  | case5 c r hc ih =>
    obtain ⟨⟨b, e⟩, hb, hp⟩ := Option.map_eq_some_iff.1 h
    cases hp
    simp [← ih hb]
  | case6 c r _ _ _ ih =>
    obtain ⟨⟨b, e⟩, hb, hp⟩ := Option.map_eq_some_iff.1 h
    cases hp
    simp [← ih hb]

theorem readString_closes {s body rest : Text} (h : readString s = some (body, rest)) :
    closesString body = true := by
  fun_induction readString s generalizing body rest with
  | case1 => simp at h
  | case2 r => simp at h; obtain ⟨rfl, rfl⟩ := h; rfl
  | case3 => simp at h
  | case4 => simp at h
  | case5 c r hc ih =>
    obtain ⟨⟨b, e⟩, hb, hp⟩ := Option.map_eq_some_iff.1 h
    cases hp
    simp [closesString, hc, ih hb]
  | case6 c r h₁ h₂ h₃ ih =>
    obtain ⟨⟨b, e⟩, hb, hp⟩ := Option.map_eq_some_iff.1 h
    cases hp
    have hc : c ≠ '\\' := by
      intro e
      cases r with
      | nil => exact h₂ e rfl
      | cons d r => exact h₃ d r e rfl
    rw [closesString]
    · exact ih hb
    · exact h₁
    · exact fun e _ => hc e
    · exact fun _ _ e _ => hc e

theorem readIdentifier_append {s v rest : Text} (h : readIdentifier s = some (v, rest)) :
    s = v ++ rest := by
  cases s with
  | nil => simp [readIdentifier] at h
  | cons c r =>
    simp only [readIdentifier] at h
    split at h
    · cases h; simp
    · cases h

theorem readIdentifier_isIdentifier {s v rest : Text} (h : readIdentifier s = some (v, rest)) :
    isIdentifier v = true := by
  cases s with
  | nil => simp [readIdentifier] at h
  | cons c r =>
    simp only [readIdentifier] at h
    split at h
    · rename_i hc; cases h; simp [isIdentifier, hc]
    · cases h

theorem readValue_append {s v rest : Text} (h : readValue s = some (v, rest)) :
    s = v ++ rest := by
  cases s with
  | nil => simp [readValue] at h
  | cons c r =>
    simp only [readValue] at h
    split at h
    · obtain ⟨⟨b, e⟩, hb, hp⟩ := Option.map_eq_some_iff.1 h
      rename_i hc; cases hp
      simp [hc, ← readString_append hb]
    · split at h
      · rename_i hc; cases h; simp [hc]
      · split at h
        · cases h; simp
        · exact readIdentifier_append h

theorem readValue_isValue {s v rest : Text} (h : readValue s = some (v, rest)) :
    isValue v = true := by
  cases s with
  | nil => simp [readValue] at h
  | cons c r =>
    simp only [readValue] at h
    split at h
    · obtain ⟨⟨b, e⟩, hb, hp⟩ := Option.map_eq_some_iff.1 h
      cases hp
      simp [isValue, isQuotedString, readString_closes hb]
    · split at h
      · cases h; rfl
      · split at h
        · rename_i h₀ hd; cases h; simp [isValue, isNumber, h₀, hd]
        · simp [isValue, readIdentifier_isIdentifier h]

theorem readValue_ne_nil {s v rest : Text} (h : readValue s = some (v, rest)) : v ≠ [] := by
  rintro rfl
  exact absurd (readValue_isValue h) (by decide)

theorem readValue_length_lt {s v rest : Text} (h : readValue s = some (v, rest)) :
    rest.length < s.length := by
  have hv := List.length_pos_iff.2 (readValue_ne_nil h)
  rw [readValue_append h, List.length_append]
  omega

theorem readString_of_closes {body : Text} (h : closesString body = true) (rest : Text) :
    readString (body ++ rest) = some (body, rest) := by
  fun_induction closesString body with
  | case1 => cases h
  | case2 r => rw [List.isEmpty_iff.1 h]; rfl
  | case3 => cases h
  | case4 c r ih =>
    simp only [Bool.and_eq_true, bne_iff_ne] at h
    simp [readString, h.1, ih h.2]
  | case5 c r h₁ h₂ h₃ ih =>
    have hc : c ≠ '\\' := by
      intro e
      cases r with
      | nil => exact h₂ e rfl
      | cons d r => exact h₃ d r e rfl
    rw [List.cons_append, readString]
    · rw [ih h]; rfl
    · exact h₁
    · exact fun e _ => hc e
    · exact fun _ _ e _ => hc e

theorem isLower_of_isDigit {c : Char} (h : c.isDigit = true) : c.isLower = false := by
  rw [Bool.eq_false_iff]
  intro hl
  have ha : 'a'.val ≤ c.val := of_decide_eq_true (Bool.and_eq_true_iff.1 hl).1
  have h9 : c.val ≤ '9'.val := of_decide_eq_true (Bool.and_eq_true_iff.1 h).2
  exact absurd (UInt32.le_trans ha h9) (by decide)

theorem all_take_iff {p : Char → Bool} {s : Text} {n : Nat} (h : n ≤ s.length) :
    (s.take n).all p = true ↔ n ≤ (s.takeWhile p).length := by
  induction s generalizing n with
  | nil => simp at h; simp [h]
  | cons c r ih =>
    cases n with
    | zero => simp
    | succ n =>
      cases hc : p c with
      | false => simp [hc]
      | true => simpa [hc] using ih (by simpa using h)

theorem mem_valueLengths_iff {s : Text} {n : Nat} :
    n ∈ valueLengths s ↔ n ≤ s.length ∧ isValue (s.take n) = true := by
  cases n with
  | zero =>
    have : 0 ∉ valueLengths s := by
      unfold valueLengths
      split
      · simp
      · rename_i hv
        have := List.length_pos_iff.2 (readValue_ne_nil hv)
        split
        · simp only [List.mem_singleton]; omega
        · simp [mem_countdown]
    simp [this, show isValue [] = false from rfl]
  | succ n =>
    cases s with
    | nil => simp [valueLengths, readValue]
    | cons c r =>
      by_cases hq : c = '"'
      · subst hq
        have hi : isIdentifier ('"' :: r.take n) = false := by simp [isIdentifier]
        have hn : isNumber ('"' :: r.take n) = false := by simp [isNumber]
        simp only [valueLengths, readValue, List.length_cons, List.take_succ_cons, isValue, hi, hn,
          isQuotedString, Nat.add_le_add_iff_right, Bool.false_or, if_true, List.head?_cons]
        cases hr : readString r with
        | none =>
          simp only [Option.map_none, List.not_mem_nil, false_iff, not_and]
          intro _ hc
          have := readString_of_closes hc (r.drop n)
          rw [List.take_append_drop, hr] at this
          cases this
        | some p =>
          obtain ⟨body, rest⟩ := p
          have ha := readString_append hr
          simp only [Option.map_some, List.mem_singleton, List.length_cons,
            Nat.add_right_cancel_iff]
          constructor
          · rintro rfl
            subst ha
            simp [readString_closes hr]
          · rintro ⟨hl, hc⟩
            have := readString_of_closes hc (r.drop n)
            rw [List.take_append_drop, hr] at this
            simp only [Option.some.injEq, Prod.mk.injEq] at this
            rw [this.1, List.length_take, Nat.min_eq_left hl]
      · have hs : isQuotedString (c :: r.take n) = false := by
          simp [isQuotedString, hq]
        by_cases h0 : c = '0'
        · subst h0
          have hi : isIdentifier ('0' :: r.take n) = false := by simp [isIdentifier]
          have hl : valueLengths ('0' :: r) = [1] := by simp [valueLengths, readValue, countdown]
          simp only [hl, isValue, List.take_succ_cons, hi, hs, isNumber, if_true, Bool.false_or,
            Bool.or_false, List.isEmpty_iff, List.length_cons, List.mem_singleton,
            ← List.length_eq_zero_iff, List.length_take]
          omega
        · cases hd : c.isDigit with
          | true =>
            have hl : c.isLower = false := isLower_of_isDigit hd
            have hi : isIdentifier (c :: r.take n) = false := by simp [isIdentifier, hl]
            simp only [valueLengths, readValue, hq, h0, hd, isValue, hi, hs, isNumber, if_true,
              if_false, List.head?_cons, Option.some.injEq, mem_countdown, List.take_succ_cons,
              Bool.false_or, Bool.or_false, Bool.true_and, List.length_cons,
              Nat.add_le_add_iff_right]
            have := (List.takeWhile_prefix Char.isDigit (l := r)).length_le
            constructor
            · intro h
              have hn : n ≤ r.length := by omega
              exact ⟨hn, (all_take_iff hn).2 h.2⟩
            · intro h
              exact ⟨by omega, (all_take_iff h.1).1 h.2⟩
          | false =>
            have hn : isNumber (c :: r.take n) = false := by simp [isNumber, h0, hd]
            cases hl : c.isLower with
            | false => simp [valueLengths, readValue, readIdentifier, hq, h0, hd, isValue, hn, hs,
                isIdentifier, hl]
            | true =>
              have hv : valueLengths (c :: r) =
                  countdown ((r.takeWhile isWordChar).length + 1) := by
                simp [valueLengths, readValue, readIdentifier, hq, h0, hd, hl]
              simp only [hv, isValue, hn, hs, isIdentifier, hl, mem_countdown, List.take_succ_cons,
                Bool.or_false, Bool.true_and, List.length_cons, Nat.add_le_add_iff_right]
              have := (List.takeWhile_prefix isWordChar (l := r)).length_le
              constructor
              · intro h
                have hn : n ≤ r.length := by omega
                exact ⟨hn, (all_take_iff hn).2 h.2⟩
              · intro h
                exact ⟨by omega, (all_take_iff h.1).1 h.2⟩

end FactForm
