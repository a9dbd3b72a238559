import FactForm.Proofs.Value.Boundary
import FactForm.Source

/-!
# FactForm.Proofs.Source.Numeral

Numbers as texts. The decimals are exactly the number values, and each is the decimal of the number
it denotes.

* `isNumber_decimal`, `numeral_decimal` — a decimal is a number value and denotes its number.
* `decimal_numeral` — a number value is the decimal of what it denotes.
* `numeral_le_append` — more digits denote no smaller number.
-/

namespace FactForm

theorem numeral_decimal (n : Nat) : numeral (decimal n) = n := Nat.ofDigitChars_ten_toDigits

theorem decimal_all_isDigit (n : Nat) : (decimal n).all Char.isDigit = true := by
  rw [List.all_eq_true]
  intro c hc
  exact Nat.isDigit_of_mem_toDigits (by decide) (by decide) hc

theorem digitChar_toNat {c : Char} (h : c.isDigit = true) :
    c.toNat - '0'.toNat < 10 ∧ Nat.digitChar (c.toNat - '0'.toNat) = c := by
  have h0 : '0'.toNat = 48 := rfl
  have hc : 48 ≤ c.toNat ∧ c.toNat ≤ 57 := by
    simp only [Char.isDigit, Bool.and_eq_true, decide_eq_true_eq, ge_iff_le,
      UInt32.le_iff_toNat_le] at h
    exact h
  have hlt : c.toNat - '0'.toNat < 10 := by omega
  refine ⟨hlt, Char.toNat_inj.1 ?_⟩
  rw [Nat.toNat_digitChar_of_lt_ten hlt]
  omega

theorem decimal_append {digits : Text} (h : digits.all Char.isDigit = true) {n : Nat}
    (hn : 0 < n) : decimal n ++ digits = decimal (Nat.ofDigitChars 10 digits n) := by
  induction digits generalizing n with
  | nil => rw [List.append_nil, Nat.ofDigitChars_nil]
  | cons c r ih =>
    rw [List.all_cons, Bool.and_eq_true] at h
    obtain ⟨hlt, hchar⟩ := digitChar_toNat h.1
    have hstep : decimal n ++ [c] = decimal (10 * n + (c.toNat - '0'.toNat)) := by
      have := Nat.toDigits_append_toDigits (by decide : 1 < 10) hn hlt
      rwa [Nat.toDigits_of_lt_base hlt, hchar] at this
    rw [Nat.ofDigitChars_cons, ← ih h.2 (by omega), ← hstep, List.append_assoc,
      List.singleton_append]

theorem decimal_numeral {v : Text} (h : isNumber v = true) : decimal (numeral v) = v := by
  cases v with
  | nil => simp [isNumber] at h
  | cons c r =>
    rcases isNumber_cons.1 h with ⟨rfl, rfl⟩ | ⟨h0, hc, hr⟩
    · rfl
    · obtain ⟨hlt, hchar⟩ := digitChar_toNat hc
      have hpos : 0 < c.toNat - '0'.toNat := by
        rw [Nat.pos_iff_ne_zero]
        intro hz
        rw [hz] at hchar
        exact h0 hchar.symm
      rw [numeral, Nat.ofDigitChars_cons, Nat.mul_zero, Nat.zero_add, ← decimal_append hr hpos,
        decimal, Nat.toDigits_of_lt_base hlt, hchar]
      rfl

theorem isNumber_append {v digits : Text} (h : isNumber v = true) (hv : v ≠ ['0'])
    (hd : digits.all Char.isDigit = true) : isNumber (v ++ digits) = true := by
  cases v with
  | nil => simp [isNumber] at h
  | cons c r =>
    rcases isNumber_cons.1 h with ⟨rfl, rfl⟩ | ⟨h0, hc, hr⟩
    · exact absurd rfl hv
    · rw [List.cons_append, isNumber_cons, List.all_append, hr, hd]
      exact .inr ⟨h0, hc, rfl⟩

theorem isNumber_decimal (n : Nat) : isNumber (decimal n) = true := by
  induction n using Nat.strongRecOn with
  | _ n ih =>
    by_cases hn : n < 10
    · have hall := decimal_all_isDigit n
      rw [decimal, Nat.toDigits_of_lt_base hn] at hall ⊢
      simp only [List.all_cons, List.all_nil, Bool.and_true] at hall
      rw [isNumber_cons]
      by_cases h0 : n.digitChar = '0'
      · exact .inl ⟨h0, rfl⟩
      · exact .inr ⟨h0, hall, rfl⟩
    · have hall := decimal_all_isDigit n
      have hsplit : decimal n = decimal (n / 10) ++ [Nat.digitChar (n % 10)] :=
        Nat.toDigits_of_base_le (by decide) (by omega)
      have hne : decimal (n / 10) ≠ ['0'] := by
        intro h0
        have hz : n / 10 = 0 := by rw [← numeral_decimal (n / 10), h0]; rfl
        omega
      rw [hsplit, List.all_append, Bool.and_eq_true] at hall
      rw [hsplit]
      exact isNumber_append (ih (n / 10) (by omega)) hne hall.2

theorem le_ofDigitChars (digits : Text) (n : Nat) : n ≤ Nat.ofDigitChars 10 digits n := by
  rw [Nat.ofDigitChars_eq_ofDigitChars_zero]
  have hpow : 0 < 10 ^ digits.length := Nat.pow_pos (by decide)
  exact Nat.le_trans (Nat.le_mul_of_pos_left n hpow) (Nat.le_add_right _ _)

theorem numeral_le_append (u x : Text) : numeral u ≤ numeral (u ++ x) := by
  rw [numeral, numeral, Nat.ofDigitChars_append]
  exact le_ofDigitChars x _

end FactForm
