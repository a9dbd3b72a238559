import FactForm.Proofs.Source.Resolution

/-!
# FactForm.Proofs.Source.Limits

The numbers that are offered, up to the bound of 64 bits. They are the number typed and its extensions by
one digit, in ascending order, without those that do not fit. The same numbers are found by arithmetic
on words of 64 bits, where each product and each sum is checked before it is taken, so that none wraps.

* `typedNumber?` — the number that is typed.
* `OneDigitMore` — what is offered for a number.
* `checkedMul`, `checkedAdd` — arithmetic on words that gives nothing where it would wrap.
* `appendDigits?_eq` — reading digits into a word is exact up to the bound.
* `wordCandidates` — the candidates by arithmetic on words.
* `intCandidates_exact` — what is offered for every text, and how it is computed.
-/

namespace FactForm

/-- The number that is typed: zero if nothing is typed, and none if something else is than the digits of
a number below the bound. -/
def typedNumber? (typed : Text) : Option Nat :=
  if typed = [] then some 0
  else if typed.all Char.isDigit = true ∧ numeral typed < numberBound then some (numeral typed)
  else none

/-- The values are the decimals of `n` and of the numbers below the bound with one digit more, in
ascending order from `n`. -/
def OneDigitMore (n : Nat) (values : List Text) : Prop :=
  ∃ numbers : List Nat, values = numbers.map decimal ∧ numbers.head? = some n ∧
    numbers.Pairwise (· < ·) ∧
    ∀ m, m ∈ numbers ↔ m = n ∨ (10 * n ≤ m ∧ m ≤ 10 * n + 9 ∧ m < numberBound)

/-! ## Words -/

/-- The product of two words, nothing if it does not fit in a word. -/
def checkedMul (m n : UInt64) : Option UInt64 :=
  if m.toNat * n.toNat < numberBound then some (m * n) else none

/-- The sum of two words, nothing if it does not fit in a word. -/
def checkedAdd (m n : UInt64) : Option UInt64 :=
  if m.toNat + n.toNat < numberBound then some (m + n) else none

/-- A number with one more digit. -/
def appendDigit? (n digit : UInt64) : Option UInt64 :=
  (checkedMul n 10).bind fun m => checkedAdd m digit

/-- A number with more digits, one after the other. -/
def appendDigits? (n : UInt64) : (digits : Text) → Option UInt64
  | [] => some n
  | c :: r => (appendDigit? n (.ofNat (c.toNat - '0'.toNat))).bind (appendDigits? · r)

/-- The number typed and the numbers with one more digit, by arithmetic on words. -/
def wordCandidates (typed : Text) : List Text :=
  let digits := if typed.isEmpty then ['0'] else typed
  if digits.all Char.isDigit then
    match appendDigits? 0 digits with
    | some n =>
      let extended := (List.range 10).filterMap fun d => appendDigit? n (.ofNat d)
      ((n :: extended).map fun m => decimal m.toNat).eraseDups
    | none => []
  else []

def inWord : Nat → Option Nat := Option.guard (· < numberBound)

theorem inWord_of_lt {n : Nat} (h : n < numberBound) : inWord n = some n :=
  Option.guard_eq_some_iff.2 ⟨rfl, decide_eq_true h⟩

theorem inWord_of_le {n : Nat} (h : numberBound ≤ n) : inWord n = none := by
  rw [inWord, Option.guard, if_neg]
  simpa using h

theorem map_toNat_of_wraps {w : UInt64} {n : Nat} (h : w.toNat = n % numberBound) :
    (if n < numberBound then some w else none).map UInt64.toNat = inWord n := by
  split
  · rename_i hlt
    rw [inWord_of_lt hlt, Option.map_some, h]
    exact congrArg some (Nat.mod_eq_of_lt hlt)
  · rename_i hle
    rw [inWord_of_le (Nat.not_lt.1 hle), Option.map_none]

theorem checkedMul_eq (m n : UInt64) :
    (checkedMul m n).map UInt64.toNat = inWord (m.toNat * n.toNat) :=
  map_toNat_of_wraps (UInt64.toNat_mul m n)

theorem checkedAdd_eq (m n : UInt64) :
    (checkedAdd m n).map UInt64.toNat = inWord (m.toNat + n.toNat) :=
  map_toNat_of_wraps (UInt64.toNat_add m n)

/-- One more digit is appended exactly, as far as the number fits. If the product does not fit, neither
does the sum. -/
theorem appendDigit?_eq (n digit : UInt64) :
    (appendDigit? n digit).map UInt64.toNat = inWord (10 * n.toNat + digit.toNat) := by
  have hmul := checkedMul_eq n 10
  have hten : (10 : UInt64).toNat = 10 := rfl
  rw [hten, Nat.mul_comm] at hmul
  rw [appendDigit?]
  by_cases hlt : 10 * n.toNat < numberBound
  · rw [inWord_of_lt hlt] at hmul
    obtain ⟨m, hm, hmn⟩ := Option.map_eq_some_iff.1 hmul
    rw [hm, Option.bind_some, checkedAdd_eq, hmn]
  · have hle := Nat.not_lt.1 hlt
    rw [inWord_of_le hle, Option.map_eq_none_iff] at hmul
    rw [hmul, Option.bind_none, Option.map_none,
      inWord_of_le (Nat.le_trans hle (Nat.le_add_right _ _))]

theorem toNat_ofNat_of_lt_ten {d : Nat} (h : d < 10) : (UInt64.ofNat d).toNat = d :=
  UInt64.toNat_ofNat_of_lt' (Nat.lt_trans h (by decide))

/-- Digits are read exactly as far as the number fits. A number that does not fit is not made to fit by
more digits. -/
theorem appendDigits?_eq {digits : Text} (h : digits.all Char.isDigit = true) (n : UInt64) :
    (appendDigits? n digits).map UInt64.toNat = inWord (Nat.ofDigitChars 10 digits n.toNat) := by
  induction digits generalizing n with
  | nil => exact (inWord_of_lt n.toNat_lt).symm
  | cons c r ih =>
    rw [List.all_cons, Bool.and_eq_true] at h
    have hdigit := toNat_ofNat_of_lt_ten (digitChar_toNat h.1).1
    have happend := appendDigit?_eq n (.ofNat (c.toNat - '0'.toNat))
    rw [hdigit] at happend
    rw [appendDigits?, Nat.ofDigitChars_cons]
    by_cases hlt : 10 * n.toNat + (c.toNat - '0'.toNat) < numberBound
    · rw [inWord_of_lt hlt] at happend
      obtain ⟨m, hm, hmn⟩ := Option.map_eq_some_iff.1 happend
      rw [hm, Option.bind_some, ih h.2, hmn]
    · have hle := Nat.not_lt.1 hlt
      rw [inWord_of_le hle, Option.map_eq_none_iff] at happend
      rw [happend, Option.bind_none, Option.map_none,
        inWord_of_le (Nat.le_trans hle (le_ofDigitChars r _))]

theorem map_toNat_extended (n : UInt64) :
    ((List.range 10).filterMap fun d => appendDigit? n (.ofNat d)).map UInt64.toNat =
      ((List.range 10).map (10 * n.toNat + ·)).filter (· < numberBound) := by
  have hexact : ∀ d ∈ List.range 10, (appendDigit? n (.ofNat d)).map UInt64.toNat =
      (inWord ∘ (10 * n.toNat + ·)) d := by
    intro d hd
    rw [appendDigit?_eq, toNat_ofNat_of_lt_ten (List.mem_range.1 hd)]
    rfl
  rw [List.map_filterMap, List.filterMap_congr hexact, ← List.filterMap_map, inWord,
    List.filterMap_eq_filter]

theorem decimal_injective : Function.Injective decimal :=
  Function.LeftInverse.injective numeral_decimal

theorem wordCandidates_eq (typed : Text) : wordCandidates typed = intCandidates typed := by
  have hempty : intCandidates [] = intCandidates ['0'] := rfl
  have hnonempty : ∀ digits : Text, digits.isEmpty = false →
      wordCandidates digits = intCandidates digits := by
    intro digits hne
    simp only [wordCandidates, intCandidates, hne, Bool.false_eq_true, if_false]
    cases hall : digits.all Char.isDigit with
    | false => rfl
    | true =>
      have hread := appendDigits?_eq hall 0
      have hzero : Nat.ofDigitChars 10 digits (0 : UInt64).toNat = numeral digits := rfl
      rw [hzero] at hread
      by_cases hlt : numeral digits < numberBound
      · rw [inWord_of_lt hlt] at hread
        obtain ⟨n, hn, hnumeral⟩ := Option.map_eq_some_iff.1 hread
        have hmap : (n :: (List.range 10).filterMap fun d => appendDigit? n (.ofNat d)).map
            (fun m => decimal m.toNat) =
            (numeral digits :: ((List.range 10).map (10 * numeral digits + ·)).filter
              (· < numberBound)).map decimal := by
          rw [← hnumeral, ← map_toNat_extended, ← List.map_cons, List.map_map]
          rfl
        simp only [hn, hmap, eraseDups_map decimal_injective, hlt, decide_true, Bool.and_self, if_true]
      · rw [inWord_of_le (Nat.not_lt.1 hlt), Option.map_eq_none_iff] at hread
        simp only [hread, hlt, decide_false, Bool.and_false, Bool.false_eq_true, if_true, if_false]
  cases typed with
  | nil => rw [hempty, ← hnonempty ['0'] rfl]; rfl
  | cons c r => exact hnonempty (c :: r) rfl

/-! ## What is offered -/

theorem typedNumber?_eq (typed : Text) :
    typedNumber? typed =
      if typed.all Char.isDigit && numeral typed < numberBound then some (numeral typed) else none := by
  rw [typedNumber?]
  split
  · rename_i hnil
    rw [hnil]
    rfl
  · simp only [Bool.and_eq_true, decide_eq_true_eq]

theorem oneDigitMore_eraseDups {n : Nat} :
    OneDigitMore n
      ((n :: ((List.range 10).map (10 * n + ·)).filter (· < numberBound)).eraseDups.map decimal) := by
  have hextended : ((List.range 10).map (10 * n + ·)).Pairwise (· ≤ ·) :=
    List.pairwise_map.2 (List.pairwise_lt_range.imp fun hlt => Nat.add_le_add_left (Nat.le_of_lt hlt) _)
  have hmem : ∀ m, m ∈ ((List.range 10).map (10 * n + ·)).filter (· < numberBound) ↔
      10 * n ≤ m ∧ m ≤ 10 * n + 9 ∧ m < numberBound := by
    intro m
    rw [List.mem_filter, List.mem_map, decide_eq_true_eq, ← and_assoc]
    refine and_congr_left fun _ => ?_
    constructor
    · rintro ⟨d, hd, rfl⟩
      have := List.mem_range.1 hd
      omega
    · rintro ⟨hlo, hhi⟩
      exact ⟨m - 10 * n, List.mem_range.2 (by omega), by omega⟩
  have hascending : (n :: ((List.range 10).map (10 * n + ·)).filter (· < numberBound)).Pairwise
      (· ≤ ·) := by
    refine List.pairwise_cons.2 ⟨fun m hm => ?_, hextended.sublist List.filter_sublist⟩
    have := (hmem m).1 hm
    omega
  refine ⟨_, rfl, ?_, ?_, ?_⟩
  · rw [List.eraseDups_cons, List.head?_cons]
  · have hle := hascending.sublist (eraseDups_sublist _)
    exact ((nodup_eraseDups _).and hle).imp fun ⟨hne, hle⟩ => Nat.lt_of_le_of_ne hle hne
  · intro m
    rw [List.mem_eraseDups, List.mem_cons, hmem]

/-- Where numbers are offered, whatever the facts are, nothing is offered for text that is not a number
below the bound, and else the number that is typed and its extensions by one digit, so that the decimal
of every number below the bound is offered for itself. Arithmetic on words finds the same values, and
none of its products and sums wraps. -/
theorem intCandidates_exact :
    (∀ facts typed,
      match typedNumber? typed with
      | none => candidatesIn facts (.builtin "int".toList) typed = []
      | some n => OneDigitMore n (candidatesIn facts (.builtin "int".toList) typed)) ∧
    (∀ n < numberBound, ∀ facts,
      decimal n ∈ candidatesIn facts (.builtin "int".toList) (decimal n)) ∧
    (∀ facts typed, candidatesIn facts (.builtin "int".toList) typed = wordCandidates typed) ∧
    ∀ m n : UInt64,
      (checkedMul m n).map UInt64.toNat = inWord (m.toNat * n.toNat) ∧
      (checkedAdd m n).map UInt64.toNat = inWord (m.toNat + n.toNat) := by
  have hint : ∀ facts typed,
      candidatesIn facts (.builtin "int".toList) typed = intCandidates typed := by
    intro facts typed
    rw [candidatesIn]
    exact if_pos rfl
  refine ⟨fun facts typed => ?_, fun n hn facts => ?_, fun facts typed => ?_,
    fun m n => ⟨checkedMul_eq m n, checkedAdd_eq m n⟩⟩
  · rw [typedNumber?_eq, hint, intCandidates]
    cases typed.all Char.isDigit && decide (numeral typed < numberBound) with
    | false => rfl
    | true => exact oneDigitMore_eraseDups
  · rw [hint]
    exact mem_intCandidates_self (isNumber_decimal n) (by rwa [numeral_decimal])
  · rw [hint, wordCandidates_eq]

/-- The bound lies among the extensions of a number: the one by five is offered, the one by six does not
fit. The greatest number is offered for itself, and nothing for the next one. -/
theorem limit_candidates :
    (∃ numbers : List Nat,
      candidatesIn [] (.builtin "int".toList) "1844674407370955161".toList = numbers.map decimal ∧
      18446744073709551615 ∈ numbers ∧ 18446744073709551616 ∉ numbers) ∧
    18446744073709551615 < numberBound ∧
    decimal 18446744073709551615 ∈
      candidatesIn [] (.builtin "int".toList) (decimal 18446744073709551615) ∧
    candidatesIn [] (.builtin "int".toList) "18446744073709551616".toList = [] := by
  obtain ⟨hoffered, hself, _⟩ := intCandidates_exact
  have hbound : 18446744073709551615 < numberBound := by decide
  have htyped : typedNumber? "1844674407370955161".toList = some 1844674407370955161 := by decide
  have hbeyond : typedNumber? "18446744073709551616".toList = none := by decide
  have hmore := hoffered [] "1844674407370955161".toList
  have hnone := hoffered [] "18446744073709551616".toList
  rw [htyped] at hmore
  rw [hbeyond] at hnone
  obtain ⟨numbers, heq, _, _, hmem⟩ := hmore
  exact ⟨⟨numbers, heq, (hmem _).2 (by decide), mt (hmem _).1 (by decide)⟩, hbound,
    hself _ hbound [], hnone⟩

end FactForm
