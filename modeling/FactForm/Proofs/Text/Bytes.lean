import FactForm.Text

/-!
# FactForm.Proofs.Text.Bytes

The UTF-8 bytes of a text, and the order of texts, which is that of their bytes. The first byte of a
character says how many there are, and more for a greater character; for characters of one length the
bytes are digits of their code points.

* `Text.bytes` — the UTF-8 encoding of a text.
* `bytesBefore` — the order of byte sequences.
* `encode_before` — a character comes before another in bytes if it does by its code point.
* `Text.bytesBefore_bytes` — so it is for texts.
* `Text.cutAt?` — a text cut at an offset in bytes, which must lie between two characters.
* `Text.cutAt?_eq_some_iff` — where a text can be cut.
-/

namespace FactForm

def Text.bytes (s : Text) : List UInt8 := s.flatMap String.utf8EncodeChar

def byteBefore (x y : UInt8) : Bool := decide (x.toNat < y.toNat)

/-- Whether a sequence of bytes comes before another. -/
def bytesBefore : List UInt8 → List UInt8 → Bool := listBefore byteBefore

theorem byte_strictOrder : StrictOrder byteBefore where
  irrefl x := by simp [byteBefore]
  trans h₁ h₂ := by simp only [byteBefore, decide_eq_true_eq] at *; omega
  eq_of_not h₁ h₂ := by
    simp only [byteBefore, decide_eq_false_iff_not] at *
    exact UInt8.toNat_inj.1 (by omega)

/-! ## Characters -/

theorem bytesBefore_cons_iff {x y : UInt8} {l m : List UInt8} :
    bytesBefore (x :: l) (y :: m) = true ↔
      x.toNat < y.toNat ∨ x.toNat = y.toNat ∧ bytesBefore l m = true := by
  rw [bytesBefore, listBefore_cons_iff, byteBefore, decide_eq_true_eq, ← UInt8.toNat_inj]
  constructor
  · rintro (h | h)
    · exact .inr h
    · exact .inl h.2
  · rintro (h | h)
    · exact .inr ⟨fun e => Nat.ne_of_lt h (congrArg UInt8.toNat e), h⟩
    · exact .inl h

/-- A number without its last `k` digits to the base 64. -/
def above (n : Nat) : Nat → Nat
  | 0 => n
  | k + 1 => above n k / 64

/-- The last `k` digits of a number to the base 64, the highest first, as bytes. -/
def digitBytes (n : Nat) : Nat → List UInt8
  | 0 => []
  | k + 1 => UInt8.ofNat (above n k % 64 + 128) :: digitBytes n k

/-- What the first byte of a character shows, if `k` bytes follow it. -/
def lengthMark : Nat → Nat
  | 0 => 0
  | 1 => 192
  | 2 => 224
  | _ => 240

/-- The code point is written with `k` bytes behind the first. -/
inductive HasDigits (n : Nat) : Nat → Prop where
  | zero : n < 128 → HasDigits n 0
  | one : 128 ≤ n → n < 2048 → HasDigits n 1
  | two : 2048 ≤ n → n < 65536 → HasDigits n 2
  | three : 65536 ≤ n → n < 1114112 → HasDigits n 3

def leadNumber (n k : Nat) : Nat := lengthMark k + above n k

theorem utf8EncodeChar_eq (c : Char) :
    ∃ k, HasDigits c.toNat k ∧
      String.utf8EncodeChar c = UInt8.ofNat (leadNumber c.toNat k) :: digitBytes c.toNat k := by
  have hvalid := c.valid
  simp only [UInt32.isValidChar, Nat.isValidChar] at hvalid
  have hn : c.toNat = c.val.toNat := rfl
  simp only [String.utf8EncodeChar, hn]
  split
  · exact ⟨0, .zero (by omega), by simp [leadNumber, lengthMark, digitBytes, above]⟩
  split
  · have hlead : leadNumber c.val.toNat 1 = c.val.toNat / 64 % 32 + 192 := by
      simp only [leadNumber, lengthMark, above]
      omega
    exact ⟨1, .one (by omega) (by omega), by simp only [hlead, digitBytes, above]⟩
  split
  · have hlead : leadNumber c.val.toNat 2 = c.val.toNat / 4096 % 16 + 224 := by
      simp only [leadNumber, lengthMark, above]
      omega
    exact ⟨2, .two (by omega) (by omega), by simp only [hlead, digitBytes, above]⟩
  · have hlead : leadNumber c.val.toNat 3 = c.val.toNat / 262144 % 8 + 240 := by
      simp only [leadNumber, lengthMark, above]
      omega
    exact ⟨3, .three (by omega) (by omega),
      by simp only [hlead, digitBytes, above, Nat.div_div_eq_div_mul, Nat.reduceMul]⟩

theorem leadNumber_lt {n k : Nat} (h : HasDigits n k) : leadNumber n k < 256 := by
  cases h <;> simp only [leadNumber, lengthMark, above] <;> omega

theorem leadNumber_lt_of_ne {n m j k : Nat} (hn : HasDigits n j) (hm : HasDigits m k) (h : n < m)
    (hne : j ≠ k) : leadNumber n j < leadNumber m k := by
  cases hn <;> cases hm <;> simp only [leadNumber, lengthMark, above] <;> omega

theorem above_le_above {n m : Nat} (h : n ≤ m) (k : Nat) : above n k ≤ above m k := by
  induction k with
  | zero => exact h
  | succ k ih => exact Nat.div_le_div_right ih

theorem digitBytes_before {n m k : Nat} (h : n < m) (hlead : above n k = above m k)
    (x y : List UInt8) : bytesBefore (digitBytes n k ++ x) (digitBytes m k ++ y) = true := by
  induction k with
  | zero => exact absurd hlead (Nat.ne_of_lt h)
  | succ k ih =>
    have hle : above n k ≤ above m k := above_le_above (Nat.le_of_lt h) k
    have hhigh : above n k / 64 = above m k / 64 := hlead
    simp only [digitBytes, List.cons_append, bytesBefore_cons_iff, UInt8.toNat_ofNat']
    by_cases heq : above n k = above m k
    · exact .inr ⟨by rw [heq], ih heq⟩
    · left
      omega

/-- A character comes before another in bytes if it does by its code point. Characters of different
lengths differ in the first byte, others in the first digit in which their code points differ. -/
theorem encode_before {c d : Char} (h : c.toNat < d.toNat) (x y : List UInt8) :
    bytesBefore (String.utf8EncodeChar c ++ x) (String.utf8EncodeChar d ++ y) = true := by
  obtain ⟨j, hj, hc⟩ := utf8EncodeChar_eq c
  obtain ⟨k, hk, hd⟩ := utf8EncodeChar_eq d
  rw [hc, hd, List.cons_append, List.cons_append, bytesBefore_cons_iff, UInt8.toNat_ofNat',
    UInt8.toNat_ofNat', Nat.mod_eq_of_lt (leadNumber_lt hj), Nat.mod_eq_of_lt (leadNumber_lt hk)]
  by_cases hjk : j = k
  · subst hjk
    have hle : above c.toNat j ≤ above d.toNat j := above_le_above (Nat.le_of_lt h) j
    rcases Nat.lt_or_eq_of_le hle with hlt | heq
    · exact .inl (Nat.add_lt_add_left hlt _)
    · exact .inr ⟨congrArg (lengthMark j + ·) heq, digitBytes_before h heq x y⟩
  · exact .inl (leadNumber_lt_of_ne hj hk h hjk)

/-! ## Texts -/

namespace Text

theorem bytes_cons (c : Char) (s : Text) : bytes (c :: s) = String.utf8EncodeChar c ++ bytes s :=
  List.flatMap_cons

theorem bytesBefore_of_before {s t : Text} (h : before s t = true) :
    bytesBefore (bytes s) (bytes t) = true := by
  induction s generalizing t with
  | nil =>
    cases t with
    | nil => simp [before, listBefore] at h
    | cons d t =>
      obtain ⟨k, _, hd⟩ := utf8EncodeChar_eq d
      rw [bytes_cons, hd]
      rfl
  | cons c s ih =>
    cases t with
    | nil => simp [before, listBefore] at h
    | cons d t =>
      rw [bytes_cons, bytes_cons]
      rcases listBefore_cons_iff.1 h with ⟨rfl, hrest⟩ | ⟨_, hlt⟩
      · rw [bytesBefore, listBefore_append_left]
        exact ih hrest
      · exact encode_before (of_decide_eq_true hlt) _ _

theorem bytesBefore_bytes (s t : Text) : bytesBefore (bytes s) (bytes t) = before s t :=
  strictOrder.eq_of_mono byte_strictOrder.list bytesBefore_of_before s t

theorem bytes_inj {s t : Text} : bytes s = bytes t ↔ s = t := by
  refine ⟨fun h => ?_, fun h => by rw [h]⟩
  have hself : before s t = false ∧ before t s = false := by
    rw [← bytesBefore_bytes, ← bytesBefore_bytes, h]
    exact ⟨listBefore_irrefl _, listBefore_irrefl _⟩
  exact strictOrder.eq_of_not hself.1 hself.2

/-! ## Cuts -/

/-- A text cut at an offset in bytes. There is no cut behind the end, nor inside a character. -/
def cutAt? : Text → (offset : Nat) → Option (Text × Text)
  | s, 0 => some ([], s)
  | [], _ + 1 => none
  | c :: r, n + 1 =>
    if c.utf8Size ≤ n + 1 then
      (cutAt? r (n + 1 - c.utf8Size)).map fun (front, rest) => (c :: front, rest)
    else none

theorem cutAt?_append (front rest : Text) :
    cutAt? (front ++ rest) (byteSize front) = some (front, rest) := by
  induction front with
  | nil => rw [List.nil_append, byteSize, cutAt?]
  | cons c r ih =>
    obtain ⟨n, hn⟩ : ∃ n, byteSize (c :: r) = n + 1 :=
      Nat.exists_eq_add_one.2 (Nat.add_pos_left c.utf8Size_pos _)
    have hle : c.utf8Size ≤ n + 1 := by
      rw [← hn]
      exact Nat.le_add_right _ _
    have hrest : n + 1 - c.utf8Size = byteSize r := by
      rw [← hn, byteSize, Nat.add_sub_cancel_left]
    rw [hn, List.cons_append, cutAt?, if_pos hle, hrest, ih]
    rfl

theorem cutAt?_eq_some_iff {s front rest : Text} {offset : Nat} :
    cutAt? s offset = some (front, rest) ↔ s = front ++ rest ∧ byteSize front = offset := by
  constructor
  · intro h
    fun_induction cutAt? s offset generalizing front with
    | case1 s =>
      cases h
      exact ⟨rfl, rfl⟩
    | case2 => cases h
    | case3 c r n hle ih =>
      obtain ⟨⟨front, rest⟩, hcut, hcons⟩ := Option.map_eq_some_iff.1 h
      cases hcons
      obtain ⟨rfl, hsize⟩ := ih hcut
      refine ⟨rfl, ?_⟩
      rw [byteSize, hsize]
      omega
    | case4 => cases h
  · rintro ⟨rfl, rfl⟩
    exact cutAt?_append front rest

theorem length_bytes (s : Text) : (bytes s).length = byteSize s := by
  induction s with
  | nil => rfl
  | cons c r ih => rw [bytes_cons, List.length_append, String.length_utf8EncodeChar, ih, byteSize]

theorem bytes_append (s t : Text) : bytes (s ++ t) = bytes s ++ bytes t := List.flatMap_append

theorem bytes_of_cutAt? {s front rest : Text} {offset : Nat}
    (h : cutAt? s offset = some (front, rest)) :
    bytes front = (bytes s).take offset ∧ bytes rest = (bytes s).drop offset := by
  obtain ⟨rfl, rfl⟩ := cutAt?_eq_some_iff.1 h
  rw [bytes_append, ← length_bytes]
  exact ⟨List.take_left.symm, List.drop_left.symm⟩

end Text
end FactForm
