import FactForm.Order
import FactForm.Unicode

/-!
# FactForm.Text

Texts are lists of characters, so that every scanner of the library is a recursion on a list.

* `isBlank`   — the White_Space characters, which may stand around the arguments of an atom.
* `trim`      — a text without the blanks at its two ends.
* `byteSize`  — the length in UTF-8 bytes, the unit in which offsets are reported.
* `after?`    — what follows a given text at the front of another.
* `consumed`  — what stands in front of a given rest.
* `before`    — the order of texts, which is that of their UTF-8 bytes.
* `quoted`    — a text in double quotes, with escapes, as messages show names and values.
-/

namespace FactForm

abbrev Text := List Char

namespace Text

/-- The Unicode property White_Space. -/
def isBlank (c : Char) : Bool :=
  let n := c.toNat
  (0x9 ≤ n && n ≤ 0xD) || n == 0x20 || n == 0x85 || n == 0xA0 || n == 0x1680 ||
  (0x2000 ≤ n && n ≤ 0x200A) || n == 0x2028 || n == 0x2029 || n == 0x202F || n == 0x205F ||
  n == 0x3000

def skipBlanks (s : Text) : Text := s.dropWhile isBlank

def trim (s : Text) : Text := (skipBlanks (skipBlanks s).reverse).reverse

def byteSize : Text → Nat
  | [] => 0
  | c :: r => c.utf8Size + byteSize r

/-- The rest of a text that begins with `lead`. -/
def after? : (lead s : Text) → Option Text
  | [], s => some s
  | _ :: _, [] => none
  | a :: lead, c :: s => if a = c then after? lead s else none

/-- The text that was read when `rest` is left of `s`. -/
def consumed (s rest : Text) : Text := s.take (s.length - rest.length)

def joinWith (separator : Text) (texts : List Text) : Text := (texts.intersperse separator).flatten

/-- Whether a text comes before another in the order of their characters. -/
def before : Text → Text → Bool := listBefore fun c d => decide (c.toNat < d.toNat)

/-! ## Quoting -/

/-- A character as it is written between double quotes. One that is not shown is written as its code
point in hexadecimal. -/
def escape (c : Char) : Text :=
  if c = '"' then ['\\', '"']
  else if c = '\\' then ['\\', '\\']
  else if c = '\t' then ['\\', 't']
  else if c = '\r' then ['\\', 'r']
  else if c = '\n' then ['\\', 'n']
  else if c = '\x00' then ['\\', '0']
  else if Unicode.isShown c then [c]
  else '\\' :: 'u' :: '{' :: Nat.toDigits 16 c.toNat ++ ['}']

def quoted (s : Text) : Text := '"' :: s.flatMap escape ++ ['"']

def quotedList (texts : List Text) : Text :=
  '[' :: joinWith [',', ' '] (texts.map quoted) ++ [']']

/-! ## Laws -/

theorem skipBlanks_length_le (s : Text) : (skipBlanks s).length ≤ s.length :=
  (List.dropWhile_suffix isBlank).length_le

theorem skipBlanks_append {blanks : Text} (h : blanks.all isBlank = true) (s : Text) :
    skipBlanks (blanks ++ s) = skipBlanks s :=
  List.dropWhile_append_of_pos (List.all_eq_true.1 h)

theorem skipBlanks_cons {c : Char} (h : isBlank c = false) (s : Text) :
    skipBlanks (c :: s) = c :: s := by
  simp [skipBlanks, h]

theorem skipBlanks_blank {c : Char} (h : isBlank c = true) (s : Text) :
    skipBlanks (c :: s) = skipBlanks s :=
  List.dropWhile_cons_of_pos h

theorem exists_skipBlanks (s : Text) :
    ∃ blanks, blanks.all isBlank = true ∧ s = blanks ++ skipBlanks s :=
  ⟨s.takeWhile isBlank, List.all_takeWhile, List.takeWhile_append_dropWhile.symm⟩

theorem joinWith_singleton (separator s : Text) : joinWith separator [s] = s := by
  simp [joinWith]

theorem joinWith_cons {separator s : Text} {texts : List Text} (h : texts ≠ []) :
    joinWith separator (s :: texts) = s ++ separator ++ joinWith separator texts := by
  cases texts with
  | nil => exact absurd rfl h
  | cons t texts => simp [joinWith]

theorem after?_eq_some_iff {lead s r : Text} : after? lead s = some r ↔ s = lead ++ r := by
  induction lead generalizing s with
  | nil => simp [after?, eq_comm]
  | cons a lead ih =>
    cases s with
    | nil => simp [after?]
    | cons c s =>
      by_cases h : a = c
      · simp [after?, h, ih]
      · simp [after?, h, Ne.symm h]

theorem consumed_append (s rest : Text) : consumed (s ++ rest) rest = s := by
  simp [consumed]

theorem char_strictOrder : StrictOrder fun c d : Char => decide (c.toNat < d.toNat) where
  irrefl c := by simp
  trans h₁ h₂ := by simp only [decide_eq_true_eq] at *; omega
  eq_of_not h₁ h₂ := by
    simp only [decide_eq_false_iff_not] at *
    exact Char.toNat_inj.1 (by omega)

theorem strictOrder : StrictOrder before := char_strictOrder.list

theorem byteSize_append (s t : Text) : byteSize (s ++ t) = byteSize s + byteSize t := by
  induction s with
  | nil => simp [byteSize]
  | cons c r ih => simp [byteSize, ih, Nat.add_assoc]

end Text
end FactForm
