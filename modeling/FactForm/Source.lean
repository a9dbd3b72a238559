import FactForm.Text

/-!
# FactForm.Source

Value sources: where the legal values of a placeholder come from.

* `Source`       — any value, a built-in type, or an argument of the known facts of a predicate.
* `Source.parse` — the source a descriptor names: nothing, `#type`, `name` or `name[index]`.
* `Source.text`  — the descriptor of a source, which always shows the index.
-/

namespace FactForm

inductive Source where
  | any
  | builtin (type : Text)
  | argument (predicate : Text) (index : Nat)
  deriving DecidableEq

/-- Numbers, as indices and as values of `#int`, fit in 64 bits: they are below this bound. -/
def numberBound : Nat := 0x10000000000000000

def decimal (n : Nat) : Text := Nat.toDigits 10 n

/-- The number that a text of digits denotes; leading zeros are allowed. -/
def numeral (digits : Text) : Nat := Nat.ofDigitChars 10 digits 0

namespace Source

/-- Splits `name[digits]` into the name and the number, if the number is below the bound. -/
def indexSuffix? (descriptor : Text) : Option (Text × Nat) :=
  match descriptor.reverse with
  | ']' :: r =>
    match r.dropWhile Char.isDigit with
    | '[' :: name =>
      let digits := (r.takeWhile Char.isDigit).reverse
      if digits.isEmpty || numberBound ≤ numeral digits then none
      else some (name.reverse, numeral digits)
    | _ => none
  | _ => none

/-- A descriptor that does not end in an index is a name as a whole and stands for the first
argument. -/
def parse : Text → Source
  | [] => .any
  | '#' :: type => .builtin type
  | name =>
    match indexSuffix? name with
    | some (predicate, index) => .argument predicate index
    | none => .argument name 0

def text : Source → Text
  | .any => []
  | .builtin type => '#' :: type
  | .argument predicate index => predicate ++ '[' :: decimal index ++ [']']

def isAny : Source → Bool
  | .any => true
  | _ => false

end Source
end FactForm
