import FactForm.Atom.Reader
import FactForm.Dictionary

/-!
# FactForm.Program

Facts as program text: an atom that stands at the start of a statement and is closed by a period.

* `programFacts`     — the facts of a program text, as they are written there.
* `programText`      — the program that states the given atoms, in the order of their texts.
* `groupByPredicate` — atoms under the names of their predicates.

A statement starts with the text, after a line break or after a period; blanks may follow. A rule
is passed over because neither its head nor its body is followed by a period in that place.
-/

namespace FactForm

/-- The fact at the front of a text, without its period, and the text after the period. -/
def readFact (s : Text) : Option (Text × Text) :=
  match readAtom s with
  | some (_, '.' :: rest) => some (Text.consumed s ('.' :: rest), rest)
  | _ => none

theorem readFact_length_lt {s fact rest : Text} (h : readFact s = some (fact, rest)) :
    rest.length < s.length := by
  unfold readFact at h
  split at h
  · rename_i ha; cases h
    have := readAtom_length_lt ha
    simp only [List.length_cons] at this
    omega
  · cases h

/-- A statement may start after this character. -/
def endsStatement (c : Char) : Bool := c == '.' || c == '\n' || c == '\r'

/-- The facts of the rest of a program; `opened` says that only blanks stand between here and the
last place where a statement may start. -/
def factsFrom (opened : Bool) (s : Text) : List Text :=
  match s with
  | [] => []
  | c :: r =>
    match _h : if opened then readFact (c :: r) else none with
    | some (fact, rest) => fact :: factsFrom true rest
    | none => factsFrom (endsStatement c || (opened && Text.isBlank c)) r
termination_by s.length
decreasing_by
  · split at _h
    · exact readFact_length_lt _h
    · cases _h
  · simp

theorem factsFrom_nil (opened : Bool) : factsFrom opened [] = [] := by rw [factsFrom]

theorem factsFrom_of_readFact {s fact rest : Text} (h : readFact s = some (fact, rest)) :
    factsFrom true s = fact :: factsFrom true rest := by
  cases s with
  | nil => cases h
  | cons c r =>
    rw [factsFrom]
    split
    · rename_i h'
      rw [if_pos rfl, h] at h'
      cases h'
      rfl
    · rename_i h'
      rw [if_pos rfl, h] at h'
      cases h'

theorem factsFrom_skip {opened : Bool} {c : Char} {r : Text}
    (h : opened = true → readFact (c :: r) = none) :
    factsFrom opened (c :: r) = factsFrom (endsStatement c || (opened && Text.isBlank c)) r := by
  rw [factsFrom]
  split
  · rename_i h'
    split at h'
    · rename_i hopened
      rw [h hopened] at h'
      cases h'
    · cases h'
  · rfl

def programFacts (s : Text) : List Text := factsFrom true s

/-! ## Writing -/

def sortTexts (texts : List Text) : List Text := texts.mergeSort fun a b => !Text.before b a

def programText (atoms : List Atom) : Text :=
  (sortTexts (atoms.map Atom.text)).flatMap (· ++ ['.', ' '])

def programLines (groups : List (List Atom)) : List Text := groups.map programText

def groupByPredicate (atoms : List Atom) : Dictionary (List Atom) :=
  atoms.foldl (fun d a => d.set a.predicate ((d.get? a.predicate).getD [] ++ [a])) .empty

end FactForm
