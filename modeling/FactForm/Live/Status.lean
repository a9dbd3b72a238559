import FactForm.Source.Candidates
import FactForm.Template.Scan

/-!
# FactForm.Live.Status

The state of input that is being typed into a template, against a pool of facts.

* `Status`          — valid, incomplete (more typing can make it valid) or invalid.
* `Scan.status`     — the state of a scanned text.
* `Template.status` — the state of a text.

The text behind the part that was read must be the start of the next fixed text. Then the slots
with a source are checked from left to right, and the first that is not valid decides. A value
that is only the start of a candidate is incomplete if it ends the input.
-/

namespace FactForm

inductive Status where
  | invalid
  | incomplete
  | valid
  deriving DecidableEq

namespace Status

def text : Status → Text
  | .invalid => "INVALID".toList
  | .incomplete => "INCOMPLETE".toList
  | .valid => "VALID".toList

/-- Position in the order invalid, incomplete, valid. -/
def rank : Status → Nat
  | .invalid => 0
  | .incomplete => 1
  | .valid => 2

instance : LE Status := ⟨fun a b => a.rank ≤ b.rank⟩

instance : DecidableLE Status := fun a b => inferInstanceAs (Decidable (a.rank ≤ b.rank))

end Status

def SlotMatch.status (m : SlotMatch) (facts : List Atom) : Status :=
  let offered := candidatesIn facts m.placeholder.source m.value
  if offered.contains m.value then .valid
  else if m.endsInput && offered.any (m.value.isPrefixOf ·) then .incomplete
  else .invalid

namespace Scan

/-- Whether what is left behind the parts that were read is nothing, or a front of the next fixed text.
In front of a slot nothing may be left: a half-typed string is refused there, although its closing
quote would make it a value. -/
def tailFits (scan : Scan) : Bool :=
  scan.tail.isEmpty ||
    match scan.nextPart? with
    | some (.fixed text) => scan.tail.isPrefixOf text
    | _ => false

/-- The values that have a source. -/
def constrained (scan : Scan) : List SlotMatch :=
  scan.slots.filter fun m => !m.placeholder.source.isAny

def status (scan : Scan) (facts : List Atom) : Status :=
  if !scan.tailFits then .invalid
  else
    match (scan.constrained.map (·.status facts)).find? (· ≠ .valid) with
    | some s => s
    | none => if scan.isComplete then .valid else .incomplete

end Scan

def Template.status {σ : Type} [FactPool σ] (t : Template) (pool : σ) (input : Text) : Status :=
  (t.scan input).status (FactPool.facts pool).toList

end FactForm
