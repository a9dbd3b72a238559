import FactForm.Live.Status

/-!
# FactForm.Live.Suggestion

What may be typed next.

* `Scan.target?`        — the slot to be completed, and the text in front of it.
* `Template.suggest`    — the input completed by each candidate of that slot.
* `Template.suggestFor` — the same without the input itself and without excluded suggestions.
* `Template.prompt`     — the input followed by what the template still expects.

The slot to be completed is the one whose value ends the input, or else the first one after the
part that was read, over at most one fixed text.
-/

namespace FactForm

/-- A slot to be completed: what stands in front of it, what is typed of its value, and the parts
after it. -/
structure Target where
  head : Text
  placeholder : Placeholder
  typed : Text
  following : List Part
  deriving DecidableEq

namespace Scan

/-- The value that is still being typed: the last part read is its slot, and it ends the input. -/
def typedSlot? (scan : Scan) : Option SlotMatch :=
  scan.slots.getLast?.filter fun m => m.index + 1 == scan.matched && m.endsInput

def target? (scan : Scan) : Option Target :=
  match scan.typedSlot? with
  | some m => some ⟨m.before, m.placeholder, m.value, scan.openParts⟩
  | none =>
    match scan.openParts with
    | .slot p :: rest => some ⟨scan.consumed, p, scan.tail, rest⟩
    | .fixed text :: .slot p :: rest => some ⟨scan.consumed ++ text, p, [], rest⟩
    | _ => none

/-- The completed texts. A slot without a source has no candidates. -/
def suggestions (scan : Scan) (facts : List Atom) : List Text :=
  if scan.status facts = .invalid then []
  else
    match scan.target? with
    | none => []
    | some target =>
      (candidatesIn facts target.placeholder.source target.typed).map fun v =>
        target.head ++ v ++ shownText target.following

/-- What is missing of the fixed text that the tail begins, and the parts after it. -/
def remainder (scan : Scan) : Text :=
  match scan.openParts with
  | .fixed text :: rest => text.drop scan.tail.length ++ shownText rest
  | parts => shownText parts

end Scan

structure Suggestions where
  items : List Text
  /-- The input is itself one of the suggestions. -/
  matchesInput : Bool
  deriving DecidableEq

namespace Template

variable {σ : Type} [FactPool σ]

def suggest (t : Template) (pool : σ) (input : Text) : List Text :=
  (t.scan input).suggestions (FactPool.facts pool).toList

def suggestFor (t : Template) (pool : σ) (excluded : List Text) (input : Text) : Suggestions :=
  let found := t.suggest pool input
  { items := found.filter fun item => item ≠ input && !excluded.contains item
    matchesInput := found.contains input }

/-- Open slots are shown by their labels. Nothing is shown for invalid input. -/
def prompt (t : Template) (pool : σ) (input : Text) : Text :=
  if t.status pool input = .invalid then [] else input ++ (t.scan input).remainder

end Template
end FactForm
