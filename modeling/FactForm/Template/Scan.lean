import FactForm.Template.Reading

/-!
# FactForm.Template.Scan

How far a partly typed text follows a template.

* `SlotMatch`     — a value found in a slot, with the text before and after it.
* `Scan`          — the longest run of leading parts that the text can be read by, with the values
                    in its slots and the text behind it.
* `Template.scan` — the scan of a text.

A run of parts is read by its preferred reading. No earlier slot is read anew to let a longer run
match: the run is as long as possible for some reading, and the reading is the preferred one of
that run.
-/

namespace FactForm

structure SlotMatch where
  /-- Position of the slot among the parts of the template. -/
  index : Nat
  placeholder : Placeholder
  before : Text
  value : Text
  after : Text
  deriving DecidableEq

namespace SlotMatch

def start (m : SlotMatch) : Nat := Text.byteSize m.before

def stop (m : SlotMatch) : Nat := m.start + Text.byteSize m.value

def endsInput (m : SlotMatch) : Bool := m.after.isEmpty

end SlotMatch

/-- The slots of `parts` with their values, where `before` stands in front of the text. -/
def layout (index : Nat) : List Part → (values : List Text) → (before s : Text) → List SlotMatch
  | .fixed text :: parts, values, before, s =>
    layout (index + 1) parts values (before ++ text) (s.drop text.length)
  | .slot p :: parts, v :: values, before, s =>
    let rest := s.drop v.length
    ⟨index, p, before, v, rest⟩ :: layout (index + 1) parts values (before ++ v) rest
  | .slot _ :: _, [], _, _ => []
  | [], _, _, _ => []

/-- The longest run of at most `k` leading parts that can be read, and its preferred reading. -/
def longestRun (parts : List Part) (s : Text) : (k : Nat) → Nat × Reading
  | 0 => (0, ⟨[], s⟩)
  | k + 1 =>
    match readFront (parts.take (k + 1)) s with
    | some r => (k + 1, r)
    | none => longestRun parts s k

structure Scan where
  template : Template
  /-- Number of leading parts that were read. -/
  matched : Nat
  consumed : Text
  tail : Text
  slots : List SlotMatch
  deriving DecidableEq

namespace Scan

def parts (scan : Scan) : List Part := scan.template.parts.take scan.matched

def openParts (scan : Scan) : List Part := scan.template.parts.drop scan.matched

def nextPart? (scan : Scan) : Option Part := scan.openParts.head?

def isComplete (scan : Scan) : Bool := scan.matched == scan.template.parts.length

def stop (scan : Scan) : Nat := Text.byteSize scan.consumed

end Scan

namespace Template

def scan (t : Template) (input : Text) : Scan :=
  let run := longestRun t.parts input t.parts.length
  { template := t
    matched := run.1
    consumed := Text.consumed input run.2.rest
    tail := run.2.rest
    slots := layout 0 (t.parts.take run.1) run.2.values [] input }

/-- The longest run of leading parts that the input can be read by. -/
def matchedParts (t : Template) (input : Text) : List Part := (t.scan input).parts

end Template

/-- Offset in bytes of the end of the preferred reading of `parts`, zero if there is none. -/
def readingEnd (parts : List Part) (input : Text) : Nat :=
  match readFront parts input with
  | some r => Text.byteSize (Text.consumed input r.rest)
  | none => 0

end FactForm
