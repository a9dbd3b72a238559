import FactForm.Pattern
import FactForm.Source
import FactForm.Value

/-!
# FactForm.Template

Templates: fixed text with slots for values.

* `Part`, `Template`  — a template is a sequence of fixed texts and slots.
* `Template.shape`    — the template as a person reads it, each slot shown by its label.
* `segments`          — a template text cut at its `::identifier` markers.
* `Template.ofParts`  — the template of parts, if the library compiles their patterns.
* `Template.compile`  — the template of a text, with a label and a source for each marker.
-/

namespace FactForm

/-- What a slot asks for: a value named `id`, shown as `label` while it is open, drawn from
`source`. -/
structure Placeholder where
  id : Text
  label : Text
  source : Source
  deriving DecidableEq

inductive Part where
  | fixed (text : Text)
  | slot (placeholder : Placeholder)
  deriving DecidableEq

namespace Part

/-- A fixed text itself, a slot's label. -/
def shown : Part → Text
  | .fixed text => text
  | .slot p => p.label

def placeholder? : Part → Option Placeholder
  | .fixed _ => none
  | .slot p => some p

def pattern : Part → Pattern
  | .fixed text => .literal text
  | .slot _ => .value

end Part

def Pattern.ofParts (parts : List Part) : Pattern :=
  parts.foldr (fun part p => .seq part.pattern p) .empty

structure Template where
  parts : List Part
  deriving DecidableEq

def shownText (parts : List Part) : Text := parts.flatMap Part.shown

namespace Template

def placeholders (t : Template) : List Placeholder := t.parts.filterMap Part.placeholder?

/-- The ids of the slots from left to right, repeated if a slot is. -/
def ids (t : Template) : List Text := t.placeholders.map (·.id)

def shape (t : Template) : Text := shownText t.parts

end Template

/-! ## Template texts -/

inductive Segment where
  | literal (text : Text)
  | marker (id : Text)
  deriving DecidableEq

def readMarker : Text → Option (Text × Text)
  | ':' :: ':' :: r => readIdentifier r
  | _ => none

theorem readMarker_length_lt {s id rest : Text} (h : readMarker s = some (id, rest)) :
    rest.length < s.length := by
  unfold readMarker at h
  split at h
  · have := congrArg List.length (readIdentifier_append h)
    simp only [List.length_cons, List.length_append] at this ⊢
    omega
  · cases h

/-- Puts a character in front of a cut text, joining it to a literal that comes first. -/
def consLiteral (c : Char) : List Segment → List Segment
  | .literal text :: rest => .literal (c :: text) :: rest
  | rest => .literal [c] :: rest

/-- A template text cut at its markers; what lies between two markers is one literal. -/
def segments (s : Text) : List Segment :=
  match s with
  | [] => []
  | c :: r =>
    match _h : readMarker (c :: r) with
    | some (id, rest) => .marker id :: segments rest
    | none => consLiteral c (segments r)
termination_by s.length
decreasing_by
  · exact readMarker_length_lt _h
  · simp

inductive TemplateError where
  | unknownPlaceholder (id : Text)
  | mismatchedPlaceholders (display atom : List Text)
  | pattern (message : Text)
  deriving DecidableEq

def TemplateError.message : TemplateError → Text
  | .unknownPlaceholder id => "no definition for placeholder \"".toList ++ id ++ ['"']
  | .mismatchedPlaceholders display atom =>
    "display and atom templates declare different placeholders: ".toList ++
      Text.quotedList display ++ " vs ".toList ++ Text.quotedList atom
  | .pattern message => "template pattern failed to compile: ".toList ++ message

namespace Template

def partOf (labelOf sourceOf : Text → Option Text) : Segment → Except TemplateError Part
  | .literal text => .ok (.fixed text)
  | .marker id =>
    match labelOf id, sourceOf id with
    | some label, some source => .ok (.slot ⟨id, label, Source.parse source⟩)
    | _, _ => .error (.unknownPlaceholder id)

def partsOf (labelOf sourceOf : Text → Option Text) :
    List Segment → Except TemplateError (List Part)
  | [] => .ok []
  | segment :: rest =>
    match partOf labelOf sourceOf segment with
    | .error e => .error e
    | .ok part =>
      match partsOf labelOf sourceOf rest with
      | .error e => .error e
      | .ok parts => .ok (part :: parts)

/-- The patterns by which parts are searched: those of each front of the parts, and that of all parts
for a whole text. -/
def patterns (parts : List Part) : List Text :=
  ['^'] :: (List.range parts.length).map (fun n => (Pattern.ofParts (parts.take (n + 1))).atFront) ++
    [(Pattern.ofParts parts).whole]

/-- The first pattern that the library refuses is an error. -/
def ofParts (library : PatternLibrary) (parts : List Part) : Except TemplateError Template :=
  match (patterns parts).findSome? library.refusal? with
  | some message => .error (.pattern message)
  | none => .ok ⟨parts⟩

/-- The template of a text. The first marker without a label or a source is an error. -/
def compile (library : PatternLibrary) (text : Text) (labelOf sourceOf : Text → Option Text) :
    Except TemplateError Template :=
  match partsOf labelOf sourceOf (segments text) with
  | .error e => .error e
  | .ok parts => ofParts library parts

/-- Every slot is labelled by its id and takes any value. -/
def unconstrained (library : PatternLibrary) (text : Text) : Except TemplateError Template :=
  compile library text some fun _ => some []

end Template
end FactForm
