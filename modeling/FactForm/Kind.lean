import FactForm.Entity.Codec
import FactForm.Live.Suggestion

/-!
# FactForm.Kind

The configuration of one kind of entity: two template texts, and for each id a label and a source.

* `KindDefinition.withAttribute` — sets the label and the source of an id.
* `Kind.compile`                 — the kind of a definition.

A kind validates, completes and reads input in the form of its display template.
-/

namespace FactForm

structure Attribute where
  id : Text
  label : Text
  /-- Descriptor of the value source. -/
  source : Text
  deriving DecidableEq

structure KindDefinition where
  display : Text
  atom : Text
  attributes : List Attribute
  deriving DecidableEq

namespace KindDefinition

def ofTemplates (display atom : Text) : KindDefinition := ⟨display, atom, []⟩

/-- An attribute with the same id is replaced, and the new one comes last. -/
def withAttribute (d : KindDefinition) (a : Attribute) : KindDefinition :=
  { d with attributes := d.attributes.filter (·.id ≠ a.id) ++ [a] }

def withAttributes (d : KindDefinition) (attributes : List Attribute) : KindDefinition :=
  attributes.foldl withAttribute d

def attribute? (d : KindDefinition) (id : Text) : Option Attribute :=
  d.attributes.find? (·.id = id)

def labelOf (d : KindDefinition) (id : Text) : Option Text := (d.attribute? id).map (·.label)

def sourceOf (d : KindDefinition) (id : Text) : Option Text := (d.attribute? id).map (·.source)

end KindDefinition

structure Kind where
  codec : Codec
  deriving DecidableEq

namespace Kind

def compile (library : PatternLibrary) (d : KindDefinition) : Except TemplateError Kind :=
  match Template.compile library d.display d.labelOf d.sourceOf with
  | .error e => .error e
  | .ok display =>
    match Template.compile library d.atom d.labelOf d.sourceOf with
    | .error e => .error e
    | .ok atom =>
      match Codec.ofTemplates display atom with
      | .error e => .error e
      | .ok codec => .ok ⟨codec⟩

variable {σ : Type} [FactPool σ]

def status (k : Kind) (pool : σ) (input : Text) : Status := k.codec.display.status pool input

def suggestFor (k : Kind) (pool : σ) (excluded : List Text) (input : Text) : Suggestions :=
  k.codec.display.suggestFor pool excluded input

def prompt (k : Kind) (pool : σ) (input : Text) : Text := k.codec.display.prompt pool input

def entity (k : Kind) (input : Text) : Except RepresentationError Entity :=
  k.codec.fromDisplayText input

end Kind
end FactForm
