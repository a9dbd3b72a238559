import FactForm.AtomSet
import FactForm.Source

/-!
# FactForm.Source.Candidates

The values that a source offers for what has been typed so far.

* `candidatesIn` — over a list of facts, in the order of the list.
* `candidates`   — over a pool, in the order of its set of facts.

The type `#int` offers the number typed and its extensions by one digit. A predicate offers the
arguments of its facts that begin with what was typed, each once.
-/

namespace FactForm

/-- The number typed, zero if nothing is typed, and the numbers with one more digit. -/
def intCandidates (typed : Text) : List Text :=
  let n := numeral typed
  if typed.all Char.isDigit && n < numberBound then
    let extended := ((List.range 10).map (10 * n + ·)).filter (· < numberBound)
    (n :: extended).eraseDups.map decimal
  else []

/-- The arguments at `index` of the facts about `predicate`. -/
def argumentsAt (facts : List Atom) (predicate : Text) (index : Nat) : List Text :=
  facts.filterMap fun a => if a.predicate = predicate then a.arguments[index]? else none

def candidatesIn (facts : List Atom) : Source → (typed : Text) → List Text
  | .any, _ => []
  | .builtin type, typed => if type = ['i', 'n', 't'] then intCandidates typed else []
  | .argument predicate index, typed =>
    ((argumentsAt facts predicate index).filter (typed.isPrefixOf ·)).eraseDups

def candidates {σ : Type} [FactPool σ] (pool : σ) (source : Source) (typed : Text) : List Text :=
  candidatesIn (FactPool.facts pool).toList source typed

end FactForm
