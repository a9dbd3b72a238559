import FactForm.Atom.Reader

/-!
# FactForm.AnswerSets

The output of a solver: a sequence of answer sets, each a list of atoms in braces.

* `bracedTexts`     — the inside of each pair of braces.
* `listedAtoms`     — the atoms found in one listing, as they are written there.
* `readAnswerSets`  — both together, with the atoms parsed.
-/

namespace FactForm

/-- The inside of each pair of braces. A brace opened first is closed by the next closing brace. -/
def bracedTexts : Text → List Text
  | [] => []
  | c :: r =>
    if c = '\x7b' then
      match _h : r.dropWhile (· ≠ '\x7d') with
      | [] => []
      | _ :: rest => r.takeWhile (· ≠ '\x7d') :: bracedTexts rest
    else bracedTexts r
termination_by s => s.length
decreasing_by
  · have := (List.dropWhile_suffix (· ≠ '\x7d') : r.dropWhile (· ≠ '\x7d') <:+ r).length_le
    rw [_h] at this
    simp only [List.length_cons] at this ⊢
    omega
  · simp

/-- Every atom of a text, from left to right, whatever stands between them. -/
def listedAtoms (s : Text) : List Text :=
  match s with
  | [] => []
  | c :: r =>
    match _h : readAtom (c :: r) with
    | some (_, rest) => Text.consumed (c :: r) rest :: listedAtoms rest
    | none => listedAtoms r
termination_by s.length
decreasing_by
  · exact readAtom_length_lt _h
  · simp

structure AnswerSets where
  sets : List (List Atom)
  diagnostics : List MalformedAtom
  /-- The solver printed nothing: the program has no answer set. -/
  noOutput : Bool

def readAnswerSets (output : Text) : AnswerSets :=
  let parsed := (bracedTexts output).map fun s => parseAll (listedAtoms s)
  { sets := parsed.map (·.atoms)
    diagnostics := parsed.flatMap (·.diagnostics)
    noOutput := (Text.trim output).isEmpty }

end FactForm
