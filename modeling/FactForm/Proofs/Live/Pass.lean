import FactForm.Proofs.Entity.FullMatch
import FactForm.Proofs.Live.Target
import FactForm.Proofs.Template.Touching
import Mathlib.Data.List.Sort

/-!
# FactForm.Proofs.Live.Pass

The plain reader of a template: it takes the parts one after the other, a fixed text verbatim and a
slot by the longest value where it stands, and stops at the first part that fails. What it has read so
far is itself a scan. On a separated template it ends at the scan that searches all the readings, and
it reads the same values from a text as the full match.

* `longestValue?` — the longest value at the front of a text, by trying all lengths.
* `Scan.step`, `Scan.pass`, `Template.pass` — reading one part, some parts, and a template.
* `Scan.pass_eq_continued` — the pass ends where the scan of the parts ends.
* `Template.scan_eq_pass` — the scan and the values of a separated template, by the pass.
-/

namespace FactForm

/-- The longest value at the front of a text. -/
def longestValue? (s : Text) : Option Text :=
  ((countdown s.length).find? fun n => isValue (s.take n)).map s.take

/-- Reads one part where the scan stands, a slot by the longest value. -/
def Scan.step (scan : Scan) : Part → Option Scan
  | .fixed text => (Text.after? text scan.tail).map fun rest =>
      { scan with
        matched := scan.matched + 1
        consumed := scan.consumed ++ text
        tail := rest }
  | .slot p => (longestValue? scan.tail).map fun v =>
      { scan with
        matched := scan.matched + 1
        consumed := scan.consumed ++ v
        tail := scan.tail.drop v.length
        slots := scan.slots ++ [⟨scan.matched, p, scan.consumed, v, scan.tail.drop v.length⟩] }

/-- Reads parts from left to right up to the first that fails. -/
def Scan.pass (scan : Scan) : List Part → Scan
  | [] => scan
  | part :: parts =>
    match scan.step part with
    | some next => next.pass parts
    | none => scan

def Template.pass (t : Template) (input : Text) : Scan :=
  Scan.pass { template := t, matched := 0, consumed := [], tail := input, slots := [] } t.parts

/-! ## The longest value -/

theorem valueLengths_eq_filter (s : Text) :
    valueLengths s = (countdown s.length).filter fun n => isValue (s.take n) := by
  have hfilter := (countdown_descending s.length).filter fun n => isValue (s.take n)
  refine (valueLengths_descending s).eq_of_mem_iff hfilter fun n => ?_
  rw [mem_valueLengths_iff, List.mem_filter, mem_countdown]
  constructor
  · rintro ⟨hle, hv⟩
    have hpos : 0 < n := by
      rw [Nat.pos_iff_ne_zero]
      rintro rfl
      cases hv
    exact ⟨⟨hpos, hle⟩, hv⟩
  · rintro ⟨⟨_, hle⟩, hv⟩
    exact ⟨hle, hv⟩

/-- The longest value is the one that is read character by character. -/
theorem longestValue?_eq (s : Text) : longestValue? s = (readValue s).map Prod.fst := by
  rw [longestValue?, ← List.head?_filter, ← valueLengths_eq_filter]
  cases hread : readValue s with
  | none => simp [valueLengths, hread]
  | some q =>
    obtain ⟨v, r⟩ := q
    obtain ⟨shorter, hlengths, _⟩ := valueLengths_eq_cons hread
    have htake : s.take v.length = v := by rw [readValue_append hread, List.take_left]
    rw [hlengths, List.head?_cons, Option.map_some, Option.map_some, htake]

/-! ## One step -/

variable {scan : Scan} {done parts : List Part} {before text s v r : Text} {p : Placeholder}

theorem Scan.step_slot_some (h : readValue scan.tail = some (v, r)) :
    scan.step (.slot p) =
      some { scan with
        matched := scan.matched + 1, consumed := scan.consumed ++ v, tail := r,
        slots := scan.slots ++ [⟨scan.matched, p, scan.consumed, v, r⟩] } := by
  have hdrop : scan.tail.drop v.length = r := by rw [readValue_append h, List.drop_left]
  rw [step, longestValue?_eq, h, Option.map_some, Option.map_some, hdrop]

theorem Scan.step_slot_none (h : readValue scan.tail = none) : scan.step (.slot p) = none := by
  rw [step, longestValue?_eq, h, Option.map_none, Option.map_none]

theorem Scan.pass_of_step_some {part : Part} {next : Scan} (h : scan.step part = some next) :
    scan.pass (part :: parts) = next.pass parts := by
  simp only [pass, h]

theorem Scan.pass_of_step_none {part : Part} (h : scan.step part = none) :
    scan.pass (part :: parts) = scan := by
  simp only [pass, h]

/-! ## The whole pass -/

/-- The scan has read `done`, and `parts` come next. -/
structure Scan.Awaits (scan : Scan) (done parts : List Part) : Prop where
  template : scan.template = ⟨done ++ parts⟩
  matched : scan.matched = done.length

/-- A scan of the parts behind `done`, with what was read before. -/
def Scan.continued (scan : Scan) (done parts : List Part) : Scan :=
  { restScan done parts scan.consumed scan.tail with
    slots := scan.slots ++ (restScan done parts scan.consumed scan.tail).slots }

theorem Scan.Awaits.step {part : Part} {next : Scan} (h : scan.Awaits done (part :: parts))
    (hstep : scan.step part = some next) : next.Awaits (done ++ [part]) parts := by
  have htemplate : scan.template = ⟨(done ++ [part]) ++ parts⟩ := by rw [h.template, List.append_cons]
  have hmatched : scan.matched + 1 = (done ++ [part]).length := by
    rw [h.matched, List.length_append, List.length_singleton]
  cases part with
  | fixed text =>
    obtain ⟨r, _, rfl⟩ := Option.map_eq_some_iff.1 hstep
    exact ⟨htemplate, hmatched⟩
  | slot p =>
    obtain ⟨v, _, rfl⟩ := Option.map_eq_some_iff.1 hstep
    exact ⟨htemplate, hmatched⟩

theorem Scan.continued_unread (h : scan.Awaits done parts)
    (hwalk : walk parts scan.tail = (0, ⟨[], scan.tail⟩)) : scan.continued done parts = scan := by
  rw [continued, restScan_unread hwalk, ← h.template, ← h.matched, List.append_nil]

theorem Scan.continued_step {part : Part} {next : Scan} (h : scan.Awaits done (part :: parts))
    (hstep : scan.step part = some next) :
    next.continued (done ++ [part]) parts = scan.continued done (part :: parts) := by
  cases part with
  | fixed text =>
    obtain ⟨r, hr, rfl⟩ := Option.map_eq_some_iff.1 hstep
    rw [continued, continued, restScan_fixed hr]
  | slot p =>
    cases hread : readValue scan.tail with
    | none => rw [step_slot_none hread] at hstep; cases hstep
    | some q =>
      obtain ⟨v, r⟩ := q
      rw [step_slot_some hread] at hstep
      cases hstep
      simp only [continued, restScan_slot hread, h.matched, List.append_assoc, List.singleton_append]

theorem walk_of_step_none {part : Part} (h : scan.step part = none) :
    walk (part :: parts) scan.tail = (0, ⟨[], scan.tail⟩) := by
  cases part with
  | fixed text => exact walk_fixed_none (Option.map_eq_none_iff.1 h)
  | slot p =>
    cases hread : readValue scan.tail with
    | none => exact walk_slot_none hread
    | some q =>
      rw [Scan.step_slot_some hread] at h
      cases h

/-- The pass ends where the scan of the parts ends. The induction is on the parts; each step moves one
of them to those that are read. -/
theorem Scan.pass_eq_continued (h : scan.Awaits done parts) :
    scan.pass parts = scan.continued done parts := by
  induction parts generalizing scan done with
  | nil => exact (continued_unread h rfl).symm
  | cons part parts ih =>
    cases hstep : scan.step part with
    | none =>
      rw [pass_of_step_none hstep]
      exact (continued_unread h (walk_of_step_none hstep)).symm
    | some next =>
      rw [pass_of_step_some hstep, ih (h.step hstep)]
      exact continued_step h hstep

namespace Template

variable {t : Template} {input : Text}

theorem scan_eq_pass_of_isSeparated (h : t.isSeparated = true) (input : Text) :
    t.scan input = t.pass input := by
  have hstart : Scan.Awaits ⟨t, 0, [], input, []⟩ [] t.parts := ⟨rfl, rfl⟩
  rw [scan_eq_restScan h, pass, Scan.pass_eq_continued hstart]
  rfl

theorem exists_spells_iff_of_isSeparated (h : t.isSeparated = true) :
    (∃ values, Spells t.parts values input) ↔
      (t.scan input).isComplete = true ∧ (t.scan input).tail = [] := by
  constructor
  · rintro ⟨values, hs⟩
    have hwalk := walk_of_spells h hs
    refine ⟨isComplete_of_spells hs, ?_⟩
    rw [scan_eq_walk h, hwalk]
  · rintro ⟨hc, htail⟩
    obtain ⟨r, hr, _⟩ := readWhole_of_isComplete hc htail
    exact ⟨r.values, spells_of_readWhole hr⟩

/-- A text compiles to a separated template if no markers touch in it. The scan of a separated template
is the pass over its parts; the full match fails unless the pass takes all parts and the whole input,
and otherwise it has the values of the pass. -/
theorem scan_eq_pass (t : Template) :
    (∀ library s labelOf sourceOf, compile library s labelOf sourceOf = .ok t →
      (t.isSeparated = true ↔ ¬ MarkersTouch s)) ∧
    (t.isSeparated = true → ∀ input,
      t.scan input = t.pass input ∧
      (t.valuesOf input = .error (.unmatched input t.shape) ↔
        ¬ ((t.pass input).isComplete = true ∧ (t.pass input).tail = [])) ∧
      ((t.pass input).isComplete = true → (t.pass input).tail = [] →
        t.Takes input ((t.pass input).slots.map fun m => (m.placeholder.id, m.value)))) := by
  refine ⟨fun library s labelOf sourceOf => isSeparated_iff, fun hsep input => ?_⟩
  have hpass := scan_eq_pass_of_isSeparated hsep input
  refine ⟨hpass, ?_, ?_⟩
  · rw [← hpass, ← exists_spells_iff_of_isSeparated hsep, not_exists]
    exact valuesOf_eq_unmatched_iff
  · rw [← hpass]
    intro hc htail
    obtain ⟨r, hr, hslots⟩ := readWhole_of_isComplete hc htail
    rw [hslots]
    exact takes_of_readWhole hr

/-- `::x-::y`, two values and a hyphen between them. -/
def hyphenated : Template :=
  ⟨[.slot ⟨['x'], ['x'], .any⟩, .fixed ['-'], .slot ⟨['y'], ['y'], .any⟩]⟩

theorem hyphenated_compile : unconstrained .unlimited "::x-::y".toList = .ok hyphenated := by
  have hcan : hyphenated.IsCanonical := by
    refine isCanonical_marker_cons.2 ⟨by decide, by decide, isCanonical_literal_cons.2
      ⟨by decide, ?_, by simp [Part.segment], isCanonical_marker_cons.2
        ⟨by decide, by decide, isCanonical_nil⟩⟩⟩
    intro id
    simp [hasMarker_cons_iff, not_hasMarker_nil, readMarker]
  refine compile_eq_ok_iff.2
    ⟨by decide, hcan, fun p hp => ?_, PatternLibrary.accepts_unlimited _⟩
  have hp : p = ⟨['x'], ['x'], .any⟩ ∨ p = ⟨['y'], ['y'], .any⟩ := by
    simpa [placeholders, hyphenated, Part.placeholder?, eq_comm] using hp
  rcases hp with rfl | rfl <;> exact ⟨rfl, [], rfl, rfl⟩

/-- The number behind the hyphen ends after its zero, so the pass leaves the seven. -/
theorem hyphenated_pass :
    ¬ MarkersTouch "::x-::y".toList ∧
    (hyphenated.scan "ab-07".toList).slots.map (·.value) = ["ab".toList, ['0']] ∧
    hyphenated.valuesOf "ab-07".toList = .error (.unmatched "ab-07".toList hyphenated.shape) ∧
    hyphenated.Takes "ab-7".toList [(['x'], "ab".toList), (['y'], ['7'])] := by
  have hsep : hyphenated.isSeparated = true := by decide
  obtain ⟨htouch, hpass⟩ := scan_eq_pass hyphenated
  obtain ⟨hscan, hunmatched, _⟩ := hpass hsep "ab-07".toList
  refine ⟨(htouch _ _ _ _ hyphenated_compile).1 hsep, ?_, hunmatched.2 (by decide), ?_⟩
  · rw [hscan]
    decide
  · exact (hpass hsep "ab-7".toList).2.2 (by decide) (by decide)

/-- Without a boundary behind the slot the scan goes back for the last part, and the pass does not. -/
example :
    ((Template.mk [.slot ⟨['a'], ['a'], .any⟩, .fixed ['x']]).scan "yxx".toList).matched = 2 ∧
    ((Template.mk [.slot ⟨['a'], ['a'], .any⟩, .fixed ['x']]).pass "yxx".toList).matched = 1 := by
  decide

end Template

end FactForm
