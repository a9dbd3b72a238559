import FactForm.Proofs.Template.Spelling
import FactForm.Template.Scan

/-!
# FactForm.Proofs.Template.Scan

What the scan of a text finds, for any template.

* `readFront_longestRun` — the run of a scan comes with its preferred reading.
* `map_layout` — the slots of a scan are the slots of the run with their values, in order.
* `Template.placeholder_of_mem_slots` — so they are slots of the template.
* `Template.readWhole_of_isComplete` — a complete scan without a tail is the preferred reading of
  the whole text.
-/

namespace FactForm

theorem readFront_longestRun (parts : List Part) (s : Text) (k : Nat) :
    readFront (parts.take (longestRun parts s k).1) s = some (longestRun parts s k).2 := by
  induction k with
  | zero => rw [longestRun, List.take_zero, readFront_eq_head]; rfl
  | succ k ih =>
    cases h : readFront (parts.take (k + 1)) s with
    | none => simpa only [longestRun, h] using ih
    | some r => simp only [longestRun, h]

theorem map_layout (i : Nat) (parts : List Part) (values : List Text) (before s : Text) :
    (layout i parts values before s).map (fun m => (m.placeholder, m.value)) =
      (parts.filterMap Part.placeholder?).zip values := by
  induction parts generalizing i values before s with
  | nil => simp [layout]
  | cons part parts ih =>
    cases part with
    | fixed text => simp [layout, ih]
    | slot p =>
      cases values with
      | nil => simp [layout]
      | cons v values => simp [layout, ih]

namespace Template

variable {t : Template} {input : Text}

theorem readFront_scan (t : Template) (input : Text) :
    ∃ r, readFront (t.scan input).parts input = some r ∧ (t.scan input).tail = r.rest ∧
      (t.scan input).slots = layout 0 (t.scan input).parts r.values [] input :=
  ⟨_, readFront_longestRun t.parts input t.parts.length, rfl, rfl⟩

theorem placeholder_of_mem_slots {m : SlotMatch} (hm : m ∈ (t.scan input).slots) :
    m.placeholder ∈ t.placeholders := by
  obtain ⟨r, _, _, hslots⟩ := readFront_scan t input
  have hmem : (m.placeholder, m.value) ∈
      ((t.scan input).parts.filterMap Part.placeholder?).zip r.values := by
    rw [← map_layout 0 (t.scan input).parts r.values [] input, ← hslots]
    exact List.mem_map_of_mem hm
  have hsub : (t.scan input).parts.Sublist t.parts := List.take_sublist _ _
  exact (hsub.filterMap Part.placeholder?).subset (List.of_mem_zip hmem).1

theorem parts_of_isComplete (h : (t.scan input).isComplete = true) :
    (t.scan input).parts = t.parts := by
  rw [Scan.isComplete, beq_iff_eq] at h
  rw [Scan.parts, h]
  exact List.take_length

theorem readWhole_of_isComplete (hc : (t.scan input).isComplete = true)
    (ht : (t.scan input).tail = []) :
    ∃ r, readWhole t.parts input = some r ∧
      (t.scan input).slots.map (fun m => (m.placeholder.id, m.value)) = t.ids.zip r.values := by
  obtain ⟨r, hr, htail, hslots⟩ := readFront_scan t input
  rw [parts_of_isComplete hc] at hr hslots
  refine ⟨r, readWhole_of_readFront hr (htail ▸ ht), ?_⟩
  rw [ids, placeholders, List.zip_map_left, ← map_layout 0 t.parts r.values [] input, List.map_map,
    hslots]
  rfl

end Template
end FactForm
