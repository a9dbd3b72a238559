import FactForm.Proofs.Template.Spelling
import FactForm.Template.Scan

/-!
# FactForm.Proofs.Template.Walk

Separated templates, which are read without going back. In a separated template every slot but the
last part is followed by a fixed text that begins with a character which no identifier and no
number contains, so a value can end in one place only.

* `walk` — one pass over the parts, each slot taking the longest value at its place.
* `longestRun_eq_walk` — on separated parts the longest run is where the pass stops.
* `Template.scan_eq_walk` — so the scan of a separated template is one pass.
* `walk_of_spells` — the pass finds the values of every text that spells the parts.
-/

namespace FactForm

/-- Whether parts can stand directly behind a slot of a separated template. -/
def closesSlot : List Part → Bool
  | [] => true
  | .fixed (c :: _) :: _ => !isWordChar c
  | _ => false

/-- Every slot that is not the last part is followed by a fixed text that begins with a character
other than a letter, a digit or an underscore. -/
def separated : List Part → Bool
  | [] => true
  | .fixed _ :: parts => separated parts
  | .slot _ :: parts => closesSlot parts && separated parts

def Template.isSeparated (t : Template) : Bool := separated t.parts

/-- One pass over the parts: a fixed text verbatim, a slot by the longest value, up to the first
part that fails. The number of parts comes with their reading. -/
def walk : List Part → Text → Nat × Reading
  | [], s => (0, ⟨[], s⟩)
  | .fixed text :: parts, s =>
    match Text.after? text s with
    | some r => ((walk parts r).1 + 1, (walk parts r).2)
    | none => (0, ⟨[], s⟩)
  | .slot _ :: parts, s =>
    match readValue s with
    | some (v, r) => ((walk parts r).1 + 1, (walk parts r).2.cons v)
    | none => (0, ⟨[], s⟩)

section Equations

variable {text s r v : Text} {p : Placeholder} {parts : List Part}

theorem walk_fixed_some (h : Text.after? text s = some r) :
    walk (.fixed text :: parts) s = ((walk parts r).1 + 1, (walk parts r).2) := by
  simp only [walk, h]

theorem walk_fixed_none (h : Text.after? text s = none) :
    walk (.fixed text :: parts) s = (0, ⟨[], s⟩) := by
  simp only [walk, h]

theorem walk_slot_some (h : readValue s = some (v, r)) :
    walk (.slot p :: parts) s = ((walk parts r).1 + 1, (walk parts r).2.cons v) := by
  simp only [walk, h]

theorem walk_slot_none (h : readValue s = none) :
    walk (.slot p :: parts) s = (0, ⟨[], s⟩) := by
  simp only [walk, h]

end Equations

theorem separated_slot {p : Placeholder} {parts : List Part} :
    separated (.slot p :: parts) = true ↔ closesSlot parts = true ∧ separated parts = true := by
  simp [separated]

theorem closesSlot_take {parts : List Part} (h : closesSlot parts = true) (k : Nat) :
    closesSlot (parts.take k) = true := by
  cases k with
  | zero => rfl
  | succ k =>
    unfold closesSlot at h
    split at h
    · rfl
    · simpa [closesSlot] using h
    · cases h

theorem separated_take {parts : List Part} (h : separated parts = true) (k : Nat) :
    separated (parts.take k) = true := by
  induction parts generalizing k with
  | nil => simpa using h
  | cons part parts ih =>
    cases k with
    | zero => rfl
    | succ k =>
      rw [List.take_succ_cons]
      cases part with
      | fixed text => exact ih h k
      | slot p =>
        obtain ⟨hc, hs⟩ := separated_slot.1 h
        exact separated_slot.2 ⟨closesSlot_take hc k, ih hs k⟩

theorem isBoundary_of_spells {parts : List Part} {values : List Text} {s : Text}
    (h : Spells parts values s) (hc : closesSlot parts = true) : isBoundary s = true := by
  unfold closesSlot at hc
  split at hc
  · cases h; rfl
  · obtain ⟨t, rfl, _⟩ := h.fixed_inv
    exact hc
  · cases hc

/-! ## The first reading of separated parts -/

theorem readings_of_not_isBoundary {parts : List Part} {s : Text} (hc : closesSlot parts = true)
    (hne : parts ≠ []) (hs : isBoundary s = false) : readings parts s = [] := by
  rw [List.eq_nil_iff_forall_not_mem]
  intro r hr
  obtain ⟨t, ht, rfl⟩ := mem_readings_iff.1 hr
  have hb := isBoundary_of_spells ht hc
  cases t with
  | nil =>
    unfold closesSlot at hc
    split at hc
    · exact hne rfl
    · obtain ⟨u, hu, _⟩ := ht.fixed_inv
      cases hu
    · cases hc
  | cons c t =>
    rw [List.cons_append, isBoundary] at hs
    rw [isBoundary, hs] at hb
    cases hb

/-- No shorter value of the slot comes into question, since the text behind it would begin with a
word character. -/
theorem head?_readings_slot {p : Placeholder} {parts : List Part} (hc : closesSlot parts = true)
    (s : Text) :
    (readings (.slot p :: parts) s).head? =
      (readValue s).bind fun q => (readings parts q.2).head?.map (Reading.cons q.1) := by
  cases h : readValue s with
  | none => simp [readings, valueLengths, h]
  | some q =>
    obtain ⟨v, r⟩ := q
    obtain ⟨shorter, hl, hshort⟩ := valueLengths_eq_cons h
    have hs := readValue_append h
    simp only [readings, hl, List.flatMap_cons, Option.bind_some]
    have htake : s.take v.length = v := by rw [hs, List.take_left]
    have hdrop : s.drop v.length = r := by rw [hs, List.drop_left]
    rw [htake, hdrop]
    cases hr : readings parts r with
    | cons q l => simp
    | nil =>
      have hne : parts ≠ [] := by
        rintro rfl
        cases hr
      rw [List.map_nil, List.nil_append, List.head?_nil, Option.map_none, List.head?_eq_none_iff,
        List.flatMap_eq_nil_iff]
      intro n hn
      rw [readings_of_not_isBoundary hc hne (hshort n hn), List.map_nil]

theorem head?_readings {parts : List Part} (h : separated parts = true) (s : Text) :
    (readings parts s).head? =
      if (walk parts s).1 = parts.length then some (walk parts s).2 else none := by
  induction parts generalizing s with
  | nil => rfl
  | cons part parts ih =>
    cases part with
    | fixed text =>
      cases ha : Text.after? text s with
      | none => simp [readings, walk_fixed_none ha, ha]
      | some r => simp [readings, walk_fixed_some ha, ha, ih h]
    | slot p =>
      obtain ⟨hc, hs⟩ := separated_slot.1 h
      rw [head?_readings_slot hc]
      cases hv : readValue s with
      | none => simp [walk_slot_none hv]
      | some q =>
        rw [walk_slot_some hv, Option.bind_some, ih hs, List.length_cons]
        by_cases he : (walk parts q.2).1 = parts.length <;> simp [he]

/-! ## The pass and the longest run -/

theorem walk_le_length (parts : List Part) (s : Text) : (walk parts s).1 ≤ parts.length := by
  induction parts generalizing s with
  | nil => exact Nat.le_refl 0
  | cons part parts ih =>
    cases part with
    | fixed text =>
      cases ha : Text.after? text s with
      | none => rw [walk_fixed_none ha]; exact Nat.zero_le _
      | some r => rw [walk_fixed_some ha]; exact Nat.succ_le_succ (ih r)
    | slot p =>
      cases hv : readValue s with
      | none => rw [walk_slot_none hv]; exact Nat.zero_le _
      | some q => rw [walk_slot_some hv]; exact Nat.succ_le_succ (ih q.2)

theorem walk_take {parts : List Part} {s : Text} {k : Nat} (h : (walk parts s).1 ≤ k) :
    walk (parts.take k) s = walk parts s := by
  induction parts generalizing s k with
  | nil => simp
  | cons part parts ih =>
    cases part with
    | fixed text =>
      cases ha : Text.after? text s with
      | none => cases k <;> simp [walk, ha]
      | some r =>
        rw [walk_fixed_some ha] at h ⊢
        obtain ⟨k, rfl⟩ : ∃ j, k = j + 1 := ⟨k - 1, by simp only at h; omega⟩
        rw [List.take_succ_cons, walk_fixed_some ha, ih (Nat.le_of_succ_le_succ h)]
    | slot p =>
      cases hv : readValue s with
      | none => cases k <;> simp [walk, hv]
      | some q =>
        rw [walk_slot_some hv] at h ⊢
        obtain ⟨k, rfl⟩ : ∃ j, k = j + 1 := ⟨k - 1, by simp only at h; omega⟩
        rw [List.take_succ_cons, walk_slot_some hv, ih (Nat.le_of_succ_le_succ h)]

theorem readFront_take {parts : List Part} (h : separated parts = true) {s : Text} {k : Nat}
    (hw : (walk parts s).1 ≤ k) (hk : k ≤ parts.length) :
    readFront (parts.take k) s =
      if (walk parts s).1 = k then some (walk parts s).2 else none := by
  rw [readFront_eq_head, head?_readings (separated_take h k), walk_take hw, List.length_take,
    Nat.min_eq_left hk]

theorem longestRun_of_le {parts : List Part} (h : separated parts = true) {s : Text} {k : Nat}
    (hw : (walk parts s).1 ≤ k) (hk : k ≤ parts.length) :
    longestRun parts s k = walk parts s := by
  induction k with
  | zero =>
    have ht := walk_take hw
    rw [List.take_zero] at ht
    rw [← ht]
    rfl
  | succ k ih =>
    rw [longestRun, readFront_take h hw hk]
    by_cases he : (walk parts s).1 = k + 1
    · rw [if_pos he, ← he]
    · rw [if_neg he]
      exact ih (by omega) (by omega)

theorem longestRun_eq_walk {parts : List Part} (h : separated parts = true) (s : Text) :
    longestRun parts s parts.length = walk parts s :=
  longestRun_of_le h (walk_le_length parts s) (Nat.le_refl _)

theorem Template.scan_eq_walk {t : Template} (h : t.isSeparated = true) (input : Text) :
    t.scan input =
      { template := t
        matched := (walk t.parts input).1
        consumed := Text.consumed input (walk t.parts input).2.rest
        tail := (walk t.parts input).2.rest
        slots := layout 0 (t.parts.take (walk t.parts input).1) (walk t.parts input).2.values []
          input } := by
  rw [Template.scan, longestRun_eq_walk h]

/-! ## Texts that follow the parts to the end -/

theorem walk_fixed_append (text : Text) (parts : List Part) (s : Text) :
    walk (.fixed text :: parts) (text ++ s) = ((walk parts s).1 + 1, (walk parts s).2) :=
  walk_fixed_some (Text.after?_eq_some_iff.2 rfl)

theorem walk_slot_append {p : Placeholder} {parts : List Part} {v s : Text}
    (hv : isValue v = true) (hs : isBoundary s = true) :
    walk (.slot p :: parts) (v ++ s) = ((walk parts s).1 + 1, (walk parts s).2.cons v) :=
  walk_slot_some (readValue_append_boundary hv hs)

theorem walk_of_spells {parts : List Part} (h : separated parts = true) {values : List Text}
    {s : Text} (hs : Spells parts values s) : walk parts s = (parts.length, ⟨values, []⟩) := by
  induction hs with
  | nil => rfl
  | fixed _ ih => rw [walk_fixed_append, ih h, List.length_cons]
  | slot hv hs ih =>
    obtain ⟨hc, hsep⟩ := separated_slot.1 h
    rw [walk_slot_append hv (isBoundary_of_spells hs hc), ih hsep, List.length_cons, Reading.cons]

theorem readWhole_of_spells {parts : List Part} (h : separated parts = true)
    {values : List Text} {s : Text} (hs : Spells parts values s) :
    readWhole parts s = some ⟨values, []⟩ := by
  refine readWhole_of_readFront ?_ rfl
  rw [readFront_eq_head, head?_readings h, walk_of_spells h hs, if_pos rfl]

end FactForm
