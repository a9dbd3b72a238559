import FactForm.Live.Status
import FactForm.Proofs.Source.Candidates
import FactForm.Proofs.Template.Walk

/-!
# FactForm.Proofs.Live.Walk

The status of a text over a separated template, decided in one pass. The scan reads first and judges
afterwards: the tail, then the values from left to right, then whether all parts were read. On a
separated template the same answer is found part by part, since an incomplete value ends the input
and nothing can come behind it.

* `Placeholder.statusOf` — the state of a value, given the text behind it.
* `walkStatus` — the state of a text over parts, found in one pass.
* `Template.status_eq_walkStatus` — it is the status of the text.
* `isBoundary_of_ne_invalid` — a text that is not invalid behind a slot cannot continue the value of
  the slot.
-/

namespace FactForm

/-- The state of a value in a slot, given the text behind it. -/
def Placeholder.statusOf (p : Placeholder) (facts : List Atom) (value after : Text) : Status :=
  if p.source.isAny then .valid else SlotMatch.status ⟨0, p, [], value, after⟩ facts

/-- The state of a text over parts, found in one pass. -/
def walkStatus (facts : List Atom) : List Part → Text → Status
  | [], s => if s.isEmpty then .valid else .invalid
  | .fixed text :: parts, s =>
    match Text.after? text s with
    | some r => walkStatus facts parts r
    | none => if s.isPrefixOf text then .incomplete else .invalid
  | .slot p :: parts, s =>
    match readValue s with
    | some (v, r) =>
      match p.statusOf facts v r with
      | .valid => walkStatus facts parts r
      | .incomplete => .incomplete
      | .invalid => .invalid
    | none => if s.isEmpty then .incomplete else .invalid

variable {facts : List Atom} {p : Placeholder} {v r s text : Text} {parts : List Part}

section Equations

theorem walkStatus_fixed_some (h : Text.after? text s = some r) :
    walkStatus facts (.fixed text :: parts) s = walkStatus facts parts r := by
  simp only [walkStatus, h]

theorem walkStatus_fixed_none (h : Text.after? text s = none) :
    walkStatus facts (.fixed text :: parts) s =
      if s.isPrefixOf text then .incomplete else .invalid := by
  simp only [walkStatus, h]

theorem walkStatus_slot_some (h : readValue s = some (v, r)) :
    walkStatus facts (.slot p :: parts) s =
      match p.statusOf facts v r with
      | .valid => walkStatus facts parts r
      | .incomplete => .incomplete
      | .invalid => .invalid := by
  simp only [walkStatus, h]

theorem walkStatus_slot_none (h : readValue s = none) :
    walkStatus facts (.slot p :: parts) s = if s.isEmpty then .incomplete else .invalid := by
  simp only [walkStatus, h]

end Equations

/-! ## The state of one value -/

theorem statusOf_eq :
    p.statusOf facts v r =
      if p.source.isAny then .valid
      else if (candidatesIn facts p.source v).contains v then .valid
      else if r.isEmpty && (candidatesIn facts p.source v).any (v.isPrefixOf ·) then .incomplete
      else .invalid := rfl

theorem statusOf_eq_valid_iff :
    p.statusOf facts v r = .valid ↔ p.source.Admits facts v := by
  rw [statusOf_eq]
  cases hs : p.source.isAny with
  | true =>
    cases hp : p.source with
    | any => simp [Source.Admits]
    | builtin type => rw [hp] at hs; cases hs
    | argument predicate index => rw [hp] at hs; cases hs
  | false =>
    have hmem : v ∈ candidatesIn facts p.source v ↔ p.source.Admits facts v :=
      ⟨admits_of_mem_candidatesIn, mem_candidatesIn_self hs⟩
    rw [← hmem]
    by_cases hv : v ∈ candidatesIn facts p.source v
    · simp [hv]
    · simp only [Bool.false_eq_true, if_false, List.contains_eq_mem, hv, decide_false, iff_false]
      split <;> simp

theorem statusOf_eq_incomplete (h : p.statusOf facts v r = .incomplete) :
    r = [] ∧ p.source.isAny = false ∧ ¬ p.source.Admits facts v ∧
      ∃ c ∈ candidatesIn facts p.source v, v <+: c := by
  have hn : ¬ p.source.Admits facts v := by
    rw [← statusOf_eq_valid_iff (r := r), h]
    simp
  rw [statusOf_eq] at h
  split at h
  · cases h
  · rename_i hs
    split at h
    · cases h
    · split at h
      · rename_i hend
        rw [Bool.and_eq_true, List.isEmpty_iff, List.any_eq_true] at hend
        obtain ⟨c, hc, hvc⟩ := hend.2
        exact ⟨hend.1, by simpa using hs, hn, c, hc, List.isPrefixOf_iff_prefix.1 hvc⟩
      · cases h

theorem statusOf_ne_invalid {c : Text} (hc : c ∈ candidatesIn facts p.source v) (hv : v <+: c) :
    p.statusOf facts v [] ≠ .invalid := by
  rw [statusOf_eq]
  split
  · simp
  · split
    · simp
    · have hany : (candidatesIn facts p.source v).any (v.isPrefixOf ·) = true :=
        List.any_eq_true.2 ⟨c, hc, List.isPrefixOf_iff_prefix.2 hv⟩
      simp [hany]

/-! ## The status of a scan, slot by slot -/

namespace Scan

theorem status_congr {a b : Scan} (ht : a.tail = b.tail) (ho : a.openParts = b.openParts)
    (hc : a.isComplete = b.isComplete) (hs : a.slots = b.slots) :
    a.status facts = b.status facts := by
  unfold status tailFits nextPart? constrained
  rw [ht, ho, hc, hs]

theorem status_of_tail {scan : Scan} (h : scan.tailFits = false) :
    scan.status facts = .invalid := by
  simp [status, h]

theorem status_of_no_slots {scan : Scan} (hs : scan.slots = []) :
    scan.status facts =
      if scan.tailFits then if scan.isComplete then .valid else .incomplete else .invalid := by
  cases ht : scan.tailFits <;> simp [status, constrained, hs, ht]

theorem status_cons {scan : Scan} {m : SlotMatch} {slots : List SlotMatch}
    (hs : scan.slots = m :: slots) (ht : scan.tailFits = true) :
    scan.status facts =
      match m.placeholder.statusOf facts m.value m.after with
      | .valid => { scan with slots := slots }.status facts
      | .incomplete => .incomplete
      | .invalid => .invalid := by
  have hstatus : m.placeholder.statusOf facts m.value m.after =
      if m.placeholder.source.isAny then .valid else m.status facts := rfl
  have ht' : { scan with slots := slots }.tailFits = true := ht
  simp only [status, ht, ht', constrained, hs, hstatus, Bool.not_true, Bool.false_eq_true, if_false]
  cases hany : m.placeholder.source.isAny with
  | true => simp [hany, isComplete]
  | false => cases hm : m.status facts <;> simp [hany, hm, isComplete]

end Scan

/-! ## The pass and the status of a scan -/

theorem walk_nil_rest (parts : List Part) : (walk parts []).2.rest = [] := by
  induction parts with
  | nil => rfl
  | cons part parts ih =>
    cases part with
    | fixed text =>
      cases ha : Text.after? text [] with
      | none => rw [walk_fixed_none ha]
      | some r =>
        obtain ⟨rfl, rfl⟩ := List.append_eq_nil_iff.1 (Text.after?_eq_some_iff.1 ha).symm
        rw [walk_fixed_some ha, ih]
    | slot p => rw [walk_slot_none rfl]

/-- The scan in which a pass over parts of a template results. -/
def walkScan (index : Nat) (parts : List Part) (before s : Text) : Scan where
  template := ⟨parts⟩
  matched := (walk parts s).1
  consumed := []
  tail := (walk parts s).2.rest
  slots := layout index (parts.take (walk parts s).1) (walk parts s).2.values before s

section Steps

variable {index : Nat} {before : Text}

theorem slots_walkScan_fixed (h : Text.after? text s = some r) :
    (walkScan index (.fixed text :: parts) before s).slots =
      (walkScan (index + 1) parts (before ++ text) r).slots := by
  have hdrop : s.drop text.length = r := by rw [Text.after?_eq_some_iff.1 h, List.drop_left]
  simp [walkScan, layout, walk_fixed_some h, hdrop]

theorem slots_walkScan_slot (h : readValue s = some (v, r)) :
    (walkScan index (.slot p :: parts) before s).slots =
      ⟨index, p, before, v, r⟩ :: (walkScan (index + 1) parts (before ++ v) r).slots := by
  have hdrop : s.drop v.length = r := by rw [readValue_append h, List.drop_left]
  simp [walkScan, walk_slot_some h, Reading.cons, layout, hdrop]

theorem status_walkScan_fixed_some (h : Text.after? text s = some r) :
    (walkScan index (.fixed text :: parts) before s).status facts =
      (walkScan (index + 1) parts (before ++ text) r).status facts := by
  refine Scan.status_congr ?_ ?_ ?_ (slots_walkScan_fixed h)
  · simp [walkScan, walk_fixed_some h]
  · simp [walkScan, Scan.openParts, walk_fixed_some h]
  · simp [walkScan, Scan.isComplete, walk_fixed_some h]

theorem status_walkScan_fixed_none (h : Text.after? text s = none) :
    (walkScan index (.fixed text :: parts) before s).status facts =
      if s.isPrefixOf text then .incomplete else .invalid := by
  have hslots : (walkScan index (.fixed text :: parts) before s).slots = [] := by
    simp [walkScan, walk_fixed_none h, layout]
  have ht : (walkScan index (.fixed text :: parts) before s).tailFits = s.isPrefixOf text := by
    cases s <;>
      simp [walkScan, Scan.tailFits, Scan.nextPart?, Scan.openParts, walk_fixed_none h]
  have hc : (walkScan index (.fixed text :: parts) before s).isComplete = false := by
    simp [walkScan, Scan.isComplete, walk_fixed_none h]
  rw [Scan.status_of_no_slots hslots, ht, hc]
  rfl

theorem status_walkScan_slot_some (h : readValue s = some (v, r)) :
    (walkScan index (.slot p :: parts) before s).status facts =
      match p.statusOf facts v r with
      | .valid => (walkScan (index + 1) parts (before ++ v) r).status facts
      | .incomplete => .incomplete
      | .invalid => .invalid := by
  have hrest : { walkScan index (.slot p :: parts) before s with
        slots := (walkScan (index + 1) parts (before ++ v) r).slots }.status facts =
      (walkScan (index + 1) parts (before ++ v) r).status facts := by
    refine Scan.status_congr ?_ ?_ ?_ rfl
    · simp [walkScan, walk_slot_some h, Reading.cons]
    · simp [walkScan, Scan.openParts, walk_slot_some h]
    · simp [walkScan, Scan.isComplete, walk_slot_some h]
  cases ht : (walkScan index (.slot p :: parts) before s).tailFits with
  | true => rw [Scan.status_cons (slots_walkScan_slot h) ht, hrest]
  | false =>
    have ht' : { walkScan index (.slot p :: parts) before s with
        slots := (walkScan (index + 1) parts (before ++ v) r).slots }.tailFits = false := ht
    rw [Scan.status_of_tail ht, ← hrest, Scan.status_of_tail ht']
    -- An incomplete value ends the input, and then there is no tail.
    cases hp : p.statusOf facts v r with
    | valid => rfl
    | invalid => rfl
    | incomplete =>
      obtain ⟨rfl, _⟩ := statusOf_eq_incomplete hp
      simp [Scan.tailFits, walkScan, walk_slot_some h, Reading.cons, walk_nil_rest] at ht

theorem status_walkScan_slot_none (h : readValue s = none) :
    (walkScan index (.slot p :: parts) before s).status facts =
      if s.isEmpty then .incomplete else .invalid := by
  have hslots : (walkScan index (.slot p :: parts) before s).slots = [] := by
    simp [walkScan, walk_slot_none h, layout]
  have ht : (walkScan index (.slot p :: parts) before s).tailFits = s.isEmpty := by
    simp [walkScan, Scan.tailFits, Scan.nextPart?, Scan.openParts, walk_slot_none h]
  have hc : (walkScan index (.slot p :: parts) before s).isComplete = false := by
    simp [walkScan, Scan.isComplete, walk_slot_none h]
  rw [Scan.status_of_no_slots hslots, ht, hc]
  rfl

end Steps

theorem status_walkScan (facts : List Atom) (parts : List Part) (index : Nat) (before s : Text) :
    (walkScan index parts before s).status facts = walkStatus facts parts s := by
  induction parts generalizing index before s with
  | nil => cases s <;> rfl
  | cons part parts ih =>
    cases part with
    | fixed text =>
      cases ha : Text.after? text s with
      | some r => rw [status_walkScan_fixed_some ha, walkStatus_fixed_some ha, ih]
      | none => rw [status_walkScan_fixed_none ha, walkStatus_fixed_none ha]
    | slot p =>
      cases hv : readValue s with
      | some q => rw [status_walkScan_slot_some hv, walkStatus_slot_some hv, ih]
      | none => rw [status_walkScan_slot_none hv, walkStatus_slot_none hv]

theorem Template.status_eq_walkStatus {σ : Type} [FactPool σ] {t : Template}
    (h : t.isSeparated = true) (pool : σ) (input : Text) :
    t.status pool input = walkStatus (FactPool.facts pool).toList t.parts input := by
  rw [Template.status, Template.scan_eq_walk h, ← status_walkScan _ t.parts 0 [] input]
  exact Scan.status_congr rfl rfl rfl rfl

/-! ## Valid texts, part by part -/

theorem walkStatus_fixed_append (text r : Text) :
    walkStatus facts (.fixed text :: parts) (text ++ r) = walkStatus facts parts r :=
  walkStatus_fixed_some (Text.after?_eq_some_iff.2 rfl)

theorem walkStatus_slot_append (hv : isValue v = true) (ha : p.source.Admits facts v)
    (hr : isBoundary r = true) :
    walkStatus facts (.slot p :: parts) (v ++ r) = walkStatus facts parts r := by
  have hp : p.statusOf facts v r = .valid := statusOf_eq_valid_iff.2 ha
  rw [walkStatus_slot_some (readValue_append_boundary hv hr), hp]

theorem walkStatus_fixed_eq_valid (h : walkStatus facts (.fixed text :: parts) s = .valid) :
    ∃ r, s = text ++ r ∧ Text.after? text s = some r ∧ walkStatus facts parts r = .valid := by
  cases ha : Text.after? text s with
  | none =>
    rw [walkStatus_fixed_none ha] at h
    split at h <;> cases h
  | some r =>
    rw [walkStatus_fixed_some ha] at h
    exact ⟨r, Text.after?_eq_some_iff.1 ha, rfl, h⟩

theorem walkStatus_slot_eq_valid (h : walkStatus facts (.slot p :: parts) s = .valid) :
    ∃ v r, s = v ++ r ∧ readValue s = some (v, r) ∧ p.source.Admits facts v ∧
      walkStatus facts parts r = .valid := by
  cases hv : readValue s with
  | none =>
    rw [walkStatus_slot_none hv] at h
    split at h <;> cases h
  | some q =>
    obtain ⟨v, r⟩ := q
    rw [walkStatus_slot_some hv] at h
    cases hp : p.statusOf facts v r with
    | valid =>
      rw [hp] at h
      exact ⟨v, r, readValue_append hv, rfl, statusOf_eq_valid_iff.1 hp, h⟩
    | incomplete => rw [hp] at h; cases h
    | invalid => rw [hp] at h; cases h

theorem isBoundary_of_ne_invalid (h : walkStatus facts parts s ≠ .invalid)
    (hc : closesSlot parts = true) : isBoundary s = true := by
  cases s with
  | nil => rfl
  | cons d s =>
    unfold closesSlot at hc
    split at hc
    · exact absurd rfl h
    · rename_i c text parts
      -- The text begins the fixed text, whether that is complete or not.
      have hd : d = c := by
        cases ha : Text.after? (c :: text) (d :: s) with
        | some r => exact (List.cons.inj (Text.after?_eq_some_iff.1 ha)).1
        | none =>
          rw [walkStatus_fixed_none ha] at h
          split at h
          · rename_i hpre
            exact (List.cons_prefix_cons.1 (List.isPrefixOf_iff_prefix.1 hpre)).1
          · exact absurd rfl h
      rw [hd]
      exact hc
    · cases hc

theorem isBoundary_of_walkStatus (h : walkStatus facts parts s = .valid)
    (hc : closesSlot parts = true) : isBoundary s = true :=
  isBoundary_of_ne_invalid (by rw [h]; decide) hc

end FactForm
