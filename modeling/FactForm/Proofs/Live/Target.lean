import FactForm.Live.Suggestion
import FactForm.Proofs.Live.Language
import FactForm.Proofs.Live.Typing

/-!
# FactForm.Proofs.Live.Target

The slot that is completed, found in one pass over a separated template. The scan picks it after it
has read all it can: the slot whose value ends the input, or else the first one behind what was
read. The pass stops at the same slot, and has the text in front of it.

* `Scan.targetIndex?` — the position of the slot to be completed.
* `walkTarget` — this slot with its position, found in one pass.
* `target_restScan` — the scan picks the slot at which the pass stops.
* `standsIn_of_walkTarget` — what stands in front of the slot is in the language of the parts before
  it.
* `walkStatus_append` — so the decision is left to what follows.
-/

namespace FactForm

/-- Position of the slot to be completed: of the slot whose value ends the input, or else of the
first slot behind what was read, over at most one fixed text. -/
def Scan.targetIndex? (scan : Scan) : Option Nat :=
  match scan.slots.find? (·.endsInput) with
  | some m => some m.index
  | none =>
    match scan.openParts with
    | .slot _ :: _ => some scan.matched
    | .fixed _ :: .slot _ :: _ => some (scan.matched + 1)
    | _ => none

/-- The first slot, over at most one fixed text, of parts of which nothing is read. They are counted
from `index`, `before` stands in front of the text, and the text is what is typed. -/
def openTarget (index : Nat) (before s : Text) : List Part → Option (Nat × Target)
  | .slot p :: rest => some (index, ⟨before, p, s, rest⟩)
  | .fixed text :: .slot p :: rest => some (index + 1, ⟨before ++ text, p, [], rest⟩)
  | _ => none

/-- The slot to be completed and its position, found in one pass. -/
def walkTarget (index : Nat) (before : Text) : List Part → Text → Option (Nat × Target)
  | [], s => openTarget index before s []
  | .fixed text :: parts, s =>
    match Text.after? text s with
    | some r => walkTarget (index + 1) (before ++ text) parts r
    | none => openTarget index before s (.fixed text :: parts)
  | .slot p :: parts, s =>
    match readValue s with
    | some (v, []) => some (index, ⟨before, p, v, parts⟩)
    | some (v, c :: r) => walkTarget (index + 1) (before ++ v) parts (c :: r)
    | none => openTarget index before s (.slot p :: parts)

variable {facts : List Atom} {index i : Nat} {before text s r v w : Text} {c : Char}
  {p : Placeholder} {parts done front rest : List Part} {target : Target}

section Equations

theorem walkTarget_fixed_some (h : Text.after? text s = some r) :
    walkTarget index before (.fixed text :: parts) s =
      walkTarget (index + 1) (before ++ text) parts r := by
  simp only [walkTarget, h]

theorem walkTarget_fixed_none (h : Text.after? text s = none) :
    walkTarget index before (.fixed text :: parts) s =
      openTarget index before s (.fixed text :: parts) := by
  simp only [walkTarget, h]

theorem walkTarget_slot_end (h : readValue s = some (v, [])) :
    walkTarget index before (.slot p :: parts) s = some (index, ⟨before, p, v, parts⟩) := by
  simp only [walkTarget, h]

theorem walkTarget_slot_cons (h : readValue s = some (v, c :: r)) :
    walkTarget index before (.slot p :: parts) s =
      walkTarget (index + 1) (before ++ v) parts (c :: r) := by
  simp only [walkTarget, h]

theorem walkTarget_slot_none (h : readValue s = none) :
    walkTarget index before (.slot p :: parts) s =
      openTarget index before s (.slot p :: parts) := by
  simp only [walkTarget, h]

end Equations

/-! ## The scan behind what was already read -/

theorem walk_rest_suffix (parts : List Part) (s : Text) : (walk parts s).2.rest <:+ s := by
  induction parts generalizing s with
  | nil => exact List.suffix_refl s
  | cons part parts ih =>
    cases part with
    | fixed text =>
      cases ha : Text.after? text s with
      | none => simp [walk_fixed_none ha]
      | some r =>
        rw [walk_fixed_some ha, Text.after?_eq_some_iff.1 ha]
        exact (ih r).trans (List.suffix_append text r)
    | slot p =>
      cases hv : readValue s with
      | none => simp [walk_slot_none hv]
      | some q =>
        rw [walk_slot_some hv, readValue_append hv]
        exact (ih q.2).trans (List.suffix_append q.1 q.2)

theorem Text.consumed_append_left (lead : Text) {r rest : Text} (h : rest <:+ r) :
    consumed (lead ++ r) rest = lead ++ consumed r rest := by
  rw [consumed, consumed, List.length_append, Nat.add_sub_assoc h.length_le,
    List.take_length_add_append]

/-- The scan in which a pass results that has already read `done` as `before`, without the slots of
`done`. -/
def restScan (done parts : List Part) (before s : Text) : Scan where
  template := ⟨done ++ parts⟩
  matched := done.length + (walk parts s).1
  consumed := before ++ Text.consumed s (walk parts s).2.rest
  tail := (walk parts s).2.rest
  slots := (walkScan done.length parts before s).slots

theorem Template.scan_eq_restScan {t : Template} (h : t.isSeparated = true) (input : Text) :
    t.scan input = restScan [] t.parts [] input := by
  rw [Template.scan_eq_walk h, restScan, List.length_nil, Nat.zero_add]
  rfl

theorem restScan_unread (h : walk parts s = (0, ⟨[], s⟩)) :
    restScan done parts before s = ⟨⟨done ++ parts⟩, done.length, before, s, []⟩ := by
  simp [restScan, walkScan, h, layout, Text.consumed]

theorem restScan_fixed (h : Text.after? text s = some r) :
    restScan done (.fixed text :: parts) before s =
      restScan (done ++ [.fixed text]) parts (before ++ text) r := by
  have hslots : (walkScan done.length (.fixed text :: parts) before s).slots =
      (walkScan (done.length + 1) parts (before ++ text) r).slots := slots_walkScan_fixed h
  have hconsumed := Text.consumed_append_left text (walk_rest_suffix parts r)
  rw [← Text.after?_eq_some_iff.1 h] at hconsumed
  simp only [restScan, walk_fixed_some h, hslots, hconsumed, List.append_assoc, List.cons_append,
    List.nil_append, List.length_append, List.length_singleton, Nat.add_assoc, Nat.add_comm 1]

theorem restScan_slot (h : readValue s = some (v, r)) :
    restScan done (.slot p :: parts) before s =
      { restScan (done ++ [.slot p]) parts (before ++ v) r with
        slots := ⟨done.length, p, before, v, r⟩ ::
          (restScan (done ++ [.slot p]) parts (before ++ v) r).slots } := by
  have hslots : (walkScan done.length (.slot p :: parts) before s).slots =
      ⟨done.length, p, before, v, r⟩ :: (walkScan (done.length + 1) parts (before ++ v) r).slots :=
    slots_walkScan_slot h
  have hconsumed := Text.consumed_append_left v (walk_rest_suffix parts r)
  rw [← readValue_append h] at hconsumed
  simp only [restScan, walk_slot_some h, hslots, hconsumed, Reading.cons, List.append_assoc,
    List.cons_append, List.nil_append, List.length_append, List.length_singleton, Nat.add_assoc,
    Nat.add_comm 1]

theorem Scan.target?_cons {scan : Scan} {m : SlotMatch} (h : m.endsInput = false) :
    { scan with slots := m :: scan.slots }.target? = scan.target? := by
  have htyped : { scan with slots := m :: scan.slots }.typedSlot? = scan.typedSlot? := by
    simp only [typedSlot?, List.getLast?_cons]
    cases hl : scan.slots.getLast? with
    | none => simp [h]
    | some n => simp
  simp only [target?, htyped]
  rfl

theorem Scan.targetIndex?_cons {scan : Scan} {m : SlotMatch} (h : m.endsInput = false) :
    { scan with slots := m :: scan.slots }.targetIndex? = scan.targetIndex? := by
  simp only [targetIndex?, List.find?_cons, h]
  rfl

/-! ## The slot that the scan picks -/

theorem Scan.target_of_no_slots {scan : Scan} (h : scan.slots = []) :
    scan.targetIndex? =
        (openTarget scan.matched scan.consumed scan.tail scan.openParts).map (·.1) ∧
      scan.target? =
        (openTarget scan.matched scan.consumed scan.tail scan.openParts).map (·.2) := by
  simp only [targetIndex?, target?, typedSlot?, h, List.find?_nil, List.getLast?_nil,
    Option.filter_none]
  rcases scan.openParts with _ | ⟨text | p, _ | ⟨text' | p', rest⟩⟩ <;> exact ⟨rfl, rfl⟩

theorem target_restScan_unread (h : walk parts s = (0, ⟨[], s⟩)) :
    (restScan done parts before s).targetIndex? =
        (openTarget done.length before s parts).map (·.1) ∧
      (restScan done parts before s).target? =
        (openTarget done.length before s parts).map (·.2) := by
  have hopen : Scan.openParts ⟨⟨done ++ parts⟩, done.length, before, s, []⟩ = parts :=
    List.drop_left
  have htarget := @Scan.target_of_no_slots ⟨⟨done ++ parts⟩, done.length, before, s, []⟩ rfl
  rw [hopen] at htarget
  rw [restScan_unread h]
  exact htarget

theorem target_restScan_end (hclose : closesSlot parts = true) (h : readValue s = some (v, [])) :
    (restScan done (.slot p :: parts) before s).targetIndex? = some done.length ∧
      (restScan done (.slot p :: parts) before s).target? = some ⟨before, p, v, parts⟩ := by
  have hwalk := walk_nil_of_closesSlot hclose
  have hslots : (restScan done (.slot p :: parts) before s).slots =
      [⟨done.length, p, before, v, []⟩] := by
    rw [restScan, slots_walkScan_slot h]
    simp [walkScan, hwalk, layout]
  have hmatched : (restScan done (.slot p :: parts) before s).matched = done.length + 1 := by
    simp [restScan, walk_slot_some h, hwalk]
  have hopen : (restScan done (.slot p :: parts) before s).openParts = parts := by
    simp [Scan.openParts, restScan, walk_slot_some h, hwalk]
  have htyped : (restScan done (.slot p :: parts) before s).typedSlot? =
      some ⟨done.length, p, before, v, []⟩ := by
    rw [Scan.typedSlot?, hslots, hmatched]
    simp [SlotMatch.endsInput, Option.filter]
  constructor
  · simp [Scan.targetIndex?, hslots, SlotMatch.endsInput]
  · simp only [Scan.target?, htyped, hopen]

/-- The scan picks the slot at which the pass stops. The induction is on the parts, with those that
are already read in front of them. -/
theorem target_restScan (hsep : separated parts = true) (done : List Part) (before s : Text) :
    (restScan done parts before s).targetIndex? =
        (walkTarget done.length before parts s).map (·.1) ∧
      (restScan done parts before s).target? =
        (walkTarget done.length before parts s).map (·.2) := by
  induction parts generalizing done before s with
  | nil => exact target_restScan_unread rfl
  | cons part parts ih =>
    cases part with
    | fixed text =>
      cases ha : Text.after? text s with
      | some r =>
        have h := ih hsep (done ++ [.fixed text]) (before ++ text) r
        rw [List.length_append, List.length_singleton] at h
        rw [restScan_fixed ha, walkTarget_fixed_some ha]
        exact h
      | none =>
        rw [walkTarget_fixed_none ha]
        exact target_restScan_unread (walk_fixed_none ha)
    | slot p =>
      obtain ⟨hclose, hsep'⟩ := separated_slot.1 hsep
      cases hv : readValue s with
      | none =>
        rw [walkTarget_slot_none hv]
        exact target_restScan_unread (walk_slot_none hv)
      | some q =>
        obtain ⟨v, r⟩ := q
        cases r with
        | nil =>
          rw [walkTarget_slot_end hv]
          exact target_restScan_end hclose hv
        | cons c r =>
          have h := ih hsep' (done ++ [.slot p]) (before ++ v) (c :: r)
          rw [List.length_append, List.length_singleton] at h
          rw [restScan_slot hv, Scan.targetIndex?_cons rfl, Scan.target?_cons rfl,
            walkTarget_slot_cons hv]
          exact h

theorem Template.targetIndex?_scan {t : Template} (h : t.isSeparated = true) (input : Text) :
    (t.scan input).targetIndex? = (walkTarget 0 [] t.parts input).map (·.1) := by
  rw [Template.scan_eq_restScan h]
  exact (target_restScan h [] [] input).1

theorem Template.target?_scan {t : Template} (h : t.isSeparated = true) (input : Text) :
    (t.scan input).target? = (walkTarget 0 [] t.parts input).map (·.2) := by
  rw [Template.scan_eq_restScan h]
  exact (target_restScan h [] [] input).2

/-! ## What stands in front of the slot -/

theorem openTarget_fixed (h : openTarget index before s (.fixed text :: parts) = some (i, target)) :
    ∃ p rest, parts = .slot p :: rest ∧ i = index + 1 ∧ target = ⟨before ++ text, p, [], rest⟩ := by
  unfold openTarget at h
  split at h
  · rename_i heq
    cases heq
  · rename_i heq
    cases heq
    cases h
    exact ⟨_, _, rfl, rfl, rfl⟩
  · cases h

theorem walkStatus_slot_cons (hv : readValue s = some (v, c :: r))
    (hs : walkStatus facts (.slot p :: parts) s ≠ .invalid) :
    p.source.Admits facts v ∧ walkStatus facts parts (c :: r) ≠ .invalid := by
  rw [walkStatus_slot_some hv] at hs
  cases hp : p.statusOf facts v (c :: r) with
  | valid =>
    rw [hp] at hs
    exact ⟨statusOf_eq_valid_iff.1 hp, hs⟩
  | incomplete => cases (statusOf_eq_incomplete hp).1
  | invalid =>
    rw [hp] at hs
    exact absurd rfl hs

/-- A slot of parts with its position and what stands in front of it: the parts before it are as many
as the position counts, and the text before it is in their language. -/
def StandsIn (facts : List Atom) (index : Nat) (before : Text) (parts : List Part) (i : Nat)
    (target : Target) : Prop :=
  ∃ front head, i = index + front.length ∧
    parts = front ++ .slot target.placeholder :: target.following ∧
    target.head = before ++ head ∧ InLanguage facts front head

theorem standsIn_slot :
    StandsIn facts index before (.slot p :: parts) index ⟨before, p, v, parts⟩ :=
  ⟨[], [], rfl, rfl, (List.append_nil before).symm, inLanguage_nil.2 rfl⟩

theorem StandsIn.cons {part : Part} (h : StandsIn facts (index + 1) (before ++ v) parts i target)
    (hpart : ∀ front head, InLanguage facts front head →
      InLanguage facts (part :: front) (v ++ head)) :
    StandsIn facts index before (part :: parts) i target := by
  obtain ⟨front, head, hi, hparts, hhead, hlang⟩ := h
  refine ⟨part :: front, v ++ head, ?_, ?_, ?_, hpart front head hlang⟩
  · rw [hi, List.length_cons]
    omega
  · rw [hparts, List.cons_append]
  · rw [hhead, List.append_assoc]

theorem standsIn_of_walkTarget (hs : walkStatus facts parts s ≠ .invalid)
    (h : walkTarget index before parts s = some (i, target)) :
    StandsIn facts index before parts i target := by
  induction parts generalizing index before s with
  | nil => cases h
  | cons part parts ih =>
    cases part with
    | fixed text =>
      have hpart : ∀ front head, InLanguage facts front head →
          InLanguage facts (.fixed text :: front) (text ++ head) :=
        fun _ head hlang => inLanguage_fixed.2 ⟨head, rfl, hlang⟩
      cases ha : Text.after? text s with
      | some r =>
        rw [walkStatus_fixed_some ha] at hs
        rw [walkTarget_fixed_some ha] at h
        exact (ih hs h).cons hpart
      | none =>
        rw [walkTarget_fixed_none ha] at h
        obtain ⟨p, rest, rfl, rfl, rfl⟩ := openTarget_fixed h
        exact standsIn_slot.cons hpart
    | slot p =>
      cases hv : readValue s with
      | none =>
        rw [walkTarget_slot_none hv] at h
        cases h
        exact standsIn_slot
      | some q =>
        obtain ⟨v, r⟩ := q
        cases r with
        | nil =>
          rw [walkTarget_slot_end hv] at h
          cases h
          exact standsIn_slot
        | cons c r =>
          obtain ⟨hadmits, hrest⟩ := walkStatus_slot_cons hv hs
          rw [walkTarget_slot_cons hv] at h
          refine (ih hrest h).cons ?_
          intro _ head hlang
          exact inLanguage_slot.2 ⟨v, head, rfl, readValue_isValue hv, hadmits, hlang⟩

theorem isBoundary_append_of_inLanguage (h : InLanguage facts front v)
    (hc : closesSlot (front ++ .slot p :: rest) = true) : isBoundary (v ++ s) = true := by
  cases front with
  | nil => cases hc
  | cons part front =>
    cases part with
    | slot q => cases hc
    | fixed text =>
      obtain ⟨r, rfl, _⟩ := inLanguage_fixed.1 h
      cases text with
      | nil => cases hc
      | cons c text => exact hc

theorem walkStatus_append (hsep : separated (front ++ .slot p :: rest) = true)
    (h : InLanguage facts front v) :
    walkStatus facts (front ++ .slot p :: rest) (v ++ s) =
      walkStatus facts (.slot p :: rest) s := by
  induction front generalizing v with
  | nil =>
    rw [inLanguage_nil.1 h]
    rfl
  | cons part front ih =>
    cases part with
    | fixed text =>
      obtain ⟨r, rfl, hr⟩ := inLanguage_fixed.1 h
      rw [List.cons_append, List.append_assoc, walkStatus_fixed_append]
      exact ih hsep hr
    | slot q =>
      obtain ⟨hclose, hsep'⟩ := separated_slot.1 hsep
      obtain ⟨u, r, rfl, hu, hadmits, hr⟩ := inLanguage_slot.1 h
      have hb := isBoundary_append_of_inLanguage (s := s) hr hclose
      rw [List.cons_append, List.append_assoc, walkStatus_slot_append hu hadmits hb]
      exact ih hsep' hr

theorem separated_of_append (h : separated (front ++ parts) = true) : separated parts = true := by
  induction front with
  | nil => exact h
  | cons part front ih =>
    cases part with
    | fixed text => exact ih h
    | slot q => exact ih (separated_slot.1 h).2

end FactForm
