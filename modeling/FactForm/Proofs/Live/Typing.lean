import FactForm.Proofs.Live.Walk

/-!
# FactForm.Proofs.Live.Typing

How the status of a text over a separated template changes while the text is being typed. A text
that is valid was never invalid on the way, except within a string, which is a value only when it is
closed. And a text that is incomplete can be typed on until it is valid, if the slots that are still
open can be filled at all.

* `Scan.CutsString` — an offset lies strictly inside a string in one of the slots.
* `walkStatus_prefix` — the start of a text that is valid over parts is not invalid over them.
* `Template.status_prefix` — no false alarm while typing.
* `exists_walkStatus_eq_valid` — parts whose slots can be filled have a valid text.
* `Template.exists_completion` — an incomplete text can be completed.
-/

namespace FactForm

/-- The offset, in characters, lies strictly inside a string in one of the slots. -/
def Scan.CutsString (scan : Scan) (offset : Nat) : Prop :=
  ∃ m ∈ scan.slots, m.value.head? = some '"' ∧
    m.before.length < offset ∧ offset < m.before.length + m.value.length

instance (scan : Scan) (offset : Nat) : Decidable (scan.CutsString offset) :=
  inferInstanceAs (Decidable (∃ m ∈ scan.slots, _))

variable {facts : List Atom} {p : Placeholder} {parts : List Part} {s u v w : Text}

/-! ## The start of a valid text -/

theorem prefix_append_cases {a b : Text} (h : u <+: a ++ b) :
    (∃ x, x ≠ [] ∧ a = u ++ x) ∨ ∃ u', u = a ++ u' ∧ u' <+: b := by
  obtain ⟨x, hx⟩ := h
  rcases List.append_eq_append_iff.1 hx with ⟨y, ha, _⟩ | ⟨u', hu, hb⟩
  · cases y with
    | nil => exact .inr ⟨[], by simpa using ha.symm, List.nil_prefix⟩
    | cons c y => exact .inl ⟨c :: y, List.cons_ne_nil c y, ha⟩
  · exact .inr ⟨u', hu, x, hb.symm⟩

theorem isBoundary_prefix (h : isBoundary w = true) (hu : u <+: w) : isBoundary u = true := by
  obtain ⟨x, rfl⟩ := hu
  cases u with
  | nil => rfl
  | cons c u => exact h

theorem walkStatus_nil_ne_invalid (parts : List Part) : walkStatus facts parts [] ≠ .invalid := by
  induction parts with
  | nil => simp [walkStatus]
  | cons part parts ih =>
    cases part with
    | fixed text =>
      cases ha : Text.after? text [] with
      | none => simp [walkStatus_fixed_none ha]
      | some r =>
        obtain ⟨_, rfl⟩ := List.append_eq_nil_iff.1 (Text.after?_eq_some_iff.1 ha).symm
        rw [walkStatus_fixed_some ha]
        exact ih
    | slot p =>
      rw [walkStatus_slot_none rfl]
      simp

theorem walkStatus_fixed_half {x : Text} (hx : x ≠ []) :
    walkStatus facts (.fixed (u ++ x) :: parts) u = .incomplete := by
  have hnone : Text.after? (u ++ x) u = none := by
    rw [Option.eq_none_iff_forall_ne_some]
    intro y hy
    have hlen := congrArg List.length (Text.after?_eq_some_iff.1 hy)
    have hpos := List.length_pos_iff.2 hx
    simp only [List.length_append] at hlen
    omega
  rw [walkStatus_fixed_none hnone]
  simp

theorem walkStatus_value_prefix (hv : isValue v = true) (ha : p.source.Admits facts v)
    (hu : u <+: v) (hq : u ≠ [] → v.head? ≠ some '"') :
    walkStatus facts (.slot p :: parts) u ≠ .invalid := by
  by_cases hne : u = []
  · rw [hne]
    exact walkStatus_nil_ne_invalid _
  · have huv := isValue_prefix hv (hq hne) hu hne
    have hread : readValue (u ++ []) = some (u, []) := readValue_append_boundary huv rfl
    rw [List.append_nil] at hread
    rw [walkStatus_slot_some hread]
    cases hp : p.statusOf facts u [] with
    | valid => exact walkStatus_nil_ne_invalid parts
    | incomplete => simp
    | invalid =>
      by_cases hs : p.source.isAny = true
      · simp [statusOf_eq, hs] at hp
      · rw [Bool.not_eq_true] at hs
        obtain ⟨c, hc, huc⟩ := exists_candidate_of_prefix hs ha hu hne
        exact absurd hp (statusOf_ne_invalid hc huc)

section Cuts

variable {index : Nat} {before text r : Text}

theorem cutsString_fixed (h : Text.after? text w = some r)
    (hc : (walkScan (index + 1) parts (before ++ text) r).CutsString
      ((before ++ text).length + u.length)) :
    (walkScan index (.fixed text :: parts) before w).CutsString
      (before.length + (text ++ u).length) := by
  obtain ⟨m, hm, hq, hlo, hhi⟩ := hc
  rw [← slots_walkScan_fixed h] at hm
  rw [List.length_append] at hlo hhi
  refine ⟨m, hm, hq, ?_, ?_⟩
  · rw [List.length_append]
    omega
  · rw [List.length_append]
    omega

theorem cutsString_slot (h : readValue w = some (v, r))
    (hc : (walkScan (index + 1) parts (before ++ v) r).CutsString
      ((before ++ v).length + u.length)) :
    (walkScan index (.slot p :: parts) before w).CutsString
      (before.length + (v ++ u).length) := by
  obtain ⟨m, hm, hq, hlo, hhi⟩ := hc
  have hm' := List.mem_cons_of_mem (⟨index, p, before, v, r⟩ : SlotMatch) hm
  rw [← slots_walkScan_slot h] at hm'
  rw [List.length_append] at hlo hhi
  refine ⟨m, hm', hq, ?_, ?_⟩
  · rw [List.length_append]
    omega
  · rw [List.length_append]
    omega

theorem cutsString_of_value {x : Text} (h : readValue w = some (u ++ x, r)) (hu : u ≠ [])
    (hx : x ≠ []) (hq : (u ++ x).head? = some '"') :
    (walkScan index (.slot p :: parts) before w).CutsString (before.length + u.length) := by
  have hupos := List.length_pos_iff.2 hu
  have hxpos := List.length_pos_iff.2 hx
  refine ⟨⟨index, p, before, u ++ x, r⟩, ?_, hq, ?_, ?_⟩
  · rw [slots_walkScan_slot h]
    exact List.mem_cons_self
  · show before.length < before.length + u.length
    omega
  · show before.length + u.length < before.length + (u ++ x).length
    rw [List.length_append]
    omega

end Cuts

/-- The start of a text that is valid over parts is not invalid over them, unless it ends within
a string. -/
theorem walkStatus_prefix (hsep : separated parts = true) (index : Nat) (before : Text)
    (hw : walkStatus facts parts w = .valid) (hu : u <+: w)
    (hcut : ¬ (walkScan index parts before w).CutsString (before.length + u.length)) :
    walkStatus facts parts u ≠ .invalid := by
  induction parts generalizing index before u w with
  | nil =>
    cases w with
    | nil => simp [List.prefix_nil.1 hu, walkStatus]
    | cons c w => cases hw
  | cons part parts ih =>
    cases part with
    | fixed text =>
      obtain ⟨r, rfl, ha, hr⟩ := walkStatus_fixed_eq_valid hw
      rcases prefix_append_cases hu with ⟨x, hx, rfl⟩ | ⟨u', rfl, hu'⟩
      · rw [walkStatus_fixed_half hx]
        simp
      · rw [walkStatus_fixed_append]
        refine ih hsep (index + 1) (before ++ text) hr hu' ?_
        exact mt (cutsString_fixed ha) hcut
    | slot p =>
      obtain ⟨hclose, hsep'⟩ := separated_slot.1 hsep
      obtain ⟨v, r, rfl, hread, hadmits, hr⟩ := walkStatus_slot_eq_valid hw
      have hv := readValue_isValue hread
      rcases prefix_append_cases hu with ⟨x, hx, rfl⟩ | ⟨u', rfl, hu'⟩
      · refine walkStatus_value_prefix hv hadmits (List.prefix_append u x) ?_
        intro hne hq
        exact hcut (cutsString_of_value hread hne hx hq)
      · have hb := isBoundary_prefix (isBoundary_of_walkStatus hr hclose) hu'
        rw [walkStatus_slot_append hv hadmits hb]
        refine ih hsep' (index + 1) (before ++ v) hr hu' ?_
        exact mt (cutsString_slot hread) hcut

/-- No false alarm while typing: what was typed on the way to a valid text was valid or incomplete,
unless it ended strictly inside a string. -/
theorem Template.status_prefix {σ : Type} [FactPool σ] {t : Template} (ht : t.isSeparated = true)
    (pool : σ) {u w : Text} (hw : t.status pool w = .valid) (hu : u <+: w)
    (hcut : ¬ (t.scan w).CutsString u.length) :
    t.status pool u = .valid ∨ t.status pool u = .incomplete := by
  rw [Template.status_eq_walkStatus ht] at hw ⊢
  have hscan : (t.scan w).slots = (walkScan 0 t.parts [] w).slots := by
    rw [Template.scan_eq_walk ht]
    rfl
  have hne : walkStatus (FactPool.facts pool).toList t.parts u ≠ .invalid := by
    refine walkStatus_prefix ht 0 [] hw hu ?_
    simpa [Scan.CutsString, hscan] using hcut
  cases h : walkStatus (FactPool.facts pool).toList t.parts u with
  | valid => exact .inl rfl
  | incomplete => exact .inr rfl
  | invalid => exact absurd h hne

/-- `note(::memo,::n)`, with a known memo and a number. -/
def Template.note : Template :=
  ⟨[.fixed "note(".toList, .slot ⟨"memo".toList, "memo".toList, .argument "memo".toList 0⟩,
    .fixed [','], .slot ⟨['n'], ['n'], .builtin "int".toList⟩, .fixed [')']]⟩

/-- The memos that are known to `note`: just one, which is a string. -/
def memos : AtomSet := .ofList [⟨"memo".toList, ["\"a b\"".toList], rfl, rfl⟩]

theorem Template.note_status_prefix :
    ¬ (note.scan "note(\"a b\",12)".toList).CutsString "note(\"a b\",1".toList.length ∧
    (note.status memos "note(\"a b\",1".toList = .valid ∨
      note.status memos "note(\"a b\",1".toList = .incomplete) := by
  have hw : note.status memos "note(\"a b\",12)".toList = .valid := by decide
  have hcut : ¬ (note.scan "note(\"a b\",12)".toList).CutsString
      "note(\"a b\",1".toList.length := by decide
  exact ⟨hcut, status_prefix (by decide) memos hw ⟨['2', ')'], rfl⟩ hcut⟩

/-! ## Typing on -/

theorem exists_walkStatus_eq_valid (hsep : separated parts = true)
    (hin : ∀ p ∈ parts.filterMap Part.placeholder?, p.source.IsInhabited facts) :
    ∃ c, walkStatus facts parts c = .valid := by
  induction parts with
  | nil => exact ⟨[], rfl⟩
  | cons part parts ih =>
    cases part with
    | fixed text =>
      obtain ⟨c, hc⟩ := ih hsep hin
      exact ⟨text ++ c, by rw [walkStatus_fixed_append, hc]⟩
    | slot p =>
      obtain ⟨hclose, hsep'⟩ := separated_slot.1 hsep
      rw [filterMap_slot, List.forall_mem_cons] at hin
      obtain ⟨v, hv, ha⟩ := exists_admits hin.1
      obtain ⟨c, hc⟩ := ih hsep' hin.2
      have hb := isBoundary_of_walkStatus hc hclose
      exact ⟨v ++ c, by rw [walkStatus_slot_append hv ha hb, hc]⟩

theorem walk_nil_of_closesSlot (h : closesSlot parts = true) : (walk parts []).1 = 0 := by
  unfold closesSlot at h
  split at h
  · rfl
  · rfl
  · cases h

/-- A value that is the start of a candidate can be typed on to the candidate, and the parts behind
it can be filled. -/
theorem exists_append_of_value (hclose : closesSlot parts = true) (hsep : separated parts = true)
    (hp : p.statusOf facts v [] = .incomplete)
    (hin : ∀ p ∈ parts.filterMap Part.placeholder?, p.source.IsInhabited facts) :
    ∃ c, walkStatus facts (.slot p :: parts) (v ++ c) = .valid := by
  obtain ⟨_, hany, _, _, hcand, x, rfl⟩ := statusOf_eq_incomplete hp
  obtain ⟨c, hc⟩ := exists_walkStatus_eq_valid hsep hin
  have ha := admits_of_mem_candidatesIn hcand
  have hb := isBoundary_of_walkStatus hc hclose
  refine ⟨x ++ c, ?_⟩
  rw [← List.append_assoc, walkStatus_slot_append (isValue_of_admits hany ha) ha hb, hc]

theorem exists_walkStatus_append (hsep : separated parts = true)
    (hs : walkStatus facts parts s = .incomplete)
    (hin : ∀ p ∈ (parts.drop (walk parts s).1).filterMap Part.placeholder?,
      p.source.IsInhabited facts) :
    ∃ c, walkStatus facts parts (s ++ c) = .valid := by
  induction parts generalizing s with
  | nil => cases s <;> cases hs
  | cons part parts ih =>
    cases part with
    | fixed text =>
      have hsep' : separated parts = true := hsep
      cases ha : Text.after? text s with
      | some r =>
        rw [walkStatus_fixed_some ha] at hs
        rw [walk_fixed_some ha, List.drop_succ_cons] at hin
        obtain ⟨c, hc⟩ := ih hsep' hs hin
        refine ⟨c, ?_⟩
        rw [Text.after?_eq_some_iff.1 ha, List.append_assoc, walkStatus_fixed_append, hc]
      | none =>
        rw [walkStatus_fixed_none ha] at hs
        rw [walk_fixed_none ha, List.drop_zero, filterMap_fixed] at hin
        split at hs
        · rename_i hpre
          obtain ⟨x, rfl⟩ := List.isPrefixOf_iff_prefix.1 hpre
          obtain ⟨c, hc⟩ := exists_walkStatus_eq_valid hsep' hin
          refine ⟨x ++ c, ?_⟩
          rw [← List.append_assoc, walkStatus_fixed_append, hc]
        · cases hs
    | slot p =>
      obtain ⟨hclose, hsep'⟩ := separated_slot.1 hsep
      cases hread : readValue s with
      | none =>
        rw [walkStatus_slot_none hread] at hs
        rw [walk_slot_none hread, List.drop_zero] at hin
        split at hs
        · rename_i hnil
          rw [List.isEmpty_iff.1 hnil]
          exact exists_walkStatus_eq_valid hsep hin
        · cases hs
      | some q =>
        obtain ⟨v, r⟩ := q
        rw [walkStatus_slot_some hread] at hs
        rw [walk_slot_some hread, List.drop_succ_cons] at hin
        rw [readValue_append hread]
        cases hp : p.statusOf facts v r with
        | valid =>
          rw [hp] at hs
          obtain ⟨c, hc⟩ := ih hsep' hs hin
          have hv := readValue_isValue hread
          have hb := isBoundary_of_walkStatus hc hclose
          refine ⟨c, ?_⟩
          rw [List.append_assoc, walkStatus_slot_append hv (statusOf_eq_valid_iff.1 hp) hb, hc]
        | incomplete =>
          obtain ⟨rfl, _⟩ := statusOf_eq_incomplete hp
          rw [walk_nil_of_closesSlot hclose, List.drop_zero] at hin
          rw [List.append_nil]
          exact exists_append_of_value hclose hsep' hp hin
        | invalid => rw [hp] at hs; cases hs

/-- An incomplete text can be typed on until it is valid, if the slots that are still open can be
filled. -/
theorem Template.exists_completion {σ : Type} [FactPool σ] {t : Template}
    (ht : t.isSeparated = true) (pool : σ) {input : Text}
    (hs : t.status pool input = .incomplete)
    (hopen : ∀ p ∈ (t.scan input).openParts.filterMap Part.placeholder?,
      p.source.IsInhabited (FactPool.facts pool).toList) :
    ∃ c, c ≠ [] ∧ t.status pool (input ++ c) = .valid := by
  rw [Template.scan_eq_walk ht] at hopen
  have hwalk := hs
  rw [Template.status_eq_walkStatus ht] at hwalk
  obtain ⟨c, hc⟩ := exists_walkStatus_append ht hwalk hopen
  rw [← Template.status_eq_walkStatus ht] at hc
  refine ⟨c, ?_, hc⟩
  intro hnil
  rw [hnil, List.append_nil, hs] at hc
  cases hc

/-- Both slots are open; a memo is known, and a number can be typed. -/
theorem Template.note_completion :
    ∃ c, c ≠ [] ∧ note.status memos ("note(".toList ++ c) = .valid :=
  exists_completion (by decide) memos (by decide) (by decide)

end FactForm
