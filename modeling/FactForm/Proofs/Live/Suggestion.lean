import FactForm.Proofs.Live.Target
import FactForm.Proofs.Template.LongestRun

/-!
# FactForm.Proofs.Live.Suggestion

What the suggestions for an input over a separated template are worth. They are no dead ends: the
input with a candidate in its slot is valid or incomplete. And for a slot that is backed by facts
they are complete: whatever valid text the input is typed on to, the value that this text has in the
slot was offered.

* `Template.mem_suggest_iff` — what is suggested.
* `walkStatus_shownText` — parts without slots are valid as they are shown.
* `Template.suggest_not_dead_end` — a suggestion can be gone on with.
* `slot_of_walkTarget` — a valid text that begins with the input agrees with it up to the slot, and
  the typed text begins the value of the slot.
* `Template.suggest_complete` — the value of the slot is among the suggestions.
-/

namespace FactForm

variable {facts : List Atom} {index i : Nat} {before s v w : Text} {p : Placeholder}
  {parts : List Part} {target : Target}

/-! ## What is suggested -/

theorem Template.mem_suggest_iff {σ : Type} [FactPool σ] {t : Template} {pool : σ}
    {input item : Text} :
    item ∈ t.suggest pool input ↔
      t.status pool input ≠ .invalid ∧ ∃ target, (t.scan input).target? = some target ∧
        ∃ v ∈ candidatesIn (FactPool.facts pool).toList target.placeholder.source target.typed,
          target.head ++ v ++ shownText target.following = item := by
  simp only [suggest, Scan.suggestions, status]
  split
  · rename_i hinvalid
    simp [hinvalid]
  · rename_i hvalid
    cases htarget : (t.scan input).target? with
    | none => simp
    | some target => simp [hvalid, List.mem_map]

theorem getElem?_of_walkTarget (hs : walkStatus facts parts s ≠ .invalid)
    (h : walkTarget 0 before parts s = some (i, target)) :
    parts[i]? = some (.slot target.placeholder) ∧ target.following = parts.drop (i + 1) := by
  obtain ⟨front, _, hi, hparts, _, _⟩ := standsIn_of_walkTarget hs h
  rw [Nat.zero_add] at hi
  constructor
  · rw [hparts, hi, List.getElem?_append_right (Nat.le_refl _), Nat.sub_self]
    rfl
  · rw [hparts, hi, List.drop_length_add_append]
    rfl

/-! ## No dead ends -/

theorem walkStatus_shownText (h : parts.filterMap Part.placeholder? = []) :
    walkStatus facts parts (shownText parts) = .valid := by
  induction parts with
  | nil => rfl
  | cons part parts ih =>
    cases part with
    | fixed text =>
      have hshown : shownText (.fixed text :: parts) = text ++ shownText parts := rfl
      rw [hshown, walkStatus_fixed_append]
      exact ih h
    | slot p => cases h

theorem walkStatus_candidate (hsep : separated parts = true)
    (hs : walkStatus facts parts s ≠ .invalid)
    (htarget : walkTarget index [] parts s = some (i, target))
    (hv : v ∈ candidatesIn facts target.placeholder.source target.typed) {rest : Text}
    (hrest : walkStatus facts target.following rest ≠ .invalid) :
    walkStatus facts parts (target.head ++ v ++ rest) =
      walkStatus facts target.following rest := by
  obtain ⟨front, head, _, rfl, hhead, hlang⟩ := standsIn_of_walkTarget hs htarget
  rw [List.nil_append] at hhead
  obtain ⟨hclose, _⟩ := separated_slot.1 (separated_of_append hsep)
  have hadmits := admits_of_mem_candidatesIn hv
  have hb := isBoundary_of_ne_invalid hrest hclose
  rw [hhead, List.append_assoc, walkStatus_append hsep hlang,
    walkStatus_slot_append (isValue_of_mem_candidatesIn hv) hadmits hb]

/-- A suggestion is the text in front of a slot, a candidate of the slot and the parts behind it as
they are shown. With the candidate in its slot the text is valid or incomplete, and if no further
slot follows, the whole suggestion is valid. -/
theorem Template.suggest_not_dead_end {σ : Type} [FactPool σ] {t : Template}
    (ht : t.isSeparated = true) (pool : σ) {input item : Text}
    (h : item ∈ t.suggest pool input) :
    ∃ i target v,
      (t.scan input).targetIndex? = some i ∧ (t.scan input).target? = some target ∧
      t.parts[i]? = some (.slot target.placeholder) ∧
      target.following = t.parts.drop (i + 1) ∧
      v ∈ candidatesIn (FactPool.facts pool).toList target.placeholder.source target.typed ∧
      item = target.head ++ v ++ shownText target.following ∧
      (t.status pool (target.head ++ v) = .valid ∨
        t.status pool (target.head ++ v) = .incomplete) ∧
      ((t.parts.drop (i + 1)).filterMap Part.placeholder? = [] → t.status pool item = .valid) := by
  obtain ⟨hs, target, htarget, v, hv, rfl⟩ := mem_suggest_iff.1 h
  rw [Template.status_eq_walkStatus ht] at hs
  have hindex := Template.targetIndex?_scan ht input
  rw [Template.target?_scan ht, Option.map_eq_some_iff] at htarget
  obtain ⟨⟨i, target⟩, hwalk, rfl⟩ := htarget
  rw [hwalk] at hindex
  obtain ⟨hslot, hfollowing⟩ := getElem?_of_walkTarget hs hwalk
  have hopen : walkStatus (FactPool.facts pool).toList target.following [] ≠ .invalid :=
    walkStatus_nil_ne_invalid target.following
  have hstatus := walkStatus_candidate ht hs hwalk hv hopen
  rw [List.append_nil] at hstatus
  refine ⟨i, target, v, hindex, ?_, hslot, hfollowing, hv, rfl, ?_, ?_⟩
  · rw [Template.target?_scan ht, hwalk]
    rfl
  · rw [Template.status_eq_walkStatus ht, hstatus]
    cases hcase : walkStatus (FactPool.facts pool).toList target.following [] with
    | valid => exact .inl rfl
    | incomplete => exact .inr rfl
    | invalid => exact absurd hcase hopen
  · intro hno
    rw [← hfollowing] at hno
    have hshown : walkStatus (FactPool.facts pool).toList target.following
        (shownText target.following) = .valid := walkStatus_shownText hno
    rw [Template.status_eq_walkStatus ht,
      walkStatus_candidate ht hs hwalk hv (by rw [hshown]; decide), hshown]

/-- The number is completed by a digit; nothing is open behind it. -/
theorem Template.note_suggest_valid :
    "note(\"a b\",12)".toList ∈ note.suggest memos "note(\"a b\",1".toList ∧
    note.status memos "note(\"a b\",12)".toList = .valid := by
  have hitem : "note(\"a b\",12)".toList ∈ note.suggest memos "note(\"a b\",1".toList := by decide
  obtain ⟨i, _, _, hindex, _, _, _, _, _, _, hvalid⟩ :=
    suggest_not_dead_end (by decide) memos hitem
  have hi : (note.scan "note(\"a b\",1".toList).targetIndex? = some 3 := by decide
  rw [hi, Option.some.injEq] at hindex
  rw [← hindex] at hvalid
  exact ⟨hitem, hvalid (by decide)⟩

/-! ## Completeness -/

/-- A valid text that begins with the input has a value in the slot to be completed. What stands in
front of the slot is the same as for the input, and the typed text begins the value. -/
theorem slot_of_walkTarget (hsep : separated parts = true)
    (hs : walkStatus facts parts s ≠ .invalid)
    (h : walkTarget index before parts s = some (i, target))
    (hw : walkStatus facts parts w = .valid) (hpre : s <+: w) :
    ∃ m ∈ (walkScan index parts before w).slots, m.index = i ∧ m.before = target.head ∧
      target.typed <+: m.value ∧ target.placeholder.source.Admits facts m.value := by
  induction parts generalizing index before s w with
  | nil => cases h
  | cons part parts ih =>
    cases part with
    | fixed text =>
      obtain ⟨r', rfl, ha', hr'⟩ := walkStatus_fixed_eq_valid hw
      rw [slots_walkScan_fixed ha']
      cases ha : Text.after? text s with
      | some r =>
        rw [Text.after?_eq_some_iff.1 ha, List.prefix_append_right_inj] at hpre
        rw [walkStatus_fixed_some ha] at hs
        rw [walkTarget_fixed_some ha] at h
        exact ih hsep hs h hr' hpre
      | none =>
        rw [walkTarget_fixed_none ha] at h
        obtain ⟨p, rest, rfl, rfl, rfl⟩ := openTarget_fixed h
        obtain ⟨v, r, rfl, hread, hadmits, _⟩ := walkStatus_slot_eq_valid hr'
        rw [slots_walkScan_slot hread]
        exact ⟨_, List.mem_cons_self, rfl, rfl, List.nil_prefix, hadmits⟩
    | slot p =>
      obtain ⟨hclose, hsep'⟩ := separated_slot.1 hsep
      obtain ⟨v', r', _, hread', hadmits, hr'⟩ := walkStatus_slot_eq_valid hw
      rw [slots_walkScan_slot hread']
      cases hread : readValue s with
      | none =>
        rw [walkStatus_slot_none hread] at hs
        rw [walkTarget_slot_none hread] at h
        cases h
        -- Nothing of the value is typed, since no text but the empty one may still become a value.
        cases s with
        | nil => exact ⟨_, List.mem_cons_self, rfl, rfl, List.nil_prefix, hadmits⟩
        | cons c s => exact absurd rfl hs
      | some q =>
        obtain ⟨v, r⟩ := q
        cases r with
        | nil =>
          rw [walkTarget_slot_end hread] at h
          cases h
          rw [readValue_append hread, List.append_nil] at hpre
          have htyped := isValue_prefix_readValue (readValue_isValue hread) hpre hread'
          exact ⟨_, List.mem_cons_self, rfl, rfl, htyped, hadmits⟩
        | cons c r =>
          obtain ⟨_, hrest⟩ := walkStatus_slot_cons hread hs
          rw [walkTarget_slot_cons hread] at h
          -- The value ends in front of the same character in the longer text.
          obtain ⟨x, rfl⟩ := hpre
          have hb := isBoundary_of_ne_invalid hrest hclose
          rw [readValue_append_of_isBoundary hread (List.cons_ne_nil c r) hb] at hread'
          cases hread'
          obtain ⟨m, hm, hrests⟩ := ih hsep' hrest h hr' (List.prefix_append (c :: r) x)
          exact ⟨m, List.mem_cons_of_mem _ hm, hrests⟩

/-- Whatever valid text the input is typed on to, the value that this text has in a slot which is
backed by facts is among the suggestions for the input. -/
theorem Template.suggest_complete {σ : Type} [FactPool σ] {t : Template}
    (ht : t.isSeparated = true) (pool : σ) {input w : Text} {i : Nat} {p : Placeholder}
    {predicate : Text} {index : Nat} (hinput : t.status pool input ≠ .invalid)
    (htarget : (t.scan input).targetIndex? = some i) (hp : t.parts[i]? = some (.slot p))
    (hsource : p.source = .argument predicate index) (hw : t.status pool w = .valid)
    (hpre : input <+: w) :
    ∃ m ∈ (t.scan w).slots, m.index = i ∧ (∀ n ∈ (t.scan w).slots, n.index = i → n = m) ∧
      w = m.before ++ m.value ++ m.after ∧
      m.before ++ m.value ++ shownText (t.parts.drop (i + 1)) ∈ t.suggest pool input := by
  have hs := hinput
  rw [Template.status_eq_walkStatus ht] at hs hw
  have htarget? := Template.target?_scan ht input
  rw [Template.targetIndex?_scan ht, Option.map_eq_some_iff] at htarget
  obtain ⟨⟨i, target⟩, hwalk, rfl⟩ := htarget
  rw [hwalk] at htarget?
  obtain ⟨hslot, hfollowing⟩ := getElem?_of_walkTarget hs hwalk
  obtain rfl : target.placeholder = p := by
    rw [hslot] at hp
    cases hp
    rfl
  obtain ⟨m, hm, hindex, hbefore, htyped, hadmits⟩ := slot_of_walkTarget ht hs hwalk hw hpre
  have hmem : m ∈ (t.scan w).slots := by
    rw [Template.scan_eq_walk ht]
    exact hm
  rw [hsource] at hadmits
  have hcandidate := mem_candidatesIn_argument.2 ⟨mem_argumentsAt.2 hadmits, htyped⟩
  rw [← hsource] at hcandidate
  refine ⟨m, hmem, hindex, ?_, Template.scan_slot_split hmem, ?_⟩
  · intro n hn hni
    exact Template.scan_slot_unique hn hmem (hni.trans hindex.symm)
  · refine mem_suggest_iff.2 ⟨hinput, target, htarget?, m.value, hcandidate, ?_⟩
    rw [hbefore, hfollowing]

/-- `::from -> ::to`, between known nodes. -/
def Template.nodeEdge : Template :=
  ⟨[.slot ⟨"from".toList, "<from>".toList, .argument "node".toList 0⟩, .fixed " -> ".toList,
    .slot ⟨"to".toList, "<to>".toList, .argument "node".toList 0⟩]⟩

/-- Three nodes, of which two begin alike. -/
def nodes : AtomSet :=
  .ofList [⟨"node".toList, ["alpha".toList], rfl, rfl⟩, ⟨"node".toList, ["alps".toList], rfl, rfl⟩,
    ⟨"node".toList, ["beta".toList], rfl, rfl⟩]

/-- An edge from `alps` is valid, and `alps` was offered when its beginning was typed. -/
theorem Template.nodeEdge_suggest_alps :
    nodeEdge.status nodes "alps -> beta".toList = .valid ∧
    ∃ m ∈ (nodeEdge.scan "alps -> beta".toList).slots, m.index = 0 ∧
      m.before ++ m.value ++ shownText (nodeEdge.parts.drop 1) ∈
        nodeEdge.suggest nodes "al".toList := by
  have hw : nodeEdge.status nodes "alps -> beta".toList = .valid := by decide
  have hinput : nodeEdge.status nodes "al".toList ≠ .invalid := by decide
  have htarget : (nodeEdge.scan "al".toList).targetIndex? = some 0 := by decide
  obtain ⟨m, hm, hindex, _, _, hmem⟩ :=
    suggest_complete (by decide) nodes hinput htarget rfl rfl hw ⟨"ps -> beta".toList, rfl⟩
  exact ⟨hw, m, hm, hindex, hmem⟩

end FactForm
