import FactForm.Proofs.Template.Greedy
import FactForm.Proofs.Template.Scan

/-!
# FactForm.Proofs.Template.LongestRun

What the scan of a partly typed text computes, for any template and any text.

* `Spells.take` — a text that spells parts begins with one that spells the first of them.
* `le_longestRun_iff` — a run of leading parts can be read exactly if it is no longer than the run that
  is found.
* `Template.matched_eq_takeWhile` — so the run also comes about by adding parts one by one.
* `getElem?_layout` — a slot stands behind the text that the parts before it spell.
* `layout_endsInput` — only the last slot can end the text.
* `Template.scan_slot_unique` — no two slots of a scan have the same position.
* `Template.scan_longest_greedy` — the run is the longest, its slots and offsets are those of its parts,
  and its values are the greedy ones.
-/

namespace FactForm

/-! ## Runs of leading parts -/

theorem Spells.take {parts : List Part} {values : List Text} {s : Text}
    (h : Spells parts values s) (k : Nat) :
    ∃ ws u, Spells (parts.take k) ws u ∧ u <+: s := by
  induction h generalizing k with
  | nil => exact ⟨[], [], by rw [List.take_nil]; exact .nil, List.prefix_refl _⟩
  | @fixed text s parts values _ ih =>
    cases k with
    | zero => exact ⟨[], [], .nil, List.nil_prefix⟩
    | succ k =>
      obtain ⟨ws, u, hu, hpre⟩ := ih k
      exact ⟨ws, text ++ u, .fixed hu, (List.prefix_append_right_inj text).2 hpre⟩
  | @slot p v s parts values hv _ ih =>
    cases k with
    | zero => exact ⟨[], [], .nil, List.nil_prefix⟩
    | succ k =>
      obtain ⟨ws, u, hu, hpre⟩ := ih k
      exact ⟨v :: ws, v ++ u, .slot hv hu, (List.prefix_append_right_inj v).2 hpre⟩

theorem longestRun_le (parts : List Part) (s : Text) (k : Nat) : (longestRun parts s k).1 ≤ k := by
  induction k with
  | zero => exact Nat.le_refl 0
  | succ k ih =>
    rw [longestRun]
    split
    · exact Nat.le_refl _
    · exact Nat.le_succ_of_le ih

theorem le_longestRun_of_readFront {parts : List Part} {s : Text} {j k : Nat} {r : Reading}
    (hjk : j ≤ k) (h : readFront (parts.take j) s = some r) : j ≤ (longestRun parts s k).1 := by
  induction k with
  | zero => exact hjk
  | succ k ih =>
    rw [longestRun]
    split
    · exact hjk
    · rename_i hnone
      refine ih ?_
      rcases Nat.lt_or_eq_of_le hjk with hlt | rfl
      · exact Nat.le_of_lt_succ hlt
      · rw [hnone] at h
        cases h

theorem le_longestRun_iff {parts : List Part} {s : Text} {k : Nat} (hk : k ≤ parts.length) :
    k ≤ (longestRun parts s parts.length).1 ↔
      ∃ ws u, Spells (parts.take k) ws u ∧ u <+: s := by
  constructor
  · intro hle
    obtain ⟨u, hu, hs⟩ := spells_of_readFront (readFront_longestRun parts s parts.length)
    obtain ⟨ws, v, hv, hpre⟩ := hu.take k
    rw [List.take_take, Nat.min_eq_left hle] at hv
    exact ⟨ws, v, hv, hpre.trans ⟨_, hs.symm⟩⟩
  · intro h
    obtain ⟨r, hr⟩ := exists_readFront_iff.2 h
    exact le_longestRun_of_readFront hk hr

theorem length_takeWhile_range {p : Nat → Bool} {m n : Nat} (hm : m ≤ n)
    (hp : ∀ k < n, p k = decide (k < m)) : ((List.range n).takeWhile p).length = m := by
  have hall : ∀ k ∈ List.range m, p k = true := by
    intro k hk
    have hlt := List.mem_range.1 hk
    rw [hp k (Nat.lt_of_lt_of_le hlt hm), decide_eq_true hlt]
  obtain ⟨d, rfl⟩ := Nat.exists_eq_add_of_le hm
  rw [List.range_add, List.takeWhile_append_of_pos hall]
  cases d with
  | zero => simp
  | succ d =>
    have hstop : ¬ p m = true := by
      rw [hp m (by omega), decide_eq_true_eq]
      exact Nat.lt_irrefl m
    rw [List.range_succ_eq_map, List.map_cons, Nat.add_zero, List.takeWhile_cons_of_neg hstop,
      List.append_nil, List.length_range]

theorem Template.matched_eq_takeWhile (t : Template) (input : Text) :
    (t.scan input).matched = ((List.range t.parts.length).takeWhile fun k =>
      (readFront (t.parts.take (k + 1)) input).isSome).length := by
  refine (length_takeWhile_range (longestRun_le t.parts input t.parts.length) ?_).symm
  intro k hk
  rw [Bool.eq_iff_iff, Option.isSome_iff_exists, exists_readFront_iff, decide_eq_true_eq]
  exact (le_longestRun_iff hk).symm

/-! ## Slots -/

/-- The slots of parts with their positions, counted from `i`. -/
def numberedSlots (i : Nat) (parts : List Part) : List (Nat × Placeholder) :=
  (parts.zipIdx i).filterMap fun q => q.1.placeholder?.map fun p => (q.2, p)

theorem map_layout_index {parts : List Part} {values : List Text} {u : Text}
    (h : Spells parts values u) (i : Nat) (before s : Text) :
    (layout i parts values before s).map (fun m => (m.index, m.placeholder)) =
      numberedSlots i parts := by
  induction h generalizing i before s with
  | nil => rfl
  | fixed _ ih => exact ih (i + 1) _ _
  | slot _ _ ih => exact congrArg _ (ih (i + 1) _ _)

theorem map_layout_value {parts : List Part} {values : List Text} {u : Text}
    (h : Spells parts values u) (i : Nat) (before s : Text) :
    (layout i parts values before s).map (·.value) = values := by
  induction h generalizing i before s with
  | nil => rfl
  | fixed _ ih => exact ih (i + 1) _ _
  | slot _ _ ih => exact congrArg _ (ih (i + 1) _ _)

theorem layout_fixed_append (i : Nat) (text : Text) (parts : List Part) (values : List Text)
    (before s rest : Text) :
    layout i (.fixed text :: parts) values before (text ++ s ++ rest) =
      layout (i + 1) parts values (before ++ text) (s ++ rest) := by
  rw [layout, List.append_assoc, List.drop_left]

theorem layout_slot_append (i : Nat) (p : Placeholder) (parts : List Part) (v : Text)
    (values : List Text) (before s rest : Text) :
    layout i (.slot p :: parts) (v :: values) before (v ++ s ++ rest) =
      ⟨i, p, before, v, s ++ rest⟩ :: layout (i + 1) parts values (before ++ v) (s ++ rest) := by
  simp only [layout, List.append_assoc, List.drop_left]

theorem getElem?_layout {parts : List Part} {values : List Text} {u rest : Text}
    (h : Spells parts values u) {i n : Nat} {before : Text} {m : SlotMatch}
    (hm : (layout i parts values before (u ++ rest))[n]? = some m) :
    ∃ j w, m.index = i + j ∧ parts[j]? = some (.slot m.placeholder) ∧ m.before = before ++ w ∧
      Spells (parts.take j) (values.take n) w ∧ isValue m.value = true ∧
      u ++ rest = w ++ m.value ++ m.after := by
  induction h generalizing i n before with
  | nil => cases hm
  | @fixed text s parts values hs ih =>
    rw [layout_fixed_append] at hm
    obtain ⟨j, w, hindex, hpart, hbefore, hw, hvalue, hsplit⟩ := ih hm
    refine ⟨j + 1, text ++ w, ?_, hpart, ?_, .fixed hw, hvalue, ?_⟩
    · rw [hindex, Nat.add_assoc, Nat.add_comm 1]
    · rw [hbefore, List.append_assoc]
    · rw [List.append_assoc, hsplit]
      simp only [List.append_assoc]
  | @slot p v s parts values hv hs ih =>
    rw [layout_slot_append] at hm
    cases n with
    | zero =>
      cases hm
      exact ⟨0, [], rfl, rfl, by rw [List.append_nil], .nil, hv, List.append_assoc ..⟩
    | succ n =>
      obtain ⟨j, w, hindex, hpart, hbefore, hw, hvalue, hsplit⟩ := ih hm
      refine ⟨j + 1, v ++ w, ?_, hpart, ?_, .slot hv hw, hvalue, ?_⟩
      · rw [hindex, Nat.add_assoc, Nat.add_comm 1]
      · rw [hbefore, List.append_assoc]
      · rw [List.append_assoc, hsplit]
        simp only [List.append_assoc]

/-- Only the last slot can end the text: a value stands behind every other. -/
theorem layout_endsInput {parts : List Part} {values : List Text} {u : Text}
    (h : Spells parts values u) (i : Nat) (before rest : Text) :
    (layout i parts values before (u ++ rest)).Pairwise fun m _ => m.endsInput = false := by
  induction h generalizing i before with
  | nil => exact List.Pairwise.nil
  | fixed _ ih =>
    rw [layout_fixed_append]
    exact ih (i + 1) _
  | @slot p v s parts values _ hs ih =>
    rw [layout_slot_append]
    refine List.pairwise_cons.2 ⟨?_, ih (i + 1) _⟩
    intro n hn
    obtain ⟨k, hk⟩ := List.getElem?_of_mem hn
    obtain ⟨_, w, _, _, _, _, hvalue, hsplit⟩ := getElem?_layout hs hk
    show (s ++ rest).isEmpty = false
    rw [hsplit, List.isEmpty_eq_false_iff]
    intro hnil
    rw [(List.append_eq_nil_iff.1 (List.append_eq_nil_iff.1 hnil).1).2] at hvalue
    cases hvalue

theorem layout_ascending (parts : List Part) (i : Nat) (values : List Text) (before s : Text) :
    (layout i parts values before s).Pairwise (·.index < ·.index) ∧
      ∀ m ∈ layout i parts values before s, i ≤ m.index := by
  induction parts generalizing i values before s with
  | nil => simp [layout]
  | cons part parts ih =>
    cases part with
    | fixed text =>
      obtain ⟨hasc, hle⟩ := ih (i + 1) values (before ++ text) (s.drop text.length)
      exact ⟨hasc, fun m hm => Nat.le_of_succ_le (hle m hm)⟩
    | slot p =>
      cases values with
      | nil => simp [layout]
      | cons v values =>
        obtain ⟨hasc, hle⟩ := ih (i + 1) values (before ++ v) (s.drop v.length)
        refine ⟨List.pairwise_cons.2 ⟨hle, hasc⟩, ?_⟩
        intro m hm
        rcases List.mem_cons.1 hm with rfl | hm
        · exact Nat.le_refl i
        · exact Nat.le_of_succ_le (hle m hm)

/-! ## Scans -/

/-- What a scan says about the text that it was made from. -/
structure Scan.IsExact (scan : Scan) (input : Text) : Prop where
  matched_le : scan.matched ≤ scan.template.parts.length
  /-- No longer run of leading parts can be read, and every shorter one can. -/
  longest : ∀ k ≤ scan.template.parts.length,
    k ≤ scan.matched ↔ ∃ ws u, Spells (scan.template.parts.take k) ws u ∧ u <+: input
  slots : scan.slots.map (fun m => (m.index, m.placeholder)) = numberedSlots 0 scan.parts
  /-- A slot holds a value of the input, behind the text of the parts before it. -/
  slot : ∀ n m, scan.slots[n]? = some m →
    isValue m.value = true ∧ input = m.before ++ m.value ++ m.after ∧
    Spells (scan.parts.take m.index) ((scan.slots.map (·.value)).take n) m.before ∧
    m.start = Text.byteSize m.before ∧ m.stop = Text.byteSize (m.before ++ m.value)
  input_eq : input = scan.consumed ++ scan.tail
  stop_eq : scan.stop = Text.byteSize scan.consumed
  greedy : IsGreedy scan.parts input (scan.slots.map (·.value)) scan.consumed

namespace Template

theorem isExact_scan (t : Template) (input : Text) : (t.scan input).IsExact input := by
  obtain ⟨r, hr, htail, hslots⟩ := readFront_scan t input
  obtain ⟨front, hinput, hgreedy⟩ := isGreedy_of_readFront hr
  have hconsumed : (t.scan input).consumed = front := by
    show Text.consumed input (t.scan input).tail = front
    rw [htail, hinput, Text.consumed_append]
  have hvalues : (t.scan input).slots.map (·.value) = r.values := by
    rw [hslots, map_layout_value hgreedy.spells]
  refine ⟨longestRun_le _ _ _, fun k hk => le_longestRun_iff hk, ?_, ?_, ?_, rfl, ?_⟩
  · rw [hslots, map_layout_index hgreedy.spells]
  · intro n m hm
    have hlayout : (layout 0 (t.scan input).parts r.values [] (front ++ r.rest))[n]? = some m := by
      rw [← hinput, ← hslots, hm]
    obtain ⟨j, w, hindex, _, hbefore, hw, hvalue, hsplit⟩ :=
      getElem?_layout hgreedy.spells hlayout
    rw [Nat.zero_add] at hindex
    rw [List.nil_append] at hbefore
    rw [hvalues, hindex, hbefore]
    refine ⟨hvalue, hinput.trans hsplit, hw, ?_, ?_⟩
    · rw [SlotMatch.start, hbefore]
    · rw [SlotMatch.stop, SlotMatch.start, hbefore, Text.byteSize_append]
  · rw [hconsumed, htail]
    exact hinput
  · rw [hvalues, hconsumed]
    exact hgreedy

theorem scan_slot_split {t : Template} {input : Text} {m : SlotMatch}
    (hm : m ∈ (t.scan input).slots) : input = m.before ++ m.value ++ m.after := by
  obtain ⟨n, hn⟩ := List.getElem?_of_mem hm
  exact ((isExact_scan t input).slot n m hn).2.1

theorem scan_slots_endsInput (t : Template) (input : Text) :
    (t.scan input).slots.Pairwise fun m _ => m.endsInput = false := by
  obtain ⟨r, hr, _, hslots⟩ := readFront_scan t input
  obtain ⟨front, hinput, hgreedy⟩ := isGreedy_of_readFront hr
  have h := layout_endsInput hgreedy.spells 0 [] r.rest
  rwa [← hinput, ← hslots] at h

theorem scan_slot_unique {t : Template} {input : Text} {m n : SlotMatch}
    (hm : m ∈ (t.scan input).slots) (hn : n ∈ (t.scan input).slots) (h : m.index = n.index) :
    m = n := by
  have hasc : (t.scan input).slots.Pairwise (·.index < ·.index) := (layout_ascending _ _ _ _ _).1
  obtain ⟨a, ha, rfl⟩ := List.getElem_of_mem hm
  obtain ⟨b, hb, rfl⟩ := List.getElem_of_mem hn
  rw [List.pairwise_iff_getElem] at hasc
  rcases Nat.lt_trichotomy a b with hlt | rfl | hlt
  · exact absurd h (Nat.ne_of_lt (hasc a b ha hb hlt))
  · rfl
  · exact absurd h.symm (Nat.ne_of_lt (hasc b a hb ha hlt))

theorem readingEnd_of_readFront {parts : List Part} {s : Text} {r : Reading}
    (h : readFront parts s = some r) :
    ∃ ws u, IsGreedy parts s ws u ∧ readingEnd parts s = Text.byteSize u := by
  obtain ⟨u, hs, hu⟩ := isGreedy_of_readFront h
  refine ⟨r.values, u, hu, ?_⟩
  simp only [readingEnd, h]
  rw [hs, Text.consumed_append]

/-- The scan of a text is exact, and the end of a run of leading parts is that of its greedy reading,
or zero if the run is longer than the one that is found. -/
theorem scan_longest_greedy (t : Template) (input : Text) :
    (t.scan input).template = t ∧ (t.scan input).IsExact input ∧
    t.matchedParts input = t.parts.take (t.scan input).matched ∧
    (∀ k ≤ (t.scan input).matched, ∃ ws u,
      IsGreedy (t.parts.take k) input ws u ∧
      readingEnd (t.parts.take k) input = Text.byteSize u) ∧
    (∀ k ≤ t.parts.length, (t.scan input).matched < k →
      readingEnd (t.parts.take k) input = 0) := by
  have hexact := isExact_scan t input
  refine ⟨rfl, hexact, rfl, ?_, ?_⟩
  · intro k hk
    have hread := (hexact.longest k (Nat.le_trans hk hexact.matched_le)).1 hk
    obtain ⟨r, hr⟩ := exists_readFront_iff.2 hread
    exact readingEnd_of_readFront hr
  · intro k hk hlt
    cases h : readFront (t.parts.take k) input with
    | none => simp only [readingEnd, h]
    | some r =>
      have hle := (hexact.longest k hk).2 (exists_readFront_iff.1 ⟨r, h⟩)
      exact absurd hlt (Nat.not_lt_of_le hle)

/-- A slot gives back characters that the text behind it needs, but no more. -/
example :
    ((Template.mk [.slot ⟨['a'], ['a'], .any⟩, .slot ⟨['b'], ['b'], .any⟩, .fixed ['1']]).scan
      "x211".toList).slots.map (·.value) = ["x2".toList, "1".toList] := by decide

end Template
end FactForm
