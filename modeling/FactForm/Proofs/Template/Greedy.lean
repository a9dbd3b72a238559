import FactForm.Proofs.Template.Spelling

/-!
# FactForm.Proofs.Template.Greedy

The order in which the readings of a text are listed. An earlier slot decides first, and it prefers the
longer value, so the listed lengths descend in lexicographic order and the preferred reading has the
greatest.

* `shorter` — the lexicographic order of lengths.
* `readings_descending` — every reading has smaller lengths than those listed before it.
* `IsGreedy` — a way to spell a front of a text with the greatest lengths.
* `isGreedy_of_readFront`, `exists_readFront_iff` — the preferred reading is that way, and there is one
  if there is any way at all.
* `IsGreedyWhole` — a way to spell the whole text with the greatest lengths.
* `readWhole_eq_some_iff` — the preferred reading of the whole text is that way.
-/

namespace FactForm

def sizes (values : List Text) : List Nat := values.map Text.byteSize

/-- Whether the first length that differs is smaller on the left. -/
def shorter (m n : List Nat) : Bool := listBefore (fun i j => decide (i < j)) m n

theorem shorter_cons_iff {i j : Nat} {m n : List Nat} :
    shorter (i :: m) (j :: n) = true ↔ i = j ∧ shorter m n = true ∨ i < j := by
  rw [shorter, listBefore_cons_iff, decide_eq_true_eq]
  constructor
  · rintro (h | ⟨_, h⟩)
    · exact .inl h
    · exact .inr h
  · rintro (h | h)
    · exact .inl h
    · exact .inr ⟨Nat.ne_of_lt h, h⟩

theorem byteSize_pos {s : Text} (h : s ≠ []) : 0 < Text.byteSize s := by
  cases s with
  | nil => exact absurd rfl h
  | cons c r => exact Nat.lt_of_lt_of_le c.utf8Size_pos (Nat.le_add_right _ _)

theorem byteSize_take_lt {s : Text} {m n : Nat} (h : m < n) (hn : n ≤ s.length) :
    Text.byteSize (s.take m) < Text.byteSize (s.take n) := by
  have hsplit : s.take n = s.take m ++ (s.drop m).take (n - m) := by
    rw [← List.take_add, Nat.add_sub_cancel' (Nat.le_of_lt h)]
  have hne : (s.drop m).take (n - m) ≠ [] := by
    rw [← List.length_pos_iff, List.length_take, List.length_drop]
    omega
  rw [hsplit, Text.byteSize_append]
  exact Nat.lt_add_of_pos_right (byteSize_pos hne)

theorem readings_descending (parts : List Part) (s : Text) :
    (readings parts s).Pairwise fun q r => shorter (sizes r.values) (sizes q.values) = true := by
  induction parts generalizing s with
  | nil => exact List.pairwise_singleton _ _
  | cons part parts ih =>
    cases part with
    | fixed text =>
      simp only [readings]
      split
      · exact ih _
      · exact List.Pairwise.nil
    | slot p =>
      rw [readings, List.pairwise_flatMap]
      constructor
      · intro n _
        rw [List.pairwise_map]
        refine (ih (s.drop n)).imp ?_
        intro q r h
        exact shorter_cons_iff.2 (.inl ⟨rfl, h⟩)
      · refine (valueLengths_descending s).imp_of_mem ?_
        intro n m hn _ hgt x hx y hy
        obtain ⟨q, _, rfl⟩ := List.mem_map.1 hx
        obtain ⟨r, _, rfl⟩ := List.mem_map.1 hy
        exact shorter_cons_iff.2 (.inr (byteSize_take_lt hgt (mem_valueLengths_iff.1 hn).1))

/-- `values` spell a front of the text, and no other values that do have greater lengths. -/
structure IsGreedy (parts : List Part) (s : Text) (values : List Text) (front : Text) : Prop where
  spells : Spells parts values front
  leads : front <+: s
  greatest : ∀ ws u, Spells parts ws u → u <+: s →
    ws = values ∨ shorter (sizes ws) (sizes values) = true

theorem isGreedy_of_readFront {parts : List Part} {s : Text} {r : Reading}
    (h : readFront parts s = some r) :
    ∃ front, s = front ++ r.rest ∧ IsGreedy parts s r.values front := by
  obtain ⟨front, hspells, hs⟩ := spells_of_readFront h
  refine ⟨front, hs, hspells, ⟨r.rest, hs.symm⟩, ?_⟩
  rintro ws u hws ⟨rest, hrest⟩
  have hmem : ⟨ws, rest⟩ ∈ readings parts s := mem_readings_iff.2 ⟨u, hws, hrest.symm⟩
  have hdesc := readings_descending parts s
  rw [readFront_eq_head] at h
  cases hl : readings parts s with
  | nil => rw [hl] at h; cases h
  | cons q l =>
    rw [hl] at h hmem hdesc
    cases h
    rcases List.mem_cons.1 hmem with heq | hmem
    · exact .inl (congrArg Reading.values heq)
    · exact .inr ((List.pairwise_cons.1 hdesc).1 _ hmem)

theorem exists_readFront_iff {parts : List Part} {s : Text} :
    (∃ r, readFront parts s = some r) ↔ ∃ ws u, Spells parts ws u ∧ u <+: s := by
  constructor
  · rintro ⟨r, h⟩
    obtain ⟨u, hu, hs⟩ := spells_of_readFront h
    exact ⟨r.values, u, hu, r.rest, hs.symm⟩
  · rintro ⟨ws, u, hu, rest, hs⟩
    have hmem : ⟨ws, rest⟩ ∈ readings parts s := mem_readings_iff.2 ⟨u, hu, hs.symm⟩
    rw [readFront_eq_head]
    cases hl : readings parts s with
    | nil => rw [hl] at hmem; cases hmem
    | cons q l => exact ⟨q, rfl⟩

/-! ## Whole texts -/

theorem shorter_strictOrder : StrictOrder shorter :=
  StrictOrder.list
    { irrefl := fun i => by simp
      trans := fun h₁ h₂ => by simp only [decide_eq_true_eq] at *; omega
      eq_of_not := fun h₁ h₂ => by simp only [decide_eq_false_iff_not] at *; omega }

/-- `values` spell the whole text, and no other values that do have greater lengths. -/
structure IsGreedyWhole (parts : List Part) (s : Text) (values : List Text) : Prop where
  spells : Spells parts values s
  greatest : ∀ ws, Spells parts ws s → ws = values ∨ shorter (sizes ws) (sizes values) = true

theorem IsGreedyWhole.unique {parts : List Part} {s : Text} {vs ws : List Text}
    (hv : IsGreedyWhole parts s vs) (hw : IsGreedyWhole parts s ws) : vs = ws := by
  rcases hw.greatest vs hv.spells with heq | hvw
  · exact heq
  · rcases hv.greatest ws hw.spells with heq | hwv
    · exact heq.symm
    · exact absurd (shorter_strictOrder.trans hvw hwv) shorter_strictOrder.not_self

theorem isGreedyWhole_of_readWhole {parts : List Part} {s : Text} {r : Reading}
    (h : readWhole parts s = some r) : IsGreedyWhole parts s r.values := by
  refine ⟨spells_of_readWhole h, ?_⟩
  intro ws hws
  have hmem : ⟨ws, []⟩ ∈ readings parts s := mem_readings_iff.2 ⟨s, hws, by simp⟩
  rw [readWhole_eq_find] at h
  have hfirst := eq_or_of_find? (readings_descending parts s) h hmem rfl
  exact hfirst.imp_left (congrArg Reading.values)

theorem readWhole_eq_some_iff {parts : List Part} {s : Text} {values : List Text} :
    (∃ r, readWhole parts s = some r ∧ r.values = values) ↔ IsGreedyWhole parts s values := by
  constructor
  · rintro ⟨r, h, rfl⟩
    exact isGreedyWhole_of_readWhole h
  · intro hv
    have hne : readWhole parts s ≠ none := fun hnone => readWhole_eq_none_iff.1 hnone _ hv.spells
    obtain ⟨r, h⟩ := Option.ne_none_iff_exists'.1 hne
    exact ⟨r, h, (isGreedyWhole_of_readWhole h).unique hv⟩

end FactForm
