import FactForm.Proofs.Program.RoundTrip

/-!
# FactForm.Proofs.Program.Occurrence

Where the facts of a text stand, for any text at all. The search looks at one character after the
other and remembers whether a statement may start there; what it takes is described here without
it, by the positions between which a fact stands.

* `StartsStatement` — a statement may start behind a text.
* `FactAt` — a fact stands between two positions of a text.
* `Leftmost` — the facts that are found from a position on, each time the leftmost one behind the one
  taken before.
* `FactAt.end_unique` — no two facts start at one position.
* `Leftmost.mem_or_overlaps` — a fact that is not taken starts inside one that is.
* `leftmost_factsFrom`, `exists_leftmost` — the search takes the leftmost facts, behind any text and
  from its beginning.
* `programFacts_leftmost` — what this says of the facts of a text.
-/

namespace FactForm

def slice (s : Text) (i j : Nat) : Text := (s.drop i).take (j - i)

/-- A statement may start behind this text: going back over blanks one reaches its beginning, passes
a line break or comes to a period. -/
def StartsStatement (front : Text) : Prop :=
  let passed := front.reverse.takeWhile Text.isBlank
  let reached := front.reverse.dropWhile Text.isBlank
  reached = [] ∨ '\n' ∈ passed ∨ '\r' ∈ passed ∨ reached.head? = some '.'

/-- Between the positions stands an atom, at the start of a statement and in front of a period. -/
structure FactAt (s : Text) (i j : Nat) : Prop where
  starts : StartsStatement (s.take i)
  spells : ∃ p vs, SpellsAtom p vs (slice s i j)
  period : s[j]? = some '.'

/-- The facts that are found from position `k` on: the one that starts first, then those from its end
on. -/
inductive Leftmost (s : Text) : Nat → List (Nat × Nat) → Prop where
  | done {k : Nat} : (∀ i j, FactAt s i j → i < k) → Leftmost s k []
  | take {k i j : Nat} {spans : List (Nat × Nat)} :
      FactAt s i j → k ≤ i → (∀ i' j', FactAt s i' j' → k ≤ i' → i ≤ i') →
      Leftmost s j spans → Leftmost s k ((i, j) :: spans)

variable {s front t fact rest : Text} {c : Char} {i j k : Nat} {spans : List (Nat × Nat)}

/-! ## Starts of statements -/

theorem startsStatement_nil : StartsStatement [] := .inl rfl

theorem startsStatement_snoc :
    StartsStatement (front ++ [c]) ↔
      endsStatement c = true ∨ StartsStatement front ∧ Text.isBlank c = true := by
  have hends : endsStatement c = true ↔ c = '.' ∨ c = '\n' ∨ c = '\r' := by
    simp [endsStatement, or_assoc]
  have hreverse : (front ++ [c]).reverse = c :: front.reverse := List.reverse_concat
  rw [hends, StartsStatement, hreverse]
  cases hb : Text.isBlank c with
  | true =>
    have hdot : c ≠ '.' := ne_of_isBlank hb rfl
    rw [List.takeWhile_cons_of_pos hb, List.dropWhile_cons_of_pos hb, List.mem_cons, List.mem_cons,
      StartsStatement, @eq_comm _ '\n', @eq_comm _ '\r']
    simp only [hdot, false_or, and_true, or_assoc, or_left_comm]
  | false =>
    have hlf : c ≠ '\n' := (ne_of_isBlank rfl hb).symm
    have hcr : c ≠ '\r' := (ne_of_isBlank rfl hb).symm
    have hpos : ¬ Text.isBlank c = true := Bool.eq_false_iff.1 hb
    rw [List.takeWhile_cons_of_neg hpos, List.dropWhile_cons_of_neg hpos]
    simp [hlf, hcr]

/-! ## Facts at a place -/

theorem slice_append (front fact rest : Text) :
    slice (front ++ (fact ++ rest)) front.length (front.length + fact.length) = fact := by
  rw [slice, List.drop_left, Nat.add_sub_cancel_left, List.take_left]

theorem FactAt.lt (h : FactAt s i j) : i < j := by
  obtain ⟨p, vs, hspells⟩ := h.spells
  refine Nat.lt_of_not_le fun hle => ?_
  rw [slice, Nat.sub_eq_zero_of_le hle, List.take_zero] at hspells
  exact hspells.ne_nil rfl

theorem FactAt.lt_length (h : FactAt s i j) : j < s.length :=
  (List.getElem?_eq_some_iff.1 h.period).1

theorem factAt_iff :
    FactAt (front ++ t) front.length j ↔
      StartsStatement front ∧
        ∃ fact rest, readFact t = some (fact, rest) ∧ j = front.length + fact.length := by
  constructor
  · intro h
    obtain ⟨n, rfl⟩ := Nat.exists_eq_add_of_le (Nat.le_of_lt h.lt)
    have hstart := h.starts
    have hspells := h.spells
    have hperiod := h.period
    rw [List.take_left] at hstart
    rw [slice, List.drop_left, Nat.add_sub_cancel_left] at hspells
    rw [List.getElem?_append_right (Nat.le_add_right _ n), Nat.add_sub_cancel_left] at hperiod
    obtain ⟨hlt, hget⟩ := List.getElem?_eq_some_iff.1 hperiod
    have hsplit : t = t.take n ++ '.' :: t.drop (n + 1) := by
      rw [← hget, ← List.drop_eq_getElem_cons hlt, List.take_append_drop]
    refine ⟨hstart, t.take n, t.drop (n + 1), readFact_eq_some_iff.2 ⟨hspells, hsplit⟩, ?_⟩
    rw [List.length_take, Nat.min_eq_left (Nat.le_of_lt hlt)]
  · rintro ⟨hstart, fact, rest, hread, rfl⟩
    obtain ⟨hspells, rfl⟩ := readFact_eq_some_iff.1 hread
    refine ⟨?_, ?_, ?_⟩
    · rwa [List.take_left]
    · rwa [slice_append]
    · rw [← List.length_append, ← List.append_assoc,
        List.getElem?_append_right (Nat.le_refl _), Nat.sub_self]
      rfl

/-- No two facts start at one position: each ends where the atom that is read there ends. -/
theorem FactAt.end_unique {j' : Nat} (h : FactAt s i j) (h' : FactAt s i j') : j = j' := by
  have hlen : (s.take i).length = i :=
    List.length_take_of_le (Nat.le_of_lt (Nat.lt_trans h.lt h.lt_length))
  obtain ⟨front, t, rfl, rfl⟩ : ∃ front t, s = front ++ t ∧ i = front.length :=
    ⟨s.take i, s.drop i, (List.take_append_drop i s).symm, hlen.symm⟩
  obtain ⟨_, fact, rest, hread, rfl⟩ := factAt_iff.1 h
  obtain ⟨_, fact', rest', hread', rfl⟩ := factAt_iff.1 h'
  rw [hread] at hread'
  cases hread'
  rfl

/-! ## Leftmost facts -/

namespace Leftmost

theorem of_le (h : Leftmost s k spans) {k' : Nat} (hk : k' ≤ k)
    (hnone : ∀ i j, FactAt s i j → k' ≤ i → k ≤ i) : Leftmost s k' spans := by
  cases h with
  | done hdone =>
    refine .done fun i j hfact => Nat.lt_of_not_le fun hi => ?_
    exact absurd (hdone i j hfact) (Nat.not_lt_of_le (hnone i j hfact hi))
  | take hfact hi hfirst hrest =>
    refine .take hfact (Nat.le_trans hk hi) ?_ hrest
    intro i' j' hfact' hi'
    exact hfirst i' j' hfact' (hnone i' j' hfact' hi')

theorem unique {spans' : List (Nat × Nat)} (h : Leftmost s k spans) (h' : Leftmost s k spans') :
    spans = spans' := by
  induction h generalizing spans' with
  | done hdone =>
    cases h' with
    | done => rfl
    | take hfact hi _ _ => exact absurd (hdone _ _ hfact) (Nat.not_lt_of_le hi)
  | @take k i j spans hfact hi hfirst _ ih =>
    cases h' with
    | done hdone => exact absurd (hdone _ _ hfact) (Nat.not_lt_of_le hi)
    | @take _ i' j' spans' hfact' hi' hfirst' hrest' =>
      obtain rfl : i = i' := Nat.le_antisymm (hfirst i' j' hfact' hi') (hfirst' i j hfact hi)
      obtain rfl : j = j' := hfact.end_unique hfact'
      rw [ih hrest']

theorem factAt_of_mem (h : Leftmost s k spans) {x : Nat × Nat} (hx : x ∈ spans) :
    FactAt s x.1 x.2 := by
  induction h with
  | done => cases hx
  | take hfact _ _ _ ih =>
    rcases List.mem_cons.1 hx with rfl | hx
    · exact hfact
    · exact ih hx

theorem ordered (h : Leftmost s k spans) :
    (∀ x ∈ spans, k ≤ x.1 ∧ x.1 < x.2) ∧ spans.Pairwise fun x y => x.2 ≤ y.1 := by
  induction h with
  | done => exact ⟨by simp, List.Pairwise.nil⟩
  | @take k i j spans hfact hi _ _ ih =>
    have hlt := hfact.lt
    refine ⟨?_, List.pairwise_cons.2 ⟨fun x hx => (ih.1 x hx).1, ih.2⟩⟩
    intro x hx
    rcases List.mem_cons.1 hx with rfl | hx
    · exact ⟨hi, hlt⟩
    · obtain ⟨hj, hx'⟩ := ih.1 x hx
      exact ⟨by omega, hx'⟩

theorem length_le (h : Leftmost s k spans) (hk : k ≤ s.length) : k + spans.length ≤ s.length := by
  induction h with
  | done => exact hk
  | take hfact hi _ _ ih =>
    have hrest := ih (Nat.le_of_lt hfact.lt_length)
    have hlt := hfact.lt
    rw [List.length_cons]
    omega

theorem mem_or_overlaps (h : Leftmost s k spans) (hfact : FactAt s i j) (hi : k ≤ i) :
    (i, j) ∈ spans ∨ ∃ x ∈ spans, x.1 < i ∧ i < x.2 := by
  induction h with
  | done hdone => exact absurd (hdone i j hfact) (Nat.not_lt_of_le hi)
  | @take k a b spans htaken _ hfirst _ ih =>
    have hai := hfirst i j hfact hi
    rcases Nat.lt_or_eq_of_le hai with hlt | rfl
    · rcases Nat.lt_or_ge i b with hib | hbi
      · exact .inr ⟨(a, b), List.mem_cons_self, hlt, hib⟩
      · rcases ih hbi with hmem | ⟨x, hx, hover⟩
        · exact .inl (List.mem_cons_of_mem _ hmem)
        · exact .inr ⟨x, List.mem_cons_of_mem _ hx, hover⟩
    · rw [hfact.end_unique htaken]
      exact .inl List.mem_cons_self

end Leftmost

/-! ## The search -/

theorem leftmost_skip (hs : s = front ++ c :: t) (hk : k = front.length)
    (hnone : StartsStatement front → readFact (c :: t) = none) (h : Leftmost s (k + 1) spans) :
    Leftmost s k spans := by
  subst hs hk
  refine h.of_le (Nat.le_succ _) ?_
  intro i j hfact hi
  rcases Nat.lt_or_eq_of_le hi with hlt | rfl
  · exact hlt
  · obtain ⟨hstart, fact, rest, hread, _⟩ := factAt_iff.1 hfact
    rw [hnone hstart] at hread
    cases hread

theorem readFact_period (t : Text) : readFact ('.' :: t) = none :=
  readFact_eq_none (by decide) (by decide) t

/-- The search in what is left of a text takes the leftmost facts. The induction is on what is left;
`opened` says whether a statement may start behind what was passed. -/
theorem leftmost_factsFrom {opened : Bool} (hopened : opened = true ↔ StartsStatement front) :
    ∃ spans, Leftmost (front ++ t) front.length spans ∧
      factsFrom opened t = spans.map fun x => slice (front ++ t) x.1 x.2 := by
  fun_induction factsFrom opened t generalizing front with
  | case1 opened =>
    refine ⟨[], .done fun i j hfact => ?_, rfl⟩
    have hlt := Nat.lt_trans hfact.lt hfact.lt_length
    rwa [List.append_nil] at hlt
  | case2 opened c r fact rest hread ih =>
    split at hread
    · rename_i hopen
      have hstart := hopened.1 hopen
      obtain ⟨_, hsplit⟩ := readFact_eq_some_iff.1 hread
      have hnext : true = true ↔ StartsStatement (front ++ fact ++ ['.']) :=
        ⟨fun _ => startsStatement_snoc.2 (.inl rfl), fun _ => rfl⟩
      obtain ⟨spans, hleft, hfacts⟩ := ih hnext
      have hfact : FactAt (front ++ c :: r) front.length (front.length + fact.length) :=
        factAt_iff.2 ⟨hstart, fact, rest, hread, rfl⟩
      have htext : front ++ c :: r = front ++ fact ++ '.' :: rest := by
        rw [hsplit, List.append_assoc]
      rw [List.append_assoc, List.singleton_append] at hleft hfacts
      rw [List.length_append, List.length_singleton] at hleft
      have hbehind := leftmost_skip rfl rfl (fun _ => readFact_period rest) hleft
      rw [List.length_append] at hbehind
      rw [htext] at hfact ⊢
      refine ⟨_, .take hfact (Nat.le_refl _) (fun _ _ _ hi => hi) hbehind, ?_⟩
      rw [hfacts, List.map_cons, List.append_assoc, slice_append]
    · cases hread
  | case3 opened c r hnone ih =>
    have hnext : (endsStatement c || (opened && Text.isBlank c)) = true ↔
        StartsStatement (front ++ [c]) := by
      rw [startsStatement_snoc, Bool.or_eq_true, Bool.and_eq_true, hopened]
    obtain ⟨spans, hleft, hfacts⟩ := ih hnext
    rw [List.append_assoc, List.singleton_append] at hleft hfacts
    rw [List.length_append, List.length_singleton] at hleft
    refine ⟨spans, leftmost_skip rfl rfl ?_ hleft, hfacts⟩
    intro hstart
    rwa [dif_pos (hopened.2 hstart)] at hnone

theorem exists_leftmost (s : Text) :
    ∃ spans, Leftmost s 0 spans ∧ programFacts s = spans.map fun x => slice s x.1 x.2 := by
  have hstart : true = true ↔ StartsStatement [] := ⟨fun _ => startsStatement_nil, fun _ => rfl⟩
  exact leftmost_factsFrom hstart

/-- The facts of a text are the texts between the positions of the leftmost facts. These are fixed by
the text; they follow one another and none is empty, so that there are no more of them than
characters; at no position two facts start; and a fact that does not overlap one of those taken is
among them. -/
theorem programFacts_leftmost (s : Text) :
    (∃ spans, Leftmost s 0 spans ∧ programFacts s = spans.map (fun x => slice s x.1 x.2) ∧
      (∀ others, Leftmost s 0 others → others = spans) ∧
      (∀ x ∈ spans, FactAt s x.1 x.2 ∧ x.1 < x.2) ∧
      spans.Pairwise (fun x y => x.2 ≤ y.1) ∧ spans.length ≤ s.length ∧
      ∀ i j, FactAt s i j → (i, j) ∈ spans ∨ ∃ x ∈ spans, x.1 < i ∧ i < x.2) ∧
    ∀ i j j', FactAt s i j → FactAt s i j' → j = j' := by
  obtain ⟨spans, hleft, hfacts⟩ := exists_leftmost s
  have hlen := hleft.length_le (Nat.zero_le _)
  rw [Nat.zero_add] at hlen
  refine ⟨⟨spans, hleft, hfacts, ?_, ?_, hleft.ordered.2, hlen, ?_⟩, ?_⟩
  · intro others hothers
    exact hothers.unique hleft
  · intro x hx
    exact ⟨hleft.factAt_of_mem hx, (hleft.ordered.1 x hx).2⟩
  · intro i j hfact
    exact hleft.mem_or_overlaps hfact (Nat.zero_le i)
  · intro i j j' h h'
    exact h.end_unique h'

end FactForm
