import FactForm.Proofs.Entity.Values
import FactForm.Proofs.Template.LongestRun
import Mathlib.Data.List.Induction

/-!
# FactForm.Proofs.Entity.FullMatch

What is read from a text that follows a template from end to end, for any template, and how far the
scan of the same text comes. The text is split with the greatest lengths; the split gives a dictionary
unless it holds two values under one id, and then the first such id from the left is the error.

* `IsConsistent`, `FirstConflict` — no name has two values, and the first name that has.
* `collectValues_eq_ok_iff`, `collectValues_eq_error_iff` — collecting values decides between the two.
* `Template.Takes` — the values of a text are those of given pairs of ids and values.
* `Template.takes_of_isGreedyWhole` — a text has the values of its greedy split.
* `Template.valuesOf_greedy` — the full match, and where it agrees with the scan.
-/

namespace FactForm

/-- No name has two values. -/
def IsConsistent (pairs : List (Text × Text)) : Prop :=
  ∀ id v w, (id, v) ∈ pairs → (id, w) ∈ pairs → v = w

/-- From the left, `id` is the first name that gets a second value. -/
def FirstConflict (pairs : List (Text × Text)) (id : Text) : Prop :=
  ∃ front w rest, pairs = front ++ (id, w) :: rest ∧ IsConsistent front ∧
    ∃ v, (id, v) ∈ front ∧ v ≠ w

section Pairs

variable {pairs front rest : List (Text × Text)} {id v w : Text} {m d : Dictionary Text}

theorem isConsistent_snoc (h : IsConsistent pairs) (hw : ∀ v, (id, v) ∈ pairs → v = w) :
    IsConsistent (pairs ++ [(id, w)]) := by
  intro k x y hx hy
  rw [List.mem_append, List.mem_singleton, Prod.mk.injEq] at hx hy
  rcases hx with hx | ⟨rfl, rfl⟩
  · rcases hy with hy | ⟨rfl, rfl⟩
    · exact h k x y hx hy
    · exact hw x hx
  · rcases hy with hy | ⟨_, rfl⟩
    · exact (hw y hy).symm
    · rfl

/-- Either no name has two values or one of them is the first that has. -/
theorem isConsistent_or_firstConflict (pairs : List (Text × Text)) :
    IsConsistent pairs ∨ ∃ id, FirstConflict pairs id := by
  induction pairs using List.reverseRecOn with
  | nil => exact .inl fun _ _ _ hv => absurd hv List.not_mem_nil
  | append_singleton pairs e ih =>
    obtain ⟨k, w⟩ := e
    rcases ih with hpairs | ⟨id, front, u, rest, hsplit, hfront⟩
    · by_cases hw : ∀ v, (k, v) ∈ pairs → v = w
      · exact .inl (isConsistent_snoc hpairs hw)
      · obtain ⟨v, hv⟩ := not_forall.1 hw
        exact .inr ⟨k, pairs, w, [], rfl, hpairs, v, Classical.not_imp.1 hv⟩
    · refine .inr ⟨id, front, u, rest ++ [(k, w)], ?_, hfront⟩
      rw [hsplit, List.append_assoc, List.cons_append]

theorem exists_firstConflict_iff : (∃ id, FirstConflict pairs id) ↔ ¬ IsConsistent pairs := by
  constructor
  · rintro ⟨id, front, w, rest, rfl, _, v, hv, hne⟩ hpairs
    exact hne (hpairs id v w (List.mem_append_left _ hv) (by simp))
  · exact (isConsistent_or_firstConflict pairs).resolve_left

/-! ## Collecting -/

theorem collectValues_append (h : collectValues d front = .ok m) (rest : List (Text × Text)) :
    collectValues d (front ++ rest) = collectValues m rest := by
  induction front generalizing d with
  | nil =>
    cases h
    rfl
  | cons e front ih =>
    obtain ⟨k, u⟩ := e
    simp only [collectValues, List.cons_append] at h ⊢
    split at h
    · exact ih h
    · split at h
      · rename_i hu
        rw [if_pos hu]
        exact ih h
      · cases h

theorem exists_collectValues (h : IsConsistent pairs) :
    ∃ m, collectValues .empty pairs = .ok m := by
  cases hc : collectValues .empty pairs with
  | ok m => exact ⟨m, rfl⟩
  | error id =>
    obtain ⟨v, w, hne, hv, hw⟩ := collectValues_error hc
    rcases hv with hempty | hv
    · cases hempty
    · exact absurd (h id v w hv hw) hne

theorem get?_collectValues (h : collectValues .empty pairs = .ok m) :
    m.get? id = some v ↔ (id, v) ∈ pairs := by
  obtain ⟨_, hpairs, honly⟩ := collectValues_ok h
  refine ⟨fun hv => ?_, hpairs (id, v)⟩
  rcases honly id v hv with hempty | hmem
  · cases hempty
  · exact hmem

/-- Values are collected if no name has two of them, and then the dictionary has these and no others. -/
theorem collectValues_eq_ok_iff :
    collectValues .empty pairs = .ok m ↔
      IsConsistent pairs ∧ ∀ id v, m.get? id = some v ↔ (id, v) ∈ pairs := by
  constructor
  · intro h
    refine ⟨?_, fun id v => get?_collectValues h⟩
    intro id v w hv hw
    have heq : some v = some w :=
      ((get?_collectValues h).2 hv).symm.trans ((get?_collectValues h).2 hw)
    exact Option.some.inj heq
  · rintro ⟨hpairs, hm⟩
    obtain ⟨d, hd⟩ := exists_collectValues hpairs
    have hdm : d = m := by
      refine Dictionary.ext fun id => Option.ext fun v => ?_
      rw [hm, get?_collectValues hd]
    rwa [← hdm]

theorem collectValues_of_firstConflict (h : FirstConflict pairs id) :
    collectValues .empty pairs = .error id := by
  obtain ⟨front, w, rest, rfl, hfront, v, hv, hne⟩ := h
  obtain ⟨d, hd⟩ := exists_collectValues hfront
  have hget : d.get? id = some v := (get?_collectValues hd).2 hv
  rw [collectValues_append hd, collectValues]
  simp only [hget, if_neg hne]

theorem collectValues_eq_error_iff :
    collectValues .empty pairs = .error id ↔ FirstConflict pairs id := by
  refine ⟨fun h => ?_, collectValues_of_firstConflict⟩
  rcases isConsistent_or_firstConflict pairs with hpairs | ⟨k, hk⟩
  · obtain ⟨m, hm⟩ := exists_collectValues hpairs
    rw [hm] at h
    cases h
  · have hkid : k = id := by
      rw [collectValues_of_firstConflict hk] at h
      exact Except.error.inj h
    rwa [← hkid]

end Pairs

namespace Template

variable {t : Template} {s : Text} {values : List Text} {pairs : List (Text × Text)}

/-- The values of a text are those of the pairs. If a name has two of them there is an error, and it
gives the first such name from the left. -/
structure Takes (t : Template) (s : Text) (pairs : List (Text × Text)) : Prop where
  exists_ok_iff : (∃ m, t.valuesOf s = .ok m) ↔ IsConsistent pairs
  exists_conflict_iff :
    (∃ id, t.valuesOf s = .error (.conflictingValues id s t.shape)) ↔ ¬ IsConsistent pairs
  ok_iff : ∀ m, t.valuesOf s = .ok m ↔
    IsConsistent pairs ∧ ∀ id v, m.get? id = some v ↔ (id, v) ∈ pairs
  conflict_iff : ∀ id, t.valuesOf s = .error (.conflictingValues id s t.shape) ↔
    FirstConflict pairs id

theorem takes_of_readWhole {r : Reading} (h : readWhole t.parts s = some r) :
    t.Takes s (t.ids.zip r.values) := by
  have hok : ∀ m, t.valuesOf s = .ok m ↔ collectValues .empty (t.ids.zip r.values) = .ok m := by
    intro m
    rw [valuesOf, h]
    cases hc : collectValues .empty (t.ids.zip r.values) <;> simp [hc]
  have herror : ∀ id, t.valuesOf s = .error (.conflictingValues id s t.shape) ↔
      collectValues .empty (t.ids.zip r.values) = .error id := by
    intro id
    rw [valuesOf, h]
    cases hc : collectValues .empty (t.ids.zip r.values) <;> simp [hc]
  refine ⟨?_, ?_, ?_, ?_⟩
  · simp only [hok]
    refine ⟨?_, exists_collectValues⟩
    rintro ⟨m, hm⟩
    exact (collectValues_eq_ok_iff.1 hm).1
  · simp only [herror, collectValues_eq_error_iff]
    exact exists_firstConflict_iff
  · intro m
    rw [hok, collectValues_eq_ok_iff]
  · intro id
    rw [herror, collectValues_eq_error_iff]

theorem takes_of_isGreedyWhole (h : IsGreedyWhole t.parts s values) :
    t.Takes s (t.ids.zip values) := by
  obtain ⟨r, hr, rfl⟩ := readWhole_eq_some_iff.2 h
  exact takes_of_readWhole hr

theorem valuesOf_eq_unmatched_iff :
    t.valuesOf s = .error (.unmatched s t.shape) ↔ ∀ values, ¬ Spells t.parts values s := by
  rw [← readWhole_eq_none_iff, valuesOf]
  cases hr : readWhole t.parts s with
  | none => simp
  | some r => cases hc : collectValues .empty (t.ids.zip r.values) <;> simp [hc]

/-! ## The scan of the same text -/

theorem isComplete_of_spells (h : Spells t.parts values s) : (t.scan s).isComplete = true := by
  have hall : Spells (t.parts.take t.parts.length) values s := by rwa [List.take_length]
  have hle := (le_longestRun_iff (Nat.le_refl _)).2 ⟨values, s, hall, List.prefix_refl s⟩
  rw [Scan.isComplete, beq_iff_eq]
  exact Nat.le_antisymm (longestRun_le _ _ _) hle

theorem isGreedyWhole_of_isComplete (hc : (t.scan s).isComplete = true)
    (ht : (t.scan s).tail = []) :
    IsGreedyWhole t.parts s ((t.scan s).slots.map (·.value)) := by
  obtain ⟨r, hr, htail, hslots⟩ := readFront_scan t s
  rw [parts_of_isComplete hc] at hr hslots
  have hwhole := isGreedyWhole_of_readWhole (readWhole_of_readFront hr (htail ▸ ht))
  rwa [hslots, map_layout_value hwhole.spells]

/-- A text is unmatched exactly if the parts cannot spell it. Otherwise it has a greedy split, and this
gives its values or the first conflict. If the scan of the text is complete and has no tail, its slots
are the split; and it is complete whenever the parts spell the text. -/
theorem valuesOf_greedy (t : Template) (s : Text) :
    (t.valuesOf s = .error (.unmatched s t.shape) ↔ ∀ values, ¬ Spells t.parts values s) ∧
    ((∃ values, Spells t.parts values s) → ∃ values, IsGreedyWhole t.parts s values) ∧
    (∀ values, IsGreedyWhole t.parts s values → t.Takes s (t.ids.zip values)) ∧
    ((t.scan s).isComplete = true → (t.scan s).tail = [] →
      (t.scan s).slots.map (fun m => (m.index, m.placeholder)) = numberedSlots 0 t.parts ∧
      IsGreedyWhole t.parts s ((t.scan s).slots.map (·.value))) ∧
    ((∃ values, Spells t.parts values s) → (t.scan s).isComplete = true) := by
  refine ⟨valuesOf_eq_unmatched_iff, ?_, fun values => takes_of_isGreedyWhole, ?_, ?_⟩
  · rintro ⟨values, hs⟩
    have hne : readWhole t.parts s ≠ none := fun hnone => readWhole_eq_none_iff.1 hnone _ hs
    obtain ⟨r, hr⟩ := Option.ne_none_iff_exists'.1 hne
    exact ⟨r.values, isGreedyWhole_of_readWhole hr⟩
  · intro hc ht
    have hslots := (isExact_scan t s).slots
    rw [parts_of_isComplete hc] at hslots
    exact ⟨hslots, isGreedyWhole_of_isComplete hc ht⟩
  · rintro ⟨values, hs⟩
    exact isComplete_of_spells hs

/-- `::a::a`, one value written twice. -/
def doubled : Template := ⟨[.slot ⟨['a'], ['a'], .any⟩, .slot ⟨['a'], ['a'], .any⟩]⟩

/-- The greedy split of `xyxy` is `xyx` and `y`, which is a conflict although `xy` and `xy` is a split
without one. -/
theorem doubled_conflict :
    Spells doubled.parts ["xy".toList, "xy".toList] "xyxy".toList ∧
    IsGreedyWhole doubled.parts "xyxy".toList ["xyx".toList, "y".toList] ∧
    doubled.valuesOf "xyxy".toList =
      .error (.conflictingValues ['a'] "xyxy".toList doubled.shape) := by
  have hs : Spells doubled.parts ["xy".toList, "xy".toList] "xyxy".toList :=
    .slot rfl (.slot rfl .nil)
  obtain ⟨_, _, htakes, hscan, hcomplete⟩ := valuesOf_greedy doubled "xyxy".toList
  have hgreedy : IsGreedyWhole doubled.parts "xyxy".toList ["xyx".toList, "y".toList] :=
    (hscan (hcomplete ⟨_, hs⟩) (by decide)).2
  have hfront : IsConsistent [(['a'], "xyx".toList)] := by
    intro id v w hv hw
    rw [List.mem_singleton, Prod.mk.injEq] at hv hw
    rw [hv.2, hw.2]
  refine ⟨hs, hgreedy, ((htakes _ hgreedy).conflict_iff ['a']).2 ?_⟩
  exact ⟨_, "y".toList, [], rfl, hfront, "xyx".toList, List.mem_singleton_self _, by decide⟩

/-- The scan takes `ab` and `0` and leaves a tail; only the full match finds `a` and `b0C`. -/
example :
    ((Template.mk [.slot ⟨['a'], ['a'], .any⟩, .slot ⟨['b'], ['b'], .any⟩]).scan
      "ab0C".toList).tail = ['C'] ∧
    (readWhole [.slot ⟨['a'], ['a'], .any⟩, .slot ⟨['b'], ['b'], .any⟩] "ab0C".toList).map
      Reading.values = some ["a".toList, "b0C".toList] := by decide

end Template
end FactForm
