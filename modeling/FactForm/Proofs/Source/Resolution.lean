import FactForm.Proofs.Source.Candidates
import Mathlib.Data.List.Sort

/-!
# FactForm.Proofs.Source.Resolution

What is offered for a source that draws from facts. These are the arguments of the facts that begin with
what is typed, each in the place of the first fact that has it. Typing on only drops some of them, and
the first arguments of a set of facts come in the order of texts.

* `eraseDups_cons_filter`, `filter_eraseDups` — taking the first occurrences, step by step.
* `firstFact` — where the first fact stands that has a value.
* `firstFact_ascending` — values are offered in the order of these places.
* `Resolves` — what the values for a typed text are.
* `candidatesIn_resolves` — they are what is offered, for every list of facts and every typed text.
-/

namespace FactForm

/-! ## First occurrences -/

section FirstOccurrences

variable {α : Type} [BEq α] [LawfulBEq α]

theorem filter_eraseDups (p : α → Bool) (l : List α) :
    l.eraseDups.filter p = (l.filter p).eraseDups := by
  induction hlen : l.length using Nat.strongRecOn generalizing l with
  | _ n ih =>
    cases l with
    | nil => rfl
    | cons x l =>
      have hshort : (l.filter fun y => !y == x).length < n := by
        rw [← hlen]
        exact Nat.lt_succ_of_le (List.length_filter_le _ _)
      rw [List.eraseDups_cons, List.filter_cons, List.filter_cons, ih _ hshort _ rfl]
      cases hx : p x with
      | true => rw [if_pos rfl, if_pos rfl, List.eraseDups_cons, List.filter_comm]
      | false =>
        -- Among those that pass there is no `x`.
        have hne : ∀ y ∈ l, (p y && !y == x) = p y := by
          intro y _
          cases hy : p y with
          | false => rfl
          | true =>
            have hyx : (y == x) = false := by
              rw [beq_eq_false_iff_ne]
              rintro rfl
              rw [hx] at hy
              cases hy
            rw [hyx]
            rfl
        rw [if_neg Bool.false_ne_true, if_neg Bool.false_ne_true, List.filter_filter,
          List.filter_congr hne]

theorem eraseDups_cons_filter (x : α) (l : List α) :
    (x :: l).eraseDups = x :: l.eraseDups.filter fun y => !y == x := by
  rw [List.eraseDups_cons, filter_eraseDups]

theorem eraseDups_sublist (l : List α) : l.eraseDups.Sublist l := by
  induction l with
  | nil => exact List.Sublist.refl []
  | cons x l ih =>
    rw [eraseDups_cons_filter]
    exact (List.filter_sublist.trans ih).cons_cons x

theorem nodup_eraseDups (l : List α) : l.eraseDups.Nodup := by
  induction l with
  | nil => exact List.nodup_nil
  | cons x l ih =>
    rw [eraseDups_cons_filter]
    exact List.nodup_cons.2 ⟨by simp, ih.sublist List.filter_sublist⟩

theorem eraseDups_map {β : Type} [BEq β] [LawfulBEq β] {f : α → β} (hf : Function.Injective f)
    (l : List α) : (l.map f).eraseDups = l.eraseDups.map f := by
  induction l with
  | nil => rfl
  | cons x l ih =>
    have heq : ∀ y ∈ l.eraseDups, (!f y == f x) = !y == x := by
      intro y _
      rw [Bool.eq_iff_iff]
      simp [hf.eq_iff]
    rw [List.map_cons, eraseDups_cons_filter, eraseDups_cons_filter, ih, List.filter_map,
      List.map_cons]
    exact congrArg (f x :: List.map f ·) (List.filter_congr heq)

end FirstOccurrences

/-! ## The first facts -/

/-- The number of facts in front of the first one about `predicate` with `v` as its argument at `index`. -/
def firstFact (facts : List Atom) (predicate : Text) (index : Nat) (v : Text) : Nat :=
  facts.findIdx fun a => a.predicate = predicate ∧ a.arguments[index]? = some v

variable {facts : List Atom} {a : Atom} {predicate : Text} {index : Nat} {typed p q v w : Text}

theorem firstFact_cons_of_holds (h : a.predicate = predicate ∧ a.arguments[index]? = some v) :
    firstFact (a :: facts) predicate index v = 0 := by
  rw [firstFact, List.findIdx_cons, decide_eq_true h]
  rfl

theorem firstFact_cons_of_not (h : ¬ (a.predicate = predicate ∧ a.arguments[index]? = some v)) :
    firstFact (a :: facts) predicate index v = firstFact facts predicate index v + 1 := by
  rw [firstFact, List.findIdx_cons, decide_eq_false h]
  rfl

theorem argumentsAt_cons_of_holds (h : a.predicate = predicate ∧ a.arguments[index]? = some v) :
    argumentsAt (a :: facts) predicate index = v :: argumentsAt facts predicate index :=
  List.filterMap_cons_some (by rw [if_pos h.1, h.2])

theorem argumentsAt_cons_of_not
    (h : ∀ v, ¬ (a.predicate = predicate ∧ a.arguments[index]? = some v)) :
    argumentsAt (a :: facts) predicate index = argumentsAt facts predicate index := by
  refine List.filterMap_cons_none ?_
  split
  · rename_i hp
    exact Option.eq_none_iff_forall_ne_some.2 fun v hv => h v ⟨hp, hv⟩
  · rfl

theorem firstFact_ascending (facts : List Atom) (predicate : Text) (index : Nat) :
    (argumentsAt facts predicate index).eraseDups.Pairwise fun v w =>
      firstFact facts predicate index v < firstFact facts predicate index w := by
  induction facts with
  | nil => exact List.Pairwise.nil
  | cons a facts ih =>
    by_cases h : ∃ x, a.predicate = predicate ∧ a.arguments[index]? = some x
    · obtain ⟨x, hx⟩ := h
      have hlater : ∀ w ∈ (argumentsAt facts predicate index).eraseDups.filter fun y => !y == x,
          firstFact (a :: facts) predicate index w = firstFact facts predicate index w + 1 := by
        intro w hw
        refine firstFact_cons_of_not fun hholds => ?_
        have heq : x = w := Option.some.inj (hx.2.symm.trans hholds.2)
        simp [heq] at hw
      rw [argumentsAt_cons_of_holds hx, eraseDups_cons_filter, List.pairwise_cons]
      refine ⟨fun w hw => ?_, (ih.sublist List.filter_sublist).imp_of_mem fun hv hw hvw => ?_⟩
      · rw [firstFact_cons_of_holds hx, hlater w hw]
        exact Nat.succ_pos _
      · rw [hlater _ hv, hlater _ hw]
        exact Nat.succ_lt_succ hvw
    · rw [not_exists] at h
      rw [argumentsAt_cons_of_not h]
      refine ih.imp fun {v w} hvw => ?_
      rw [firstFact_cons_of_not (h v), firstFact_cons_of_not (h w)]
      exact Nat.succ_lt_succ hvw

/-! ## What is offered -/

/-- The values of a source for what is typed: the arguments of its facts that begin with it, each once
and in the order of the first facts that have them. -/
structure Resolves (facts : List Atom) (predicate : Text) (index : Nat) (typed : Text)
    (values : List Text) : Prop where
  mem_iff : ∀ v, v ∈ values ↔
    (∃ a ∈ facts, a.predicate = predicate ∧ a.arguments[index]? = some v) ∧ typed <+: v
  nodup : values.Nodup
  ordered : values.Pairwise fun v w =>
    firstFact facts predicate index v < firstFact facts predicate index w

theorem candidatesIn_argument (facts : List Atom) (predicate : Text) (index : Nat) (typed : Text) :
    candidatesIn facts (.argument predicate index) typed =
      (argumentsAt facts predicate index).eraseDups.filter (typed.isPrefixOf ·) :=
  (filter_eraseDups _ _).symm

theorem resolves_candidatesIn (facts : List Atom) (predicate : Text) (index : Nat) (typed : Text) :
    Resolves facts predicate index typed (candidatesIn facts (.argument predicate index) typed) where
  mem_iff v := by rw [mem_candidatesIn_argument, mem_argumentsAt]
  nodup := nodup_eraseDups _
  ordered := by
    rw [candidatesIn_argument]
    exact (firstFact_ascending facts predicate index).sublist List.filter_sublist

theorem Resolves.unique {values others : List Text}
    (h : Resolves facts predicate index typed values)
    (h' : Resolves facts predicate index typed others) : values = others := by
  let earlier : Text → Text → Prop := fun v w =>
    firstFact facts predicate index v < firstFact facts predicate index w
  have : Std.Irrefl earlier := ⟨fun v => Nat.lt_irrefl _⟩
  have : Std.Antisymm earlier := ⟨fun v w hvw hwv => absurd hvw (Nat.lt_asymm hwv)⟩
  have hvalues : values.Pairwise earlier := h.ordered
  refine hvalues.eq_of_mem_iff h'.ordered fun v => ?_
  rw [h.mem_iff, h'.mem_iff]

theorem candidatesIn_refine (h : p <+: q) :
    candidatesIn facts (.argument predicate index) q =
      (candidatesIn facts (.argument predicate index) p).filter (q.isPrefixOf ·) := by
  have hboth : ∀ v ∈ (argumentsAt facts predicate index).eraseDups,
      (q.isPrefixOf v && p.isPrefixOf v) = q.isPrefixOf v := by
    intro v _
    cases hq : q.isPrefixOf v with
    | false => rfl
    | true =>
      rw [List.isPrefixOf_iff_prefix.2 (h.trans (List.isPrefixOf_iff_prefix.1 hq))]
      rfl
  rw [candidatesIn_argument, candidatesIn_argument, List.filter_filter, List.filter_congr hboth]

/-! ## The order of a set -/

theorem Atom.first_of_before {a b : Atom} (h : a.before b = true) (hp : a.predicate = b.predicate)
    (hv : a.arguments[0]? = some v) (hw : b.arguments[0]? = some w) :
    v = w ∨ Text.before v w = true := by
  rw [← List.head?_eq_getElem?] at hv hw
  obtain ⟨l, hl⟩ := List.head?_eq_some_iff.1 hv
  obtain ⟨m, hm⟩ := List.head?_eq_some_iff.1 hw
  rw [Atom.before, Atom.tokens, Atom.tokens, hp, hl, hm] at h
  have hrest : listBefore Text.before (v :: l) (w :: m) = true := by
    rcases listBefore_cons_iff.1 h with ⟨_, hrest⟩ | ⟨hne, _⟩
    · exact hrest
    · exact absurd rfl hne
  rcases listBefore_cons_iff.1 hrest with ⟨heq, _⟩ | ⟨_, hbefore⟩
  · exact .inl heq
  · exact .inr hbefore

theorem AtomSet.candidatesIn_ascending (s : AtomSet) (predicate typed : Text) :
    (candidatesIn s.toList (.argument predicate 0) typed).Pairwise (Text.before · ·) := by
  have harguments : (argumentsAt s.toList predicate 0).Pairwise fun v w =>
      v = w ∨ Text.before v w = true := by
    refine List.Pairwise.filterMap _ (fun a b hab v hv w hw => ?_) s.ascending
    obtain ⟨hpa, hv⟩ := Option.ite_none_right_eq_some.1 hv
    obtain ⟨hpb, hw⟩ := Option.ite_none_right_eq_some.1 hw
    exact Atom.first_of_before hab (hpa.trans hpb.symm) hv hw
  have hoffered := (harguments.sublist (eraseDups_sublist _)).sublist
    (List.filter_sublist (p := (typed.isPrefixOf ·)))
  rw [← candidatesIn_argument] at hoffered
  have hnodup := (resolves_candidatesIn s.toList predicate 0 typed).nodup
  exact (hnodup.and hoffered).imp fun ⟨hne, hor⟩ => hor.resolve_left hne

/-- What is offered for a source that draws from facts is what its values for the typed text are. The
values for a longer text are those for the shorter one that begin with it, in their order. Over a set of
facts the first arguments come in the order of texts. -/
theorem candidatesIn_resolves (predicate : Text) (index : Nat) :
    (∀ facts typed values, candidatesIn facts (.argument predicate index) typed = values ↔
      Resolves facts predicate index typed values) ∧
    (∀ facts p q, p <+: q → candidatesIn facts (.argument predicate index) q =
      (candidatesIn facts (.argument predicate index) p).filter (q.isPrefixOf ·)) ∧
    (∀ (s : AtomSet) typed,
      (candidatesIn s.toList (.argument predicate 0) typed).Pairwise (Text.before · ·)) := by
  refine ⟨fun facts typed values => ?_, fun _ _ _ => candidatesIn_refine,
    fun s typed => s.candidatesIn_ascending predicate typed⟩
  have hresolves := resolves_candidatesIn facts predicate index typed
  constructor
  · rintro rfl
    exact hresolves
  · exact hresolves.unique

/-- Edges between three nodes in no order, and a fact about something else. -/
def routes : List Atom :=
  [⟨"edge".toList, ["beta".toList, "alps".toList], .refl true, .refl true⟩,
    ⟨"color".toList, ["alba".toList], .refl true, .refl true⟩,
    ⟨"edge".toList, ["alps".toList, "beta".toList], .refl true, .refl true⟩,
    ⟨"edge".toList, ["beta".toList, "alpha".toList], .refl true, .refl true⟩,
    ⟨"edge".toList, ["alpha".toList, "beta".toList], .refl true, .refl true⟩]

/-- The places of the first edges decide, until the edges are put into a set. -/
theorem routes_resolves :
    Resolves routes "edge".toList 0 [] ["beta".toList, "alps".toList, "alpha".toList] ∧
    [] <+: "al".toList ∧
    candidatesIn routes (.argument "edge".toList 0) "al".toList = ["alps".toList, "alpha".toList] ∧
    candidatesIn (AtomSet.ofList routes).toList (.argument "edge".toList 0) [] =
      ["alpha".toList, "alps".toList, "beta".toList] := by
  obtain ⟨hresolves, hrefine, _⟩ := candidatesIn_resolves "edge".toList 0
  have hall : candidatesIn routes (.argument "edge".toList 0) [] =
      ["beta".toList, "alps".toList, "alpha".toList] := by decide
  refine ⟨(hresolves _ _ _).1 hall, List.nil_prefix, ?_, by decide⟩
  rw [hrefine routes [] "al".toList List.nil_prefix, hall]
  decide

end FactForm
