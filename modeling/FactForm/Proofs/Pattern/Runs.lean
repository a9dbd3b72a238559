import FactForm.Pattern
import FactForm.Proofs.Value.Boundary
import FactForm.Template.Reading
import Mathlib.Data.List.Basic

/-!
# FactForm.Proofs.Pattern.Runs

What patterns match, in the order in which a backtracking search finds it: an alternative before the
other one, one more repetition before none.

* `Pattern.runs` — all matches at the front of a text. The values of a match are the texts of its
  groups, in the order in which the groups open.
* `Pattern.matchFront?`, `matchWhole?` — the preferred match of some front of a text and of all of it.
* `Pattern.findAll` — the matches in a text from left to right, none of which overlap.
* `Pattern.runs_star` — a repetition is one more, or none.
* `Pattern.runs_star_one` — a class of characters is repeated as often as possible, then less often.
-/

namespace FactForm

def Symbol.matches : Symbol → Char → Bool
  | .char d, c => c == d
  | .sign, c => c == '-'
  | .lower, c => c.isLower
  | .word, c => isWordChar c
  | .digit, c => c.isDigit
  | .positive, c => c.isDigit && c != '0'
  | .blank, c => Text.isBlank c
  | .unescaped, c => c != '"' && c != '\\'
  | .any, c => c != '\n'

/-- The values of two readings, of which the second begins where the first ends. -/
def Reading.append (a b : Reading) : Reading := ⟨a.values ++ b.values, b.rest⟩

namespace Pattern

/-- At most so many repetitions, each of which takes something. -/
def iterate (run : Text → List Reading) : Nat → Text → List Reading
  | 0, s => [⟨[], s⟩]
  | n + 1, s =>
    ((run s).filter fun a => a.rest.length < s.length).flatMap
      (fun a => (iterate run n a.rest).map a.append) ++ [⟨[], s⟩]

def runs : Pattern → Text → List Reading
  | .empty, s => [⟨[], s⟩]
  | .one _, [] => []
  | .one x, c :: r => if x.matches c then [⟨[], r⟩] else []
  | .seq p q, s => (p.runs s).flatMap fun a => (q.runs a.rest).map a.append
  | .alt p q, s => p.runs s ++ q.runs s
  | .star p, s => iterate p.runs s.length s
  | .optional p, s => p.runs s ++ [⟨[], s⟩]
  | .group p, s => (p.runs s).map fun a => a.cons (Text.consumed s a.rest)

def matchFront? (p : Pattern) (s : Text) : Option Reading := (p.runs s).head?

def matchWhole? (p : Pattern) (s : Text) : Option Reading := (p.runs s).find? (·.rest.isEmpty)

/-- The texts of the matches; an empty match is passed over. -/
def findAll (p : Pattern) (s : Text) : List Text :=
  match s with
  | [] => []
  | c :: r =>
    match p.matchFront? (c :: r) with
    | none => findAll p r
    | some a =>
      if _h : a.rest.length < (c :: r).length then
        Text.consumed (c :: r) a.rest :: findAll p a.rest
      else findAll p r
termination_by s.length
decreasing_by
  · exact Nat.lt_succ_self _
  · exact _h
  · exact Nat.lt_succ_self _

variable {p q : Pattern} {x : Symbol} {s r : Text} {c : Char} {a b : Reading}

/-! ## Matches of each kind of pattern -/

@[simp] theorem append_empty (s : Text) : Reading.append ⟨[], s⟩ = id := rfl

theorem runs_one_cons (h : x.matches c = true) : (one x).runs (c :: r) = [⟨[], r⟩] := by
  simp [runs, h]

theorem mem_runs_one :
    a ∈ (one x).runs s ↔ a.values = [] ∧ ∃ c, x.matches c = true ∧ s = c :: a.rest := by
  obtain ⟨values, rest⟩ := a
  cases s with
  | nil => simp [runs]
  | cons c r =>
    simp only [runs, List.cons.injEq]
    split
    · rename_i h
      simp only [List.mem_singleton, Reading.mk.injEq, and_congr_right_iff]
      intro _
      constructor
      · rintro rfl
        exact ⟨c, h, rfl, rfl⟩
      · rintro ⟨_, _, _, rfl⟩
        rfl
    · rename_i h
      simp only [List.not_mem_nil, false_iff]
      rintro ⟨_, d, hd, rfl, _⟩
      exact h hd

theorem runs_seq (p q : Pattern) (s : Text) :
    (seq p q).runs s = (p.runs s).flatMap fun a => (q.runs a.rest).map a.append := rfl

theorem runs_alt (p q : Pattern) (s : Text) : (alt p q).runs s = p.runs s ++ q.runs s := rfl

theorem runs_seq_of_nil (h : p.runs s = []) : (seq p q).runs s = [] := by
  simp [runs_seq, h]

theorem runs_seq_of_single (h : p.runs s = [a]) : (seq p q).runs s = (q.runs a.rest).map a.append := by
  simp [runs_seq, h]

theorem mem_runs_seq :
    a ∈ (seq p q).runs s ↔ ∃ b ∈ p.runs s, ∃ d ∈ q.runs b.rest, b.append d = a := by
  simp [runs_seq]

theorem iterate_nil (run : Text → List Reading) (n : Nat) : iterate run n [] = [⟨[], []⟩] := by
  cases n <;> simp [iterate]

theorem matchFront?_seq (hp : p.matchFront? s = some a) (hq : q.matchFront? a.rest = some b) :
    (seq p q).matchFront? s = some (a.append b) := by
  rw [matchFront?, List.head?_eq_some_iff] at hp hq ⊢
  obtain ⟨as, ha⟩ := hp
  obtain ⟨bs, hb⟩ := hq
  rw [runs_seq, ha, List.flatMap_cons, hb]
  exact ⟨_, rfl⟩

theorem matchFront?_group (p : Pattern) (s : Text) :
    (group p).matchFront? s = (p.matchFront? s).map fun a => a.cons (Text.consumed s a.rest) := by
  rw [matchFront?, runs, List.head?_map, matchFront?]

theorem matchFront?_optional (p : Pattern) (s : Text) :
    (optional p).matchFront? s = some ((p.matchFront? s).getD ⟨[], s⟩) := by
  cases h : p.runs s <;> simp [matchFront?, runs, h]

theorem iterate_enough {run : Text → List Reading} {m n : Nat} (hm : s.length ≤ m)
    (hn : s.length ≤ n) : iterate run m s = iterate run n s := by
  induction m generalizing s n with
  | zero =>
    rw [List.length_eq_zero_iff.1 (Nat.le_zero.1 hm), iterate_nil, iterate_nil]
  | succ m ih =>
    cases n with
    | zero => rw [List.length_eq_zero_iff.1 (Nat.le_zero.1 hn), iterate_nil, iterate_nil]
    | succ n =>
      rw [iterate, iterate]
      congr 1
      refine List.flatMap_congr ?_
      intro a ha
      have hshorter : a.rest.length < s.length := by simpa using (List.mem_filter.1 ha).2
      rw [ih (n := n) (by omega) (by omega)]

theorem runs_star (p : Pattern) (s : Text) :
    (star p).runs s =
      ((p.runs s).filter fun a => a.rest.length < s.length).flatMap
        (fun a => ((star p).runs a.rest).map a.append) ++ [⟨[], s⟩] := by
  cases s with
  | nil => simp [runs, iterate]
  | cons c r =>
    rw [runs, List.length_cons, iterate]
    congr 1
    refine List.flatMap_congr ?_
    intro a ha
    have hshorter : a.rest.length < r.length + 1 := by simpa using (List.mem_filter.1 ha).2
    rw [runs, iterate_enough (n := a.rest.length) (by omega) (by omega)]

theorem runs_star_of_nil (h : p.runs s = []) : (star p).runs s = [⟨[], s⟩] := by
  simp [runs_star p s, h]

theorem runs_star_of_single (h : p.runs s = [⟨[], r⟩]) (hr : r.length < s.length) :
    (star p).runs s = (star p).runs r ++ [⟨[], s⟩] := by
  simp [runs_star p s, h, hr]

theorem runs_star_seq_of_nil (h : p.runs s = []) : (seq (star p) q).runs s = q.runs s := by
  rw [runs_seq_of_single (runs_star_of_nil h), append_empty, List.map_id]

theorem runs_star_seq_of_single (h : p.runs s = [⟨[], r⟩]) (hr : r.length < s.length) :
    (seq (star p) q).runs s = (seq (star p) q).runs r ++ q.runs s := by
  simp [runs_seq, runs_star_of_single h hr]

theorem mem_runs_star :
    a ∈ (star p).runs s ↔ a = ⟨[], s⟩ ∨ ∃ b ∈ p.runs s, b.rest.length < s.length ∧
      ∃ d ∈ (star p).runs b.rest, b.append d = a := by
  rw [runs_star]
  simp [or_comm, and_assoc]

theorem countdown_eq_snoc (n : Nat) :
    countdown (n + 1) = (countdown n).map (· + 1) ++ [1] := by
  induction n with
  | zero => rfl
  | succ n ih =>
    calc
      countdown (n + 1 + 1) = (n + 1 + 1) :: countdown (n + 1) := rfl
      _ = (n + 1 + 1) :: ((countdown n).map (· + 1) ++ [1]) := by rw [ih]
      _ = (countdown (n + 1)).map (· + 1) ++ [1] := rfl

theorem runs_star_one (x : Symbol) (s : Text) :
    (star (one x)).runs s =
      (countdown (s.takeWhile x.matches).length).map (fun n => ⟨[], s.drop n⟩) ++ [⟨[], s⟩] := by
  induction s with
  | nil => simp [runs, iterate, countdown]
  | cons c r ih =>
    by_cases h : x.matches c = true
    · rw [runs_star_of_single (runs_one_cons h) (by simp), ih, List.takeWhile_cons_of_pos h,
        List.length_cons, countdown_eq_snoc]
      simp
    · have hnone : (one x).runs (c :: r) = [] := by simp [runs, h]
      rw [runs_star_of_nil hnone, List.takeWhile_cons_of_neg h]
      rfl

theorem mem_runs_star_one {x : Symbol} :
    a ∈ (star (one x)).runs s ↔ a.values = [] ∧ ∃ w, w.all x.matches = true ∧ s = w ++ a.rest := by
  obtain ⟨values, rest⟩ := a
  simp only [runs_star_one, List.mem_append, List.mem_map, mem_countdown, List.mem_singleton,
    Reading.mk.injEq]
  constructor
  · rintro (⟨n, ⟨_, hn⟩, rfl, rfl⟩ | ⟨rfl, rfl⟩)
    · have hle : n ≤ s.length := Nat.le_trans hn (List.takeWhile_prefix _).length_le
      exact ⟨rfl, s.take n, (all_take_iff hle).2 hn, (List.take_append_drop n s).symm⟩
    · exact ⟨rfl, [], rfl, rfl⟩
  · rintro ⟨rfl, w, hw, rfl⟩
    rcases w with _ | ⟨c, w⟩
    · exact .inr ⟨rfl, rfl⟩
    · refine .inl ⟨(c :: w).length, ⟨by simp, ?_⟩, rfl, List.drop_left⟩
      rwa [← all_take_iff (by simp), List.take_left]

theorem matchWhole?_isSome_iff :
    (p.matchWhole? s).isSome = true ↔ ∃ a ∈ p.runs s, a.rest = [] := by
  simp [matchWhole?, List.find?_isSome]

/-! ## Matches in a text -/

theorem findAll_of_none (h : p.matchFront? (c :: r) = none) : p.findAll (c :: r) = p.findAll r := by
  rw [findAll, h]

theorem findAll_of_some (h : p.matchFront? s = some a) (ha : a.rest.length < s.length) :
    p.findAll s = Text.consumed s a.rest :: p.findAll a.rest := by
  cases s with
  | nil => cases ha
  | cons c r => simp only [findAll, h, dif_pos ha]

end Pattern
end FactForm
