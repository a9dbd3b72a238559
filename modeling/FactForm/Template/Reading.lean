import FactForm.Template

/-!
# FactForm.Template.Reading

Readings of a text by a sequence of parts: each fixed text stands verbatim, each slot holds one
value, and what is left over is the rest.

* `readings`  — all readings, the preferred one first: an earlier slot takes the longest value for
                which the parts after it can still be read.
* `preferred` — the first reading with an acceptable rest, found without listing the others.
* `readFront`, `readWhole` — the preferred readings of some front of a text and of all of it.

Main statement: `preferred_eq_find`, the search finds the first acceptable reading of the list.
-/

namespace FactForm

structure Reading where
  values : List Text
  rest : Text
  deriving DecidableEq

/-- The reading with one more value in front. -/
def Reading.cons (v : Text) (r : Reading) : Reading := { r with values := v :: r.values }

/-- All readings of a text, the preferred one first. -/
def readings : List Part → Text → List Reading
  | [], s => [⟨[], s⟩]
  | .fixed text :: parts, s =>
    match Text.after? text s with
    | some r => readings parts r
    | none => []
  | .slot _ :: parts, s =>
    (valueLengths s).flatMap fun n => (readings parts (s.drop n)).map (Reading.cons (s.take n))

/-! ## Search

The search keeps a table: what it finds at the start of a text and of each of its suffixes in
turn. An entry is computed when it is first asked for, and only once, so that the search takes no
longer than all slots need to try all their values once at each place. -/

/-- The value of `f` for a text and each of its suffixes in turn. -/
def atSuffixes {α : Type} (f : Text → α) : Text → List α
  | [] => [f []]
  | c :: r => f (c :: r) :: atSuffixes f r

abbrev ReadingTable := List (Thunk (Option Reading))

/-- The preferred reading by a part and what comes after it, whose table is `next`. A slot takes
the longest value behind which something is found. -/
def Part.read (s : Text) (next : ReadingTable) : Part → Option Reading
  | .fixed text => if text.isPrefixOf s then next[text.length]?.bind Thunk.get else none
  | .slot _ =>
    let places := next.toArray
    (valueLengths s).findSome? fun n =>
      (places[n]?.bind Thunk.get).map (Reading.cons (s.take n))

/-- The table of a part, given the table of what comes after it. -/
def Part.table (part : Part) : Text → (next : ReadingTable) → ReadingTable
  | [], next => [Thunk.mk fun _ => part.read [] next]
  | c :: r, next => (Thunk.mk fun _ => part.read (c :: r) next) :: part.table r next.tail

def readTable (accept : Text → Bool) : List Part → Text → ReadingTable
  | [], s => atSuffixes (fun t => Thunk.mk fun _ => if accept t then some ⟨[], t⟩ else none) s
  | part :: parts, s => part.table s (readTable accept parts s)

/-- The first reading whose rest is acceptable. -/
def preferred (accept : Text → Bool) (parts : List Part) (s : Text) : Option Reading :=
  (readTable accept parts s).head?.bind Thunk.get

def readFront (parts : List Part) (s : Text) : Option Reading := preferred (fun _ => true) parts s

def readWhole (parts : List Part) (s : Text) : Option Reading := preferred List.isEmpty parts s

/-! ## Laws -/

theorem getElem?_atSuffixes {α : Type} {f : Text → α} {s : Text} {n : Nat} (h : n ≤ s.length) :
    (atSuffixes f s)[n]? = some (f (s.drop n)) := by
  induction s generalizing n with
  | nil => simp at h; subst h; rfl
  | cons c r ih =>
    cases n with
    | zero => rfl
    | succ n => simpa [atSuffixes] using ih (by simpa using h)

theorem findSome?_congr {α β : Type} {f g : α → Option β} {l : List α} (h : ∀ a ∈ l, f a = g a) :
    l.findSome? f = l.findSome? g := by
  induction l with
  | nil => rfl
  | cons a l ih => simp [List.findSome?_cons, h a, ih fun b hb => h b (List.mem_cons_of_mem a hb)]

/-- A table whose entries at the suffixes of `s` are those of `g`. -/
def Tabulates (g : Text → Option Reading) (s : Text) (table : ReadingTable) : Prop :=
  table.map Thunk.get = atSuffixes g s

theorem Tabulates.bind_get {g : Text → Option Reading} {s : Text} {table : ReadingTable} {n : Nat}
    (h : Tabulates g s table) (hn : n ≤ s.length) :
    table[n]?.bind Thunk.get = g (s.drop n) := by
  have he := congrArg (·[n]?) h
  simp only [List.getElem?_map, getElem?_atSuffixes hn] at he
  cases ht : table[n]? with
  | none => simp [ht] at he
  | some t => simpa [ht] using he

theorem read_of_tabulates {g : Text → Option Reading} {s : Text} {next : ReadingTable}
    (h : Tabulates g s next) (part : Part) :
    part.read s next =
      match part with
      | .fixed text => (Text.after? text s).bind g
      | .slot _ => (valueLengths s).findSome? fun n =>
          (g (s.drop n)).map (Reading.cons (s.take n)) := by
  cases part with
  | fixed text =>
    simp only [Part.read]
    split
    · rename_i hp
      obtain ⟨r, rfl⟩ := List.isPrefixOf_iff_prefix.1 hp
      rw [h.bind_get (by simp), Text.after?_eq_some_iff.2 rfl]
      simp
    · rename_i hp
      cases ha : Text.after? text s with
      | none => rfl
      | some r =>
        exact absurd (List.isPrefixOf_iff_prefix.2 ⟨r, (Text.after?_eq_some_iff.1 ha).symm⟩) hp
  | slot p =>
    simp only [Part.read, List.getElem?_toArray]
    exact findSome?_congr fun n hn => by rw [h.bind_get (mem_valueLengths_iff.1 hn).1]

theorem tabulates_table {g : Text → Option Reading} {s : Text} {next : ReadingTable}
    (h : Tabulates g s next) (part : Part) {g' : Text → Option Reading}
    (hg : ∀ t u, Tabulates g t u → part.read t u = g' t) :
    Tabulates g' s (part.table s next) := by
  induction s generalizing next with
  | nil => simp [Tabulates, Part.table, atSuffixes, Thunk.get, hg _ _ h]
  | cons c r ih =>
    have ht : Tabulates g r next.tail := by
      have := congrArg List.tail h
      simpa [Tabulates, List.map_tail, atSuffixes] using this
    have := ih ht
    simp only [Tabulates] at this
    simp [Tabulates, Part.table, atSuffixes, Thunk.get, hg _ _ h, this]

/-- The table of a sequence of parts holds the first acceptable reading of each suffix. -/
theorem tabulates_readTable (accept : Text → Bool) (parts : List Part) (s : Text) :
    Tabulates (fun t => (readings parts t).find? fun r => accept r.rest) s
      (readTable accept parts s) := by
  induction parts generalizing s with
  | nil =>
    simp only [Tabulates, readTable]
    induction s with
    | nil => cases h : accept [] <;> simp [atSuffixes, readings, Thunk.get, h]
    | cons c r ih =>
      rw [atSuffixes, List.map_cons, ih]
      cases h : accept (c :: r) <;> simp [atSuffixes, readings, Thunk.get, h]
  | cons part parts ih =>
    refine tabulates_table (ih s) part fun t u h => ?_
    rw [read_of_tabulates h]
    cases part with
    | fixed text =>
      simp only [readings]
      cases Text.after? text t <;> simp
    | slot p => simp [readings, List.find?_map, Function.comp_def, Reading.cons]

theorem preferred_eq_find (accept : Text → Bool) (parts : List Part) (s : Text) :
    preferred accept parts s = (readings parts s).find? fun r => accept r.rest := by
  have h := (tabulates_readTable accept parts s).bind_get (Nat.zero_le _)
  rw [preferred, List.head?_eq_getElem?]
  simpa using h

end FactForm
