import FactForm.Proofs.Source.Limits

/-!
# FactForm.Proofs.Source.Descriptor

Descriptors of value sources. The index in brackets at the end of a descriptor is found from its end;
searching from its front for the first bracket that opens such an index finds the same one, whichever
characters count as digits in the search.

* `Source.indexed`, `Source.IsIndex` — a name with brackets behind it, and what stands for an index there.
* `Source.Describes` — which source a descriptor stands for.
* `Source.parse_eq_iff` — a descriptor is read as the source that it stands for.
* `Source.parseFromFront` — reading a descriptor by a search from its front.
* `Source.parse_text` — the descriptor of a source that was read is read as that source.
* `Source.descriptor_round_trip` — the round trips, and what is no index.
-/

namespace FactForm
namespace Source

/-- A name with something in brackets behind it. -/
def indexed (name digits : Text) : Text := name ++ '[' :: digits ++ [']']

/-- Digits of a number below the bound, of which the first may be zeros. -/
def IsIndex (digits : Text) : Prop :=
  digits ≠ [] ∧ digits.all Char.isDigit = true ∧ numeral digits < numberBound

/-- The source that a descriptor stands for: none, a built-in type behind a number sign, an argument
of the facts of a predicate, or else the first argument of the facts with this name. -/
inductive Describes : Text → Source → Prop where
  | any : Describes [] .any
  | builtin {type : Text} : Describes ('#' :: type) (.builtin type)
  | argument {name digits : Text} :
      name.head? ≠ some '#' → IsIndex digits →
      Describes (indexed name digits) (.argument name (numeral digits))
  | first {name : Text} :
      name ≠ [] → name.head? ≠ some '#' →
      (∀ front digits, IsIndex digits → name ≠ indexed front digits) →
      Describes name (.argument name 0)

/-! ## Brackets -/

theorem indexed_ne_nil (name digits : Text) : indexed name digits ≠ [] := by
  simp [indexed]

/-- Brackets do not change how a name begins, except that nothing becomes an opening bracket. -/
theorem head_indexed_iff {name digits : Text} :
    (indexed name digits).head? = some '#' ↔ name.head? = some '#' := by
  cases name with
  | nil => simp [indexed]
  | cons c r => simp [indexed]

theorem indexed_cons (c : Char) (name digits : Text) :
    indexed (c :: name) digits = c :: indexed name digits := rfl

theorem indexed_inj {name name' digits digits' : Text} (h : '[' ∉ digits) (h' : '[' ∉ digits')
    (heq : indexed name digits = indexed name' digits') : name = name' ∧ digits = digits' := by
  have hopen : name ++ '[' :: digits = name' ++ '[' :: digits' := List.append_cancel_right heq
  rcases List.append_eq_append_iff.1 hopen with ⟨gap, hname, hdigits⟩ | ⟨gap, hname, hdigits⟩
  · cases gap with
    | nil => simp_all
    | cons c gap =>
      simp at hdigits
      simp [hdigits.2] at h
  · cases gap with
    | nil => simp_all
    | cons c gap =>
      simp at hdigits
      simp [hdigits.2] at h'

theorem not_mem_of_all {p : Char → Bool} {c : Char} {s : Text} (hs : s.all p = true)
    (hc : p c = false) : c ∉ s := by
  intro hmem
  have := List.all_eq_true.1 hs c hmem
  simp [hc] at this

theorem IsIndex.not_mem {digits : Text} (h : IsIndex digits) : '[' ∉ digits :=
  not_mem_of_all h.2.1 (by decide)

theorem isIndex_decimal {index : Nat} (h : index < numberBound) : IsIndex (decimal index) := by
  refine ⟨?_, decimal_all_isDigit index, ?_⟩
  · intro hnil
    have hnumber := isNumber_decimal index
    simp [hnil, isNumber] at hnumber
  · rwa [numeral_decimal]

/-! ## Reading from the end -/

theorem indexSuffix?_indexed {name digits : Text} (h : IsIndex digits) :
    indexSuffix? (indexed name digits) = some (name, numeral digits) := by
  obtain ⟨hne, hall, hlt⟩ := h
  have hreverse : (indexed name digits).reverse = ']' :: (digits.reverse ++ '[' :: name.reverse) := by
    simp [indexed]
  have hdigits : ∀ c ∈ digits.reverse, c.isDigit = true := by
    intro c hc
    exact List.all_eq_true.1 hall c (List.mem_reverse.1 hc)
  have hle : ¬ numberBound ≤ numeral digits := by omega
  simp [indexSuffix?, hreverse, List.dropWhile_append_of_pos hdigits,
    List.takeWhile_append_of_pos hdigits, hne, hle]

theorem exists_index_of_indexSuffix? {d name : Text} {index : Nat}
    (h : indexSuffix? d = some (name, index)) :
    ∃ digits, IsIndex digits ∧ d = indexed name digits ∧ index = numeral digits := by
  unfold indexSuffix? at h
  split at h
  · rename_i r hclose
    split at h
    · rename_i front hopen
      dsimp only at h
      split at h
      · cases h
      · rename_i hfits
        simp only [Option.some.injEq, Prod.mk.injEq] at h
        obtain ⟨rfl, rfl⟩ := h
        simp only [Bool.or_eq_true, decide_eq_true_eq, not_or, Nat.not_le] at hfits
        have hd : d = r.reverse ++ [']'] := by
          rw [← List.reverse_cons, ← hclose, List.reverse_reverse]
        have hr : r.reverse = front.reverse ++ '[' :: (r.takeWhile Char.isDigit).reverse := by
          have hsplit : r.takeWhile Char.isDigit ++ '[' :: front = r := by
            rw [← hopen, List.takeWhile_append_dropWhile]
          simpa using (congrArg List.reverse hsplit).symm
        refine ⟨(r.takeWhile Char.isDigit).reverse, ⟨?_, ?_, hfits.2⟩, ?_, rfl⟩
        · simpa using hfits.1
        · rw [List.all_reverse]
          exact List.all_takeWhile
        · rw [hd, hr, indexed]
    · cases h
  · cases h

theorem indexSuffix?_eq_some_iff {d name : Text} {index : Nat} :
    indexSuffix? d = some (name, index) ↔
      ∃ digits, IsIndex digits ∧ d = indexed name digits ∧ index = numeral digits := by
  constructor
  · exact exists_index_of_indexSuffix?
  · intro h
    obtain ⟨digits, hindex, rfl, rfl⟩ := h
    exact indexSuffix?_indexed hindex

theorem indexSuffix?_eq_none_iff {d : Text} :
    indexSuffix? d = none ↔ ∀ front digits, IsIndex digits → d ≠ indexed front digits := by
  rw [Option.eq_none_iff_forall_not_mem]
  constructor
  · intro hnone front digits hindex hd
    exact hnone (front, numeral digits) (indexSuffix?_eq_some_iff.2 ⟨digits, hindex, hd, rfl⟩)
  · intro hnot p hp
    obtain ⟨name, index⟩ := p
    obtain ⟨digits, hindex, hd, _⟩ := indexSuffix?_eq_some_iff.1 hp
    exact hnot name digits hindex hd

theorem parse_of_head {d : Text} (hne : d ≠ []) (hhead : d.head? ≠ some '#') :
    parse d =
      match indexSuffix? d with
      | some (name, index) => .argument name index
      | none => .argument d 0 := by
  unfold parse
  split
  · exact absurd rfl hne
  · simp at hhead
  · rfl

theorem Describes.parse_eq {d : Text} {source : Source} (h : Describes d source) :
    parse d = source := by
  cases h with
  | any => rfl
  | builtin => rfl
  | @argument name digits hhead hindex =>
    have hhead' : (indexed name digits).head? ≠ some '#' := mt head_indexed_iff.1 hhead
    rw [parse_of_head (indexed_ne_nil name digits) hhead', indexSuffix?_indexed hindex]
  | first hne hhead hnot =>
    rw [parse_of_head hne hhead, indexSuffix?_eq_none_iff.2 hnot]

theorem exists_describes (d : Text) : ∃ source, Describes d source := by
  by_cases hne : d = []
  · exact ⟨.any, hne ▸ .any⟩
  · by_cases hhead : d.head? = some '#'
    · obtain ⟨type, rfl⟩ := List.head?_eq_some_iff.1 hhead
      exact ⟨.builtin type, .builtin⟩
    · cases hsuffix : indexSuffix? d with
      | none => exact ⟨_, .first hne hhead (indexSuffix?_eq_none_iff.1 hsuffix)⟩
      | some p =>
        obtain ⟨name, index⟩ := p
        obtain ⟨digits, hindex, rfl, _⟩ := indexSuffix?_eq_some_iff.1 hsuffix
        exact ⟨_, .argument (mt head_indexed_iff.2 hhead) hindex⟩

theorem parse_eq_iff {d : Text} {source : Source} : parse d = source ↔ Describes d source := by
  constructor
  · intro h
    obtain ⟨found, hfound⟩ := exists_describes d
    rw [hfound.parse_eq] at h
    exact h ▸ hfound
  · exact Describes.parse_eq

/-! ## Reading from the front -/

section Front

variable (isDecimal : Char → Bool)

/-- The digits of a text that is an opening bracket, digits and a closing bracket. -/
def bracketed? : Text → Option Text
  | '[' :: r =>
    let digits := r.takeWhile isDecimal
    if digits ≠ [] ∧ r.dropWhile isDecimal = [']'] then some digits else none
  | _ => none

/-- The first place from which on a text is digits in brackets, with the name in front of it. -/
def firstBracketed? : Text → Option (Text × Text)
  | [] => none
  | c :: r =>
    match bracketed? isDecimal (c :: r) with
    | some digits => some ([], digits)
    | none => (firstBracketed? r).map fun (name, digits) => (c :: name, digits)

/-- The number of a text of digits, read into a word; nothing if another character is among them or
the number does not fit. -/
def wordIndex? (digits : Text) : Option Nat :=
  if digits.all Char.isDigit then (appendDigits? 0 digits).map UInt64.toNat else none

/-- Reads a descriptor by a search from its front for digits in brackets at its end. If they are no
number of a word, the descriptor is a name as a whole. -/
def parseFromFront : Text → Source
  | [] => .any
  | '#' :: type => .builtin type
  | d =>
    match firstBracketed? isDecimal d with
    | none => .argument d 0
    | some (name, digits) =>
      match wordIndex? digits with
      | some index => .argument name index
      | none => .argument d 0

variable {isDecimal}

theorem bracketed?_eq_some_iff (hclose : isDecimal ']' = false) {s digits : Text} :
    bracketed? isDecimal s = some digits ↔
      digits ≠ [] ∧ digits.all isDecimal = true ∧ s = indexed [] digits := by
  constructor
  · intro h
    unfold bracketed? at h
    split at h
    · rename_i r
      dsimp only at h
      split at h
      · rename_i hparts
        simp only [Option.some.injEq] at h
        have hr : r = digits ++ [']'] := by
          rw [← h, ← hparts.2, List.takeWhile_append_dropWhile]
        refine ⟨?_, ?_, ?_⟩
        · exact h ▸ hparts.1
        · rw [← h]
          exact List.all_takeWhile
        · rw [hr]
          rfl
      · cases h
    · cases h
  · intro h
    obtain ⟨hne, hall, rfl⟩ := h
    have hdigits : ∀ c ∈ digits, isDecimal c = true := List.all_eq_true.1 hall
    simp [indexed, bracketed?, List.takeWhile_append_of_pos hdigits,
      List.dropWhile_append_of_pos hdigits, hclose, hne]

/-- The search finds digits in brackets at the end of a text, if there are any. The brackets cannot be
opened at two places, because a bracket is no digit. -/
theorem firstBracketed?_eq_some_iff (hopen : isDecimal '[' = false) (hclose : isDecimal ']' = false)
    {s name digits : Text} :
    firstBracketed? isDecimal s = some (name, digits) ↔
      digits ≠ [] ∧ digits.all isDecimal = true ∧ s = indexed name digits := by
  induction s generalizing name with
  | nil => simp [firstBracketed?, indexed]
  | cons c r ih =>
    rw [firstBracketed?]
    cases hhere : bracketed? isDecimal (c :: r) with
    | some found =>
      obtain ⟨hne, hall, hs⟩ := (bracketed?_eq_some_iff hclose).1 hhere
      constructor
      · intro h
        simp at h
        obtain ⟨rfl, rfl⟩ := h
        exact ⟨hne, hall, hs⟩
      · intro h
        obtain ⟨_, hall', hs'⟩ := h
        have hsame := indexed_inj (not_mem_of_all hall hopen) (not_mem_of_all hall' hopen)
          (hs.symm.trans hs')
        rw [hsame.1, hsame.2]
    | none =>
      have hnot : ∀ digits, digits ≠ [] → digits.all isDecimal = true →
          c :: r ≠ indexed [] digits := by
        intro digits hne hall hs
        have hsome := (bracketed?_eq_some_iff hclose).2 ⟨hne, hall, hs⟩
        simp [hhere] at hsome
      simp only [Option.map_eq_some_iff, Prod.exists, Prod.mk.injEq]
      constructor
      · intro h
        obtain ⟨front, found, hfound, rfl, rfl⟩ := h
        obtain ⟨hne, hall, hr⟩ := ih.1 hfound
        exact ⟨hne, hall, by rw [hr, indexed_cons]⟩
      · intro h
        obtain ⟨hne, hall, hs⟩ := h
        cases name with
        | nil => exact absurd hs (hnot digits hne hall)
        | cons d front =>
          simp only [indexed_cons, List.cons.injEq] at hs
          exact ⟨front, digits, ih.2 ⟨hne, hall, hs.2⟩, by rw [hs.1], rfl⟩

theorem wordIndex?_eq_some_iff {digits : Text} (hne : digits ≠ []) {index : Nat} :
    wordIndex? digits = some index ↔ IsIndex digits ∧ index = numeral digits := by
  rw [wordIndex?]
  split
  · rename_i hall
    have hread := appendDigits?_eq hall 0
    have hzero : Nat.ofDigitChars 10 digits (0 : UInt64).toNat = numeral digits := rfl
    rw [hread, hzero, inWord, Option.guard_eq_some_iff]
    simp [IsIndex, hne, hall]
    constructor
    · intro h
      exact ⟨h.1 ▸ h.2, h.1.symm⟩
    · intro h
      exact ⟨h.2.symm, h.2 ▸ h.1⟩
  · rename_i hall
    simp [IsIndex, hall]

theorem parseFromFront_of_head {d : Text} (hne : d ≠ []) (hhead : d.head? ≠ some '#') :
    parseFromFront isDecimal d =
      match firstBracketed? isDecimal d with
      | none => .argument d 0
      | some (name, digits) =>
        match wordIndex? digits with
        | some index => .argument name index
        | none => .argument d 0 := by
  unfold parseFromFront
  split
  · exact absurd rfl hne
  · simp at hhead
  · rfl

/-- Both ways of reading agree, if the digits of numbers are among those that count in the search and
brackets are not. -/
theorem parseFromFront_eq (hdigit : ∀ c, c.isDigit = true → isDecimal c = true)
    (hopen : isDecimal '[' = false) (hclose : isDecimal ']' = false) (d : Text) :
    parseFromFront isDecimal d = parse d := by
  have hfound : ∀ front digits, IsIndex digits → d = indexed front digits →
      firstBracketed? isDecimal d = some (front, digits) := by
    intro front digits hindex hd
    have hall : digits.all isDecimal = true := by
      rw [List.all_eq_true]
      intro c hc
      exact hdigit c (List.all_eq_true.1 hindex.2.1 c hc)
    exact (firstBracketed?_eq_some_iff hopen hclose).2 ⟨hindex.1, hall, hd⟩
  symm
  rw [parse_eq_iff]
  by_cases hne : d = []
  · rw [hne]
    exact .any
  by_cases hhead : d.head? = some '#'
  · obtain ⟨type, rfl⟩ := List.head?_eq_some_iff.1 hhead
    exact .builtin
  rw [parseFromFront_of_head hne hhead]
  cases hsearch : firstBracketed? isDecimal d with
  | none =>
    refine .first hne hhead ?_
    intro front digits hindex hd
    simp [hfound front digits hindex hd] at hsearch
  | some p =>
    obtain ⟨name, digits⟩ := p
    obtain ⟨hdigits, _, rfl⟩ := (firstBracketed?_eq_some_iff hopen hclose).1 hsearch
    dsimp only
    cases hword : wordIndex? digits with
    | some index =>
      obtain ⟨hindex, rfl⟩ := (wordIndex?_eq_some_iff hdigits).1 hword
      exact .argument (mt head_indexed_iff.2 hhead) hindex
    | none =>
      refine .first hne hhead ?_
      intro front digits' hindex hd
      simp [hfound front digits' hindex hd] at hsearch
      have hread := (wordIndex?_eq_some_iff hdigits).2 ⟨hsearch.2 ▸ hindex, rfl⟩
      simp [hword] at hread

end Front

/-! ## Round trips -/

theorem parse_indexed {name : Text} {index : Nat} (hhead : name.head? ≠ some '#')
    (h : index < numberBound) : parse (indexed name (decimal index)) = .argument name index := by
  have hparse := (Describes.argument hhead (isIndex_decimal h)).parse_eq
  rwa [numeral_decimal] at hparse

theorem parse_text (d : Text) : parse (parse d).text = parse d := by
  obtain ⟨source, hsource⟩ := exists_describes d
  rw [hsource.parse_eq]
  cases hsource with
  | any => rfl
  | builtin => rfl
  | argument hhead hindex => exact parse_indexed hhead hindex.2.2
  | first _ hhead _ => exact parse_indexed hhead (by decide)

theorem parse_not_index {name digits : Text} (hhead : name.head? ≠ some '#') (hopen : '[' ∉ digits)
    (h : ¬ IsIndex digits) : parse (indexed name digits) = .argument (indexed name digits) 0 := by
  refine (Describes.first (indexed_ne_nil name digits) (mt head_indexed_iff.1 hhead) ?_).parse_eq
  intro front digits' hindex heq
  obtain ⟨_, rfl⟩ := indexed_inj hopen hindex.not_mem heq
  exact h hindex

/-- The descriptor of every source that was read is read as that source. A name that does not begin with
a number sign, with the decimal of a number below the bound in brackets behind it, is read as that
name and that number. If what is in the brackets at the end is no index, the descriptor is read
as a name as a whole, unless it begins with a number sign. A search from the front for the brackets
gives the same sources, whichever characters count as digits in it. -/
theorem descriptor_round_trip :
    (∀ d, parse (parse d).text = parse d) ∧
    (∀ name index, name.head? ≠ some '#' → index < numberBound →
      parse (name ++ '[' :: decimal index ++ [']']) = .argument name index) ∧
    (∀ name digits, name.head? ≠ some '#' → '[' ∉ digits → ¬ IsIndex digits →
      parse (indexed name digits) = .argument (indexed name digits) 0) ∧
    (∀ type, parse ('#' :: type) = .builtin type) ∧
    ∀ isDecimal : Char → Bool, (∀ c, c.isDigit = true → isDecimal c = true) →
      isDecimal '[' = false → isDecimal ']' = false →
      ∀ d, parseFromFront isDecimal d = parse d := by
  refine ⟨parse_text, ?_, ?_, ?_, ?_⟩
  · intro name index hhead h
    exact parse_indexed hhead h
  · intro name digits hhead hopen h
    exact parse_not_index hhead hopen h
  · intro type
    exact Describes.builtin.parse_eq
  · intro isDecimal hdigit hopen hclose d
    exact parseFromFront_eq hdigit hopen hclose d

/-- Digits of two alphabets, of which only those of the first make numbers. -/
def isDigitOfTwo (c : Char) : Bool := c.isDigit || (0x660 ≤ c.toNat && c.toNat ≤ 0x669)

/-- A name with brackets in it, a digit that makes no number, and a number that does not fit. -/
theorem bracketed_descriptors :
    parse (parse "edge[2][01]".toList).text = parse "edge[2][01]".toList ∧
    parse ("edge[2]".toList ++ '[' :: decimal 18446744073709551615 ++ [']']) =
      .argument "edge[2]".toList 18446744073709551615 ∧
    parse (indexed "edge".toList "٣".toList) = .argument "edge[٣]".toList 0 ∧
    parse (indexed "edge".toList "18446744073709551616".toList) =
      .argument "edge[18446744073709551616]".toList 0 ∧
    parse "#int[0]".toList = .builtin "int[0]".toList ∧
    parseFromFront isDigitOfTwo "edge[٣]".toList = parse "edge[٣]".toList := by
  obtain ⟨hround, hindexed, hwhole, hbuiltin, hfront⟩ := descriptor_round_trip
  have hdigit : ∀ c, c.isDigit = true → isDigitOfTwo c = true := by
    intro c hc
    simp [isDigitOfTwo, hc]
  have hother : ¬ IsIndex "٣".toList := by
    intro h
    exact absurd h.2.1 (by decide)
  have hgreat : ¬ IsIndex "18446744073709551616".toList := by
    intro h
    exact absurd h.2.2 (by decide)
  refine ⟨hround _, ?_, ?_, ?_, hbuiltin _, ?_⟩
  · exact hindexed _ _ (by decide) (by decide)
  · exact hwhole _ _ (by decide) (by decide) hother
  · exact hwhole _ _ (by decide) (by decide) hgreat
  · exact hfront isDigitOfTwo hdigit (by decide) (by decide) _

/-- A descriptor that begins with a number sign is a built-in type, also if a number that does not fit
stands in brackets at its end. -/
theorem builtin_not_whole_name :
    ¬ IsIndex "18446744073709551616".toList ∧
      parse (indexed "#int".toList "18446744073709551616".toList) ≠
        .argument (indexed "#int".toList "18446744073709551616".toList) 0 := by
  refine ⟨?_, by decide⟩
  intro h
  exact absurd h.2.2 (by decide)

end Source
end FactForm
