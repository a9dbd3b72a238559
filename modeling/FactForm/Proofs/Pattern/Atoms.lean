import FactForm.AnswerSets
import FactForm.Proofs.Atom.Grammar
import FactForm.Proofs.Pattern.Tokens

/-!
# FactForm.Proofs.Pattern.Atoms

Reading an atom in two passes: its pattern takes the whole text, and the pattern of values is searched
in the list of arguments that was captured. Both passes cut at the same places, and they read what the
reader of atoms reads in one.

* `Pattern.mem_runs_argument`, `mem_runs_arguments`, `mem_runs_atom` — the matches as spellings.
* `Pattern.matchFront?_atom` — the preferred match ends where the reader stops.
* `Pattern.findAll_atom` — searching a text for atoms finds those that are listed in it.
* `Pattern.findAll_value` — searching a list of arguments finds its values.
* `Atom.passes`, `Atom.passes_eq_parse` — the two passes, and what they read.
-/

namespace FactForm
namespace Pattern

variable {a : Reading} {s t v : Text} {c : Char} {vs : List Text}

/-! ## Matches as spellings -/

theorem mem_runs_char : a ∈ (char c).runs s ↔ a.values = [] ∧ s = c :: a.rest := by
  simp [char, mem_runs_one, Symbol.matches]

theorem mem_runs_char_seq {p : Pattern} :
    a ∈ (seq (char c) p).runs s ↔ ∃ r, s = c :: r ∧ a ∈ p.runs r := by
  simp only [mem_runs_seq, mem_runs_char]
  constructor
  · rintro ⟨⟨_, r⟩, ⟨rfl, rfl⟩, d, hd, rfl⟩
    exact ⟨r, rfl, hd⟩
  · rintro ⟨r, rfl, ha⟩
    exact ⟨⟨[], r⟩, ⟨rfl, rfl⟩, a, ha, rfl⟩

theorem mem_runs_optional {p : Pattern} :
    a ∈ (optional p).runs s ↔ a ∈ p.runs s ∨ a = ⟨[], s⟩ := by
  simp [runs]

theorem mem_runs_group {p : Pattern} :
    a ∈ (group p).runs s ↔ ∃ b ∈ p.runs s, b.cons (Text.consumed s b.rest) = a := by
  simp [runs]

theorem mem_runs_value :
    a ∈ value.runs s ↔ ∃ v, isValue v = true ∧ s = v ++ a.rest ∧ a.values = [v] := by
  rw [runs_value, List.mem_map]
  constructor
  · rintro ⟨n, hn, rfl⟩
    exact ⟨s.take n, (mem_valueLengths_iff.1 hn).2, (List.take_append_drop n s).symm, rfl⟩
  · rintro ⟨v, hv, rfl, hvalues⟩
    refine ⟨v.length, mem_valueLengths_iff.2 ⟨by simp, by rwa [List.take_left]⟩, ?_⟩
    rw [List.take_left, List.drop_left, ← hvalues]

theorem mem_runs_argument :
    a ∈ argument.runs s ↔
      ∃ v t, isValue v = true ∧ Padded v t ∧ s = t ++ a.rest ∧ a.values = [v] := by
  simp only [argument, mem_runs_seq, mem_runs_star_one, mem_runs_value]
  constructor
  · rintro ⟨b, ⟨hb, lead, hlead, rfl⟩, d, ⟨e, ⟨v, hv, he, hvalues⟩, f, ⟨hf, trail, htrail, hrest⟩, rfl⟩, rfl⟩
    refine ⟨v, lead ++ v ++ trail, hv, ⟨lead, trail, hlead, htrail, rfl⟩, ?_, ?_⟩
    · rw [he, hrest]
      simp [Reading.append]
    · simp [Reading.append, hb, hf, hvalues]
  · rintro ⟨v, t, hv, ⟨lead, trail, hlead, htrail, rfl⟩, rfl, hvalues⟩
    refine ⟨⟨[], v ++ (trail ++ a.rest)⟩, ⟨rfl, lead, hlead, by simp⟩, a,
      ⟨⟨[v], trail ++ a.rest⟩, ⟨v, hv, rfl, rfl⟩, ⟨[], a.rest⟩, ⟨rfl, trail, htrail, rfl⟩, ?_⟩, rfl⟩
    rw [Reading.append, List.append_nil, ← hvalues]

theorem mem_runs_further :
    a ∈ (star (seq (char ',') argument)).runs s ↔
      a = ⟨[], s⟩ ∨ ∃ r, s = ',' :: r ∧ a ∈ arguments.runs r := by
  rw [mem_runs_star]
  refine or_congr_right ?_
  constructor
  · rintro ⟨b, hb, _, d, hd, rfl⟩
    obtain ⟨r, rfl, hargument⟩ := mem_runs_char_seq.1 hb
    exact ⟨r, rfl, mem_runs_seq.2 ⟨b, hargument, d, hd, rfl⟩⟩
  · rintro ⟨r, rfl, ha⟩
    obtain ⟨b, hb, d, hd, hbd⟩ := mem_runs_seq.1 ha
    obtain ⟨v, t, _, _, hr, _⟩ := mem_runs_argument.1 hb
    refine ⟨b, mem_runs_char_seq.2 ⟨r, rfl, hb⟩, ?_, d, hd, hbd⟩
    rw [hr, List.length_cons, List.length_append]
    omega

theorem spells_of_mem_runs {a : Reading} {s : Text} (h : a ∈ arguments.runs s) :
    ∃ t, SpellsArguments a.values t ∧ s = t ++ a.rest := by
  obtain ⟨b, hb, d, hd, rfl⟩ := mem_runs_seq.1 h
  obtain ⟨v, t, hv, ht, hs, hvalues⟩ := mem_runs_argument.1 hb
  rcases mem_runs_further.1 hd with rfl | ⟨r, hr, hd⟩
  · refine ⟨t, ?_, hs⟩
    simpa [Reading.append, hvalues] using SpellsArguments.last hv ht
  · have hshorter : r.length < s.length := by
      rw [hs, hr, List.length_append, List.length_cons]
      omega
    obtain ⟨u, hu, rfl⟩ := spells_of_mem_runs hd
    refine ⟨t ++ ',' :: u, ?_, ?_⟩
    · simpa [Reading.append, hvalues] using SpellsArguments.more hv ht hu
    · rw [hs, hr]
      simp [Reading.append]
termination_by s.length

theorem mem_runs_of_spells (h : SpellsArguments vs t) (rest : Text) :
    ⟨vs, rest⟩ ∈ arguments.runs (t ++ rest) := by
  induction h with
  | @last v t hv ht =>
    have hfirst : ⟨[v], rest⟩ ∈ argument.runs (t ++ rest) :=
      mem_runs_argument.2 ⟨v, t, hv, ht, rfl, rfl⟩
    exact mem_runs_seq.2 ⟨_, hfirst, ⟨[], rest⟩, mem_runs_further.2 (.inl rfl), rfl⟩
  | @more v t u vs hv ht _ ih =>
    have hfirst : ⟨[v], ',' :: (u ++ rest)⟩ ∈ argument.runs (t ++ ',' :: u ++ rest) :=
      mem_runs_argument.2 ⟨v, t, hv, ht, by simp, rfl⟩
    exact mem_runs_seq.2 ⟨_, hfirst, ⟨vs, rest⟩, mem_runs_further.2 (.inr ⟨_, rfl, ih⟩), rfl⟩

theorem mem_runs_arguments :
    a ∈ arguments.runs s ↔ ∃ t, SpellsArguments a.values t ∧ s = t ++ a.rest := by
  constructor
  · exact spells_of_mem_runs
  · rintro ⟨t, ht, rfl⟩
    exact mem_runs_of_spells ht a.rest

theorem mem_runs_predicate :
    a ∈ predicate.runs s ↔ a.values = [] ∧ ∃ p, isPredicate p = true ∧ s = p ++ a.rest := by
  simp only [predicate, mem_runs_seq, mem_runs_optional]
  constructor
  · rintro ⟨b, hb, d, hd, rfl⟩
    obtain ⟨hvalues, v, hv, hrest⟩ := mem_runs_identifier.1 hd
    rcases hb with hb | rfl
    · obtain ⟨hempty, c, hc, rfl⟩ := mem_runs_one.1 hb
      obtain rfl : c = '-' := by simpa [Symbol.matches] using hc
      exact ⟨by simp [Reading.append, hempty, hvalues], '-' :: v, hv, by rw [hrest]; rfl⟩
    · exact ⟨hvalues, v, isPredicate_of_isIdentifier hv, hrest⟩
  · rintro ⟨hvalues, p, hp, rfl⟩
    unfold isPredicate at hp
    split at hp
    · rename_i r
      exact ⟨⟨[], r ++ a.rest⟩, .inl (mem_runs_one.2 ⟨rfl, '-', rfl, rfl⟩), a,
        mem_runs_identifier.2 ⟨hvalues, r, hp, rfl⟩, rfl⟩
    · exact ⟨⟨[], p ++ a.rest⟩, .inr rfl, a, mem_runs_identifier.2 ⟨hvalues, p, hp, rfl⟩, rfl⟩

theorem mem_runs_argumentList :
    a ∈ argumentList.runs s ↔
      ∃ t vs, SpellsArguments vs t ∧ s = '(' :: (t ++ ')' :: a.rest) ∧ a.values = t :: vs := by
  rw [argumentList, mem_runs_char_seq]
  simp only [mem_runs_seq, mem_runs_group, mem_runs_char, mem_runs_arguments]
  constructor
  · rintro ⟨r, rfl, b, ⟨e, ⟨t, ht, rfl⟩, rfl⟩, d, ⟨hd, hrest⟩, rfl⟩
    have hrest : e.rest = ')' :: d.rest := hrest
    refine ⟨t, e.values, ht, ?_, ?_⟩
    · rw [hrest]
      rfl
    · simp [Reading.append, Reading.cons, Text.consumed_append, hd]
  · rintro ⟨t, vs, ht, rfl, hvalues⟩
    refine ⟨t ++ ')' :: a.rest, rfl, ⟨t :: vs, ')' :: a.rest⟩,
      ⟨⟨vs, ')' :: a.rest⟩, ⟨t, ht, rfl⟩, ?_⟩, ⟨[], a.rest⟩, ⟨rfl, rfl⟩, ?_⟩
    · simp [Reading.cons, Text.consumed_append]
    · simp [Reading.append, ← hvalues]

theorem mem_runs_atom :
    a ∈ atom.runs s ↔ ∃ p, isPredicate p = true ∧
      (s = p ++ a.rest ∧ a.values = [p] ∨
        ∃ t vs, SpellsArguments vs t ∧ s = p ++ '(' :: (t ++ ')' :: a.rest) ∧
          a.values = p :: t :: vs) := by
  simp only [atom, mem_runs_seq, mem_runs_group, mem_runs_optional, mem_runs_argumentList,
    mem_runs_predicate]
  constructor
  · rintro ⟨b, ⟨e, ⟨he, p, hp, rfl⟩, rfl⟩, d, hd, rfl⟩
    refine ⟨p, hp, ?_⟩
    have hgroup : e.cons (Text.consumed (p ++ e.rest) e.rest) = ⟨[p], e.rest⟩ := by
      simp [Reading.cons, Text.consumed_append, he]
    rw [hgroup] at hd ⊢
    rcases hd with ⟨t, vs, ht, hrest, hvalues⟩ | rfl
    · have hrest : e.rest = '(' :: (t ++ ')' :: d.rest) := hrest
      refine .inr ⟨t, vs, ht, ?_, ?_⟩
      · rw [hrest]
        rfl
      · simp [Reading.append, hvalues]
    · exact .inl ⟨rfl, rfl⟩
  · rintro ⟨p, hp, ⟨rfl, hvalues⟩ | ⟨t, vs, ht, rfl, hvalues⟩⟩
    · refine ⟨⟨[p], a.rest⟩, ⟨⟨[], a.rest⟩, ⟨rfl, p, hp, rfl⟩, ?_⟩, ⟨[], a.rest⟩, .inr rfl, ?_⟩
      · simp [Reading.cons, Text.consumed_append]
      · simp [Reading.append, ← hvalues]
    · refine ⟨⟨[p], '(' :: (t ++ ')' :: a.rest)⟩, ⟨⟨[], _⟩, ⟨rfl, p, hp, rfl⟩, ?_⟩,
        ⟨t :: vs, a.rest⟩, .inl ⟨t, vs, ht, rfl, rfl⟩, ?_⟩
      · simp [Reading.cons, Text.consumed_append]
      · simp [Reading.append, ← hvalues]

/-! ## The preferred match -/

theorem matchFront?_predicate (s : Text) :
    predicate.matchFront? s = (readPredicate s).map fun (_, rest) => ⟨[], rest⟩ := by
  have hsign : ∀ r, (one .sign).runs ('-' :: r) = [⟨[], r⟩] := fun r => runs_one_cons (by decide)
  unfold readPredicate
  split
  · rename_i r
    have hidentifier := matchFront?_identifier r
    have hnone : identifier.runs ('-' :: r) = [] := runs_identifier_of_not (by decide) r
    rw [matchFront?] at hidentifier ⊢
    rw [predicate, runs_seq, runs, hsign]
    simp [hnone, hidentifier, Function.comp_def]
  · rename_i hne
    have hnone : (one .sign).runs s = [] := by
      rcases s with _ | ⟨c, r⟩
      · rfl
      · have hc : c ≠ '-' := fun e => hne r (by rw [e])
        simp [runs, Symbol.matches, hc]
    have hoptional : (optional (one .sign)).runs s = [⟨[], s⟩] := by simp [runs, hnone]
    rw [predicate, matchFront?, runs_seq_of_single hoptional, append_empty, List.map_id]
    exact matchFront?_identifier s

theorem matchFront?_argumentList (r : Text) :
    (argumentList.matchFront? ('(' :: r)).map (·.rest) = (readArguments r).map Prod.snd := by
  have hmem : ∀ a ∈ argumentList.runs ('(' :: r), ∃ vs, readArguments r = some (vs, a.rest) := by
    intro a ha
    obtain ⟨t, vs, ht, hr, _⟩ := mem_runs_argumentList.1 ha
    obtain ⟨_, rfl⟩ := List.cons.inj hr
    exact ⟨vs, readArguments_append ht a.rest⟩
  rw [matchFront?]
  cases hruns : argumentList.runs ('(' :: r) with
  | nil =>
    cases hread : readArguments r with
    | none => rfl
    | some p =>
      obtain ⟨vs, rest⟩ := p
      obtain ⟨t, ht, rfl⟩ := readArguments_spells hread
      have hfound : ⟨t :: vs, rest⟩ ∈ argumentList.runs ('(' :: (t ++ ')' :: rest)) :=
        mem_runs_argumentList.2 ⟨t, vs, ht, rfl, rfl⟩
      rw [hruns] at hfound
      cases hfound
  | cons a as =>
    obtain ⟨vs, hread⟩ := hmem a (by rw [hruns]; exact List.mem_cons_self)
    rw [hread]
    rfl

theorem matchFront?_atom (s : Text) :
    (atom.matchFront? s).map (·.rest) = (readAtomParts s).map fun (_, _, rest) => rest := by
  have hgroup := matchFront?_group predicate s
  rw [matchFront?_predicate] at hgroup
  unfold readAtomParts
  cases hread : readPredicate s with
  | none =>
    rw [hread, Option.map_none, Option.map_none, matchFront?, List.head?_eq_none_iff] at hgroup
    rw [atom, matchFront?, runs_seq_of_nil hgroup]
    rfl
  | some p =>
    obtain ⟨p, rest⟩ := p
    rw [hread] at hgroup
    have hatom := matchFront?_seq hgroup (matchFront?_optional argumentList rest)
    rw [← atom] at hatom
    rw [hatom]
    by_cases hopen : ∃ r, rest = '(' :: r
    · obtain ⟨r, rfl⟩ := hopen
      have hlist := matchFront?_argumentList r
      cases hread : readArguments r with
      | none =>
        rw [hread, Option.map_none, Option.map_eq_none_iff] at hlist
        simp [hlist, hread, Reading.append]
      | some q =>
        rw [hread, Option.map_some] at hlist
        obtain ⟨b, hb, hrest⟩ := Option.map_eq_some_iff.1 hlist
        simp [hb, hread, Reading.append, hrest]
    · have hlist : argumentList.runs rest = [] := by
        rw [List.eq_nil_iff_forall_not_mem]
        intro b hb
        obtain ⟨r, hr, _⟩ := mem_runs_char_seq.1 hb
        exact hopen ⟨r, hr⟩
      have hfront : argumentList.matchFront? rest = none := by rw [matchFront?, hlist]; rfl
      have hparts : ∀ r, rest ≠ '(' :: r := fun r hr => hopen ⟨r, hr⟩
      rw [hfront]
      split
      · rename_i h
        cases h
      · rename_i r h
        cases h
        exact absurd rfl (hparts r)
      · rename_i h
        cases h
        rfl

theorem findAll_atom (s : Text) : atom.findAll s = listedAtoms s := by
  fun_induction listedAtoms s with
  | case1 => rw [findAll]
  | case2 c r a rest h ih =>
    have hfront := matchFront?_atom (c :: r)
    rw [readAtom_eq_some_iff.1 h, Option.map_some] at hfront
    obtain ⟨b, hb, hrest⟩ := Option.map_eq_some_iff.1 hfront
    have hrest : b.rest = rest := hrest
    rw [findAll_of_some hb (by rw [hrest]; exact readAtom_length_lt h), hrest, ih]
  | case3 c r h ih =>
    have hfront := matchFront?_atom (c :: r)
    cases hparts : readAtomParts (c :: r) with
    | none =>
      rw [hparts, Option.map_none, Option.map_eq_none_iff] at hfront
      rw [findAll_of_none hfront, ih]
    | some parts =>
      obtain ⟨p, vs, rest⟩ := parts
      obtain ⟨hp, hvs⟩ := readAtomParts_ok hparts
      have hread : readAtom (c :: r) = some (⟨p, vs, hp, hvs⟩, rest) := readAtom_eq_some_iff.2 hparts
      rw [h] at hread
      cases hread

/-! ## Searching for values -/

theorem matchFront?_value (s : Text) :
    value.matchFront? s = (readValue s).map fun (v, rest) => ⟨[v], rest⟩ := by
  rw [matchFront?, runs_value]
  cases h : readValue s with
  | none => simp [valueLengths, h]
  | some p =>
    obtain ⟨v, rest⟩ := p
    obtain ⟨shorter, hlengths, _⟩ := valueLengths_eq_cons h
    rw [hlengths, readValue_append h]
    simp

theorem readValue_of_isBlank (h : Text.isBlank c = true) (r : Text) : readValue (c :: r) = none := by
  cases hread : readValue (c :: r) with
  | none => rfl
  | some p =>
    obtain ⟨v, rest⟩ := p
    cases v with
    | nil => exact absurd rfl (readValue_ne_nil hread)
    | cons d v =>
      obtain rfl : d = c := by simpa using readValue_head hread
      rw [isBlank_head_of_isValue (readValue_isValue hread)] at h
      cases h

theorem findAll_value_blanks (h : s.all Text.isBlank = true) (t : Text) :
    value.findAll (s ++ t) = value.findAll t := by
  induction s with
  | nil => rfl
  | cons c s ih =>
    rw [List.all_cons, Bool.and_eq_true] at h
    have hnone : value.matchFront? (c :: (s ++ t)) = none := by
      rw [matchFront?_value, readValue_of_isBlank h.1, Option.map_none]
    rw [List.cons_append, findAll_of_none hnone, ih h.2]

/-- A value with blanks around it is found where no other value could begin within it. -/
theorem findAll_value_padded (hv : isValue v = true) (hs : Padded v s) (ht : isBoundary t = true) :
    value.findAll (s ++ t) = v :: value.findAll t := by
  obtain ⟨lead, trail, hlead, htrail, rfl⟩ := hs
  have hread : readValue (v ++ (trail ++ t)) = some (v, trail ++ t) :=
    readValue_append_boundary hv (isBoundary_blanks htrail ht)
  have hfront : value.matchFront? (v ++ (trail ++ t)) = some ⟨[v], trail ++ t⟩ := by
    rw [matchFront?_value, hread, Option.map_some]
  rw [List.append_assoc, List.append_assoc, findAll_value_blanks hlead,
    findAll_of_some hfront (readValue_length_lt hread), Text.consumed_append,
    findAll_value_blanks htrail]

theorem findAll_value (h : SpellsArguments vs t) : value.findAll t = vs := by
  induction h with
  | @last v t hv ht =>
    have hfind := findAll_value_padded hv ht (t := []) rfl
    rwa [List.append_nil, findAll] at hfind
  | @more v t u vs hv ht _ ih =>
    have hcomma : value.matchFront? (',' :: u) = none := by
      rw [matchFront?_value]
      simp [readValue, readIdentifier]
    rw [findAll_value_padded hv ht (isBoundary_cons.2 (by decide)), findAll_of_none hcomma, ih]

end Pattern

/-! ## Two passes -/

namespace Atom

/-- The pattern of atoms on the whole text, and then the pattern of values in its arguments. -/
def passes (s : Text) : Option (Text × List Text) :=
  match Pattern.atom.matchWhole? s with
  | none => none
  | some a =>
    match a.values with
    | [] => none
    | [p] => some (p, [])
    | p :: arguments :: _ => some (p, Pattern.value.findAll arguments)

theorem passes_of_mem_runs {s : Text} {a : Reading} (h : Pattern.atom.matchWhole? s = some a) :
    ∃ p vs, passes s = some (p, vs) ∧ SpellsAtom p vs s := by
  have hrest : a.rest = [] := by simpa using List.find?_some h
  obtain ⟨p, hp, ⟨hs, hvalues⟩ | ⟨t, vs, ht, hs, hvalues⟩⟩ :=
    Pattern.mem_runs_atom.1 (List.mem_of_find?_eq_some h)
  all_goals rw [hrest] at hs
  · refine ⟨p, [], by simp only [passes, h, hvalues], ?_⟩
    rw [hs, List.append_nil]
    exact .constant hp
  · refine ⟨p, vs, by simp only [passes, h, hvalues, Pattern.findAll_value ht], ?_⟩
    have hcompound := SpellsAtom.compound hp ht
    rwa [List.append_assoc, List.cons_append, ← hs] at hcompound

theorem matchWhole?_of_spells {s p : Text} {vs : List Text} (h : SpellsAtom p vs s) :
    ∃ a, Pattern.atom.matchWhole? s = some a := by
  rw [← Option.isSome_iff_exists, Pattern.matchWhole?_isSome_iff]
  cases h with
  | constant hp =>
    exact ⟨⟨[s], []⟩, Pattern.mem_runs_atom.2 ⟨s, hp, .inl ⟨by simp, rfl⟩⟩, rfl⟩
  | compound hp ht =>
    rename_i t
    exact ⟨⟨p :: t :: vs, []⟩, Pattern.mem_runs_atom.2 ⟨p, hp, .inr ⟨t, vs, ht, by simp, rfl⟩⟩, rfl⟩

/-- The two passes read what the reader of atoms reads in one. -/
theorem passes_eq_parse (s : Text) :
    passes s = (parse s).toOption.map fun a => (a.predicate, a.arguments) := by
  cases hmatch : Pattern.atom.matchWhole? s with
  | none =>
    cases hparse : parse s with
    | error e => simp [passes, hmatch, Except.toOption]
    | ok a =>
      obtain ⟨b, hb⟩ := matchWhole?_of_spells (parse_eq_ok_iff_spells.1 hparse)
      rw [hmatch] at hb
      cases hb
  | some b =>
    obtain ⟨p, vs, hpasses, hspells⟩ := passes_of_mem_runs hmatch
    obtain ⟨a, rfl, rfl⟩ := exists_of_spells hspells
    rw [hpasses, parse_eq_ok_iff_spells.2 hspells]
    rfl

end Atom
end FactForm
