import FactForm.Proofs.AnswerSets.Extraction

/-!
# FactForm.Proofs.AnswerSets.Entries

A listing with entries that are no atoms. Atoms are searched for at every place, in such an entry as
well: it is passed over only if no atom begins in it, and otherwise what is found there counts as an
atom of the set. An argument list that begins in an entry may go on over the commas behind it and
close in another one, and the entries in between become arguments. Still every entry with a small letter
leaves a token of its own, so that no set of atoms is the one that was listed.

* `Malformed`, `Entry`, `entriesOutput` — one answer set whose entries are atoms or not.
* `wellFormed`, `rejected` — the atoms among the entries, and the other entries as diagnostics.
* `readArguments_within` — where an argument list ends that begins in an entry.
* `leastTokens_le_found` — how many tokens are found at least.
* `readAnswerSets_entries` — the atoms are read back exactly if no other entry has a small letter, and
  no entry is ever reported.
-/

namespace FactForm

/-! ## Entries -/

/-- Commas part the entries, braces end the listing, and strings and blanks are left to atoms. -/
def isEntryChar (c : Char) : Bool :=
  c != ',' && c != '\x7b' && c != '\x7d' && c != '"' && !Text.isBlank c

/-- An entry that is no atom. -/
structure Malformed where
  text : Text
  text_ne : text ≠ []
  text_chars : text.all isEntryChar = true
  not_atom : Atom.parse text = .error ⟨text⟩

inductive Entry where
  | atom (a : Atom) (no_opening : '\x7b' ∉ a.text) (no_closing : '\x7d' ∉ a.text)
  | malformed (m : Malformed)

def Entry.text : Entry → Text
  | atom a _ _ => a.text
  | malformed m => m.text

/-- The atoms among the entries, in order. -/
def wellFormed : List Entry → List Atom
  | [] => []
  | .atom a _ _ :: entries => a :: wellFormed entries
  | .malformed _ :: entries => wellFormed entries

/-- The diagnostics that the other entries call for, in order. -/
def rejected : List Entry → List MalformedAtom
  | [] => []
  | .atom _ _ _ :: entries => rejected entries
  | .malformed m :: entries => ⟨m.text⟩ :: rejected entries

def entriesOutput (entries : List Entry) : Text :=
  '\x7b' :: Text.joinWith [',', ' '] (entries.map Entry.text) ++ ['\x7d']

/-- The entries as they stand behind another one. -/
def behind : List Entry → Text
  | [] => []
  | e :: entries => ',' :: ' ' :: (e.text ++ behind entries)

theorem joinWith_entries (e : Entry) (entries : List Entry) :
    Text.joinWith [',', ' '] ((e :: entries).map Entry.text) = e.text ++ behind entries := by
  induction entries generalizing e with
  | nil => rw [List.map_singleton, Text.joinWith_singleton, behind, List.append_nil]
  | cons next entries ih =>
    have hne : (next :: entries).map Entry.text ≠ [] := List.cons_ne_nil _ _
    rw [List.map_cons, Text.joinWith_cons hne, ih, behind, List.append_assoc]
    rfl

theorem endsAtom_behind (entries : List Entry) : endsAtom (behind entries) = true := by
  cases entries <;> rfl

theorem length_behind (e : Entry) (entries : List Entry) :
    (behind (e :: entries)).length = e.text.length + (behind entries).length + 2 := by
  rw [behind, List.length_cons, List.length_cons, List.length_append]

theorem Entry.closing_not_mem (e : Entry) : '\x7d' ∉ e.text := by
  cases e with
  | atom a _ no_closing => exact no_closing
  | malformed m =>
    intro hmem
    exact absurd (List.all_eq_true.1 m.text_chars _ hmem) (by decide)

theorem closing_not_mem_behind (entries : List Entry) : '\x7d' ∉ behind entries := by
  induction entries with
  | nil => exact List.not_mem_nil
  | cons e entries ih => simp [behind, e.closing_not_mem, ih]

theorem closing_not_mem_joinWith (entries : List Entry) :
    '\x7d' ∉ Text.joinWith [',', ' '] (entries.map Entry.text) := by
  cases entries with
  | nil => exact List.not_mem_nil
  | cons e entries =>
    rw [joinWith_entries, List.mem_append, not_or]
    exact ⟨e.closing_not_mem, closing_not_mem_behind entries⟩

/-! ## Reading within an entry -/

/-- A text without commas, so that it stands within one entry, and without strings. -/
def Bare (g : Text) : Prop := ',' ∉ g ∧ '"' ∉ g

theorem Bare.suffix {g g' : Text} (h : Bare g) (hsuffix : g' <:+ g) : Bare g' :=
  ⟨fun hmem => h.1 (hsuffix.subset hmem), fun hmem => h.2 (hsuffix.subset hmem)⟩

theorem Bare.tail {c : Char} {g : Text} (h : Bare (c :: g)) : Bare g :=
  h.suffix (List.suffix_cons c g)

theorem Malformed.bare (m : Malformed) : Bare m.text := by
  refine ⟨fun hmem => ?_, fun hmem => ?_⟩
  · exact absurd (List.all_eq_true.1 m.text_chars _ hmem) (by decide)
  · exact absurd (List.all_eq_true.1 m.text_chars _ hmem) (by decide)

theorem behind_split {g v rest : Text} {entries : List Entry}
    (h : g ++ behind entries = v ++ rest) (hv : ',' ∉ v) :
    ∃ g', g = v ++ g' ∧ rest = g' ++ behind entries := by
  rcases List.append_eq_append_iff.1 h with ⟨x, hx, hbehind⟩ | ⟨g', hg, hrest⟩
  · cases x with
    | nil => exact ⟨[], by rw [hx, List.append_nil, List.append_nil], hbehind.symm⟩
    | cons c x =>
      cases entries with
      | nil => cases hbehind
      | cons e entries =>
        have hc : ',' = c := (List.cons.inj hbehind).1
        exact absurd (by rw [hx, hc]; simp) hv
  · exact ⟨g', hg, hrest⟩

theorem skipBlanks_behind (g : Text) (entries : List Entry) :
    Text.skipBlanks (g ++ behind entries) = Text.skipBlanks g ++ behind entries := by
  induction g with
  | nil =>
    cases entries with
    | nil => rfl
    | cons e entries => exact Text.skipBlanks_cons (by decide) _
  | cons c g ih =>
    cases hc : Text.isBlank c with
    | true => rw [List.cons_append, Text.skipBlanks_blank hc, Text.skipBlanks_blank hc, ih]
    | false =>
      rw [List.cons_append, Text.skipBlanks_cons hc, Text.skipBlanks_cons hc, List.cons_append]

theorem readValue_within {g v rest : Text} {entries : List Entry} (hq : '"' ∉ g)
    (h : readValue (g ++ behind entries) = some (v, rest)) :
    ∃ g', g = v ++ g' ∧ rest = g' ++ behind entries := by
  have hhead : v.head? ≠ some '"' := by
    rw [readValue_head h]
    cases g with
    | nil => cases entries <;> simp [behind]
    | cons c g =>
      rw [List.cons_append, List.head?_cons]
      intro hc
      exact hq (by rw [Option.some.inj hc]; exact List.mem_cons_self)
  have hcomma : ',' ∉ v := by
    intro hmem
    have hword := List.all_eq_true.1 (isValue_all_isWordChar (readValue_isValue h) hhead) _ hmem
    exact absurd hword (by decide)
  exact behind_split (readValue_append h) hcomma

theorem readArgument_within {g v rest : Text} {entries : List Entry} (hq : '"' ∉ g)
    (h : readArgument (g ++ behind entries) = some (v, rest)) :
    ∃ g', g' <:+ g ∧ rest = g' ++ behind entries := by
  obtain ⟨⟨w, r⟩, hread, hp⟩ := Option.map_eq_some_iff.1 h
  cases hp
  rw [skipBlanks_behind] at hread
  have hskip : Text.skipBlanks g <:+ g := List.dropWhile_suffix _
  obtain ⟨g', hg, rfl⟩ := readValue_within (fun hmem => hq (hskip.subset hmem)) hread
  have hvalue : g' <:+ Text.skipBlanks g := by
    rw [hg]
    exact List.suffix_append v g'
  exact ⟨Text.skipBlanks g', (List.dropWhile_suffix _).trans (hvalue.trans hskip),
    skipBlanks_behind g' entries⟩

/-! ## Counting tokens -/

def tokenCount : List Atom → Nat
  | [] => 0
  | a :: atoms => a.tokens.length + tokenCount atoms

/-- Only tokens with a small letter begin atoms. -/
def hasLetter (s : Text) : Bool := s.any Char.isLower

/-- A text with a small letter gives one token at least. -/
def letterToken (s : Text) : Nat := if hasLetter s then 1 else 0

/-- The tokens that are found at least for the given entries. -/
def leastTokens : List Entry → Nat
  | [] => 0
  | .atom a _ _ :: entries => a.tokens.length + leastTokens entries
  | .malformed m :: entries => letterToken m.text + leastTokens entries

theorem letterToken_le_one (s : Text) : letterToken s ≤ 1 := by
  rw [letterToken]
  split <;> decide

theorem hasLetter_of_isIdentifier {s : Text} (h : isIdentifier s = true) : hasLetter s = true := by
  cases s with
  | nil => cases h
  | cons c r => rw [hasLetter, List.any_cons, (isIdentifier_cons.1 h).1, Bool.true_or]

theorem hasLetter_of_isPredicate {p : Text} (h : isPredicate p = true) : hasLetter p = true := by
  unfold isPredicate at h
  split at h
  · rw [hasLetter, List.any_cons]
    exact Bool.or_eq_true_iff.2 (.inr (hasLetter_of_isIdentifier h))
  · exact hasLetter_of_isIdentifier h

theorem readPredicate_within {g p rest : Text} {entries : List Entry}
    (h : readPredicate (g ++ behind entries) = some (p, rest)) :
    hasLetter g = true ∧ ∃ g', g' <:+ g ∧ rest = g' ++ behind entries := by
  have hp := readPredicate_isPredicate h
  obtain ⟨g', rfl, hrest⟩ :=
    behind_split (readPredicate_append h) (not_mem_of_isPredicate hp (by decide) (by decide))
  refine ⟨?_, g', List.suffix_append p g', hrest⟩
  rw [hasLetter, List.any_append, Bool.or_eq_true]
  exact .inl (hasLetter_of_isPredicate hp)

theorem readArgument_predicate {p s v rest : Text} (hp : isPredicate p = true)
    (h : readArgument (' ' :: (p ++ '(' :: s)) = some (v, rest)) : rest = '(' :: s := by
  obtain ⟨⟨w, t⟩, hread, heq⟩ := Option.map_eq_some_iff.1 h
  cases heq
  rw [Text.skipBlanks_blank rfl] at hread
  unfold isPredicate at hp
  split at hp
  · -- No value begins with a minus.
    rw [List.cons_append, Text.skipBlanks_cons (by decide)] at hread
    cases hread
  · have hv : isValue p = true := by rw [isValue, hp]; rfl
    rw [skipBlanks_value hv, readValue_append_boundary hv (isBoundary_cons.2 (by decide))] at hread
    cases hread
    exact Text.skipBlanks_cons (by decide) s

theorem readArguments_predicate {p : Text} (hp : isPredicate p = true) (s : Text) :
    readArguments (' ' :: (p ++ '(' :: s)) = none := by
  rw [readArguments]
  split
  · rename_i h
    cases readArgument_predicate hp h
  · rename_i h
    cases readArgument_predicate hp h
  · rfl

theorem Entry.bare_of_readArguments {e : Entry} {entries : List Entry} {x : List Text × Text}
    (h : readArguments (' ' :: (e.text ++ behind entries)) = some x) :
    Bare (' ' :: e.text) ∧
      leastTokens (e :: entries) ≤ letterToken (' ' :: e.text) + leastTokens entries := by
  cases e with
  | malformed m =>
    obtain ⟨hcomma, hquote⟩ := m.bare
    refine ⟨?_, ?_⟩
    · simp [Bare, Entry.text, hcomma, hquote]
    · simp [leastTokens, letterToken, hasLetter, Entry.text]
  | atom a hopening hclosing =>
    have hcomma : ',' ∉ a.predicate := not_mem_of_isPredicate a.predicate_ok (by decide) (by decide)
    have hquote : '"' ∉ a.predicate := not_mem_of_isPredicate a.predicate_ok (by decide) (by decide)
    cases hargs : a.arguments with
    | nil =>
      have htext : a.text = a.predicate := by rw [Atom.text, hargs]; rfl
      have hpred : hasLetter a.predicate = true := hasLetter_of_isPredicate a.predicate_ok
      have hletter : hasLetter (' ' :: a.predicate) = true := hpred
      rw [Entry.text, htext, leastTokens, Atom.tokens, hargs, letterToken, if_pos hletter]
      refine ⟨?_, Nat.le_refl _⟩
      simp [Bare, hcomma, hquote]
    | cons v vs =>
      have htext : a.text = a.predicate ++ '(' :: (Text.joinWith [','] (v :: vs) ++ [')']) := by
        rw [Atom.text, hargs, atomText, if_neg (by simp), List.append_assoc, List.cons_append]
      rw [Entry.text, htext, List.append_assoc, List.cons_append,
        readArguments_predicate a.predicate_ok] at h
      cases h

/-- Where an argument list ends that begins in an entry, and what is found in it. -/
theorem readArguments_within {g rest : Text} {entries : List Entry} {vs : List Text} (hg : Bare g)
    (h : readArguments (g ++ behind entries) = some (vs, rest)) :
    ∃ g' entries', Bare g' ∧ rest = g' ++ behind entries' ∧
      letterToken g + leastTokens entries ≤ vs.length + (letterToken g' + leastTokens entries') := by
  generalize hs : g ++ behind entries = s at h
  fun_induction readArguments s generalizing g entries vs rest with
  | case1 s v r hread ih =>
    subst hs
    obtain ⟨⟨ws, t⟩, hrest, hp⟩ := Option.map_eq_some_iff.1 h
    cases hp
    obtain ⟨g₁, hsuffix, hr⟩ := readArgument_within hg.2 hread
    -- The comma is not one of the entry, so that the list goes on in the next entry.
    cases g₁ with
    | cons c g₁ =>
      have hc : ',' = c := (List.cons.inj hr).1
      exact absurd (by rw [hc]; exact List.mem_cons_self) (hg.suffix hsuffix).1
    | nil =>
      cases entries with
      | nil => cases hr
      | cons e entries =>
        obtain rfl : r = ' ' :: (e.text ++ behind entries) := (List.cons.inj hr).2
        obtain ⟨hbare, hleast⟩ := Entry.bare_of_readArguments hrest
        obtain ⟨g', entries', hg', hrest', hcount⟩ := ih hbare rfl hrest
        refine ⟨g', entries', hg', hrest', ?_⟩
        have hone := letterToken_le_one g
        rw [List.length_cons]
        omega
  | case2 s v r hread =>
    subst hs
    cases h
    obtain ⟨g₁, hsuffix, hr⟩ := readArgument_within hg.2 hread
    obtain ⟨g', rfl, hrest⟩ := behind_split (v := [')']) hr.symm (by decide)
    refine ⟨g', entries, (hg.suffix hsuffix).tail, hrest, ?_⟩
    have hone := letterToken_le_one g
    rw [List.length_singleton]
    omega
  | case3 => cases h

/-- Where an atom ends that begins in an entry, and what is found in it. -/
theorem readAtomParts_within {g p rest : Text} {vs : List Text} {entries : List Entry}
    (hg : Bare g) (h : readAtomParts (g ++ behind entries) = some (p, vs, rest)) :
    hasLetter g = true ∧ ∃ g' entries', Bare g' ∧ rest = g' ++ behind entries' ∧
      letterToken g + leastTokens entries ≤
        (vs.length + 1) + (letterToken g' + leastTokens entries') := by
  have hone := letterToken_le_one g
  unfold readAtomParts at h
  split at h
  · cases h
  · rename_i r hpred
    obtain ⟨hletter, g₁, hsuffix, hr⟩ := readPredicate_within hpred
    refine ⟨hletter, ?_⟩
    split at h
    · rename_i vs t hargs
      cases h
      -- The parenthesis stands in the entry, as in front of the next one there is a comma.
      obtain ⟨g₂, rfl, rfl⟩ := behind_split (v := ['(']) hr.symm (by decide)
      obtain ⟨g', entries', hg', hrest, hcount⟩ :=
        readArguments_within (hg.suffix hsuffix).tail hargs
      exact ⟨g', entries', hg', hrest, by omega⟩
    · cases h
      exact ⟨g₁, entries, hg.suffix hsuffix, hr, by omega⟩
  · rename_i hpred
    cases h
    obtain ⟨hletter, g₁, hsuffix, hr⟩ := readPredicate_within hpred
    exact ⟨hletter, g₁, entries, hg.suffix hsuffix, hr, by omega⟩

/-! ## What is found -/

def found (s : Text) : List Atom := (parseAll (listedAtoms s)).atoms

theorem found_nil : found [] = [] := by
  rw [found, listedAtoms_nil]
  rfl

theorem found_of_readAtom {s rest : Text} {a : Atom} (h : readAtom s = some (a, rest)) :
    found s = a :: found rest :=
  parseAll_listedAtoms h

theorem found_of_none {c : Char} {r : Text} (h : readAtom (c :: r) = none) :
    found (c :: r) = found r := by
  rw [found, listedAtoms_of_none h, found]

theorem found_behind (e : Entry) (entries : List Entry) :
    found (behind (e :: entries)) = found (e.text ++ behind entries) := by
  rw [behind, found_of_none (readAtom_eq_none (by decide) (by decide) _),
    found_of_none (readAtom_eq_none (by decide) (by decide) _)]

theorem found_text (a : Atom) (entries : List Entry) :
    found (a.text ++ behind entries) = a :: found (behind entries) :=
  found_of_readAtom (a.readAtom_text_append (endsAtom_behind entries))

/-- No token of a listed atom is lost, and every other entry with a small letter adds one. The induction
is on what is left of the listing, since an argument list may go on over any number of entries. -/
theorem leastTokens_le_found {g : Text} (hg : Bare g) (entries : List Entry) :
    letterToken g + leastTokens entries ≤ tokenCount (found (g ++ behind entries)) := by
  generalize hn : (g ++ behind entries).length = n
  induction n using Nat.strongRecOn generalizing g entries with
  | ind n ih =>
    subst hn
    cases g with
    | nil =>
      cases entries with
      | nil => exact Nat.zero_le _
      | cons e entries =>
        rw [List.nil_append, found_behind]
        cases e with
        | atom a hopening hclosing =>
          have hlt : (behind entries).length <
              (behind (.atom a hopening hclosing :: entries)).length := by
            rw [length_behind]
            omega
          have hrest := ih _ hlt hg entries rfl
          rw [List.nil_append] at hrest
          rw [Entry.text, found_text, tokenCount, leastTokens]
          omega
        | malformed m =>
          have hlt : (m.text ++ behind entries).length <
              (behind (.malformed m :: entries)).length := by
            rw [length_behind, List.length_append, Entry.text]
            omega
          have hrest := ih _ hlt m.bare entries rfl
          have hnil : letterToken [] = 0 := rfl
          rw [leastTokens, Entry.text]
          omega
    | cons c r =>
      cases hread : readAtom (c :: r ++ behind entries) with
      | none =>
        have hrest := ih _ (Nat.lt_succ_self _) hg.tail entries rfl
        have hletter : letterToken (c :: r) = letterToken r := by
          rw [letterToken, hasLetter, List.any_cons, isLower_of_readAtom_eq_none hread,
            Bool.false_or, letterToken, hasLetter]
        rw [List.cons_append] at hread ⊢
        rw [hletter, found_of_none hread]
        exact hrest
      | some parts =>
        obtain ⟨a, rest⟩ := parts
        have hlt := readAtom_length_lt hread
        obtain ⟨_, g', entries', hg', rfl, hcount⟩ :=
          readAtomParts_within hg (readAtom_eq_some_iff.1 hread)
        have hrest := ih _ hlt hg' entries' rfl
        rw [found_of_readAtom hread, tokenCount, Atom.tokens, List.length_cons]
        omega

theorem found_of_not_hasLetter {g : Text} (hg : Bare g) (hletter : hasLetter g = false)
    (entries : List Entry) : found (g ++ behind entries) = found (behind entries) := by
  induction g with
  | nil => rfl
  | cons c r ih =>
    have hnone : readAtom (c :: (r ++ behind entries)) = none := by
      rw [← List.cons_append, Option.eq_none_iff_forall_ne_some]
      rintro ⟨a, rest⟩ hread
      rw [(readAtomParts_within hg (readAtom_eq_some_iff.1 hread)).1] at hletter
      cases hletter
    have hr : hasLetter r = false := by
      rw [hasLetter, List.any_cons, Bool.or_eq_false_iff] at hletter
      exact hletter.2
    rw [List.cons_append, found_of_none hnone, ih hg.tail hr]

/-! ## Answer sets with such entries -/

theorem leastTokens_eq (entries : List Entry) :
    leastTokens entries =
      tokenCount (wellFormed entries) + (rejected entries).countP (hasLetter ·.text) := by
  induction entries with
  | nil => rfl
  | cons e entries ih =>
    cases e with
    | atom a hopening hclosing =>
      rw [leastTokens, wellFormed, rejected, tokenCount, ih, Nat.add_assoc]
    | malformed m =>
      have htoken : letterToken m.text = if hasLetter (MalformedAtom.mk m.text).text then 1 else 0 :=
        rfl
      rw [leastTokens, wellFormed, rejected, List.countP_cons, ih, htoken]
      omega

theorem found_entries_iff (entries : List Entry) :
    found (behind entries) = wellFormed entries ↔
      ∀ e ∈ rejected entries, hasLetter e.text = false := by
  constructor
  · intro h
    have hleast := leastTokens_le_found (g := []) ⟨List.not_mem_nil, List.not_mem_nil⟩ entries
    rw [List.nil_append, h, leastTokens_eq] at hleast
    have hnone : (rejected entries).countP (hasLetter ·.text) = 0 := by omega
    intro e he
    exact Bool.eq_false_iff.2 (List.countP_eq_zero.1 hnone e he)
  · intro h
    induction entries with
    | nil => exact found_nil
    | cons e entries ih =>
      rw [found_behind]
      cases e with
      | atom a hopening hclosing => rw [Entry.text, found_text, wellFormed, ih h]
      | malformed m =>
        obtain ⟨hm, hrest⟩ := List.forall_mem_cons.1 h
        rw [Entry.text, found_of_not_hasLetter m.bare hm, wellFormed, ih hrest]

theorem found_joinWith (entries : List Entry) :
    found (Text.joinWith [',', ' '] (entries.map Entry.text)) = found (behind entries) := by
  cases entries with
  | nil => rfl
  | cons e entries => rw [joinWith_entries, found_behind]

theorem sets_entriesOutput (entries : List Entry) :
    (readAnswerSets (entriesOutput entries)).sets = [found (behind entries)] := by
  rw [readAnswerSets_sets, entriesOutput, List.cons_append,
    bracedTexts_brace (closing_not_mem_joinWith entries), bracedTexts_nil, List.map_singleton,
    ← found_joinWith, found]

/-- The atoms among the entries are the set that is read exactly if no other entry has a small letter.
Diagnostics are never reported, so that atoms and diagnostics are both right exactly if all entries are
atoms. -/
theorem readAnswerSets_entries (entries : List Entry) :
    ((readAnswerSets (entriesOutput entries)).sets = [wellFormed entries] ↔
      ∀ e ∈ rejected entries, hasLetter e.text = false) ∧
    (readAnswerSets (entriesOutput entries)).diagnostics = [] ∧
    ((readAnswerSets (entriesOutput entries)).sets = [wellFormed entries] ∧
      (readAnswerSets (entriesOutput entries)).diagnostics = rejected entries ↔
        rejected entries = []) := by
  have hsets : (readAnswerSets (entriesOutput entries)).sets = [wellFormed entries] ↔
      ∀ e ∈ rejected entries, hasLetter e.text = false := by
    rw [sets_entriesOutput, List.singleton_inj, found_entries_iff]
  refine ⟨hsets, readAnswerSets_diagnostics _, ?_⟩
  rw [hsets, readAnswerSets_diagnostics]
  constructor
  · intro h
    exact h.2.symm
  · intro h
    rw [h]
    exact ⟨fun e he => absurd he List.not_mem_nil, rfl⟩

def capitalized : Malformed := ⟨"Foo".toList, by decide, by decide, by decide⟩

/-- The listing `a, Foo, b`. -/
def mixedEntries : List Entry :=
  [.atom ⟨['a'], [], rfl, rfl⟩ (by decide) (by decide), .malformed capitalized,
    .atom ⟨['b'], [], rfl, rfl⟩ (by decide) (by decide)]

/-- What is read of `mixedEntries` has an atom that was not listed, and nothing is reported. -/
theorem mixedEntries_not_reported :
    entriesOutput mixedEntries = "\x7ba, Foo, b\x7d".toList ∧
    (readAnswerSets (entriesOutput mixedEntries)).sets =
      [[⟨['a'], [], rfl, rfl⟩, ⟨['o', 'o'], [], rfl, rfl⟩, ⟨['b'], [], rfl, rfl⟩]] ∧
    (readAnswerSets (entriesOutput mixedEntries)).sets ≠ [wellFormed mixedEntries] ∧
    (readAnswerSets (entriesOutput mixedEntries)).diagnostics ≠ rejected mixedEntries := by
  refine ⟨by decide, ?_, ?_, ?_⟩
  · decide +kernel
  · decide +kernel
  · decide +kernel

end FactForm
