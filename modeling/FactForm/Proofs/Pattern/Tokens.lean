import FactForm.Proofs.Pattern.Runs
import FactForm.Proofs.Template.Markers
import FactForm.Proofs.Template.Spelling

/-!
# FactForm.Proofs.Pattern.Tokens

The patterns of tokens and of templates, against the readers that take their place.

* `Pattern.matchWhole?_identifier`, `matchWhole?_number` — what is an identifier or a number.
* `Pattern.runs_stringBody` — a string has one match at most.
* `Pattern.runs_value` — the matches of a value have the lengths of the values at the front of a text.
* `Pattern.runs_ofParts` — the matches of parts are their readings, in the same order.
* `Pattern.matchFront?_ofParts`, `matchWhole?_ofParts` — the search for a reading finds the preferred one.
* `Pattern.matchFront?_marker`, `findAll_marker` — the markers of a text are those at which it is cut.
-/

namespace FactForm
namespace Pattern

variable {a : Reading} {s r : Text} {c : Char}

/-- A match that takes so many characters and has no group. -/
def taking (s : Text) (n : Nat) : Reading := ⟨[], s.drop n⟩

/-! ## Tokens -/

theorem runs_class_cons {x y : Symbol} (h : x.matches c = true) (r : Text) :
    (seq (one x) (star (one y))).runs (c :: r) =
      (countdown ((r.takeWhile y.matches).length + 1)).map (taking (c :: r)) := by
  rw [runs_seq_of_single (runs_one_cons h), runs_star_one, countdown_eq_snoc]
  simp [taking, Function.comp_def]

theorem runs_identifier_cons (h : c.isLower = true) (r : Text) :
    identifier.runs (c :: r) =
      (countdown ((r.takeWhile isWordChar).length + 1)).map (taking (c :: r)) := by
  have hlower : Symbol.lower.matches c = true := h
  exact runs_class_cons hlower r

theorem runs_identifier_of_not (h : c.isLower = false) (r : Text) : identifier.runs (c :: r) = [] := by
  simp [identifier, runs, Symbol.matches, h]

theorem runs_number_zero (r : Text) : number.runs ('0' :: r) = [taking ('0' :: r) 1] := by
  simp [number, char, runs, Symbol.matches, taking]

theorem runs_number_cons (hc : c ≠ '0') (h : c.isDigit = true) (r : Text) :
    number.runs (c :: r) =
      (countdown ((r.takeWhile Char.isDigit).length + 1)).map (taking (c :: r)) := by
  have hzero : (char '0').runs (c :: r) = [] := by simp [char, runs, Symbol.matches, hc]
  have hpositive : Symbol.positive.matches c = true := by simp [Symbol.matches, h, hc]
  rw [number, runs, hzero, List.nil_append]
  exact runs_class_cons hpositive r

theorem runs_number_of_not (h : c.isDigit = false) (r : Text) : number.runs (c :: r) = [] := by
  have hc : c ≠ '0' := by
    rintro rfl
    cases h
  simp [number, char, runs, Symbol.matches, h, hc]

theorem mem_runs_identifier :
    a ∈ identifier.runs s ↔ a.values = [] ∧ ∃ v, isIdentifier v = true ∧ s = v ++ a.rest := by
  simp only [identifier, mem_runs_seq, mem_runs_one, mem_runs_star_one]
  constructor
  · rintro ⟨b, ⟨hb, c, hc, hs⟩, d, ⟨hd, w, hw, hrest⟩, rfl⟩
    refine ⟨by simp [Reading.append, hb, hd], c :: w, isIdentifier_cons.2 ⟨hc, hw⟩, ?_⟩
    rw [hs, hrest]
    rfl
  · rintro ⟨hvalues, v, hv, rfl⟩
    cases v with
    | nil => cases hv
    | cons c w =>
      obtain ⟨hc, hw⟩ := isIdentifier_cons.1 hv
      exact ⟨⟨[], w ++ a.rest⟩, ⟨rfl, c, hc, rfl⟩, a, ⟨hvalues, w, hw, rfl⟩, rfl⟩

theorem mem_runs_number :
    a ∈ number.runs s ↔ a.values = [] ∧ ∃ v, isNumber v = true ∧ s = v ++ a.rest := by
  simp only [number, char, runs_alt, List.mem_append, mem_runs_seq, mem_runs_one, mem_runs_star_one]
  constructor
  · rintro (⟨hvalues, c, hc, hs⟩ | ⟨b, ⟨hb, c, hc, hs⟩, d, ⟨hd, w, hw, hrest⟩, rfl⟩)
    · obtain rfl : c = '0' := by simpa [Symbol.matches] using hc
      exact ⟨hvalues, ['0'], rfl, hs⟩
    · have hc : c.isDigit = true ∧ c ≠ '0' := by simpa [Symbol.matches] using hc
      refine ⟨by simp [Reading.append, hb, hd], c :: w, isNumber_cons.2 (.inr ⟨hc.2, hc.1, hw⟩), ?_⟩
      rw [hs, hrest]
      rfl
  · rintro ⟨hvalues, v, hv, rfl⟩
    cases v with
    | nil => cases hv
    | cons c w =>
      rcases isNumber_cons.1 hv with ⟨rfl, rfl⟩ | ⟨hzero, hdigit, hw⟩
      · exact .inl ⟨hvalues, '0', by decide, rfl⟩
      · have hc : Symbol.positive.matches c = true := by simp [Symbol.matches, hdigit, hzero]
        exact .inr ⟨⟨[], w ++ a.rest⟩, ⟨rfl, c, hc, rfl⟩, a, ⟨hvalues, w, hw, rfl⟩, rfl⟩

/-- If the matches of a pattern are the tokens of a kind, it takes the whole of a text exactly if that
is a token. -/
theorem matchWhole?_of_mem_runs {p : Pattern} {isToken : Text → Bool}
    (h : ∀ {a s}, a ∈ p.runs s ↔ a.values = [] ∧ ∃ v, isToken v = true ∧ s = v ++ a.rest) (s : Text) :
    (p.matchWhole? s).isSome = isToken s := by
  rw [Bool.eq_iff_iff, matchWhole?_isSome_iff]
  constructor
  · rintro ⟨a, ha, hrest⟩
    obtain ⟨_, v, hv, rfl⟩ := h.1 ha
    rwa [hrest, List.append_nil]
  · intro hs
    exact ⟨⟨[], []⟩, h.2 ⟨rfl, s, hs, by simp⟩, rfl⟩

theorem matchWhole?_identifier (s : Text) : (identifier.matchWhole? s).isSome = isIdentifier s :=
  matchWhole?_of_mem_runs mem_runs_identifier s

theorem matchWhole?_number (s : Text) : (number.matchWhole? s).isSome = isNumber s :=
  matchWhole?_of_mem_runs mem_runs_number s

/-- One character of a string, or two that begin with a backslash. -/
def stringItem : Pattern := .alt (.one .unescaped) (.seq (char '\\') (.one .any))

theorem runs_stringItem_escape (h : c ≠ '\n') (r : Text) :
    stringItem.runs ('\\' :: c :: r) = [⟨[], r⟩] := by
  simp [stringItem, char, runs, Symbol.matches, h]

theorem runs_stringItem_plain (hquote : c ≠ '"') (hbackslash : c ≠ '\\') (r : Text) :
    stringItem.runs (c :: r) = [⟨[], r⟩] := by
  simp [stringItem, char, runs, Symbol.matches, hquote, hbackslash]

/-- A string is closed by the first quote that no backslash escapes, so it has one match at most. -/
theorem runs_stringBody (s : Text) :
    (seq (star stringItem) (char '"')).runs s =
      (readString s).toList.map fun (_, rest) => ⟨[], rest⟩ := by
  have hnone : ∀ t, stringItem.runs t = [] → (seq (star stringItem) (char '"')).runs t =
      (char '"').runs t := fun t => runs_star_seq_of_nil
  fun_induction readString s with
  | case1 => rfl
  | case2 r =>
    rw [hnone _ (by simp [stringItem, char, runs, Symbol.matches])]
    simp [char, runs, Symbol.matches]
  | case3 =>
    rw [hnone _ (by simp [stringItem, char, runs, Symbol.matches])]
    simp [char, runs, Symbol.matches]
  | case4 =>
    rw [hnone _ (by simp [stringItem, char, runs, Symbol.matches])]
    simp [char, runs, Symbol.matches]
  | case5 c r hc ih =>
    have hquote : (char '"').runs ('\\' :: c :: r) = [] := by simp [char, runs, Symbol.matches]
    have hshorter : r.length < ('\\' :: c :: r).length := by
      rw [List.length_cons, List.length_cons]
      omega
    rw [runs_star_seq_of_single (runs_stringItem_escape hc r) hshorter, hquote, ih]
    cases readString r <;> simp
  | case6 c r hquote hescape hbackslash ih =>
    have hc : c ≠ '\\' := by
      intro e
      cases r with
      | nil => exact hescape e rfl
      | cons d r => exact hbackslash d r e rfl
    have hnotQuote : (char '"').runs (c :: r) = [] := by
      simp [char, runs, Symbol.matches, show c ≠ '"' from hquote]
    rw [runs_star_seq_of_single (runs_stringItem_plain hquote hc r) (by simp), hnotQuote, ih]
    cases readString r <;> simp

theorem runs_quotedString_quote (r : Text) :
    quotedString.runs ('"' :: r) = (readString r).toList.map fun (_, rest) => ⟨[], rest⟩ := by
  have hquote : (char '"').runs ('"' :: r) = [⟨[], r⟩] := by simp [char, runs, Symbol.matches]
  rw [quotedString, runs_seq_of_single hquote, append_empty, List.map_id]
  exact runs_stringBody r

theorem runs_quotedString_of_not (h : c ≠ '"') (r : Text) : quotedString.runs (c :: r) = [] := by
  simp [quotedString, char, runs, Symbol.matches, h]

/-! ## Values -/

theorem runs_token (s : Text) :
    (alt identifier (alt quotedString number)).runs s = (valueLengths s).map (taking s) := by
  rcases s with _ | ⟨c, r⟩
  · rfl
  rw [runs_alt, runs_alt]
  by_cases hquote : c = '"'
  · subst hquote
    rw [runs_identifier_of_not (by decide), runs_quotedString_quote, runs_number_of_not (by decide)]
    cases hread : readString r with
    | none => simp [valueLengths, readValue, hread]
    | some p =>
      obtain ⟨body, rest⟩ := p
      have hrest : r.drop body.length = rest := by rw [readString_append hread, List.drop_left]
      simp [valueLengths, readValue, hread, taking, hrest]
  rw [runs_quotedString_of_not hquote, List.nil_append]
  by_cases hzero : c = '0'
  · subst hzero
    rw [runs_identifier_of_not (by decide), runs_number_zero]
    simp [valueLengths, readValue, countdown]
  by_cases hdigit : c.isDigit = true
  · rw [runs_identifier_of_not (isLower_of_isDigit hdigit), runs_number_cons hzero hdigit]
    simp [valueLengths, readValue, hquote, hzero, hdigit]
  have hdigit : c.isDigit = false := by simpa using hdigit
  rw [runs_number_of_not hdigit, List.append_nil]
  by_cases hlower : c.isLower = true
  · rw [runs_identifier_cons hlower]
    simp [valueLengths, readValue, readIdentifier, hquote, hzero, hdigit, hlower]
  · have hlower : c.isLower = false := by simpa using hlower
    rw [runs_identifier_of_not hlower]
    simp [valueLengths, readValue, readIdentifier, hquote, hzero, hdigit, hlower]

theorem runs_value (s : Text) :
    value.runs s = (valueLengths s).map fun n => ⟨[s.take n], s.drop n⟩ := by
  rw [value, runs, runs_token, List.map_map]
  refine List.map_congr_left ?_
  intro n hn
  have hle := (mem_valueLengths_iff.1 hn).1
  have hconsumed : Text.consumed s (s.drop n) = s.take n := by
    rw [Text.consumed, List.length_drop, Nat.sub_sub_self hle]
  simp [taking, Reading.cons, hconsumed]

/-! ## Templates -/

theorem runs_literal (text s : Text) :
    (literal text).runs s = (Text.after? text s).toList.map fun rest => ⟨[], rest⟩ := by
  induction text generalizing s with
  | nil => rfl
  | cons c text ih =>
    have hcons : literal (c :: text) = .seq (char c) (literal text) := rfl
    cases s with
    | nil => rfl
    | cons d s =>
      by_cases hc : c = d
      · subst hc
        have hchar : (char c).runs (c :: s) = [⟨[], s⟩] := runs_one_cons (by simp [Symbol.matches])
        rw [hcons, runs_seq_of_single hchar, append_empty, List.map_id, ih, Text.after?, if_pos rfl]
      · have hchar : (char c).runs (d :: s) = [] := by
          simp [char, runs, Symbol.matches, Ne.symm hc]
        rw [hcons, runs_seq_of_nil hchar, Text.after?, if_neg hc]
        rfl

/-- The matches of parts are their readings, in the same order. -/
theorem runs_ofParts (parts : List Part) (s : Text) : (ofParts parts).runs s = readings parts s := by
  induction parts generalizing s with
  | nil => rfl
  | cons part parts ih =>
    have hcons : ofParts (part :: parts) = .seq part.pattern (ofParts parts) := rfl
    rw [hcons, runs_seq]
    cases part with
    | fixed text =>
      rw [Part.pattern, runs_literal, readings]
      cases Text.after? text s with
      | none => rfl
      | some rest => simp [ih]
    | slot p =>
      rw [Part.pattern, runs_value, readings, List.flatMap_map]
      refine List.flatMap_congr ?_
      intro n _
      rw [ih]
      rfl

theorem matchFront?_ofParts (parts : List Part) (s : Text) :
    (ofParts parts).matchFront? s = readFront parts s := by
  rw [matchFront?, runs_ofParts, readFront_eq_head]

theorem matchWhole?_ofParts (parts : List Part) (s : Text) :
    (ofParts parts).matchWhole? s = readWhole parts s := by
  rw [matchWhole?, runs_ofParts, readWhole, preferred_eq_find]

/-! ## Markers -/

theorem matchFront?_identifier (s : Text) :
    identifier.matchFront? s = (readIdentifier s).map fun (_, rest) => ⟨[], rest⟩ := by
  rcases s with _ | ⟨c, r⟩
  · rfl
  by_cases h : c.isLower = true
  · have hdrop : r.drop (r.takeWhile isWordChar).length = r.dropWhile isWordChar := by
      calc
        r.drop (r.takeWhile isWordChar).length
          = (r.takeWhile isWordChar ++ r.dropWhile isWordChar).drop
              (r.takeWhile isWordChar).length := by rw [List.takeWhile_append_dropWhile]
        _ = r.dropWhile isWordChar := List.drop_left
    simp [matchFront?, runs_identifier_cons h, countdown_succ, taking, readIdentifier, h, hdrop]
  · have h : c.isLower = false := by simpa using h
    simp [matchFront?, runs_identifier_of_not h, readIdentifier, h]

theorem runs_marker_colons (r : Text) :
    marker.runs (':' :: ':' :: r) = (group identifier).runs r := by
  have hcolon : ∀ t, (char ':').runs (':' :: t) = [⟨[], t⟩] :=
    fun t => runs_one_cons (by decide)
  rw [marker, runs_seq_of_single (hcolon _), append_empty, List.map_id,
    runs_seq_of_single (hcolon _), append_empty, List.map_id]

theorem runs_marker_of_not (h : ∀ r, s ≠ ':' :: ':' :: r) : marker.runs s = [] := by
  have hcolon : ∀ t, (char ':').runs t = [] ∨ ∃ r, t = ':' :: r := by
    intro t
    rcases t with _ | ⟨c, r⟩
    · exact .inl rfl
    · by_cases hc : c = ':'
      · exact .inr ⟨r, by rw [hc]⟩
      · exact .inl (by simp [char, runs, Symbol.matches, hc])
  rcases hcolon s with hnone | ⟨r, rfl⟩
  · exact runs_seq_of_nil hnone
  · rcases hcolon r with hnone | ⟨r, rfl⟩
    · have hfirst : (char ':').runs (':' :: r) = [⟨[], r⟩] := runs_one_cons (by decide)
      rw [marker, runs_seq_of_single hfirst, runs_seq_of_nil hnone]
      rfl
    · exact absurd rfl (h r)

theorem matchFront?_marker (s : Text) :
    marker.matchFront? s = (readMarker s).map fun (id, rest) => ⟨[id], rest⟩ := by
  unfold readMarker
  split
  · rename_i r
    rw [matchFront?, runs_marker_colons, ← matchFront?, matchFront?_group, matchFront?_identifier]
    cases hread : readIdentifier r with
    | none => rfl
    | some p =>
      obtain ⟨id, rest⟩ := p
      simp [Reading.cons, readIdentifier_append hread, Text.consumed_append]
  · rename_i h
    rw [matchFront?, runs_marker_of_not (fun r hr => h r hr)]
    rfl

theorem findAll_marker (s : Text) :
    marker.findAll s = (markerIds (segments s)).map fun id => (Segment.marker id).text := by
  fun_induction segments s with
  | case1 => simp [findAll, markerIds]
  | case2 c r id rest h ih =>
    have hfront : marker.matchFront? (c :: r) = some ⟨[id], rest⟩ := by rw [matchFront?_marker, h]; rfl
    obtain ⟨_, _, hs⟩ := readMarker_eq_some_iff.1 h
    have hconsumed : Text.consumed (c :: r) rest = (Segment.marker id).text := by
      rw [hs, ← List.cons_append, ← List.cons_append, Text.consumed_append]
      rfl
    rw [findAll_of_some hfront (readMarker_length_lt h), ih, markerIds_marker, List.map_cons,
      hconsumed]
  | case3 c r h ih =>
    have hfront : marker.matchFront? (c :: r) = none := by rw [matchFront?_marker, h]; rfl
    rw [findAll_of_none hfront, ih, markerIds_consLiteral]

end Pattern
end FactForm
