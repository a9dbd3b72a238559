import FactForm.Proofs.Value.Boundary
import FactForm.Template
import Mathlib.Data.List.Chain

/-!
# FactForm.Proofs.Template.Segments

Template texts cut at their markers. The cut loses nothing, and it is the only one of its shape: a
marker cannot begin inside a literal and end outside it, because what follows a literal begins with a
colon and an identifier begins with a letter.

* `Segment.text` — a segment as text.
* `HasMarker` — the marker of an identifier stands in a text.
* `IsCanonical` — the shape of the segments of a text.
* `flatMap_text_segments`, `isCanonical_segments` — the segments of a text write it and have that shape.
* `segments_flatMap_text` — segments of that shape are the segments of what they write.
* `marker_mem_segments_iff` — the markers found are those that stand in the text.
-/

namespace FactForm

namespace Segment

def text : Segment → Text
  | .literal text => text
  | .marker id => ':' :: ':' :: id

/-- Which segments may stand side by side: no two literals, and no literal that would continue the
identifier of a marker. -/
def MayPrecede : Segment → Segment → Prop
  | .literal _, .literal _ => False
  | .marker _, .literal text => isBoundary text = true
  | _, .marker _ => True

end Segment

/-- The marker of an identifier, up to its end, stands somewhere in the text. -/
def HasMarker (id s : Text) : Prop :=
  isIdentifier id = true ∧
    ∃ lead rest, s = lead ++ ':' :: ':' :: (id ++ rest) ∧ isBoundary rest = true

/-- No literal is empty or has a marker in it, no two stand side by side, and none would continue the
identifier in front of it. -/
structure IsCanonical (segs : List Segment) : Prop where
  nonempty : ∀ text, .literal text ∈ segs → text ≠ []
  unmarked : ∀ text, .literal text ∈ segs → ∀ id, ¬ HasMarker id text
  identifiers : ∀ id, .marker id ∈ segs → isIdentifier id = true
  adjacent : segs.IsChain Segment.MayPrecede

/-! ## Markers -/

theorem readMarker_eq_some_iff {s id rest : Text} :
    readMarker s = some (id, rest) ↔
      isIdentifier id = true ∧ isBoundary rest = true ∧ s = ':' :: ':' :: (id ++ rest) := by
  constructor
  · intro h
    unfold readMarker at h
    split at h
    · obtain ⟨hid, hrest, hr⟩ := readIdentifier_eq_some_iff.1 h
      exact ⟨hid, hrest, by rw [hr]⟩
    · cases h
  · rintro ⟨hid, hrest, rfl⟩
    exact readIdentifier_eq_some_iff.2 ⟨hid, hrest, rfl⟩

theorem readMarker_ne_none_iff {s : Text} :
    readMarker s ≠ none ↔ ∃ c r, s = ':' :: ':' :: c :: r ∧ c.isLower = true := by
  constructor
  · intro h
    obtain ⟨⟨id, rest⟩, hs⟩ := Option.ne_none_iff_exists'.1 h
    obtain ⟨hid, _, rfl⟩ := readMarker_eq_some_iff.1 hs
    cases id with
    | nil => cases hid
    | cons c r => exact ⟨c, r ++ rest, rfl, (isIdentifier_cons.1 hid).1⟩
  · rintro ⟨c, r, rfl, hc⟩
    simp [readMarker, readIdentifier, hc]

theorem hasMarker_cons_iff {c : Char} {id s : Text} :
    HasMarker id (c :: s) ↔ (∃ rest, readMarker (c :: s) = some (id, rest)) ∨ HasMarker id s := by
  constructor
  · rintro ⟨hid, lead, rest, hs, hrest⟩
    cases lead with
    | nil => exact .inl ⟨rest, readMarker_eq_some_iff.2 ⟨hid, hrest, hs⟩⟩
    | cons x lead => exact .inr ⟨hid, lead, rest, (List.cons.inj hs).2, hrest⟩
  · rintro (⟨rest, h⟩ | ⟨hid, lead, rest, hs, hrest⟩)
    · obtain ⟨hid, hrest, hs⟩ := readMarker_eq_some_iff.1 h
      exact ⟨hid, [], rest, hs, hrest⟩
    · exact ⟨hid, c :: lead, rest, by rw [hs]; rfl, hrest⟩

theorem not_hasMarker_nil (id : Text) : ¬ HasMarker id [] := by
  rintro ⟨_, lead, rest, hs, _⟩
  cases lead <;> cases hs

/-- A literal that grows at its front stays without markers as long as the text has none there. -/
theorem not_hasMarker_cons {c : Char} {text rest : Text} (hnone : readMarker (c :: text ++ rest) = none)
    (htext : ∀ id, ¬ HasMarker id text) (id : Text) : ¬ HasMarker id (c :: text) := by
  rw [hasMarker_cons_iff]
  rintro (⟨u, hu⟩ | h)
  · have hsome : readMarker (c :: text) ≠ none := by
      rw [hu]
      exact Option.some_ne_none _
    obtain ⟨d, r, hs, hd⟩ := readMarker_ne_none_iff.1 hsome
    exact readMarker_ne_none_iff.2 ⟨d, r ++ rest, by rw [hs]; rfl, hd⟩ hnone
  · exact htext id h

theorem readMarker_literal {c : Char} {text rest : Text} (htext : ∀ id, ¬ HasMarker id (c :: text))
    (hrest : rest = [] ∨ ∃ r, rest = ':' :: ':' :: r) : readMarker (c :: text ++ rest) = none := by
  by_contra h
  obtain ⟨d, r, hs, hd⟩ := readMarker_ne_none_iff.1 h
  have hcolon : d ≠ ':' := by
    rintro rfl
    exact absurd hd (by decide)
  cases text with
  | nil =>
    rcases hrest with rfl | ⟨u, rfl⟩
    · cases hs
    · cases hs
      exact hcolon rfl
  | cons e text =>
    cases text with
    | nil =>
      rcases hrest with rfl | ⟨u, rfl⟩
      · cases hs
      · cases hs
        exact hcolon rfl
    | cons f text =>
      -- the three characters that begin a marker all stand in the literal
      have hsome : readMarker (c :: e :: f :: text) ≠ none := by
        cases hs
        exact readMarker_ne_none_iff.2 ⟨_, _, rfl, hd⟩
      obtain ⟨⟨id, u⟩, hu⟩ := Option.ne_none_iff_exists'.1 hsome
      exact htext id (hasMarker_cons_iff.2 (.inl ⟨u, hu⟩))

/-! ## The segments of a text -/

theorem segments_nil : segments [] = [] := by rw [segments]

theorem segments_of_readMarker {s id rest : Text} (h : readMarker s = some (id, rest)) :
    segments s = .marker id :: segments rest := by
  cases s with
  | nil => cases h
  | cons c r =>
    rw [segments]
    split
    · rename_i h'
      rw [h] at h'
      cases h'
      rfl
    · rename_i h'
      rw [h] at h'
      cases h'

theorem segments_of_not_readMarker {c : Char} {r : Text} (h : readMarker (c :: r) = none) :
    segments (c :: r) = consLiteral c (segments r) := by
  rw [segments]
  split
  · rename_i h'
    rw [h] at h'
    cases h'
  · rfl

theorem flatMap_text_consLiteral (c : Char) (segs : List Segment) :
    (consLiteral c segs).flatMap Segment.text = c :: segs.flatMap Segment.text := by
  unfold consLiteral
  split <;> rfl

theorem flatMap_text_segments (s : Text) : (segments s).flatMap Segment.text = s := by
  fun_induction segments s with
  | case1 => rfl
  | case2 c r id rest h ih =>
    obtain ⟨_, _, hs⟩ := readMarker_eq_some_iff.1 h
    rw [List.flatMap_cons, ih, hs]
    rfl
  | case3 c r h ih => rw [flatMap_text_consLiteral, ih]

/-! ## The shape of segments -/

theorem isCanonical_nil : IsCanonical [] := ⟨by simp, by simp, by simp, .nil⟩

theorem mayPrecede_marker_iff {id : Text} {segs : List Segment} (hne : ∀ t, .literal t ∈ segs → t ≠ []) :
    (∀ seg ∈ segs.head?, Segment.MayPrecede (.marker id) seg) ↔
      isBoundary (segs.flatMap Segment.text) = true := by
  cases segs with
  | nil => simp [isBoundary]
  | cons seg segs =>
    cases seg with
    | literal t =>
      have ht : t ≠ [] := hne t List.mem_cons_self
      simp [Segment.MayPrecede, Segment.text, isBoundary_append ht]
    | marker i =>
      have hcolon : isBoundary (':' :: ':' :: (i ++ segs.flatMap Segment.text)) = true := by
        rw [isBoundary_cons]
        decide
      simpa [Segment.MayPrecede, Segment.text] using hcolon

theorem mayPrecede_literal_iff {text : Text} {segs : List Segment} :
    (∀ seg ∈ segs.head?, Segment.MayPrecede (.literal text) seg) ↔
      ∀ t rest, segs ≠ .literal t :: rest := by
  cases segs with
  | nil => simp
  | cons seg segs => cases seg <;> simp [Segment.MayPrecede]

theorem isCanonical_marker_cons {id : Text} {segs : List Segment} :
    IsCanonical (.marker id :: segs) ↔
      isIdentifier id = true ∧ isBoundary (segs.flatMap Segment.text) = true ∧
        IsCanonical segs := by
  constructor
  · rintro ⟨hne, hun, hid, hadj⟩
    obtain ⟨hhead, hchain⟩ := List.isChain_cons.1 hadj
    have hne' : ∀ t, .literal t ∈ segs → t ≠ [] := fun t ht => hne t (List.mem_cons_of_mem _ ht)
    exact ⟨hid id List.mem_cons_self, (mayPrecede_marker_iff hne').1 hhead, hne',
      fun t ht => hun t (List.mem_cons_of_mem _ ht), fun i hi => hid i (List.mem_cons_of_mem _ hi), hchain⟩
  · rintro ⟨hid, hb, hsegs⟩
    exact
      { nonempty := fun t ht => hsegs.nonempty t (by simpa using ht)
        unmarked := fun t ht => hsegs.unmarked t (by simpa using ht)
        identifiers := by simpa [hid] using hsegs.identifiers
        adjacent := List.isChain_cons.2 ⟨(mayPrecede_marker_iff hsegs.nonempty).2 hb, hsegs.adjacent⟩ }

theorem isCanonical_literal_cons {text : Text} {segs : List Segment} :
    IsCanonical (.literal text :: segs) ↔
      text ≠ [] ∧ (∀ id, ¬ HasMarker id text) ∧ (∀ t rest, segs ≠ .literal t :: rest) ∧
        IsCanonical segs := by
  constructor
  · rintro ⟨hne, hun, hid, hadj⟩
    obtain ⟨hhead, hchain⟩ := List.isChain_cons.1 hadj
    exact ⟨hne text List.mem_cons_self, hun text List.mem_cons_self, mayPrecede_literal_iff.1 hhead,
      fun t ht => hne t (List.mem_cons_of_mem _ ht), fun t ht => hun t (List.mem_cons_of_mem _ ht),
      fun i hi => hid i (List.mem_cons_of_mem _ hi), hchain⟩
  · rintro ⟨hne, hun, hnext, hsegs⟩
    exact
      { nonempty := by
          intro t ht
          rcases List.mem_cons.1 ht with h | h
          · cases h
            exact hne
          · exact hsegs.nonempty t h
        unmarked := by
          intro t ht
          rcases List.mem_cons.1 ht with h | h
          · cases h
            exact hun
          · exact hsegs.unmarked t h
        identifiers := fun i hi => hsegs.identifiers i (by simpa using hi)
        adjacent := List.isChain_cons.2 ⟨mayPrecede_literal_iff.2 hnext, hsegs.adjacent⟩ }

theorem isCanonical_consLiteral {c : Char} {segs : List Segment} (h : IsCanonical segs)
    (hnone : readMarker (c :: segs.flatMap Segment.text) = none) :
    IsCanonical (consLiteral c segs) := by
  unfold consLiteral
  split
  · rename_i text rest
    obtain ⟨_, hunmarked, hnext, hrest⟩ := isCanonical_literal_cons.1 h
    exact isCanonical_literal_cons.2
      ⟨List.cons_ne_nil _ _, not_hasMarker_cons hnone hunmarked, hnext, hrest⟩
  · rename_i hnot
    have hone : ∀ id, ¬ HasMarker id [c] := not_hasMarker_cons hnone not_hasMarker_nil
    exact isCanonical_literal_cons.2 ⟨List.cons_ne_nil _ _, hone, hnot, h⟩

theorem isCanonical_segments (s : Text) : IsCanonical (segments s) := by
  fun_induction segments s with
  | case1 => exact isCanonical_nil
  | case2 c r id rest h ih =>
    obtain ⟨hid, hrest, _⟩ := readMarker_eq_some_iff.1 h
    refine isCanonical_marker_cons.2 ⟨hid, ?_, ih⟩
    rwa [flatMap_text_segments]
  | case3 c r h ih =>
    refine isCanonical_consLiteral ih ?_
    rwa [flatMap_text_segments]

theorem consLiteral_of_not_literal {segs : List Segment} (h : ∀ t rest, segs ≠ .literal t :: rest)
    (c : Char) : consLiteral c segs = .literal [c] :: segs := by
  unfold consLiteral
  split
  · rename_i t rest
    exact absurd rfl (h t rest)
  · rfl

theorem flatMap_text_of_not_literal {segs : List Segment} (h : ∀ t rest, segs ≠ .literal t :: rest) :
    segs.flatMap Segment.text = [] ∨ ∃ r, segs.flatMap Segment.text = ':' :: ':' :: r := by
  cases segs with
  | nil => exact .inl rfl
  | cons seg segs =>
    cases seg with
    | literal t => exact absurd rfl (h t segs)
    | marker id => exact .inr ⟨id ++ segs.flatMap Segment.text, rfl⟩

theorem segments_literal {text : Text} {segs : List Segment} (hne : text ≠ [])
    (hunmarked : ∀ id, ¬ HasMarker id text) (hnext : ∀ t rest, segs ≠ .literal t :: rest)
    (hsegs : segments (segs.flatMap Segment.text) = segs) :
    segments (text ++ segs.flatMap Segment.text) = .literal text :: segs := by
  induction text with
  | nil => exact absurd rfl hne
  | cons c text ih =>
    have hnone : readMarker (c :: text ++ segs.flatMap Segment.text) = none :=
      readMarker_literal hunmarked (flatMap_text_of_not_literal hnext)
    rw [List.cons_append] at hnone ⊢
    rw [segments_of_not_readMarker hnone]
    cases text with
    | nil => rw [List.nil_append, hsegs, consLiteral_of_not_literal hnext]
    | cons d text =>
      have htail : ∀ id, ¬ HasMarker id (d :: text) :=
        fun id hid => hunmarked id (hasMarker_cons_iff.2 (.inr hid))
      rw [ih (List.cons_ne_nil _ _) htail, consLiteral]

theorem segments_flatMap_text {segs : List Segment} (h : IsCanonical segs) :
    segments (segs.flatMap Segment.text) = segs := by
  induction segs with
  | nil => exact segments_nil
  | cons seg segs ih =>
    cases seg with
    | literal text =>
      obtain ⟨hne, hunmarked, hnext, hsegs⟩ := isCanonical_literal_cons.1 h
      exact segments_literal hne hunmarked hnext (ih hsegs)
    | marker id =>
      obtain ⟨hid, hb, hsegs⟩ := isCanonical_marker_cons.1 h
      have hread : readMarker ((Segment.marker id :: segs).flatMap Segment.text) =
          some (id, segs.flatMap Segment.text) := readMarker_eq_some_iff.2 ⟨hid, hb, rfl⟩
      rw [segments_of_readMarker hread, ih hsegs]

/-! ## The markers of a text -/

theorem readMarker_of_ne {c : Char} (h : c ≠ ':') (s : Text) : readMarker (c :: s) = none := by
  by_contra hsome
  obtain ⟨_, _, hs, _⟩ := readMarker_ne_none_iff.1 hsome
  exact h (List.cons.inj hs).1

theorem hasMarker_append_iff {w rest : Text} (hw : ∀ c ∈ w, c ≠ ':') (id : Text) :
    HasMarker id (w ++ rest) ↔ HasMarker id rest := by
  induction w with
  | nil => rfl
  | cons c w ih =>
    have hc : c ≠ ':' := hw c List.mem_cons_self
    rw [List.cons_append, hasMarker_cons_iff, readMarker_of_ne hc,
      ih fun d hd => hw d (List.mem_cons_of_mem _ hd)]
    simp

theorem isIdentifier_ne_colon {id : Text} (h : isIdentifier id = true) : ∀ c ∈ id, c ≠ ':' := by
  intro c hc hcolon
  have hword : isWordChar c = true := List.all_eq_true.1 (isIdentifier_all_isWordChar h) c hc
  rw [hcolon] at hword
  exact absurd hword (by decide)

theorem readMarker_colon {id : Text} (hid : isIdentifier id = true) (rest : Text) :
    readMarker (':' :: (id ++ rest)) = none := by
  cases id with
  | nil => cases hid
  | cons c r =>
    by_contra hsome
    obtain ⟨_, _, hs, _⟩ := readMarker_ne_none_iff.1 hsome
    exact isIdentifier_ne_colon hid c List.mem_cons_self (List.cons.inj (List.cons.inj hs).2).1

theorem hasMarker_of_readMarker {s id rest : Text} (h : readMarker s = some (id, rest)) (i : Text) :
    HasMarker i s ↔ i = id ∨ HasMarker i rest := by
  obtain ⟨hid, hrest, rfl⟩ := readMarker_eq_some_iff.1 h
  rw [hasMarker_cons_iff, hasMarker_cons_iff, readMarker_colon hid,
    hasMarker_append_iff (isIdentifier_ne_colon hid), h]
  simp [eq_comm]

theorem marker_mem_consLiteral {c : Char} {id : Text} {segs : List Segment} :
    .marker id ∈ consLiteral c segs ↔ .marker id ∈ segs := by
  unfold consLiteral
  split <;> simp

theorem marker_mem_segments_iff {id s : Text} : .marker id ∈ segments s ↔ HasMarker id s := by
  fun_induction segments s with
  | case1 => simp [not_hasMarker_nil]
  | case2 c r i rest h ih => rw [hasMarker_of_readMarker h, ← ih, List.mem_cons, Segment.marker.injEq]
  | case3 c r h ih =>
    rw [marker_mem_consLiteral, ih, hasMarker_cons_iff, h]
    simp

end FactForm
