import FactForm.Proofs.Entity.Decoding

/-!
# FactForm.Proofs.Entity.Readability

What a codec makes of a dictionary, whether or not its templates are separated. A dictionary becomes an
entity exactly if its names are the ids of the slots and both texts that it fills are read back; each
other one gets the first of four errors that applies.

* `Template.IsFirstUndeclared`, `Template.IsFirstMissing` — the name and the id that errors give.
* `Codec.Verdict` — the entity of a dictionary, or its error, told without running the codec.
* `fillParts_eq_error_iff_isFirstMissing` — filling fails at the first missing id.
* `Codec.exists_verdict`, `Codec.fromValues_of_verdict` — there is a verdict, and the codec gives it.
* `Codec.fromValues_verdict` — so it makes the entities that can be read, and no others.
-/

namespace FactForm

namespace Template

/-- The smallest name that is not an id of the template. -/
structure IsFirstUndeclared (t : Template) (m : Dictionary Text) (id : Text) : Prop where
  named : id ∈ m.keys
  undeclared : id ∉ t.ids
  smallest : ∀ k ∈ m.keys, k ∉ t.ids → k = id ∨ Text.before id k = true

/-- From the left, the first id of the template that has no value. -/
def IsFirstMissing (t : Template) (m : Dictionary Text) (id : Text) : Prop :=
  ∃ front rest, t.ids = front ++ id :: rest ∧ (∀ k ∈ front, k ∈ m.keys) ∧ id ∉ m.keys

end Template

/-- What becomes of a dictionary: an entity with both its texts, or one of four errors. -/
inductive Codec.Verdict (c : Codec) (m : Dictionary Text) : Except RepresentationError Entity → Prop
  | undeclared {id : Text} (first : c.display.IsFirstUndeclared m id) :
      c.Verdict m (.error (.unexpectedValue id c.display.shape))
  | missing {id : Text} (declared : ∀ k ∈ m.keys, k ∈ c.display.ids)
      (first : c.display.IsFirstMissing m id) :
      c.Verdict m (.error (.missingValue id m c.display.shape))
  | displayUnread {s : Text} (keys : ∀ id, id ∈ m.keys ↔ id ∈ c.display.ids)
      (display : c.display.render m = .ok s) (unread : c.display.valuesOf s ≠ .ok m) :
      c.Verdict m (.error (.unmatched s c.display.shape))
  | atomUnread {s u : Text} (keys : ∀ id, id ∈ m.keys ↔ id ∈ c.display.ids)
      (display : c.display.render m = .ok s) (read : c.display.valuesOf s = .ok m)
      (atom : c.atom.render m = .ok u) (unread : c.atom.valuesOf u ≠ .ok m) :
      c.Verdict m (.error (.unmatched u c.atom.shape))
  | entity {s u : Text} (keys : ∀ id, id ∈ m.keys ↔ id ∈ c.display.ids)
      (display : c.display.render m = .ok s) (displayRead : c.display.valuesOf s = .ok m)
      (atom : c.atom.render m = .ok u) (atomRead : c.atom.valuesOf u = .ok m) :
      c.Verdict m (.ok ⟨m, s, u⟩)

variable {c : Codec} {t : Template} {m : Dictionary Text} {parts : List Part} {e : Entity}
  {id s u : Text}

/-! ## Filling -/

theorem fillParts_eq_error_iff :
    fillParts m parts = .error id ↔
      ((parts.filterMap Part.placeholder?).map (·.id)).find? (fun k => (m.get? k).isNone) =
        some id := by
  induction parts with
  | nil => simp [fillParts]
  | cons part parts ih =>
    cases part with
    | fixed text =>
      rw [filterMap_fixed, ← ih, fillParts]
      cases fillParts m parts <;> simp
    | slot p =>
      rw [filterMap_slot, List.map_cons, List.find?_cons, fillParts]
      cases hget : m.get? p.id with
      | none => simp
      | some v =>
        simp only [Option.isNone_some, ← ih]
        cases fillParts m parts <;> simp

namespace Template

theorem fillParts_eq_error_iff_isFirstMissing :
    fillParts m t.parts = .error id ↔ t.IsFirstMissing m id := by
  rw [fillParts_eq_error_iff, List.find?_eq_some_iff_append, Option.isNone_iff_eq_none,
    Dictionary.get?_eq_none_iff]
  simp only [Option.not_isNone, Option.isSome_iff_exists, ← Dictionary.mem_keys_iff]
  constructor
  · rintro ⟨hid, front, rest, hsplit, hfront⟩
    exact ⟨front, rest, hsplit, hfront, hid⟩
  · rintro ⟨front, rest, hsplit, hfront, hid⟩
    exact ⟨hid, front, rest, hsplit, hfront⟩

theorem render_of_isFirstMissing (h : t.IsFirstMissing m id) :
    t.render m = .error (.missingValue id m t.shape) := by
  rw [render, fillParts_eq_error_iff_isFirstMissing.2 h]

theorem isFirstMissing_or_render (t : Template) (m : Dictionary Text) :
    (∃ id, t.IsFirstMissing m id) ∨ (∀ id ∈ t.ids, id ∈ m.keys) ∧ ∃ s, t.render m = .ok s := by
  cases hfill : fillParts m t.parts with
  | error id => exact .inl ⟨id, fillParts_eq_error_iff_isFirstMissing.1 hfill⟩
  | ok s =>
    refine .inr ⟨?_, s, by rw [render, hfill]⟩
    have hnone : t.ids.find? (fun k => (m.get? k).isNone) = none := by
      rw [Option.eq_none_iff_forall_ne_some]
      intro id hid
      have herror : fillParts m t.parts = .error id := fillParts_eq_error_iff.2 hid
      rw [hfill] at herror
      cases herror
    intro id hid
    have hget := List.find?_eq_none.1 hnone id hid
    rw [Option.isNone_iff_eq_none, Dictionary.get?_eq_none_iff, Decidable.not_not] at hget
    exact hget

theorem exists_render (h : ∀ id ∈ t.ids, id ∈ m.keys) : ∃ s, t.render m = .ok s := by
  rcases t.isFirstMissing_or_render m with ⟨id, front, rest, hids, _, hid⟩ | ⟨_, hs⟩
  · exact absurd (h id (by simp [hids])) hid
  · exact hs

/-- The names of a dictionary ascend, so the first that is undeclared is the smallest. -/
theorem find?_keys_eq_some_iff :
    (m.keys.find? fun k => !t.ids.contains k) = some id ↔ t.IsFirstUndeclared m id := by
  have hkeys : m.keys.Pairwise fun j k => Text.before j k = true := List.pairwise_map.2 m.ascending
  have hfirst {i : Text} (h : (m.keys.find? fun k => !t.ids.contains k) = some i) :
      t.IsFirstUndeclared m i := by
    refine ⟨List.mem_of_find?_eq_some h, by simpa using List.find?_some h, fun k hk hkt => ?_⟩
    exact eq_or_of_find? hkeys h hk (by simpa using hkt)
  refine ⟨hfirst, fun h => ?_⟩
  have hfound : (m.keys.find? fun k => !t.ids.contains k).isSome = true :=
    List.find?_isSome.2 ⟨id, h.named, by simpa using h.undeclared⟩
  obtain ⟨i, hi⟩ := Option.isSome_iff_exists.1 hfound
  have hid : i = id := by
    rcases (hfirst hi).smallest id h.named h.undeclared with heq | hlt
    · exact heq.symm
    · rcases h.smallest i (hfirst hi).named (hfirst hi).undeclared with heq | hgt
      · exact heq
      · exact absurd (Text.strictOrder.trans hlt hgt) Text.strictOrder.not_self
  rw [hi, hid]

theorem readsBack_iff : t.readsBack s m = true ↔ t.valuesOf s = .ok m := by
  rw [readsBack]
  cases t.valuesOf s <;> simp

end Template

namespace Codec

/-! ## Verdicts -/

theorem exists_verdict (c : Codec) (m : Dictionary Text) : ∃ r, c.Verdict m r := by
  cases hfind : m.keys.find? fun k => !c.display.ids.contains k with
  | some id => exact ⟨_, .undeclared (Template.find?_keys_eq_some_iff.1 hfind)⟩
  | none =>
    have hdeclared := Template.find?_keys_eq_none_iff.1 hfind
    rcases c.display.isFirstMissing_or_render m with ⟨id, hid⟩ | ⟨hids, s, hs⟩
    · exact ⟨_, .missing hdeclared hid⟩
    · have hkeys : ∀ id, id ∈ m.keys ↔ id ∈ c.display.ids :=
        fun id => ⟨hdeclared id, hids id⟩
      -- The atom template has the same ids, so that no value is missing for it either.
      obtain ⟨u, hu⟩ := Template.exists_render fun id hid => hids id (c.mem_ids_iff.1 hid)
      by_cases hsread : c.display.valuesOf s = .ok m
      · by_cases huread : c.atom.valuesOf u = .ok m
        · exact ⟨_, .entity hkeys hs hsread hu huread⟩
        · exact ⟨_, .atomUnread hkeys hs hsread hu huread⟩
      · exact ⟨_, .displayUnread hkeys hs hsread⟩

theorem fromValues_of_ofValues_error {err : RepresentationError} (h : ∀ k ∈ m.keys, k ∈ c.display.ids)
    (he : Entity.ofValues c.display c.atom m = .error err) : c.fromValues m = .error err := by
  simp only [fromValues, Template.find?_keys_eq_none_iff.2 h, he]

theorem fromValues_of_verdict {r : Except RepresentationError Entity} (h : c.Verdict m r) :
    c.fromValues m = r := by
  cases h with
  | undeclared first => simp only [fromValues, Template.find?_keys_eq_some_iff.2 first]
  | missing declared first =>
    refine fromValues_of_ofValues_error declared ?_
    rw [Entity.ofValues, Template.render_of_isFirstMissing first]
  | @displayUnread s keys display unread =>
    obtain ⟨u, hu⟩ : ∃ u, c.atom.render m = .ok u :=
      Template.exists_render fun id hid => (keys id).2 (c.mem_ids_iff.1 hid)
    have he : Entity.ofValues c.display c.atom m = .ok ⟨m, s, u⟩ :=
      Entity.ofValues_eq_ok_iff.2 ⟨rfl, display, hu⟩
    have hback : c.display.readsBack s m = false := by
      rwa [← Bool.not_eq_true, Template.readsBack_iff]
    rw [fromValues_of_ofValues_ok (fun k => (keys k).1) he, hback]
    rfl
  | @atomUnread s u keys display read atom unread =>
    have he : Entity.ofValues c.display c.atom m = .ok ⟨m, s, u⟩ :=
      Entity.ofValues_eq_ok_iff.2 ⟨rfl, display, atom⟩
    have hback : c.atom.readsBack u m = false := by
      rwa [← Bool.not_eq_true, Template.readsBack_iff]
    rw [fromValues_of_ofValues_ok (fun k => (keys k).1) he, readsBack_of_valuesOf read, hback]
    rfl
  | entity keys display displayRead atom atomRead =>
    have hm : c.display.IsAssignment m := Template.isAssignment_of_valuesOf displayRead
    exact fromValues_of_readsBack hm (Entity.ofValues_eq_ok_iff.2 ⟨rfl, display, atom⟩) displayRead
      atomRead

theorem fromValues_eq_iff {r : Except RepresentationError Entity} :
    c.fromValues m = r ↔ c.Verdict m r := by
  refine ⟨?_, fromValues_of_verdict⟩
  rintro rfl
  obtain ⟨r, hr⟩ := c.exists_verdict m
  rwa [fromValues_of_verdict hr]

/-- A dictionary becomes an entity exactly if its names are the ids of the slots and both texts that it
fills are read back; the entity has its values and is made from either of its texts. Otherwise the error
is that of the verdict. -/
theorem fromValues_verdict (c : Codec) (m : Dictionary Text) :
    (∀ r, c.fromValues m = r ↔ c.Verdict m r) ∧
    ((∃ e, c.fromValues m = .ok e) ↔
      (∀ id, id ∈ m.keys ↔ id ∈ c.display.ids) ∧
        (∃ s, c.display.render m = .ok s ∧ c.display.valuesOf s = .ok m) ∧
        ∃ u, c.atom.render m = .ok u ∧ c.atom.valuesOf u = .ok m) ∧
    ∀ e, c.fromValues m = .ok e →
      e.values = m ∧ c.fromDisplayText e.display = .ok e ∧ c.fromAtomText e.atom = .ok e := by
  refine ⟨fun r => fromValues_eq_iff, ⟨?_, ?_⟩, ?_⟩
  · rintro ⟨e, he⟩
    cases fromValues_eq_iff.1 he with
    | entity keys display displayRead atom atomRead =>
      exact ⟨keys, ⟨_, display, displayRead⟩, _, atom, atomRead⟩
  · rintro ⟨hkeys, ⟨s, hs, hsread⟩, u, hu, huread⟩
    exact ⟨⟨m, s, u⟩, fromValues_of_verdict (.entity hkeys hs hsread hu huread)⟩
  · intro e he
    cases fromValues_eq_iff.1 he with
    | entity keys display displayRead atom atomRead =>
      exact ⟨rfl, fromDisplayText_eq_ok_iff.2 ⟨displayRead, rfl, atom⟩,
        fromAtomText_eq_ok_iff.2 ⟨atomRead, rfl, display⟩⟩

/-- Values for `adjacent` whose display text `x21` is read back as `x2` and `1`. -/
def mixedValues : Dictionary Text := .ofList [(['a'], ['x']), (['b'], "21".toList)]

theorem adjacent_verdict :
    adjacent.fromValues mixedValues = .error (.unmatched "x21".toList "ab".toList) ∧
    adjacent.fromValues adjacentValues =
      .ok ⟨adjacentValues, "x21".toList, "p(1,x2,1)".toList⟩ ∧
    adjacent.fromDisplayText "x21".toList =
      .ok ⟨adjacentValues, "x21".toList, "p(1,x2,1)".toList⟩ := by
  have hkeys (m : Dictionary Text) (h : m.keys = [['a'], ['b']]) (id : Text) :
      id ∈ m.keys ↔ id ∈ adjacent.display.ids := by
    rw [h]
    rfl
  have hunread : adjacent.display.valuesOf "x21".toList ≠ .ok mixedValues := by
    have hread : adjacent.display.valuesOf "x21".toList = .ok adjacentValues := rfl
    have hne : adjacentValues ≠ mixedValues := by decide
    rw [hread]
    exact fun h => hne (Except.ok.inj h)
  obtain ⟨hmixed, _⟩ := fromValues_verdict adjacent mixedValues
  obtain ⟨hread, _, hback⟩ := fromValues_verdict adjacent adjacentValues
  have hentity : adjacent.fromValues adjacentValues =
      .ok ⟨adjacentValues, "x21".toList, "p(1,x2,1)".toList⟩ :=
    (hread _).2 (.entity (hkeys _ rfl) rfl rfl rfl rfl)
  exact ⟨(hmixed _).2 (.displayUnread (hkeys _ rfl) rfl hunread), hentity, (hback _ hentity).2.1⟩

end Codec

end FactForm
