import FactForm.Proofs.Exchange.Calls

/-!
# FactForm.Proofs.Exchange.Import

What is left of a set of atoms when a list or a slot is rebuilt from it. An entity keeps the text of the
atom that it was made from, so what a member supplies afterwards is part of the set, and rebuilding it
from that part changes nothing.

* `Codec.fits` — an atom makes an entity.
* `atomsOf_entitiesOf` — the entities of a set supply the atoms of the set that fit, in their order.
* `ValueSlot.smallest_spec` — the entity of a slot comes before all others in display, and is the first
  of those that share its display.
* `ValueSlot.receive_cases` — the entity of a slot in terms of atoms.
* `receive_exact` — lists and slots after they have received a set.
-/

namespace FactForm

def Codec.fits (c : Codec) (a : Atom) : Bool := (c.fromAtom a).isOk

theorem AtomSet.toList_ofList {l : List Atom} (h : l.Pairwise (Atom.before · ·)) :
    (ofList l).toList = l :=
  eq_of_ascending (ofList l).ascending h fun _ => mem_ofList

/-! ## The atoms of imported entities -/

section Atoms

variable {c : Codec} {a : Atom} {e : Entity}

theorem Codec.fits_of_ok (h : c.fromAtom a = .ok e) : c.fits a = true := by
  rw [fits, h]
  rfl

theorem Codec.exists_of_fits (h : c.fits a = true) : ∃ e, c.fromAtom a = .ok e := by
  rw [fits] at h
  cases he : c.fromAtom a with
  | error err =>
    rw [he] at h
    cases h
  | ok e => exact ⟨e, rfl⟩

theorem Codec.parse_atom_of_fromAtom (h : c.fromAtom a = .ok e) : Atom.parse e.atom = .ok a := by
  rw [atom_of_fromAtomText h, Atom.parse_text]

theorem atomsOf_cons {es : List Entity} (h : Atom.parse e.atom = .ok a) :
    atomsOf (e :: es) = a :: atomsOf es := by
  simp only [atomsOf, List.map_cons, parseAll, h]

theorem atomsOf_filterMap (c : Codec) (l : List Atom) :
    atomsOf (l.filterMap fun a => (c.fromAtom a).toOption) = l.filter c.fits := by
  induction l with
  | nil => rfl
  | cons a l ih =>
    cases h : c.fromAtom a with
    | ok e =>
      rw [List.filterMap_cons_some (by rw [h]; rfl),
        atomsOf_cons (Codec.parse_atom_of_fromAtom h), ih,
        List.filter_cons_of_pos (Codec.fits_of_ok h)]
    | error err =>
      have hfits : ¬ c.fits a = true := by
        rw [Codec.fits, h]
        exact Bool.false_ne_true
      rw [List.filterMap_cons_none (by rw [h]; rfl), ih, List.filter_cons_of_neg hfits]

theorem atomsOf_entitiesOf (c : Codec) (atoms : AtomSet) :
    atomsOf (entitiesOf c atoms) = atoms.toList.filter c.fits := atomsOf_filterMap c atoms.toList

theorem entitiesOf_fitting (c : Codec) (atoms : AtomSet) :
    entitiesOf c (.ofList (atoms.toList.filter c.fits)) = entitiesOf c atoms := by
  rw [entitiesOf, AtomSet.toList_ofList (atoms.ascending.filter _), List.filterMap_filter, entitiesOf]
  congr
  funext a
  cases h : c.fromAtom a with
  | ok e => rw [if_pos (Codec.fits_of_ok h)]
  | error err => rw [Codec.fits, h]; rfl

theorem entitiesOf_ascending (c : Codec) (atoms : AtomSet) :
    (entitiesOf c atoms).Pairwise fun d e => ∀ a b, c.fromAtom a = .ok d → c.fromAtom b = .ok e →
      a.before b = true := by
  refine atoms.ascending.filterMap _ ?_
  intro a b hab d hd e he a' b' ha' hb'
  obtain rfl := Codec.fromAtom_injective ha' (Codec.toOption_fromAtom_eq_some_iff.1 hd)
  obtain rfl := Codec.fromAtom_injective hb' (Codec.toOption_fromAtom_eq_some_iff.1 he)
  exact hab

end Atoms

/-! ## The entity of a slot -/

namespace ValueSlot

theorem smallest_eq_none {entities : List Entity} (h : smallest entities = none) :
    entities = [] := by
  cases entities with
  | nil => rfl
  | cons d entities =>
    rw [smallest] at h
    split at h
    · cases h
    · split at h <;> cases h

/-- The smallest entity comes before all that stand in front of it, and none of those behind it comes
before it. -/
theorem smallest_spec {entities : List Entity} {e : Entity} (h : smallest entities = some e) :
    ∃ front rest, entities = front ++ e :: rest ∧
      (∀ d ∈ front, Text.before e.display d.display = true) ∧
      ∀ d ∈ rest, Text.before d.display e.display = false := by
  induction entities generalizing e with
  | nil => cases h
  | cons d entities ih =>
    rw [smallest] at h
    split at h
    · rename_i hnone
      cases h
      exact ⟨[], entities, rfl, by simp, by simp [smallest_eq_none hnone]⟩
    · rename_i m hm
      obtain ⟨front, rest, rfl, hfront, hrest⟩ := ih hm
      split at h
      · rename_i hlt
        cases h
        exact ⟨d :: front, rest, rfl, List.forall_mem_cons.2 ⟨hlt, hfront⟩, hrest⟩
      · rename_i hle
        cases h
        refine ⟨[], front ++ m :: rest, rfl, by simp, ?_⟩
        intro x hx
        have hmx : Text.before x.display m.display = false := by
          rcases List.mem_append.1 hx with hx | hx
          · rw [Bool.eq_false_iff]
            intro hxm
            exact Text.strictOrder.not_self (Text.strictOrder.trans hxm (hfront x hx))
          · rcases List.mem_cons.1 hx with rfl | hx
            · exact Text.strictOrder.irrefl _
            · exact hrest x hx
        exact Text.strictOrder.trans_false (Bool.eq_false_iff.2 hle) hmx

variable {s : ValueSlot} {atoms : AtomSet}

/-- A slot takes the entity with the smallest display, from the smallest atom if several share it, and
none if no atom fits. -/
theorem receive_cases (s : ValueSlot) (atoms : AtomSet) :
    ((∀ a ∈ atoms, s.codec.fits a = false) ∧ (s.receive atoms).value = none) ∨
    ∃ a e, a ∈ atoms ∧ s.codec.fromAtom a = .ok e ∧ (s.receive atoms).value = some e ∧
      ∀ b d, b ∈ atoms → s.codec.fromAtom b = .ok d →
        Text.before d.display e.display = false ∧
        (d.display = e.display → b = a ∨ a.before b = true) := by
  cases h : smallest (entitiesOf s.codec atoms) with
  | none =>
    refine .inl ⟨?_, h⟩
    intro a ha
    rw [Bool.eq_false_iff]
    intro hfits
    obtain ⟨e, he⟩ := Codec.exists_of_fits hfits
    have hmem : e ∈ entitiesOf s.codec atoms := mem_entitiesOf.2 ⟨a, ha, he⟩
    rw [smallest_eq_none h] at hmem
    cases hmem
  | some e =>
    obtain ⟨a, ha, he⟩ := mem_entitiesOf.1 (mem_of_smallest h)
    refine .inr ⟨a, e, ha, he, h, ?_⟩
    intro b d hb hd
    obtain ⟨front, rest, hsplit, hfront, hrest⟩ := smallest_spec h
    have hmem : d ∈ front ++ e :: rest := hsplit ▸ mem_entitiesOf.2 ⟨b, hb, hd⟩
    have hascending := entitiesOf_ascending s.codec atoms
    rw [hsplit, List.pairwise_append, List.pairwise_cons] at hascending
    rcases List.mem_append.1 hmem with hd' | hd'
    · have hlt := hfront d hd'
      constructor
      · rw [Bool.eq_false_iff]
        intro hgt
        exact Text.strictOrder.not_self (Text.strictOrder.trans hlt hgt)
      · intro heq
        rw [heq] at hlt
        exact absurd hlt Text.strictOrder.not_self
    · rcases List.mem_cons.1 hd' with rfl | hd'
      · exact ⟨Text.strictOrder.irrefl _, fun _ => .inl (Codec.fromAtom_injective hd he)⟩
      · exact ⟨hrest d hd', fun _ => .inr (hascending.2.1.1 d hd' a b he hd)⟩

theorem atoms_of_value {a : Atom} {e : Entity} (he : s.codec.fromAtom a = .ok e)
    (h : s.value = some e) : s.atoms = [a] := by
  rw [atoms, h]
  exact atomsOf_cons (Codec.parse_atom_of_fromAtom he)

theorem receive_singleton {a : Atom} {e : Entity} (he : s.codec.fromAtom a = .ok e) :
    s.receive (.ofList [a]) = { s with value := some e } := by
  have hentities : entitiesOf s.codec (.ofList [a]) = [e] := by
    rw [entitiesOf, AtomSet.toList_ofList (List.pairwise_singleton _ _),
      List.filterMap_cons_some (by rw [he]; rfl), List.filterMap_nil]
  rw [receive, hentities]
  rfl

end ValueSlot

/-- A list that has received a set supplies the atoms of the set that fit, each once and in the order of
the set. A slot holds the entity with the smallest display, from the smallest atom if several share it,
and supplies this atom. Neither changes when it receives what it supplies. -/
theorem receive_exact :
    (∀ (l : EntityList) (atoms : AtomSet),
      (l.receive atoms).atoms = atoms.toList.filter l.codec.fits ∧
      (l.receive atoms).atoms.Nodup ∧
      (l.receive atoms).receive (.ofList (l.receive atoms).atoms) = l.receive atoms) ∧
    ∀ (s : ValueSlot) (atoms : AtomSet),
      ((∀ a ∈ atoms, s.codec.fits a = false) ∧ (s.receive atoms).value = none ∧
        (s.receive atoms).atoms = []) ∨
      ∃ a e, a ∈ atoms ∧ s.codec.fromAtom a = .ok e ∧ (s.receive atoms).value = some e ∧
        (∀ b d, b ∈ atoms → s.codec.fromAtom b = .ok d →
          Text.before d.display e.display = false ∧
          (d.display = e.display → b = a ∨ a.before b = true)) ∧
        (s.receive atoms).atoms = [a] ∧
        (s.receive atoms).receive (.ofList [a]) = s.receive atoms := by
  constructor
  · intro l atoms
    have hatoms : (l.receive atoms).atoms = atoms.toList.filter l.codec.fits :=
      atomsOf_entitiesOf l.codec atoms
    refine ⟨hatoms, ?_, ?_⟩
    · rw [hatoms]
      exact atoms.nodup_toList.filter _
    · rw [hatoms, EntityList.receive, EntityList.receive, entitiesOf_fitting]
  · intro s atoms
    rcases s.receive_cases atoms with ⟨hnone, hvalue⟩ | ⟨a, e, ha, he, hvalue, hleast⟩
    · refine .inl ⟨hnone, hvalue, ?_⟩
      rw [ValueSlot.atoms, hvalue]
      rfl
    · have he' : (s.receive atoms).codec.fromAtom a = .ok e := he
      refine .inr ⟨a, e, ha, he, hvalue, hleast, ValueSlot.atoms_of_value he' hvalue, ?_⟩
      rw [ValueSlot.receive_singleton he', ← hvalue]

/-- Both atoms are shown as `x21`, and the smaller one is taken. -/
example :
    ((ValueSlot.empty Codec.adjacent).receive (.ofList
      [⟨['p'], ["21".toList, ['x'], "21".toList], rfl, rfl⟩,
       ⟨['p'], [['1'], "x2".toList, ['1']], rfl, rfl⟩])).atoms.map Atom.text =
      ["p(1,x2,1)".toList] := by decide +kernel

end FactForm
