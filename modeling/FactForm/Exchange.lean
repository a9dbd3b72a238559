import FactForm.Atom.Reader
import FactForm.AtomSet
import FactForm.Entity.Codec

/-!
# FactForm.Exchange

Collections that contribute atoms to a pool and are rebuilt from one.

* `EntityList` — entities of one kind, in the order in which they were added.
* `ValueSlot`  — at most one entity of one kind.
* `Condition`  — a guard that holds when its atom is in the set last received.
* `Member`     — one of these, or a pool.
* `gather`     — the union of the atoms that members supply.
* `distribute` — members after each has received the same set.
* `Exchange.step`, `Exchange.run` — the members of an owner who makes, calls, gathers and distributes.

Each object serves its calls by `serve`, which gives the reply and the object afterwards.
-/

namespace FactForm

/-- The entities of the atoms that fit a codec, in the order of the set. -/
def entitiesOf (c : Codec) (atoms : AtomSet) : List Entity :=
  atoms.toList.filterMap fun a => (c.fromAtom a).toOption

/-- The atoms of entities. An entity whose atom text is not an atom has none. -/
def atomsOf (entities : List Entity) : List Atom := (parseAll (entities.map (·.atom))).atoms

inductive Reply where
  | done
  | answer (b : Bool)
  | failed (e : RepresentationError)
  /-- There is no member that serves the call. -/
  | unserved
  deriving DecidableEq

/-! ## Pools -/

namespace Pool

inductive Call where
  | insert (atom : Atom)
  | remove (atom : Atom)
  | extend (atoms : List Atom)
  | clear

def serve (pool : AtomSet) : Call → Reply × AtomSet
  | .insert atom => (.answer !(pool.contains atom), pool.insert atom)
  | .remove atom => (.answer (pool.contains atom), pool.erase atom)
  | .extend atoms => (.done, pool.insertAll atoms)
  | .clear => (.done, .empty)

end Pool

/-! ## Lists and slots -/

structure EntityList where
  codec : Codec
  entities : List Entity
  deriving DecidableEq

namespace EntityList

def empty (c : Codec) : EntityList := ⟨c, []⟩

/-- Adds an entity at the end unless it is listed, and says whether it is new. -/
def push (l : EntityList) (entity : Entity) : Bool × EntityList :=
  if l.entities.contains entity then (false, l)
  else (true, { l with entities := l.entities ++ [entity] })

def add (l : EntityList) (text : Text) : Except RepresentationError Bool × EntityList :=
  match l.codec.fromDisplayText text with
  | .error e => (.error e, l)
  | .ok entity => (.ok (l.push entity).1, (l.push entity).2)

/-- Says whether the list became shorter. -/
def remove (l : EntityList) (entity : Entity) : Bool × EntityList :=
  let kept := l.entities.filter (· ≠ entity)
  (kept.length != l.entities.length, { l with entities := kept })

def clear (l : EntityList) : EntityList := { l with entities := [] }

def displays (l : EntityList) : List Text := l.entities.map (·.display)

def atoms (l : EntityList) : List Atom := atomsOf l.entities

def receive (l : EntityList) (atoms : AtomSet) : EntityList :=
  { l with entities := entitiesOf l.codec atoms }

inductive Call where
  | add (text : Text)
  | remove (entity : Entity)
  | clear

def serve (l : EntityList) : Call → Reply × EntityList
  | .add text =>
    match l.add text with
    | (.error e, l') => (.failed e, l')
    | (.ok isNew, l') => (.answer isNew, l')
  | .remove entity => (.answer (l.remove entity).1, (l.remove entity).2)
  | .clear => (.done, l.clear)

end EntityList

structure ValueSlot where
  codec : Codec
  value : Option Entity
  deriving DecidableEq

namespace ValueSlot

def empty (c : Codec) : ValueSlot := ⟨c, none⟩

def set (s : ValueSlot) (text : Text) : Except RepresentationError Unit × ValueSlot :=
  match s.codec.fromDisplayText text with
  | .error e => (.error e, s)
  | .ok entity => (.ok (), { s with value := some entity })

def clear (s : ValueSlot) : ValueSlot := { s with value := none }

def atoms (s : ValueSlot) : List Atom := atomsOf s.value.toList

/-- The entity with the smallest display text, the first of them if several share it. -/
def smallest : List Entity → Option Entity
  | [] => none
  | e :: es =>
    match smallest es with
    | none => some e
    | some m => if Text.before m.display e.display then some m else some e

/-- Of several atoms that fit, the one with the smallest display text is taken. -/
def receive (s : ValueSlot) (atoms : AtomSet) : ValueSlot :=
  { s with value := smallest (entitiesOf s.codec atoms) }

inductive Call where
  | set (text : Text)
  | clear

def serve (s : ValueSlot) : Call → Reply × ValueSlot
  | .set text =>
    match s.set text with
    | (.error e, s') => (.failed e, s')
    | (.ok (), s') => (.done, s')
  | .clear => (.done, s.clear)

end ValueSlot

/-! ## Conditions -/

/-- A condition without an atom always holds. -/
structure Condition where
  atom : Option Atom
  fulfilled : Bool
  deriving DecidableEq

namespace Condition

/-- A text that is not an atom gives a condition without one. -/
def ofText (text : Text) : Condition :=
  let atom := (Atom.parse (Text.trim text)).toOption
  ⟨atom, atom.isNone⟩

def holdsIn (c : Condition) (atoms : AtomSet) : Bool :=
  match c.atom with
  | none => true
  | some a => atoms.contains a

def receive (c : Condition) (atoms : AtomSet) : Condition := { c with fulfilled := c.holdsIn atoms }

end Condition

/-! ## Gathering and distributing -/

inductive Member where
  | pool (atoms : AtomSet)
  | list (entities : EntityList)
  | slot (value : ValueSlot)
  | condition (guard : Condition)
  deriving DecidableEq

namespace Member

/-- The atoms that a member contributes; a condition contributes none. -/
def supplied : Member → List Atom
  | .pool atoms => atoms.toList
  | .list l => l.atoms
  | .slot s => s.atoms
  | .condition _ => []

def receive (atoms : AtomSet) : Member → Member
  | .pool _ => .pool atoms
  | .list l => .list (l.receive atoms)
  | .slot s => .slot (s.receive atoms)
  | .condition c => .condition (c.receive atoms)

inductive Call where
  | pool (call : Pool.Call)
  | list (call : EntityList.Call)
  | slot (call : ValueSlot.Call)

/-- A member does not serve the calls of another kind of member. -/
def serve : Member → Call → Reply × Member
  | .pool atoms, .pool call => ((Pool.serve atoms call).1, .pool (Pool.serve atoms call).2)
  | .list l, .list call => ((l.serve call).1, .list (l.serve call).2)
  | .slot s, .slot call => ((s.serve call).1, .slot (s.serve call).2)
  | m, _ => (.unserved, m)

end Member

def gather (members : List Member) : AtomSet := AtomSet.ofList (members.flatMap Member.supplied)

def distribute (atoms : AtomSet) (members : List Member) : List Member :=
  members.map (Member.receive atoms)

/-! ## Runs -/

namespace Exchange

inductive Origin where
  | pool (atoms : List Atom)
  | list (codec : Codec)
  | slot (codec : Codec)
  | condition (text : Text)

def Origin.member : Origin → Member
  | .pool atoms => .pool (.ofList atoms)
  | .list c => .list (.empty c)
  | .slot c => .slot (.empty c)
  | .condition text => .condition (.ofText text)

/-- The set to distribute: a given one, or that of a pool among the members. -/
inductive Supply where
  | set (atoms : AtomSet)
  | pool (place : Nat)

def Supply.atoms? (members : List Member) : Supply → Option AtomSet
  | .set atoms => some atoms
  | .pool place =>
    match members[place]? with
    | some (.pool atoms) => some atoms
    | _ => none

/-- What an owner of members does. Members are named by their places; a new one comes last. -/
inductive Action where
  | make (origin : Origin)
  | call (place : Nat) (call : Member.Call)
  | gather (suppliers : List Nat)
  | distribute (supply : Supply) (receivers : List Nat)

def step (members : List Member) : Action → Reply × List Member
  | .make origin => (.done, members ++ [origin.member])
  | .call place call =>
    match members[place]? with
    | some m => ((m.serve call).1, members.set place (m.serve call).2)
    | none => (.unserved, members)
  | .gather suppliers =>
    (.done, members ++ [.pool (FactForm.gather (suppliers.filterMap (members[·]?)))])
  | .distribute supply receivers =>
    match supply.atoms? members with
    | some atoms =>
      (.done, members.mapIdx fun place m => if place ∈ receivers then m.receive atoms else m)
    | none => (.unserved, members)

/-- The members after the actions, one after the other. -/
def run (members : List Member) (actions : List Action) : List Member :=
  actions.foldl (fun members action => (step members action).2) members

end Exchange

end FactForm
