import Overworld.Dict
import Overworld.Failure
import Overworld.Raw.Record

/-!
# Tables of raw records

All records of a source, each under its own identifier. A table never holds two records
of one identifier.
-/

set_option autoImplicit false

namespace Overworld.Raw

/-- Records keyed by their identifiers. -/
structure Table where
  records : Dict Record
  keyed : ∀ e ∈ records.entries, e.2.data.id = e.1
  deriving Repr

namespace Table

instance : DecidableEq Table := fun a b =>
  if h : a.records = b.records then isTrue (by cases a; cases b; simpa using h)
  else isFalse (by rintro rfl; exact h rfl)

def empty : Table := ⟨Dict.empty, by simp [Dict.empty]⟩

instance : Inhabited Table := ⟨empty⟩

def get? (t : Table) (id : Bytes) : Option Record := t.records.find? id

def size (t : Table) : Nat := t.records.size

def ids (t : Table) : List Bytes := t.records.keys

def toList (t : Table) : List Record := t.records.values

def add (t : Table) (r : Record) : Table :=
  ⟨t.records.insert r.data.id r, by
    intro e he
    rcases Dict.mem_place he with h | h
    · subst h; rfl
    · exact t.keyed e h⟩

def insert (t : Table) (r : Record) : Except Failure Table :=
  match t.get? r.data.id with
  | some existing => fail (.duplicateRecord r.data.id existing.data.name r.data.name)
  | none => .ok (t.add r)

def ofList (rs : List Record) : Except Failure Table := rs.foldlM insert empty

end Table

/-- A table that is being built, until it is handed out. -/
inductive Builder where
  | collecting (t : Table)
  | done

namespace Builder

def start : Builder := .collecting Table.empty

/-- Adds a record and tells how that ended. Nothing can be added once the table was handed out. -/
def insert : Builder → Record → Option (Builder × Except Failure Unit)
  | .collecting t, r =>
    match t.insert r with
    | .ok next => some (.collecting next, .ok ())
    | .error f => some (.collecting t, .error f)
  | .done, _ => none

/-- Hands out the table; afterwards there is nothing left to hand out. -/
def build : Builder → Table × Builder
  | .collecting t => (t, .done)
  | .done => (Table.empty, .done)

end Builder

end Overworld.Raw
