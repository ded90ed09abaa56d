import Overworld.World.Map

/-!
# The world graph

Resolved maps under the written form of their locations. A map is inserted only
where no map stands yet; nothing is ever removed.
-/

set_option autoImplicit false

namespace Overworld

structure Graph where
  maps : Dict WorldMap
  deriving DecidableEq, Repr

namespace Graph

def empty : Graph := ⟨Dict.empty⟩

instance : Inhabited Graph := ⟨empty⟩

def get? (g : Graph) (l : Location) : Option WorldMap := g.maps.find? l.key

inductive Insertion where
  | inserted (g : Graph)
  | taken (existing : WorldMap)

def insertIfAbsent (g : Graph) (m : WorldMap) : Insertion :=
  match g.maps.find? m.id.key with
  | some existing => .taken existing
  | none => .inserted ⟨g.maps.insert m.id.key m⟩

def size (g : Graph) : Nat := g.maps.size

def keys (g : Graph) : List Bytes := g.maps.keys

def toList (g : Graph) : List WorldMap := g.maps.values

/-- A connection to a location at which no map stands. -/
structure Dangling where
  source : Location
  direction : Direction
  target : Location
  deriving DecidableEq, Repr

def danglingOf (g : Graph) (m : WorldMap) : List Dangling :=
  Direction.all.filterMap fun d => do
    let c ← (← m.chunk).find? d.name
    if (g.get? c.location).isNone then some ⟨m.id, d, c.location⟩ else none

/-- Every dangling connection, by source key and then by direction. -/
def dangling (g : Graph) : List Dangling := g.toList.flatMap g.danglingOf

end Graph

end Overworld
