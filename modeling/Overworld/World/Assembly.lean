import Overworld.Log
import Overworld.Raw.Table
import Overworld.World.Graph

/-!
# Assembly

Converts every record of a table and collects the maps in a graph. The first failure
ends it, and two maps of one location are a failure.
-/

set_option autoImplicit false

namespace Overworld

/-- How a record becomes a map; nothing for a record that is to be skipped. -/
def Converter : Type := Raw.Record → Traced (Option WorldMap)

namespace Assembly

def addRecord (convert : Converter) (g : Graph) (record : Raw.Record) : Traced Graph := do
  let name := Utf8.shown record.data.name
  Traced.report .debug "converting map" [("map", .text name)]
  match ← (convert record).within ("converting map " ++ Quoted.quote record.data.name) with
  | none =>
    Traced.report .warn "could not convert map; skipping"
      [("map", .text name), ("raw_id", .text (Utf8.shown record.data.id))]
    return g
  | some m =>
    match g.insertIfAbsent m with
    | .inserted g' => return g'
    | .taken existing => Traced.lift (fail (.duplicateLocation m.id m.name existing.name))

def addRecords (convert : Converter) : List Raw.Record → Graph → Traced Graph
  | [], g => pure g
  | r :: rs, g => do addRecords convert rs (← addRecord convert g r)

/-- The graph of a table. A run that was called off fails with its first record. -/
def assemble (convert : Converter) (t : Raw.Table) (canceled : Bool) : Traced Graph := do
  if canceled && 0 < t.size then Traced.lift (fail .canceled)
  let g ← addRecords convert t.toList Graph.empty
  Traced.report .info "assembled world graph"
    [("records", .number t.size), ("maps", .number g.size),
      ("skipped", .number ((t.size : Int) - (g.size : Int)))]
  return g

def reportDangling (d : Graph.Dangling) : Traced Unit :=
  Traced.report .warn "connection targets a map missing from the graph"
    [("from", .text d.source.shown), ("direction", .text (Utf8.shown d.direction.name)),
      ("target", .text d.target.shown)]

def build (convert : Raw.Table → Converter) (t : Raw.Table) (canceled : Bool) : Traced Graph := do
  Traced.report .info "loaded raw maps" [("count", .number t.size)]
  let g ← (assemble (convert t) t canceled).within "assembling world graph"
  g.dangling.forM reportDangling
  return g

end Assembly

end Overworld
