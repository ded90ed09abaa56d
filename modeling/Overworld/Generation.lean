import Overworld.Snapshot.Cache
import Overworld.Source.Retrieval
import Overworld.World.Assembly
import Overworld.World.Output
import Overworld.World.Resolution

/-!
# Generating a world

A whole run: the table from its snapshot or its source, the graph of the table, and the
graph's documents.
-/

set_option autoImplicit false

namespace Overworld.Generation

/-- What a run needs besides the source. -/
structure Plan where
  mappings : Mappings
  snapshot : Bytes
  output : Bytes
  runId : Bytes
  writer : Snapshot.Writer := .standard

def retrieve (fetch : FileSystem → Source.Fetch) : Action Raw.Table := do
  Action.ofTraced (Source.retrieve (fetch (← Action.files)))

def build (plan : Plan) (fetch : FileSystem → Source.Fetch) : Action Graph := do
  let t ← (Snapshot.loadOrBuild plan.writer plan.snapshot (retrieve fetch)).within
    "loading raw maps"
  let fs ← Action.files
  Action.ofTraced
    (Assembly.build (fun t => Resolver.convert ⟨t, plan.mappings⟩ (Source.fetchBlob (fetch fs))) t
      false)

/-- Builds the graph of a source and writes it. Nothing is written unless the whole graph
could be built. -/
def run (plan : Plan) (fetch : FileSystem → Source.Fetch) : Action Manifest := do
  let g ← build plan fetch
  let manifest ← g.write plan.output plan.runId
  Action.report .info "wrote world graph"
    [("dir", .text (Utf8.shown plan.output)), ("maps", .number manifest.count),
      ("digest", .text (Utf8.shown manifest.digest))]
  return manifest

end Overworld.Generation
