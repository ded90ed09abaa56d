import Overworld.Log
import Overworld.Raw.Rules
import Overworld.Source.Documents

/-!
# Retrieving a source

Collects the records of every map that the source lists. The first map that cannot be
fetched, read, checked or added ends the retrieval.
-/

set_option autoImplicit false

namespace Overworld.Source

/-- How the contents at a path of the source are obtained. -/
def Fetch : Type := Bytes → Except Failure Bytes

def retrieveRecord (fetch : Fetch) (layouts : Dict Raw.Layout) (name : Bytes) :
    Except Failure Raw.Record :=
  inStep ("map " ++ Utf8.shown name) do
    let data ← parseMap (← fetch (mapPath name))
    match layouts.find? data.layout with
    | none => fail (.unknownLayout data.layout)
    | some layout =>
      let record : Raw.Record := ⟨data, layout⟩
      inStep "invalid record" record.validate
      return record

def retrieveRecords (fetch : Fetch) (layouts : Dict Raw.Layout) :
    List Bytes → Raw.Table → Traced Raw.Table
  | [], t => pure t
  | name :: names, t => do
    let record ← Traced.lift (retrieveRecord fetch layouts name)
    let t ← Traced.lift (t.insert record)
    Traced.report .debug "parsed map" [("map", .text (Utf8.shown record.data.name))]
    retrieveRecords fetch layouts names t

def retrieve (fetch : Fetch) : Traced Raw.Table := do
  Traced.report .info "fetching layouts" []
  let layouts ← Traced.lift do parseLayouts (← fetch layoutsPath)
  Traced.report .info "fetching map groups" []
  let names ← Traced.lift do parseGroups (← fetch groupsPath)
  Traced.report .info "found map names" [("count", .number names.length)]
  let t ← retrieveRecords fetch layouts names Raw.Table.empty
  Traced.report .info "retrieved raw maps" [("count", .number t.size)]
  return t

def fetchBlob (fetch : Fetch) (path : Bytes) : Except Failure Bytes :=
  inStep ("fetching blob " ++ Utf8.shown path) (fetch path)

end Overworld.Source
