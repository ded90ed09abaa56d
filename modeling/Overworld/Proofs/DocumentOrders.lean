import Overworld.Proofs.Dictionary
import Overworld.Proofs.Yaml.NumberedKeys

/-!
# Orders in a document

The connections, warps and characters of a map are met in any order and sorted before they are
written. Where their keys are properly ordered there is one arrangement, and so one document.
-/

set_option autoImplicit false

namespace Overworld

open Yaml

/-- The entries of a map's dictionaries, in the order in which they are met. -/
structure Listing where
  chunk : Option (List (Bytes × Connection))
  warps : List (Bytes × Warp)
  npcs : List (Bytes × Npc)

namespace Listing

variable {l : Listing} {m : WorldMap}

/-- A listing has the entries of a map and no others. -/
structure Lists (l : Listing) (m : WorldMap) : Prop where
  chunk : Option.Rel (fun es c => es.Perm (Dict.entries c)) l.chunk m.chunk
  warps : l.warps.Perm m.warps.entries
  npcs : l.npcs.Perm m.npcs.entries

/-- No entry sorts before the one in front of it. -/
structure Arranged (l : Listing) : Prop where
  chunk : ∀ es ∈ l.chunk, KeyOrder.Arranged es
  warps : KeyOrder.Arranged l.warps
  npcs : KeyOrder.Arranged l.npcs

/-- The same entries, sorted. -/
def sorted (l : Listing) : Listing :=
  ⟨l.chunk.map KeyOrder.sort, KeyOrder.sort l.warps, KeyOrder.sort l.npcs⟩

def entriesTree {α : Type} (f : α → Tree) (es : List (Bytes × α)) : Tree :=
  .fields (es.map fun e => (e.1, f e.2))

/-- The fields of a map, its entries in the order of a listing. -/
def fields (l : Listing) (m : WorldMap) : List (Bytes × Tree) :=
  [field "id" m.id.tree, field "name" (.text m.name)] ++
    (l.chunk.map fun es => field "chunk"
      (.fields [field "connections" (entriesTree Connection.tree es)])).toList ++
    [field "warps" (entriesTree Warp.tree l.warps), field "npcs" (entriesTree Npc.tree l.npcs),
      field "width" (.int m.width.toNat), field "height" (.int m.height.toNat),
      field "palettes" (.row [m.palettes.primary.toNat, m.palettes.secondary.toNat]),
      field "music" (.text m.music),
      field "tiles" (.row (m.tiles.map fun t => t.toNat)),
      field "movements" (.row (m.movements.map fun t => t.toNat)),
      field "border" (.row (m.border.toList.map fun t => t.toNat))]

/-- The document of a map, its entries in the order of a listing. -/
def render (l : Listing) (m : WorldMap) : Bytes := renderFields [field "map" (.fields (l.fields m))]

/-- The listing that the document of a map has. -/
def ofMap (m : WorldMap) : Listing :=
  ⟨m.chunk.map fun c => KeyOrder.sort (Dict.entries c), KeyOrder.sort m.warps.entries,
    KeyOrder.sort m.npcs.entries⟩

theorem of_map_render (m : WorldMap) : (ofMap m).render m = m.render := by
  have chunk : ((ofMap m).chunk.map fun es => field "chunk"
      (.fields [field "connections" (entriesTree Connection.tree es)])) =
        m.chunk.map fun c => field "chunk" (Chunk.tree c) := by
    rw [ofMap, Option.map_map]
    rfl
  rw [render, fields, chunk]
  rfl

end Listing

namespace WorldMap

/-- The keys of a map are properly ordered: sorting compares them by ranks. -/
structure Ordered (m : WorldMap) : Prop where
  chunk : ∀ c ∈ m.chunk, ∃ rank, KeyOrder.Ranked rank (Dict.entries c)
  warps : ∃ rank, KeyOrder.Ranked rank m.warps.entries
  npcs : ∃ rank, KeyOrder.Ranked rank m.npcs.entries

/-- The keys of a map are those that resolving gives: directions, and numbers that fit into a signed
word of 64 bits. -/
structure Synthesized (m : WorldMap) : Prop where
  chunk : ∀ c ∈ m.chunk, KeyOrder.Directed (Dict.entries c)
  warps : KeyOrder.Numbered "warp" m.warps.entries
  npcs : KeyOrder.Numbered "npc" m.npcs.entries

theorem Synthesized.ordered {m : WorldMap} (h : m.Synthesized) : m.Ordered where
  chunk c held := ⟨_, (h.chunk c held).ranked c.keys_nodup⟩
  warps := ⟨_, h.warps.ranked m.warps.keys_nodup⟩
  npcs := ⟨_, h.npcs.ranked m.npcs.keys_nodup⟩

/-- What a document of a map is: it has the entries of the map, and where sorting can arrange them,
they are arranged. From keys that are not properly ordered, sorting may give any order. -/
def Renders (m : WorldMap) (document : Bytes) : Prop :=
  ∃ l : Listing, l.Lists m ∧ (m.Ordered → l.Arranged) ∧ l.render m = document

end WorldMap

namespace Listing

variable {l : Listing} {m : WorldMap}

theorem Lists.chunk_cases (lists : l.Lists m) :
    (l.chunk = none ∧ m.chunk = none) ∨
      ∃ es c, l.chunk = some es ∧ m.chunk = some c ∧ es.Perm (Dict.entries c) := by
  have related := lists.chunk
  generalize l.chunk = listed at related ⊢
  generalize m.chunk = held at related ⊢
  cases related with
  | none => exact .inl ⟨rfl, rfl⟩
  | some perm => exact .inr ⟨_, _, rfl, rfl, perm⟩

/-- There is one arranged listing of a map. -/
theorem eq_of_map (ordered : m.Ordered) (lists : l.Lists m) (arranged : l.Arranged) :
    l = ofMap m := by
  obtain ⟨warpRank, rankedWarps⟩ := ordered.warps
  obtain ⟨npcRank, rankedNpcs⟩ := ordered.npcs
  have warps := rankedWarps.eq_sort lists.warps arranged.warps
  have npcs := rankedNpcs.eq_sort lists.npcs arranged.npcs
  have chunk : l.chunk = m.chunk.map fun c => KeyOrder.sort (Dict.entries c) := by
    obtain ⟨unlisted, unheld⟩ | ⟨es, c, listed, held, perm⟩ := lists.chunk_cases
    · rw [unlisted, unheld]
      rfl
    · obtain ⟨rank, ranked⟩ := ordered.chunk c held
      rw [listed, held, ranked.eq_sort perm (arranged.chunk es listed)]
      rfl
  rw [ofMap, ← chunk, ← warps, ← npcs]

theorem sorted_lists (lists : l.Lists m) : l.sorted.Lists m where
  chunk := by
    obtain ⟨unlisted, unheld⟩ | ⟨es, c, listed, held, perm⟩ := lists.chunk_cases
    · rw [sorted, unlisted, unheld]
      exact .none
    · rw [sorted, listed, held]
      exact .some ((List.mergeSort_perm _ _).trans perm)
  warps := (List.mergeSort_perm _ _).trans lists.warps
  npcs := (List.mergeSort_perm _ _).trans lists.npcs

theorem sorted_arranged (ordered : m.Ordered) (lists : l.Lists m) : l.sorted.Arranged where
  chunk := by
    intro es sorted
    obtain ⟨unlisted, _⟩ | ⟨met, c, listed, held, perm⟩ := lists.chunk_cases
    · rw [Listing.sorted, unlisted] at sorted
      cases sorted
    · rw [Listing.sorted, listed] at sorted
      cases sorted
      obtain ⟨rank, ranked⟩ := ordered.chunk c held
      exact (ranked.of_perm perm).sort_arranged
  warps := by
    obtain ⟨rank, ranked⟩ := ordered.warps
    exact (ranked.of_perm lists.warps).sort_arranged
  npcs := by
    obtain ⟨rank, ranked⟩ := ordered.npcs
    exact (ranked.of_perm lists.npcs).sort_arranged

theorem ascending_of_perm {α : Type} {kind : String} {es : List (Bytes × α)} {d : Dict α}
    (numbered : KeyOrder.Numbered kind d.entries) (perm : es.Perm d.entries)
    (arranged : KeyOrder.Arranged es) : KeyOrder.Ascending kind es := by
  apply KeyOrder.Numbered.ascending _ _ arranged
  · exact fun x hx => numbered x (perm.mem_iff.mp hx)
  · exact (perm.map Prod.fst).nodup_iff.mpr d.keys_nodup

end Listing

namespace WorldMap

variable {m : WorldMap}

theorem renders_render (m : WorldMap) : m.Renders m.render := by
  have met : (⟨m.chunk.map Dict.entries, m.warps.entries, m.npcs.entries⟩ : Listing).Lists m := by
    refine ⟨?_, .refl _, .refl _⟩
    cases m.chunk with
    | none => exact .none
    | some c => exact .some (.refl _)
  refine ⟨_, Listing.sorted_lists met, fun ordered => Listing.sorted_arranged ordered met, ?_⟩
  rw [← Listing.of_map_render, Listing.sorted, Option.map_map]
  rfl

/-- A map whose keys are properly ordered has one document. -/
theorem Ordered.eq_render (ordered : m.Ordered) {document : Bytes} (h : m.Renders document) :
    document = m.render := by
  obtain ⟨l, lists, arranged, rfl⟩ := h
  rw [Listing.eq_of_map ordered lists (arranged ordered), Listing.of_map_render]

end WorldMap

end Overworld
