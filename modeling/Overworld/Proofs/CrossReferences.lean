import Overworld.Proofs.AssemblySchedule
import Overworld.Proofs.ResolvedReferences

/-!
# Cross references of an assembled graph

Where the connections and warps of an assembled graph lead. References are followed by location: a
reference to a record that is in the graph finds its map. A reference to a record that is not may
still find a map, namely that of another record with the same location.
-/

set_option autoImplicit false

namespace Overworld

namespace Assembly

variable {convert : Converter} {t : Raw.Table} {g : Graph} {l : Location} {x : WorldMap}

/-- A graph that a complete run of the pool hands out, for some number of workers and some order of
their steps. -/
def Yields (convert : Converter) (t : Raw.Table) (g : Graph) : Prop :=
  ∃ workers p, Pool.Run convert workers (.start t.toList) p ∧ p.Complete ∧ p.outcome = .ok g

theorem outcome_eq_ok {p : Pool} :
    p.outcome = .ok g ↔ p.shared.kept = none ∧ p.shared.graph = g := by
  unfold Pool.outcome
  cases p.shared.kept <;> simp

theorem Yields.entries (h : Yields convert t g) :
    g.maps.entries.Perm ((t.toList.filterMap (mapOf convert)).map entry) := by
  obtain ⟨_, p, run, done, ok⟩ := h
  obtain ⟨kept, rfl⟩ := outcome_eq_ok.mp ok
  obtain ⟨records, sound⟩ := run_sound (table_nodup t) run
  rw [← records]
  exact (complete_graph sound done kept).1

/-- What stands in an assembled graph: the maps of the converted records, each where its own
location is written. -/
theorem Yields.get_eq_some_iff (h : Yields convert t g) :
    g.get? l = some x ↔
      ∃ r ∈ t.toList, (convert r).outcome = .ok (some x) ∧ x.id.key = l.key := by
  rw [Graph.get?, Dict.find_eq_some_iff, h.entries.mem_iff]
  simp only [List.mem_map, List.mem_filterMap, entry, Prod.mk.injEq, map_of_eq_some]
  constructor
  · rintro ⟨y, ⟨r, hr, converted⟩, key, rfl⟩
    exact ⟨r, hr, converted, key⟩
  · rintro ⟨r, hr, converted, key⟩
    exact ⟨x, ⟨r, hr, converted⟩, key, rfl⟩

theorem Yields.get_eq_none_iff (h : Yields convert t g) : g.get? l = none ↔
    ∀ r ∈ t.toList, ∀ x, (convert r).outcome = .ok (some x) → x.id.key ≠ l.key := by
  constructor
  · intro absent r hr x converted key
    cases absent.symm.trans (h.get_eq_some_iff.mpr ⟨r, hr, converted, key⟩)
  · intro apart
    cases there : g.get? l with
    | none => rfl
    | some x =>
      obtain ⟨r, hr, converted, key⟩ := h.get_eq_some_iff.mp there
      exact absurd key (apart r hr x converted)

theorem Yields.get_converted (h : Yields convert t g) {r : Raw.Record} (hr : r ∈ t.toList)
    (converted : (convert r).outcome = .ok (some x)) : g.get? x.id = some x :=
  h.get_eq_some_iff.mpr ⟨r, hr, converted, rfl⟩

theorem consistent_iff {rs : List Raw.Record} : Consistent convert rs ↔
    (∀ r ∈ rs, (convert r).outcome.toOption.isSome = true) ∧
      ((rs.filterMap (mapOf convert)).map (·.id.key)).Nodup := by
  apply and_congr_left'
  apply forall₂_congr
  intro r _
  cases (convert r).outcome <;> simp [Except.toOption]

theorem yields_of_consistent (consistent : Consistent convert t.toList) :
    ∃ g, Yields convert t g := by
  obtain ⟨p, run, done⟩ : ∃ p, Pool.Run convert 1 (.start t.toList) p ∧ p.Complete :=
    run_completes (Nat.le_refl 1) (table_nodup t) .refl
  obtain ⟨records, sound⟩ := run_sound (table_nodup t) run
  cases ok : p.outcome with
  | ok g => exact ⟨g, 1, p, run, done, ok⟩
  | error f =>
    have kept : p.shared.kept = some f := by
      unfold Pool.outcome at ok
      split at ok <;> simp_all
    have fault := sound.kept f kept
    rw [records] at fault
    exact absurd consistent (fault_not_consistent fault)

end Assembly

theorem Graph.mem_dangling_iff {g : Graph} {d : Dangling} :
    d ∈ g.dangling ↔ g.get? d.target = none ∧ ∃ m ∈ g.toList, m.id = d.source ∧
      ∃ c, m.chunk = some c ∧ ∃ conn, Dict.find? c d.direction.name = some conn ∧
        conn.location = d.target := by
  simp only [dangling, danglingOf, List.mem_flatMap, List.mem_filterMap, Option.bind_eq_bind,
    Option.bind_eq_some_iff]
  constructor
  · rintro ⟨m, hm, dir, _, c, present, conn, found, h⟩
    split at h
    · rename_i absent
      cases h
      exact ⟨Option.isNone_iff_eq_none.mp absent, m, hm, rfl, c, present, conn, found, rfl⟩
    · cases h
  · rintro ⟨absent, m, hm, source, c, present, conn, found, target⟩
    refine ⟨m, hm, d.direction, by cases d.direction <;> decide, c, present, conn, found, ?_⟩
    rw [target, absent, source]
    rfl

theorem Assembly.Yields.mem_dangling_iff {convert : Converter} {t : Raw.Table} {g : Graph}
    (h : Yields convert t g) {r : Raw.Record} {m : WorldMap} (hr : r ∈ t.toList)
    (converted : (convert r).outcome = .ok (some m)) {c : Chunk} {d : Direction}
    {conn : Connection} (present : m.chunk = some c) (found : Dict.find? c d.name = some conn) :
    ⟨m.id, d, conn.location⟩ ∈ g.dangling ↔ g.get? conn.location = none := by
  rw [Graph.mem_dangling_iff]
  constructor
  · exact fun reported => reported.1
  · intro absent
    have stands := Dict.find_eq_some_iff.mp (h.get_converted hr converted)
    exact ⟨absent, m, List.mem_map.mpr ⟨_, stands, rfl⟩, rfl, c, present, conn, found, rfl⟩

namespace Resolver

open Assembly (Yields)

variable {r : Resolver} {blob : Bytes → Except Failure Bytes} {g : Graph}

/-- Where a reference to a raw identifier leads once it is resolved to a location. -/
structure Refers (r : Resolver) (blob : Bytes → Except Failure Bytes) (g : Graph) (raw : Bytes)
    (l : Location) : Prop where
  located : (r.locate raw).outcome = .ok l
  /-- If the record it names is converted, then to the map of that record. -/
  own : ∀ T n, r.table.get? raw = some T → (r.convert blob T).outcome = .ok (some n) →
    g.get? l = some n
  /-- If to any map, then to that of a record whose own location is written alike. -/
  found : ∀ x, g.get? l = some x → ∃ T ∈ r.table.toList,
    (r.convert blob T).outcome = .ok (some x) ∧ (r.locate T.data.id).outcome = .ok x.id ∧
      x.id.key = l.key

theorem refers_of_located (assembled : Yields (r.convert blob) r.table g) {raw : Bytes}
    {l : Location} (located : (r.locate raw).outcome = .ok l) : Refers r blob g raw l := by
  constructor
  · exact located
  · intro T n present converted
    have id := (convert_parts converted).1
    rw [Raw.Table.id_of_get present, located] at id
    cases id
    exact assembled.get_converted (Raw.Table.mem_of_get present) converted
  · intro x here
    obtain ⟨T, hT, converted, key⟩ := assembled.get_eq_some_iff.mp here
    exact ⟨T, hT, converted, (convert_parts converted).1, key⟩

/-- In every assembled graph a warp to a record that is converted as well leads to the map of that
record and onto the tile of the warp at which it arrives. -/
theorem warps_lead_to_targets (r : Resolver) (blob : Bytes → Except Failure Bytes) (g : Graph)
    (assembled : Yields (r.convert blob) r.table g) (R T : Raw.Record) (m n : WorldMap) (i : Nat)
    (w : Raw.Warp) (hR : R ∈ r.table.toList) (hm : (r.convert blob R).outcome = .ok (some m))
    (hw : R.data.warpList[i]? = some w) (hT : r.table.get? w.destination = some T)
    (hn : (r.convert blob T).outcome = .ok (some n)) :
    g.get? m.id = some m ∧ ∃ e, m.warps.find? (numbered "warp" i) = some e ∧
      (∀ c, e.area.contains c = true ↔ c = ⟨w.x, w.y⟩) ∧ g.get? e.location = some n ∧
      ∃ (j : Nat) (a : Raw.Warp), w.index.toInt = j ∧ T.data.warpList[j]? = some a ∧
        e.position.coords = ⟨a.x, a.y⟩ ∧
        ∀ e', n.warps.find? (numbered "warp" j) = some e' →
          e'.area.contains e.position.coords = true := by
  refine ⟨assembled.get_converted hR hm, ?_⟩
  obtain ⟨l, located, resolved⟩ := warp_eq_ok.mp (warps_find (convert_parts hm).2.2 hw)
  rw [hT] at resolved
  obtain ⟨j, a, ⟨number, arrival⟩, entry⟩ := resolved
  refine ⟨warpTo w l a, entry, fun c => Box.contains_tile _ c,
    (refers_of_located assembled located).own T n hT hn, j, a, number, arrival, rfl, ?_⟩
  -- the entry of the target under that number is resolved from the very warp that is arrived at
  intro e' kept
  have resolved' := warps_find (convert_parts hn).2.2 arrival
  rw [kept] at resolved'
  obtain ⟨_, _, _, rfl⟩ := warp_kept resolved'
  exact (Box.contains_tile _ _).mpr rfl

def cell (id name : String) (connections : List Raw.Connection) (warps : List Raw.Warp) :
    Raw.Record where
  data := ⟨utf8 id, utf8 name, utf8 "LAYOUT", utf8 "MUS", some connections, some warps, none⟩
  layout := ⟨utf8 "LAYOUT", [], 1, 1, [], [], utf8 "border.bin", utf8 "map.bin"⟩

def cellBlob (p : Bytes) : Except Failure Bytes :=
  .ok (if p = utf8 "map.bin" then [1, 4] else [1, 0, 2, 0, 3, 0, 4, 0])

def cellResolver (rs : List Raw.Record) : Resolver := ⟨rs.foldl Raw.Table.add .empty, .empty⟩

/-- A town, and a house whose first warp leads to a map that there is not. -/
def town : Raw.Record :=
  cell "MAP_TOWN" "Town" [] [⟨5, 7, 0, utf8 "MAP_HOUSE", 1⟩]

def house : Raw.Record :=
  cell "MAP_HOUSE" "House" [] [⟨0, 0, 0, utf8 "MAP_CELLAR", 3⟩, ⟨-2, 9, 0, utf8 "MAP_TOWN", 0⟩]

/-- The warp of the town arrives at the second warp of the house, which is kept as `warp_1`. -/
theorem town_warp_leads_to_house :
    let r := cellResolver [town, house]
    ∃ g m n, Yields (r.convert cellBlob) r.table g ∧
      (r.convert cellBlob town).outcome = .ok (some m) ∧
      (r.convert cellBlob house).outcome = .ok (some n) ∧
      n.warps.keys = [utf8 "warp_1"] ∧
      ∃ e, m.warps.find? (utf8 "warp_0") = some e ∧ g.get? e.location = some n ∧
        e.position.coords = ⟨-2, 9⟩ := by
  intro r
  obtain ⟨g, assembled⟩ : ∃ g, Yields (r.convert cellBlob) r.table g :=
    Assembly.yields_of_consistent (Assembly.consistent_iff.mpr (by decide +kernel))
  have hm : (r.convert cellBlob town).outcome =
      .ok (some ((Assembly.mapOf (r.convert cellBlob) town).getD default)) := by decide +kernel
  have hn : (r.convert cellBlob house).outcome =
      .ok (some ((Assembly.mapOf (r.convert cellBlob) house).getD default)) := by decide +kernel
  obtain ⟨_, e, entry, _, found, j, a, number, arrival, coords, _⟩ :=
    warps_lead_to_targets r cellBlob g assembled town house _ _ 0 ⟨5, 7, 0, utf8 "MAP_HOUSE", 1⟩
      (by decide +kernel) hm rfl (by decide +kernel) hn
  refine ⟨g, _, _, assembled, hm, hn, by decide +kernel, e, entry, found, ?_⟩
  have first : j = 1 := by
    have : (1 : Int) = j := number
    omega
  subst first
  cases arrival
  exact coords

/-- References are followed by location. Each connection of a chunk is the last one of its record in
that direction, and each warp the one of its number. If the record that a reference names is
converted, its map is found. Whatever is found is the map of a record whose location is written
alike. A connection is reported as dangling exactly if nothing is found, and that is so exactly if
no converted record has a location written alike. -/
theorem references_follow_locations (r : Resolver) (blob : Bytes → Except Failure Bytes) (g : Graph)
    (assembled : Yields (r.convert blob) r.table g) (R : Raw.Record) (m : WorldMap)
    (hR : R ∈ r.table.toList) (hm : (r.convert blob R).outcome = .ok (some m)) :
    (∀ c k conn, m.chunk = some c → Dict.find? c k = some conn → ∃ d raw, k = Direction.name d ∧
      lastConnection R.data.connectionList k = some raw ∧ conn.offset = raw.offset ∧
      Refers r blob g raw.map conn.location ∧
      (⟨m.id, d, conn.location⟩ ∈ g.dangling ↔ g.get? conn.location = none) ∧
      (g.get? conn.location = none ↔ ∀ T ∈ r.table.toList, ∀ x,
        (r.convert blob T).outcome = .ok (some x) → x.id.key ≠ conn.location.key)) ∧
    ∀ k e, m.warps.find? k = some e → ∃ i w, k = numbered "warp" i ∧
      R.data.warpList[i]? = some w ∧ Refers r blob g w.destination e.location := by
  obtain ⟨_, connected, warped⟩ := convert_parts hm
  constructor
  · intro c k conn present found
    rw [present] at connected
    obtain ⟨d, raw, rfl, last, located, offset⟩ := chunk_find connected found
    exact ⟨d, raw, rfl, last, offset, refers_of_located assembled located,
      assembled.mem_dangling_iff hR hm present found, assembled.get_eq_none_iff⟩
  · intro k e found
    obtain ⟨i, w, rfl, hw⟩ := warps_find_number warped found
    have resolved := warps_find warped hw
    rw [found] at resolved
    obtain ⟨_, _, located, rfl⟩ := warp_kept resolved
    exact ⟨i, w, rfl, hw, refers_of_located assembled located⟩

/-- A place with two connections upwards, of which the later counts, and one to a map that there is
not. -/
def crossroads : Raw.Record :=
  cell "MAP_CROSSROADS" "Crossroads" [⟨utf8 "up", utf8 "MAP_HOUSE", 1⟩,
    ⟨utf8 "left", utf8 "MAP_NOWHERE", 2⟩, ⟨utf8 "up", utf8 "MAP_TOWN", -4⟩] []

theorem crossroads_references :
    let r := cellResolver [town, house, crossroads]
    ∃ g m, Yields (r.convert cellBlob) r.table g ∧
      (r.convert cellBlob crossroads).outcome = .ok (some m) ∧
      ∃ c up left, m.chunk = some c ∧ Dict.find? c (utf8 "up") = some up ∧
        Dict.find? c (utf8 "left") = some left ∧ up.offset = -4 ∧
        (∀ n, (r.convert cellBlob town).outcome = .ok (some n) → g.get? up.location = some n) ∧
        ⟨m.id, .left, left.location⟩ ∈ g.dangling := by
  intro r
  obtain ⟨g, assembled⟩ : ∃ g, Yields (r.convert cellBlob) r.table g :=
    Assembly.yields_of_consistent (Assembly.consistent_iff.mpr (by decide +kernel))
  have hm : (r.convert cellBlob crossroads).outcome =
      .ok (some ((Assembly.mapOf (r.convert cellBlob) crossroads).getD default)) := by
    decide +kernel
  obtain ⟨connections, _⟩ := references_follow_locations r cellBlob g assembled crossroads _
    (by decide +kernel) hm
  have present : ((Assembly.mapOf (r.convert cellBlob) crossroads).getD default).chunk =
      some ((Dict.empty.insert (utf8 "left") ⟨⟨utf8 "unnamed", utf8 "NOWHERE"⟩, 2⟩).insert
        (utf8 "up") ⟨⟨utf8 "unnamed", utf8 "TOWN"⟩, -4⟩) := by decide +kernel
  have up := connections _ (utf8 "up") _ present rfl
  have left := connections _ (utf8 "left") _ present rfl
  refine ⟨g, _, assembled, hm, _, _, _, present, rfl, rfl, rfl, ?_, ?_⟩
  · intro n hn
    obtain ⟨_, raw, _, last, _, refers, _⟩ := up
    cases last
    exact refers.own town n (by decide +kernel) hn
  · obtain ⟨d, _, direction, _, _, _, reported, absent⟩ := left
    have same : d = .left := by revert direction; cases d <;> decide
    subst same
    apply reported.mpr
    apply absent.mpr
    intro T hT x converted same
    have apart : ∀ T ∈ r.table.toList, ∀ x ∈ Assembly.mapOf (r.convert cellBlob) T,
        x.id.key ≠ utf8 "unnamed:NOWHERE" := by decide +kernel
    exact apart T hT x (Assembly.map_of_eq_some.mpr converted) same

/-- A record whose connection names one that there is not, and whose own identifier is shortened to
the same location. -/
def building : Raw.Record :=
  cell "MAP_ROUTE_ONE_BUILDING_TWO" "Building"
    [⟨utf8 "up", utf8 "MAP_ROUTE_ONE_BUNKER_TWO", 0⟩] []

/-- The connection to the absent record finds the building itself and is not reported. -/
theorem absent_target_bound_to_building :
    let r := cellResolver [building]
    ∃ g m, Yields (r.convert cellBlob) r.table g ∧
      (r.convert cellBlob building).outcome = .ok (some m) ∧
      r.table.get? (utf8 "MAP_ROUTE_ONE_BUNKER_TWO") = none ∧
      ∃ c conn, m.chunk = some c ∧ Dict.find? c (utf8 "up") = some conn ∧
        g.get? conn.location = some m ∧ ⟨m.id, .up, conn.location⟩ ∉ g.dangling := by
  intro r
  obtain ⟨g, assembled⟩ : ∃ g, Yields (r.convert cellBlob) r.table g :=
    Assembly.yields_of_consistent (Assembly.consistent_iff.mpr (by decide +kernel))
  have hm : (r.convert cellBlob building).outcome =
      .ok (some ((Assembly.mapOf (r.convert cellBlob) building).getD default)) := by decide +kernel
  have present : ((Assembly.mapOf (r.convert cellBlob) building).getD default).chunk =
      some (Dict.empty.insert (utf8 "up") ⟨⟨utf8 "unnamed", utf8 "ROUTE_ONE_BU_TWO"⟩, 0⟩) := by
    decide +kernel
  have found : g.get? ⟨utf8 "unnamed", utf8 "ROUTE_ONE_BU_TWO"⟩ =
      some ((Assembly.mapOf (r.convert cellBlob) building).getD default) :=
    assembled.get_eq_some_iff.mpr ⟨building, by decide +kernel, hm, by decide +kernel⟩
  refine ⟨g, _, assembled, hm, by decide +kernel, _, _, present, rfl, found, ?_⟩
  intro reported
  have absent := (Graph.mem_dangling_iff.mp reported).1
  rw [found] at absent
  cases absent

end Resolver

end Overworld
