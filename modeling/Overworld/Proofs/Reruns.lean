import Overworld.Generation
import Overworld.Proofs.CrossReferences
import Overworld.Proofs.SnapshotCache
import Overworld.Proofs.SourceDirectories

/-!
# Runs that are repeated

A run that succeeded can be repeated from the snapshot that it left. Of the source the second run
needs only the tiles of the maps. It succeeds whatever the number of its workers and the order of
their steps, and it writes the same files.
-/

set_option autoImplicit false

namespace Overworld

/-! ## Files of a source -/

namespace Source

variable {fs fs' : FileSystem} {root path contents : Bytes}

/-- What was fetched from a source is still there after a graph was written to a directory that
neither covers the source nor stands in it. -/
theorem fetch_file_kept {g : Graph} {dir runId : Bytes} {listed : Manifest}
    (h : (g.write dir runId).Gives fs listed fs')
    (outside : ¬ FileSystem.Covers (fs.placeOf dir) (fs.placeOf root))
    (outside' : ¬ FileSystem.Covers (fs.placeOf root) (fs.placeOf dir))
    (fetched : fetchFile fs root path = .ok contents) : fetchFile fs' root path = .ok contents := by
  unfold fetchFile at fetched ⊢
  cases stays : leaves (relative path) with
  | true =>
    rw [stays] at fetched
    exact absurd fetched (fail_ne_ok _ _)
  | false =>
    rw [stays] at fetched
    have inside : ¬ Path.Escapes (Path.components path) :=
      fun escapes => by simp [leaves_relative.mpr escapes] at stays
    have place := place_of_relative inside fs root
    have read := in_step_eq_ok.mp fetched
    have spared : FileSystem.Spares (Path.join [root, relative path]) fs fs' := by
      apply Graph.write_spares h
      intro name
      rw [place]
      exact FileSystem.key_ne_of_apart outside outside' name
    exact in_step_eq_ok.mpr (spared.read read)

end Source

/-! ## Assembly in any order -/

namespace Assembly

variable {convert convert' : Converter} {t : Raw.Table} {g : Graph} {workers : Nat} {p : Pool}

theorem outcome_eq_error {f : Failure} : p.outcome = .error f ↔ p.shared.kept = some f := by
  unfold Pool.outcome
  cases p.shared.kept <;> simp

theorem graph_eq_of_perm {g g' : Graph} (h : g.maps.entries.Perm g'.maps.entries) : g = g' := by
  have same : g.maps = g'.maps := Dict.ext_perm h
  cases g
  cases g'
  cases same
  rfl

/-- Consistent records make up one graph, which every complete run hands out. -/
theorem outcome_of_consistent (consistent : Consistent convert t.toList) :
    ∃ g : Graph, g.maps.entries.Perm ((t.toList.filterMap (mapOf convert)).map entry) ∧
      ∀ workers p, Pool.Run convert workers (.start t.toList) p → p.Complete →
        p.outcome = .ok g := by
  obtain ⟨g, yields⟩ := yields_of_consistent consistent
  refine ⟨g, yields.entries, ?_⟩
  intro workers p run done
  cases ended : p.outcome with
  | ok g' =>
    have other : Yields convert t g' := ⟨workers, p, run, done, ended⟩
    rw [graph_eq_of_perm (other.entries.trans yields.entries.symm)]
  | error f =>
    obtain ⟨records, sound⟩ := run_sound (table_nodup t) run
    have fault := sound.kept f (outcome_eq_error.mp ended)
    rw [records] at fault
    exact absurd consistent (fault_not_consistent fault)

theorem consistent_of_outcome (run : Pool.Run convert workers (.start t.toList) p)
    (done : p.Complete) (ended : p.outcome = .ok g) : Consistent convert t.toList := by
  obtain ⟨records, sound⟩ := run_sound (table_nodup t) run
  have consistent := complete_consistent sound done (outcome_eq_ok.mp ended).1
  rwa [records] at consistent

/-- Records that could be added one after the other are consistent, also with what was there. -/
theorem consistent_of_added {rs : List Raw.Record} {g g' : Graph}
    (h : (addRecords convert rs g).outcome = .ok g') :
    (∀ r ∈ rs, ∃ x, (convert r).outcome = .ok x) ∧
      (g.keys ++ (rs.filterMap (mapOf convert)).map (·.id.key)).Nodup := by
  induction rs generalizing g with
  | nil => simpa [Graph.keys] using g.maps.keys_nodup
  | cons r rs ih =>
    obtain ⟨next, added, rest⟩ := Traced.bind_eq_ok.mp h
    obtain ⟨others, distinct⟩ := ih rest
    rw [add_record_outcome] at added
    cases converted : (convert r).outcome with
    | error f =>
      rw [converted] at added
      cases added
    | ok x =>
      refine ⟨List.forall_mem_cons.mpr ⟨⟨x, converted⟩, others⟩, ?_⟩
      rw [converted] at added
      cases x with
      | none =>
        cases added
        have skipped : mapOf convert r = none := by simp [mapOf, converted]
        rwa [List.filterMap_cons_none skipped]
      | some m =>
        rw [List.filterMap_cons_some (map_of_eq_some.mpr converted), List.map_cons]
        cases free : g.maps.find? m.id.key with
        | some y =>
          simp only [Graph.insertIfAbsent, free] at added
          cases added
        | none =>
          simp only [Graph.insertIfAbsent, free] at added
          cases added
          refine (List.Perm.nodup_iff ?_).mpr distinct
          refine List.perm_middle.trans ?_
          exact (((Dict.insert_perm free m).map Prod.fst).append_right _).symm

/-- Adding the records one after the other gives a graph exactly if they are consistent, and then
the one that every complete run hands out. -/
theorem assemble_eq_ok : (assemble convert t false).outcome = .ok g ↔
    Consistent convert t.toList ∧
      g.maps.entries.Perm ((t.toList.filterMap (mapOf convert)).map entry) := by
  rw [assemble_outcome]
  have both : Consistent convert t.toList → ∃ g' : Graph,
      (addRecords convert t.toList Graph.empty).outcome = .ok g' ∧
        g'.maps.entries.Perm ((t.toList.filterMap (mapOf convert)).map entry) := by
    rintro ⟨ok, distinct⟩
    obtain ⟨g', added, perm⟩ := add_records_outcome (g := Graph.empty) ok
      (by simpa [Graph.keys, Graph.empty, Dict.keys, Dict.empty] using distinct)
    exact ⟨g', added, by simpa [Graph.empty, Dict.empty] using perm⟩
  constructor
  · intro added
    obtain ⟨ok, distinct⟩ := consistent_of_added added
    have consistent : Consistent convert t.toList :=
      ⟨ok, by simpa [Graph.keys, Graph.empty, Dict.keys, Dict.empty] using distinct⟩
    obtain ⟨g', added', perm⟩ := both consistent
    cases added.symm.trans added'
    exact ⟨consistent, perm⟩
  · rintro ⟨consistent, perm⟩
    obtain ⟨g', added, perm'⟩ := both consistent
    rw [added, graph_eq_of_perm (perm'.trans perm.symm)]

theorem report_dangling_outcome (ds : List Graph.Dangling) :
    (ds.forM reportDangling).outcome = .ok () := by
  induction ds with
  | nil => rfl
  | cons d ds ih =>
    show (reportDangling d >>= fun _ => ds.forM reportDangling).outcome = _
    exact Traced.bind_eq_ok.mpr ⟨(), rfl, ih⟩

theorem build_eq_ok {convert : Raw.Table → Converter} :
    (build convert t false).outcome = .ok g ↔ (assemble (convert t) t false).outcome = .ok g := by
  simp only [build, Traced.bind_eq_ok, Traced.outcome_report, Traced.outcome_within,
    in_step_eq_ok, report_dangling_outcome, Traced.outcome_pure, Except.ok.injEq]
  simp

theorem consistent_congr (same : ∀ r ∈ t.toList, convert' r = convert r) :
    (Consistent convert' t.toList ↔ Consistent convert t.toList) ∧
      t.toList.filterMap (mapOf convert') = t.toList.filterMap (mapOf convert) := by
  have maps : t.toList.filterMap (mapOf convert') = t.toList.filterMap (mapOf convert) := by
    apply List.filterMap_congr
    intro r mem
    rw [mapOf, mapOf, same r mem]
  refine ⟨?_, maps⟩
  unfold Consistent
  rw [maps]
  apply and_congr_left'
  apply forall₂_congr
  intro r mem
  rw [same r mem]

end Assembly

namespace Resolver

variable {r : Resolver} {blob blob' : Bytes → Except Failure Bytes} {record : Raw.Record}

theorem convert_congr (tiles : blob' record.layout.tilesPath = blob record.layout.tilesPath)
    (border : blob' record.layout.borderPath = blob record.layout.borderPath) :
    r.convert blob' record = r.convert blob record := by
  unfold convert
  rw [tiles, border]

theorem convert_fetched {x : Option WorldMap} (h : (r.convert blob record).outcome = .ok x) :
    (∃ b, blob record.layout.tilesPath = .ok b) ∧ ∃ b, blob record.layout.borderPath = .ok b := by
  obtain ⟨tiles, fetched, h⟩ := Traced.bind_eq_ok.mp h
  obtain ⟨border, fetched', _⟩ := Traced.bind_eq_ok.mp h
  exact ⟨⟨tiles, fetched⟩, border, fetched'⟩

end Resolver

/-! ## How runs end -/

namespace Generation

open Assembly (Pool Consistent)
open FileSystem (Covers Vacant)

variable {workers workers' : Nat} {plan : Plan} {fetch fetch' : FileSystem → Source.Fetch}
  {fs fs' : FileSystem} {t : Raw.Table} {g : Graph} {manifest : Manifest}
  {outcome : Except Failure Manifest}

/-- A source that is a directory. -/
def tree (root : Bytes) (fs : FileSystem) : Source.Fetch := Source.fetchFile fs root

/-- The table of a run, from the snapshot or the source. -/
def loaded (plan : Plan) (fetch : FileSystem → Source.Fetch) (fs : FileSystem) :
    Ended Raw.Table :=
  Snapshot.loadOrBuild plan.writer plan.snapshot (retrieve fetch) fs

/-- How a run converts the records of its table. -/
def converter (plan : Plan) (fetch : FileSystem → Source.Fetch) (fs : FileSystem)
    (t : Raw.Table) : Converter :=
  Resolver.convert ⟨t, plan.mappings⟩ (Source.fetchBlob (fetch fs))

/-- How a run can end: without a table, without a graph, or with what writing the graph comes to.
The records are converted by a number of workers, whose steps come in any order. -/
inductive Ends (workers : Nat) (plan : Plan) (fetch : FileSystem → Source.Fetch)
    (fs : FileSystem) : Except Failure Manifest → FileSystem → Prop
  | unloaded {e : Failure} (failed : (loaded plan fetch fs).outcome = .error e) :
      Ends workers plan fetch fs (.error (e.within "loading raw maps")) (loaded plan fetch fs).files
  | unassembled {t : Raw.Table} {p : Pool} {e : Failure}
      (given : (loaded plan fetch fs).outcome = .ok t)
      (run : Pool.Run (converter plan fetch (loaded plan fetch fs).files t) workers
        (.start t.toList) p)
      (done : p.Complete) (failed : p.outcome = .error e) :
      Ends workers plan fetch fs (.error (e.within "assembling world graph"))
        (loaded plan fetch fs).files
  | written {t : Raw.Table} {p : Pool} {g : Graph}
      (given : (loaded plan fetch fs).outcome = .ok t)
      (run : Pool.Run (converter plan fetch (loaded plan fetch fs).files t) workers
        (.start t.toList) p)
      (done : p.Complete) (assembled : p.outcome = .ok g) :
      Ends workers plan fetch fs
        (g.write plan.output plan.runId (loaded plan fetch fs).files).outcome
        (g.write plan.output plan.runId (loaded plan fetch fs).files).files

theorem ends_ok (h : Ends workers plan fetch fs (.ok manifest) fs') :
    ∃ (t : Raw.Table) (g : Graph), (loaded plan fetch fs).outcome = .ok t ∧
      Consistent (converter plan fetch (loaded plan fetch fs).files t) t.toList ∧
      g.maps.entries.Perm ((t.toList.filterMap (Assembly.mapOf
        (converter plan fetch (loaded plan fetch fs).files t))).map Assembly.entry) ∧
      (g.write plan.output plan.runId).Gives (loaded plan fetch fs).files manifest fs' := by
  generalize ended : (Except.ok manifest : Except Failure Manifest) = outcome at h
  cases h with
  | unloaded failed => cases ended
  | unassembled given run done failed => cases ended
  | @written t p g given run done assembled =>
    exact ⟨t, g, given, Assembly.consistent_of_outcome run done assembled,
      Assembly.Yields.entries ⟨workers, p, run, done, assembled⟩, ended.symm, rfl⟩

/-! ## The snapshot that a run leaves -/

theorem loaded_eq (plan : Plan) (fetch : FileSystem → Source.Fetch) (fs : FileSystem) :
    loaded plan fetch fs = Snapshot.loadOrBuild plan.writer plan.snapshot
      (Action.ofTraced (Source.retrieve (fetch fs))) fs := by
  have same : retrieve fetch fs = Action.ofTraced (Source.retrieve (fetch fs)) fs := rfl
  unfold loaded
  cases read : (Snapshot.load plan.snapshot fs).outcome with
  | ok t => rw [Snapshot.load_or_build_hit read, Snapshot.load_or_build_hit read]
  | error f =>
    cases recoverable : Snapshot.isRecoverable f with
    | false =>
      rw [Snapshot.load_or_build_crash read recoverable,
        Snapshot.load_or_build_crash read recoverable]
    | true =>
      rw [Snapshot.load_or_build_miss read recoverable,
        Snapshot.load_or_build_miss read recoverable]
      cases built : (Source.retrieve (fetch fs)).outcome with
      | error e =>
        rw [Snapshot.rebuild_failed (e := e) (same ▸ built), Snapshot.rebuild_failed (e := e) built,
          same]
      | ok t =>
        rw [Snapshot.rebuild_built (t := t) (same ▸ built), Snapshot.rebuild_built (t := t) built,
          same]

/-- After a table was loaded, the snapshot at the path is one of it. -/
theorem loaded_contents (grounded : fs.Grounded) (keeps : plan.writer.Keeps t)
    (given : (loaded plan fetch fs).outcome = .ok t) :
    (loaded plan fetch fs).files.start = fs.start ∧
      ∃ bytes, (loaded plan fetch fs).files.contents? plan.snapshot = some bytes ∧
        Snapshot.decode bytes = .ok t := by
  rw [loaded_eq] at given ⊢
  cases read : (Snapshot.load plan.snapshot fs).outcome with
  | ok t' =>
    rw [Snapshot.load_or_build_hit read] at given ⊢
    cases given
    obtain ⟨bytes, found, decoded⟩ := Snapshot.holds_iff.mpr read
    exact ⟨rfl, bytes, (FileSystem.read_file_eq_ok.mp found).2, decoded⟩
  | error f =>
    cases recoverable : Snapshot.isRecoverable f with
    | false =>
      rw [Snapshot.load_or_build_crash read recoverable] at given
      cases given
    | true =>
      cases built : (Source.retrieve (fetch fs)).outcome with
      | error e =>
        rw [Snapshot.load_or_build_miss read recoverable,
          Snapshot.rebuild_failed (e := e) built] at given
        cases given
      | ok t' =>
        obtain ⟨files, _, ended⟩ :=
          Snapshot.load_or_build_new read recoverable built plan.writer
        rw [ended] at given
        rw [files]
        rcases Snapshot.save_spec grounded plan.writer plan.snapshot t' with
          unsaved | ⟨contents, encoded, saved⟩
        · obtain ⟨e, failed⟩ := unsaved.failed
          rw [failed] at given
          cases given
        · rw [saved.done] at given
          cases given
          obtain ⟨target, located, other, placed⟩ := saved.placed
          rw [placed]
          refine ⟨(FileSystem.mkdir_all_furnished fs _).1.start, _,
            FileSystem.contents_put located other _, Snapshot.decode_encode keeps encoded⟩

/-! ## The second run -/

/-- Where the snapshot holds the table, the second run loads it and changes nothing. -/
theorem loaded_held (plan : Plan) (held : Snapshot.Holds plan.snapshot fs t)
    (fetch : FileSystem → Source.Fetch) :
    (loaded plan fetch fs).outcome = .ok t ∧ (loaded plan fetch fs).files = fs := by
  have read := Snapshot.holds_iff.mp held
  unfold loaded
  rw [Snapshot.load_or_build_hit read]
  exact ⟨rfl, rfl⟩

/-- A run whose records are consistent comes to what writing their graph comes to, with any number
of workers and in any order. -/
theorem ends_of_consistent (hw : 1 ≤ workers) (given : (loaded plan fetch fs).outcome = .ok t)
    (consistent : Consistent (converter plan fetch (loaded plan fetch fs).files t) t.toList)
    (entries : g.maps.entries.Perm ((t.toList.filterMap (Assembly.mapOf
      (converter plan fetch (loaded plan fetch fs).files t))).map Assembly.entry)) :
    let ended := g.write plan.output plan.runId (loaded plan fetch fs).files
    Ends workers plan fetch fs ended.outcome ended.files ∧
      ∀ outcome fs', Ends workers plan fetch fs outcome fs' →
        outcome = ended.outcome ∧ fs' = ended.files := by
  intro ended
  obtain ⟨g', entries', every⟩ := Assembly.outcome_of_consistent consistent
  obtain rfl : g' = g := Assembly.graph_eq_of_perm (entries'.trans entries.symm)
  obtain ⟨p, run, done⟩ : ∃ p, Pool.Run (converter plan fetch (loaded plan fetch fs).files t)
      workers (.start t.toList) p ∧ p.Complete :=
    Assembly.run_completes hw (Assembly.table_nodup t) .refl
  refine ⟨.written given run done (every workers p run done), ?_⟩
  intro outcome fs' h
  cases h with
  | unloaded failed => cases given.symm.trans failed
  | unassembled given' run done failed =>
    cases given.symm.trans given'
    cases (every _ _ run done).symm.trans failed
  | written given' run done assembled =>
    cases given.symm.trans given'
    cases (every _ _ run done).symm.trans assembled
    exact ⟨rfl, rfl⟩

theorem gives_run : (run plan fetch).Gives fs manifest fs' ↔
    ∃ t g, (loaded plan fetch fs).outcome = .ok t ∧
      (Assembly.assemble (converter plan fetch (loaded plan fetch fs).files t) t false).outcome =
        .ok g ∧
      (g.write plan.output plan.runId).Gives (loaded plan fetch fs).files manifest fs' := by
  have traced : ∀ {α : Type} (x : Traced α) (y : α) (a b : FileSystem),
      (Action.ofTraced x).Gives a y b ↔ x.outcome = .ok y ∧ a = b := fun _ _ _ _ => Iff.rfl
  have asked : ∀ a b c : FileSystem, Action.files.Gives a b c ↔ a = b ∧ a = c := by
    intro a b c
    simp [Action.Gives, Action.files]
  simp only [run, build, Action.report, Action.gives_bind, Action.gives_within, traced, asked,
    Action.gives_pure]
  constructor
  · rintro ⟨g, _, ⟨t, _, ⟨given, rfl⟩, _, _, ⟨rfl, rfl⟩, assembled, rfl⟩, _, _, wrote, _, _,
      ⟨_, rfl⟩, rfl, rfl⟩
    exact ⟨t, g, given, Assembly.build_eq_ok.mp assembled, wrote⟩
  · rintro ⟨t, g, given, assembled, wrote⟩
    have built : (Assembly.build (converter plan fetch (loaded plan fetch fs).files) t
        false).outcome = .ok g := Assembly.build_eq_ok.mpr assembled
    exact ⟨g, _, ⟨t, _, ⟨given, rfl⟩, _, _, ⟨rfl, rfl⟩, built, rfl⟩, _, _, wrote, (), _,
      ⟨rfl, rfl⟩, rfl, rfl⟩

/-- A run succeeds with workers exactly as it does when the records are converted one by one. -/
theorem ends_ok_iff_run (hw : 1 ≤ workers) :
    Ends workers plan fetch fs (.ok manifest) fs' ↔ (run plan fetch).Gives fs manifest fs' := by
  rw [gives_run]
  constructor
  · intro h
    obtain ⟨t, g, given, consistent, entries, wrote⟩ := ends_ok h
    exact ⟨t, g, given, Assembly.assemble_eq_ok.mpr ⟨consistent, entries⟩, wrote⟩
  · rintro ⟨t, g, given, assembled, wrote⟩
    obtain ⟨consistent, entries⟩ := Assembly.assemble_eq_ok.mp assembled
    have ends := (ends_of_consistent hw given consistent entries).1
    rwa [wrote.1, wrote.2] at ends

/-- A second run converts each record as the first did, if the tiles are as the first left them. -/
theorem converter_again {plan' : Plan} {root : Bytes} {fs₁ fs₂ : FileSystem}
    (outside : ¬ Covers (fs.placeOf plan.output) (fs.placeOf root))
    (outside' : ¬ Covers (fs.placeOf root) (fs.placeOf plan.output))
    (mappings : plan'.mappings = plan.mappings)
    (wrote : (g.write plan.output plan.runId).Gives fs manifest fs₁)
    (consistent : Consistent (converter plan (tree root) fs t) t.toList)
    (blobs : ∀ r ∈ t.toList, ∀ path ∈ [r.layout.tilesPath, r.layout.borderPath],
      fetch' fs₂ path = tree root fs₁ path) :
    ∀ r ∈ t.toList, converter plan' fetch' fs₂ t r =
      converter plan (tree root) fs t r := by
  intro r mem
  have agree : ∀ path ∈ [r.layout.tilesPath, r.layout.borderPath],
      (∃ b, Source.fetchBlob (tree root fs) path = .ok b) →
      Source.fetchBlob (fetch' fs₂) path = Source.fetchBlob (tree root fs) path := by
    rintro path named ⟨b, fetched⟩
    have before : tree root fs path = .ok b := in_step_eq_ok.mp fetched
    have after : tree root fs₁ path = .ok b :=
      Source.fetch_file_kept wrote outside outside' before
    have again := (blobs r mem path named).trans (after.trans before.symm)
    exact congrArg (inStep _) again
  obtain ⟨x, converted⟩ := consistent.1 r mem
  obtain ⟨tiles, border⟩ := Resolver.convert_fetched converted
  unfold converter
  rw [mappings]
  exact Resolver.convert_congr (agree _ (by simp) tiles) (agree _ (by simp) border)

/-- The file system with more files, and the directories that these need. -/
def furnish (files : List (Bytes × Bytes)) (fs : FileSystem) : FileSystem :=
  files.foldl (fun fs f => ((fs.mkdirAll (Path.directory f.1)).files.writeFile f.1 f.2).files) fs

theorem furnish_grounded (files : List (Bytes × Bytes)) (h : fs.Grounded) :
    (furnish files fs).Grounded := by
  induction files generalizing fs with
  | nil => exact h
  | cons f files ih =>
    apply ih
    apply FileSystem.write_file_grounded
    exact (FileSystem.mkdir_all_furnished fs _).1.grounded h

theorem write_file_refuses (fs : FileSystem) (p s : Bytes) :
    (fs.writeFile p s).files.refuses = fs.refuses := by
  rcases FileSystem.write_file_cases fs p s with ⟨f, failed⟩ | ⟨place, _, _, done⟩
  · rw [failed]
  · rw [done]
    rfl

theorem furnish_refuses (files : List (Bytes × Bytes)) (fs : FileSystem) :
    (furnish files fs).refuses = fs.refuses := by
  induction files generalizing fs with
  | nil => rfl
  | cons f files ih =>
    refine (ih _).trans ((write_file_refuses _ _ _).trans ?_)
    exact (FileSystem.mkdir_all_furnished fs _).1.refuses

/-- The documents of a source of one map. -/
def islandDocuments : List (Bytes × Bytes) :=
  [(utf8 "src/data/layouts/layouts.json", utf8 ("\x7b\"layouts\": [\x7b\"id\": \"L\", " ++
      "\"width\": 1, \"height\": 1, \"border_filepath\": \"b\", " ++
      "\"blockdata_filepath\": \"t\"\x7d]\x7d")),
    (utf8 "src/data/maps/map_groups.json",
      utf8 "\x7b\"group_order\": [\"g\"], \"g\": [\"Isle\"]\x7d"),
    (utf8 "src/data/maps/Isle/map.json",
      utf8 "\x7b\"id\": \"MAP_ISLE\", \"name\": \"Isle\", \"layout\": \"L\"\x7d")]

def islandTiles : List (Bytes × Bytes) :=
  [(utf8 "src/t", [1, 4]), (utf8 "src/b", [1, 0, 2, 0, 3, 0, 4, 0])]

def island : FileSystem := furnish (islandDocuments ++ islandTiles) .empty

def islandPlan : Plan :=
  ⟨.empty, utf8 "cache/raw.bin", utf8 "one", utf8 "first", Snapshot.Writer.checked⟩

def islandRecord : Raw.Record where
  data := ⟨utf8 "MAP_ISLE", utf8 "Isle", utf8 "L", [], none, none, none⟩
  layout := ⟨utf8 "L", [], 1, 1, [], [], utf8 "b", utf8 "t"⟩

/-- The files after a run on the island. -/
def islandWritten : FileSystem := (run islandPlan (tree (utf8 "src")) island).files

/-- The snapshot of the island and its tiles, without the documents. -/
def islandCached : FileSystem :=
  furnish (islandTiles ++ [(islandPlan.snapshot,
    (islandWritten.contents? islandPlan.snapshot).getD [])]) .empty

end Generation

end Overworld
