import Overworld.Proofs.FileTrees
import Overworld.Proofs.WrittenFiles
import Overworld.Source.Directory

/-!
# Directories that a graph is written to

A graph that could be written to one directory can be written to every other one that takes files
and has nothing in it. What stands neither in the directory nor below it can be read as before.
-/

set_option autoImplicit false

namespace Overworld

namespace Path

variable {place : List Bytes} {p dir name : Bytes} {b : UInt8}

theorem follow_folder (root : isRooted dir = true → place = []) :
    follow place (folder dir) = follow place (components dir) := by
  have same := follow_reduce root (components dir)
  rw [← same, folder, follow_append]
  cases isRooted dir <;> rfl

theorem follow_clean (root : isRooted p = true → place = []) :
    follow place (components (clean p)) = follow place (components p) := by
  have same := follow_reduce root (components p)
  rw [← same, components_clean, follow_append]
  by_cases nothing : reduce (isRooted p) (components p) = []
  · rw [if_pos nothing, nothing]
    cases isRooted p <;> rfl
  · rw [if_neg nothing]
    cases isRooted p <;> rfl

theorem mem_name_join (named : IsName name) (h : b ∈ name) : b ∈ join [dir, name] := by
  have part : name ∈ components (join [dir, name]) := by simp [(join_name named dir).1]
  exact Bytes.mem_of_mem_split_on part h

theorem join_pair (used : name ≠ []) :
    join [dir, name] = clean (if dir = [] then name else dir ++ slash :: name) := by
  by_cases here : dir = [] <;> simp [join, here, used, Bytes.join]

theorem mem_join_pair (used : name ≠ []) (h : b ∈ join [dir, name]) :
    b ∈ dir ∨ b ∈ name ∨ b = slash ∨ b = 0x2E := by
  rw [join_pair used] at h
  rcases mem_clean h with inside | other
  · split at inside
    · exact .inr (.inl inside)
    · simp only [List.mem_append, List.mem_cons] at inside
      tauto
  · exact .inr (.inr other)

theorem join_name_last (named : IsName name) (dir : Bytes) :
    (join [dir, name]).getLast? ≠ some slash := by
  intro ends
  obtain ⟨before, whole⟩ := List.getLast?_eq_some_iff.mp ends
  have split := (join_name named dir).1
  rw [whole, components, Bytes.split_on_append] at split
  have last : name = [] := by simpa [Bytes.splitOn] using (congrArg List.getLast? split).symm
  exact named.some last

end Path

namespace FileSystem

open Overworld.Path (IsName folder follow)

variable {fs fs' : FileSystem} {dir name p s : Bytes} {d q : List Bytes} {e : FileEntry}

/-- The place that a path names, whatever stands there. -/
def placeOf (fs : FileSystem) (p : Bytes) : List Bytes := follow (fs.origin p) (Path.components p)

theorem origin_rooted (h : Path.isRooted p = true) : fs.origin p = [] := if_pos h

theorem place_of_clean (fs : FileSystem) (p : Bytes) :
    fs.placeOf (Path.clean p) = fs.placeOf p := by
  rw [placeOf, origin, Path.is_rooted_clean]
  exact Path.follow_clean origin_rooted

theorem locate_place_of (h : fs.locate p = .ok q) : q = fs.placeOf p :=
  (walk_follow (locate_eq_ok.mp h).2.2).1

theorem folder_place_of (h : fs.folderPlace dir = .ok d) : d = fs.placeOf dir :=
  (walk_follow h).1.trans (Path.follow_folder origin_rooted)

/-- The shortest form of a path that leads to a directory leads there too. -/
theorem folder_place_directory (h : fs.Grounded) (found : fs.lookup dir = .ok .directory) :
    fs.folderPlace dir = .ok (fs.placeOf dir) ∧ fs.at? (fs.placeOf dir) = some .directory := by
  obtain ⟨q, located, directory⟩ := lookup_eq_ok.mp found
  have start := locate_origin located
  have short := (walk_follow (locate_eq_ok.mp located).2.2).2
  rw [locate_place_of located] at directory
  refine ⟨?_, directory⟩
  have reduced := walk_reduce h origin_rooted start short directory
  refine walk_append.mpr ⟨fs.origin dir, ?_, reduced⟩
  change fs.walk (fs.origin dir) _ = _
  cases Path.isRooted dir with
  | false => rfl
  | true => exact walk_cons.mpr ⟨start, _, rfl, rfl⟩

/-! ## Places that do not meet -/

/-- One place is another or stands somewhere above it. -/
def Covers (outer inner : List Bytes) : Prop :=
  outer = [] ∨ key outer = key inner ∨ key outer ++ [Path.slash] <+: key inner

theorem key_append (used : d ≠ []) (used' : q ≠ []) :
    key (d ++ q) = key d ++ Path.slash :: key q := by
  induction d with
  | nil => exact absurd rfl used
  | cons c d ih =>
    by_cases last : d = []
    · subst last
      simp [key, Bytes.join_cons used', Bytes.join]
    · have rest : d ++ q ≠ [] := by simp [last]
      have tail := ih last
      simp only [key] at tail ⊢
      rw [List.cons_append, Bytes.join_cons rest, tail, Bytes.join_cons last]
      simp

theorem begins_key (used : d ≠ []) (used' : q ≠ []) :
    key d ++ [Path.slash] <+: key (d ++ q) := by
  rw [key_append used used']
  exact ⟨key q, by simp⟩

theorem covers_of_begins (h : key d ++ [Path.slash] <+: key q ++ [Path.slash]) : Covers d q := by
  rcases List.prefix_concat_iff.mp h with same | below
  · exact .inr (.inl (List.append_cancel_right same))
  · exact .inr (.inr below)

/-- A file below a place that the directory does not cover is none of the directory's own. -/
theorem key_ne_of_apart {place names : List Bytes} (outside : ¬ Covers d place)
    (outside' : ¬ Covers place d) (name : Bytes) : key (d ++ [name]) ≠ key (place ++ names) := by
  intro same
  have used : d ≠ [] := fun top => outside (.inl top)
  have used' : place ≠ [] := fun top => outside' (.inl top)
  have below := begins_key used (List.cons_ne_nil name [])
  by_cases nothing : names = []
  · rw [same, nothing, List.append_nil] at below
    exact outside (.inr (.inr below))
  · have below' := begins_key used' nothing
    rw [← same] at below'
    rcases List.prefix_or_prefix_of_prefix below below' with first | second
    · exact outside (covers_of_begins first)
    · exact outside' (covers_of_begins second)

theorem key_ne_of_not_covers {place : List Bytes} (outside : ¬ Covers d place) (name : Bytes) :
    key (d ++ [name]) ≠ key place := by
  intro same
  have used : d ≠ [] := fun top => outside (.inl top)
  have below := begins_key used (List.cons_ne_nil name [])
  rw [same] at below
  exact outside (.inr (.inr below))

/-! ## What stands elsewhere -/

/-- A change that lets be what stands at a path. -/
structure Spares (p : Bytes) (fs fs' : FileSystem) : Prop where
  start : fs'.start = fs.start
  refuses : fs'.refuses = fs.refuses
  contents : ∀ s, fs.contents? p = some s → fs'.contents? p = some s

theorem Spares.trans {fs'' : FileSystem} (h : Spares p fs fs') (h' : Spares p fs' fs'') :
    Spares p fs fs'' where
  start := h'.start.trans h.start
  refuses := h'.refuses.trans h.refuses
  contents s found := h'.contents s (h.contents s found)

theorem place_of_start (start : fs'.start = fs.start) (p : Bytes) :
    fs'.placeOf p = fs.placeOf p := by
  rw [placeOf, origin, start]
  rfl

theorem Spares.read (h : Spares p fs fs') (read : fs.readFile p = .ok s) :
    fs'.readFile p = .ok s := by
  obtain ⟨granted, found⟩ := read_file_eq_ok.mp read
  exact read_file_eq_ok.mpr ⟨by rw [h.refuses, granted], h.contents s found⟩

theorem spares (start : fs'.start = fs.start) (refuses : fs'.refuses = fs.refuses)
    (directories : ∀ q, fs.at? q = some .directory → fs'.at? q = some .directory)
    (file : ∀ s, fs.at? (fs.placeOf p) = some (.file s) →
      fs'.at? (fs.placeOf p) = some (.file s)) : Spares p fs fs' := by
  refine ⟨start, refuses, ?_⟩
  intro s found
  obtain ⟨q, located, stands⟩ := contents_eq_some.mp found
  obtain rfl := locate_place_of located
  refine contents_eq_some.mpr ⟨_, ?_, file s stands⟩
  rw [locate_eq_ok, origin] at located ⊢
  rw [start]
  exact ⟨located.1, located.2.1, walk_keeps directories located.2.2⟩

theorem Furnished.spares {place : List Bytes} (h : Furnished place fs fs') (p : Bytes) :
    Spares p fs fs' :=
  FileSystem.spares h.start h.refuses (fun _ => h.at_keeps) fun _ => h.at_keeps

theorem write_file_spares (named : IsName name)
    (apart : key (fs.placeOf dir ++ [name]) ≠ key (fs.placeOf p))
    (h : (fs.writeFile (Path.join [dir, name]) s).outcome = .ok ()) :
    Spares p fs (fs.writeFile (Path.join [dir, name]) s).files := by
  obtain ⟨place, located, free, written⟩ := write_file_ok h
  obtain ⟨_, d, leads, _, _, rfl⟩ := (locate_name named).mp located
  obtain rfl := folder_place_of leads
  rw [written]
  refine FileSystem.spares rfl rfl (put_keeps free s) ?_
  intro s' stands
  have used : fs.placeOf p ≠ [] := by
    intro top
    rw [top] at stands
    cases stands
  rw [at_put, if_neg used, if_neg (Ne.symm apart)]
  exact stands

/-! ## Directories that take files -/

/-- A name that files can have. -/
structure Fits (name : Bytes) : Prop where
  legal : 0 ∉ name
  short : name.length ≤ maxName

/-- A directory at a place, to which files of all names can be written. -/
structure Receives (fs : FileSystem) (dir : Bytes) (d : List Bytes) : Prop where
  legal : 0 ∉ dir
  leads : fs.folderPlace dir = .ok d
  directory : fs.at? d = some .directory
  granted : ∀ name, IsName name → fs.refuses .write (Path.join [dir, name]) = none
  free : ∀ name, IsName name → fs.at? (d ++ [name]) ≠ some .directory

theorem fits_of_written (named : IsName name)
    (h : (fs.writeFile (Path.join [dir, name]) s).outcome = .ok ()) : Fits name := by
  obtain ⟨_, located, _⟩ := write_file_ok h
  obtain ⟨legal, _, _, _, short, _⟩ := (locate_name named).mp located
  exact ⟨fun zero => legal (Path.mem_name_join named zero), short⟩

theorem Receives.locate (h : Receives fs dir d) (named : IsName name) (fits : Fits name) :
    fs.locate (Path.join [dir, name]) = .ok (d ++ [name]) := by
  refine (locate_name named).mpr ⟨?_, d, h.leads, h.directory, fits.short, rfl⟩
  intro zero
  rcases Path.mem_join_pair named.some zero with here | here | here | here
  · exact h.legal here
  · exact fits.legal here
  · revert here
    decide
  · revert here
    decide

theorem Receives.write (h : Receives fs dir d) (named : IsName name) (fits : Fits name)
    (s : Bytes) : fs.writeFile (Path.join [dir, name]) s =
      ⟨fs.put (d ++ [name]) (.file s), .ok ()⟩ := by
  have free := h.free name named
  rw [writeFile, h.granted name named, h.locate named fits]
  dsimp only
  split
  · rename_i directory
    exact absurd directory free
  · rw [if_neg (Path.join_name_last named dir)]

theorem Receives.put (h : Receives fs dir d) (named : IsName name) (s : Bytes) :
    Receives (fs.put (d ++ [name]) (.file s)) dir d := by
  have keeps := put_keeps (h.free name named) s
  refine ⟨h.legal, walk_keeps keeps h.leads, keeps d h.directory, h.granted, ?_⟩
  intro other named'
  rw [at_put, if_neg (by simp)]
  split
  · simp
  · exact h.free other named'

/-- Nothing has a name in a directory that nothing stands below. -/
theorem at_of_not_has_below (used : d ≠ []) (h : fs.hasBelow d = false) (name : Bytes) :
    fs.at? (d ++ [name]) = none := by
  rw [at_of_ne_nil (by simp), key_snoc used, Dict.find_eq_none_iff]
  intro mem
  have below := List.any_eq_false.mp h _ mem
  apply below
  have split : key d ++ Path.slash :: name = (key d ++ [Path.slash]) ++ name := by simp
  rw [split, Bytes.beginsWith, Bytes.drop_beginning_append]
  rfl

/-- A directory that can be made and written to, with nothing in it once it is made. -/
structure Vacant (fs : FileSystem) (dir : Bytes) : Prop where
  made : (fs.mkdirAll dir).outcome = .ok ()
  granted : ∀ name, IsName name → fs.refuses .write (Path.join [dir, name]) = none
  empty : ∀ name, IsName name → (fs.mkdirAll dir).files.at? (fs.placeOf dir ++ [name]) = none

theorem Vacant.receives (grounded : fs.Grounded) (h : Vacant fs dir) :
    Receives (fs.mkdirAll dir).files dir (fs.placeOf dir) := by
  obtain ⟨furnished, found⟩ := mkdir_all_furnished fs dir
  have lookup := found h.made
  obtain ⟨_, located, _⟩ := lookup_eq_ok.mp lookup
  obtain ⟨leads, directory⟩ := folder_place_directory (furnished.grounded grounded) lookup
  rw [place_of_start furnished.start] at leads directory
  refine ⟨(locate_eq_ok.mp located).1, leads, directory, ?_, ?_⟩
  · rw [furnished.refuses]
    exact h.granted
  · intro name named
    rw [h.empty name named]
    simp

end FileSystem

namespace Graph

open FileSystem (Fits Receives Vacant Spares)

variable {g : Graph} {dir runId p : Bytes} {fs fs' : FileSystem} {m : WorldMap}
  {ms : List WorldMap} {d : List Bytes} {listed : Manifest} {taken taken' : Digest.Running}

/-- A map whose document can be read back and whose file name files can have. -/
structure Ready (m : WorldMap) : Prop where
  loads : ∃ x, WorldMap.load m.render = .ok x
  fits : Fits m.id.fileName

/-! ## After a success -/

theorem write_maps_ready {es : List ManifestEntry}
    (h : (writeMaps WorldMap.render dir ms taken).Gives fs (es, taken') fs') :
    ∀ m ∈ ms, Ready m := by
  induction ms generalizing fs es taken with
  | nil => simp
  | cons m ms ih =>
    obtain ⟨_, between, first, others, _⟩ := gives_write_maps.mp h
    obtain ⟨loads, _, written, _⟩ := gives_write_map.mp first
    have ready : Ready m :=
      ⟨loads, FileSystem.fits_of_written m.id.file_name_is_name written⟩
    exact List.forall_mem_cons.mpr ⟨ready, ih others⟩

theorem write_maps_spare {es : List ManifestEntry}
    (h : (writeMaps WorldMap.render dir ms taken).Gives fs (es, taken') fs')
    (apart : ∀ name, FileSystem.key (fs.placeOf dir ++ [name]) ≠ FileSystem.key (fs.placeOf p)) :
    Spares p fs fs' := by
  induction ms generalizing fs es taken with
  | nil =>
    obtain ⟨_, rfl⟩ := Action.gives_pure.mp h
    exact ⟨rfl, rfl, fun _ => id⟩
  | cons m ms ih =>
    obtain ⟨_, between, first, others, _⟩ := gives_write_maps.mp h
    obtain ⟨_, _, written, rfl⟩ := gives_write_map.mp first
    have spared := FileSystem.write_file_spares m.id.file_name_is_name (apart _) written
    apply spared.trans
    apply ih others
    simpa only [FileSystem.place_of_start spared.start] using apart

/-- Writing a graph to a directory lets be what stands elsewhere. -/
theorem write_spares (h : (g.write dir runId).Gives fs listed fs')
    (apart : ∀ name, FileSystem.key (fs.placeOf dir ++ [name]) ≠ FileSystem.key (fs.placeOf p)) :
    Spares p fs fs' := by
  obtain ⟨_, _, _, between, maps, written, rfl⟩ := gives_write.mp h
  have made := (FileSystem.mkdir_all_furnished fs dir).1.spares p
  have spared : Spares p fs between := by
    apply made.trans
    apply write_maps_spare maps
    simpa only [FileSystem.place_of_start made.start] using apart
  apply spared.trans
  apply FileSystem.write_file_spares Manifest.file_name_is_name _ written
  simpa only [FileSystem.place_of_start spared.start] using apart Manifest.fileName

theorem write_ready (h : (g.write dir runId).Gives fs listed fs') : ∀ m ∈ g.toList, Ready m := by
  obtain ⟨_, _, _, _, maps, _⟩ := gives_write.mp h
  exact write_maps_ready maps

theorem write_manifest_contents {document : WorldMap → Bytes}
    (h : (g.writeWith document dir runId).Gives fs listed fs') :
    fs'.contents? (Path.join [dir, Manifest.fileName]) = some listed.render := by
  obtain ⟨_, _, _, between, _, written, rfl⟩ := gives_write.mp h
  apply FileSystem.contents_eq_some.mpr
  exact FileSystem.lookup_eq_ok.mp (FileSystem.write_file_found Manifest.file_name_is_name written)

theorem write_last_contents (h : (g.write dir runId).Gives fs listed fs')
    (last : LastOfName g.toList m) (other : m.id.fileName ≠ Manifest.fileName) :
    fs'.contents? (Path.join [dir, m.id.fileName]) = some m.render := by
  have holds := write_holds h last
  rw [if_neg fun same => other (Location.file_name_eq_manifest.mpr same)] at holds
  exact FileSystem.contents_eq_some.mpr (FileSystem.lookup_eq_ok.mp holds)

theorem exists_last_of_name {name : Bytes} (named : ∃ m ∈ ms, m.id.fileName = name) :
    ∃ m, LastOfName ms m ∧ m.id.fileName = name := by
  induction ms with
  | nil =>
    obtain ⟨_, none, _⟩ := named
    cases none
  | cons x ms ih =>
    by_cases later : ∃ m ∈ ms, m.id.fileName = name
    · obtain ⟨m, ⟨before, after, rfl, apart⟩, same⟩ := ih later
      exact ⟨m, ⟨x :: before, after, rfl, apart⟩, same⟩
    · have here : x.id.fileName = name := by
        obtain ⟨m, mem, same⟩ := named
        rcases List.mem_cons.mp mem with rfl | mem
        · exact same
        · exact absurd ⟨m, mem, same⟩ later
      refine ⟨x, ⟨[], ms, rfl, ?_⟩, here⟩
      intro m mem shared
      exact later ⟨m, mem, (Location.file_name_eq_iff.mpr shared).trans here⟩

/-! ## Writing to a directory that takes files -/

theorem write_maps_received (h : Receives fs dir d) (ready : ∀ m ∈ ms, Ready m)
    (taken : Digest.Running) :
    ∃ taken' fs', (writeMaps WorldMap.render dir ms taken).Gives fs (ms.map .of, taken') fs' ∧
      Receives fs' dir d ∧ ∀ name, (∀ m ∈ ms, m.id.fileName ≠ name) →
        fs'.at? (d ++ [name]) = fs.at? (d ++ [name]) := by
  induction ms generalizing fs taken with
  | nil => exact ⟨taken, fs, Action.gives_pure.mpr ⟨rfl, rfl⟩, h, fun _ _ => rfl⟩
  | cons m ms ih =>
    obtain ⟨first, others⟩ := List.forall_mem_cons.mp ready
    have named := m.id.file_name_is_name
    obtain ⟨taken', fs', maps, received, same⟩ :=
      ih (h.put named m.render) others (taken.write m.render)
    have written := h.write named first.fits m.render
    refine ⟨taken', fs', gives_write_maps.mpr ⟨_, _, ?_, maps, rfl⟩, received, ?_⟩
    · exact gives_write_map.mpr ⟨first.loads, rfl, by rw [written], by rw [written]⟩
    · intro name apart
      obtain ⟨apart, apart'⟩ := List.forall_mem_cons.mp apart
      have other : FileSystem.key (d ++ [name]) ≠ FileSystem.key (d ++ [m.id.fileName]) :=
        fun same => apart ((FileSystem.key_name_inj d).mp same).symm
      rw [same name apart', FileSystem.at_put, if_neg (by simp), if_neg other]

/-- A graph that could be written once can be written to every vacant directory, and nothing but
its maps and the manifest is there then. -/
theorem write_vacant (grounded : fs.Grounded) (vacant : Vacant fs dir)
    (ready : ∀ m ∈ g.toList, Ready m) (runId : Bytes) :
    ∃ fs', (g.write dir runId).Gives fs (g.manifest runId) fs' ∧
      ∀ name, Path.IsName name → name ≠ Manifest.fileName →
        (∀ m ∈ g.toList, m.id.fileName ≠ name) →
        fs'.contents? (Path.join [dir, name]) = none := by
  have received := vacant.receives grounded
  obtain ⟨_, between, maps, received', same⟩ := write_maps_received received ready .start
  have named := Manifest.file_name_is_name
  have written := received'.write named ⟨by decide, by decide⟩ (g.manifest runId).render
  refine ⟨_, gives_write.mpr ⟨vacant.made, rfl, _, between, maps, by rw [written], rfl⟩, ?_⟩
  intro name named' other apart
  rw [written]
  dsimp only
  rw [Option.eq_none_iff_forall_ne_some]
  intro s contents
  obtain ⟨q, located, stands⟩ := FileSystem.contents_eq_some.mp contents
  obtain ⟨_, d', leads, _, _, rfl⟩ := (FileSystem.locate_name named').mp located
  cases (received'.put named _).leads.symm.trans leads
  have unlike : FileSystem.key (fs.placeOf dir ++ [name]) ≠
      FileSystem.key (fs.placeOf dir ++ [Manifest.fileName]) :=
    fun same => other ((FileSystem.key_name_inj _).mp same)
  rw [FileSystem.at_put, if_neg (by simp), if_neg unlike, same name apart,
    vacant.empty name named'] at stands
  cases stands

end Graph

end Overworld
