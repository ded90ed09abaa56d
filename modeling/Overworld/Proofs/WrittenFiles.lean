import Overworld.Proofs.FilePlaces
import Overworld.Proofs.WrittenLocations
import Overworld.World.Output
import Mathlib.Data.List.Forall2

/-!
# Files of a written graph

Each map of a graph is written to a file that is named after its location. The name does not tell
separators from underscores, nor the dot between scope and index from one inside them, and one
location has the name of the manifest. Of the maps that share a name the last one stays.
-/

set_option autoImplicit false

namespace Overworld

namespace Location

variable {l l' : Location}

/-- The bytes that stand as an underscore in the name of a file. -/
def masked : List UInt8 := [0x2F, 0x5C, 0x3A, 0x5F]

theorem file_byte_eq (b : UInt8) : fileByte b = if b ∈ masked then 0x5F else b := by
  by_cases separator : b = 0x2F ∨ b = 0x5C ∨ b = 0x3A
  · rcases separator with rfl | rfl | rfl <;> decide
  · have other : ¬ (b = 0x2F || b = 0x5C || b = 0x3A) = true := by simpa [or_assoc] using separator
    rw [fileByte, if_neg other]
    by_cases underscore : b = 0x5F
    · simp [underscore]
    · rw [if_neg (by simp_all [masked])]

theorem file_byte_eq_iff (a b : UInt8) :
    fileByte a = fileByte b ↔ a = b ∨ a ∈ masked ∧ b ∈ masked := by
  have underscore : (0x5F : UInt8) ∈ masked := by decide
  rw [file_byte_eq, file_byte_eq]
  by_cases ha : a ∈ masked <;> by_cases hb : b ∈ masked
  · simp [ha, hb]
  · have apart : a ≠ b := fun same => hb (same ▸ ha)
    have other : 0x5F ≠ b := fun same => hb (same ▸ underscore)
    simp [ha, hb, apart, other]
  · have apart : a ≠ b := fun same => ha (same ▸ hb)
    have other : a ≠ 0x5F := fun same => ha (same ▸ underscore)
    simp [ha, hb, apart, other]
  · simp [ha, hb]

theorem map_file_byte_of_no_underscore {s : Bytes} (h : 0x5F ∉ s.map fileByte) :
    s.map fileByte = s := by
  induction s with
  | nil => rfl
  | cons b s ih =>
    simp only [List.map_cons, List.mem_cons, not_or] at h
    have plain : b ∉ masked := fun mem => h.1 (by rw [file_byte_eq, if_pos mem])
    rw [List.map_cons, ih h.2, file_byte_eq, if_neg plain]

/-- Two locations have files of one name: with a dot between scope and index they agree, but for
bytes that are masked in both. -/
def SharesFile (l l' : Location) : Prop :=
  List.Forall₂ (fun a b => a = b ∨ a ∈ masked ∧ b ∈ masked) (l.joined 0x2E) (l'.joined 0x2E)

theorem file_name_eq_joined (l : Location) :
    l.fileName = (l.joined 0x2E).map fileByte ++ utf8 ".yaml" := rfl

theorem file_name_eq_iff : l.fileName = l'.fileName ↔ l.SharesFile l' := by
  rw [file_name_eq_joined, file_name_eq_joined, List.append_cancel_right_eq, SharesFile,
    ← List.forall₂_eq_eq_eq, List.forall₂_map_left_iff, List.forall₂_map_right_iff]
  simp only [file_byte_eq_iff]

instance (l l' : Location) : Decidable (l.SharesFile l') := decidable_of_iff _ file_name_eq_iff

/-- The location whose file has the name of the manifest. -/
def ofManifest : Location := ⟨[], utf8 "manifest"⟩

theorem file_name_eq_manifest : l.fileName = Manifest.fileName ↔ l = ofManifest := by
  constructor
  · intro same
    have whole : Manifest.fileName = utf8 "manifest" ++ utf8 ".yaml" := by decide
    rw [file_name_eq_joined, whole, List.append_cancel_right_eq] at same
    have plain : (l.joined 0x2E).map fileByte = l.joined 0x2E := by
      apply map_file_byte_of_no_underscore
      rw [same]
      decide
    rw [plain] at same
    obtain ⟨scope, index⟩ := l
    by_cases bare : scope = []
    · rw [joined_nil bare] at same
      rw [ofManifest, bare, same]
    · -- the name of the manifest has no dot before its ending
      rw [joined_cons bare] at same
      have dotted : (0x2E : UInt8) ∈ utf8 "manifest" := by simp [← same]
      exact absurd dotted (by decide)
  · rintro rfl
    decide

theorem file_name_is_name (l : Location) : Path.IsName l.fileName := by
  have ending : utf8 ".yaml" <:+ l.fileName := List.suffix_append ..
  have long : 5 ≤ l.fileName.length := ending.length_le
  have other : ∀ s : Bytes, s.length < 5 → l.fileName ≠ s := by
    rintro s short rfl
    omega
  refine ⟨?_, other _ (by decide), other _ (by decide), other _ (by decide)⟩
  rw [file_name_eq_joined, List.mem_append, List.mem_map]
  rintro (⟨b, _, slash⟩ | dotted)
  · rw [file_byte_eq] at slash
    by_cases mem : b ∈ masked
    · rw [if_pos mem] at slash
      exact absurd slash (by decide)
    · rw [if_neg mem] at slash
      exact mem (by rw [slash]; decide)
  · exact absurd dotted (by decide)

end Location

theorem Manifest.file_name_is_name : Path.IsName Manifest.fileName :=
  ⟨by decide, by decide, by decide, by decide⟩

def ManifestEntry.of (m : WorldMap) : ManifestEntry := ⟨m.id.key, m.name, m.id.fileName⟩

namespace Graph

variable {document : WorldMap → Bytes} {g : Graph} {dir runId : Bytes} {fs fs' : FileSystem}
  {m : WorldMap} {ms : List WorldMap} {taken taken' : Digest.Running}

theorem gives_write_map {s : Bytes} {e : ManifestEntry} : (writeMapWith s dir m).Gives fs e fs' ↔
    (∃ x, WorldMap.load s = .ok x) ∧ e = .of m ∧
      (fs.writeFile (Path.join [dir, m.id.fileName]) s).outcome = .ok () ∧
      fs' = (fs.writeFile (Path.join [dir, m.id.fileName]) s).files := by
  simp only [writeMapWith, Action.gives_bind, Action.gives_within, Action.gives_of_except,
    Action.gives_change, Action.gives_pure]
  constructor
  · rintro ⟨x, _, ⟨loads, rfl⟩, _, _, ⟨written, rfl⟩, rfl, rfl⟩
    exact ⟨⟨x, loads⟩, rfl, written, rfl⟩
  · rintro ⟨⟨x, loads⟩, rfl, written, rfl⟩
    exact ⟨x, fs, ⟨loads, rfl⟩, (), _, ⟨written, rfl⟩, rfl, rfl⟩

theorem write_map_gives {s : Bytes} {e : ManifestEntry}
    (h : (writeMapWith s dir m).Gives fs e fs') :
    e = .of m ∧ (fs.writeFile (Path.join [dir, m.id.fileName]) s).outcome = .ok () ∧
      fs' = (fs.writeFile (Path.join [dir, m.id.fileName]) s).files :=
  (gives_write_map.mp h).2

theorem gives_write_maps {es : List ManifestEntry} :
    (writeMaps document dir (m :: ms) taken).Gives fs (es, taken') fs' ↔
      ∃ rest between, (writeMapWith (document m) dir m).Gives fs (.of m) between ∧
        (writeMaps document dir ms (taken.write (document m))).Gives between (rest, taken') fs' ∧
        es = .of m :: rest := by
  simp only [writeMaps, Action.gives_bind, Action.gives_pure]
  constructor
  · rintro ⟨e, between, first, ⟨rest, _⟩, _, others, same, rfl⟩
    obtain ⟨_, rfl, _⟩ := gives_write_map.mp first
    cases same
    exact ⟨rest, between, first, others, rfl⟩
  · rintro ⟨rest, between, first, others, rfl⟩
    exact ⟨_, between, first, (rest, taken'), fs', others, rfl, rfl⟩

theorem write_maps_cons {es : List ManifestEntry}
    (h : (writeMaps document dir (m :: ms) taken).Gives fs (es, taken') fs') :
    ∃ rest, es = .of m :: rest ∧
      (fs.writeFile (Path.join [dir, m.id.fileName]) (document m)).outcome = .ok () ∧
      (writeMaps document dir ms (taken.write (document m))).Gives
        (fs.writeFile (Path.join [dir, m.id.fileName]) (document m)).files (rest, taken') fs' := by
  obtain ⟨rest, between, first, others, rfl⟩ := gives_write_maps.mp h
  obtain ⟨_, written, rfl⟩ := write_map_gives first
  exact ⟨rest, rfl, written, others⟩

theorem write_maps_entries {es : List ManifestEntry}
    (h : (writeMaps document dir ms taken).Gives fs (es, taken') fs') :
    es = ms.map .of ∧ taken' = ms.foldl (fun r m => r.write (document m)) taken := by
  induction ms generalizing fs es taken with
  | nil =>
    obtain ⟨same, _⟩ := Action.gives_pure.mp h
    cases same
    exact ⟨rfl, rfl⟩
  | cons m ms ih =>
    obtain ⟨rest, rfl, _, others⟩ := write_maps_cons h
    obtain ⟨rfl, rfl⟩ := ih others
    exact ⟨rfl, rfl⟩

theorem write_maps_keep {es : List ManifestEntry}
    (h : (writeMaps document dir ms taken).Gives fs (es, taken') fs')
    {name : Bytes} (named : Path.IsName name) (apart : ∀ m ∈ ms, m.id.fileName ≠ name)
    {e : FileEntry} (found : fs.lookup (Path.join [dir, name]) = .ok e) :
    fs'.lookup (Path.join [dir, name]) = .ok e := by
  induction ms generalizing fs es taken with
  | nil =>
    obtain ⟨_, rfl⟩ := Action.gives_pure.mp h
    exact found
  | cons m ms ih =>
    obtain ⟨_, _, written, others⟩ := write_maps_cons h
    apply ih others fun x hx => apart x (by simp [hx])
    have other : name ≠ m.id.fileName := (apart m (by simp)).symm
    exact FileSystem.write_file_keeps m.id.file_name_is_name named other written found

/-- A map of a sequence such that no later one is written to the file of its name. -/
def LastOfName (ms : List WorldMap) (m : WorldMap) : Prop :=
  ∃ before after, ms = before ++ m :: after ∧ ∀ x ∈ after, ¬ x.id.SharesFile m.id

theorem write_maps_last {es : List ManifestEntry}
    (h : (writeMaps document dir ms taken).Gives fs (es, taken') fs') (last : LastOfName ms m) :
    fs'.lookup (Path.join [dir, m.id.fileName]) = .ok (.file (document m)) := by
  obtain ⟨before, after, rfl, apart⟩ := last
  -- on the maps before it: what they put into the file does not matter, as this one comes later
  induction before generalizing fs es taken with
  | nil =>
    obtain ⟨_, _, written, others⟩ := write_maps_cons h
    apply write_maps_keep others m.id.file_name_is_name
    · exact fun x hx same => apart x hx (Location.file_name_eq_iff.mp same)
    · exact FileSystem.write_file_found m.id.file_name_is_name written
  | cons x before ih =>
    obtain ⟨_, _, _, others⟩ := write_maps_cons h
    exact ih others

/-- The manifest of a graph. -/
def manifestWith (document : WorldMap → Bytes) (g : Graph) (runId : Bytes) : Manifest :=
  ⟨runId, g.toList.length, g.digestWith document, g.toList.map .of⟩

def manifest (g : Graph) (runId : Bytes) : Manifest := g.manifestWith WorldMap.render runId

theorem gives_write {manifest : Manifest} : (g.writeWith document dir runId).Gives fs manifest fs' ↔
    (fs.mkdirAll dir).outcome = .ok () ∧ manifest = g.manifestWith document runId ∧
      ∃ taken between, (writeMaps document dir g.toList .start).Gives (fs.mkdirAll dir).files
          (manifest.maps, taken) between ∧
        (between.writeFile (Path.join [dir, Manifest.fileName]) manifest.render).outcome = .ok () ∧
        fs' = (between.writeFile (Path.join [dir, Manifest.fileName]) manifest.render).files := by
  have listed : ∀ {entries taken start between},
      (writeMaps document dir g.toList .start).Gives start (entries, taken) between →
      (⟨runId, entries.length, Digest.hex taken.value, entries⟩ : Manifest) =
        g.manifestWith document runId := by
    intro entries taken start between maps
    obtain ⟨rfl, rfl⟩ := write_maps_entries maps
    rw [Graph.manifestWith, List.length_map]
    rfl
  simp only [writeWith, Action.gives_bind, Action.gives_within, Action.gives_change,
    Action.gives_pure]
  constructor
  · rintro ⟨_, _, ⟨made, rfl⟩, ⟨entries, taken⟩, between, maps, _, _, ⟨written, rfl⟩, rfl, rfl⟩
    exact ⟨made, listed maps, taken, between, maps, written, rfl⟩
  · rintro ⟨made, rfl, taken, between, maps, written, rfl⟩
    have same := listed maps
    rw [← same] at written
    refine ⟨(), _, ⟨made, rfl⟩, _, between, maps, (), _, ⟨written, rfl⟩, same, ?_⟩
    rw [← same]

theorem write_gives {manifest : Manifest}
    (h : (g.writeWith document dir runId).Gives fs manifest fs') :
    ∃ start taken between,
      (writeMaps document dir g.toList .start).Gives start (manifest.maps, taken) between ∧
      (between.writeFile (Path.join [dir, Manifest.fileName]) manifest.render).outcome = .ok () ∧
      fs' = (between.writeFile (Path.join [dir, Manifest.fileName]) manifest.render).files := by
  obtain ⟨_, _, taken, between, maps, written, rfl⟩ := gives_write.mp h
  exact ⟨_, taken, between, maps, written, rfl⟩

/-- Each map has a file of its own, which is not that of the manifest and which holds the map. -/
structure OneFileEach (dir : Bytes) (ms : List WorldMap) (entries : List ManifestEntry)
    (fs : FileSystem) : Prop where
  distinct : (entries.map ManifestEntry.file).Nodup
  noManifest : Manifest.fileName ∉ entries.map ManifestEntry.file
  faithful : ∀ m ∈ ms, ∃ e ∈ entries, e = .of m ∧
    fs.lookup (Path.join [dir, e.file]) = .ok (.file m.render)

theorem last_of_name {ms : List WorldMap} (apart : ms.Pairwise fun a b => ¬ a.id.SharesFile b.id)
    (mem : m ∈ ms) : LastOfName ms m := by
  obtain ⟨before, after, rfl⟩ := List.append_of_mem mem
  refine ⟨before, after, rfl, fun x hx shared => ?_⟩
  have later := (List.pairwise_cons.mp (List.pairwise_append.mp apart).2.1).1
  exact later x hx (Location.file_name_eq_iff.mp (Location.file_name_eq_iff.mpr shared).symm)

theorem write_holds {manifest : Manifest} (h : (g.write dir runId).Gives fs manifest fs')
    (last : LastOfName g.toList m) :
    fs'.lookup (Path.join [dir, m.id.fileName]) =
      .ok (.file (if m.id = .ofManifest then manifest.render else m.render)) := by
  obtain ⟨_, _, between, maps, written, rfl⟩ := write_gives h
  by_cases taken : m.id = .ofManifest
  · rw [if_pos taken, Location.file_name_eq_manifest.mpr taken]
    exact FileSystem.write_file_found Manifest.file_name_is_name written
  · have other : m.id.fileName ≠ Manifest.fileName :=
      fun same => taken (Location.file_name_eq_manifest.mp same)
    rw [if_neg taken]
    exact FileSystem.write_file_keeps Manifest.file_name_is_name m.id.file_name_is_name other
      written (write_maps_last maps last)

theorem write_entries {manifest : Manifest} (h : (g.write dir runId).Gives fs manifest fs') :
    manifest.maps = g.toList.map .of := by
  obtain ⟨_, _, _, maps, _⟩ := write_gives h
  exact (write_maps_entries maps).1

theorem one_file_each_iff {manifest : Manifest} (h : (g.write dir runId).Gives fs manifest fs') :
    OneFileEach dir g.toList manifest.maps fs' ↔
      (∀ m ∈ g.toList, m.id ≠ .ofManifest) ∧
        g.toList.Pairwise fun a b => ¬ a.id.SharesFile b.id := by
  have names : manifest.maps.map ManifestEntry.file = g.toList.map fun m => m.id.fileName := by
    rw [write_entries h, List.map_map]
    rfl
  constructor
  · rintro ⟨distinct, noManifest, _⟩
    rw [names] at distinct noManifest
    constructor
    · intro m hm taken
      exact noManifest (List.mem_map.mpr ⟨m, hm, Location.file_name_eq_manifest.mpr taken⟩)
    · apply (List.pairwise_map.mp distinct).imp
      exact fun apart shared => apart (Location.file_name_eq_iff.mpr shared)
  · rintro ⟨others, apart⟩
    constructor
    · rw [names]
      apply List.pairwise_map.mpr
      exact apart.imp fun apart same => apart (Location.file_name_eq_iff.mp same)
    · rw [names, List.mem_map]
      rintro ⟨m, hm, same⟩
      exact others m hm (Location.file_name_eq_manifest.mp same)
    · intro m hm
      have here := write_holds h (last_of_name apart hm)
      rw [if_neg (others m hm)] at here
      refine ⟨.of m, ?_, rfl, here⟩
      rw [write_entries h]
      exact List.mem_map_of_mem hm

/-- A written graph: the manifest lists every map, and the file of a name holds the last of the maps
with that name, or the manifest. So each map has a file of its own exactly if no two of their
locations share one and none is that of the manifest. -/
theorem written_file_holds_last_of_name (g : Graph) (dir runId : Bytes) (fs : FileSystem)
    (manifest : Manifest) (h : (g.write dir runId fs).outcome = .ok manifest) :
    manifest.maps = g.toList.map .of ∧
    (∀ m, LastOfName g.toList m →
      (g.write dir runId fs).files.lookup (Path.join [dir, m.id.fileName]) =
        .ok (.file (if m.id = .ofManifest then manifest.render else m.render))) ∧
    (OneFileEach dir g.toList manifest.maps (g.write dir runId fs).files ↔
      (∀ m ∈ g.toList, m.id ≠ .ofManifest) ∧
        g.toList.Pairwise fun a b => ¬ a.id.SharesFile b.id) := by
  have gives : (g.write dir runId).Gives fs manifest (g.write dir runId fs).files := ⟨h, rfl⟩
  exact ⟨write_entries gives, fun m last => write_holds gives last, one_file_each_iff gives⟩

/-- Scopes and indices with dots in them, which need not make names alike. -/
theorem dotted_signposts_written :
    let g := offered [signpost "a" "b.c" "1", signpost "a.b" "d" "2"]
    let written := g.write (utf8 "out") (utf8 "run") .empty
    ∃ manifest, written.outcome = .ok manifest ∧
      OneFileEach (utf8 "out") g.toList manifest.maps written.files := by
  intro g written
  have succeeds : written.outcome.toOption.isSome := by decide +kernel
  cases h : written.outcome with
  | error e =>
    rw [h] at succeeds
    cases succeeds
  | ok manifest =>
    obtain ⟨_, _, each⟩ := written_file_holds_last_of_name g _ _ _ manifest h
    exact ⟨manifest, rfl, each.mpr (by decide)⟩

/-- Two valid maps at locations that differ in a colon are written to one file, and the first of
them is lost. -/
theorem colon_loses_map :
    let first := signpost "unnamed" "A:B" "1"
    let second := signpost "unnamed" "A_B" "2"
    let g := offered [first, second]
    let written := g.write (utf8 "out") (utf8 "run") .empty
    let name := utf8 "unnamed.A_B.yaml"
    first.validate = .ok () ∧ second.validate = .ok () ∧ g.toList = [first, second] ∧
      (written.outcome.toOption.map fun manifest => manifest.maps.map ManifestEntry.file) =
        some [name, name] ∧
      written.files.lookup (Path.join [utf8 "out", name]) = .ok (.file second.render) ∧
      first.render ≠ second.render := by
  decide +kernel

end Graph

end Overworld
