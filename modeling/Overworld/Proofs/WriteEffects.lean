import Overworld.Proofs.DocumentOrders
import Overworld.Proofs.FileEffects
import Overworld.Proofs.ManifestDocument

/-!
# What writing a graph does

Writing a graph touches its directory, what is missing above it, and files directly in it. It stops
at the first map that cannot be written; the maps before it have their files then, and there is no
new manifest. The digest in the manifest is taken while the maps are written, piece by piece, and is
that of the whole.
-/

set_option autoImplicit false

namespace Overworld

/-! ## Digests that are taken piece by piece -/

namespace Digest

theorem blocks_add (m n : Nat) (l : Lanes) (s : Bytes) : Lanes.blocks (m + n) l s =
    Lanes.blocks n (Lanes.blocks m l s).1 (Lanes.blocks m l s).2 := by
  induction m generalizing l s with
  | zero =>
    rw [Nat.zero_add]
    rfl
  | succ m ih =>
    rw [Nat.succ_add]
    exact ih _ _

/-- Blocks that lie in a text do not see what comes after it. -/
theorem blocks_append {n : Nat} {s : Bytes} (fits : 32 * n ≤ s.length) (l : Lanes)
    (rest : Bytes) :
    Lanes.blocks n l (s ++ rest) = ((Lanes.blocks n l s).1, (Lanes.blocks n l s).2 ++ rest) := by
  induction n generalizing l s with
  | zero => rfl
  | succ n ih =>
    have here : 32 ≤ s.length := by omega
    rw [Lanes.blocks, List.take_append_of_le_length here, List.drop_append_of_le_length here,
      ih (by rw [List.length_drop]; omega)]
    rfl

theorem blocks_rest (n : Nat) (l : Lanes) (s : Bytes) :
    (Lanes.blocks n l s).2 = s.drop (32 * n) := by
  induction n generalizing l s with
  | zero => rfl
  | succ n ih =>
    rw [Lanes.blocks, ih, List.drop_drop]
    congr 1
    omega

namespace Running

/-- The digest after all of a text was taken at once. -/
def of (s : Bytes) : Running where
  lanes := (Lanes.blocks (s.length / 32) .start s).1
  waiting := (Lanes.blocks (s.length / 32) .start s).2
  total := s.length

theorem of_write (s piece : Bytes) : (of s).write piece = of (s ++ piece) := by
  have waiting : (of s).waiting.length = s.length % 32 := by
    rw [of, blocks_rest, List.length_drop]
    omega
  have blocks : (s ++ piece).length / 32 =
      s.length / 32 + ((of s).waiting ++ piece).length / 32 := by
    rw [List.length_append, List.length_append, waiting]
    omega
  have inside := blocks_append (show 32 * (s.length / 32) ≤ s.length by omega) .start piece
  have whole := blocks_add (s.length / 32) (((of s).waiting ++ piece).length / 32) .start
    (s ++ piece)
  rw [← blocks, inside] at whole
  have total : (s ++ piece).length = s.length + piece.length := List.length_append
  conv_rhs => rw [of, whole, total]
  rfl

theorem foldl_write (pieces : List Bytes) (s : Bytes) :
    pieces.foldl write (of s) = of (s ++ pieces.flatten) := by
  induction pieces generalizing s with
  | nil => simp
  | cons piece pieces ih =>
    rw [List.foldl_cons, of_write, ih, List.flatten_cons, List.append_assoc]

theorem of_value (s : Bytes) : (of s).value = xxHash64 s := by
  unfold value xxHash64
  by_cases long : 32 ≤ s.length
  · simp only [of, long, if_true]
  · have few : s.length / 32 = 0 := by omega
    have zero : Lanes.start.c + prime5 = prime5 := by decide
    simp only [of, long, if_false, few, Lanes.blocks, zero]

end Running

example : hex (xxHash64 []) = utf8 "ef46db3751d8e999" := by decide +kernel

example : hex (xxHash64 (utf8 "Call me Ishmael. Some years ago--never mind how long precisely-")) =
    utf8 "02a2e85470d6fd96" := by decide +kernel

end Digest

namespace Graph

variable {document : WorldMap → Bytes} {g : Graph} {dir : Bytes} {d : List Bytes}
  {fs : FileSystem} {m : WorldMap} {ms : List WorldMap}

theorem digest_documents (document : WorldMap → Bytes) (g : Graph) :
    g.digestWith document = Digest.hex (Digest.xxHash64 (g.toList.map document).flatten) := by
  have pieces := Digest.Running.foldl_write (g.toList.map document) []
  rw [List.foldl_map, List.nil_append] at pieces
  show Digest.hex (Digest.Running.value (g.toList.foldl _ (.of []))) = _
  rw [pieces, Digest.Running.of_value]

theorem digest_with_congr {document' : WorldMap → Bytes}
    (same : ∀ m ∈ g.toList, document m = document' m) :
    g.digestWith document = g.digestWith document' := by
  rw [digest_documents, digest_documents, List.map_congr_left same]

/-! ## Keys -/

/-- Every map stands under the written form of its location. -/
def Keyed (g : Graph) : Prop := ∀ e ∈ g.maps.entries, e.1 = e.2.id.key

theorem offer_keyed (h : g.Keyed) (m : WorldMap) : (g.offer m).Keyed := by
  unfold offer insertIfAbsent
  cases g.maps.find? m.id.key with
  | some x => exact h
  | none =>
    intro e mem
    rcases Dict.mem_place mem with rfl | old
    · rfl
    · exact h e old

theorem offered_keyed (ms : List WorldMap) : (offered ms).Keyed := by
  have keeps : ∀ g : Graph, g.Keyed → (ms.foldl offer g).Keyed := by
    induction ms with
    | nil => exact fun g h => h
    | cons m ms ih => exact fun g h => ih _ (offer_keyed h m)
  apply keeps
  intro e mem
  cases mem

theorem Keyed.keys (h : g.Keyed) : g.toList.map (·.id.key) = g.keys := by
  rw [Graph.toList, Graph.keys, Dict.values, Dict.keys, List.map_map]
  exact List.map_congr_left fun e mem => (h e mem).symm

theorem keys_ascending (g : Graph) : g.keys.Pairwise fun a b => Bytes.lt a b = true :=
  List.pairwise_map.mpr g.maps.ordered

/-! ## Documents in a directory -/

/-- The files after the documents of maps were put into a directory, one after the other. -/
def deposited (document : WorldMap → Bytes) (d : List Bytes) (ms : List WorldMap)
    (fs : FileSystem) : FileSystem :=
  ms.foldl (fun fs m => fs.put (d ++ [m.id.fileName]) (.file (document m))) fs

theorem deposited_confined (document : WorldMap → Bytes) (d : List Bytes) (ms : List WorldMap)
    (fs : FileSystem) :
    FileSystem.Confined (fun k => ∃ m ∈ ms, k = FileSystem.key (d ++ [m.id.fileName])) fs
      (deposited document d ms fs) := by
  induction ms generalizing fs with
  | nil => exact .refl _ _
  | cons m ms ih =>
    have first := FileSystem.put_confined fs (d ++ [m.id.fileName]) (.file (document m))
    apply (first.mono _).trans ((ih _).mono _)
    · exact fun k here => ⟨m, by simp, here⟩
    · rintro k ⟨x, mem, here⟩
      exact ⟨x, by simp [mem], here⟩

theorem deposited_start (document : WorldMap → Bytes) (d : List Bytes) (ms : List WorldMap)
    (fs : FileSystem) (p : Bytes) : (deposited document d ms fs).placeOf p = fs.placeOf p :=
  FileSystem.place_of_start (deposited_confined document d ms fs).start p

/-! ## Maps that cannot be written -/

/-- Why a map cannot be written: its document cannot be read back, or its file is refused. -/
inductive MapFails (s dir : Bytes) (fs : FileSystem) (m : WorldMap) : Failure → Prop
  | unread {e : Failure} (failed : WorldMap.load s = .error e) :
      MapFails s dir fs m (e.within ("map " ++ m.id.shown ++ " failed validation"))
  | unwritten {e : Failure} {x : WorldMap} (read : WorldMap.load s = .ok x)
      (failed : (fs.writeFile (Path.join [dir, m.id.fileName]) s).outcome = .error e) :
      MapFails s dir fs m (e.within ("writing map " ++ m.id.shown))

theorem write_map_unread {s : Bytes} {e : Failure} (failed : WorldMap.load s = .error e) :
    writeMapWith s dir m fs =
      ⟨[], fs, .error (e.within ("map " ++ m.id.shown ++ " failed validation")), []⟩ := by
  have outcome : (((Action.ofExcept (WorldMap.load s)).within
      ("map " ++ m.id.shown ++ " failed validation")) fs).outcome =
        .error (e.within ("map " ++ m.id.shown ++ " failed validation")) := by
    rw [failed]
    rfl
  exact Action.bind_of_error outcome

theorem write_map_read {s : Bytes} {x : WorldMap} (read : WorldMap.load s = .ok x) :
    writeMapWith s dir m fs = ((Action.change fun fs =>
      fs.writeFile (Path.join [dir, m.id.fileName]) s).within
        ("writing map " ++ m.id.shown) >>= fun _ => pure (ManifestEntry.of m)) fs := by
  have outcome : (((Action.ofExcept (WorldMap.load s)).within
      ("map " ++ m.id.shown ++ " failed validation")) fs).outcome = .ok x := by
    rw [read]
    rfl
  exact Action.bind_of_ok outcome

/-- A map is written to its file, or it cannot be and nothing changes. -/
theorem write_map_ended (s dir : Bytes) (m : WorldMap) (fs : FileSystem) :
    ((writeMapWith s dir m fs).outcome = .ok (.of m) ∧
      (writeMapWith s dir m fs).files =
        fs.put (fs.placeOf dir ++ [m.id.fileName]) (.file s)) ∨
    ∃ e, MapFails s dir fs m e ∧ (writeMapWith s dir m fs).outcome = .error e ∧
      (writeMapWith s dir m fs).files = fs := by
  cases loaded : WorldMap.load s with
  | error e =>
    rw [write_map_unread loaded]
    exact .inr ⟨_, .unread loaded, rfl, rfl⟩
  | ok x =>
    rw [write_map_read loaded]
    rcases FileSystem.write_name_cases m.id.file_name_is_name fs dir s with
      ⟨f, refused⟩ | ⟨_, written⟩
    · rw [Action.change_stops
        (c := fun fs => fs.writeFile (Path.join [dir, m.id.fileName]) s) refused]
      exact .inr ⟨_, .unwritten loaded (congrArg FileSystem.Change.outcome refused), rfl, rfl⟩
    · rw [Action.change_then
        (c := fun fs => fs.writeFile (Path.join [dir, m.id.fileName]) s) written]
      exact .inl ⟨rfl, rfl⟩

/-- Maps are written in order up to the first that cannot be. -/
theorem write_maps_ended (document : WorldMap → Bytes) (dir : Bytes) (ms : List WorldMap)
    (taken : Digest.Running) (fs : FileSystem) :
    ((writeMaps document dir ms taken fs).outcome =
        .ok (ms.map .of, ms.foldl (fun r m => r.write (document m)) taken) ∧
      (writeMaps document dir ms taken fs).files = deposited document (fs.placeOf dir) ms fs) ∨
    ∃ before m after e, ms = before ++ m :: after ∧
      MapFails (document m) dir (deposited document (fs.placeOf dir) before fs) m e ∧
      (writeMaps document dir ms taken fs).outcome = .error e ∧
      (writeMaps document dir ms taken fs).files =
        deposited document (fs.placeOf dir) before fs := by
  induction ms generalizing taken fs with
  | nil => exact .inl ⟨rfl, rfl⟩
  | cons m ms ih =>
    rcases write_map_ended (document m) dir m fs with ⟨outcome, files⟩ | ⟨e, fails, outcome, files⟩
    · have went : writeMaps document dir (m :: ms) taken fs = _ := Action.bind_of_ok outcome
      have start : (writeMapWith (document m) dir m fs).files.start = fs.start := by
        rw [files]
        rfl
      have place := FileSystem.place_of_start start dir
      rcases ih (taken.write (document m)) (writeMapWith (document m) dir m fs).files with
        ⟨outcome', files'⟩ | ⟨before, x, after, e, rfl, fails, outcome', files'⟩
      · have done := Action.bind_of_ok (f := fun r : List ManifestEntry × Digest.Running =>
          (pure (ManifestEntry.of m :: r.1, r.2) : Action _)) outcome'
        left
        rw [went]
        refine ⟨congrArg Ended.outcome done, ?_⟩
        rw [place, files] at files'
        exact (congrArg Ended.files done).trans (by rw [files]; exact files')
      · have stopped := Action.bind_of_error (f := fun r : List ManifestEntry × Digest.Running =>
          (pure (ManifestEntry.of m :: r.1, r.2) : Action _)) outcome'
        right
        rw [place, files] at fails files'
        refine ⟨m :: before, x, after, e, rfl, fails, ?_, ?_⟩
        · rw [went]
          exact congrArg Ended.outcome stopped
        · rw [went]
          exact (congrArg Ended.files stopped).trans (by rw [files]; exact files')
    · have stopped : writeMaps document dir (m :: ms) taken fs = _ := Action.bind_of_error outcome
      rw [stopped]
      exact .inr ⟨[], m, ms, e, rfl, fails, rfl, files⟩

/-! ## Whole graphs -/

/-- How writing a graph can end, with its outcome and the files it leaves. -/
inductive WriteEnds (document : WorldMap → Bytes) (g : Graph) (dir runId : Bytes)
    (fs : FileSystem) :
    Except Failure Manifest → FileSystem → Prop
  | unmade {e : Failure} (failed : (fs.mkdirAll dir).outcome = .error e) :
      WriteEnds document g dir runId fs
        (.error (e.within ("creating output directory " ++ Utf8.shown dir)))
        (fs.mkdirAll dir).files
  | stopped {before after : List WorldMap} {m : WorldMap} {e : Failure}
      (made : (fs.mkdirAll dir).outcome = .ok ()) (split : g.toList = before ++ m :: after)
      (fails : MapFails (document m) dir
        (deposited document (fs.placeOf dir) before (fs.mkdirAll dir).files) m e) :
      WriteEnds document g dir runId fs (.error e)
        (deposited document (fs.placeOf dir) before (fs.mkdirAll dir).files)
  | unlisted {e : Failure} (made : (fs.mkdirAll dir).outcome = .ok ())
      (failed : ((deposited document (fs.placeOf dir) g.toList (fs.mkdirAll dir).files).writeFile
        (Path.join [dir, Manifest.fileName]) (g.manifestWith document runId).render).outcome =
          .error e) :
      WriteEnds document g dir runId fs (.error (e.within "writing manifest"))
        (deposited document (fs.placeOf dir) g.toList (fs.mkdirAll dir).files)
  | written (made : (fs.mkdirAll dir).outcome = .ok ()) :
      WriteEnds document g dir runId fs (.ok (g.manifestWith document runId))
        ((deposited document (fs.placeOf dir) g.toList (fs.mkdirAll dir).files).put
          (fs.placeOf dir ++ [Manifest.fileName]) (.file (g.manifestWith document runId).render))

theorem write_ended (document : WorldMap → Bytes) (g : Graph) (dir runId : Bytes)
    (fs : FileSystem) :
    WriteEnds document g dir runId fs (g.writeWith document dir runId fs).outcome
      (g.writeWith document dir runId fs).files := by
  cases made : (fs.mkdirAll dir).outcome with
  | error e =>
    have change : fs.mkdirAll dir = ⟨(fs.mkdirAll dir).files, .error e⟩ := by rw [← made]
    have stopped : g.writeWith document dir runId fs = _ :=
      Action.change_stops (c := fun fs => fs.mkdirAll dir) change
    rw [stopped]
    exact .unmade made
  | ok u =>
    have change : fs.mkdirAll dir = ⟨(fs.mkdirAll dir).files, .ok ()⟩ := by rw [← made]
    have went : g.writeWith document dir runId fs = _ :=
      Action.change_then (c := fun fs => fs.mkdirAll dir) change
    have place := FileSystem.place_of_start (FileSystem.mkdir_all_confined fs dir).start dir
    rcases write_maps_ended document dir g.toList .start (fs.mkdirAll dir).files with
      ⟨outcome, files⟩ | ⟨before, m, after, e, split, fails, outcome, files⟩
    · rw [place] at files
      have listed : (⟨runId, (g.toList.map ManifestEntry.of).length, Digest.hex
          (g.toList.foldl (fun r m => r.write (document m)) Digest.Running.start).value,
          g.toList.map .of⟩ : Manifest) = g.manifestWith document runId := by
        rw [Graph.manifestWith, List.length_map]
        rfl
      rw [went, Action.bind_of_ok outcome, files]
      dsimp only
      rw [listed]
      rw [← deposited_start document (fs.placeOf dir) g.toList (fs.mkdirAll dir).files dir] at place
      rcases FileSystem.write_name_cases Manifest.file_name_is_name
        (deposited document (fs.placeOf dir) g.toList (fs.mkdirAll dir).files) dir
        (g.manifestWith document runId).render with ⟨f, refused⟩ | ⟨_, put⟩
      · rw [Action.change_stops (c := fun fs => fs.writeFile (Path.join [dir, Manifest.fileName])
          (g.manifestWith document runId).render) refused]
        exact .unlisted made (congrArg FileSystem.Change.outcome refused)
      · rw [place] at put
        rw [Action.change_then (c := fun fs => fs.writeFile (Path.join [dir, Manifest.fileName])
          (g.manifestWith document runId).render) put]
        exact .written made
    · rw [place] at fails files
      rw [went, Action.bind_of_error outcome]
      dsimp only
      rw [files]
      exact .stopped made split fails

/-- The path from the root of a file that belongs directly into a graph's directory: that of a map
or of the manifest. -/
def FileIn (g : Graph) (dir : Bytes) (fs : FileSystem) (k : Bytes) : Prop :=
  ∃ name, Path.IsName name ∧ (name = Manifest.fileName ∨ ∃ m ∈ g.toList, name = m.id.fileName) ∧
    k = FileSystem.key (fs.placeOf dir ++ [name])

theorem deposited_in (sub : ∀ m ∈ ms, m ∈ g.toList) (start : FileSystem) :
    FileSystem.Confined (g.FileIn dir fs) start (deposited document (fs.placeOf dir) ms start) := by
  apply (deposited_confined document (fs.placeOf dir) ms start).mono
  rintro k ⟨m, mem, rfl⟩
  exact ⟨_, m.id.file_name_is_name, .inr ⟨m, sub m mem, rfl⟩, rfl⟩

/-- After its directory was made, writing a graph changes only files that belong there. -/
theorem WriteEnds.confined {runId : Bytes} {outcome : Except Failure Manifest} {fs' : FileSystem}
    (h : WriteEnds document g dir runId fs outcome fs') :
    FileSystem.Confined (g.FileIn dir fs) (fs.mkdirAll dir).files fs' := by
  cases h with
  | unmade => exact .refl _ _
  | stopped made split fails =>
    apply deposited_in
    intro m mem
    rw [split]
    exact List.mem_append_left _ mem
  | unlisted made failed => exact deposited_in (fun _ mem => mem) _
  | written made =>
    apply (deposited_in (fun _ mem => mem) _).trans
    apply (FileSystem.put_confined _ _ _).mono
    rintro k rfl
    exact ⟨_, Manifest.file_name_is_name, .inl rfl, rfl⟩

theorem write_changed {runId k : Bytes}
    (changed : (g.writeWith document dir runId fs).files.entries.find? k ≠ fs.entries.find? k) :
    g.FileIn dir fs k ∨ fs.Missing dir k ∧
      (g.writeWith document dir runId fs).files.entries.find? k = some .directory := by
  by_cases inside : g.FileIn dir fs k
  · exact .inl inside
  · have same := (write_ended document g dir runId fs).confined.same k inside
    rw [same] at changed ⊢
    exact .inr (FileSystem.mkdir_all_changed changed)

end Graph

end Overworld
