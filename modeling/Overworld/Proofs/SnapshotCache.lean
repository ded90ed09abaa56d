import Overworld.Proofs.SnapshotLoading
import Overworld.Proofs.TemporaryFiles

/-!
# The snapshot file over a history

Loads, removals and writes by others come in any order, and any request of a load may be refused.
A load that finds a table changes nothing. A load that builds one either leaves the old contents or
the whole new snapshot at the path, and nothing in between is ever there to be met.
-/

set_option autoImplicit false

namespace Overworld

namespace Snapshot

open FileSystem (Beside Furnished Grounded)
open Raw (Table)

/-! ## Writing -/

/-- The temporary file of a snapshot is there, and empty. -/
structure Prepared (path : Bytes) (fs : FileSystem) (temporary : Bytes) (made : FileSystem) :
    Prop where
  directory : (fs.mkdirAll (Path.directory path)).outcome = .ok ()
  created : (fs.mkdirAll (Path.directory path)).files.createTemp (Path.directory path)
    (Path.base path) = (.ok temporary, made)

/-- The failures of writing contents to a path, by the request that fails. -/
inductive WriteFails (path contents : Bytes) (fs : FileSystem) : Failure → Prop
  | directory {e : Failure} : (fs.mkdirAll (Path.directory path)).outcome = .error e →
      WriteFails path contents fs
        (e.within ("creating snapshot directory " ++ Utf8.shown (Path.directory path)))
  | temporary {e : Failure} : (fs.mkdirAll (Path.directory path)).outcome = .ok () →
      ((fs.mkdirAll (Path.directory path)).files.createTemp (Path.directory path)
        (Path.base path)).1 = .error e →
      WriteFails path contents fs (e.within "creating snapshot temp file")
  | writing {temporary : Bytes} {made : FileSystem} {e : Failure} :
      Prepared path fs temporary made →
      (made.append temporary contents).outcome = .error e →
      WriteFails path contents fs (e.within "writing snapshot")
  | closing {temporary : Bytes} {made : FileSystem} {e : Failure} :
      Prepared path fs temporary made →
      (made.append temporary contents).outcome = .ok () →
      ((made.append temporary contents).files.close temporary).outcome = .error e →
      WriteFails path contents fs (e.within "closing snapshot")
  | moving {temporary : Bytes} {made : FileSystem} {e : Failure} :
      Prepared path fs temporary made →
      (made.append temporary contents).outcome = .ok () →
      ((made.append temporary contents).files.close temporary).outcome = .ok () →
      (((made.append temporary contents).files.close temporary).files.rename temporary
        path).outcome = .error e →
      WriteFails path contents fs (e.within "renaming snapshot into place")

/-- The failures of writing a snapshot: of making its contents, and of writing them. -/
inductive SaveFails (w : Writer) (path : Bytes) (t : Table) (fs : FileSystem) : Failure → Prop
  | encoding {e : Failure} : encode w t = .error e → SaveFails w path t fs e
  | writing {contents : Bytes} {e : Failure} : encode w t = .ok contents →
      WriteFails path contents fs e → SaveFails w path t fs e

/-- Writes contents to a path through a temporary file. -/
def deposit (path contents : Bytes) : Action Unit := do
  (Action.change fun fs => fs.mkdirAll (Path.directory path)).within
    ("creating snapshot directory " ++ Utf8.shown (Path.directory path))
  let temporary ← (Action.createTemp (Path.directory path) (Path.base path)).within
    "creating snapshot temp file"
  (Snapshot.place temporary path contents).thenAlways fun fs => (fs.remove temporary).files

variable {w : Writer} {path temporary contents : Bytes} {t : Table} {fs made : FileSystem}
  {e f : Failure} {place : List Bytes}

theorem save_of_ok (h : encode w t = .ok contents) (path : Bytes) (fs : FileSystem) :
    save w path t fs = deposit path contents fs := by
  unfold save
  rw [h]
  exact Action.bind_of_ok rfl

theorem save_of_error (h : encode w t = .error e) (path : Bytes) (fs : FileSystem) :
    save w path t fs = ⟨[], fs, .error e, []⟩ := by
  unfold save
  rw [h]
  exact Action.bind_of_error rfl

theorem deposit_eq_error :
    (deposit path contents fs).outcome = .error f ↔ WriteFails path contents fs f := by
  simp only [deposit, Snapshot.place, Action.thenAlways, Action.outcome_bind_eq_error,
    Action.outcome_within_eq_error, Action.outcome_within_eq_ok, Action.files_within,
    Action.change_eq, Action.create_temp_eq]
  constructor
  · rintro (⟨e, failed, rfl⟩ | ⟨_, directory, ⟨e, failed, rfl⟩ | ⟨temporary, created, rest⟩⟩)
    · exact .directory failed
    · exact .temporary directory failed
    · have prepared : Prepared path fs temporary _ := ⟨directory, Prod.ext created rfl⟩
      rcases rest with ⟨e, failed, rfl⟩ |
        ⟨_, written, ⟨e, failed, rfl⟩ | ⟨_, closed, e, failed, rfl⟩⟩
      · exact .writing prepared failed
      · exact .closing prepared written failed
      · exact .moving prepared written closed failed
  · intro h
    cases h with
    | directory failed => exact .inl ⟨_, failed, rfl⟩
    | temporary done failed => exact .inr ⟨(), done, .inl ⟨_, failed, rfl⟩⟩
    | writing prepared failed =>
      refine .inr ⟨(), prepared.directory, .inr ⟨_, congrArg Prod.fst prepared.created, ?_⟩⟩
      rw [prepared.created]
      exact .inl ⟨_, failed, rfl⟩
    | closing prepared written failed =>
      refine .inr ⟨(), prepared.directory, .inr ⟨_, congrArg Prod.fst prepared.created, ?_⟩⟩
      rw [prepared.created]
      exact .inr ⟨(), written, .inl ⟨_, failed, rfl⟩⟩
    | moving prepared written closed failed =>
      refine .inr ⟨(), prepared.directory, .inr ⟨_, congrArg Prod.fst prepared.created, ?_⟩⟩
      rw [prepared.created]
      exact .inr ⟨(), written, .inr ⟨(), closed, _, failed, rfl⟩⟩

theorem save_eq_error : (save w path t fs).outcome = .error f ↔ SaveFails w path t fs f := by
  cases encoded : encode w t with
  | error e =>
    rw [save_of_error encoded]
    constructor
    · rintro ⟨⟩
      exact .encoding encoded
    · rintro (failed | ⟨done, _⟩)
      · cases encoded.symm.trans failed
        rfl
      · cases encoded.symm.trans done
  | ok contents =>
    rw [save_of_ok encoded, deposit_eq_error]
    constructor
    · exact .writing encoded
    · rintro (failed | ⟨done, fails⟩)
      · cases encoded.symm.trans failed
      · cases encoded.symm.trans done
        exact fails

/-- What filling a temporary file and giving it its path comes to. Until the path is given, all that
changes is the temporary file. -/
theorem place_spec (h : made.Grounded) (b : Beside made path temporary place) (contents : Bytes) :
    let ended := Snapshot.place temporary path contents (made.put place (.file []))
    (∃ f s, ended.outcome = .error f ∧ ended.files = made.put place (.file s) ∧
      ∀ state ∈ ended.passed, ∃ s, state = made.put place (.file s)) ∨
    ∃ target, made.locate path = .ok target ∧ made.at? target ≠ some .directory ∧
      FileSystem.key place ≠ FileSystem.key target ∧ ended.outcome = .ok () ∧
      ended.files = made.put target (.file contents) ∧
      ∀ state ∈ ended.passed, (∃ s, state = made.put place (.file s)) ∨ state = ended.files := by
  intro ended
  have appended := b.append [] contents
  cases refused : made.refuses .append temporary with
  | some r =>
    rw [refused] at appended
    have stopped : ended = _ := Action.change_stops appended
    left
    refine ⟨_, [], by rw [stopped], by rw [stopped], ?_⟩
    rw [stopped, List.forall_mem_singleton]
    exact ⟨[], rfl⟩
  | none =>
    rw [refused, List.nil_append] at appended
    have filled : ended = _ := Action.change_then appended
    cases refused : (made.put place (.file contents)).refuses .close temporary with
    | some r =>
      have closed : (made.put place (.file contents)).close temporary =
          (made.put place (.file contents)).refused "close" temporary r := by
        rw [FileSystem.close, refused]
      rw [Action.change_stops closed] at filled
      left
      refine ⟨_, contents, by rw [filled], by rw [filled], ?_⟩
      rw [filled, List.forall_mem_cons, List.forall_mem_singleton]
      exact ⟨⟨contents, rfl⟩, contents, rfl⟩
    | none =>
      have closed : (made.put place (.file contents)).close temporary =
          ⟨made.put place (.file contents), .ok ()⟩ := by
        rw [FileSystem.close, refused]
      rw [Action.change_then closed] at filled
      simp only [Action.within, Action.change] at filled
      rcases b.rename h contents with ⟨cause, unmoved⟩ | ⟨target, located, other, apart, moved⟩
      · rw [unmoved] at filled
        left
        refine ⟨_, contents, by rw [filled]; rfl, by rw [filled], ?_⟩
        rw [filled, List.forall_mem_cons, List.forall_mem_cons, List.forall_mem_singleton]
        exact ⟨⟨contents, rfl⟩, ⟨contents, rfl⟩, contents, rfl⟩
      · rw [moved] at filled
        right
        refine ⟨target, located, other, apart, by rw [filled]; rfl, by rw [filled], ?_⟩
        rw [filled, List.forall_mem_cons, List.forall_mem_cons, List.forall_mem_singleton]
        exact ⟨.inl ⟨contents, rfl⟩, .inl ⟨contents, rfl⟩, .inr rfl⟩

/-- Contents were not written to a path. What was there is there, also in between, and nothing is
left but the directories that were made. -/
structure Unsaved (path : Bytes) (fs made : FileSystem) (ended : Ended Unit) : Prop where
  failed : ∃ f, ended.outcome = .error f
  removed : ended.files = fs ∨ ended.files = made
  passed : ∀ state ∈ ended.passed, state.contents? path = fs.contents? path

/-- Contents were written to a path. What was there or all of the new was there in between. -/
structure Saved (path contents : Bytes) (fs made : FileSystem) (ended : Ended Unit) : Prop where
  done : ended.outcome = .ok ()
  placed : ∃ target, made.locate path = .ok target ∧ made.at? target ≠ some .directory ∧
    ended.files = made.put target (.file contents)
  passed : ∀ state ∈ ended.passed,
    state.contents? path = fs.contents? path ∨ state.contents? path = some contents

theorem place_removed_spec (h : made.Grounded) (b : Beside made path temporary place)
    (contents : Bytes) :
    let ended := (Snapshot.place temporary path contents).thenAlways
      (fun fs => (fs.remove temporary).files) (made.put place (.file []))
    Unsaved path made made ended ∨ Saved path contents made made ended := by
  intro ended
  have beside : ∀ s, (made.put place (.file s)).contents? path = made.contents? path :=
    b.contents_put h
  rcases place_spec h b contents with ⟨f, s, failed, files, passed⟩ |
    ⟨target, located, other, apart, done, files, passed⟩
  · left
    have removed : ended.files = made := by
      show (FileSystem.remove _ _).files = _
      rw [files, b.remove s]
    refine ⟨⟨f, failed⟩, .inl removed, ?_⟩
    intro state mem
    rcases List.mem_append.mp mem with before | last
    · obtain ⟨s', rfl⟩ := passed state before
      exact beside s'
    · have here : state = ended.files := List.mem_singleton.mp last
      rw [here, removed]
  · right
    have stays : ended.files = made.put target (.file contents) := by
      show (FileSystem.remove _ _).files = _
      rw [files, b.remove_gone other apart]
    have new := FileSystem.contents_put located other contents
    refine ⟨done, ⟨target, located, other, stays⟩, ?_⟩
    intro state mem
    rcases List.mem_append.mp mem with before | last
    · rcases passed state before with ⟨s', rfl⟩ | rfl
      · exact .inl (beside s')
      · rw [files]
        exact .inr new
    · have here : state = ended.files := List.mem_singleton.mp last
      rw [here, stays]
      exact .inr new

/-- Writing to a path makes the directories it needs; what is there then is kept, or only the file
at the path is another one. -/
theorem deposit_spec (h : fs.Grounded) (path contents : Bytes) :
    let made := (fs.mkdirAll (Path.directory path)).files
    Unsaved path fs made (deposit path contents fs) ∨
      Saved path contents fs made (deposit path contents fs) := by
  intro made
  obtain ⟨furnished, _⟩ := FileSystem.mkdir_all_furnished fs (Path.directory path)
  have grounded : made.Grounded := furnished.grounded h
  have same : made.contents? path = fs.contents? path := FileSystem.contents_mkdir_all h path
  cases directory : (fs.mkdirAll (Path.directory path)).outcome with
  | error e =>
    have failed : fs.mkdirAll (Path.directory path) = ⟨made, .error e⟩ := by rw [← directory]
    have stopped : deposit path contents fs = _ := Action.change_stops failed
    left
    rw [stopped]
    exact ⟨⟨_, rfl⟩, .inr rfl, List.forall_mem_singleton.mpr same⟩
  | ok u =>
    have done : fs.mkdirAll (Path.directory path) = ⟨made, .ok ()⟩ := by rw [← directory]
    have went : deposit path contents fs = _ := Action.change_then done
    rcases FileSystem.create_temp_beside made path with ⟨cause, uncreated⟩ |
      ⟨temporary, place, b, created⟩
    · have failed : ((Action.createTemp (Path.directory path) (Path.base path)).within
          "creating snapshot temp file" made).outcome =
            .error ((Failure.of cause).within "creating snapshot temp file") := by
        rw [Action.within, Action.createTemp, uncreated]
        rfl
      rw [Action.bind_of_error failed, Action.within, Action.createTemp, uncreated] at went
      left
      rw [went]
      refine ⟨⟨_, rfl⟩, .inr rfl, ?_⟩
      exact List.forall_mem_cons.mpr ⟨same, List.forall_mem_singleton.mpr same⟩
    · have begun : ((Action.createTemp (Path.directory path) (Path.base path)).within
          "creating snapshot temp file" made).outcome = .ok temporary := by
        rw [Action.within, Action.createTemp, created]
        rfl
      rw [Action.bind_of_ok begun, Action.within, Action.createTemp, created] at went
      rw [went]
      have empty : (made.put place (.file [])).contents? path = fs.contents? path :=
        (b.contents_put grounded []).trans same
      rcases place_removed_spec grounded b contents with unsaved | saved
      · left
        obtain ⟨failed, removed, passed⟩ := unsaved
        refine ⟨failed, .inr (or_self_iff.mp removed), ?_⟩
        simp only [List.cons_append, List.nil_append, List.forall_mem_cons]
        exact ⟨same, empty, fun state mem => (passed state mem).trans same⟩
      · right
        obtain ⟨done, placed, passed⟩ := saved
        rw [same] at passed
        refine ⟨done, placed, ?_⟩
        simp only [List.cons_append, List.nil_append, List.forall_mem_cons]
        exact ⟨.inl same, .inl empty, passed⟩

/-- Writing a snapshot fails and leaves every file as it was, or writes all of its contents. -/
theorem save_spec (h : fs.Grounded) (w : Writer) (path : Bytes) (t : Table) :
    let made := (fs.mkdirAll (Path.directory path)).files
    Unsaved path fs made (save w path t fs) ∨
      ∃ contents, encode w t = .ok contents ∧ Saved path contents fs made (save w path t fs) := by
  cases encoded : encode w t with
  | error e =>
    rw [save_of_error encoded]
    exact .inl ⟨⟨e, rfl⟩, .inl rfl, by simp⟩
  | ok contents =>
    rw [save_of_ok encoded]
    rcases deposit_spec h path contents with unsaved | saved
    · exact .inl unsaved
    · exact .inr ⟨contents, rfl, saved⟩

/-! ## Loading -/

theorem keep_files (w : Writer) (path : Bytes) (t : Table) (fs : FileSystem) :
    (keep w path t fs).files = (save w path t fs).files ∧
      (keep w path t fs).passed = (save w path t fs).passed := by
  cases saved : (save w path t fs).outcome with
  | error e =>
    rw [keep, Action.bind_of_error saved]
    exact ⟨rfl, rfl⟩
  | ok u =>
    rw [keep, Action.bind_of_ok saved]
    exact ⟨rfl, List.append_nil _⟩

theorem keep_outcome (w : Writer) (path : Bytes) (t : Table) (fs : FileSystem) :
    (keep w path t fs).outcome = (save w path t fs).outcome.map fun _ => t := by
  cases saved : (save w path t fs).outcome with
  | error e =>
    rw [keep, Action.bind_of_error saved]
    rfl
  | ok u =>
    rw [keep, Action.bind_of_ok saved]
    rfl

variable {built : Traced Table}

/-- A snapshot that cannot be read is made anew from what building gives. -/
theorem load_or_build_new (h : (load path fs).outcome = .error f)
    (recoverable : isRecoverable f = true) (given : built.outcome = .ok t) (w : Writer) :
    (loadOrBuild w path (Action.ofTraced built) fs).files = (save w path t fs).files ∧
      (loadOrBuild w path (Action.ofTraced built) fs).passed = (save w path t fs).passed ∧
      (loadOrBuild w path (Action.ofTraced built) fs).outcome =
        (save w path t fs).outcome.map fun _ => t := by
  rw [load_or_build_miss h recoverable, rebuild_built (t := t) given]
  obtain ⟨files, passed⟩ := keep_files w path t fs
  exact ⟨files, passed, keep_outcome w path t fs⟩

/-- The path leads to a snapshot of this table. -/
def Holds (path : Bytes) (fs : FileSystem) (t : Table) : Prop :=
  ∃ bytes, fs.readFile path = .ok bytes ∧ decode bytes = .ok t

theorem holds_iff : Holds path fs t ↔ (load path fs).outcome = .ok t := by
  rw [load_eq]
  show _ ↔ (inStep _ (fs.readFile path)).bind decode = .ok t
  unfold Holds
  cases fs.readFile path with
  | error e => simp [Except.bind]
  | ok bytes => simp [Except.bind]

/-- Where the path leads to no snapshot, and not to one with a gap, a table is built. -/
theorem recoverable_of_not_holds (none : ∀ t, ¬ Holds path fs t)
    (whole : ∀ bytes, fs.readFile path = .ok bytes → ¬ HasGap bytes) :
    ∃ f, (load path fs).outcome = .error f ∧ isRecoverable f = true := by
  cases read : fs.readFile path with
  | error e =>
    obtain ⟨request, r, rfl⟩ := FileSystem.read_file_eq_error read
    rw [load_eq, read]
    exact ⟨_, rfl, rfl⟩
  | ok bytes =>
    rw [load_outcome read]
    cases decoded : decode bytes with
    | ok t => exact absurd ⟨bytes, read, decoded⟩ (none t)
    | error f => exact ⟨f, rfl, recoverable_of_whole decoded (whole bytes read)⟩

/-! ## Histories -/

/-- What can happen to a snapshot file: it is loaded, with some requests refused, some numbers drawn
and a table or a failure from building; it is removed; or somebody else writes it. -/
inductive Event where
  | load (refuses : Refusals) (draws : Nat → UInt32) (built : Traced Table)
  | discard (refuses : Refusals)
  | overwritten (contents : Bytes)

def Event.after (w : Writer) (path : Bytes) (fs : FileSystem) : Event → FileSystem
  | .load refuses draws built =>
    (loadOrBuild w path (Action.ofTraced built) { fs with refuses, draws }).files
  | .discard refuses => (Snapshot.discard path { fs with refuses }).files
  | .overwritten contents => ({ fs with refuses := .never }.writeFile path contents).files

def history (w : Writer) (path : Bytes) : List Event → FileSystem → FileSystem
  | [], fs => fs
  | event :: events, fs => history w path events (event.after w path fs)

theorem discard_files (path : Bytes) (fs : FileSystem) :
    (Snapshot.discard path fs).files = (fs.remove path).files := by
  have attempted : (Action.attempt (Action.change fun fs => fs.remove path) fs).outcome =
      .ok (fs.remove path).outcome := rfl
  rw [Snapshot.discard, Action.bind_of_ok attempted]
  cases (fs.remove path).outcome with
  | ok u => rfl
  | error f =>
    dsimp only
    split <;> rfl

theorem save_grounded (h : fs.Grounded) (w : Writer) (path : Bytes) (t : Table) :
    (save w path t fs).files.Grounded := by
  have made := (FileSystem.mkdir_all_furnished fs (Path.directory path)).1.grounded h
  rcases save_spec h w path t with unsaved | ⟨contents, _, saved⟩
  · rcases unsaved.removed with same | same
    · rwa [same]
    · rwa [same]
  · obtain ⟨target, located, other, files⟩ := saved.placed
    rw [files]
    exact FileSystem.put_file_grounded made located other contents

theorem load_or_build_grounded (h : fs.Grounded) (w : Writer) (path : Bytes)
    (built : Traced Table) : (loadOrBuild w path (Action.ofTraced built) fs).files.Grounded := by
  cases loaded : (load path fs).outcome with
  | ok t =>
    rw [load_or_build_hit loaded]
    exact h
  | error f =>
    by_cases recoverable : isRecoverable f = true
    · cases given : built.outcome with
      | error e =>
        rw [load_or_build_miss loaded recoverable, rebuild_failed (e := e) given]
        exact h
      | ok t =>
        rw [(load_or_build_new loaded recoverable given w).1]
        exact save_grounded h w path t
    · rw [load_or_build_crash loaded (by simpa using recoverable)]
      exact h

theorem after_grounded (h : fs.Grounded) (event : Event) : (event.after w path fs).Grounded := by
  have same : ∀ refuses draws, FileSystem.Grounded { fs with refuses, draws } := fun _ _ => h
  cases event with
  | load refuses draws built => exact load_or_build_grounded (same refuses draws) w path built
  | discard refuses =>
    rw [Event.after, discard_files]
    exact FileSystem.remove_grounded (same refuses _) path
  | overwritten contents => exact FileSystem.write_file_grounded (same _ _) path contents

theorem history_grounded (h : fs.Grounded) (events : List Event) :
    (history w path events fs).Grounded := by
  induction events generalizing fs with
  | nil => exact h
  | cons event events ih => exact ih (after_grounded h event)

/-- A load for which reading the file is not refused. -/
def Event.Reads (path : Bytes) : Event → Prop
  | .load refuses _ _ => refuses .read path = none
  | _ => False

theorem holds_of_contents {bytes : Bytes} (h : fs.contents? path = some bytes)
    (readable : fs.refuses .read path = none) (decoded : decode bytes = .ok t) :
    Holds path fs t :=
  ⟨bytes, FileSystem.read_file_eq_ok.mpr ⟨readable, h⟩, decoded⟩

theorem contents_system (refuses : Refusals) (draws : Nat → UInt32) (fs : FileSystem)
    (path : Bytes) : FileSystem.contents? { fs with refuses, draws } path = fs.contents? path :=
  FileSystem.contents_congr (fun _ => Iff.rfl) rfl fun _ _ => rfl

/-- Loads that can read the file let its contents be. -/
theorem history_contents {bytes : Bytes} (h : fs.contents? path = some bytes)
    (decoded : decode bytes = .ok t) {events : List Event}
    (reads : ∀ event ∈ events, event.Reads path) :
    (history w path events fs).contents? path = some bytes := by
  induction events generalizing fs with
  | nil => exact h
  | cons event events ih =>
    obtain ⟨first, others⟩ := List.forall_mem_cons.mp reads
    refine ih ?_ others
    cases event with
    | load refuses draws built =>
      have same := (contents_system refuses draws fs path).trans h
      have loaded := holds_iff.mp (holds_of_contents same first decoded)
      rw [Event.after, load_or_build_hit loaded]
      exact same
    | discard refuses => cases first
    | overwritten contents => cases first

/-! ## Every load -/

theorem load_or_build_held (h : Holds path fs t) (w : Writer) (built : Traced Table) :
    (loadOrBuild w path (Action.ofTraced built) fs).outcome = .ok t ∧
      Calls 0 (loadOrBuild w path) fs ∧
      (loadOrBuild w path (Action.ofTraced built) fs).files = fs ∧
      (loadOrBuild w path (Action.ofTraced built) fs).passed = [] := by
  have loaded := holds_iff.mp h
  refine ⟨?_, load_or_build_calls_none ?_, ?_, ?_⟩
  · rw [load_or_build_hit loaded]
  · intro f failed
    cases loaded.symm.trans failed
  · rw [load_or_build_hit loaded]
  · rw [load_or_build_hit loaded]

theorem load_or_build_unsaved (grounded : fs.Grounded) (h : (load path fs).outcome = .error f)
    (recoverable : isRecoverable f = true) (given : built.outcome = .ok t)
    (failed : SaveFails w path t fs e) :
    (loadOrBuild w path (Action.ofTraced built) fs).outcome = .error e ∧
      (loadOrBuild w path (Action.ofTraced built) fs).files.contents? path = fs.contents? path ∧
      ∀ k, (loadOrBuild w path (Action.ofTraced built) fs).files.fileAt k = fs.fileAt k := by
  obtain ⟨files, _, outcome⟩ := load_or_build_new h recoverable given w
  have failed' := save_eq_error.mpr failed
  rw [files, outcome, failed']
  rcases save_spec grounded w path t with unsaved | ⟨_, _, saved⟩
  · rcases unsaved.removed with same | same
    · rw [same]
      exact ⟨rfl, rfl, fun _ => rfl⟩
    · rw [same]
      exact ⟨rfl, FileSystem.contents_mkdir_all grounded path,
        (FileSystem.mkdir_all_furnished fs _).1.file_at⟩
  · cases failed'.symm.trans saved.done

theorem load_or_build_saved (grounded : fs.Grounded) (h : (load path fs).outcome = .error f)
    (recoverable : isRecoverable f = true) (given : built.outcome = .ok t)
    (free : ∀ e, ¬ SaveFails w path t fs e) :
    (loadOrBuild w path (Action.ofTraced built) fs).outcome = .ok t ∧
      ∃ contents, encode w t = .ok contents ∧
        (loadOrBuild w path (Action.ofTraced built) fs).files.contents? path = some contents ∧
        ∃ target, (loadOrBuild w path (Action.ofTraced built) fs).files.locate path = .ok target ∧
          ∀ k, (loadOrBuild w path (Action.ofTraced built) fs).files.fileAt k =
            if k = FileSystem.key target then some contents else fs.fileAt k := by
  obtain ⟨files, _, outcome⟩ := load_or_build_new h recoverable given w
  rcases save_spec grounded w path t with unsaved | ⟨contents, encoded, saved⟩
  · obtain ⟨e, failed⟩ := unsaved.failed
    exact absurd (save_eq_error.mp failed) (free e)
  · obtain ⟨target, located, other, placed⟩ := saved.placed
    rw [files, outcome, saved.done, placed]
    refine ⟨rfl, contents, encoded, FileSystem.contents_put located other _, target,
      (FileSystem.locate_put other).mpr located, ?_⟩
    intro k
    rw [FileSystem.file_at_put]
    split
    · rfl
    · exact (FileSystem.mkdir_all_furnished fs _).1.file_at k

theorem load_or_build_passed (grounded : fs.Grounded) (w : Writer) (path : Bytes)
    (built : Traced Table) :
    ∀ state ∈ (loadOrBuild w path (Action.ofTraced built) fs).passed,
      state.contents? path = fs.contents? path ∨ ∃ t contents, built.outcome = .ok t ∧
        encode w t = .ok contents ∧ state.contents? path = some contents := by
  cases loaded : (load path fs).outcome with
  | ok t => simp [load_or_build_hit loaded]
  | error f =>
    by_cases recoverable : isRecoverable f = true
    · cases given : built.outcome with
      | error e =>
        rw [load_or_build_miss loaded recoverable, rebuild_failed (e := e) given]
        simp [Action.ofTraced]
      | ok t =>
        rw [(load_or_build_new loaded recoverable given w).2.1]
        intro state mem
        rcases save_spec grounded w path t with unsaved | ⟨contents, encoded, saved⟩
        · exact .inl (unsaved.passed state mem)
        · exact (saved.passed state mem).imp_right fun new => ⟨t, contents, rfl, encoded, new⟩
    · simp [load_or_build_crash loaded (by simpa using recoverable)]

end Snapshot

end Overworld
