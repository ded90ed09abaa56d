import Overworld.Proofs.Outcome
import Overworld.Proofs.SnapshotRoundTrip
import Overworld.Snapshot.Cache

/-!
# Loading snapshots

What the bytes of a snapshot come to. They give a table, or they are reported as a bad snapshot and
a table is built in its place. Only a list of records with a gap is neither read nor reported: it
ends the run.
-/

set_option autoImplicit false

namespace Overworld

/-- The causes that report a snapshot as bad. -/
def Cause.isBadSnapshot : Cause → Bool
  | .snapshotMark | .snapshotBody | .snapshotDuplicate _ _ _ => true
  | _ => false

namespace Snapshot

open Raw (Record Table)

variable {bytes path : Bytes} {t t' : Table} {x : Option Record} {f e : Failure}
  {fs : FileSystem} {build : Action Table} {w : Writer}

/-! ## Bytes -/

/-- The records that a snapshot lists, where they can be read at all. -/
def listed? (bytes : Bytes) : Option (List (Option Record)) := do
  let rest ← Bytes.dropBeginning? mark bytes
  let contents ← Zstandard.decode rest
  let (records, _) ← Raw.recordsCodec.read none contents
  return records.getD []

/-- A record is missing from what a snapshot lists, and up to there no identifier occurs twice. -/
def HasGap (bytes : Bytes) : Prop :=
  ∃ (rs : List Record) (after : List (Option Record)),
    listed? bytes = some (rs.map some ++ none :: after) ∧ (rs.map (·.data.id)).Nodup

theorem decode_of_listed {xs : List (Option Record)} (h : listed? bytes = some xs) :
    decode bytes = xs.foldlM insert Table.empty := by
  simp only [listed?, Option.bind_eq_bind, Option.bind_eq_some_iff] at h
  obtain ⟨rest, marked, contents, decoded, ⟨records, left⟩, read, same⟩ := h
  cases same
  simp only [decode, marked, decoded, ofBody, read]

theorem decode_of_unlisted (h : listed? bytes = none) :
    ∃ cause, decode bytes = fail cause ∧ cause.isBadSnapshot = true := by
  unfold decode
  unfold listed? at h
  cases marked : Bytes.dropBeginning? mark bytes with
  | none => exact ⟨.snapshotMark, rfl, rfl⟩
  | some rest =>
    cases decoded : Zstandard.decode rest with
    | none => exact ⟨.snapshotBody, by simp only [decoded], rfl⟩
    | some contents =>
      cases read : Raw.recordsCodec.read none contents with
      | none => exact ⟨.snapshotBody, by simp only [decoded, ofBody, read], rfl⟩
      | some pair => simp [marked, decoded, read] at h

theorem insert_eq_error : insert t x = .error f ↔
    x = none ∧ f = .of .missingRecord ∨ ∃ r existing, x = some r ∧
      t.get? r.data.id = some existing ∧
        f = .of (.snapshotDuplicate r.data.id existing.data.name r.data.name) := by
  cases x with
  | none => simp [insert, fail, eq_comm]
  | some r => cases found : t.get? r.data.id <;> simp [insert, found, fail, eq_comm]

theorem decode_gap (h : HasGap bytes) : decode bytes = fail .missingRecord := by
  obtain ⟨rs, after, listed, distinct⟩ := h
  rw [decode_of_listed listed]
  apply foldlM_eq_error.mpr
  refine ⟨rs.map some, none, after, rs.foldl Table.add Table.empty, rfl, ?_, rfl⟩
  exact foldlM_insert_eq_ok.mpr ⟨rs, rfl, distinct, fun _ _ => rfl, rfl⟩

/-- Whatever keeps a snapshot from being read is reported, unless it is a gap. -/
theorem decode_error_cases (h : decode bytes = .error f) :
    f.cause.isBadSnapshot = true ∨ f = .of .missingRecord ∧ HasGap bytes := by
  cases listed : listed? bytes with
  | none =>
    obtain ⟨cause, failed, bad⟩ := decode_of_unlisted listed
    rw [failed] at h
    cases h
    exact .inl bad
  | some xs =>
    rw [decode_of_listed listed] at h
    obtain ⟨before, x, after, t, rfl, done, failed⟩ := foldlM_eq_error.mp h
    obtain ⟨rs, rfl, distinct, _⟩ := foldlM_insert_eq_ok.mp done
    rcases insert_eq_error.mp failed with ⟨rfl, missing⟩ | ⟨_, _, _, _, rfl⟩
    · exact .inr ⟨missing, rs, after, listed, distinct⟩
    · exact .inl rfl

theorem decode_eq_missing_iff : decode bytes = fail .missingRecord ↔ HasGap bytes := by
  constructor
  · intro h
    rcases decode_error_cases h with bad | ⟨_, gap⟩
    · cases bad
    · exact gap
  · exact decode_gap

theorem recoverable_of_whole (h : decode bytes = .error f) (whole : ¬ HasGap bytes) :
    isRecoverable f = true := by
  rcases decode_error_cases h with bad | ⟨_, gap⟩
  · rw [isRecoverable, decide_eq_true_eq]
    intro missing
    rw [missing] at bad
    cases bad
  · exact absurd gap whole

/-! ## Files -/

theorem load_eq (path : Bytes) (fs : FileSystem) : load path fs =
    ⟨[], fs, (inStep ("reading snapshot " ++ Utf8.shown path) (fs.readFile path)).bind decode,
      []⟩ := by
  cases read : fs.readFile path with
  | error e =>
    have unread : (((Action.readFile path).within ("reading snapshot " ++ Utf8.shown path))
        fs).outcome = .error (e.within ("reading snapshot " ++ Utf8.shown path)) := by
      simp [Action.within, Action.readFile, read]
    exact Action.bind_of_error unread
  | ok bytes =>
    have read : (((Action.readFile path).within ("reading snapshot " ++ Utf8.shown path))
        fs).outcome = .ok bytes := by
      simp [Action.within, Action.readFile, read]
    exact Action.bind_of_ok read

theorem load_outcome (h : fs.readFile path = .ok bytes) :
    (load path fs).outcome = decode bytes := by
  rw [load_eq, h]
  rfl

/-- Writes a table that was built to the file. -/
def keep (w : Writer) (path : Bytes) (t : Table) : Action Table := do
  save w path t
  Action.report .info "wrote snapshot"
    [("path", .text (Utf8.shown path)), ("maps", .number t.size)]
  return t

def warning (path : Bytes) (f : Failure) : Log.Entry :=
  ⟨.warn, "snapshot cannot be read; rebuilding",
    [("path", .text (Utf8.shown path)), ("error", .text f.message)]⟩

/-- Builds in place of a snapshot that cannot be read. -/
def rebuild (w : Writer) (path : Bytes) (f : Failure) (build : Action Table) : Action Table := do
  Action.report (warning path f).level (warning path f).text (warning path f).fields
  let t ← build.within "rebuilding snapshot"
  keep w path t

theorem load_or_build_hit (h : (load path fs).outcome = .ok t) (build : Action Table) :
    loadOrBuild w path build fs = ⟨[⟨.info, "loaded snapshot",
      [("path", .text (Utf8.shown path)), ("maps", .number t.size)]⟩], fs, .ok t, []⟩ := by
  have attempted : ((load path).attempt fs).outcome = .ok (.ok t) := by
    simp [Action.attempt, h]
  unfold loadOrBuild
  rw [Action.bind_of_ok attempted, Action.attempt, load_eq]
  rfl

theorem load_or_build_miss (h : (load path fs).outcome = .error f)
    (recoverable : isRecoverable f = true) (build : Action Table) :
    loadOrBuild w path build fs = rebuild w path f build fs := by
  have attempted : ((load path).attempt fs).outcome = .ok (.error f) := by
    simp [Action.attempt, h]
  unfold loadOrBuild
  rw [Action.bind_of_ok attempted, Action.attempt, load_eq]
  simp only [recoverable, if_true]
  rfl

theorem load_or_build_crash (h : (load path fs).outcome = .error f)
    (stuck : isRecoverable f = false) (build : Action Table) :
    loadOrBuild w path build fs = ⟨[], fs, .error f, []⟩ := by
  have attempted : ((load path).attempt fs).outcome = .ok (.error f) := by
    simp [Action.attempt, h]
  unfold loadOrBuild
  rw [Action.bind_of_ok attempted, Action.attempt, load_eq]
  simp only [stuck, Bool.false_eq_true, if_false]
  rfl

theorem rebuild_failed (h : (build fs).outcome = .error e) (w : Writer) (path : Bytes)
    (f : Failure) :
    rebuild w path f build fs = ⟨warning path f :: (build fs).log, (build fs).files,
      .error (e.within "rebuilding snapshot"), (build fs).passed⟩ := by
  have failed : (build.within "rebuilding snapshot" fs).outcome =
      .error (e.within "rebuilding snapshot") := by
    simp [Action.within, h]
  show (Action.report _ _ _ >>= fun _ => build.within "rebuilding snapshot" >>= keep w path) fs = _
  rw [Action.bind_of_ok rfl]
  simp only [Action.report, Action.ofTraced, Traced.report, Action.bind_of_error failed]
  rfl

theorem rebuild_built (h : (build fs).outcome = .ok t) (w : Writer) (path : Bytes) (f : Failure) :
    rebuild w path f build fs =
      ⟨warning path f :: ((build fs).log ++ (keep w path t (build fs).files).log),
        (keep w path t (build fs).files).files, (keep w path t (build fs).files).outcome,
        (build fs).passed ++ (keep w path t (build fs).files).passed⟩ := by
  have built : (build.within "rebuilding snapshot" fs).outcome = .ok t := by
    simp [Action.within, h]
  show (Action.report _ _ _ >>= fun _ => build.within "rebuilding snapshot" >>= keep w path) fs = _
  rw [Action.bind_of_ok rfl]
  simp only [Action.report, Action.ofTraced, Traced.report, Action.bind_of_ok built]
  rfl

/-! ## Calls of building -/

/-- The same action, announced by an entry of the log. -/
def announced (entry : Log.Entry) (build : Action Table) : Action Table := do
  Action.report entry.level entry.text entry.fields
  build

/-- What is given an action to build with calls it so many times: an announcement is logged so many
times more. -/
def Calls (n : Nat) (use : Action Table → Action Table) (fs : FileSystem) : Prop :=
  ∀ build entry,
    (use (announced entry build) fs).log.count entry = (use build fs).log.count entry + n

theorem announced_eq (entry : Log.Entry) (build : Action Table) (fs : FileSystem) :
    announced entry build fs =
      ⟨entry :: (build fs).log, (build fs).files, (build fs).outcome, (build fs).passed⟩ := by
  rw [announced, Action.bind_of_ok rfl]
  rfl

theorem load_or_build_calls_none (h : ∀ f, (load path fs).outcome = .error f →
    isRecoverable f = false) : Calls 0 (loadOrBuild w path) fs := by
  intro build entry
  cases loaded : (load path fs).outcome with
  | ok t => rw [load_or_build_hit loaded, load_or_build_hit loaded, Nat.add_zero]
  | error f =>
    have stuck := h f loaded
    rw [load_or_build_crash loaded stuck, load_or_build_crash loaded stuck, Nat.add_zero]

theorem load_or_build_calls_once (h : (load path fs).outcome = .error f)
    (recoverable : isRecoverable f = true) : Calls 1 (loadOrBuild w path) fs := by
  intro build entry
  rw [load_or_build_miss h recoverable, load_or_build_miss h recoverable]
  cases built : (build fs).outcome with
  | error e =>
    have built' : (announced entry build fs).outcome = .error e := by rw [announced_eq, built]
    rw [rebuild_failed built, rebuild_failed built', announced_eq]
    simp only [List.count_cons, beq_self_eq_true, if_true]
    omega
  | ok t =>
    have built' : (announced entry build fs).outcome = .ok t := by rw [announced_eq, built]
    rw [rebuild_built built, rebuild_built built', announced_eq]
    simp only [List.count_cons, List.count_append, List.cons_append, beq_self_eq_true, if_true]
    omega

/-! ## Every contents of the file -/

/-- Every byte string is read as a table or reported as a bad snapshot, unless a gap is met. A file
with such contents gives the table without building, or building is called, once. A gap is not
reported: loading a file with one ends there, and nothing is built. -/
theorem decode_reports_all_but_gaps (bytes : Bytes) :
    ((∃ t, decode bytes = .ok t) ∨
      (∃ f, decode bytes = .error f ∧ f.cause.isBadSnapshot = true) ∨
        decode bytes = fail .missingRecord) ∧
    (decode bytes = fail .missingRecord ↔ HasGap bytes) ∧
    ∀ w path fs, fs.readFile path = .ok bytes →
      (∀ t, decode bytes = .ok t → Calls 0 (loadOrBuild w path) fs ∧
        ∀ build, (loadOrBuild w path build fs).outcome = .ok t) ∧
      (∀ f, decode bytes = .error f → ¬ HasGap bytes → Calls 1 (loadOrBuild w path) fs) ∧
      (HasGap bytes → Calls 0 (loadOrBuild w path) fs ∧
        ∀ build, (loadOrBuild w path build fs).outcome = fail .missingRecord) := by
  refine ⟨?_, decode_eq_missing_iff, ?_⟩
  · cases decoded : decode bytes with
    | ok t => exact .inl ⟨t, rfl⟩
    | error f =>
      rcases decode_error_cases decoded with bad | ⟨rfl, _⟩
      · exact .inr (.inl ⟨f, rfl, bad⟩)
      · exact .inr (.inr rfl)
  · intro w path fs read
    have loaded := load_outcome read
    refine ⟨?_, ?_, ?_⟩
    · intro t decoded
      rw [decoded] at loaded
      refine ⟨load_or_build_calls_none ?_, fun build => by rw [load_or_build_hit loaded]⟩
      intro f failed
      cases loaded.symm.trans failed
    · intro f decoded noGap
      rw [decoded] at loaded
      apply load_or_build_calls_once loaded
      exact recoverable_of_whole decoded noGap
    · intro gap
      rw [decode_gap gap] at loaded
      refine ⟨load_or_build_calls_none ?_, fun build => ?_⟩
      · intro f failed
        cases loaded.symm.trans failed
        rfl
      · rw [load_or_build_crash loaded rfl]
        rfl

/-- A file in which the frame was cut off is rebuilt once. -/
theorem cut_off_file_rebuilt :
    let fs := (FileSystem.empty.writeFile (utf8 "parsed.bin") (mark ++ [0x28, 0xB5])).files
    fs.readFile (utf8 "parsed.bin") = .ok (mark ++ [0x28, 0xB5]) ∧
      Calls 1 (loadOrBuild .standard (utf8 "parsed.bin")) fs := by
  intro fs
  have read : fs.readFile (utf8 "parsed.bin") = .ok (mark ++ [0x28, 0xB5]) := by decide +kernel
  obtain ⟨_, gap, loading⟩ := decode_reports_all_but_gaps (mark ++ [0x28, 0xB5])
  have failed : decode (mark ++ [0x28, 0xB5]) = fail .snapshotBody := by decide +kernel
  refine ⟨read, (loading .standard _ fs read).2.1 _ failed ?_⟩
  intro found
  have missing := gap.mpr found
  rw [failed] at missing
  cases missing

/-- A well-formed snapshot whose only record is missing: neither a table nor reported as bad. -/
theorem gap_not_reported :
    let bytes : Bytes :=
      mark ++ [0x28, 0xB5, 0x2F, 0xFD, 0x20, 0x02, 0x11, 0x00, 0x00, 0x91, 0xC0]
    decode bytes = fail .missingRecord ∧ Cause.isBadSnapshot .missingRecord = false := by
  decide +kernel

end Snapshot

end Overworld
