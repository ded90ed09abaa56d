import Overworld.Proofs.FileEffects
import Overworld.Proofs.Reruns

/-!
# Runs that fail before they write

A run writes to its output only after the whole graph could be built. Until then the snapshot is all
that it writes, with the directories that the snapshot needs. So a table that cannot be loaded,
records that do not make up a graph, and a run that is called off leave the output as it was.
-/

set_option autoImplicit false

namespace Overworld

/-! ## Directories on the way to a file -/

namespace Path

variable {place cs names : List Bytes} {p : Bytes}

/-- On the way up and then down, one is above the beginning or above the end. -/
theorem follow_up_down (named : ∀ n ∈ names, n ≠ [] ∧ n ≠ dot ∧ n ≠ dotDot) (ups : Nat)
    (begins : cs <+: List.replicate ups dotDot ++ names) :
    follow place cs <+: place ∨
      follow place cs <+: follow place (List.replicate ups dotDot ++ names) := by
  induction ups generalizing place cs with
  | zero =>
    have begins' : cs <+: names := begins
    have named' : ∀ n ∈ cs, n ≠ [] ∧ n ≠ dot ∧ n ≠ dotDot :=
      fun n mem => named n (begins'.subset mem)
    right
    show _ <+: follow place names
    rw [follow_names named, follow_names named']
    exact (List.prefix_append_right_inj _).mpr begins'
  | succ ups ih =>
    cases cs with
    | nil => exact .inl List.prefix_rfl
    | cons c cs =>
      obtain ⟨rfl, begins'⟩ := List.cons_prefix_cons.mp begins
      rcases @ih place.dropLast cs begins' with above | above
      · exact .inl (above.trans (List.dropLast_prefix place))
      · exact .inr above

theorem follow_clean_begins (root : isRooted p = true → place = [])
    (begins : cs <+: components (clean p)) :
    follow place cs <+: place ∨ follow place cs <+: follow place (components p) := by
  obtain ⟨ups, names, split, _, named⟩ := reduce_up_down (isRooted p) (components p)
  have whole := follow_reduce root (components p)
  have body : ∀ ds, ds <+: (if reduce (isRooted p) (components p) = [] then
      [if isRooted p then [] else dot] else reduce (isRooted p) (components p)) →
      follow place ds <+: place ∨ follow place ds <+: follow place (components p) := by
    intro ds begins
    by_cases nothing : reduce (isRooted p) (components p) = []
    · rw [if_pos nothing] at begins
      left
      rcases List.prefix_concat_iff.mp (show ds <+: [] ++ _ from begins) with rfl | begins
      · cases isRooted p <;> exact List.prefix_rfl
      · rw [List.prefix_nil.mp begins]
        exact List.prefix_rfl
    · rw [if_neg nothing, split] at begins
      rw [← whole, split]
      exact follow_up_down named ups begins
  rw [components_clean] at begins
  cases rooted : isRooted p with
  | false =>
    rw [rooted] at begins body
    exact body cs begins
  | true =>
    rw [rooted] at begins body
    cases cs with
    | nil => exact .inl List.prefix_rfl
    | cons c cs =>
      obtain ⟨rfl, begins'⟩ := List.cons_prefix_cons.mp begins
      exact body cs begins'

end Path

namespace FileSystem

open Overworld.Path (follow)

variable {fs fs' : FileSystem} {path p : Bytes} {d out q : List Bytes}

theorem covers_longer (used : q ≠ []) (h : Covers out q) (begins : q <+: d) : Covers out d := by
  obtain ⟨rest, rfl⟩ := begins
  by_cases nothing : rest = []
  · rwa [nothing, List.append_nil]
  · have longer := begins_key used nothing
    rcases h with top | same | below
    · exact .inl top
    · exact .inr (.inr (same ▸ longer))
    · exact .inr (.inr ((below.trans (List.prefix_append _ _)).trans longer))

theorem place_of_directory (fs : FileSystem) (path : Bytes) :
    fs.placeOf path = Path.step (fs.placeOf (Path.directory path)) (Path.lastPart path) := by
  obtain ⟨before, init, dir, split, rooted, leads, _⟩ := Path.directory_spec path
  have same : fs.origin before = fs.origin path := by
    rw [origin, rooted]
    rfl
  rw [dir, place_of_clean, placeOf, split, Path.follow_snoc, placeOf, same, leads]

/-- What covers the directory of a file covers the file, unless the file's path leads further up. -/
theorem covers_directory (used : fs.placeOf (Path.directory path) ≠ [])
    (h : Covers out (fs.placeOf (Path.directory path))) :
    Covers out (fs.placeOf path) ∨ Covers (fs.placeOf path) out := by
  rw [place_of_directory fs path]
  generalize fs.placeOf (Path.directory path) = d at used h
  unfold Path.step
  split
  · exact .inl h
  · split
    · have whole := List.dropLast_concat_getLast used
      generalize d.dropLast = up at whole
      by_cases top : up = []
      · exact .inr (.inl top)
      · have below := begins_key top (List.cons_ne_nil (d.getLast used) [])
        rw [whole] at below
        rcases h with top' | same | above
        · exact .inl (.inl top')
        · exact .inr (.inr (.inr (same ▸ below)))
        · rcases List.prefix_or_prefix_of_prefix above below with first | second
          · exact .inl (covers_of_begins first)
          · exact .inr (covers_of_begins second)
    · exact .inl (covers_longer used h (List.prefix_append _ _))

/-- The directories that are made for a file are not below a place that is apart from the file. -/
theorem made_apart (grounded : fs.Grounded) (apart : ¬ Covers out (fs.placeOf path))
    (apart' : ¬ Covers (fs.placeOf path) out) (h : Covers out q) :
    (fs.mkdirAll (Path.directory path)).files.at? q = fs.at? q := by
  by_contra changed
  obtain ⟨place, ⟨cs, begins, rfl⟩, nothing, same⟩ : fs.Missing (Path.directory path) (key q) := by
    by_contra other
    exact changed ((mkdir_all_confined fs _).at_same other)
  have here : fs.at? (fs.origin (Path.directory path)) = some .directory := by
    rcases (mkdir_all_furnished fs (Path.directory path)).1.begun with unchanged | here
    · rw [unchanged] at changed
      exact absurd rfl changed
    · exact here
  have used : follow (fs.origin (Path.directory path)) cs ≠ [] := by
    intro top
    rw [top] at nothing
    cases nothing
  have covered : Covers out (follow (fs.origin (Path.directory path)) cs) := by
    unfold Covers at h ⊢
    rwa [← same]
  obtain ⟨before, _, dir, _, _⟩ := Path.directory_spec path
  have root : Path.isRooted before = true → fs.origin (Path.directory path) = [] := by
    intro rooted
    rw [dir]
    exact origin_rooted (by rw [Path.is_rooted_clean, rooted])
  rw [dir] at begins
  rcases Path.follow_clean_begins root begins with ⟨rest, above⟩ | above
  · rw [← above] at here
    cases nothing.symm.trans (grounded.above_all here)
  · have leads : follow (fs.origin (Path.directory path)) (Path.components before) =
        fs.placeOf (Path.directory path) := by
      have split : Path.components (Path.directory path) = Path.components (Path.clean before) := by
        rw [dir]
      rw [placeOf, split]
      exact (Path.follow_clean root).symm
    rw [leads] at above
    have used' : fs.placeOf (Path.directory path) ≠ [] := by
      intro top
      rw [top] at above
      exact used (List.prefix_nil.mp above)
    rcases covers_directory used' (covers_longer used covered above) with met | met
    · exact apart met
    · exact apart' met

end FileSystem

/-! ## What writing a snapshot changes -/

namespace Snapshot

open FileSystem (Covers key)

variable {fs : FileSystem} {path : Bytes} {out q : List Bytes}

theorem save_apart (grounded : fs.Grounded) (apart : ¬ Covers out (fs.placeOf path))
    (apart' : ¬ Covers (fs.placeOf path) out) (h : Covers out q) (w : Writer) (t : Raw.Table) :
    (save w path t fs).files.at? q = fs.at? q := by
  have made := FileSystem.made_apart grounded apart apart' h
  have other : key q ≠ key (fs.placeOf path) := by
    intro same
    apply apart
    unfold Covers at h ⊢
    rwa [← same]
  rcases save_spec grounded w path t with unsaved | ⟨contents, _, saved⟩
  · rcases unsaved.removed with same | same
    · rw [same]
    · rw [same, made]
  · obtain ⟨target, located, _, files⟩ := saved.placed
    obtain rfl := FileSystem.locate_place_of located
    rw [FileSystem.place_of_start (FileSystem.mkdir_all_confined fs _).start] at files
    rw [files, ← made]
    exact (FileSystem.put_confined _ _ _).at_same other

/-- Loading the table lets be what is apart from the snapshot. -/
theorem load_or_build_apart (grounded : fs.Grounded) (apart : ¬ Covers out (fs.placeOf path))
    (apart' : ¬ Covers (fs.placeOf path) out) (h : Covers out q) (w : Writer)
    (built : Traced Raw.Table) :
    (loadOrBuild w path (Action.ofTraced built) fs).files.at? q = fs.at? q := by
  cases loaded : (load path fs).outcome with
  | ok t => rw [load_or_build_hit loaded]
  | error f =>
    by_cases recoverable : isRecoverable f = true
    · cases given : built.outcome with
      | error e =>
        rw [load_or_build_miss loaded recoverable, rebuild_failed (e := e) given]
        rfl
      | ok t =>
        rw [(load_or_build_new loaded recoverable given w).1]
        exact save_apart grounded apart apart' h w t
    · rw [load_or_build_crash loaded (by simpa using recoverable)]

end Snapshot

/-! ## Pools that are called off -/

namespace Assembly

variable {convert : Converter} {workers : Nat} {rs : List Raw.Record} {r : Raw.Record}
  {s s' : Shared} {φ φ' : Phase} {p q : Pool}

/-- A step of a run that can also be called off from outside. -/
inductive Pool.Exposed (convert : Converter) (workers : Nat) : Pool → Pool → Prop
  | step {p q : Pool} (h : Pool.Step convert workers p q) : Exposed convert workers p q
  | callOff {p : Pool} :
      Exposed convert workers p { p with shared := { p.shared with cancelled := true } }

abbrev Pool.ExposedRun (convert : Converter) (workers : Nat) : Pool → Pool → Prop :=
  Relation.ReflTransGen (Pool.Exposed convert workers)

def Phase.hasFailed : Phase → Bool
  | .returned (some _) | .cancelling _ | .finished (some _) => true
  | _ => false

/-- Nothing has gone wrong yet. -/
structure Pool.Unharmed (p : Pool) : Prop where
  kept : p.shared.kept = none
  tasks : ∀ t ∈ p.tasks, t.phase.hasFailed = false

/-- The same pool, not called off. -/
def Pool.calm (p : Pool) : Pool := { p with shared := { p.shared with cancelled := false } }

/-- A failure stays, so an action after which there is none does not depend on whether the run was
called off. -/
theorem advance_calm (h : Advance convert r s φ s' φ') (kept : s'.kept = none)
    (fine : φ'.hasFailed = false) :
    s.kept = none ∧ φ.hasFailed = false ∧
      Advance convert r { s with cancelled := false } φ { s' with cancelled := false } φ' := by
  cases h with
  | refuse h => cases fine
  | enter h => exact ⟨kept, rfl, .enter rfl⟩
  | convert => exact ⟨kept, rfl, .convert⟩
  | breakOff h f => cases fine
  | store h => exact ⟨kept, rfl, .store h⟩
  | lose h => exact ⟨kept, rfl, .lose h⟩
  | collide => cases fine
  | succeed => exact ⟨kept, rfl, .succeed⟩
  | keep h => cases fine
  | cancel => cases fine
  | drop h called => cases fine

theorem step_calm (h : Pool.Step convert workers p q) (unharmed : q.Unharmed) :
    p.Unharmed ∧ Pool.Step convert workers p.calm q.calm := by
  obtain ⟨kept, fine⟩ := unharmed
  cases h with
  | @take before after r s next free =>
    obtain ⟨fineBefore, fineRest⟩ := List.forall_mem_append.mp fine
    obtain ⟨_, fineAfter⟩ := List.forall_mem_cons.mp fineRest
    refine ⟨⟨kept, List.forall_mem_append.mpr ⟨fineBefore, ?_⟩⟩, .take next free⟩
    exact List.forall_mem_cons.mpr ⟨rfl, fineAfter⟩
  | @advance before after r s s' φ φ' h =>
    obtain ⟨fineBefore, fineRest⟩ := List.forall_mem_append.mp fine
    obtain ⟨fineHere, fineAfter⟩ := List.forall_mem_cons.mp fineRest
    obtain ⟨kept', fine', advance⟩ := advance_calm h kept fineHere
    refine ⟨⟨kept', List.forall_mem_append.mpr ⟨fineBefore, ?_⟩⟩, .advance advance⟩
    exact List.forall_mem_cons.mpr ⟨fine', fineAfter⟩

/-- A run in which nothing has gone wrong is one that was not called off. -/
theorem run_calm (run : Pool.ExposedRun convert workers (.start rs) p) (unharmed : p.Unharmed) :
    Pool.Run convert workers (.start rs) p.calm := by
  induction run with
  | refl => exact .refl
  | tail _ step ih =>
    cases step with
    | step h =>
      obtain ⟨before, step⟩ := step_calm h unharmed
      exact (ih before).tail step
    | callOff => exact ih ⟨unharmed.kept, unharmed.tasks⟩

/-- Whether the failure of the task was kept or dropped. -/
def Phase.isHeard : Phase → Bool
  | .cancelling _ | .finished (some _) => true
  | _ => false

theorem advance_heard (h : Advance convert r s φ s' φ')
    (before : φ.isHeard = true → s.kept.isSome = true) :
    φ'.isHeard = true → s'.kept.isSome = true := by
  intro heard
  cases h with
  | convert =>
    rcases ho : (convert r).outcome with f | _ | m <;>
      simp [Phase.ofOutcome, Phase.isHeard, ho] at heard
  | keep h => rfl
  | cancel => exact before rfl
  | drop h called => exact h
  | _ => cases heard

theorem exposed_heard (h : Pool.Exposed convert workers p q)
    (heard : ∀ t ∈ p.tasks, t.phase.isHeard = true → p.shared.kept.isSome = true) :
    ∀ t ∈ q.tasks, t.phase.isHeard = true → q.shared.kept.isSome = true := by
  cases h with
  | callOff => exact heard
  | step h =>
    cases h with
    | take next free => exact forall_mem_replaced heard (by simp [Phase.isHeard])
    | @advance before after r s s' φ φ' h =>
      have here : φ.isHeard = true → s.kept.isSome = true := heard ⟨r, φ⟩ (by simp)
      refine forall_mem_replaced (t := ⟨r, φ⟩) ?_ (advance_heard h here)
      intro t mem before
      exact (advance_grows h).kept (heard t mem before)

/-- No task is over with a failure while none is kept, whoever called the run off. -/
theorem run_heard (run : Pool.ExposedRun convert workers (.start rs) p) :
    ∀ t ∈ p.tasks, t.phase.isHeard = true → p.shared.kept.isSome = true := by
  induction run with
  | refl =>
    intro t mem heard
    obtain ⟨r, _, rfl⟩ := List.mem_map.mp mem
    cases heard
  | tail _ step ih => exact exposed_heard step ih

/-- A run that hands out a graph, even one that was called off, is an undisturbed run. -/
theorem exposed_graph {g : Graph} (run : Pool.ExposedRun convert workers (.start rs) p)
    (done : p.Complete) (assembled : p.outcome = .ok g) :
    Pool.Run convert workers (.start rs) p.calm ∧ p.calm.Complete ∧ p.calm.outcome = .ok g := by
  have kept : p.shared.kept = none := (outcome_eq_ok.mp assembled).1
  refine ⟨run_calm run ⟨kept, ?_⟩, done, assembled⟩
  intro t mem
  obtain ⟨f, finished⟩ := done t mem
  cases f with
  | none => rw [finished]; rfl
  | some f =>
    have some := run_heard run t mem (by rw [finished]; rfl)
    rw [kept] at some
    cases some

theorem run_exposed (run : Pool.Run convert workers p q) : Pool.ExposedRun convert workers p q :=
  run.lift id fun _ _ => .step

/-- The task of a record that is taken after the run was called off. -/
def refused (r : Raw.Record) : Task := ⟨r, .finished (some (.of .canceled))⟩

theorem none_in_flight (before rs : List Raw.Record) (s : Shared) :
    Pool.inFlight ⟨before.map refused ++ rs.map (⟨·, .queued⟩), s⟩ = 0 := by
  simp [Pool.inFlight, Phase.isRunning, refused, List.countP_map, Function.comp_def]

/-- Once the run was called off, the records that are left are refused one after the other. -/
theorem refuse_rest (hw : 1 ≤ workers) (kept : s.kept.isSome = true) (called : s.cancelled = true)
    (before rs : List Raw.Record) :
    Pool.Run convert workers ⟨before.map refused ++ rs.map (⟨·, .queued⟩), s⟩
      ⟨(before ++ rs).map refused, s⟩ := by
  induction rs generalizing before with
  | nil => simpa using Relation.ReflTransGen.refl
  | cons r rs ih =>
    have taken : Pool.Step convert workers
        ⟨before.map refused ++ ⟨r, .queued⟩ :: rs.map (⟨·, .queued⟩), s⟩ _ :=
      .take (by simp [refused, Phase.isQueued]) ((none_in_flight before (r :: rs) s).trans_lt hw)
    have rest := ih (before ++ [r])
    simp only [List.map_append, List.map_cons, List.map_nil, List.append_assoc,
      List.singleton_append] at rest ⊢
    have refusedOne := ((Relation.ReflTransGen.single taken).tail (.advance (.refuse called))).tail
      (.advance (.drop kept called))
    exact refusedOne.trans rest

/-- A run that is called off before its first record is taken ends with that. -/
theorem called_off_run (hw : 1 ≤ workers) (r : Raw.Record) (rs : List Raw.Record) :
    ∃ p, Pool.ExposedRun convert workers (.start (r :: rs)) p ∧ p.Complete ∧
      p.outcome = .error (.of .canceled) := by
  have taken : Pool.Step convert workers
      ⟨[] ++ ⟨r, .queued⟩ :: rs.map (⟨·, .queued⟩), ⟨Graph.empty, none, true⟩⟩ _ :=
    .take (by simp) ((none_in_flight [] (r :: rs) _).trans_lt hw)
  have first : Pool.Run convert workers _ ⟨[] ++ refused r :: rs.map (⟨·, .queued⟩),
      ⟨Graph.empty, some (.of .canceled), true⟩⟩ :=
    (((Relation.ReflTransGen.single taken).tail (.advance (.refuse rfl))).tail
      (.advance (.keep rfl))).tail (.advance .cancel)
  have rest : Pool.Run convert workers _ _ :=
    refuse_rest (s := ⟨Graph.empty, some (.of .canceled), true⟩) hw rfl rfl [r] rs
  refine ⟨_, Relation.ReflTransGen.head .callOff (run_exposed (first.trans rest)), ?_, rfl⟩
  intro t mem
  obtain ⟨_, _, rfl⟩ := List.mem_map.mp mem
  exact ⟨_, rfl⟩

end Assembly

/-! ## Whole runs -/

namespace Generation

open Assembly (Pool Fault Consistent)
open FileSystem (Covers key)

variable {workers : Nat} {plan : Plan} {fetch : FileSystem → Source.Fetch} {fs : FileSystem}
  {given : Except Failure Raw.Table} {convert : Raw.Table → Converter}
  {result : Except Failure Graph} {e : Failure}

/-- What building a graph can come to, from what loading the table gave. The records are converted
by a number of workers, whose steps come in any order, and the run may be called off at any time. -/
inductive Builds (workers : Nat) (given : Except Failure Raw.Table)
    (convert : Raw.Table → Converter) : Except Failure Graph → Prop
  | unloaded {e : Failure} (failed : given = .error e) :
      Builds workers given convert (.error (e.within "loading raw maps"))
  | assembled {t : Raw.Table} {p : Pool} (loaded : given = .ok t)
      (run : Pool.ExposedRun (convert t) workers (.start t.toList) p) (done : p.Complete) :
      Builds workers given convert (inStep "assembling world graph" p.outcome)

/-- A run from what building came to on. -/
def finish (plan : Plan) (result : Except Failure Graph) : Action Manifest := do
  let g ← Action.ofExcept result
  let manifest ← g.write plan.output plan.runId
  Action.report .info "wrote world graph"
    [("dir", .text (Utf8.shown plan.output)), ("maps", .number manifest.count),
      ("digest", .text (Utf8.shown manifest.digest))]
  return manifest

/-- The table could not be loaded, or its records do not make up a graph. -/
def Doomed (given : Except Failure Raw.Table) (convert : Raw.Table → Converter) : Prop :=
  (∃ e, given = .error e) ∨ ∃ t f, given = .ok t ∧ Fault (convert t) t.toList f

theorem not_doomed {t : Raw.Table} (h : Consistent (convert t) t.toList) :
    ¬ Doomed (.ok t) convert := by
  rintro (⟨e, failed⟩ | ⟨_, f, ⟨⟩, fault⟩)
  · cases failed
  · exact Assembly.fault_not_consistent fault h

theorem builds_doomed (h : Builds workers given convert result) (doomed : Doomed given convert) :
    ∃ e, result = .error e := by
  cases h with
  | unloaded failed => exact ⟨_, rfl⟩
  | @assembled t p loaded run done =>
    cases ended : p.outcome with
    | error e => exact ⟨_, rfl⟩
    | ok g =>
      obtain ⟨calm, done', ended'⟩ := Assembly.exposed_graph run done ended
      rw [loaded] at doomed
      exact absurd doomed (not_doomed (Assembly.consistent_of_outcome calm done' ended'))

theorem finish_failed (plan : Plan) (e : Failure) (fs : FileSystem) :
    finish plan (.error e) fs = ⟨[], fs, .error e, []⟩ := rfl

theorem run_ended (plan : Plan) (fetch : FileSystem → Source.Fetch) (fs : FileSystem) :
    let built := build plan fetch fs
    (run plan fetch fs).outcome = (finish plan built.outcome built.files).outcome ∧
      (run plan fetch fs).files = (finish plan built.outcome built.files).files := by
  intro built
  cases ended : built.outcome with
  | error e =>
    have stopped : run plan fetch fs = _ := Action.bind_of_error ended
    rw [stopped]
    exact ⟨rfl, rfl⟩
  | ok g =>
    have went : run plan fetch fs = _ := Action.bind_of_ok ended
    rw [went]
    exact ⟨rfl, rfl⟩

theorem build_ended (plan : Plan) (fetch : FileSystem → Source.Fetch) (fs : FileSystem) :
    (build plan fetch fs).files = (loaded plan fetch fs).files ∧
      (Doomed (loaded plan fetch fs).outcome (converter plan fetch (loaded plan fetch fs).files) →
        ∃ e, (build plan fetch fs).outcome = .error e) := by
  have within : ((Snapshot.loadOrBuild plan.writer plan.snapshot (retrieve fetch)).within
      "loading raw maps" fs).outcome =
        inStep "loading raw maps" (loaded plan fetch fs).outcome := rfl
  cases given : (loaded plan fetch fs).outcome with
  | error e =>
    rw [given, in_step_error] at within
    have stopped : build plan fetch fs = _ := Action.bind_of_error within
    rw [stopped]
    exact ⟨rfl, fun _ => ⟨_, rfl⟩⟩
  | ok t =>
    rw [given, in_step_ok] at within
    have went : build plan fetch fs = _ := Action.bind_of_ok within
    rw [went]
    refine ⟨rfl, ?_⟩
    intro doomed
    show ∃ e, (Assembly.build (converter plan fetch (loaded plan fetch fs).files) t
      false).outcome = .error e
    cases ended : (Assembly.build (converter plan fetch (loaded plan fetch fs).files) t
        false).outcome with
    | error e => exact ⟨e, rfl⟩
    | ok g =>
      obtain ⟨consistent, _⟩ := Assembly.assemble_eq_ok.mp (Assembly.build_eq_ok.mp ended)
      exact absurd doomed (not_doomed consistent)

end Generation

end Overworld
