import Overworld.Proofs.Outcome
import Overworld.Proofs.WorkerPool
import Mathlib.Algebra.GroupWithZero.Nat
import Mathlib.Data.List.Pairwise

/-!
# What a pool of workers assembles

A run of the pool always comes to its end, and its result does not depend on the order of
the steps or on the number of workers. It is the graph that results when the records are added
one after the other, or else a fault of the records themselves; a failure that only followed
from calling the run off is never the result.
-/

set_option autoImplicit false

namespace Overworld.Assembly

variable {convert : Converter} {workers : Nat} {rs : List Raw.Record} {r : Raw.Record}
  {s s' : Shared} {φ φ' : Phase} {p q : Pool}

/-- An upper bound for the steps that are left. -/
def Pool.work (p : Pool) : Nat := (p.tasks.map (·.phase.work)).sum

theorem advance_work (h : Advance convert r s φ s' φ') : φ'.work < φ.work := by
  cases h with
  | convert => rcases (convert r).outcome with f | _ | m <;> simp [Phase.ofOutcome, Phase.work]
  | _ => simp [Phase.work]

theorem step_work (h : Pool.Step convert workers p q) : q.work < p.work := by
  cases h with
  | take next free => simp [Pool.work, Phase.work]
  | advance h =>
    have := advance_work h
    simp only [Pool.work, List.map_append, List.map_cons, List.sum_append, List.sum_cons]
    omega

theorem step_well_founded (convert : Converter) (workers : Nat) :
    WellFounded fun q p => Pool.Step convert workers p q :=
  Subrelation.wf step_work (measure Pool.work).wf

theorem advance_running (h : Advance convert r s φ s' φ') : φ.isRunning = true := by
  cases h <;> rfl

theorem run_in_flight (run : Pool.Run convert workers (.start rs) p) : p.inFlight ≤ workers := by
  induction run with
  | refl => simp [Pool.start, Pool.inFlight, Phase.isRunning, List.countP_map, Function.comp_def]
  | tail _ step ih =>
    cases step with
    | take next free =>
      simp only [Pool.inFlight, List.countP_append, List.countP_cons, Phase.isRunning] at free ⊢
      simp only [Bool.false_eq_true, if_false, if_true] at free ⊢
      omega
    | advance h =>
      simp only [Pool.inFlight, List.countP_append, List.countP_cons, advance_running h,
        if_true] at ih ⊢
      split <;> omega

/-- A task that holds a worker can go on, unless it waits for another that is calling the run
off. -/
theorem advance_of_running (sound : p.Sound convert) {t : Task} (ht : t ∈ p.tasks)
    (running : t.phase.isRunning = true) :
    ∃ t' ∈ p.tasks, ∃ s' φ', Advance convert t'.record p.shared t'.phase s' φ' := by
  obtain ⟨r, φ⟩ := t
  cases φ with
  | queued => cases running
  | started =>
    cases h : p.shared.cancelled with
    | true => exact ⟨_, ht, _, _, .refuse h⟩
    | false => exact ⟨_, ht, _, _, .enter h⟩
  | admitted => exact ⟨_, ht, _, _, .convert⟩
  | converted m =>
    cases h : p.shared.graph.insertIfAbsent m with
    | inserted g => exact ⟨_, ht, _, _, .store h⟩
    | taken x => exact ⟨_, ht, _, _, .lose h⟩
  | lost m => exact ⟨_, ht, _, _, .collide⟩
  | returned f =>
    cases f with
    | none => exact ⟨_, ht, _, _, .succeed⟩
    | some f =>
      cases hk : p.shared.kept with
      | none => exact ⟨_, ht, _, _, .keep hk⟩
      | some k =>
        have kept : p.shared.kept.isSome = true := by rw [hk]; rfl
        rcases sound.calling kept with called | ⟨⟨r', φ'⟩, ht', f', hf⟩
        · exact ⟨_, ht, _, _, .drop kept called⟩
        · subst hf
          exact ⟨_, ht', _, _, .cancel⟩
  | cancelling f => exact ⟨_, ht, _, _, .cancel⟩
  | finished f => cases running

theorem progress (hw : 1 ≤ workers) (sound : p.Sound convert) :
    p.Complete ∨ ∃ q, Pool.Step convert workers p q := by
  by_cases busy : ∃ t ∈ p.tasks, t.phase.isRunning = true
  · obtain ⟨t, ht, running⟩ := busy
    obtain ⟨t', ht', s', φ', h⟩ := advance_of_running sound ht running
    obtain ⟨before, after, e⟩ := List.append_of_mem ht'
    obtain ⟨tasks, s⟩ := p
    subst e
    exact .inr ⟨_, .advance h⟩
  · -- no worker is busy, so the first queued record can be taken
    have idle : p.inFlight = 0 := by
      refine List.countP_eq_zero.mpr ?_
      intro t ht running
      exact busy ⟨t, ht, running⟩
    cases hf : p.tasks.find? (·.phase.isQueued) with
    | none =>
      left
      intro t ht
      have hq := List.find?_eq_none.mp hf t ht
      have hr : ¬ t.phase.isRunning = true := fun running => busy ⟨t, ht, running⟩
      cases hp : t.phase with
      | finished f => exact ⟨f, rfl⟩
      | queued => exact absurd (by rw [hp]; rfl) hq
      | _ => exact absurd (by rw [hp]; rfl) hr
    | some t =>
      right
      obtain ⟨hq, before, after, e, first⟩ := List.find?_eq_some_iff_append.mp hf
      obtain ⟨r, φ⟩ := t
      obtain ⟨tasks, s⟩ := p
      cases φ with
      | queued =>
        simp only at e
        subst e
        refine ⟨_, .take ?_ (by omega)⟩
        intro t ht
        simpa using first t ht
      | _ => cases hq

theorem run_completes (hw : 1 ≤ workers) (hn : rs.Nodup)
    (run : Pool.Run convert workers (.start rs) p) :
    ∃ q, Pool.Run convert workers p q ∧ q.Complete := by
  induction p using (step_well_founded convert workers).induction with
  | _ p ih =>
    rcases progress hw (run_sound hn run).2 with done | ⟨q, step⟩
    · exact ⟨p, .refl, done⟩
    · obtain ⟨q', run', done⟩ := ih q step (run.tail step)
      exact ⟨q', .head step run', done⟩

/-- Whether records can make up a graph: each can be converted or is skipped, and no two of
them lead to one location. -/
def Consistent (convert : Converter) (rs : List Raw.Record) : Prop :=
  (∀ r ∈ rs, ∃ x, (convert r).outcome = .ok x) ∧
    ((rs.filterMap (mapOf convert)).map (·.id.key)).Nodup

/-- Whether a record is skipped. -/
def isSkipped (convert : Converter) (r : Raw.Record) : Bool :=
  match (convert r).outcome with
  | .ok none => true
  | _ => false

/-- The number of records that are skipped. -/
def skipped (convert : Converter) (rs : List Raw.Record) : Nat := rs.countP (isSkipped convert)

theorem fault_not_consistent {f : Failure} (fault : Fault convert rs f) :
    ¬ Consistent convert rs := by
  rintro ⟨ok, distinct⟩
  cases fault with
  | conversion mem h =>
    obtain ⟨x, hx⟩ := ok _ mem
    rw [h] at hx
    cases hx
  | @collision r r' m m' mem mem' ne h h' key =>
    have pairs := (List.pairwise_filterMap.mp (List.pairwise_map.mp distinct))
    have sym : Std.Symm fun a b : Raw.Record => ∀ x, mapOf convert a = some x →
        ∀ y, mapOf convert b = some y → x.id.key ≠ y.id.key :=
      ⟨fun a b hab x hx y hy e => hab y hy x hx e.symm⟩
    exact pairs.forall mem mem' ne m (map_of_eq_some.mpr h) m' (map_of_eq_some.mpr h') key

theorem converted_add_skipped (ok : ∀ r ∈ rs, ∃ x, (convert r).outcome = .ok x) :
    (rs.filterMap (mapOf convert)).length + skipped convert rs = rs.length := by
  induction rs with
  | nil => rfl
  | cons r rs ih =>
    have tail := ih fun r hr => ok r (by simp [hr])
    obtain ⟨x, hx⟩ := ok r (by simp)
    cases x with
    | none =>
      simp only [skipped, List.filterMap_cons, List.countP_cons, mapOf, isSkipped, hx] at tail ⊢
      simp only [if_true, List.length_cons]
      omega
    | some m =>
      simp only [skipped, List.filterMap_cons, List.countP_cons, mapOf, isSkipped, hx] at tail ⊢
      simp only [List.length_cons, Bool.false_eq_true, if_false]
      omega

/-- What adding one record comes to. -/
theorem add_record_outcome (g : Graph) (r : Raw.Record) :
    (addRecord convert g r).outcome = match (convert r).outcome with
      | .error f => .error (conversionFailure r f)
      | .ok none => .ok g
      | .ok (some m) => match g.insertIfAbsent m with
        | .inserted g' => .ok g'
        | .taken x => .error (collisionFailure m x) := by
  unfold addRecord
  rcases ho : (convert r).outcome with f | _ | m
  · simp [ho, Except.bind, conversionFailure]
  · simp [ho, Except.bind]
  · cases hi : g.insertIfAbsent m <;>
      simp [ho, hi, Except.bind, collisionFailure, fail]

/-- Adding records one after the other to a graph in which their places are free. -/
theorem add_records_outcome {g : Graph} (ok : ∀ r ∈ rs, ∃ x, (convert r).outcome = .ok x)
    (distinct : (g.keys ++ (rs.filterMap (mapOf convert)).map (·.id.key)).Nodup) :
    ∃ g', (addRecords convert rs g).outcome = .ok g' ∧
      g'.maps.entries.Perm (g.maps.entries ++ (rs.filterMap (mapOf convert)).map entry) := by
  induction rs generalizing g with
  | nil => exact ⟨g, rfl, by simp⟩
  | cons r rs ih =>
    have tail : ∀ r ∈ rs, ∃ x, (convert r).outcome = .ok x := fun r hr => ok r (by simp [hr])
    obtain ⟨x, hx⟩ := ok r (by simp)
    have first : (addRecord convert g r).outcome = _ := add_record_outcome g r
    simp only [hx] at first
    cases x with
    | none =>
      have hm : mapOf convert r = none := by simp [mapOf, hx]
      simp only [List.filterMap_cons, hm] at distinct ⊢
      obtain ⟨g', hg, hp⟩ := ih tail distinct
      exact ⟨g', by simp [addRecords, first, hg, Except.bind], hp⟩
    | some m =>
      have hm : mapOf convert r = some m := map_of_eq_some.mpr hx
      simp only [List.filterMap_cons, hm, List.map_cons] at distinct ⊢
      have free : g.maps.find? m.id.key = none := by
        rw [Dict.find_eq_none_iff]
        intro h
        exact (List.nodup_append.mp distinct).2.2 _ h _ (by simp) rfl
      have placed := Dict.insert_perm free m
      simp only [Graph.insertIfAbsent, free] at first
      have keys : ((g.maps.insert m.id.key m).keys ++
          (rs.filterMap (mapOf convert)).map (·.id.key)).Nodup := by
        refine (List.Perm.nodup_iff ?_).mpr distinct
        refine ((placed.map Prod.fst).append_right _).trans ?_
        exact List.perm_middle.symm
      obtain ⟨g', hg, hp⟩ := ih (g := ⟨g.maps.insert m.id.key m⟩) tail keys
      refine ⟨g', by simp [addRecords, first, hg, Except.bind], hp.trans ?_⟩
      refine (placed.append_right _).trans ?_
      exact List.perm_middle.symm

theorem complete_failures (sound : p.Sound convert) (done : p.Complete)
    (none : p.shared.kept = none) : ∀ t ∈ p.tasks, t.phase = .finished .none := by
  intro t ht
  obtain ⟨f, hf⟩ := done t ht
  have fits := sound.fits t ht
  rw [hf] at fits
  cases f with
  | none => exact hf
  | some f =>
    rw [Phase.Fits, none] at fits
    cases fits

/-- A complete run that kept no failure holds the maps of all its records. -/
theorem complete_graph (sound : p.Sound convert) (done : p.Complete)
    (none : p.shared.kept = none) :
    p.shared.graph.maps.entries.Perm ((p.records.filterMap (mapOf convert)).map entry) ∧
      ∀ r ∈ p.records, ∃ x, (convert r).outcome = .ok x := by
  have finished := complete_failures sound done none
  constructor
  · have stored : p.tasks.filterMap (Task.stored convert) =
        p.records.filterMap (mapOf convert) := by
      rw [Pool.records, List.filterMap_map]
      refine List.filterMap_congr ?_
      intro t ht
      simp [Task.stored, finished t ht]
    rw [← stored]
    exact sound.graph
  · intro r hr
    obtain ⟨t, ht, rfl⟩ := List.mem_map.mp hr
    have fits := sound.fits t ht
    rw [finished t ht] at fits
    exact fits

theorem complete_consistent (sound : p.Sound convert) (done : p.Complete)
    (none : p.shared.kept = none) : Consistent convert p.records := by
  obtain ⟨perm, ok⟩ := complete_graph sound done none
  refine ⟨ok, ?_⟩
  have keys := (perm.map Prod.fst).nodup_iff.mp p.shared.graph.maps.keys_nodup
  simpa [entry, Function.comp_def] using keys

theorem table_nodup (t : Raw.Table) : t.toList.Nodup := by
  refine List.Nodup.of_map (·.data.id) ?_
  have same : t.toList.map (·.data.id) = t.records.keys := by
    simp only [Raw.Table.toList, Dict.values, Dict.keys, List.map_map]
    exact List.map_congr_left t.keyed
  rw [same]
  exact t.records.keys_nodup

theorem assemble_outcome (convert : Converter) (t : Raw.Table) :
    (assemble convert t false).outcome = (addRecords convert t.toList Graph.empty).outcome := by
  unfold assemble
  cases h : (addRecords convert t.toList Graph.empty).outcome <;> simp [h, Except.bind]

/-- Every schedule assembles the same. At any time at most `workers` tasks are in flight and the
run can be brought to its end, which every schedule reaches. A complete run hands out a graph
exactly when the records are consistent. That graph holds one entry for each converted record,
under its key, and is the graph of adding the records one after the other, so it depends neither
on the schedule nor on the number of workers. Otherwise the run hands out a fault of the records,
never a failure that only followed from calling the run off. -/
theorem every_schedule_assembles_exactly (convert : Converter) (t : Raw.Table) (workers : Nat)
    (hw : 1 ≤ workers) :
    (WellFounded fun q p => Pool.Step convert workers p q) ∧
    (∀ p, Pool.Run convert workers (.start t.toList) p →
      p.inFlight ≤ workers ∧ ∃ q, Pool.Run convert workers p q ∧ q.Complete) ∧
    ∀ p, Pool.Run convert workers (.start t.toList) p → p.Complete →
      ((∃ g, p.outcome = .ok g) ↔ Consistent convert t.toList) ∧
      (∀ g, p.outcome = .ok g →
        g.maps.entries.Perm ((t.toList.filterMap (mapOf convert)).map entry) ∧
        g.size + skipped convert t.toList = t.size ∧
        (assemble convert t false).outcome = .ok g) ∧
      (∀ f, p.outcome = .error f → Fault convert t.toList f) := by
  have hn := table_nodup t
  refine ⟨step_well_founded convert workers,
    fun p run => ⟨run_in_flight run, run_completes hw hn run⟩, ?_⟩
  intro p run done
  obtain ⟨records, sound⟩ := run_sound hn run
  rw [← records]
  have outcome_error : ∀ f, p.outcome = .error f → p.shared.kept = some f := by
    intro f h
    unfold Pool.outcome at h
    split at h <;> simp_all
  have outcome_ok : ∀ g, p.outcome = .ok g → p.shared.kept = none ∧ p.shared.graph = g := by
    intro g h
    unfold Pool.outcome at h
    split at h <;> simp_all
  refine ⟨⟨?_, ?_⟩, ?_, fun f h => sound.kept f (outcome_error f h)⟩
  · rintro ⟨g, h⟩
    exact complete_consistent sound done (outcome_ok g h).1
  · intro consistent
    cases h : p.outcome with
    | ok g => exact ⟨g, rfl⟩
    | error f => exact absurd consistent (fault_not_consistent (sound.kept f (outcome_error f h)))
  · intro g h
    obtain ⟨none, rfl⟩ := outcome_ok g h
    obtain ⟨perm, ok⟩ := complete_graph sound done none
    obtain ⟨_, distinct⟩ := complete_consistent sound done none
    refine ⟨perm, ?_, ?_⟩
    · have total := converted_add_skipped ok
      have size : t.size = p.records.length := by
        rw [records, Raw.Table.toList, Dict.values, List.length_map]
        rfl
      rw [size, ← total, Graph.size, Dict.size, perm.length_eq, List.length_map]
    · obtain ⟨g', hg, hp⟩ := add_records_outcome (g := Graph.empty) ok
        (by simpa [Graph.keys, Graph.empty, Dict.keys, Dict.empty] using distinct)
      have same : g'.maps = p.shared.graph.maps := Dict.ext_perm (hp.trans perm.symm)
      rw [assemble_outcome, ← records, hg]
      cases g'
      cases hgraph : p.shared.graph
      simp_all

/-- Two records that lead to one location: every complete run of two workers, of which there is
one, ends with their collision. -/
theorem colliding_records_fail :
    let convert : Converter := fun r =>
      ⟨[], .ok (some { (default : WorldMap) with name := r.data.name })⟩
    let t : Raw.Table := (Raw.Table.empty.add { (default : Raw.Record) with
      data := { (default : Raw.MapData) with id := [1] } }).add default
    1 ≤ 2 ∧ ∃ p, Pool.Run convert 2 (.start t.toList) p ∧ p.Complete ∧
      ∃ f, p.outcome = .error f ∧ Fault convert t.toList f := by
  intro convert t
  refine ⟨by decide, ?_⟩
  obtain ⟨-, runs, results⟩ := every_schedule_assembles_exactly convert t 2 (by decide)
  obtain ⟨p, run, done⟩ := (runs _ .refl).2
  obtain ⟨consistent, -, fault⟩ := results p run done
  refine ⟨p, run, done, ?_⟩
  cases h : p.outcome with
  | error f => exact ⟨f, rfl, fault f h⟩
  | ok g => exact absurd (consistent.mp ⟨g, h⟩).2 (by decide)

end Overworld.Assembly
