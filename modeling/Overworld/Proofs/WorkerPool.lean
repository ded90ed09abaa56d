import Overworld.World.Assembly
import Overworld.Proofs.Dictionary
import Mathlib.Logic.Relation

/-!
# Assembly by a pool of workers

The records of a table are converted by tasks that run side by side, at most so many at
once. A task looks whether the run was called off, converts its record, stores the map
where its place is free, and hands back a failure or none. The first failure handed back
is kept and calls the run off; later ones are dropped.

A step of the pool is one atomic action of one task, so a run is any interleaving of the
tasks. Converting is a function of the record until the run is called off; from then on it
may also break off with any failure.
-/

set_option autoImplicit false

namespace Overworld.Assembly

/-- How far a task has come. -/
inductive Phase where
  /-- No worker has taken the record yet. -/
  | queued
  | started
  /-- The run was not called off when the task looked. -/
  | admitted
  | converted (m : WorldMap)
  /-- The place of the map was taken when the task tried to store it. -/
  | lost (m : WorldMap)
  /-- The task is over and has still to hand back what went wrong. -/
  | returned (failure : Option Failure)
  /-- The failure of the task is kept, and the run is about to be called off. -/
  | cancelling (failure : Failure)
  /-- The worker is free again. -/
  | finished (failure : Option Failure)

/-- A record and how far its task has come. -/
structure Task where
  record : Raw.Record
  phase : Phase

/-- What the tasks share. -/
structure Shared where
  graph : Graph
  kept : Option Failure
  cancelled : Bool

/-- A failed conversion as it is handed back. -/
def conversionFailure (r : Raw.Record) (f : Failure) : Failure :=
  f.within ("converting map " ++ Quoted.quote r.data.name)

/-- A map whose place is taken by another, as it is handed back. -/
def collisionFailure (m existing : WorldMap) : Failure :=
  .of (.duplicateLocation m.id m.name existing.name)

/-- Where a task goes on after its record was converted. -/
def Phase.ofOutcome (r : Raw.Record) : Except Failure (Option WorldMap) → Phase
  | .ok (some m) => .converted m
  | .ok none => .returned none
  | .error f => .returned (some (conversionFailure r f))

/-- One atomic action of the task of a record. -/
inductive Advance (convert : Converter) (r : Raw.Record) :
    Shared → Phase → Shared → Phase → Prop
  | refuse {s : Shared} (h : s.cancelled = true) :
      Advance convert r s .started s (.returned (some (.of .canceled)))
  | enter {s : Shared} (h : s.cancelled = false) : Advance convert r s .started s .admitted
  | convert {s : Shared} :
      Advance convert r s .admitted s (.ofOutcome r (convert r).outcome)
  | breakOff {s : Shared} (h : s.cancelled = true) (f : Failure) :
      Advance convert r s .admitted s (.returned (some (conversionFailure r f)))
  | store {s : Shared} {m : WorldMap} {g : Graph} (h : s.graph.insertIfAbsent m = .inserted g) :
      Advance convert r s (.converted m) { s with graph := g } (.returned none)
  | lose {s : Shared} {m existing : WorldMap}
      (h : s.graph.insertIfAbsent m = .taken existing) :
      Advance convert r s (.converted m) s (.lost m)
  /-- The task reads which map stands in its place; were there none, it would read an empty
  one. -/
  | collide {s : Shared} {m : WorldMap} :
      Advance convert r s (.lost m) s
        (.returned (some (collisionFailure m ((s.graph.get? m.id).getD default))))
  | succeed {s : Shared} : Advance convert r s (.returned none) s (.finished none)
  | keep {s : Shared} {f : Failure} (h : s.kept = none) :
      Advance convert r s (.returned (some f)) { s with kept := some f } (.cancelling f)
  | cancel {s : Shared} {f : Failure} :
      Advance convert r s (.cancelling f) { s with cancelled := true } (.finished (some f))
  /-- A failure after the first waits until the first one has called the run off. -/
  | drop {s : Shared} {f : Failure} (h : s.kept.isSome = true) (called : s.cancelled = true) :
      Advance convert r s (.returned (some f)) s (.finished (some f))

/-- The tasks in the order of the table, and what they share. -/
structure Pool where
  tasks : List Task
  shared : Shared

namespace Phase

/-- Whether the task still waits for a worker. -/
def isQueued : Phase → Bool
  | .queued => true
  | _ => false

/-- Whether the task holds a worker. -/
def isRunning : Phase → Bool
  | .queued | .finished _ => false
  | _ => true

/-- An upper bound for the actions that a task still takes. -/
def work : Phase → Nat
  | .queued => 7
  | .started => 6
  | .admitted => 5
  | .converted _ => 4
  | .lost _ => 3
  | .returned _ => 2
  | .cancelling _ => 1
  | .finished _ => 0

end Phase

namespace Pool

/-- The pool before the first task. -/
def start (rs : List Raw.Record) : Pool := ⟨rs.map (⟨·, .queued⟩), ⟨Graph.empty, none, false⟩⟩

/-- The records of the tasks. -/
def records (p : Pool) : List Raw.Record := p.tasks.map (·.record)

/-- How many workers are busy. -/
def inFlight (p : Pool) : Nat := p.tasks.countP (·.phase.isRunning)

/-- Whether every task is over. -/
def Complete (p : Pool) : Prop := ∀ t ∈ p.tasks, ∃ f, t.phase = .finished f

/-- What is handed out when every task is over: the kept failure, or else the graph. -/
def outcome (p : Pool) : Except Failure Graph :=
  match p.shared.kept with
  | some f => .error f
  | none => .ok p.shared.graph

/-- One step: the next queued record is taken by a free worker, or a task advances. -/
inductive Step (convert : Converter) (workers : Nat) : Pool → Pool → Prop
  | take {before after : List Task} {r : Raw.Record} {s : Shared}
      (next : ∀ t ∈ before, t.phase.isQueued = false)
      (free : inFlight ⟨before ++ ⟨r, .queued⟩ :: after, s⟩ < workers) :
      Step convert workers ⟨before ++ ⟨r, .queued⟩ :: after, s⟩
        ⟨before ++ ⟨r, .started⟩ :: after, s⟩
  | advance {before after : List Task} {r : Raw.Record} {s s' : Shared} {φ φ' : Phase}
      (h : Advance convert r s φ s' φ') :
      Step convert workers ⟨before ++ ⟨r, φ⟩ :: after, s⟩ ⟨before ++ ⟨r, φ'⟩ :: after, s'⟩

/-- Any number of steps. -/
abbrev Run (convert : Converter) (workers : Nat) : Pool → Pool → Prop :=
  Relation.ReflTransGen (Step convert workers)

end Pool

/-- What can go wrong with records themselves: one of them cannot be converted, or two of
them lead to one location. -/
inductive Fault (convert : Converter) (rs : List Raw.Record) : Failure → Prop
  | conversion {r : Raw.Record} {f : Failure} (mem : r ∈ rs) (h : (convert r).outcome = .error f) :
      Fault convert rs (conversionFailure r f)
  | collision {r r' : Raw.Record} {m m' : WorldMap} (mem : r ∈ rs) (mem' : r' ∈ rs) (ne : r ≠ r')
      (h : (convert r).outcome = .ok (some m)) (h' : (convert r').outcome = .ok (some m'))
      (key : m.id.key = m'.id.key) :
      Fault convert rs (collisionFailure m m')

/-- What a phase says about the record of its task and about what the tasks share. -/
def Phase.Fits (convert : Converter) (rs : List Raw.Record) (s : Shared) (r : Raw.Record) :
    Phase → Prop
  | .queued | .started | .admitted => True
  | .converted m => (convert r).outcome = .ok (some m)
  | .lost m => (convert r).outcome = .ok (some m) ∧ ∃ x, s.graph.get? m.id = some x
  | .returned none | .finished none => ∃ x, (convert r).outcome = .ok x
  | .returned (some f) => Fault convert rs f ∨ s.cancelled = true
  | .cancelling _ | .finished (some _) => s.kept.isSome = true

/-- The map that a record is converted to, if it is. -/
def mapOf (convert : Converter) (r : Raw.Record) : Option WorldMap :=
  match (convert r).outcome with
  | .ok x => x
  | .error _ => none

theorem map_of_eq_some {convert : Converter} {r : Raw.Record} {m : WorldMap} :
    mapOf convert r = some m ↔ (convert r).outcome = .ok (some m) := by
  unfold mapOf
  split <;> simp_all

/-- The map that a task has put into the graph. -/
def Task.stored (convert : Converter) (t : Task) : Option WorldMap :=
  match t.phase with
  | .returned none | .finished none => mapOf convert t.record
  | _ => none

/-- A map under its key. -/
def entry (m : WorldMap) : Bytes × WorldMap := (m.id.key, m)

/-- What holds in every run. The graph holds what the tasks have stored, each task fits its
phase, and a failure is kept only for a fault of the records. -/
structure Pool.Sound (convert : Converter) (p : Pool) : Prop where
  graph : p.shared.graph.maps.entries.Perm ((p.tasks.filterMap (Task.stored convert)).map entry)
  fits : ∀ t ∈ p.tasks, t.phase.Fits convert p.records p.shared t.record
  kept : ∀ f, p.shared.kept = some f → Fault convert p.records f
  cancelled : p.shared.cancelled = true → p.shared.kept.isSome = true
  calling : p.shared.kept.isSome = true →
    p.shared.cancelled = true ∨ ∃ t ∈ p.tasks, ∃ f, t.phase = .cancelling f

theorem insert_eq_inserted {g g' : Graph} {m : WorldMap} (h : g.insertIfAbsent m = .inserted g') :
    g.get? m.id = none ∧ g' = ⟨g.maps.insert m.id.key m⟩ := by
  unfold Graph.insertIfAbsent at h
  split at h
  · cases h
  · rename_i hf
    cases h
    exact ⟨hf, rfl⟩

theorem insert_eq_taken {g : Graph} {m x : WorldMap} (h : g.insertIfAbsent m = .taken x) :
    g.get? m.id = some x := by
  unfold Graph.insertIfAbsent at h
  split at h
  · rename_i hf
    cases h
    exact hf
  · cases h

/-- Nothing that the tasks share is ever taken back. -/
structure Shared.Grows (s s' : Shared) : Prop where
  graph : ∀ l x, s.graph.get? l = some x → s'.graph.get? l = some x
  kept : s.kept.isSome = true → s'.kept.isSome = true
  cancelled : s.cancelled = true → s'.cancelled = true

theorem Shared.Grows.refl (s : Shared) : s.Grows s := ⟨fun _ _ h => h, id, id⟩

variable {convert : Converter} {workers : Nat} {rs : List Raw.Record} {r : Raw.Record}
  {s s' : Shared} {φ φ' : Phase}

theorem advance_grows (h : Advance convert r s φ s' φ') : s.Grows s' := by
  cases h with
  | @store m _ h =>
    obtain ⟨free, rfl⟩ := insert_eq_inserted h
    refine ⟨?_, id, id⟩
    intro l x hx
    have ne : l.key ≠ m.id.key := by
      intro e
      rw [Graph.get?, e] at hx
      rw [Graph.get?, hx] at free
      cases free
    simpa [Graph.get?, ne] using hx
  | keep h => exact ⟨fun _ _ h => h, fun _ => rfl, id⟩
  | cancel => exact ⟨fun _ _ h => h, id, fun _ => rfl⟩
  | _ => exact .refl s

theorem fits_of_grows (g : s.Grows s') (h : φ.Fits convert rs s r) : φ.Fits convert rs s' r := by
  cases φ with
  | lost m =>
    obtain ⟨x, hx⟩ := h.2
    exact ⟨h.1, x, g.graph _ _ hx⟩
  | returned f =>
    cases f with
    | none => exact h
    | some f => exact h.imp id g.cancelled
  | cancelling f => exact g.kept h
  | finished f =>
    cases f with
    | none => exact h
    | some f => exact g.kept h
  | _ => exact h

/-- An action either leaves the graph alone, or stores the map of its task. -/
theorem advance_stored (h : Advance convert r s φ s' φ') (fits : φ.Fits convert rs s r) :
    s'.graph = s.graph ∧ Task.stored convert ⟨r, φ'⟩ = Task.stored convert ⟨r, φ⟩ ∨
      ∃ m, s.graph.insertIfAbsent m = .inserted s'.graph ∧ Task.stored convert ⟨r, φ⟩ = none ∧
        Task.stored convert ⟨r, φ'⟩ = some m := by
  cases h with
  | store h =>
    refine .inr ⟨_, h, rfl, ?_⟩
    exact map_of_eq_some.mpr fits
  | convert =>
    refine .inl ⟨rfl, ?_⟩
    rcases ho : (convert r).outcome with f | _ | m <;>
      simp [Task.stored, Phase.ofOutcome, mapOf, ho]
  | _ => exact .inl ⟨rfl, rfl⟩

/-- The phase after an action fits again. `owner` says that a map in the graph comes from
another record than the one whose task has still to store its own. -/
theorem advance_fits (h : Advance convert r s φ s' φ') (mem : r ∈ rs)
    (fits : φ.Fits convert rs s r)
    (owner : Task.stored convert ⟨r, φ⟩ = none → ∀ l x, s.graph.get? l = some x →
      ∃ r' ∈ rs, r ≠ r' ∧ (convert r').outcome = .ok (some x) ∧ l.key = x.id.key) :
    φ'.Fits convert rs s' r := by
  cases h with
  | refuse h => exact .inr h
  | enter h => trivial
  | convert =>
    rcases ho : (convert r).outcome with f | _ | m
    · exact .inl (.conversion mem ho)
    · exact ⟨none, ho⟩
    · exact ho
  | breakOff h f => exact .inr h
  | store h => exact ⟨_, fits⟩
  | lose h => exact ⟨fits, _, insert_eq_taken h⟩
  | collide =>
    obtain ⟨ho, x, hx⟩ := fits
    obtain ⟨r', mem', ne, ho', key⟩ := owner rfl _ x hx
    rw [hx]
    exact .inl (.collision mem mem' ne ho ho' key)
  | succeed => exact fits
  | keep h => rfl
  | cancel => exact fits
  | drop h called => exact h

theorem step_records {p q : Pool} (h : Pool.Step convert workers p q) : q.records = p.records := by
  cases h <;> simp [Pool.records]

/-- Every map of the graph was stored by a task. -/
theorem graph_owner {p : Pool} (sound : p.Sound convert) {l : Location} {x : WorldMap}
    (h : p.shared.graph.get? l = some x) :
    ∃ t ∈ p.tasks, t.stored convert = some x ∧ l.key = x.id.key := by
  have mem := sound.graph.mem_iff.mp (Dict.find_eq_some_iff.mp h)
  obtain ⟨y, hy, e⟩ := List.mem_map.mp mem
  obtain ⟨t, ht, hs⟩ := List.mem_filterMap.mp hy
  simp only [entry, Prod.mk.injEq] at e
  obtain ⟨key, rfl⟩ := e
  exact ⟨t, ht, hs, key.symm⟩

theorem stored_outcome {t : Task} {m : WorldMap} (h : t.stored convert = some m) :
    (convert t.record).outcome = .ok (some m) := by
  unfold Task.stored at h
  split at h
  · exact map_of_eq_some.mp h
  · exact map_of_eq_some.mp h
  · cases h

theorem stored_congr {before after : List Task} {t t' : Task}
    (h : t'.stored convert = t.stored convert) :
    (before ++ t' :: after).filterMap (Task.stored convert) =
      (before ++ t :: after).filterMap (Task.stored convert) := by
  simp only [List.filterMap_append, List.filterMap_cons, h]

theorem stored_perm {before after : List Task} {t t' : Task} {m : WorldMap}
    (h : t.stored convert = none) (h' : t'.stored convert = some m) :
    ((before ++ t' :: after).filterMap (Task.stored convert)).Perm
      (m :: (before ++ t :: after).filterMap (Task.stored convert)) := by
  simp only [List.filterMap_append, List.filterMap_cons, h, h']
  exact List.perm_middle

/-! ## What one task does leaves the others as they are -/

section
variable {before after : List Task} {t t' : Task}

theorem forall_mem_replaced {P : Task → Prop} (h : ∀ u ∈ before ++ t :: after, P u) (here : P t') :
    ∀ u ∈ before ++ t' :: after, P u := by
  intro u hu
  simp only [List.mem_append, List.mem_cons] at h hu
  rcases hu with hu | rfl | hu
  · exact h u (.inl hu)
  · exact here
  · exact h u (.inr (.inr hu))

theorem cancelling_replaced (h : ∃ u ∈ before ++ t :: after, ∃ f, u.phase = .cancelling f)
    (here : ∀ f, t.phase ≠ .cancelling f) :
    ∃ u ∈ before ++ t' :: after, ∃ f, u.phase = .cancelling f := by
  obtain ⟨u, hu, f, hf⟩ := h
  refine ⟨u, ?_, f, hf⟩
  simp only [List.mem_append, List.mem_cons] at hu ⊢
  rcases hu with hu | rfl | hu
  · exact .inl hu
  · exact absurd hf (here f)
  · exact .inr (.inr hu)

theorem records_replaced (same : t'.record = t.record) :
    Pool.records ⟨before ++ t' :: after, s'⟩ = Pool.records ⟨before ++ t :: after, s⟩ := by
  simp [Pool.records, same]

/-- While a task has stored nothing, a map of the graph comes from the record of another. -/
theorem graph_owner_elsewhere (hn : (Pool.records ⟨before ++ t :: after, s⟩).Nodup)
    (sound : Pool.Sound convert ⟨before ++ t :: after, s⟩) (none : t.stored convert = none)
    {l : Location} {x : WorldMap} (hx : s.graph.get? l = some x) :
    ∃ r' ∈ Pool.records ⟨before ++ t :: after, s⟩, t.record ≠ r' ∧
      (convert r').outcome = .ok (some x) ∧ l.key = x.id.key := by
  obtain ⟨u, hu, hs, key⟩ := graph_owner sound hx
  refine ⟨u.record, List.mem_map_of_mem hu, ?_, stored_outcome hs, key⟩
  intro e
  have side : u ∈ before ++ after := by
    simp only [List.mem_append, List.mem_cons] at hu ⊢
    rcases hu with hu | rfl | hu
    · exact .inl hu
    · rw [hs] at none
      cases none
    · exact .inr hu
  have mid : (t.record :: (before ++ after).map (·.record)).Nodup := by
    refine (List.Perm.nodup_iff ?_).mp hn
    simp [Pool.records]
  exact (List.nodup_cons.mp mid).1 (e ▸ List.mem_map_of_mem side)

end

theorem take_sound {before after : List Task}
    (sound : Pool.Sound convert ⟨before ++ ⟨r, .queued⟩ :: after, s⟩) :
    Pool.Sound convert ⟨before ++ ⟨r, .started⟩ :: after, s⟩ := by
  have hr : Pool.records ⟨before ++ ⟨r, .started⟩ :: after, s⟩ =
      Pool.records ⟨before ++ ⟨r, .queued⟩ :: after, s⟩ := records_replaced rfl
  refine ⟨?_, ?_, ?_, sound.cancelled, ?_⟩
  · have same : Task.stored convert ⟨r, .started⟩ = Task.stored convert ⟨r, .queued⟩ := rfl
    rw [stored_congr same]
    exact sound.graph
  · rw [hr]
    exact forall_mem_replaced sound.fits trivial
  · rw [hr]
    exact sound.kept
  · exact fun h => (sound.calling h).imp id fun c => cancelling_replaced c (by simp)

theorem advance_sound {before after : List Task}
    (hn : (Pool.records ⟨before ++ ⟨r, φ⟩ :: after, s⟩).Nodup)
    (sound : Pool.Sound convert ⟨before ++ ⟨r, φ⟩ :: after, s⟩)
    (h : Advance convert r s φ s' φ') :
    Pool.Sound convert ⟨before ++ ⟨r, φ'⟩ :: after, s'⟩ := by
  have hr : Pool.records ⟨before ++ ⟨r, φ'⟩ :: after, s'⟩ =
      Pool.records ⟨before ++ ⟨r, φ⟩ :: after, s⟩ := records_replaced rfl
  have here : φ.Fits convert _ s r := sound.fits ⟨r, φ⟩ (by simp)
  refine ⟨?_, ?_, ?_, ?_, ?_⟩
  · rcases advance_stored h here with ⟨same, hs⟩ | ⟨m, ins, none, some⟩
    · rw [stored_congr hs, same]
      exact sound.graph
    · obtain ⟨free, e⟩ := insert_eq_inserted ins
      rw [e]
      refine (Dict.insert_perm free m).trans ?_
      exact (sound.graph.cons _).trans ((stored_perm none some).map entry).symm
  · rw [hr]
    refine forall_mem_replaced (fun t ht => fits_of_grows (advance_grows h) (sound.fits t ht)) ?_
    exact advance_fits h (by simp [Pool.records]) here
      fun none _ _ hx => graph_owner_elsewhere hn sound none hx
  · rw [hr]
    cases h with
    | @keep f h =>
      rintro _ ⟨⟩
      rcases here with fault | called
      · exact fault
      · have := sound.cancelled called
        simp [h] at this
    | _ => exact sound.kept
  · cases h with
    | keep h => exact fun _ => rfl
    | cancel => exact fun _ => here
    | _ => exact sound.cancelled
  · cases h with
    | @keep f h => exact fun _ => .inr ⟨⟨r, .cancelling f⟩, by simp, f, rfl⟩
    | cancel => exact fun _ => .inl rfl
    | _ => exact fun h => (sound.calling h).imp id fun c => cancelling_replaced c (by simp)

theorem run_sound (hn : rs.Nodup) {p : Pool} (run : Pool.Run convert workers (.start rs) p) :
    p.records = rs ∧ p.Sound convert := by
  induction run with
  | refl =>
    refine ⟨by simp [Pool.start, Pool.records, Function.comp_def], ?_, ?_, ?_, ?_, ?_⟩
    · simp [Pool.start, Graph.empty, Dict.empty, Task.stored, List.filterMap_map, Function.comp_def]
    · simp [Pool.start, Phase.Fits]
    · simp [Pool.start]
    · simp [Pool.start]
    · simp [Pool.start]
  | tail _ step ih =>
    refine ⟨(step_records step).trans ih.1, ?_⟩
    cases step with
    | take next free => exact take_sound ih.2
    | advance h => exact advance_sound (ih.1 ▸ hn) ih.2 h

end Overworld.Assembly
