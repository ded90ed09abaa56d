import Overworld.Action
import Overworld.Log

/-!
# Outcomes of steps

What a sequence of steps comes to, apart from what it logs: the first failure, or the
result of the last step.
-/

set_option autoImplicit false

namespace Overworld

variable {α β : Type}

theorem Failure.within_inj {step : String} {f g : Failure} :
    f.within step = g.within step ↔ f = g := by
  constructor
  · intro same
    cases f
    cases g
    simpa [Failure.within] using same
  · exact congrArg _

theorem Failure.within_ne {step other : String} {f g : Failure} (h : step ≠ other) :
    f.within step ≠ g.within other := by
  intro same
  exact h (List.cons.inj (congrArg Failure.context same)).1

@[simp] theorem in_step_ok (step : String) (a : α) :
    inStep step (.ok a : Except Failure α) = .ok a := rfl

@[simp] theorem in_step_error (step : String) (f : Failure) :
    inStep step (.error f : Except Failure α) = .error (f.within step) := rfl

@[simp] theorem in_step_eq_ok {step : String} {e : Except Failure α} {a : α} :
    inStep step e = .ok a ↔ e = .ok a := by
  cases e <;> simp

@[simp] theorem fail_ne_ok (cause : Cause) (a : α) : (fail cause : Except Failure α) ≠ .ok a := by
  simp [fail]

theorem except_bind_eq_ok {e : Except Failure α} {f : α → Except Failure β} {b : β} :
    (e >>= f) = .ok b ↔ ∃ a, e = .ok a ∧ f a = .ok b := by
  cases e <;> simp [bind, Except.bind]

theorem except_bind_eq_error {e : Except Failure α} {f : α → Except Failure β} {x : Failure} :
    (e >>= f) = .error x ↔ e = .error x ∨ ∃ a, e = .ok a ∧ f a = .error x := by
  cases e <;> simp [bind, Except.bind]

theorem check_bind_eq_ok {e : Except Failure Unit} {f : Unit → Except Failure β} {b : β} :
    (e >>= f) = .ok b ↔ e = .ok () ∧ f () = .ok b := by
  rw [except_bind_eq_ok]
  exact ⟨fun ⟨_, first, rest⟩ => ⟨first, rest⟩, fun h => ⟨(), h⟩⟩

theorem for_m_eq_ok {xs : List α} {f : α → Except Failure Unit} :
    xs.forM f = .ok () ↔ ∀ x ∈ xs, f x = .ok () := by
  induction xs with
  | nil => simp [pure, Except.pure]
  | cons x xs ih =>
    show (f x >>= fun _ => xs.forM f) = .ok () ↔ _
    rw [check_bind_eq_ok, List.forall_mem_cons, ← ih]

/-- A sequence of steps fails with the failure of the first of them that fails. -/
theorem foldlM_eq_error {f : β → α → Except Failure β} {xs : List α} {b : β} {e : Failure} :
    xs.foldlM f b = .error e ↔ ∃ before x after b', xs = before ++ x :: after ∧
      before.foldlM f b = .ok b' ∧ f b' x = .error e := by
  induction xs generalizing b with
  | nil => simp [pure, Except.pure]
  | cons x xs ih =>
    rw [List.foldlM_cons]
    cases step : f b x with
    | error e' =>
      constructor
      · intro h
        cases h
        exact ⟨[], x, xs, b, rfl, rfl, step⟩
      · rintro ⟨before, y, after, b', split, done, failed⟩
        cases before with
        | nil =>
          cases split
          cases done
          exact step.symm.trans failed
        | cons z before =>
          cases split
          rw [List.foldlM_cons, step] at done
          cases done
    | ok next =>
      have rest : (Except.ok next >>= fun b => xs.foldlM f b) = xs.foldlM f next := rfl
      rw [rest, ih]
      constructor
      · rintro ⟨before, y, after, b', rfl, done, failed⟩
        refine ⟨x :: before, y, after, b', rfl, ?_, failed⟩
        rw [List.foldlM_cons, step]
        exact done
      · rintro ⟨before, y, after, b', split, done, failed⟩
        cases before with
        | nil =>
          cases split
          cases done
          cases step.symm.trans failed
        | cons z before =>
          cases split
          rw [List.foldlM_cons, step] at done
          exact ⟨before, y, after, b', rfl, done, failed⟩

namespace Traced

@[simp] theorem outcome_pure (a : α) : (pure a : Traced α).outcome = .ok a := rfl

@[simp] theorem outcome_lift (r : Except Failure α) : (lift r).outcome = r := rfl

@[simp] theorem outcome_report (level : Log.Level) (text : String)
    (fields : List (String × Log.Value)) : (report level text fields).outcome = .ok () := rfl

@[simp] theorem outcome_within (step : String) (t : Traced α) :
    (t.within step).outcome = inStep step t.outcome := rfl

@[simp] theorem outcome_bind (t : Traced α) (f : α → Traced β) :
    (t >>= f).outcome = t.outcome.bind fun a => (f a).outcome := by
  show (andThen t f).outcome = _
  unfold andThen
  split <;> rename_i h <;> rw [h] <;> rfl

/-- A sequence of steps succeeds only by the success of each. -/
theorem bind_eq_ok {t : Traced α} {f : α → Traced β} {b : β} :
    (t >>= f).outcome = .ok b ↔ ∃ a, t.outcome = .ok a ∧ (f a).outcome = .ok b := by
  rw [outcome_bind]
  cases t.outcome with
  | ok a => simp [Except.bind]
  | error e => simp [Except.bind]

theorem bind_eq_error {t : Traced α} {g : α → Traced β} {f : Failure} :
    (t >>= g).outcome = .error f ↔
      t.outcome = .error f ∨ ∃ a, t.outcome = .ok a ∧ (g a).outcome = .error f := by
  rw [outcome_bind]
  cases t.outcome <;> simp [Except.bind]

theorem log_bind_ok {t : Traced α} {g : α → Traced β} {a : α} (h : t.outcome = .ok a) :
    (t >>= g).log = t.log ++ (g a).log := by
  show (andThen t g).log = _
  simp [andThen, h]

end Traced

namespace Action

variable {a : Action α} {f : α → Action β} {fs fs' : FileSystem} {x : α} {y : β} {step : String}
  {e : Failure}

theorem bind_of_ok (h : (a fs).outcome = .ok x) : (a >>= f) fs =
    ⟨(a fs).log ++ (f x (a fs).files).log, (f x (a fs).files).files, (f x (a fs).files).outcome,
      (a fs).passed ++ (f x (a fs).files).passed⟩ := by
  show andThen a f fs = _
  simp [andThen, h]

theorem bind_of_error (h : (a fs).outcome = .error e) :
    (a >>= f) fs = ⟨(a fs).log, (a fs).files, .error e, (a fs).passed⟩ := by
  show andThen a f fs = _
  simp [andThen, h]

/-- An action succeeds with a result and leaves these files behind. -/
def Gives (a : Action α) (fs : FileSystem) (x : α) (fs' : FileSystem) : Prop :=
  (a fs).outcome = .ok x ∧ (a fs).files = fs'

theorem gives_pure {z : α} : (pure x : Action α).Gives fs z fs' ↔ x = z ∧ fs = fs' := by
  simp [Gives, pure]

theorem gives_bind : (a >>= f).Gives fs y fs' ↔
    ∃ x between, a.Gives fs x between ∧ (f x).Gives between y fs' := by
  show (andThen a f).Gives fs y fs' ↔ _
  cases h : (a fs).outcome with
  | ok x =>
    simp only [Gives, andThen, h, Except.ok.injEq]
    constructor
    · exact fun given => ⟨x, (a fs).files, ⟨rfl, rfl⟩, given⟩
    · rintro ⟨_, _, ⟨rfl, rfl⟩, given⟩
      exact given
  | error e => simp [Gives, andThen, h]

theorem gives_within : (a.within step).Gives fs x fs' ↔ a.Gives fs x fs' := by
  simp [Gives, within]

theorem gives_of_except {r : Except Failure α} :
    (ofExcept r).Gives fs x fs' ↔ r = .ok x ∧ fs = fs' := Iff.rfl

theorem gives_change {c : FileSystem → FileSystem.Change} {u : Unit} :
    (change c).Gives fs u fs' ↔ (c fs).outcome = .ok () ∧ (c fs).files = fs' := Iff.rfl

theorem outcome_bind_eq_error : ((a >>= f) fs).outcome = .error e ↔ (a fs).outcome = .error e ∨
    ∃ x, (a fs).outcome = .ok x ∧ (f x (a fs).files).outcome = .error e := by
  cases first : (a fs).outcome with
  | error e' => simp [bind_of_error first]
  | ok x => simp [bind_of_ok first]

theorem outcome_within_eq_error : ((a.within step) fs).outcome = .error e ↔
    ∃ f, (a fs).outcome = .error f ∧ e = f.within step := by
  rw [within]
  cases (a fs).outcome with
  | ok x => simp
  | error f => simp [eq_comm]

theorem outcome_within_eq_ok : ((a.within step) fs).outcome = .ok x ↔ (a fs).outcome = .ok x := by
  simp [within]

theorem files_within : ((a.within step) fs).files = (a fs).files := rfl

theorem change_eq (c : FileSystem → FileSystem.Change) (fs : FileSystem) :
    change c fs = ⟨[], (c fs).files, (c fs).outcome, [(c fs).files]⟩ := rfl

theorem change_then {c : FileSystem → FileSystem.Change} {fs' : FileSystem} {f : Unit → Action β}
    (h : c fs = ⟨fs', .ok ()⟩) : ((change c).within step >>= f) fs =
      ⟨(f () fs').log, (f () fs').files, (f () fs').outcome, fs' :: (f () fs').passed⟩ := by
  have done : ((change c).within step fs).outcome = .ok () := by simp [within, change, h]
  rw [bind_of_ok done]
  simp [within, change, h]

theorem change_stops {c : FileSystem → FileSystem.Change} {fs' : FileSystem} {f : Unit → Action β}
    (h : c fs = ⟨fs', .error e⟩) : ((change c).within step >>= f) fs =
      ⟨[], fs', .error (e.within step), [fs']⟩ := by
  have failed : ((change c).within step fs).outcome = .error (e.within step) := by
    simp [within, change, h]
  rw [bind_of_error failed]
  simp [within, change, h]

theorem create_temp_eq (dir name : Bytes) (fs : FileSystem) : createTemp dir name fs =
    ⟨[], (fs.createTemp dir name).2, (fs.createTemp dir name).1,
      [(fs.createTemp dir name).2]⟩ := rfl

end Action

end Overworld
