import Overworld.Proofs.FilePlaces
import Mathlib.Data.List.TakeWhile

/-!
# Where shortest forms lead

Read word by word, a path and its shortest form lead to the same place. The shortest form goes up
before it goes down, so on its way down it passes only through what is above that place.
-/

set_option autoImplicit false

namespace Overworld.Path

variable {rooted : Bool} {p c : Bytes} {place above cs ds : List Bytes}

/-- Where a component leads from a place, whatever stands there. -/
def step (place : List Bytes) (c : Bytes) : List Bytes :=
  if c.isEmpty || c = dot then place else if c = dotDot then place.dropLast else place ++ [c]

/-- Where components lead from a place, whatever stands there. -/
def follow (place cs : List Bytes) : List Bytes := cs.foldl step place

theorem follow_append : follow place (cs ++ ds) = follow (follow place cs) ds :=
  List.foldl_append

theorem follow_snoc : follow place (cs ++ [c]) = step (follow place cs) c := follow_append

@[simp] theorem step_nil (place : List Bytes) : step place [] = place := rfl

@[simp] theorem step_dot_dot (place : List Bytes) : step place dotDot = place.dropLast := rfl

theorem step_name (some : c ≠ []) (notDot : c ≠ dot) (notUp : c ≠ dotDot) :
    step place c = place ++ [c] := by
  simp [step, some, notDot, notUp]

/-! ## Components that are left -/

/-- Components that go up and then down: steps up first, then names, last first. -/
def UpDown (rooted : Bool) (above : List Bytes) : Prop :=
  ∃ names ups, above = names ++ List.replicate ups dotDot ∧ (rooted = true → ups = 0) ∧
    ∀ n ∈ names, n ≠ [] ∧ n ≠ dot ∧ n ≠ dotDot

theorem push_up_down (h : UpDown rooted above) : UpDown rooted (push rooted above c) := by
  obtain ⟨names, ups, rfl, root, named⟩ := h
  unfold push
  by_cases skip : (c.isEmpty || c = dot) = true
  · rw [if_pos skip]
    exact ⟨names, ups, rfl, root, named⟩
  rw [if_neg skip]
  simp only [Bool.or_eq_true, List.isEmpty_iff, decide_eq_true_eq, not_or] at skip
  by_cases up : c = dotDot
  · rw [if_pos up]
    cases names with
    | cons n names =>
      have other : n ≠ dotDot := (named n (by simp)).2.2
      simp only [List.cons_append, if_neg other]
      exact ⟨names, ups, rfl, root, fun m hm => named m (by simp [hm])⟩
    | nil =>
      cases rooted with
      | true =>
        obtain rfl := root rfl
        exact ⟨[], 0, rfl, fun _ => rfl, by simp⟩
      | false =>
        refine ⟨[], ups + 1, ?_, by simp, by simp⟩
        cases ups <;> simp [List.replicate_succ]
  · rw [if_neg up]
    refine ⟨c :: names, ups, rfl, root, ?_⟩
    intro n hn
    rcases List.mem_cons.mp hn with rfl | hn
    · exact ⟨skip.1, skip.2, up⟩
    · exact named n hn

theorem foldl_push_up_down (cs : List Bytes) (h : UpDown rooted above) :
    UpDown rooted (cs.foldl (push rooted) above) := by
  induction cs generalizing above with
  | nil => exact h
  | cons c cs ih => exact ih (push_up_down h)

theorem reduce_up_down (rooted : Bool) (cs : List Bytes) :
    ∃ ups names, reduce rooted cs = List.replicate ups dotDot ++ names ∧
      (rooted = true → ups = 0) ∧ ∀ n ∈ names, n ≠ [] ∧ n ≠ dot ∧ n ≠ dotDot := by
  have none : UpDown rooted [] := ⟨[], 0, rfl, fun _ => rfl, by simp⟩
  obtain ⟨names, ups, left, root, named⟩ := foldl_push_up_down cs none
  refine ⟨ups, names.reverse, ?_, root, by simpa using named⟩
  rw [reduce, left, List.reverse_append, List.reverse_replicate]

/-- A component leads where it leads also after those before it were reduced. -/
theorem follow_push (h : UpDown rooted above) (root : rooted = true → place = []) :
    follow place (push rooted above c).reverse = step (follow place above.reverse) c := by
  unfold push
  by_cases skip : (c.isEmpty || c = dot) = true
  · rw [if_pos skip, step, if_pos skip]
  rw [if_neg skip]
  by_cases up : c = dotDot
  · rw [if_pos up, up, step_dot_dot]
    cases above with
    | nil =>
      cases rooted with
      | true => simp [follow, root rfl]
      | false => rfl
    | cons last rest =>
      show follow place (if last = dotDot then dotDot :: last :: rest else rest).reverse = _
      by_cases again : last = dotDot
      · rw [if_pos again, List.reverse_cons, follow_snoc, step_dot_dot]
      · have plain : last ≠ [] ∧ last ≠ dot ∧ last ≠ dotDot := by
          obtain ⟨names, ups, same, _, named⟩ := h
          cases names with
          | nil =>
            cases ups with
            | zero => cases same
            | succ ups => exact absurd (List.cons.inj same).1 again
          | cons n names =>
            rw [(List.cons.inj same).1]
            exact named n (by simp)
        simp [if_neg again, follow_snoc, step_name plain.1 plain.2.1 plain.2.2]
  · rw [if_neg up, List.reverse_cons, follow_snoc]

theorem follow_foldl_push (h : UpDown rooted above) (root : rooted = true → place = [])
    (cs : List Bytes) : follow place (cs.foldl (push rooted) above).reverse =
      follow (follow place above.reverse) cs := by
  induction cs generalizing above with
  | nil => rfl
  | cons c cs ih =>
    rw [List.foldl_cons, ih (push_up_down h), follow_push h root]
    rfl

theorem follow_reduce (root : rooted = true → place = []) (cs : List Bytes) :
    follow place (reduce rooted cs) = follow place cs :=
  follow_foldl_push ⟨[], 0, rfl, fun _ => rfl, by simp⟩ root cs

theorem follow_names {names : List Bytes} (named : ∀ n ∈ names, n ≠ [] ∧ n ≠ dot ∧ n ≠ dotDot) :
    follow place names = place ++ names := by
  induction names generalizing place with
  | nil => simp [follow]
  | cons n names ih =>
    obtain ⟨some, notDot, notUp⟩ := named n (by simp)
    show follow (step place n) names = _
    rw [step_name some notDot notUp, ih fun m hm => named m (by simp [hm])]
    simp

/-! ## Shortest forms -/

theorem components_slash (p : Bytes) : components (slash :: p) = [] :: components p := by
  simp [components, Bytes.splitOn]

theorem mem_reduce_components {rooted : Bool} {c : Bytes} (h : c ∈ reduce rooted (components p)) :
    slash ∉ c ∧ c ≠ [] := by
  obtain ⟨mem, some⟩ := mem_reduce h
  exact ⟨Bytes.not_mem_split_on mem, some⟩

theorem components_clean (p : Bytes) : components (clean p) =
    (if isRooted p then [[]] else []) ++
      if reduce (isRooted p) (components p) = [] then [if isRooted p then [] else dot]
      else reduce (isRooted p) (components p) := by
  unfold clean
  by_cases nothing : reduce (isRooted p) (components p) = []
  · rw [nothing, if_pos rfl]
    cases isRooted p <;> decide
  · have pieces : components (Bytes.join [slash] (reduce (isRooted p) (components p))) =
        reduce (isRooted p) (components p) :=
      Bytes.split_on_join nothing fun c hc => (mem_reduce_components hc).1
    have some : Bytes.join [slash] (reduce (isRooted p) (components p)) ≠ [] := by
      intro empty
      rw [empty] at pieces
      have left : [] ∈ reduce (isRooted p) (components p) := by
        rw [← pieces]
        exact List.mem_singleton.mpr rfl
      exact (mem_reduce_components left).2 rfl
    rw [if_neg nothing]
    cases rooted : isRooted p with
    | true =>
      rw [rooted] at pieces
      simp only [if_true, components_slash, pieces]
      rfl
    | false =>
      rw [rooted] at pieces some
      simpa [some] using pieces

theorem clean_ne_nil (p : Bytes) : clean p ≠ [] := by
  unfold clean
  dsimp only
  split
  · simp
  · split
    · decide
    · rename_i some
      simpa using some

theorem is_rooted_clean (p : Bytes) : isRooted (clean p) = isRooted p := by
  unfold clean
  dsimp only
  cases rooted : isRooted p with
  | true => simp [isRooted]
  | false =>
    simp only [Bool.false_eq_true, if_false]
    split
    · rfl
    · exact not_rooted_join fun c hc => mem_reduce_components hc

theorem mem_join {s : Bytes} {ps : List Bytes} {b : UInt8} (h : b ∈ Bytes.join s ps) :
    b ∈ s ∨ ∃ q ∈ ps, b ∈ q := by
  induction ps with
  | nil => cases h
  | cons q ps ih =>
    by_cases last : ps = []
    · subst last
      exact .inr ⟨q, by simp, h⟩
    · rw [Bytes.join_cons last, List.append_assoc, List.mem_append, List.mem_append] at h
      rcases h with here | sep | later
      · exact .inr ⟨q, by simp, here⟩
      · exact .inl sep
      · rcases ih later with sep | ⟨q', mem, here⟩
        · exact .inl sep
        · exact .inr ⟨q', by simp [mem], here⟩

theorem mem_clean {b : UInt8} (h : b ∈ clean p) : b ∈ p ∨ b = slash ∨ b = 0x2E := by
  have inside : b ∈ Bytes.join [slash] (reduce (isRooted p) (components p)) →
      b ∈ p ∨ b = slash := by
    intro h
    rcases mem_join h with sep | ⟨c, mem, here⟩
    · exact .inr (List.mem_singleton.mp sep)
    · exact .inl (Bytes.mem_of_mem_split_on (mem_reduce mem).1 here)
  unfold clean at h
  dsimp only at h
  split at h
  · rcases List.mem_cons.mp h with rfl | h
    · exact .inr (.inl rfl)
    · exact (inside h).imp_right .inl
  · split at h
    · exact .inr (.inr (List.mem_singleton.mp h))
    · exact (inside h).imp_right .inl

/-! ## The directory and the name of a path -/

theorem solid_or_split (p : Bytes) : slash ∉ p ∨ ∃ b c, p = b ++ slash :: c ∧ slash ∉ c := by
  induction p with
  | nil => exact .inl (by simp)
  | cons x p ih =>
    rcases ih with solid | ⟨b, c, rfl, solid⟩
    · by_cases here : x = slash
      · exact .inr ⟨[], p, by rw [here]; rfl, solid⟩
      · exact .inl (by simp [Ne.symm here, solid])
    · exact .inr ⟨x :: b, c, rfl, solid⟩

theorem solid_reverse (h : slash ∉ c) : ∀ x ∈ c.reverse, (x != slash) = true := by
  intro x hx
  simpa using fun same : x = slash => h (same ▸ List.mem_reverse.mp hx)

theorem last_part_of_solid (h : slash ∉ c) : lastPart c = c := by
  rw [lastPart, List.takeWhile_eq_self_iff.mpr (solid_reverse h), List.reverse_reverse]

theorem last_part_append (b : Bytes) (h : slash ∉ c) : lastPart (b ++ slash :: c) = c := by
  rw [lastPart, List.reverse_append, List.reverse_cons, List.append_assoc,
    List.takeWhile_append_of_pos (solid_reverse h)]
  simp

theorem last_part_solid (p : Bytes) : slash ∉ lastPart p := by
  rcases solid_or_split p with solid | ⟨b, c, rfl, solid⟩
  · rwa [last_part_of_solid solid]
  · rwa [last_part_append b solid]

theorem trim_right_append (b : Bytes) (some : c ≠ []) (solid : slash ∉ c) :
    Bytes.trimRight slash (b ++ c) = b ++ c := by
  rw [Bytes.trimRight, List.reverse_append]
  cases ends : c.reverse with
  | nil => exact absurd (List.reverse_eq_nil_iff.mp ends) some
  | cons x xs =>
    have other : (x == slash) = false := by
      simpa using solid_reverse solid x (by simp [ends])
    rw [List.cons_append, List.dropWhile_cons, other]
    have whole : (x :: (xs ++ b.reverse)).reverse = b ++ c := by
      rw [← List.cons_append, ← ends]
      simp
    simpa using whole

/-- A path that does not end with a slash has its last part as its name. -/
theorem base_eq_last_part (h : lastPart p ≠ []) : base p = lastPart p := by
  have some : p ≠ [] := fun nothing => h (by rw [nothing]; rfl)
  have untrimmed : Bytes.trimRight slash p = p := by
    rcases solid_or_split p with solid | ⟨b, c, rfl, solid⟩
    · exact trim_right_append [] some solid
    · rw [last_part_append b solid] at h
      have whole := trim_right_append (b ++ [slash]) h solid
      simpa using whole
  simp [base, some, untrimmed, h]

/-- A path is its last part below what leads to its directory. -/
theorem directory_spec (p : Bytes) : ∃ before init, directory p = clean before ∧
    components p = init ++ [lastPart p] ∧ isRooted before = isRooted p ∧
    (∀ place, follow place (components before) = follow place init) ∧
    (∀ c ∈ components before, c ∈ init ∨ c = []) ∧ ∀ b ∈ before, b ∈ p := by
  rcases solid_or_split p with solid | ⟨b, c, rfl, solid⟩
  · refine ⟨[], [], ?_, ?_, ?_, fun _ => rfl, fun c hc => .inr (List.mem_singleton.mp hc), by simp⟩
    · simp [directory, last_part_of_solid solid]
    · rw [last_part_of_solid solid]
      exact Bytes.split_on_solid solid
    · cases p with
      | nil => rfl
      | cons x p =>
        have other : x ≠ slash := fun same => solid (by simp [same])
        simp [isRooted, other]
  · have split : components (b ++ [slash]) = components b ++ [[]] := Bytes.split_on_append b []
    refine ⟨b ++ [slash], components b, ?_, ?_, ?_, ?_, ?_, ?_⟩
    · rw [directory, last_part_append b solid]
      congr 1
      have cut : (b ++ slash :: c).length - c.length = (b ++ [slash]).length := by
        simp only [List.length_append, List.length_cons, List.length_nil]
        omega
      rw [cut, List.append_cons b slash c]
      exact List.take_left
    · rw [last_part_append b solid, components, Bytes.split_on_append, Bytes.split_on_solid solid]
      rfl
    · cases b <;> rfl
    · intro place
      rw [split, follow_snoc, step_nil]
    · intro d hd
      rw [split] at hd
      simpa using hd
    · intro x hx
      rcases List.mem_append.mp hx with here | last
      · exact List.mem_append_left _ here
      · exact List.mem_append_right _ (List.mem_singleton.mp last ▸ List.mem_cons_self)

end Overworld.Path
