import Overworld.Proofs.Conversion

/-!
# Derived identifiers

Which raw identifiers an index can be derived from, and which of them are given one index. A
remainder below the width of an index is kept, so it never meets another one. Of a wider one only
its ends are kept, so all that agree there meet in one location.
-/

set_option autoImplicit false

namespace Overworld.Identifier

variable {raw s t index : Bytes} {b : UInt8} {f : Failure} {overrides : Dict Location}

/-! ## Shortening -/

/-- Two remainders that are equal, or wide and equal in their first twelve and last four bytes. -/
def Meet (s t : Bytes) : Prop :=
  s = t ∨ 16 ≤ s.length ∧ 16 ≤ t.length ∧ s.take 12 = t.take 12 ∧
    s.drop (s.length - 4) = t.drop (t.length - 4)

theorem shorten_narrow (h : s.length < 16) : shorten s = s := if_pos h

theorem shorten_wide (h : 16 ≤ s.length) : shorten s = s.take 12 ++ s.drop (s.length - 4) :=
  if_neg (Nat.not_lt.mpr h)

theorem shorten_length (s : Bytes) : (shorten s).length = min s.length 16 := by
  by_cases narrow : s.length < 16
  · rw [shorten_narrow narrow]
    omega
  · rw [shorten_wide (Nat.not_lt.mp narrow), List.length_append, List.length_take, List.length_drop]
    omega

theorem mem_shorten (h : b ∈ shorten s) : b ∈ s := by
  by_cases narrow : s.length < 16
  · rwa [shorten_narrow narrow] at h
  · rw [shorten_wide (Nat.not_lt.mp narrow)] at h
    rcases List.mem_append.mp h with head | tail
    · exact List.mem_of_mem_take head
    · exact List.mem_of_mem_drop tail

theorem shorten_eq_of_wide (hs : 16 ≤ s.length) (ht : 16 ≤ t.length) :
    shorten s = shorten t ↔ s.take 12 = t.take 12 ∧
      s.drop (s.length - 4) = t.drop (t.length - 4) := by
  rw [shorten_wide hs, shorten_wide ht]
  constructor
  · intro same
    apply List.append_inj same
    simp only [List.length_take]
    omega
  · rintro ⟨head, tail⟩
    rw [head, tail]

theorem shorten_eq_iff : shorten s = shorten t ↔ Meet s t := by
  by_cases hs : s.length < 16
  · constructor
    · -- the width of a shortened text tells whether it was cut
      intro same
      have widths := congrArg List.length same
      rw [shorten_length, shorten_length] at widths
      have ht : t.length < 16 := by omega
      rw [shorten_narrow hs, shorten_narrow ht] at same
      exact .inl same
    · rintro (rfl | ⟨wide, _⟩)
      · rfl
      · exact absurd hs (Nat.not_lt.mpr wide)
  · have hs' := Nat.not_lt.mp hs
    constructor
    · intro same
      have widths := congrArg List.length same
      rw [shorten_length, shorten_length] at widths
      have ht : 16 ≤ t.length := by omega
      exact .inr ⟨hs', ht, (shorten_eq_of_wide hs' ht).mp same⟩
    · rintro (rfl | ⟨_, ht, ends⟩)
      · rfl
      · exact (shorten_eq_of_wide hs' ht).mpr ends

/-! ## Acceptance -/

/-- Something stands after the mark, and every byte of it is visible. -/
structure Accepted (raw : Bytes) : Prop where
  some : 4 < raw.length
  visible : ∀ b ∈ raw.drop 4, 0x21 ≤ b ∧ b ≤ 0x7E

theorem is_visible_iff : isVisible b = true ↔ 0x21 ≤ b ∧ b ≤ 0x7E := by
  simp [isVisible]

theorem truncate_of_accepted (h : Accepted raw) : truncate raw = .ok (shorten (raw.drop 4)) := by
  have clear : (raw.drop markLength).find? (fun b => !isVisible b) = none := by
    rw [List.find?_eq_none]
    intro b hb
    simpa using is_visible_iff.mpr (h.visible b hb)
  have long : ¬ raw.length ≤ markLength := Nat.not_le.mpr h.some
  rw [truncate, if_neg long, clear]
  rfl

/-- The complaint about an identifier names the first thing wrong with it. -/
def Complains (raw : Bytes) (cause : Cause) : Prop :=
  raw.length ≤ 4 ∧ cause = .identifierEmpty raw ∨
    4 < raw.length ∧ ∃ before b after, raw.drop 4 = before ++ b :: after ∧
      (∀ c ∈ before, 0x21 ≤ c ∧ c ≤ 0x7E) ∧ ¬ (0x21 ≤ b ∧ b ≤ 0x7E) ∧
      cause = .identifierByte raw b

theorem truncate_of_complains {cause : Cause} (h : Complains raw cause) :
    truncate raw = fail cause := by
  rcases h with ⟨bare, rfl⟩ | ⟨some, before, b, after, split, visible, hidden, rfl⟩
  · exact if_pos bare
  · have found : (raw.drop markLength).find? (fun b => !isVisible b) = .some b := by
      rw [List.find?_eq_some_iff_append]
      refine ⟨?_, before, after, split, ?_⟩
      · rw [← is_visible_iff] at hidden
        simpa using hidden
      · intro c hc
        simpa using is_visible_iff.mpr (visible c hc)
    have long : ¬ raw.length ≤ markLength := Nat.not_le.mpr some
    rw [truncate, if_neg long, found]

theorem complains_of_not_accepted (h : ¬ Accepted raw) : ∃ cause, Complains raw cause := by
  by_cases bare : raw.length ≤ 4
  · exact ⟨.identifierEmpty raw, .inl ⟨bare, rfl⟩⟩
  · have some := Nat.not_le.mp bare
    cases found : (raw.drop 4).find? fun b => !isVisible b with
    | none =>
      refine absurd ⟨some, fun b hb => ?_⟩ h
      have clear := List.find?_eq_none.mp found b hb
      exact is_visible_iff.mp (by simpa using clear)
    | some b =>
      obtain ⟨hidden, before, after, split, visible⟩ := List.find?_eq_some_iff_append.mp found
      refine ⟨.identifierByte raw b, .inr ⟨some, before, b, after, split, ?_, ?_, rfl⟩⟩
      · intro c hc
        exact is_visible_iff.mp (by simpa using visible c hc)
      · rw [← is_visible_iff]
        simpa using hidden

theorem truncate_eq_ok :
    truncate raw = .ok index ↔ Accepted raw ∧ index = shorten (raw.drop 4) := by
  constructor
  · intro h
    by_cases accepted : Accepted raw
    · rw [truncate_of_accepted accepted] at h
      cases h
      exact ⟨accepted, rfl⟩
    · obtain ⟨cause, complains⟩ := complains_of_not_accepted accepted
      rw [truncate_of_complains complains] at h
      exact absurd h (fail_ne_ok _ _)
  · rintro ⟨accepted, rfl⟩
    exact truncate_of_accepted accepted

theorem truncate_eq_error :
    truncate raw = .error f ↔ ¬ Accepted raw ∧ ∃ cause, Complains raw cause ∧ f = .of cause := by
  constructor
  · intro h
    have refused : ¬ Accepted raw := by
      intro accepted
      cases (truncate_of_accepted accepted).symm.trans h
    obtain ⟨cause, complains⟩ := complains_of_not_accepted refused
    rw [truncate_of_complains complains] at h
    cases h
    exact ⟨refused, cause, complains, rfl⟩
  · rintro ⟨_, cause, complains, rfl⟩
    exact truncate_of_complains complains

/-! ## Locations -/

theorem derive_outcome (free : overrides.find? raw = none) :
    (derive overrides raw).outcome =
      (truncate raw).map fun index => ⟨Location.derivedScope, index⟩ := by
  rw [derive, free]
  cases truncate raw <;> rfl

theorem derive_eq_error : (derive overrides raw).outcome = .error f ↔
    overrides.find? raw = none ∧ truncate raw = .error f := by
  cases found : overrides.find? raw with
  | some l =>
    rw [derive, found]
    simp
  | none =>
    rw [derive_outcome found]
    cases truncate raw <;> simp [Except.map]

theorem derived_key_eq_iff :
    (⟨Location.derivedScope, s⟩ : Location).key = (⟨Location.derivedScope, t⟩ : Location).key ↔
      s = t := by
  constructor
  · intro same
    exact (List.cons.inj (List.append_cancel_left same)).2
  · rintro rfl
    rfl

/-- An index is derived from exactly the identifiers with something visible after their mark. Two of
them are given one index, and without overrides one location in the graph, exactly if their
remainders are equal or both too wide to be kept and alike at their ends. -/
theorem accepted_identifiers_meet (raw x y : Bytes) (hx : Accepted x) (hy : Accepted y) :
    ((∃ index, truncate raw = .ok index) ↔
      4 < raw.length ∧ ∀ b ∈ raw.drop 4, 0x21 ≤ b ∧ b ≤ 0x7E) ∧
    (∀ index, truncate raw = .ok index → 1 ≤ index.length ∧ index.length ≤ 16 ∧
      ∀ b ∈ index, 0x21 ≤ b ∧ b ≤ 0x7E) ∧
    (truncate x = truncate y ↔ Meet (x.drop 4) (y.drop 4)) ∧
    ((x.drop 4).length < 16 → x.drop 4 ≠ y.drop 4 → truncate x ≠ truncate y) ∧
    ∀ overrides : Dict Location, overrides.find? x = none → overrides.find? y = none →
      ∃ l l', (derive overrides x).outcome = .ok l ∧ (derive overrides y).outcome = .ok l' ∧
        (l.key = l'.key ↔ Meet (x.drop 4) (y.drop 4)) := by
  have same : truncate x = truncate y ↔ Meet (x.drop 4) (y.drop 4) := by
    rw [truncate_of_accepted hx, truncate_of_accepted hy, Except.ok.injEq, shorten_eq_iff]
  refine ⟨⟨?_, ?_⟩, ?_, same, ?_, ?_⟩
  · rintro ⟨index, truncated⟩
    have accepted := (truncate_eq_ok.mp truncated).1
    exact ⟨accepted.some, accepted.visible⟩
  · rintro ⟨some, visible⟩
    exact ⟨_, truncate_of_accepted ⟨some, visible⟩⟩
  · intro index truncated
    obtain ⟨accepted, rfl⟩ := truncate_eq_ok.mp truncated
    have some := accepted.some
    rw [shorten_length, List.length_drop]
    exact ⟨by omega, by omega, fun b hb => accepted.visible b (mem_shorten hb)⟩
  · intro narrow other equal
    rcases same.mp equal with equal | ⟨wide, _⟩
    · exact other equal
    · omega
  · intro overrides freeX freeY
    refine ⟨⟨Location.derivedScope, shorten (x.drop 4)⟩,
      ⟨Location.derivedScope, shorten (y.drop 4)⟩, ?_, ?_, ?_⟩
    · rw [derive_outcome freeX, truncate_of_accepted hx]
      rfl
    · rw [derive_outcome freeY, truncate_of_accepted hy]
      rfl
    · rw [derived_key_eq_iff, shorten_eq_iff]

/-- A remainder of sixteen bytes and one of seventeen meet in the location of the former. -/
theorem sixteen_and_seventeen_meet :
    let x := utf8 "MAP_ABCDEFGHIJKLMNOP"
    let y := utf8 "MAP_ABCDEFGHIJKL-MNOP"
    x ≠ y ∧ ∃ l l', (derive Dict.empty x).outcome = .ok l ∧ (derive Dict.empty y).outcome = .ok l' ∧
      l.key = l'.key := by
  intro x y
  have hx : Accepted x := ⟨by decide, by decide⟩
  have hy : Accepted y := ⟨by decide, by decide⟩
  obtain ⟨_, _, _, _, locations⟩ := accepted_identifiers_meet x x y hx hy
  obtain ⟨l, l', derived, derived', meet⟩ := locations Dict.empty rfl rfl
  exact ⟨by decide, l, l', derived, derived', meet.mpr (.inr (by decide))⟩

end Overworld.Identifier
