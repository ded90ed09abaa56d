import Overworld.Proofs.Outcome
import Overworld.World.Map

/-!
# Valid maps

What the check of a map accepts: named locations of a bounded width, tiles and movements that
fill the map, and a chunk that connects to something in each of its directions.
-/

set_option autoImplicit false

namespace Overworld

/-- A location has an index, and its parts fit the fixed width. -/
structure Location.Named (l : Location) : Prop where
  index : l.index ≠ []
  indexWidth : l.index.length ≤ maxWidth
  scopeWidth : l.scope.length ≤ maxWidth

theorem Location.validate_iff (l : Location) : l.validate = .ok () ↔ l.Named := by
  unfold validate
  by_cases empty : l.index = []
  · simp only [empty, List.isEmpty_nil, if_true, fail_ne_ok, false_iff]
    exact fun named => named.index empty
  · by_cases wide : maxWidth < l.index.length
    · simp only [List.isEmpty_iff, empty, if_false, wide, if_true, fail_ne_ok, false_iff]
      exact fun named => absurd named.indexWidth (Nat.not_le.mpr wide)
    · by_cases wideScope : maxWidth < l.scope.length
      · simp only [List.isEmpty_iff, empty, wide, if_false, wideScope, if_true, fail_ne_ok,
          false_iff]
        exact fun named => absurd named.scopeWidth (Nat.not_le.mpr wideScope)
      · simp only [List.isEmpty_iff, empty, wide, wideScope, if_false, true_iff]
        exact ⟨empty, Nat.not_lt.mp wide, Nat.not_lt.mp wideScope⟩

theorem Direction.name_mem (d : Direction) : d.name ∈ Direction.all.map Direction.name := by
  cases d <;> decide

theorem Direction.parse_iff (s : Bytes) :
    (∃ d, Direction.parse s = .ok d) ↔ s ∈ Direction.all.map Direction.name := by
  unfold parse ofName?
  cases found : all.find? fun d => d.name == s with
  | none =>
    rw [List.find?_eq_none] at found
    simp only [fail_ne_ok, exists_false, List.mem_map, false_iff, not_exists, not_and]
    intro d hd same
    exact found d hd (by simpa using same)
  | some d =>
    have same := List.find?_some found
    simp only [Except.ok.injEq, exists_eq', List.mem_map, true_iff]
    exact ⟨d, List.mem_of_find?_eq_some found, by simpa using same⟩

namespace WorldMap

/-- A map is consistent in itself. -/
structure Consistent (m : WorldMap) : Prop where
  id : m.id.Named
  tiles : m.tiles.length = m.width.toNat * m.height.toNat
  movements : m.movements.length = m.width.toNat * m.height.toNat
  connected : ∀ c ∈ m.chunk, Dict.entries c ≠ []
  directions : ∀ c ∈ m.chunk, ∀ k ∈ Dict.keys c, k ∈ Direction.all.map Direction.name
  neighbours : ∀ c ∈ m.chunk, ∀ e ∈ Dict.entries c, e.2.location.Named
  warps : ∀ e ∈ m.warps.entries, e.2.location.Named

theorem validate_connection_iff (e : Bytes × Connection) :
    validateConnection e = .ok () ↔
      e.1 ∈ Direction.all.map Direction.name ∧ e.2.location.Named := by
  rw [validateConnection, except_bind_eq_ok, ← Direction.parse_iff, ← Location.validate_iff]
  simp

theorem validate_chunk_iff (chunk : Option Chunk) :
    validateChunk chunk = .ok () ↔ ∀ c ∈ chunk, Dict.entries c ≠ [] ∧
      ∀ e ∈ Dict.entries c, e.1 ∈ Direction.all.map Direction.name ∧ e.2.location.Named := by
  cases chunk with
  | none => simp [validateChunk]
  | some c =>
    simp only [validateChunk, Dict.isEmpty, List.isEmpty_iff, Option.mem_def, Option.some.injEq,
      forall_eq']
    by_cases empty : Dict.entries c = []
    · simp [empty]
    · simp only [empty, if_false, for_m_eq_ok, validate_connection_iff, ne_eq, not_false_eq_true,
        true_and]

theorem validate_warp_iff (e : Bytes × Warp) :
    validateWarp e = .ok () ↔ e.2.location.Named := by
  rw [validateWarp, in_step_eq_ok, Location.validate_iff]

/-- The check accepts exactly the consistent maps. -/
theorem validate_iff (m : WorldMap) : m.validate = .ok () ↔ m.Consistent := by
  rw [validate, check_bind_eq_ok, in_step_eq_ok, in_step_eq_ok, Location.validate_iff]
  by_cases tiles : m.tiles.length = m.width.toNat * m.height.toNat
  · by_cases movements : m.movements.length = m.width.toNat * m.height.toNat
    · simp only [tiles, movements, ne_eq, not_true_eq_false, if_false, check_bind_eq_ok,
        validate_chunk_iff, for_m_eq_ok, validate_warp_iff]
      constructor
      · rintro ⟨id, chunk, warps⟩
        refine ⟨id, tiles, movements, fun c hc => (chunk c hc).1, ?_, ?_, warps⟩
        · intro c hc k hk
          obtain ⟨e, he, rfl⟩ := List.mem_map.mp hk
          exact ((chunk c hc).2 e he).1
        · exact fun c hc e he => ((chunk c hc).2 e he).2
      · intro h
        refine ⟨h.id, fun c hc => ⟨h.connected c hc, fun e he => ⟨?_, ?_⟩⟩, h.warps⟩
        · exact h.directions c hc e.1 (List.mem_map_of_mem he)
        · exact h.neighbours c hc e he
    · simp only [tiles, movements, ne_eq, not_true_eq_false, not_false_eq_true, if_false, if_true,
        check_bind_eq_ok, fail_ne_ok, false_and, and_false, false_iff]
      exact fun h => movements h.movements
  · simp only [tiles, ne_eq, not_false_eq_true, if_true, check_bind_eq_ok, fail_ne_ok, false_and,
      and_false, false_iff]
    exact fun h => tiles h.tiles

end WorldMap

end Overworld
