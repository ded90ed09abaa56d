import Overworld.Proofs.ResolvedWarps

/-!
# Resolved characters

The objects of a map whose sprites are those of characters stand in the result under their numbers
among all objects, so the numbers have gaps where others were dropped. Each dropped object leaves
one entry in the log. Resolving objects never fails.
-/

set_option autoImplicit false

namespace Overworld.Resolver

variable {r : Resolver} {i : Nat} {o : Raw.Object} {os : List Raw.Object} {start : Dict Npc}

/-! ## One object -/

def isCharacter (r : Resolver) (o : Raw.Object) : Bool :=
  (r.mappings.npcs.find? o.graphics).isSome

/-- The movements that keep a character still, with the direction that each makes it face. -/
def fixedFacings : List (Bytes × Direction) :=
  [(utf8 "MOVEMENT_TYPE_FACE_LEFT", .left), (utf8 "MOVEMENT_TYPE_FACE_RIGHT", .right),
    (utf8 "MOVEMENT_TYPE_FACE_UP", .up), (utf8 "MOVEMENT_TYPE_FACE_DOWN", .down)]

/-- The entry about an object that is no character. -/
def scenery (o : Raw.Object) : Log.Entry :=
  ⟨.debug, "object is not an npc; dropping", [("graphics_id", .text (Utf8.shown o.graphics))]⟩

theorem facing_eq_some {movement : Bytes} {d : Direction} :
    facing? movement = some d ↔ (movement, d) ∈ fixedFacings := by
  have distinct : (fixedFacings.map (·.1)).Nodup := by decide
  have lookup : facing? movement = fixedFacings.lookup movement := by
    simp only [facing?, fixedFacings, Dict.lookup_cons_if, List.lookup_nil]
  rw [lookup]
  exact ⟨Dict.mem_of_lookup, Dict.lookup_of_mem distinct⟩

theorem facing_eq_none {movement : Bytes} :
    facing? movement = none ↔ ∀ d, (movement, d) ∉ fixedFacings := by
  simp only [← facing_eq_some, Option.eq_none_iff_forall_ne_some, ne_eq]

/-- A character stands still and faces a direction exactly if its movement is the one for it. -/
theorem stance_eq_still {movement : Bytes} {d : Direction} :
    stance movement = (utf8 "still", d.name) ↔ (movement, d) ∈ fixedFacings := by
  rw [← facing_eq_some, stance]
  cases facing? movement with
  | none => exact iff_of_false (by cases d <;> decide) (by simp)
  | some d' => cases d <;> cases d' <;> decide

theorem stance_eq_neutral {movement : Bytes} :
    stance movement = (utf8 "neutral", []) ↔ ∀ d, (movement, d) ∉ fixedFacings := by
  rw [← facing_eq_none, stance]
  cases facing? movement with
  | none => simp
  | some d => exact iff_of_false (by cases d <;> decide) (by simp)

/-! ## All objects -/

/-- The characters among objects, each under its number. -/
def placed (r : Resolver) (i : Nat) (os : List Raw.Object) : List (Bytes × Npc) :=
  (os.zipIdx i).filterMap fun p =>
    (r.mappings.npcs.find? p.1.graphics).map fun typeId => (numbered "npc" p.2, npc p.1 typeId)

theorem placed_cons_none (h : r.mappings.npcs.find? o.graphics = none) :
    r.placed i (o :: os) = r.placed (i + 1) os := by
  simp [placed, h]

theorem placed_cons_some {typeId : Bytes} (h : r.mappings.npcs.find? o.graphics = some typeId) :
    r.placed i (o :: os) = (numbered "npc" i, npc o typeId) :: r.placed (i + 1) os := by
  simp [placed, h]

theorem mem_placed {e : Bytes × Npc} : e ∈ r.placed 0 os ↔
    ∃ i o typeId, os[i]? = some o ∧ r.mappings.npcs.find? o.graphics = some typeId ∧
      e = (numbered "npc" i, npc o typeId) := by
  simp only [placed, List.mem_filterMap, Option.map_eq_some_iff, Prod.exists,
    List.mem_zipIdx_iff_getElem?]
  constructor
  · rintro ⟨o, i, here, typeId, known, rfl⟩
    exact ⟨i, o, typeId, here, known, rfl⟩
  · rintro ⟨i, o, typeId, here, known, rfl⟩
    exact ⟨o, i, here, typeId, known, rfl⟩

theorem placed_length : (r.placed i os).length = os.countP r.isCharacter := by
  induction os generalizing i with
  | nil => rfl
  | cons o os ih =>
    cases known : r.mappings.npcs.find? o.graphics with
    | none =>
      rw [placed_cons_none known, ih, List.countP_cons_of_neg (by simp [isCharacter, known])]
    | some typeId =>
      rw [placed_cons_some known, List.length_cons, ih,
        List.countP_cons_of_pos (by simp [isCharacter, known])]

/-- Objects from a position on add their characters to what was resolved before, provided that no
later number is taken. -/
theorem npcs_from_entries (fresh : ∀ k, i ≤ k → start.find? (numbered "npc" k) = none) :
    ∃ out, (r.npcsFrom i os start).outcome = .ok out ∧
      out.entries.Perm (r.placed i os ++ start.entries) := by
  induction os generalizing i start with
  | nil => exact ⟨start, rfl, .refl _⟩
  | cons o os ih =>
    cases known : r.mappings.npcs.find? o.graphics with
    | none =>
      have next : ∀ k, i + 1 ≤ k → start.find? (numbered "npc" k) = none :=
        fun k hk => fresh k (by omega)
      obtain ⟨out, resolved, entries⟩ := ih next
      refine ⟨out, ?_, ?_⟩
      · simpa [npcsFrom, known, Except.bind] using resolved
      · rwa [placed_cons_none known]
    | some typeId =>
      obtain ⟨out, resolved, entries⟩ := ih (fresh_insert fresh (npc o typeId))
      refine ⟨out, ?_, ?_⟩
      · simpa [npcsFrom, known] using resolved
      · -- The number is new, so the entry takes the place of no other.
        have here := Dict.insert_perm (fresh i (Nat.le_refl i)) (npc o typeId)
        rw [placed_cons_some known]
        exact (entries.trans (here.append_left _)).trans List.perm_middle

theorem npcs_from_log : (r.npcsFrom i os start).log =
    (os.filter fun o => !r.isCharacter o).map scenery := by
  induction os generalizing i start with
  | nil => rfl
  | cons o os ih =>
    cases known : r.mappings.npcs.find? o.graphics with
    | none =>
      rw [List.filter_cons_of_pos (by simp [isCharacter, known]), List.map_cons, ← ih, npcsFrom,
        known]
      rfl
    | some typeId =>
      rw [List.filter_cons_of_neg (by simp [isCharacter, known]), ← ih, npcsFrom, known]

/-- The objects of a map become characters exactly if their sprites are known, each under its
number. A character has the type of its sprite and stands where the object does, still and facing a
direction if its movement is the one for that, and else neutral. The log has one entry for each
other object, in their order, and nothing else. -/
theorem characters_keep_numbers (r : Resolver) (os : List Raw.Object) :
    ∃ out, (r.npcs os).outcome = .ok out ∧
      (∀ key, key ∈ out.keys ↔
        ∃ i o, os[i]? = some o ∧ r.isCharacter o = true ∧ key = numbered "npc" i) ∧
      (∀ i j, numbered "npc" i = numbered "npc" j → i = j) ∧
      out.size = os.countP r.isCharacter ∧
      (∀ i o typeId, os[i]? = some o → r.mappings.npcs.find? o.graphics = some typeId →
        ∃ e, out.find? (numbered "npc" i) = some e ∧ e.typeId = typeId ∧
          e.position.coords = ⟨o.x, o.y⟩ ∧
          e.name = utf8 "NPC " ++ Bytes.ofInt o.x.toInt ++ utf8 "-" ++ Bytes.ofInt o.y.toInt ∧
          (∀ d : Direction, e.stance = utf8 "still" ∧ e.position.facing = d.name ↔
            (o.movement, d) ∈ fixedFacings) ∧
          (e.stance = utf8 "neutral" ∧ e.position.facing = [] ↔
            ∀ d, (o.movement, d) ∉ fixedFacings)) ∧
      (r.npcs os).log = (os.filter fun o => !r.isCharacter o).map scenery := by
  obtain ⟨out, resolved, entries⟩ := @npcs_from_entries r 0 os Dict.empty fun _ _ => rfl
  have perm : out.entries.Perm (r.placed 0 os) := by simpa [Dict.empty] using entries
  have found : ∀ key e, out.find? key = some e ↔ (key, e) ∈ r.placed 0 os := by
    intro key e
    rw [Dict.find_eq_some_iff, perm.mem_iff]
  refine ⟨out, resolved, ?_, fun i j => numbered_inj.mp, ?_, ?_, npcs_from_log⟩
  · intro key
    simp only [Dict.mem_keys_iff, found, mem_placed, isCharacter, Option.isSome_iff_exists]
    constructor
    · rintro ⟨e, i, o, typeId, here, known, same⟩
      cases same
      exact ⟨i, o, here, ⟨typeId, known⟩, rfl⟩
    · rintro ⟨i, o, here, ⟨typeId, known⟩, rfl⟩
      exact ⟨npc o typeId, i, o, typeId, here, known, rfl⟩
  · exact perm.length_eq.trans placed_length
  · intro i o typeId here known
    refine ⟨npc o typeId, (found _ _).mpr (mem_placed.mpr ⟨i, o, typeId, here, known, rfl⟩), rfl,
      rfl, ?_, ?_, ?_⟩
    · have hyphen : utf8 "-" = [0x2D] := by decide
      simp [npc, npcName, hyphen]
    · intro d
      rw [← stance_eq_still, Prod.ext_iff]
      rfl
    · rw [← stance_eq_neutral, Prod.ext_iff]
      rfl

/-- Three objects on a square, of which the second is a tree. -/
def square : List Raw.Object :=
  [⟨utf8 "GFX_MOM", 4, 5, utf8 "MOVEMENT_TYPE_FACE_LEFT"⟩,
    ⟨utf8 "GFX_TREE", 0, 0, utf8 "MOVEMENT_TYPE_FACE_UP"⟩,
    ⟨utf8 "GFX_BOY", -1, 12, utf8 "MOVEMENT_TYPE_FACE_LEFT_UP"⟩]

def squareResolver : Resolver :=
  ⟨.empty, { Mappings.empty with
    npcs := Dict.ofList [(utf8 "GFX_MOM", utf8 "mom"), (utf8 "GFX_BOY", utf8 "boy")] }⟩

/-- The tree leaves a gap between the numbers. A movement that only begins like one of the four
leaves the boy neutral. -/
theorem tree_leaves_gap : ∃ out, (squareResolver.npcs square).outcome = .ok out ∧
    out.size = 2 ∧ utf8 "npc_1" ∉ out.keys ∧
    (∃ e, out.find? (utf8 "npc_0") = some e ∧ e.typeId = utf8 "mom" ∧
      e.stance = utf8 "still" ∧ e.position.facing = utf8 "left") ∧
    (∃ e, out.find? (utf8 "npc_2") = some e ∧ e.name = utf8 "NPC -1-12" ∧
      e.stance = utf8 "neutral" ∧ e.position.facing = []) ∧
    (squareResolver.npcs square).log = [⟨.debug, "object is not an npc; dropping",
      [("graphics_id", .text "GFX_TREE")]⟩] := by
  obtain ⟨out, resolved, keys, inj, size, entries, logged⟩ :=
    characters_keep_numbers squareResolver square
  refine ⟨out, resolved, size.trans (by decide +kernel), ?_, ?_, ?_,
    logged.trans (by decide +kernel)⟩
  · intro mem
    obtain ⟨i, o, here, known, same⟩ := (keys _).mp mem
    obtain rfl : 1 = i := inj 1 i same
    cases here
    exact absurd known (by decide +kernel)
  · obtain ⟨e, found, typeId, _, _, still, _⟩ :=
      entries 0 _ (utf8 "mom") rfl (by decide +kernel)
    exact ⟨e, found, typeId, (still .left).mpr (by decide +kernel)⟩
  · obtain ⟨e, found, _, _, name, _, neutral⟩ :=
      entries 2 _ (utf8 "boy") rfl (by decide +kernel)
    refine ⟨e, found, name.trans (by decide +kernel), neutral.mpr fun d => ?_⟩
    cases d <;> decide +kernel

end Overworld.Resolver
