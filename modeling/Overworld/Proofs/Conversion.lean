import Overworld.Proofs.Dictionary
import Overworld.Proofs.MapValidation
import Overworld.World.Resolution

/-!
# Converted records

A record that is converted gives a valid map, whatever its table, its blobs and the dictionaries
are, as long as the dictionaries were checked when they were read.
-/

set_option autoImplicit false

namespace Overworld

/-! ## Tiles -/

namespace Tiles

theorem words_length (s : Bytes) : (words s).length = s.length / 2 := by
  induction s using words.induct with
  | case1 low high rest ih =>
    rw [words, List.length_cons, ih, List.length_cons, List.length_cons]
    omega
  | case2 s short =>
    cases s with
    | nil => rfl
    | cons low s =>
      cases s with
      | nil => simp [words]
      | cons high rest => exact absurd rfl (short low high rest)

theorem tile_of_lt (w : UInt16) : tileOf w < 1024 := by
  rw [UInt16.lt_iff_toNat_lt, tileOf, UInt16.toNat_and]
  exact Nat.lt_succ_of_le Nat.and_le_right

theorem movement_of_lt (w : UInt16) : movementOf w < 64 := by
  have bound := w.toNat_lt
  rw [UInt8.lt_iff_toNat_lt, movementOf, UInt16.toNat_toUInt8, UInt16.toNat_shiftRight]
  show w.toNat >>> 10 % 2 ^ 8 < 64
  rw [Nat.shiftRight_eq_div_pow]
  omega

theorem border_of_lt (ws : List UInt16) : ∀ t ∈ (borderOf ws).toList, t < 1024 := by
  unfold borderOf
  split
  · simp [Border.toList, tile_of_lt]
  · decide

/-- Twice the size of a map does not overflow. -/
theorem twice_to_int {n : Nat} (h : n < 0x100000000) : (Int64.ofNat n * 2).toInt = 2 * n := by
  rw [Int64.toInt_mul, Int64.toInt_ofNat_of_lt (by omega)]
  show ((n : Int) * 2).bmod (2 ^ 64) = 2 * n
  rw [Int.bmod_eq_of_le (by omega) (by omega), Int.mul_comm]

structure Decoded (count : Nat) (l : Layout) : Prop where
  tileCount : l.tiles.length = count
  movementCount : l.movements.length = count
  tiles : ∀ t ∈ l.tiles, t < 1024
  movements : ∀ p ∈ l.movements, p < 64
  border : ∀ t ∈ l.border.toList, t < 1024

theorem decode_decoded {tiles border : Bytes} {count : Nat} {l : Layout}
    (small : count < 0x100000000) (h : decode tiles border (Int64.ofNat count) = some l) :
    Decoded count l := by
  unfold decode at h
  split at h
  · cases h
  · rename_i fits
    rw [twice_to_int small] at fits
    simp only [Bool.or_eq_true, bne_iff_ne, decide_eq_true_eq, not_or, not_not] at fits
    have length : (words tiles).length = count := by
      rw [words_length]
      omega
    cases h
    constructor
    · simpa using length
    · simpa using length
    · intro t ht
      obtain ⟨w, _, rfl⟩ := List.mem_map.mp ht
      exact tile_of_lt w
    · intro p hp
      obtain ⟨w, _, rfl⟩ := List.mem_map.mp hp
      exact movement_of_lt w
    · exact border_of_lt _

end Tiles

/-! ## Dictionaries -/

/-- A text fits the width of an identifier and is not empty. -/
theorem Mappings.is_short_iff (s : Bytes) :
    Mappings.isShort s = true ↔ 1 ≤ s.length ∧ s.length ≤ 16 := by
  unfold Mappings.isShort Location.maxWidth
  cases s <;> simp

namespace Mappings

/-- Dictionaries that were checked. -/
structure Checked (m : Mappings) : Prop where
  locations : ∀ e ∈ m.locations.entries, e.2.Named
  music : ∀ e ∈ m.music.entries, isShort e.2 = true
  npcs : ∀ e ∈ m.npcs.entries, isShort e.2 = true

theorem empty_checked : empty.Checked := by
  constructor <;> simp [empty, Dict.empty]

theorem validate_checked {m : Mappings} (h : m.validate = .ok ()) : m.Checked := by
  rw [validate, check_bind_eq_ok, check_bind_eq_ok, for_m_eq_ok, for_m_eq_ok, for_m_eq_ok] at h
  obtain ⟨locations, music, npcs⟩ := h
  constructor
  · intro e he
    rw [← Location.validate_iff]
    exact in_step_eq_ok.mp (locations e he)
  · intro e he
    by_contra wide
    have := music e he
    simp [validateMusic, wide, fail] at this
  · intro e he
    by_contra wide
    have := npcs e he
    simp [validateNpc, wide, fail] at this

theorem parse_checked {s : Bytes} {m : Mappings} (h : parse s = .ok m) : m.Checked := by
  unfold parse at h
  cases decoded : Yaml.Document.decode outline decoder empty s with
  | none => simp [decoded, fail] at h
  | some m' =>
    rw [decoded] at h
    obtain ⟨valid, same⟩ := check_bind_eq_ok.mp h
    cases same
    exact validate_checked (in_step_eq_ok.mp valid)

end Mappings

/-! ## Locations -/

theorem Identifier.shorten_bounds {s : Bytes} (h : s ≠ []) :
    shorten s ≠ [] ∧ (shorten s).length ≤ Location.maxWidth := by
  unfold shorten
  split
  · rename_i short
    exact ⟨h, Nat.le_of_lt short⟩
  · rename_i long
    have length : (s.take headLength ++ s.drop (s.length - tailLength)).length = 16 := by
      simp only [Location.maxWidth] at long
      simp only [List.length_append, List.length_take, List.length_drop, headLength, tailLength]
      omega
    exact ⟨List.ne_nil_of_length_pos (by omega), Nat.le_of_eq length⟩

theorem Identifier.derive_named {overrides : Dict Location} {raw : Bytes} {l : Location}
    (checked : ∀ e ∈ overrides.entries, e.2.Named)
    (h : (derive overrides raw).outcome = .ok l) : l.Named := by
  unfold derive at h
  cases found : overrides.find? raw with
  | some l' =>
    rw [found] at h
    cases h
    exact checked _ (Dict.find_eq_some_iff.mp found)
  | none =>
    rw [found] at h
    obtain ⟨_, _, h⟩ := Traced.bind_eq_ok.mp h
    obtain ⟨index, cut, h⟩ := Traced.bind_eq_ok.mp h
    cases h
    rw [Traced.outcome_lift, truncate] at cut
    split at cut
    · exact absurd cut (fail_ne_ok _ _)
    · rename_i long
      split at cut
      · exact absurd cut (fail_ne_ok _ _)
      · cases cut
        have rest : raw.drop markLength ≠ [] := by
          rw [ne_eq, List.drop_eq_nil_iff]
          exact long
        obtain ⟨nonempty, width⟩ := shorten_bounds rest
        have scope : Location.derivedScope.length ≤ Location.maxWidth := by decide
        exact ⟨nonempty, width, scope⟩

namespace Resolver

variable {r : Resolver}

/-! ## Connections -/

/-- A chunk leads from directions to named locations. -/
def Leads (c : Chunk) : Prop :=
  ∀ e ∈ Dict.entries c, e.1 ∈ Direction.all.map Direction.name ∧ e.2.location.Named

theorem connection_leads (checked : r.mappings.Checked) {c : Raw.Connection}
    {d : Direction} {conn : Connection} (h : (r.connection c).outcome = .ok (d, conn)) :
    conn.location.Named := by
  obtain ⟨d', _, h⟩ := Traced.bind_eq_ok.mp h
  obtain ⟨l, located, h⟩ := Traced.bind_eq_ok.mp h
  cases h
  exact Identifier.derive_named checked.locations (in_step_eq_ok.mp located)

theorem insert_entries_ne_nil {α : Type} (d : Dict α) (k : Bytes) (v : α) :
    (d.insert k v).entries ≠ [] := by
  intro none
  have found : (d.insert k v).find? k = some v := by simp
  rw [Dict.find?, none] at found
  cases found

theorem connections_lead (checked : r.mappings.Checked) {cs : List Raw.Connection}
    {start c : Chunk} (led : Leads start) (h : (r.connections cs start).outcome = .ok c) :
    Leads c ∧ (Dict.entries start ≠ [] ∨ cs ≠ [] → Dict.entries c ≠ []) := by
  induction cs generalizing start with
  | nil =>
    cases h
    exact ⟨led, by simp⟩
  | cons raw cs ih =>
    obtain ⟨⟨d, conn⟩, resolved, h⟩ := Traced.bind_eq_ok.mp h
    have next : Leads (Dict.insert start d.name conn) := by
      intro e he
      rcases Dict.mem_place he with rfl | he
      · exact ⟨d.name_mem, connection_leads checked resolved⟩
      · exact led e he
    obtain ⟨leads, nonempty⟩ := ih next h
    exact ⟨leads, fun _ => nonempty (.inl (insert_entries_ne_nil start d.name conn))⟩

/-- There is a chunk exactly where there are connections. -/
theorem chunk_resolved (checked : r.mappings.Checked) {cs : List Raw.Connection}
    {chunk : Option Chunk} (h : (r.chunk cs).outcome = .ok chunk) :
    (chunk = none ↔ cs = []) ∧ ∀ c ∈ chunk, Dict.entries c ≠ [] ∧ Leads c := by
  cases cs with
  | nil =>
    cases h
    simp
  | cons raw cs =>
    obtain ⟨c, resolved, h⟩ := Traced.bind_eq_ok.mp h
    cases h
    have led : Leads Dict.empty := by simp [Leads, Dict.empty]
    obtain ⟨leads, nonempty⟩ := connections_lead checked led resolved
    simp only [reduceCtorEq, Option.mem_def, Option.some.injEq, forall_eq', true_and]
    exact ⟨nonempty (.inr (by simp)), leads⟩

/-! ## Warps -/

/-- What a resolved warp is: it leads to a named location and faces no direction there. -/
def IsWarp (e : Bytes × Warp) : Prop :=
  (∃ i, e.1 = numbered "warp" i) ∧ e.2.location.Named ∧ e.2.position.facing = []

theorem warp_resolved (checked : r.mappings.Checked) {owner : Bytes} {i : Nat} {w : Raw.Warp}
    {entry : Warp} (h : (r.warp owner i w).outcome = .ok (some entry)) :
    entry.location.Named ∧ entry.position.facing = [] := by
  obtain ⟨l, located, h⟩ := Traced.bind_eq_ok.mp h
  have named := Identifier.derive_named checked.locations (in_step_eq_ok.mp located)
  cases target : r.table.get? w.destination with
  | none =>
    rw [target] at h
    obtain ⟨_, _, h⟩ := Traced.bind_eq_ok.mp h
    cases h
  | some record =>
    rw [target] at h
    dsimp only at h
    split at h
    · exact absurd h (fail_ne_ok _ _)
    · cases h
      exact ⟨named, rfl⟩

theorem warps_from_resolved (checked : r.mappings.Checked) {owner : Bytes} {i : Nat}
    {ws : List Raw.Warp} {start out : Dict Warp} (before : ∀ e ∈ start.entries, IsWarp e)
    (h : (r.warpsFrom owner i ws start).outcome = .ok out) : ∀ e ∈ out.entries, IsWarp e := by
  induction ws generalizing i start with
  | nil =>
    cases h
    exact before
  | cons w ws ih =>
    obtain ⟨entry, resolved, h⟩ := Traced.bind_eq_ok.mp h
    cases entry with
    | none => exact ih before h
    | some entry =>
      refine ih ?_ h
      intro e he
      rcases Dict.mem_place he with rfl | he
      · exact ⟨⟨i, rfl⟩, warp_resolved checked resolved⟩
      · exact before e he

/-! ## Characters and music -/

/-- What a resolved character is: an object that has a type of the width of an identifier. -/
def IsNpc (e : Bytes × Npc) : Prop :=
  ∃ i o typeId, e = (numbered "npc" i, npc o typeId) ∧ Mappings.isShort typeId = true

theorem npcs_from_resolved (checked : r.mappings.Checked) {i : Nat} {os : List Raw.Object}
    {start out : Dict Npc} (before : ∀ e ∈ start.entries, IsNpc e)
    (h : (r.npcsFrom i os start).outcome = .ok out) : ∀ e ∈ out.entries, IsNpc e := by
  induction os generalizing i start with
  | nil =>
    cases h
    exact before
  | cons o os ih =>
    unfold npcsFrom at h
    cases found : r.mappings.npcs.find? o.graphics with
    | none =>
      rw [found] at h
      obtain ⟨_, _, h⟩ := Traced.bind_eq_ok.mp h
      exact ih before h
    | some typeId =>
      rw [found] at h
      refine ih ?_ h
      intro e he
      rcases Dict.mem_place he with rfl | he
      · exact ⟨i, o, typeId, rfl, checked.npcs _ (Dict.find_eq_some_iff.mp found)⟩
      · exact before e he

theorem music_resolved (checked : r.mappings.Checked) {track music : Bytes}
    (h : (r.music track).outcome = .ok music) : Mappings.isShort music = true := by
  unfold Resolver.music at h
  cases found : r.mappings.music.find? track with
  | none =>
    rw [found] at h
    obtain ⟨_, _, h⟩ := Traced.bind_eq_ok.mp h
    cases h
    decide
  | some id =>
    rw [found] at h
    cases h
    exact checked.music _ (Dict.find_eq_some_iff.mp found)

/-! ## Records -/

/-- What a converted record is. -/
structure IsConverted (record : Raw.Record) (m : WorldMap) : Prop where
  consistent : m.Consistent
  decoded : Tiles.Decoded (record.layout.width.toNat * record.layout.height.toNat)
    ⟨m.tiles, m.movements, m.border⟩
  chunk : m.chunk = none ↔ record.data.connectionList = []
  warps : ∀ e ∈ m.warps.entries, IsWarp e
  npcs : ∀ e ∈ m.npcs.entries, IsNpc e
  music : Mappings.isShort m.music = true

theorem resolve_converted (checked : r.mappings.Checked) {record : Raw.Record}
    {tiles : Tiles.Layout} {m : WorldMap}
    (decoded : Tiles.Decoded (record.layout.width.toNat * record.layout.height.toNat) tiles)
    (h : (r.resolve record tiles).outcome = .ok m) : IsConverted record m := by
  obtain ⟨id, located, h⟩ := Traced.bind_eq_ok.mp h
  obtain ⟨chunk, connected, h⟩ := Traced.bind_eq_ok.mp h
  obtain ⟨warps, warped, h⟩ := Traced.bind_eq_ok.mp h
  obtain ⟨npcs, placed, h⟩ := Traced.bind_eq_ok.mp h
  obtain ⟨palettes, _, h⟩ := Traced.bind_eq_ok.mp h
  obtain ⟨music, played, h⟩ := Traced.bind_eq_ok.mp h
  cases h
  obtain ⟨absent, leads⟩ := chunk_resolved checked (in_step_eq_ok.mp connected)
  have warpsResolved := warps_from_resolved checked (by simp [Dict.empty]) warped
  constructor
  case consistent =>
    constructor
    case id => exact Identifier.derive_named checked.locations located
    case tiles => exact decoded.tileCount
    case movements => exact decoded.movementCount
    case connected => exact fun c hc => (leads c hc).1
    case directions =>
      intro c hc k hk
      obtain ⟨e, he, rfl⟩ := List.mem_map.mp hk
      exact ((leads c hc).2 e he).1
    case neighbours => exact fun c hc e he => ((leads c hc).2 e he).2
    case warps => exact fun e he => (warpsResolved e he).2.1
  case decoded => exact decoded
  case chunk => exact absent
  case warps => exact warpsResolved
  case npcs => exact npcs_from_resolved checked (by simp [Dict.empty]) placed
  case music => exact music_resolved checked played

/-- Whatever is converted is resolved from tiles that fill the map. -/
theorem convert_converted (checked : r.mappings.Checked) {blob : Bytes → Except Failure Bytes}
    {record : Raw.Record} {m : WorldMap} (h : (r.convert blob record).outcome = .ok (some m)) :
    IsConverted record m := by
  obtain ⟨tiles, _, h⟩ := Traced.bind_eq_ok.mp h
  obtain ⟨border, _, h⟩ := Traced.bind_eq_ok.mp h
  have small : record.layout.width.toNat * record.layout.height.toNat < 0x10000 * 0x10000 :=
    Nat.mul_lt_mul_of_lt_of_lt record.layout.width.toNat_lt record.layout.height.toNat_lt
  dsimp only at h
  split at h
  · cases h
  · rename_i layout decoded
    obtain ⟨_, resolved, h⟩ := Traced.bind_eq_ok.mp h
    cases h
    exact resolve_converted checked (Tiles.decode_decoded small decoded) resolved

end Resolver

end Overworld
