import Overworld.Proofs.Bytes
import Overworld.Proofs.Conversion
import Overworld.Proofs.Yaml.Decoding

/-!
# Resolved references

What stands in a converted map for each connection and each warp of its record: in a direction the
last connection that names it, and under the number of a warp that warp, unless it leads to a
record that is not in the table.
-/

set_option autoImplicit false

namespace Overworld

theorem Direction.parse_eq_ok {s : Bytes} {d : Direction} :
    Direction.parse s = .ok d ↔ s = d.name := by
  constructor
  · intro h
    unfold parse ofName? at h
    split at h
    · rename_i found
      cases h
      have same := List.find?_some found
      exact (by simpa using same : d.name = s).symm
    · exact absurd h (fail_ne_ok _ _)
  · rintro rfl
    cases d <;> rfl

namespace Raw.Table

variable {t : Raw.Table} {id : Bytes} {T : Raw.Record}

theorem mem_of_get (h : t.get? id = some T) : T ∈ t.toList :=
  List.mem_map.mpr ⟨(id, T), Dict.find_eq_some_iff.mp h, rfl⟩

theorem id_of_get (h : t.get? id = some T) : T.data.id = id :=
  t.keyed (id, T) (Dict.find_eq_some_iff.mp h)

end Raw.Table

namespace Resolver

variable {r : Resolver}

theorem numbered_inj {kind : String} {i j : Nat} : numbered kind i = numbered kind j ↔ i = j := by
  constructor
  · intro h
    apply Bytes.of_nat_injective
    simpa [numbered] using h
  · rintro rfl
    rfl

/-! ## Connections -/

theorem connection_eq_ok {c : Raw.Connection} {d : Direction} {conn : Connection} :
    (r.connection c).outcome = .ok (d, conn) ↔ c.direction = d.name ∧
      (r.locate c.map).outcome = .ok conn.location ∧ conn.offset = c.offset := by
  rw [← Direction.parse_eq_ok, connection, Traced.bind_eq_ok]
  simp only [Traced.bind_eq_ok, Traced.outcome_within, Traced.outcome_lift, in_step_eq_ok,
    Traced.outcome_pure, Except.ok.injEq, Prod.mk.injEq]
  constructor
  · rintro ⟨d', parsed, l, located, rfl, rfl⟩
    exact ⟨parsed, located, rfl⟩
  · rintro ⟨parsed, located, offset⟩
    exact ⟨d, parsed, conn.location, located, rfl, by rw [← offset]⟩

/-- The last of the connections in a direction. -/
def lastConnection (cs : List Raw.Connection) (direction : Bytes) : Option Raw.Connection :=
  (cs.filter fun c => c.direction = direction).getLast?

theorem last_connection_cons (c : Raw.Connection) (cs : List Raw.Connection) (direction : Bytes) :
    lastConnection (c :: cs) direction =
      (lastConnection cs direction).or (if c.direction = direction then some c else none) := by
  unfold lastConnection
  by_cases same : c.direction = direction
  · rw [List.filter_cons_of_pos (by simpa using same), List.getLast?_cons, if_pos same]
    cases (cs.filter fun c => c.direction = direction).getLast? <;> rfl
  · rw [List.filter_cons_of_neg (by simpa using same), if_neg same, Option.or_none]

theorem last_connection_direction {cs : List Raw.Connection} {direction : Bytes}
    {c : Raw.Connection} (h : lastConnection cs direction = some c) : c.direction = direction := by
  have mem := List.mem_of_getLast? h
  simpa using (List.mem_filter.mp mem).2

/-- What a chunk holds in a direction after connections were added to it. -/
theorem connections_find {cs : List Raw.Connection} {start out : Chunk}
    (h : (r.connections cs start).outcome = .ok out) (k : Bytes) :
    match lastConnection cs k with
    | none => Dict.find? out k = Dict.find? start k
    | some c => ∃ d conn, (r.connection c).outcome = .ok (d, conn) ∧
        Dict.find? out k = some conn := by
  induction cs generalizing start with
  | nil =>
    cases h
    rfl
  | cons c cs ih =>
    obtain ⟨⟨d, conn⟩, resolved, h⟩ := Traced.bind_eq_ok.mp h
    have direction := (connection_eq_ok.mp resolved).1
    have later := ih h
    rw [last_connection_cons]
    cases last : lastConnection cs k with
    | some c' => simpa [last] using later
    | none =>
      simp only [last, Dict.find_insert] at later
      by_cases same : d.name = k
      · simp only [direction, same, if_true, Option.none_or] at later ⊢
        exact ⟨d, conn, resolved, later⟩
      · simp only [direction, same, Ne.symm same, if_false, Option.none_or] at later ⊢
        exact later

/-- Each entry of a chunk comes from the last connection in its direction. -/
theorem chunk_find {cs : List Raw.Connection} {c : Chunk} {k : Bytes} {conn : Connection}
    (h : (r.chunk cs).outcome = .ok (some c)) (found : Dict.find? c k = some conn) :
    ∃ d raw, k = Direction.name d ∧ lastConnection cs k = some raw ∧
      (r.locate raw.map).outcome = .ok conn.location ∧ conn.offset = raw.offset := by
  cases cs with
  | nil => cases h
  | cons first cs =>
    obtain ⟨c', resolved, same⟩ := Traced.bind_eq_ok.mp h
    cases same
    have entry := connections_find resolved k
    cases last : lastConnection (first :: cs) k with
    | none =>
      rw [last] at entry
      rw [entry] at found
      cases found
    | some raw =>
      rw [last] at entry
      obtain ⟨d, conn', connected, here⟩ := entry
      cases found.symm.trans here
      obtain ⟨direction, located, offset⟩ := connection_eq_ok.mp connected
      exact ⟨d, raw, (last_connection_direction last).symm.trans direction, rfl, located, offset⟩

/-! ## Warps -/

/-- Where a warp arrives: the warp with its number on the map that it leads to. -/
def Arrives (w : Raw.Warp) (target : Raw.Record) (j : Nat) (a : Raw.Warp) : Prop :=
  w.index.toInt = j ∧ target.data.warpList[j]? = some a

def warpTo (w : Raw.Warp) (l : Location) (a : Raw.Warp) : Warp :=
  ⟨Box.tile ⟨w.x, w.y⟩, l, ⟨⟨a.x, a.y⟩, []⟩, transition⟩

theorem arrival_eq_some {w : Raw.Warp} {target : Raw.Record} {a : Raw.Warp} :
    (if w.index < 0 then none else target.data.warpList[w.index.toInt.toNat]?) = some a ↔
      ∃ j, Arrives w target j a := by
  unfold Arrives
  by_cases negative : w.index < 0
  · simp only [negative, if_true, reduceCtorEq, false_iff, not_exists, not_and]
    intro j hj
    rw [Int64.lt_iff_toInt_lt, hj] at negative
    exact absurd negative (by simp)
  · simp only [negative, if_false]
    have bound : 0 ≤ w.index.toInt := by
      rw [Int64.lt_iff_toInt_lt] at negative
      simpa using negative
    constructor
    · intro h
      exact ⟨w.index.toInt.toNat, (Int.toNat_of_nonneg bound).symm, h⟩
    · rintro ⟨j, hj, h⟩
      rw [hj, Int.toNat_natCast]
      exact h

theorem warp_eq_ok {owner : Bytes} {i : Nat} {w : Raw.Warp} {entry : Option Warp} :
    (r.warp owner i w).outcome = .ok entry ↔ ∃ l, (r.locate w.destination).outcome = .ok l ∧
      match r.table.get? w.destination with
      | none => entry = none
      | some target => ∃ j a, Arrives w target j a ∧ entry = some (warpTo w l a) := by
  unfold warp
  rw [Traced.bind_eq_ok]
  apply exists_congr
  intro l
  rw [Traced.outcome_within, in_step_eq_ok]
  apply and_congr_right
  intro located
  cases r.table.get? w.destination with
  | none => simp [Except.bind, eq_comm]
  | some target =>
    dsimp only
    rw [exists_comm]
    cases arrival : (if w.index < 0 then none else target.data.warpList[w.index.toInt.toNat]?) with
    | none =>
      simp only [Traced.outcome_lift, fail_ne_ok, false_iff, not_exists, not_and]
      intro a j arrives
      rw [arrival_eq_some.mpr ⟨j, arrives⟩] at arrival
      cases arrival
    | some a =>
      simp only [Traced.outcome_pure, Except.ok.injEq]
      constructor
      · rintro rfl
        obtain ⟨j, arrives⟩ := arrival_eq_some.mp arrival
        exact ⟨a, j, arrives, rfl⟩
      · rintro ⟨a', j, arrives, rfl⟩
        cases arrival.symm.trans (arrival_eq_some.mpr ⟨j, arrives⟩)
        rfl

theorem warp_kept {owner : Bytes} {i : Nat} {w : Raw.Warp} {e : Warp}
    (h : (r.warp owner i w).outcome = .ok (some e)) :
    ∃ l a, (r.locate w.destination).outcome = .ok l ∧ e = warpTo w l a := by
  obtain ⟨l, located, h⟩ := warp_eq_ok.mp h
  cases target : r.table.get? w.destination with
  | none =>
    rw [target] at h
    cases h
  | some T =>
    rw [target] at h
    obtain ⟨_, a, _, same⟩ := h
    exact ⟨l, a, located, Option.some.inj same⟩

/-- Under the number of a warp stands what it is resolved to, and nothing else is added. -/
theorem warps_from_find {owner : Bytes} {i : Nat} {ws : List Raw.Warp} {start out : Dict Warp}
    (fresh : ∀ k, i ≤ k → start.find? (numbered "warp" k) = none)
    (h : (r.warpsFrom owner i ws start).outcome = .ok out) :
    (∀ k w, ws[k]? = some w →
      (r.warp owner (i + k) w).outcome = .ok (out.find? (numbered "warp" (i + k)))) ∧
    ∀ key, (∀ k, k < ws.length → key ≠ numbered "warp" (i + k)) →
      out.find? key = start.find? key := by
  induction ws generalizing i start with
  | nil =>
    cases h
    simp
  | cons w ws ih =>
    obtain ⟨entry, resolved, h⟩ := Traced.bind_eq_ok.mp h
    -- whatever the first warp comes to, the rest goes on from a dictionary that holds it
    obtain ⟨next, here, frame, h⟩ : ∃ next : Dict Warp,
        next.find? (numbered "warp" i) = entry ∧
        (∀ key, key ≠ numbered "warp" i → next.find? key = start.find? key) ∧
        (r.warpsFrom owner (i + 1) ws next).outcome = .ok out := by
      cases entry with
      | none => exact ⟨start, fresh i (Nat.le_refl i), fun _ _ => rfl, h⟩
      | some entry => exact ⟨_, by simp, fun key other => by simp [other], h⟩
    have free : ∀ k, i + 1 ≤ k → next.find? (numbered "warp" k) = none := by
      intro k hk
      rw [frame _ fun same => absurd (numbered_inj.mp same) (by omega)]
      exact fresh k (by omega)
    obtain ⟨rest, others⟩ := ih free h
    constructor
    · intro k w' hk
      cases k with
      | zero =>
        cases hk
        rw [Nat.add_zero, others _ fun k _ same => absurd (numbered_inj.mp same) (by omega), here]
        exact resolved
      | succ k =>
        have later := rest k w' hk
        rwa [Nat.add_right_comm, Nat.add_assoc] at later
    · intro key other
      rw [others key, frame key]
      · exact other 0 (by simp)
      · intro k hk
        have := other (k + 1) (by simpa using hk)
        rwa [← Nat.add_assoc, Nat.add_right_comm] at this

theorem warps_find {owner : Raw.MapData} {out : Dict Warp} {i : Nat} {w : Raw.Warp}
    (h : (r.warps owner).outcome = .ok out) (hw : owner.warpList[i]? = some w) :
    (r.warp owner.name i w).outcome = .ok (out.find? (numbered "warp" i)) := by
  have found := (warps_from_find (fun _ _ => rfl) h).1 i w hw
  rwa [Nat.zero_add] at found

theorem warps_find_number {owner : Raw.MapData} {out : Dict Warp} {key : Bytes} {e : Warp}
    (h : (r.warps owner).outcome = .ok out) (found : out.find? key = some e) :
    ∃ i w, key = numbered "warp" i ∧ owner.warpList[i]? = some w := by
  by_contra none
  have absent := (warps_from_find (fun _ _ => rfl) h).2 key
  rw [absent] at found
  · cases found
  · intro k hk same
    rw [Nat.zero_add] at same
    exact none ⟨k, owner.warpList[k], same, List.getElem?_eq_getElem hk⟩

/-! ## Records -/

/-- What the parts of a converted map are resolved from. -/
theorem convert_parts {blob : Bytes → Except Failure Bytes} {record : Raw.Record} {m : WorldMap}
    (h : (r.convert blob record).outcome = .ok (some m)) :
    (r.locate record.data.id).outcome = .ok m.id ∧
      (r.chunk record.data.connectionList).outcome = .ok m.chunk ∧
      (r.warps record.data).outcome = .ok m.warps := by
  obtain ⟨tiles, _, h⟩ := Traced.bind_eq_ok.mp h
  obtain ⟨border, _, h⟩ := Traced.bind_eq_ok.mp h
  dsimp only at h
  split at h
  · cases h
  · obtain ⟨_, resolved, h⟩ := Traced.bind_eq_ok.mp h
    cases h
    obtain ⟨id, located, resolved⟩ := Traced.bind_eq_ok.mp resolved
    obtain ⟨chunk, connected, resolved⟩ := Traced.bind_eq_ok.mp resolved
    obtain ⟨warps, warped, resolved⟩ := Traced.bind_eq_ok.mp resolved
    obtain ⟨npcs, _, resolved⟩ := Traced.bind_eq_ok.mp resolved
    obtain ⟨palettes, _, resolved⟩ := Traced.bind_eq_ok.mp resolved
    obtain ⟨music, _, resolved⟩ := Traced.bind_eq_ok.mp resolved
    cases resolved
    exact ⟨located, in_step_eq_ok.mp connected, warped⟩

end Resolver

end Overworld
