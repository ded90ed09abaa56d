import Overworld.Proofs.CrossReferences
import Overworld.Proofs.Identifiers

/-!
# What becomes of every warp

Each warp of a record is kept under its number, dropped with a warning, or ends the resolution. It
is decided for each by itself, so the first that cannot be resolved is the one reported, and the
others stand in the result or in the log.
-/

set_option autoImplicit false

namespace Overworld

namespace Resolver

variable {r : Resolver} {owner : Bytes} {i : Nat} {w : Raw.Warp} {ws : List Raw.Warp}
  {start out : Dict Warp} {f : Failure}

/-! ## One warp -/

/-- Neither is there an override for the identifier nor can a location be derived from it. -/
def Unlocated (r : Resolver) (raw : Bytes) : Prop :=
  r.mappings.locations.find? raw = none ∧ ¬ Identifier.Accepted raw

/-- The number of the warp is none of a record. -/
def Beyond (w : Raw.Warp) (target : Raw.Record) : Prop :=
  w.index.toInt < 0 ∨ target.data.warpList.length ≤ w.index.toInt

/-- A warp that cannot be resolved. -/
def Faulty (r : Resolver) (w : Raw.Warp) : Prop :=
  Unlocated r w.destination ∨ ∃ target, r.table.get? w.destination = some target ∧ Beyond w target

/-- The failure that a warp at a position is reported with. -/
def Reported (r : Resolver) (owner : Bytes) (i : Nat) (w : Raw.Warp) (f : Failure) : Prop :=
  (Unlocated r w.destination ∧ ∃ cause, Identifier.Complains w.destination cause ∧
    f = ⟨["warp " ++ toString i], cause⟩) ∨
  ¬ Unlocated r w.destination ∧ ∃ target, r.table.get? w.destination = some target ∧
    Beyond w target ∧ f = .of (.warpOutOfRange owner i w.index.toInt target.data.name
      target.data.warpList.length)

def isPresent (r : Resolver) (w : Raw.Warp) : Bool := (r.table.get? w.destination).isSome

/-- The warning about a warp that is dropped. -/
def dropped (owner : Bytes) (i : Nat) (w : Raw.Warp) : Log.Entry :=
  ⟨.warn, "warp target not found; dropping warp", [("map", .text (Utf8.shown owner)),
    ("warp", .number i), ("target", .text (Utf8.shown w.destination))]⟩

def warnings (log : List Log.Entry) : List Log.Entry := log.filter (·.level = .warn)

theorem locate_eq_error {raw : Bytes} : (r.locate raw).outcome = .error f ↔
    Unlocated r raw ∧ ∃ cause, Identifier.Complains raw cause ∧ f = .of cause := by
  rw [locate, Identifier.derive_eq_error, Identifier.truncate_eq_error, Unlocated, and_assoc]

theorem not_unlocated {raw : Bytes} {l : Location} (h : (r.locate raw).outcome = .ok l) :
    ¬ Unlocated r raw := by
  intro unlocated
  obtain ⟨cause, complains⟩ := Identifier.complains_of_not_accepted unlocated.2
  cases h.symm.trans (locate_eq_error.mpr ⟨unlocated, cause, complains, rfl⟩)

theorem arrival_eq_none {target : Raw.Record} :
    (if w.index < 0 then none else target.data.warpList[w.index.toInt.toNat]?) = none ↔
      Beyond w target := by
  have sign : w.index < 0 ↔ w.index.toInt < 0 := Int64.lt_iff_toInt_lt
  unfold Beyond
  by_cases negative : w.index < 0
  · simp [negative, sign.mp negative]
  · rw [if_neg negative, List.getElem?_eq_none_iff]
    rw [sign] at negative
    omega

theorem warp_eq_error : (r.warp owner i w).outcome = .error f ↔ Reported r owner i w f := by
  unfold warp Reported
  rw [Traced.bind_eq_error, Traced.outcome_within]
  cases located : (r.locate w.destination).outcome with
  | error g =>
    obtain ⟨unlocated, cause, complains, rfl⟩ := locate_eq_error.mp located
    constructor
    · rintro (failed | ⟨_, other, _⟩)
      · cases failed
        exact .inl ⟨unlocated, cause, complains, rfl⟩
      · cases other
    · rintro (⟨_, cause', complains', rfl⟩ | ⟨known, _⟩)
      · cases located.symm.trans (locate_eq_error.mpr ⟨unlocated, cause', complains', rfl⟩)
        exact .inl rfl
      · exact absurd unlocated known
  | ok l =>
    have known := not_unlocated located
    simp only [in_step_ok, reduceCtorEq, false_or, Except.ok.injEq, exists_eq_left', known,
      false_and, not_false_eq_true, true_and]
    cases r.table.get? w.destination with
    | none => simp [Except.bind]
    | some target =>
      dsimp only
      cases arrival : (if w.index < 0 then none
          else target.data.warpList[w.index.toInt.toNat]?) with
      | none =>
        have beyond := arrival_eq_none.mp arrival
        simp [beyond, fail, eq_comm]
      | some a =>
        have within : ¬ Beyond w target := by
          rw [← arrival_eq_none, arrival]
          simp
        simp [within]

/-- A warp is resolved unless it is faulty. -/
theorem resolved_iff : (∃ entry, (r.warp owner i w).outcome = .ok entry) ↔ ¬ Faulty r w := by
  constructor
  · rintro ⟨entry, resolved⟩ faulty
    obtain ⟨l, located, entries⟩ := warp_eq_ok.mp resolved
    rcases faulty with unlocated | ⟨target, present, beyond⟩
    · exact not_unlocated located unlocated
    · rw [present] at entries
      obtain ⟨j, a, arrives, _⟩ := entries
      rw [← arrival_eq_none, arrival_eq_some.mpr ⟨j, arrives⟩] at beyond
      cases beyond
  · intro sound
    cases outcome : (r.warp owner i w).outcome with
    | ok entry => exact ⟨entry, rfl⟩
    | error f =>
      rcases warp_eq_error.mp outcome with ⟨unlocated, _⟩ | ⟨_, target, present, beyond, _⟩
      · exact absurd (.inl unlocated) sound
      · exact absurd (.inr ⟨target, present, beyond⟩) sound

theorem resolved_is_some {entry : Option Warp} (h : (r.warp owner i w).outcome = .ok entry) :
    entry.isSome = r.isPresent w := by
  obtain ⟨l, _, entries⟩ := warp_eq_ok.mp h
  unfold isPresent
  cases present : r.table.get? w.destination with
  | none =>
    rw [present] at entries
    rw [entries]
    rfl
  | some target =>
    rw [present] at entries
    obtain ⟨_, a, _, rfl⟩ := entries
    rfl

theorem locate_warnings (r : Resolver) (raw : Bytes) : warnings (r.locate raw).log = [] := by
  unfold locate Identifier.derive
  cases r.mappings.locations.find? raw with
  | some l => rfl
  | none => cases Identifier.truncate raw <;> rfl

theorem warp_warnings {entry : Option Warp} (h : (r.warp owner i w).outcome = .ok entry) :
    warnings (r.warp owner i w).log = if r.isPresent w then [] else [dropped owner i w] := by
  obtain ⟨l, located, entries⟩ := warp_eq_ok.mp h
  have named : ((r.locate w.destination).within ("warp " ++ toString i)).outcome = .ok l :=
    in_step_eq_ok.mpr located
  unfold warp
  rw [Traced.log_bind_ok named, warnings, List.filter_append]
  change warnings (r.locate w.destination).log ++ _ = _
  rw [locate_warnings, List.nil_append, isPresent]
  cases present : r.table.get? w.destination with
  | none => rfl
  | some target =>
    rw [present] at entries
    obtain ⟨j, a, arrives, _⟩ := entries
    have arrival := arrival_eq_some.mpr ⟨j, arrives⟩
    dsimp only
    rw [arrival]
    rfl

/-! ## All warps -/

theorem warps_from_eq_error : (r.warpsFrom owner i ws start).outcome = .error f ↔
    ∃ before w after, ws = before ++ w :: after ∧ (∀ w' ∈ before, ¬ Faulty r w') ∧
      Reported r owner (i + before.length) w f := by
  induction ws generalizing i start with
  | nil => simp [warpsFrom]
  | cons w ws ih =>
    rw [warpsFrom, Traced.bind_eq_error, warp_eq_error]
    constructor
    · rintro (reported | ⟨entry, resolved, later⟩)
      · exact ⟨[], w, ws, rfl, by simp, reported⟩
      · have rest : ∃ before w' after, ws = before ++ w' :: after ∧
            (∀ w' ∈ before, ¬ Faulty r w') ∧ Reported r owner (i + 1 + before.length) w' f := by
          cases entry with
          | none => exact ih.mp later
          | some entry => exact ih.mp later
        obtain ⟨before, w', after, rfl, sound, reported⟩ := rest
        refine ⟨w :: before, w', after, rfl, ?_, ?_⟩
        · exact List.forall_mem_cons.mpr ⟨resolved_iff.mp ⟨entry, resolved⟩, sound⟩
        · rwa [List.length_cons, Nat.add_comm before.length, ← Nat.add_assoc]
    · rintro ⟨before, w', after, split, sound, reported⟩
      cases before with
      | nil =>
        cases split
        exact .inl reported
      | cons first before =>
        cases split
        obtain ⟨here, sound⟩ := List.forall_mem_cons.mp sound
        obtain ⟨entry, resolved⟩ := resolved_iff.mpr here
        rw [List.length_cons, Nat.add_comm before.length, ← Nat.add_assoc] at reported
        refine .inr ⟨entry, resolved, ?_⟩
        cases entry with
        | none => exact ih.mpr ⟨before, w', after, rfl, sound, reported⟩
        | some entry => exact ih.mpr ⟨before, w', after, rfl, sound, reported⟩

theorem fresh_insert {α : Type} {kind : String} {d : Dict α}
    (fresh : ∀ k, i ≤ k → d.find? (numbered kind k) = none) (e : α) :
    ∀ k, i + 1 ≤ k → (d.insert (numbered kind i) e).find? (numbered kind k) = none := by
  intro k hk
  rw [Dict.find_insert, if_neg fun same => absurd (numbered_inj.mp same) (by omega)]
  exact fresh k (by omega)

theorem warps_from_size (fresh : ∀ k, i ≤ k → start.find? (numbered "warp" k) = none)
    (h : (r.warpsFrom owner i ws start).outcome = .ok out) :
    out.size = start.size + ws.countP r.isPresent := by
  induction ws generalizing i start with
  | nil =>
    cases h
    rfl
  | cons w ws ih =>
    obtain ⟨entry, resolved, h⟩ := Traced.bind_eq_ok.mp h
    have kept := resolved_is_some resolved
    cases entry with
    | none =>
      rw [ih (fun k hk => fresh k (by omega)) h, List.countP_cons_of_neg (by simp [← kept])]
    | some entry =>
      have grown := (Dict.insert_perm (fresh i (Nat.le_refl i)) entry).length_eq
      rw [ih (fresh_insert fresh entry) h, List.countP_cons_of_pos (by simp [← kept])]
      simp only [Dict.size, grown, List.length_cons]
      omega

theorem warps_from_warnings (h : (r.warpsFrom owner i ws start).outcome = .ok out) :
    warnings (r.warpsFrom owner i ws start).log =
      ((ws.zipIdx i).filter fun p => !r.isPresent p.1).map fun p => dropped owner p.2 p.1 := by
  induction ws generalizing i start with
  | nil => rfl
  | cons w ws ih =>
    obtain ⟨entry, resolved, h⟩ := Traced.bind_eq_ok.mp h
    have kept := resolved_is_some resolved
    have here := warp_warnings resolved
    rw [warpsFrom, Traced.log_bind_ok resolved, warnings, List.filter_append]
    change warnings (r.warp owner i w).log ++ warnings _ = _
    cases entry with
    | none =>
      have absent : r.isPresent w = false := by simpa using kept.symm
      dsimp only
      rw [here, ih h]
      simp [List.zipIdx_cons, absent]
    | some entry =>
      have present : r.isPresent w = true := by simpa using kept.symm
      dsimp only
      rw [here, ih h]
      simp [List.zipIdx_cons, present]

/-- The words of a report: they say which warp has a malformed destination, or whose warp has a
number that its target lacks. -/
def Worded (owner : Bytes) (i : Nat) (w : Raw.Warp) (message : String) : Prop :=
  (∃ rest, message = "warp " ++ toString i ++ ": " ++
    ("malformed map identifier: " ++ Quoted.quote w.destination ++ rest)) ∨
  ∃ rest, message = "warp destination index out of range: map " ++ Quoted.quote owner ++ rest

theorem reported_worded (h : Reported r owner i w f) : Worded owner i w f.message := by
  rcases h with ⟨_, cause, complains, rfl⟩ | ⟨_, target, _, _, rfl⟩
  · left
    rcases complains with ⟨_, rfl⟩ | ⟨_, _, b, _, _, _, _, rfl⟩
    · exact ⟨" has no content after its prefix", rfl⟩
    · exact ⟨" contains byte 0x" ++ Bytes.hexPair b,
        congrArg ("warp " ++ toString i ++ ": " ++ ·) String.append_assoc⟩
  · exact .inr ⟨_, String.append_assoc.trans String.append_assoc⟩

/-- The resolution of warps fails exactly if one of them leads to no location or to a number that
its target does not have, with the report of the first such one. Otherwise each warp whose target is
in the table stands under its number and arrives at the warp of the target that it names, and there
is one warning for each of the others, in their order. -/
theorem warps_kept_dropped_or_reported (r : Resolver) (owner : Raw.MapData) :
    ((∃ f, (r.warps owner).outcome = .error f) ↔ ∃ w ∈ owner.warpList, Faulty r w) ∧
    (∀ f, (r.warps owner).outcome = .error f → ∃ i w, owner.warpList[i]? = some w ∧
      (∀ w' ∈ owner.warpList.take i, ¬ Faulty r w') ∧ Reported r owner.name i w f ∧
      Worded owner.name i w f.message) ∧
    ∀ out, (r.warps owner).outcome = .ok out →
      (∀ key, key ∈ out.keys ↔
        ∃ i w, owner.warpList[i]? = some w ∧ r.isPresent w = true ∧ key = numbered "warp" i) ∧
      out.size = owner.warpList.countP r.isPresent ∧
      (∀ i w target, owner.warpList[i]? = some w → r.table.get? w.destination = some target →
        ∃ l j a, (r.locate w.destination).outcome = .ok l ∧ w.index.toInt = Int.ofNat j ∧
          target.data.warpList[j]? = some a ∧ out.find? (numbered "warp" i) =
            some ⟨⟨⟨w.x, w.y⟩, ⟨w.x, w.y⟩⟩, l, ⟨⟨a.x, a.y⟩, []⟩, transition⟩) ∧
      warnings (r.warps owner).log = (owner.warpList.zipIdx.filter fun p => !r.isPresent p.1).map
        fun p => dropped owner.name p.2 p.1 := by
  refine ⟨⟨?_, ?_⟩, ?_, ?_⟩
  · rintro ⟨f, failed⟩
    obtain ⟨before, w, after, split, _, reported⟩ := warps_from_eq_error.mp failed
    refine ⟨w, by simp [split], ?_⟩
    by_contra sound
    have failure := warp_eq_error.mpr reported
    obtain ⟨entry, resolved⟩ := resolved_iff.mpr sound
    cases resolved.symm.trans failure
  · rintro ⟨w, mem, faulty⟩
    cases outcome : (r.warps owner).outcome with
    | error f => exact ⟨f, rfl⟩
    | ok out =>
      obtain ⟨i, bound, rfl⟩ := List.mem_iff_getElem.mp mem
      have resolved := warps_find outcome (List.getElem?_eq_getElem bound)
      exact absurd faulty (resolved_iff.mp ⟨_, resolved⟩)
  · intro f failed
    obtain ⟨before, w, after, split, sound, reported⟩ := warps_from_eq_error.mp failed
    rw [Nat.zero_add] at reported
    exact ⟨before.length, w, by simp [split], by simpa [split] using sound, reported,
      reported_worded reported⟩
  · intro out resolved
    refine ⟨?_, ?_, ?_, warps_from_warnings resolved⟩
    · intro key
      rw [Dict.mem_keys_iff]
      constructor
      · rintro ⟨e, found⟩
        obtain ⟨i, w, rfl, here⟩ := warps_find_number resolved found
        have kept := resolved_is_some (warps_find resolved here)
        rw [found] at kept
        exact ⟨i, w, here, kept.symm, rfl⟩
      · rintro ⟨i, w, here, present, rfl⟩
        have kept := resolved_is_some (warps_find resolved here)
        rw [present] at kept
        exact Option.isSome_iff_exists.mp kept
    · simpa [Dict.size, Dict.empty] using warps_from_size (fun _ _ => rfl) resolved
    · intro i w target here present
      obtain ⟨l, located, entries⟩ := warp_eq_ok.mp (warps_find resolved here)
      rw [present] at entries
      obtain ⟨j, a, ⟨number, arrival⟩, entry⟩ := entries
      exact ⟨l, j, a, located, number, arrival, entry⟩

/-- A record beside a town whose second warp has a negative number. -/
def ruin : Raw.Record :=
  cell "MAP_RUIN" "Ruin" [] [⟨1, 1, 0, utf8 "MAP_CELLAR", -1⟩, ⟨2, 1, 0, utf8 "MAP_TOWN", -1⟩]

/-- The house loses its first warp and keeps its second, on the tile where it lies. The ruin is
reported for its second warp, since the target of the first is not in the table. -/
theorem house_kept_ruin_reported :
    let r := cellResolver [town, house]
    (∃ out, (r.warps house.data).outcome = .ok out ∧ out.size = 1 ∧
      numbered "warp" 0 ∉ out.keys ∧ numbered "warp" 1 ∈ out.keys ∧
      (∃ e, out.find? (numbered "warp" 1) = some e ∧ e.area = ⟨⟨-2, 9⟩, ⟨-2, 9⟩⟩ ∧
        e.position.coords = ⟨5, 7⟩) ∧
      warnings (r.warps house.data).log =
        [dropped (utf8 "House") 0 ⟨0, 0, 0, utf8 "MAP_CELLAR", 3⟩]) ∧
    (r.warps ruin.data).outcome =
      .error (.of (.warpOutOfRange (utf8 "Ruin") 1 (-1) (utf8 "Town") 1)) ∧
    ∃ w ∈ ruin.data.warpList, Faulty r w := by
  intro r
  have resolved : (r.warps house.data).outcome = .ok (Dict.empty.insert (utf8 "warp_1")
      ⟨Box.tile ⟨-2, 9⟩, ⟨utf8 "unnamed", utf8 "TOWN"⟩, ⟨⟨5, 7⟩, []⟩, transition⟩) := by
    decide +kernel
  have refused : (r.warps ruin.data).outcome =
      .error (.of (.warpOutOfRange (utf8 "Ruin") 1 (-1) (utf8 "Town") 1)) := by
    decide +kernel
  obtain ⟨keys, size, kept, warned⟩ :=
    (warps_kept_dropped_or_reported r house.data).2.2 _ resolved
  have present : r.table.get? (utf8 "MAP_TOWN") = some town := by decide +kernel
  obtain ⟨l, j, a, _, number, arrival, found⟩ := kept 1 _ town rfl present
  refine ⟨⟨_, resolved, size.trans (by decide +kernel), by decide +kernel, ?_,
    ⟨_, found, rfl, ?_⟩, warned.trans (by decide +kernel)⟩, refused, ?_⟩
  · exact (keys _).mpr ⟨1, _, rfl, by decide +kernel, rfl⟩
  · obtain rfl : j = 0 := Int.ofNat.inj number.symm
    cases arrival
    rfl
  · exact (warps_kept_dropped_or_reported r ruin.data).1.mp ⟨_, refused⟩

end Resolver

end Overworld
