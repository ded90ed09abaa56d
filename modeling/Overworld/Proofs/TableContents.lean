import Overworld.Proofs.Outcome
import Overworld.Proofs.RawTables
import Mathlib.Data.List.Nodup

/-!
# What a table holds

A list of records makes a table exactly if no identifier occurs twice in it. The table shows the
records in the order of their identifiers, whatever order they came in, and making a table of what
it shows gives it back. Where an identifier occurs twice, the first record that repeats one is
reported, together with the record that it repeats.
-/

set_option autoImplicit false

namespace Overworld.Raw

open Quoted (quote)

namespace Table

variable {rs : List Record} {t : Table} {f : Failure}

theorem of_list_eq_ok :
    ofList rs = .ok t ↔ (rs.map (·.data.id)).Nodup ∧ t = rs.foldl add empty := by
  have adds : ∀ (t : Table) r t', t.insert r = .ok t' ↔
      ∃ s, r = s ∧ t.get? s.data.id = none ∧ t' = t.add s := by
    intro t r t'
    rw [insert_eq_ok, exists_eq_left']
  rw [ofList, foldlM_eq_ok_iff adds]
  simp only [List.forall₂_eq_eq_eq]
  constructor
  · rintro ⟨_, rfl, distinct, _, rfl⟩
    exact ⟨distinct, rfl⟩
  · rintro ⟨distinct, rfl⟩
    exact ⟨rs, rfl, distinct, fun _ _ => rfl, rfl⟩

/-- The record at a position has the identifier of a record at an earlier position. It is the first
such record: before it, all identifiers differ. -/
structure Repeats (rs : List Record) (i j : Nat) (first again : Record) : Prop where
  order : i < j
  same : first.data.id = again.data.id
  earlier : rs[i]? = some first
  later : rs[j]? = some again
  distinct : ((rs.take j).map (·.data.id)).Nodup

theorem of_list_error_repeats (h : ofList rs = .error f) : ∃ i j first again,
    Repeats rs i j first again ∧
      f = .of (.duplicateRecord again.data.id first.data.name again.data.name) := by
  rw [ofList, foldlM_eq_error] at h
  obtain ⟨before, again, after, t, rfl, made, failed⟩ := h
  obtain ⟨distinct, rfl⟩ := of_list_eq_ok.mp made
  obtain ⟨first, held, rfl⟩ := insert_eq_error.mp failed
  obtain ⟨mem, same⟩ := (get_foldl_add distinct).mp held
  obtain ⟨i, bound, rfl⟩ := List.mem_iff_getElem.mp mem
  refine ⟨i, before.length, before[i], again, ⟨bound, same, ?_, ?_, ?_⟩, rfl⟩
  · rw [List.getElem?_append_left bound, List.getElem?_eq_getElem bound]
  · simp
  · simpa using distinct

theorem of_list_fails_iff : (∃ f, ofList rs = .error f) ↔ ¬(rs.map (·.data.id)).Nodup := by
  cases made : ofList rs with
  | ok t => simp [(of_list_eq_ok.mp made).1]
  | error f =>
    have distinct : ¬(rs.map (·.data.id)).Nodup := by
      intro distinct
      rw [of_list_eq_ok.mpr ⟨distinct, rfl⟩] at made
      cases made
    simp [distinct]

theorem ids_repeat_iff : ¬(rs.map (·.data.id)).Nodup ↔ ∃ (i j : Nat) (a b : Record),
    i < j ∧ rs[i]? = some a ∧ rs[j]? = some b ∧ a.data.id = b.data.id := by
  rw [List.nodup_iff_getElem?_ne_getElem?]
  push Not
  constructor
  · rintro ⟨i, j, order, bound, same⟩
    rw [List.length_map] at bound
    have bound' : i < rs.length := Nat.lt_trans order bound
    simp only [List.getElem?_map, List.getElem?_eq_getElem bound, List.getElem?_eq_getElem bound',
      Option.map_some, Option.some.injEq] at same
    exact ⟨i, j, rs[i], rs[j], order, List.getElem?_eq_getElem bound',
      List.getElem?_eq_getElem bound, same⟩
  · rintro ⟨i, j, a, b, order, ha, hb, same⟩
    obtain ⟨bound, _⟩ := List.getElem?_eq_some_iff.mp hb
    refine ⟨i, j, order, by simpa using bound, ?_⟩
    simp [ha, hb, same]

/-- The table shows exactly the given records, in the order of their identifiers. -/
structure Holds (t : Table) (rs : List Record) : Prop where
  ids_ascending : t.ids.Pairwise fun a b => Bytes.lt a b = true
  ids_given : t.ids.Perm (rs.map (·.data.id))
  size : t.size = rs.length
  in_order : t.toList.map (·.data.id) = t.ids
  records : t.toList.Perm rs
  get : ∀ id r, t.get? id = some r ↔ r ∈ rs ∧ r.data.id = id
  absent : ∀ id, t.get? id = none ↔ id ∉ rs.map (·.data.id)

theorem Holds.find (h : t.Holds rs) (id : Bytes) : t.get? id = rs.find? (·.data.id = id) := by
  cases found : rs.find? (·.data.id = id) with
  | none =>
    rw [h.absent]
    simpa using found
  | some r =>
    rw [h.get]
    exact ⟨List.mem_of_find?_eq_some found, by simpa using List.find?_some found⟩

theorem foldl_add_holds (distinct : (rs.map (·.data.id)).Nodup) :
    (rs.foldl add empty).Holds rs := by
  have records := foldl_add_perm distinct
  have ids : (rs.foldl add empty).ids.Perm (rs.map (·.data.id)) := by
    rw [← to_list_ids]
    exact records.map _
  have get : ∀ id r, (rs.foldl add empty).get? id = some r ↔ r ∈ rs ∧ r.data.id = id :=
    fun id r => get_foldl_add distinct
  refine ⟨?_, ids, ?_, to_list_ids _, records, get, ?_⟩
  · exact List.pairwise_map.mpr (rs.foldl add empty).records.ordered
  · simpa [size, Dict.size, toList, Dict.values] using records.length_eq
  · intro id
    rw [Option.eq_none_iff_forall_ne_some]
    simp [get]

end Table

namespace Builder

/-- The builder after an attempt to add a record. -/
def after (b : Builder) (r : Record) : Builder :=
  match b.insert r with
  | some (next, _) => next
  | none => b

section Collecting

variable {t : Table} {r s : Record}

theorem insert_free (free : t.get? r.data.id = none) :
    (collecting t).insert r = some (collecting (t.add r), .ok ()) := by
  simp [insert, Table.insert_eq_ok.mpr ⟨free, rfl⟩]

theorem insert_taken (taken : t.get? r.data.id = some s) : (collecting t).insert r =
    some (collecting t, .error (.of (.duplicateRecord r.data.id s.data.name r.data.name))) := by
  simp [insert, Table.insert_eq_error.mpr ⟨s, taken, rfl⟩]

theorem after_free (free : t.get? r.data.id = none) :
    (collecting t).after r = collecting (t.add r) := by
  rw [after, insert_free free]

theorem after_taken (taken : t.get? r.data.id = some s) :
    (collecting t).after r = collecting t := by
  rw [after, insert_taken taken]

end Collecting

/-- Of the records offered to a builder, it keeps the first of each identifier. -/
theorem foldl_after (rs : List Record) (t : Table) : ∃ t', rs.foldl after (collecting t) =
    collecting t' ∧ ∀ id, t'.get? id = (t.get? id).or (rs.find? (·.data.id = id)) := by
  induction rs generalizing t with
  | nil => exact ⟨t, rfl, by simp⟩
  | cons r rs ih =>
    rw [List.foldl_cons]
    cases held : t.get? r.data.id with
    | none =>
      rw [after_free held]
      obtain ⟨t', collected, got⟩ := ih (t.add r)
      refine ⟨t', collected, ?_⟩
      intro id
      rw [got, Table.get_add, List.find?_cons]
      by_cases same : id = r.data.id
      · simp [same, held]
      · simp [same, Ne.symm same]
    | some s =>
      rw [after_taken held]
      obtain ⟨t', collected, got⟩ := ih t
      refine ⟨t', collected, ?_⟩
      intro id
      rw [got, List.find?_cons]
      by_cases same : id = r.data.id
      · simp [same, held]
      · simp [Ne.symm same]

/-- A builder that was offered some records holds the first of each identifier. It refuses a record
exactly if one of its identifier was offered before, and is the same as before then. -/
structure Offered (rs : List Record) (b : Builder) : Prop where
  get : ∀ id, b.build.1.get? id = rs.find? (·.data.id = id)
  refused : ∀ r s, rs.find? (·.data.id = r.data.id) = some s →
    b.insert r = some (b, .error (.of (.duplicateRecord r.data.id s.data.name r.data.name)))
  added : ∀ r, rs.find? (·.data.id = r.data.id) = none →
    ∃ next, b.insert r = some (next, .ok ()) ∧ next.build.1 = b.build.1.add r

theorem offered_foldl_after (rs : List Record) : Offered rs (rs.foldl after start) := by
  obtain ⟨t, collected, got⟩ := foldl_after rs Table.empty
  have get : ∀ id, t.get? id = rs.find? (·.data.id = id) := got
  rw [start, collected]
  refine ⟨get, ?_, ?_⟩
  · intro r s found
    have taken : t.get? r.data.id = some s := (get _).trans found
    exact insert_taken taken
  · intro r found
    exact ⟨_, insert_free ((get _).trans found), rfl⟩

end Builder

namespace Table

/-- The table that a list of records makes. The list is refused exactly if an identifier occurs at
two positions. Otherwise neither the order of the list matters nor whether its records are offered
to a builder one by one. -/
theorem tables_hold_their_records (rs : List Record) :
    ((∃ f, ofList rs = .error f) ↔ ∃ (i j : Nat) (a b : Record),
      i < j ∧ rs[i]? = some a ∧ rs[j]? = some b ∧ a.data.id = b.data.id) ∧
    (∀ f, ofList rs = .error f → ∃ i j first again, Repeats rs i j first again ∧
      f = .of (.duplicateRecord again.data.id first.data.name again.data.name) ∧
      f.message = "duplicate raw map identifier: " ++ quote again.data.id ++ " is used by both " ++
        quote first.data.name ++ " and " ++ quote again.data.name) ∧
    (∀ t, ofList rs = .ok t → t.Holds rs ∧ (∀ rs', rs'.Perm rs → ofList rs' = .ok t) ∧
      ofList t.toList = .ok t ∧ (rs.foldl Builder.after Builder.start).build.1 = t) ∧
    Builder.Offered rs (rs.foldl Builder.after Builder.start) := by
  have offered := Builder.offered_foldl_after rs
  refine ⟨of_list_fails_iff.trans ids_repeat_iff, ?_, ?_, offered⟩
  · intro f failed
    obtain ⟨i, j, first, again, repeated, rfl⟩ := of_list_error_repeats failed
    exact ⟨i, j, first, again, repeated, rfl, rfl⟩
  · intro t made
    obtain ⟨distinct, rfl⟩ := of_list_eq_ok.mp made
    have any_order : ∀ rs', rs'.Perm rs → ofList rs' = .ok (rs.foldl add empty) := by
      intro rs' perm
      have distinct' : (rs'.map (·.data.id)).Nodup := (perm.map _).nodup_iff.mpr distinct
      exact of_list_eq_ok.mpr ⟨distinct', foldl_add_of_perm distinct perm.symm⟩
    have holds := foldl_add_holds distinct
    refine ⟨holds, any_order, any_order _ holds.records, ?_⟩
    apply ext_records
    apply Dict.ext_find
    intro id
    exact (offered.get id).trans (holds.find id).symm

/-- A record of which only the identifier and the name matter. -/
def named (id name : String) : Record where
  data := { (default : MapData) with id := utf8 id, name := utf8 name }
  layout := default

/-- A second map of one identifier is refused. Without it the two orders make one table. -/
theorem second_bay_refused :
    let bay := named "MAP_BAY" "Bay"
    let arch := named "MAP_ARCH" "Arch"
    let pond := named "MAP_BAY" "Pond"
    (∃ f, ofList [bay, arch, pond] = .error f ∧
      ∃ i j first again, Repeats [bay, arch, pond] i j first again ∧
        f = .of (.duplicateRecord again.data.id first.data.name again.data.name)) ∧
    (∃ t, ofList [bay, arch] = .ok t ∧ t.Holds [bay, arch] ∧ ofList [arch, bay] = .ok t) := by
  intro bay arch pond
  constructor
  · obtain ⟨fails, reported, _, _⟩ := tables_hold_their_records [bay, arch, pond]
    obtain ⟨f, failed⟩ := fails.mpr ⟨0, 2, bay, pond, by decide, rfl, rfl, rfl⟩
    obtain ⟨i, j, first, again, repeated, cause, _⟩ := reported f failed
    exact ⟨f, failed, i, j, first, again, repeated, cause⟩
  · have made : ofList [bay, arch] = .ok ([bay, arch].foldl add empty) := by decide
    obtain ⟨_, _, shown, _⟩ := tables_hold_their_records [bay, arch]
    obtain ⟨holds, any_order, _, _⟩ := shown _ made
    exact ⟨_, made, holds, any_order _ (List.Perm.swap bay arch [])⟩

end Table

end Overworld.Raw
