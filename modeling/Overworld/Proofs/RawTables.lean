import Overworld.Raw.Table
import Overworld.Proofs.Dictionary
import Mathlib.Data.List.Forall2

/-!
# Tables made of records

A table that is filled record by record holds just the records it was given. It does not show in
which order they came, as long as no two of them have one identifier.
-/

set_option autoImplicit false

namespace Overworld.Raw.Table

variable {t t' : Table} {r : Record} {rs rs' : List Record} {id : Bytes}

theorem ext_records {a b : Table} (h : a.records = b.records) : a = b := by
  cases a
  cases b
  simpa using h

@[simp] theorem get_add (t : Table) (r : Record) (id : Bytes) :
    (t.add r).get? id = if id = r.data.id then some r else t.get? id :=
  Dict.find_insert t.records r.data.id id r

theorem get_add_eq_none :
    (t.add r).get? id = none ↔ id ≠ r.data.id ∧ t.get? id = none := by
  rw [get_add]
  split <;> simp_all

theorem records_foldl_add (rs : List Record) (t : Table) :
    (rs.foldl add t).records = rs.foldl (fun d r => d.insert r.data.id r) t.records := by
  induction rs generalizing t with
  | nil => rfl
  | cons r rs ih => exact ih (t.add r)

theorem to_list_ids (t : Table) : t.toList.map (·.data.id) = t.ids := by
  simp only [toList, ids, Dict.values, Dict.keys, List.map_map]
  exact List.map_congr_left t.keyed

/-- A table is what adding its records to an empty one makes. -/
theorem foldl_add_to_list (t : Table) : t.toList.foldl add empty = t := by
  apply ext_records
  have same : t.records.entries.foldl (fun d e => d.insert e.2.data.id e.2) Dict.empty =
      t.records.entries.foldl (fun d e => d.insert e.1 e.2) Dict.empty :=
    List.foldl_ext _ _ _ fun d e he => by rw [t.keyed e he]
  rw [records_foldl_add, toList, Dict.values, List.foldl_map]
  exact same.trans (Dict.foldl_insert_eq (List.Perm.refl _))

theorem foldl_add_entries (distinct : (rs.map (·.data.id)).Nodup) :
    (rs.foldl add empty).records.entries.Perm (rs.map fun r => (r.data.id, r)) := by
  have keys : (Dict.keys (Dict.empty : Dict Record) ++
      (rs.map fun r => (r.data.id, r)).map Prod.fst).Nodup := by
    simpa [Dict.keys, Dict.empty, Function.comp_def] using distinct
  have placed := Dict.foldl_insert_perm keys
  rw [List.foldl_map] at placed
  rw [records_foldl_add]
  exact placed

theorem foldl_add_perm (distinct : (rs.map (·.data.id)).Nodup) :
    (rs.foldl add empty).toList.Perm rs := by
  have values := (foldl_add_entries distinct).map Prod.snd
  rw [List.map_map] at values
  exact values.trans (List.Perm.of_eq (List.map_id rs))

theorem get_foldl_add (distinct : (rs.map (·.data.id)).Nodup) :
    (rs.foldl add empty).get? id = some r ↔ r ∈ rs ∧ r.data.id = id := by
  rw [get?, Dict.find_eq_some_iff, (foldl_add_entries distinct).mem_iff, List.mem_map]
  constructor
  · rintro ⟨s, mem, same⟩
    cases same
    exact ⟨mem, rfl⟩
  · rintro ⟨mem, rfl⟩
    exact ⟨r, mem, rfl⟩

theorem foldl_add_of_perm (distinct : (rs.map (·.data.id)).Nodup) (h : rs.Perm rs') :
    rs.foldl add empty = rs'.foldl add empty := by
  apply ext_records
  apply Dict.ext_perm
  have distinct' : (rs'.map (·.data.id)).Nodup := (h.map _).nodup_iff.mp distinct
  exact (foldl_add_entries distinct).trans ((h.map _).trans (foldl_add_entries distinct').symm)

theorem insert_eq_ok : t.insert r = .ok t' ↔ t.get? r.data.id = none ∧ t' = t.add r := by
  unfold insert
  cases t.get? r.data.id with
  | none => simp [eq_comm]
  | some existing => simp [fail]

theorem insert_eq_error {f : Failure} : t.insert r = .error f ↔ ∃ s, t.get? r.data.id = some s ∧
    f = .of (.duplicateRecord r.data.id s.data.name r.data.name) := by
  unfold insert
  cases t.get? r.data.id with
  | none => simp
  | some existing => simp [fail, eq_comm]

/-! ## Filling a table step by step -/

section Fold

variable {α : Type} {f : Table → α → Except Failure Table} {xs : List α}

/-- Where each step adds the record of its item if the identifier is free, and fails otherwise, all
steps succeed exactly if all records are there and their identifiers are new and distinct. -/
theorem foldlM_eq_ok_iff {Gives : α → Record → Prop}
    (adds : ∀ t x t', f t x = .ok t' ↔ ∃ r, Gives x r ∧ t.get? r.data.id = none ∧ t' = t.add r) :
    xs.foldlM f t = .ok t' ↔ ∃ rs, List.Forall₂ Gives xs rs ∧ (rs.map (·.data.id)).Nodup ∧
      (∀ r ∈ rs, t.get? r.data.id = none) ∧ t' = rs.foldl add t := by
  induction xs generalizing t with
  | nil =>
    constructor
    · intro h
      cases h
      exact ⟨[], .nil, List.nodup_nil, by simp, rfl⟩
    · rintro ⟨rs, given, _, _, rfl⟩
      cases given
      rfl
  | cons x xs ih =>
    rw [List.foldlM_cons]
    constructor
    · intro h
      cases step : f t x with
      | error e =>
        rw [step] at h
        cases h
      | ok next =>
        rw [step] at h
        obtain ⟨r, read, free, rfl⟩ := (adds t x next).mp step
        obtain ⟨rs, given, distinct, fresh, rfl⟩ := ih.mp h
        refine ⟨r :: rs, .cons read given, ?_, ?_, rfl⟩
        · rw [List.map_cons, List.nodup_cons]
          refine ⟨?_, distinct⟩
          intro taken
          obtain ⟨s, hs, same⟩ := List.mem_map.mp taken
          exact (get_add_eq_none.mp (fresh s hs)).1 same
        · intro s hs
          rcases List.mem_cons.mp hs with rfl | hs
          · exact free
          · exact (get_add_eq_none.mp (fresh s hs)).2
    · rintro ⟨rs, given, distinct, fresh, rfl⟩
      cases given with
      | @cons _ r _ rs read given =>
        obtain ⟨unlike, distinct⟩ := List.nodup_cons.mp distinct
        have step : f t x = .ok (t.add r) := (adds t x _).mpr ⟨r, read, fresh r (by simp), rfl⟩
        rw [step]
        apply ih.mpr
        refine ⟨rs, given, distinct, ?_, rfl⟩
        intro s hs
        have apart : s.data.id ≠ r.data.id := fun e => unlike (List.mem_map.mpr ⟨s, hs, e⟩)
        exact get_add_eq_none.mpr ⟨apart, fresh s (by simp [hs])⟩

end Fold

end Overworld.Raw.Table
