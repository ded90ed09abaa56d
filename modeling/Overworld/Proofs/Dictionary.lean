import Overworld.Dict
import Mathlib.Data.List.Nodup
import Mathlib.Data.List.Perm.Basic

/-!
# What dictionaries hold

Looking up, adding and comparing. The entries are sorted strictly, so a dictionary is
determined by what it holds: dictionaries whose entries are the same up to order are
equal, whatever history they have.
-/

set_option autoImplicit false

namespace Overworld.Dict

variable {α : Type}

theorem ext_entries {a b : Dict α} (h : a.entries = b.entries) : a = b := by
  cases a
  cases b
  simpa using h

theorem map_eq_self {d : Dict α} {f : α → α} (h : ∀ e ∈ d.entries, f e.2 = e.2) : d.map f = d := by
  apply ext_entries
  have same : d.entries.map (fun e => (e.1, f e.2)) = d.entries.map fun e => e :=
    List.map_congr_left fun e he => by rw [h e he]
  exact same.trans (List.map_id _)

theorem keys_nodup (d : Dict α) : d.keys.Nodup := by
  unfold keys
  rw [List.Nodup, List.pairwise_map]
  exact d.ordered.imp fun h => Bytes.ne_of_lt h

theorem ext_perm {a b : Dict α} (h : a.entries.Perm b.entries) : a = b := by
  apply ext_entries
  refine h.eq_of_pairwise ?_ a.ordered b.ordered
  intro x y _ _ lt lt'
  have loop := Bytes.lt_trans lt lt'
  rw [Bytes.lt_irrefl] at loop
  exact Bool.noConfusion loop

theorem lookup_cons_if (k k' : Bytes) (v : α) (es : List (Bytes × α)) :
    ((k', v) :: es).lookup k = if k = k' then some v else es.lookup k := by
  rw [List.lookup_cons]
  by_cases h : k = k'
  · simp [h]
  · simp [h, beq_eq_false_iff_ne.mpr h]

theorem mem_of_lookup {k : Bytes} {v : α} {es : List (Bytes × α)} (h : es.lookup k = some v) :
    (k, v) ∈ es := by
  induction es with
  | nil => simp at h
  | cons e es ih =>
    obtain ⟨k', v'⟩ := e
    rw [lookup_cons_if] at h
    split at h
    · rename_i hk
      simp only [Option.some.injEq] at h
      simp [hk, h]
    · exact List.mem_cons_of_mem _ (ih h)

theorem lookup_of_mem {k : Bytes} {v : α} {es : List (Bytes × α)} (hn : (es.map (·.1)).Nodup)
    (h : (k, v) ∈ es) : es.lookup k = some v := by
  induction es with
  | nil => simp at h
  | cons e es ih =>
    obtain ⟨k', v'⟩ := e
    obtain ⟨fresh, hn⟩ := List.nodup_cons.mp hn
    rw [lookup_cons_if]
    rcases List.mem_cons.mp h with here | there
    · simp only [Prod.mk.injEq] at here
      simp [here.1, here.2]
    · have ne : k ≠ k' := fun hk => fresh (List.mem_map.mpr ⟨(k, v), there, hk⟩)
      rw [if_neg ne]
      exact ih hn there

theorem find_eq_some_iff {d : Dict α} {k : Bytes} {v : α} :
    d.find? k = some v ↔ (k, v) ∈ d.entries :=
  ⟨mem_of_lookup, lookup_of_mem d.keys_nodup⟩

theorem find_eq_none_iff {d : Dict α} {k : Bytes} : d.find? k = none ↔ k ∉ d.keys := by
  constructor
  · intro h hk
    obtain ⟨⟨k', v⟩, he, rfl⟩ := List.mem_map.mp hk
    rw [find_eq_some_iff.mpr he] at h
    cases h
  · intro h
    cases hf : d.find? k with
    | none => rfl
    | some v => exact absurd (List.mem_map.mpr ⟨_, find_eq_some_iff.mp hf, rfl⟩) h

theorem mem_keys_iff {d : Dict α} {k : Bytes} : k ∈ d.keys ↔ ∃ v, d.find? k = some v := by
  constructor
  · intro h
    obtain ⟨⟨k', v⟩, he, rfl⟩ := List.mem_map.mp h
    exact ⟨v, find_eq_some_iff.mpr he⟩
  · rintro ⟨v, h⟩
    exact List.mem_map.mpr ⟨_, find_eq_some_iff.mp h, rfl⟩

theorem place_perm {k : Bytes} {es : List (Bytes × α)} (h : k ∉ es.map (·.1)) (v : α) :
    (place k v es).Perm ((k, v) :: es) := by
  induction es with
  | nil => exact List.Perm.refl _
  | cons e es ih =>
    obtain ⟨k', v'⟩ := e
    simp only [List.map_cons, List.mem_cons, not_or] at h
    unfold place
    split
    · exact List.Perm.refl _
    · rw [if_neg h.1]
      exact ((ih h.2).cons _).trans (List.Perm.swap _ _ _)

theorem insert_perm {d : Dict α} {k : Bytes} (h : d.find? k = none) (v : α) :
    (d.insert k v).entries.Perm ((k, v) :: d.entries) :=
  place_perm (find_eq_none_iff.mp h) v

theorem lookup_place (k k' : Bytes) (v : α) {es : List (Bytes × α)}
    (ho : es.Pairwise fun a b => Bytes.lt a.1 b.1 = true) :
    (place k v es).lookup k' = if k' = k then some v else es.lookup k' := by
  induction es with
  | nil => rw [place, lookup_cons_if]
  | cons e es ih =>
    obtain ⟨l, w⟩ := e
    obtain ⟨_, ho⟩ := List.pairwise_cons.mp ho
    unfold place
    split
    · rw [lookup_cons_if]
    · split
      · rename_i hl
        subst hl
        rw [lookup_cons_if, lookup_cons_if]
        split <;> rfl
      · rename_i hl
        rw [lookup_cons_if, lookup_cons_if, ih ho]
        by_cases h : k' = l
        · subst h
          simp [Ne.symm hl]
        · simp [h]

@[simp] theorem find_insert (d : Dict α) (k k' : Bytes) (v : α) :
    (d.insert k v).find? k' = if k' = k then some v else d.find? k' :=
  lookup_place k k' v d.ordered

@[simp] theorem find_erase (d : Dict α) (k k' : Bytes) :
    (d.erase k).find? k' = if k' = k then none else d.find? k' := by
  cases found : d.find? k' with
  | none =>
    rw [ite_self, find_eq_none_iff]
    intro mem
    obtain ⟨e, he, rfl⟩ := List.mem_map.mp mem
    exact find_eq_none_iff.mp found (List.mem_map_of_mem (List.mem_of_mem_filter he))
  | some v =>
    by_cases same : k' = k
    · rw [if_pos same, find_eq_none_iff]
      intro mem
      obtain ⟨e, he, rfl⟩ := List.mem_map.mp mem
      have kept := (List.mem_filter.mp he).2
      simp [same] at kept
    · rw [if_neg same, find_eq_some_iff]
      exact List.mem_filter.mpr ⟨find_eq_some_iff.mp found, by simpa using same⟩

theorem ext_find {a b : Dict α} (h : ∀ k, a.find? k = b.find? k) : a = b := by
  apply ext_perm
  have distinct : ∀ d : Dict α, d.entries.Nodup := fun d => d.keys_nodup.of_map _
  apply (List.perm_ext_iff_of_nodup (distinct a) (distinct b)).mpr
  rintro ⟨k, v⟩
  rw [← find_eq_some_iff, ← find_eq_some_iff, h]

/-- Adding entries with distinct keys one after the other gives the dictionary that holds just
these, in whatever order they come. -/
theorem foldl_insert_perm {d : Dict α} {es : List (Bytes × α)}
    (hn : (d.keys ++ es.map (·.1)).Nodup) :
    (es.foldl (fun d e => d.insert e.1 e.2) d).entries.Perm (d.entries ++ es) := by
  induction es generalizing d with
  | nil => simp
  | cons e es ih =>
    have fresh : d.find? e.1 = none := by
      rw [find_eq_none_iff]
      intro h
      exact (List.nodup_append.mp hn).2.2 _ h _ (by simp) rfl
    have hp := insert_perm fresh e.2
    have hk : ((d.insert e.1 e.2).keys ++ es.map (·.1)).Perm (d.keys ++ (e :: es).map (·.1)) := by
      have := (hp.map (·.1)).append_right (es.map (·.1))
      refine this.trans ?_
      simpa [keys] using List.perm_middle.symm
    refine (ih (hk.nodup_iff.mpr hn)).trans ?_
    exact (hp.append_right es).trans List.perm_middle.symm

theorem foldl_insert_eq {d : Dict α} {es : List (Bytes × α)} (h : es.Perm d.entries) :
    es.foldl (fun d e => d.insert e.1 e.2) Dict.empty = d := by
  apply ext_perm
  refine (foldl_insert_perm ?_).trans ?_
  · simpa [keys, Dict.empty] using (h.map Prod.fst).nodup_iff.mpr d.keys_nodup
  · simpa [Dict.empty] using h

end Overworld.Dict
