import Overworld.Proofs.Dictionary
import Overworld.Proofs.Yaml.Decoding
import Overworld.World.Document

/-!
# Records and dictionaries

A record is legible and decoded field by field, and a dictionary entry by entry. A key `<<` is
written like any other text but read as a request for the entries of another mapping: whatever is
merged, no entry that is found is named by it.
-/

set_option autoImplicit false

namespace Overworld.Yaml

/-! ## Texts in a tree -/

theorem mem_fields_texts {es : List (Bytes × Tree)} {s : Bytes} :
    s ∈ treeTexts (.fields es) ↔ ∃ e ∈ es, s ∈ treeTexts e.2 := by
  rw [treeTexts]
  induction es with
  | nil => simp [entriesTexts]
  | cons e es ih =>
    rw [entriesTexts, entryTexts, List.mem_append, ih]
    simp

/-! ## Records -/

instance (k : Bytes) : Decidable (KeyText k) :=
  decidable_of_iff ((Written.shape k).encoded = false ∧
      ∀ c ∈ (Written.shape k).chars, Written.isPrintable c = true ∧ isBreak c = false)
    ⟨fun h => ⟨h.1, h.2⟩, fun h => ⟨h.bare, h.printed⟩⟩

/-- The names of a record's fields are written on the line of their value, are all different, and
none of them asks for another mapping. -/
structure RecordNames (names : List Bytes) : Prop where
  nodup : names.Nodup
  each : ∀ k ∈ names,
    KeyText k ∧ Written.isSimpleKey (Written.shape k) = true ∧ k ≠ mergeKey

instance (names : List Bytes) : Decidable (RecordNames names) :=
  decidable_of_iff (names.Nodup ∧ ∀ k ∈ names,
      KeyText k ∧ Written.isSimpleKey (Written.shape k) = true ∧ k ≠ mergeKey)
    ⟨fun h => ⟨h.1, h.2⟩, fun h => ⟨h.nodup, h.each⟩⟩

section
variable {names : List Bytes} {es : List (Bytes × Tree)} {P : Bytes → Prop} {room : Nat}

theorem legible_entries_iff :
    LegibleEntries P room es ↔ ∀ e ∈ es, LegibleEntry P room e := by
  induction es with
  | nil => simp [LegibleEntries]
  | cons e es ih => rw [LegibleEntries, ih, List.forall_mem_cons]

theorem legible_fields (h : LegibleEntries P room es) : Legible P (room + 1) (.fields es) := by
  rw [Legible]
  exact .inr ⟨room, rfl, h⟩

/-- Entries under names of a record, in the order of the names; some may be left out. -/
structure RecordEntries (names : List Bytes) (es : List (Bytes × Tree)) : Prop where
  valid : RecordNames names
  part : (es.map (·.1)).Sublist names

namespace RecordEntries

theorem legible_entries (h : RecordEntries names es) (values : ∀ e ∈ es, Legible P room e.2) :
    LegibleEntries P room es := by
  rw [legible_entries_iff]
  rintro ⟨k, t⟩ he
  obtain ⟨key, simple, _⟩ := h.valid.each k (h.part.subset (List.mem_map_of_mem he))
  rw [LegibleEntry]
  exact ⟨key, .inl simple, values (k, t) he⟩

theorem legible (h : RecordEntries names es) (values : ∀ e ∈ es, Legible P room e.2) :
    Legible P (room + 1) (.fields es) :=
  legible_fields (h.legible_entries values)

/-- The fields of a record are found as they were written. -/
theorem found (h : RecordEntries names es) (s : Scope) :
    Decoder.record names s (treeNode (.fields es)) = some (some (es.map (entryOf s))) := by
  have member : ∀ e ∈ es, e.1 ∈ names := fun e he => h.part.subset (List.mem_map_of_mem he)
  apply record_of_fields
  · exact fun e he => (h.valid.each e.1 (member e he)).1
  · exact h.part.nodup h.valid.nodup
  · intro merge
    exact (h.valid.each mergeKey (h.part.subset merge)).2.2 rfl
  · exact member

/-- A field of a record is decoded from its own tree. -/
theorem field_read {α : Type} {t : Tree} (h : RecordEntries names es) (name : String)
    (d : Decoder α) (default : α) (member : Yaml.field name t ∈ es) (s : Scope) :
    Entry.field (es.map (entryOf s)) name d default = d.orDefault default s (treeNode t) :=
  field_present (h.part.nodup h.valid.nodup) member s

theorem field {α : Type} {t : Tree} {d : Decoder α} {x : α} (h : RecordEntries names es)
    (name : String) (default : α) (member : Yaml.field name t ∈ es)
    (gives : d.Gives (treeNode t) x) (s : Scope) :
    Entry.field (es.map (entryOf s)) name d default = some x := by
  rw [h.field_read name d default member s, Decoder.orDefault, gives s]
  rfl

end RecordEntries

end

theorem Decoder.map_gives {α β : Type} {d : Decoder α} {n : Node} {x : α} (h : d.Gives n x)
    (f : α → β) : (d.map f).Gives n (f x) := by
  intro s
  simp [Decoder.map, h s]

/-! ## Dictionaries -/

section
variable {α β : Type} {tree : α → Tree} {dec : Decoder β} {g : α → β}

theorem sort_perm (d : Dict α) : (KeyOrder.sort d.entries).Perm d.entries :=
  List.mergeSort_perm _ _

theorem mem_dict_texts {d : Dict α} {s : Bytes} :
    s ∈ treeTexts (dictTree tree d) ↔ ∃ e ∈ d.entries, s ∈ treeTexts (tree e.2) := by
  rw [dictTree, mem_fields_texts]
  simp [(sort_perm d).mem_iff]

theorem dict_keys (d : Dict α) :
    ((KeyOrder.sort d.entries).map fun e => (e.1, tree e.2)).map (·.1) =
      (KeyOrder.sort d.entries).map (·.1) := by
  rw [List.map_map]
  rfl

/-- One entry of a dictionary being decoded. -/
def dictStep (dec : Decoder β) (default : β) (acc : Dict β) (e : Entry) : Option (Dict β) :=
  (dec e.scope e.value).map fun
    | some v => acc.insert e.name v
    | none => if e.merged && acc.contains e.name then acc else acc.insert e.name default

theorem dict_some {hides : Bool} {default : β} {s : Scope} {n : Node} {entries : List Entry}
    (h : entriesOf hides s n = some (some entries)) :
    Decoder.dict hides default dec s n =
      (entries.foldlM (dictStep dec default) Dict.empty).map some := by
  have step : dictStep dec default = fun acc e => do
      match ← dec e.scope e.value with
      | some v => return acc.insert e.name v
      | none =>
        return if e.merged && acc.contains e.name then acc else acc.insert e.name default := by
    funext acc e
    rw [dictStep]
    cases dec e.scope e.value with
    | none => rfl
    | some v => cases v <;> rfl
  rw [step, Decoder.dict, h]
  rfl

/-- A dictionary is decoded entry by entry, in whatever order it was written. -/
theorem dict_gives (hides : Bool) (default : β) {d : Dict α}
    (values : ∀ e ∈ d.entries, dec.Gives (treeNode (tree e.2)) (g e.2))
    (keys : ∀ k ∈ d.keys, KeyText k) (noMerge : mergeKey ∉ d.keys) :
    (Decoder.dict hides default dec).Gives (treeNode (dictTree tree d)) (d.map g) := by
  intro s
  have perm := sort_perm d
  have same := @dict_keys α tree d
  have entries : entriesOf hides s (treeNode (dictTree tree d)) =
      some (some (((KeyOrder.sort d.entries).map fun e => (e.1, tree e.2)).map (entryOf s))) := by
    apply entries_of_fields
    · intro e he
      obtain ⟨f, hf, rfl⟩ := List.mem_map.mp he
      exact keys f.1 (List.mem_map_of_mem (perm.mem_iff.mp hf))
    · rw [same]
      exact (perm.map _).nodup_iff.mpr d.keys_nodup
    · rw [same]
      exact fun h => noMerge ((perm.map _).mem_iff.mp h)
  have fold : ∀ (xs : List (Bytes × α)) (acc : Dict β), (∀ e ∈ xs, e ∈ d.entries) →
      ((xs.map fun e => (e.1, tree e.2)).map (entryOf s)).foldlM (dictStep dec default) acc =
        some ((xs.map fun e => (e.1, g e.2)).foldl (fun d e => d.insert e.1 e.2) acc) := by
    intro xs
    induction xs with
    | nil => exact fun acc _ => rfl
    | cons x xs ih =>
      intro acc part
      have value := values x (part x (by simp)) s
      have step : dictStep dec default acc (entryOf s (x.1, tree x.2)) =
          some (acc.insert x.1 (g x.2)) := by
        simp [dictStep, entryOf, value]
      rw [List.map_cons, List.map_cons, List.foldlM_cons, step, List.map_cons, List.foldl_cons]
      exact ih _ fun e he => part e (by simp [he])
  have whole : ((KeyOrder.sort d.entries).map fun e => (e.1, g e.2)).foldl
      (fun d e => d.insert e.1 e.2) Dict.empty = d.map g := Dict.foldl_insert_eq (perm.map _)
  rw [dict_some entries, fold _ _ fun e he => perm.mem_iff.mp he, whole]
  rfl

theorem dict_legible {P : Bytes → Prop} {room : Nat} {d : Dict α}
    (values : ∀ e ∈ d.entries, Legible P room (tree e.2)) (keys : ∀ k ∈ d.keys, KeyText k)
    (blocks : ∀ x, ∃ e es, tree x = .fields (e :: es)) :
    Legible P (room + 1) (dictTree tree d) := by
  apply legible_fields
  rw [legible_entries_iff]
  intro e he
  obtain ⟨f, hf, rfl⟩ := List.mem_map.mp he
  have member := (sort_perm d).mem_iff.mp hf
  rw [LegibleEntry]
  exact ⟨keys f.1 (List.mem_map_of_mem member), .inr (blocks f.2), values f member⟩

end

/-! ## Merge keys -/

section
variable {P : Bytes → Prop} {room : Nat} {t : Tree}

/-- No entry is named by the merge key. -/
def Unmerged (es : List Entry) : Prop := ∀ e ∈ es, e.name ≠ mergeKey

theorem own_unmerged {es : List (Bytes × Tree)} (keys : ∀ e ∈ es, KeyText e.1) {s : Scope}
    {merged : Bool} {taken after : Option (List Bytes)} {out : List Entry}
    (h : Entry.own s merged taken (entryNodes es) = some (out, after)) : Unmerged out := by
  induction es generalizing taken out after with
  | nil =>
    cases h
    simp [Unmerged]
  | cons e es ih =>
    obtain ⟨k, t⟩ := e
    have key := keys (k, t) (by simp)
    have tail := fun {taken after out} => @ih (fun f hf => keys f (by simp [hf])) taken after out
    rw [entryNodes, entryNode, Entry.own, is_merge_key key] at h
    by_cases merge : k = mergeKey
    · simp only [merge, decide_true, if_true] at h
      exact tail h
    · have added : ∀ rest, Unmerged rest → Unmerged (⟨k, s, treeNode t, merged⟩ :: rest) :=
        fun rest hr => List.forall_mem_cons.mpr ⟨merge, hr⟩
      simp only [merge, decide_false, Bool.false_eq_true, if_false, key_gives key s,
        Option.bind_eq_bind, Option.bind_some] at h
      cases taken with
      | none =>
        obtain ⟨⟨rest, t'⟩, found, same⟩ := Option.bind_eq_some_iff.mp h
        cases same
        exact added rest (tail found)
      | some names =>
        by_cases known : names.contains k = true
        · simp only [known, if_true] at h
          exact tail h
        · simp only [known, Bool.false_eq_true, if_false] at h
          obtain ⟨⟨rest, t'⟩, found, same⟩ := Option.bind_eq_some_iff.mp h
          cases same
          exact added rest (tail found)

theorem enter_tree (s : Scope) (t : Tree) : s.enter (treeNode t) = some (s, treeNode t) := by
  cases t <;> rfl

theorem merge_sources_legible (h : Legible P room t) :
    ∀ n ∈ Entry.mergeSources (treeNode t), ∃ u, Legible P room u ∧ n = treeNode u := by
  intro n hn
  cases t with
  | row ns =>
    obtain ⟨k, _, rfl⟩ := List.mem_map.mp hn
    exact ⟨.int k, by simp [Legible], rfl⟩
  | items ts => simp [Legible] at h
  | text s => exact ⟨.text s, h, List.mem_singleton.mp hn⟩
  | int k => exact ⟨.int k, h, List.mem_singleton.mp hn⟩
  | flag b => exact ⟨.flag b, h, List.mem_singleton.mp hn⟩
  | fields es => exact ⟨.fields es, h, List.mem_singleton.mp hn⟩

/-- What every step of a fold keeps holds at its end. -/
theorem fold_keeps {α β : Type} {K : β → Prop} {step : β → α → Option β} {xs : List α}
    (keeps : ∀ acc, ∀ x ∈ xs, K acc → ∀ next, step acc x = some next → K next)
    {acc out : β} (start : K acc) (h : xs.foldlM step acc = some out) : K out := by
  induction xs generalizing acc with
  | nil =>
    cases h
    exact start
  | cons x xs ih =>
    rw [List.foldlM_cons] at h
    obtain ⟨next, taken, rest⟩ := Option.bind_eq_some_iff.mp h
    exact ih (fun acc y hy => keeps acc y (by simp [hy])) (keeps acc x (by simp) start next taken)
      rest

theorem fields_parts {es : List (Bytes × Tree)} (h : Legible P room (.fields es)) :
    ∀ e ∈ es, KeyText e.1 ∧ ∃ inner, Legible P inner e.2 := by
  rw [Legible] at h
  rcases h with rfl | ⟨inner, _, entries⟩
  · simp
  · rw [legible_entries_iff] at entries
    rintro ⟨k, t⟩ he
    have entry := entries (k, t) he
    rw [LegibleEntry] at entry
    exact ⟨entry.1, inner, entry.2.2⟩

/-- Merging legible mappings brings in no such name if collecting them does not. -/
theorem merge_unmerged {hides : Bool} {fuel : Nat} (h : Legible P room t) {s : Scope}
    {start last : Option (List Bytes)} {more : List Entry}
    (collected : ∀ (u : Tree) (s : Scope) (taken after : Option (List Bytes)) (out : List Entry),
      Legible P room u → Entry.collect hides fuel s true taken (treeNode u) = some (out, after) →
        Unmerged out)
    (fold : (Entry.mergeSources (treeNode t)).foldlM
      (fun acc src => do
        let (s', target) ← s.enter src
        let (es, t) ← Entry.collect hides fuel s' true acc.2 target
        return (acc.1 ++ es, t)) ([], start) = some (more, last)) : Unmerged more := by
  apply fold_keeps (K := fun acc => Unmerged acc.1) _ _ fold
  · intro acc x hx kept next step
    obtain ⟨u, legible, rfl⟩ := merge_sources_legible h x hx
    simp only [enter_tree, Option.bind_eq_bind, Option.bind_some] at step
    obtain ⟨⟨es, after⟩, found, same⟩ := Option.bind_eq_some_iff.mp step
    cases same
    exact List.forall_mem_append.mpr ⟨kept, collected u s acc.2 after es legible found⟩
  · simp [Unmerged]

/-- By induction on how deep merges may nest: own entries skip the merge key, and what it asks
for is legible again. -/
theorem collect_unmerged {hides merged : Bool} {fuel : Nat} (h : Legible P room t)
    {s : Scope} {taken after : Option (List Bytes)} {out : List Entry}
    (found : Entry.collect hides fuel s merged taken (treeNode t) = some (out, after)) :
    Unmerged out := by
  induction fuel generalizing merged room t s taken after out with
  | zero => cases found
  | succ fuel ih =>
    cases t with
    | text x => cases found
    | int n => cases found
    | flag b => cases found
    | row ns => cases found
    | items ts => cases found
    | fields es =>
      have parts := fields_parts h
      rw [treeNode, Entry.collect] at found
      by_cases distinct : Entry.distinctKeys (entryNodes es) = true
      · simp only [distinct, Bool.not_true, Bool.false_eq_true, if_false] at found
        obtain ⟨⟨mine, t'⟩, own, found⟩ := Option.bind_eq_some_iff.mp found
        have first := own_unmerged (fun e he => (parts e he).1) own
        cases source : ((entryNodes es).find? (·.1.isMerge)).map (·.2) with
        | none =>
          simp only [source] at found
          cases found
          exact first
        | some n =>
          simp only [source] at found
          obtain ⟨e, he, rfl⟩ := Option.map_eq_some_iff.mp source
          have member := List.mem_of_find?_eq_some he
          rw [entry_nodes_eq] at member
          obtain ⟨⟨k, u⟩, hu, rfl⟩ := List.mem_map.mp member
          obtain ⟨_, inner, legible⟩ := parts (k, u) hu
          have inside := fun v s taken after out (hv : Legible P inner v) =>
            @ih inner v true hv s taken after out
          cases t' <;>
          · obtain ⟨before, _, found⟩ := Option.bind_eq_some_iff.mp found
            obtain ⟨⟨more, last⟩, fold, same⟩ := Option.bind_eq_some_iff.mp found
            cases same
            exact List.forall_mem_append.mpr ⟨first, merge_unmerged legible inside fold⟩
      · simp [distinct] at found

theorem entries_of_scalar {hides : Bool} {s : Scope} {tag : Option Bytes} {style : Style}
    {x : Bytes} {es : List Entry} : entriesOf hides s (.scalar tag style x) ≠ some (some es) := by
  intro found
  simp only [entriesOf, Scope.enter, Option.bind_eq_bind, Option.bind_some] at found
  cases value : Value.ofScalar tag style x with
  | none => simp [value] at found
  | some v =>
    rw [value] at found
    cases v <;> cases found

theorem entries_unmerged {hides : Bool} (h : Legible P room t) {s : Scope} {es : List Entry}
    (found : entriesOf hides s (treeNode t) = some (some es)) : Unmerged es := by
  cases t with
  | fields fs =>
    simp only [entriesOf, enter_tree, Option.bind_eq_bind, Option.bind_some] at found
    obtain ⟨⟨out, after⟩, collected, same⟩ := Option.bind_eq_some_iff.mp found
    cases same
    exact collect_unmerged h collected
  | text x => exact absurd found entries_of_scalar
  | int n => exact absurd found entries_of_scalar
  | flag b => exact absurd found entries_of_scalar
  | row ns => cases found
  | items ts => cases found

/-- No dictionary that is read has the merge key. -/
theorem dict_unmerged {β : Type} {hides : Bool} {default : β} {dec : Decoder β}
    (h : Legible P room t) {s : Scope} {d : Dict β}
    (given : (Decoder.dict hides default dec).orDefault Dict.empty s (treeNode t) = some d) :
    mergeKey ∉ d.keys := by
  obtain ⟨r, read, rfl⟩ := Option.map_eq_some_iff.mp given
  cases found : entriesOf hides s (treeNode t) with
  | none => simp [Decoder.dict, found] at read
  | some entries =>
    cases entries with
    | none =>
      simp only [Decoder.dict, found, Option.bind_eq_bind, Option.bind_some] at read
      cases read
      simp [Dict.empty, Dict.keys]
    | some es =>
      rw [dict_some found] at read
      obtain ⟨d, fold, rfl⟩ := Option.map_eq_some_iff.mp read
      have unmerged := entries_unmerged h found
      rw [Option.getD_some, ← Dict.find_eq_none_iff]
      apply fold_keeps (K := fun d => d.find? mergeKey = none) _ _ fold
      · intro acc e he kept next step
        have inserted : ∀ v, (acc.insert e.name v).find? mergeKey = none := by
          intro v
          rw [Dict.find_insert, if_neg (unmerged e he).symm, kept]
        obtain ⟨v, _, rfl⟩ := Option.map_eq_some_iff.mp step
        cases v with
        | some v => exact inserted v
        | none =>
          show (if _ then _ else _ : Dict β).find? mergeKey = none
          split
          · exact kept
          · exact inserted default
      · rfl

end

end Overworld.Yaml
