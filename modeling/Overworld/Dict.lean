import Overworld.Text.Order

/-!
# Dictionaries

A dictionary from texts to values is its list of entries, sorted strictly by key.
The list is the only representation of its contents, so equal contents are equal
dictionaries whatever order they were put in.
-/

set_option autoImplicit false

namespace Overworld

/-- A finite map from texts, as entries in strictly ascending key order. -/
structure Dict (α : Type) where
  entries : List (Bytes × α)
  ordered : entries.Pairwise fun a b => Bytes.lt a.1 b.1 = true
  deriving Repr

namespace Dict

variable {α β : Type}

instance [DecidableEq α] : DecidableEq (Dict α) := fun a b =>
  if h : a.entries = b.entries then
    isTrue (by cases a; cases b; simpa using h)
  else isFalse (by rintro rfl; exact h rfl)

def empty : Dict α := ⟨[], List.Pairwise.nil⟩

instance : Inhabited (Dict α) := ⟨empty⟩

/-- Puts an entry in its place, over an older one of the same key. -/
def place (k : Bytes) (v : α) : List (Bytes × α) → List (Bytes × α)
  | [] => [(k, v)]
  | (k', v') :: es =>
    if Bytes.lt k k' then (k, v) :: (k', v') :: es
    else if k = k' then (k, v) :: es
    else (k', v') :: place k v es

theorem mem_place {k : Bytes} {v : α} {es : List (Bytes × α)} {e : Bytes × α}
    (h : e ∈ place k v es) : e = (k, v) ∨ e ∈ es := by
  induction es with
  | nil => simpa [place] using h
  | cons e' es ih =>
    obtain ⟨k', v'⟩ := e'
    simp only [place] at h
    split at h
    · simpa using h
    · split at h
      · rcases List.mem_cons.mp h with h | h
        · exact Or.inl h
        · exact Or.inr (List.mem_cons_of_mem _ h)
      · rcases List.mem_cons.mp h with h | h
        · exact Or.inr (by simp [h])
        · rcases ih h with h | h
          · exact Or.inl h
          · exact Or.inr (List.mem_cons_of_mem _ h)

theorem place_ordered (k : Bytes) (v : α) {es : List (Bytes × α)}
    (h : es.Pairwise fun a b => Bytes.lt a.1 b.1 = true) :
    (place k v es).Pairwise fun a b => Bytes.lt a.1 b.1 = true := by
  induction es with
  | nil => simp [place]
  | cons e es ih =>
    obtain ⟨k', v'⟩ := e
    have ⟨first, rest⟩ := List.pairwise_cons.mp h
    simp only [place]
    split
    · rename_i lt
      refine List.pairwise_cons.mpr ⟨?_, h⟩
      intro e he
      rcases List.mem_cons.mp he with he | he
      · subst he; exact lt
      · exact Bytes.lt_trans lt (first e he)
    · split
      · rename_i eq
        subst eq
        exact List.pairwise_cons.mpr ⟨first, rest⟩
      · rename_i nlt ne
        refine List.pairwise_cons.mpr ⟨?_, ih rest⟩
        intro e he
        rcases mem_place he with he | he
        · subst he
          exact Bytes.lt_of_ne (by simpa using nlt) ne
        · exact first e he

def insert (d : Dict α) (k : Bytes) (v : α) : Dict α :=
  ⟨place k v d.entries, place_ordered k v d.ordered⟩

def erase (d : Dict α) (k : Bytes) : Dict α :=
  ⟨d.entries.filter fun e => e.1 != k, d.ordered.filter _⟩

def find? (d : Dict α) (k : Bytes) : Option α := d.entries.lookup k

def contains (d : Dict α) (k : Bytes) : Bool := (d.find? k).isSome

def keys (d : Dict α) : List Bytes := d.entries.map (·.1)

def values (d : Dict α) : List α := d.entries.map (·.2)

def size (d : Dict α) : Nat := d.entries.length

def isEmpty (d : Dict α) : Bool := d.entries.isEmpty

/-- The dictionary of a list of entries; a later one replaces an earlier one. -/
def ofList (es : List (Bytes × α)) : Dict α :=
  es.foldl (fun d e => d.insert e.1 e.2) empty

def map (f : α → β) (d : Dict α) : Dict β :=
  ⟨d.entries.map fun e => (e.1, f e.2), by
    rw [List.pairwise_map]
    exact d.ordered⟩

end Dict

end Overworld
