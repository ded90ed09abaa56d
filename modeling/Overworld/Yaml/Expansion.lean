import Overworld.Yaml.Decode

/-!
# Expansion of aliases

A short document can stand for a very long one, since an alias repeats all that it refers to.
A document is refused when nearly everything that is read of it is repeated.

What is read depends on what the document is read into: fields with unknown names are not, for
instance. An outline says as much of that as is needed to count the nodes.
-/

set_option autoImplicit false

namespace Overworld.Yaml

/-- What a document is read into, as far as it decides which nodes are read. For a dictionary
it says whether entries hide merged ones of the same name. -/
inductive Outline where
  | scalar
  | list (item : Outline)
  | dict (hides : Bool) (value : Outline)
  | record (fields : List (Bytes × Outline))
  | any

namespace Outline

def ofFields (fields : List (String × Outline)) : Outline :=
  .record (fields.map fun (name, o) => (utf8 name, o))

def ofScalars (names : List String) : Outline := ofFields (names.map fun name => (name, .scalar))

def item : Outline → Outline
  | .list o => o
  | _ => .any

def value? : Outline → Bytes → Option Outline
  | .dict _ o, _ => some o
  | .record fields, name => fields.lookup name
  | _, _ => some .any

def hides : Outline → Bool
  | .dict h _ => h
  | _ => true

end Outline

structure Tally where
  read : Nat
  repeated : Nat

namespace Tally

/-- The tally before the root: the document itself counts. -/
def start : Tally := ⟨1, 0⟩

/-- Whether too much is repeated. Up to 400,000 nodes 99 of 100 may be, from 4,000,000 nodes on
one of 10, and in between the share falls evenly. Small documents are always fine. -/
def isExcessive (t : Tally) : Bool :=
  100 < t.repeated && 1000 < t.read &&
    if t.read ≤ 400000 then 99 * t.read < 100 * t.repeated
    else if 4000000 ≤ t.read then t.read < 10 * t.repeated
    else t.read * (356400000 - 89 * (t.read - 400000)) < 360000000 * t.repeated

def add (t : Tally) (repeated : Bool) : Option Tally :=
  let next : Tally := ⟨t.read + 1, if repeated then t.repeated + 1 else t.repeated⟩
  if next.isExcessive then none else some next

end Tally

namespace Outline

/-- Counts the nodes that are read of a node and below it. The names that are set already are
given for a mapping that is merged into another, and given back with its own among them. The
number bounds how deep nodes nest. -/
def count : Nat → Outline → Scope → Option (List Bytes) → Node → Tally →
    Option (Tally × Option (List Bytes))
  | 0, _, _, _, _, _ => none
  | fuel + 1, o, s, taken, n, t => do
    let t ← t.add (!s.following.isEmpty)
    match n with
    | .alias _ _ _ => do
      let (inner, target) ← s.enter n
      count fuel o inner taken target t
    | .scalar _ _ _ => return (t, taken)
    | .sequence _ items => do
      let t ← items.foldlM (fun t n => (count fuel o.item s none n t).map (·.1)) t
      return (t, taken)
    | .mapping _ entries => do
      let (t, set) ← entries.foldlM (fun (t, set) (k, v) => do
        if k.isMerge then return (t, set)
        let (t, _) ← count fuel .scalar s none k t
        match ← Decoder.text s k with
        | none => return (t, set)
        | some name =>
          if set.any (·.contains name) then return (t, set)
          let set := set.map (name :: ·)
          match o.value? name with
          | none => return (t, set)
          | some inner => return ((← count fuel inner s none v t).1, set)) (t, taken)
      match entries.find? (·.1.isMerge) with
      | none => return (t, set)
      | some (_, source) =>
        let (t, before) ← match set with
          | some names => some (t, some names)
          | none => do
            let t ← entries.foldlM (fun t e => (count fuel .scalar s none e.1 t).map (·.1)) t
            let names ← Entry.ownTexts s entries
            return (t, some (if o.hides then names else []))
        let (t, after) ← (Entry.mergeSources source).foldlM
          (fun (t, names) n => count fuel o s names n t) (t, before)
        return (t, if taken.isSome then after else none)

end Outline

/-- Reads a whole document; an empty one is null. Without anchors nothing is repeated. -/
def Document.decode {α : Type} (o : Outline) (d : Decoder α) (default : α) (s : Bytes) :
    Option α := do
  let doc ← Document.read s
  match doc.root with
  | none => return default
  | some n =>
    let scope : Scope := ⟨doc.anchors, []⟩
    guard (doc.anchors.isEmpty || (o.count (2 * s.length + 2) scope none n Tally.start).isSome)
    d.orDefault default scope n

end Overworld.Yaml
