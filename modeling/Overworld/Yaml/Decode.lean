import Overworld.Dict
import Overworld.Yaml.Value

/-!
# Reading values out of a document

A decoder turns a node into a value of one type. It fails on a node of another
shape, and says so apart when the node is null: what null means is for the place
where the value stands to decide.

A mapping may ask for the entries of other mappings. The entries it has itself come
first, then the merged ones; a name that is already set is not set again.
-/

set_option autoImplicit false

namespace Overworld.Yaml

/-- The anchors that aliases refer to and the aliases that are being followed. An
alias inside its own node is refused. -/
structure Scope where
  anchors : List (Nat × Node)
  following : List Nat

namespace Scope

def enter (s : Scope) : Node → Option (Scope × Node)
  | .alias occurrence _ target =>
    if s.following.contains occurrence then none
    else do
      let n ← s.anchors.lookup target
      return ({ s with following := occurrence :: s.following }, n)
  | n => some (s, n)

end Scope

/-- Reads a value: nothing at all when the node does not fit, and `some none` when it
is null. -/
def Decoder (α : Type) : Type := Scope → Node → Option (Option α)

namespace Decoder

variable {α β : Type}

def scalar (f : Value → Bytes → Option α) : Decoder α := fun s n => do
  match (← s.enter n).2 with
  | .scalar tag style text =>
    match ← Value.ofScalar tag style text with
    | .null => return none
    | v => return some (← f v text)
  | _ => none

/-- Reads a text. A scalar of any kind keeps the text it was written with, unless
that was an encoding of bytes. -/
def text : Decoder Bytes := fun s n => do
  match (← s.enter n).2 with
  | .scalar tag style written =>
    match ← Value.ofScalar tag style written with
    | .null => return none
    | .text t => return some t
    | _ => return some written
  | _ => none

/-- Reads an integer between two bounds. A fraction is cut off. -/
def integer (lo hi : Int) : Decoder Int :=
  scalar fun v _ =>
    let within (n : Int) : Option Int := if lo ≤ n && n ≤ hi then some n else none
    match v with
    | .int n => within n
    | .float f => do within (← f.truncate)
    | _ => none

def flag : Decoder Bool :=
  scalar fun v _ =>
    match v with
    | .bool b => some b
    | .text t =>
      if [utf8 "y", utf8 "Y", utf8 "yes", utf8 "on"].contains t then some true
      else if [utf8 "n", utf8 "N", utf8 "no", utf8 "off"].contains t then some false
      else none
    | _ => none

def map (f : α → β) (d : Decoder α) : Decoder β := fun s n => (d s n).map (Option.map f)

def orDefault (d : Decoder α) (default : α) (s : Scope) (n : Node) : Option α :=
  (d s n).map (·.getD default)

def list (d : Decoder α) : Decoder (List α) := fun s n => do
  let (s, n) ← s.enter n
  match n with
  | .sequence _ items => return some (← items.mapM (d s)).reduceOption
  | .scalar tag style text =>
    match ← Value.ofScalar tag style text with
    | .null => return none
    | _ => none
  | _ => none

/-- Reads a sequence of a fixed length. Null items are left out and the places at the
end keep the default. -/
def fixed (size : Nat) (default : α) (d : Decoder α) : Decoder (List α) := fun s n => do
  let (s, n) ← s.enter n
  match n with
  | .sequence _ items =>
    if items.length ≠ size then none
    else
      let values := (← items.mapM (d s)).reduceOption
      return some (values ++ List.replicate (size - values.length) default)
  | .scalar tag style text =>
    match ← Value.ofScalar tag style text with
    | .null => return none
    | _ => none
  | _ => none

end Decoder

/-- An entry of a mapping: its name, the value with the scope it is read in, and
whether it was merged in. -/
structure Entry where
  name : Bytes
  scope : Scope
  value : Node
  merged : Bool

namespace Entry

/-- What tells whether two keys are the same: kind and written text. -/
def identity : Node → Nat × Bytes
  | .scalar _ _ text => (0, text)
  | .sequence _ _ => (1, [])
  | .mapping _ _ => (2, [])
  | .alias _ name _ => (3, name)

def distinctKeys : List (Node × Node) → Bool
  | [] => true
  | (k, _) :: rest => rest.all (fun e => identity e.1 != identity k) && distinctKeys rest

/-- The names among the keys that are texts by themselves; such a name hides a merged
entry of the same name. -/
def ownTexts (s : Scope) (entries : List (Node × Node)) : Option (List Bytes) := do
  let names ← entries.mapM fun e => do
    match (← s.enter e.1).2 with
    | .scalar tag style text => do
      match ← Value.ofScalar tag style text with
      | .text t => return some t
      | _ => return none
    | _ => none
  return names.reduceOption

/-- The nodes that a merge key names: a mapping, or a sequence of mappings. Each may
be an alias. -/
def mergeSources : Node → List Node
  | .sequence _ items => items
  | n => [n]

/-- The entries of a mapping that it has itself, without those that a merge key asks
for. Entries under null are left out, as are those whose names are already taken. -/
def own (s : Scope) (merged : Bool) :
    Option (List Bytes) → List (Node × Node) → Option (List Entry × Option (List Bytes))
  | taken, [] => some ([], taken)
  | taken, (k, v) :: rest =>
    if k.isMerge then own s merged taken rest
    else do
      match ← Decoder.text s k with
      | none => own s merged taken rest
      | some name =>
        match taken with
        | none =>
          let (entries, taken) ← own s merged none rest
          return (⟨name, s, v, merged⟩ :: entries, taken)
        | some names =>
          if names.contains name then own s merged taken rest
          else
            let (entries, taken) ← own s merged (some (name :: names)) rest
            return (⟨name, s, v, merged⟩ :: entries, taken)

/-- The entries of a mapping, its own ones first. `hides` says whether own entries
hide merged ones. `taken` holds the names that are set already, for a mapping that is
itself merged. -/
def collect (hides : Bool) :
    Nat → Scope → Bool → Option (List Bytes) → Node → Option (List Entry × Option (List Bytes))
  | 0, _, _, _, _ => none
  | fuel + 1, s, merged, taken, n =>
    match n with
    | .mapping _ entries =>
      if !distinctKeys entries then none
      else do
        let (mine, taken) ← own s merged taken entries
        match (entries.find? (·.1.isMerge)).map (·.2) with
        | none => return (mine, taken)
        | some source =>
          let before ← match taken with
            | some names => some names
            | none => (ownTexts s entries).map fun names => if hides then names else []
          let (more, after) ← (mergeSources source).foldlM
            (fun acc src => do
              let (s', target) ← s.enter src
              let (es, t) ← collect hides fuel s' true acc.2 target
              return (acc.1 ++ es, t))
            ([], some before)
          return (mine ++ more, if taken.isSome then after else none)
    | _ => none

end Entry

/-- How deep merges can nest: an alias is never followed inside itself. -/
def mergeDepth : Nat := 10000

/-- The entries of a mapping, its own ones first, and `some none` for null. -/
def entriesOf (hides : Bool) : Decoder (List Entry) := fun s n => do
  let (s, n) ← s.enter n
  match n with
  | .mapping _ _ => return some (← Entry.collect hides mergeDepth s false none n).1
  | .scalar tag style text =>
    match ← Value.ofScalar tag style text with
    | .null => return none
    | _ => none
  | _ => none

namespace Decoder

variable {α : Type}

/-- Reads a dictionary. Null under a key stands for the default, which does not
replace an entry by a merged one. -/
def dict (hides : Bool) (default : α) (d : Decoder α) : Decoder (Dict α) := fun s n => do
  match ← entriesOf hides s n with
  | none => return none
  | some entries =>
    some <$> entries.foldlM
      (fun acc e => do
        match ← d e.scope e.value with
        | some v => return acc.insert e.name v
        | none => return if e.merged && acc.contains e.name then acc else acc.insert e.name default)
      Dict.empty

/-- The fields of a record, once each; fields with other names are ignored. -/
def record (names : List Bytes) : Decoder (List Entry) := fun s n => do
  match ← entriesOf true s n with
  | none => return none
  | some entries =>
    let known := entries.filter fun e => names.contains e.name
    if (known.map (·.name)).Nodup then return some known else none

end Decoder

def Entry.field {α : Type} (entries : List Entry) (name : String) (d : Decoder α) (default : α) :
    Option α :=
  match entries.find? (fun e => e.name == utf8 name) with
  | none => some default
  | some e => d.orDefault default e.scope e.value

end Overworld.Yaml
