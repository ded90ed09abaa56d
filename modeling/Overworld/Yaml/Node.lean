import Overworld.Yaml.Token

/-!
# Documents

The first document of a stream as a tree. An alias stays in the tree as a number: the
node it stands for is found in the document's table of anchors, because an anchored
collection may hold an alias of itself.
-/

set_option autoImplicit false

namespace Overworld.Yaml

/-- A node. A tag is given only where the stream writes one. -/
inductive Node where
  | scalar (tag : Option Bytes) (style : Style) (text : Bytes)
  | sequence (tag : Option Bytes) (items : List Node)
  | mapping (tag : Option Bytes) (entries : List (Node × Node))
  /-- An alias, told apart from every other one, the name of its anchor, and the
  number under which the anchor's node is kept. -/
  | alias (occurrence : Nat) (name : Bytes) (target : Nat)
  deriving Repr, Inhabited

def Node.absent : Node := .scalar none .plain []

/-- The first document: its root, unless the stream is empty, and the anchored nodes
under their numbers. -/
structure Document where
  root : Option Node
  anchors : List (Nat × Node)
  deriving Repr, Inhabited

/-- What is left to read, the tag handles, the numbers of anchors by name, the
anchored nodes, and the next free number. -/
structure Reading where
  tokens : List Token
  handles : List (Bytes × Bytes)
  names : List (List Char × Nat)
  anchors : List (Nat × Node)
  fresh : Nat
  deriving Repr

namespace Reading

def peek (r : Reading) : Option Token := r.tokens.head?

def skip (r : Reading) : Reading := { r with tokens := r.tokens.tail }

def properties (r : Reading) : Option (List Char) × Option (Bytes × Bytes) × Reading :=
  match r.tokens with
  | .anchor a :: .tag h s :: rest => (some a, some (h, s), { r with tokens := rest })
  | .anchor a :: rest => (some a, none, { r with tokens := rest })
  | .tag h s :: .anchor a :: rest => (some a, some (h, s), { r with tokens := rest })
  | .tag h s :: rest => (none, some (h, s), { r with tokens := rest })
  | _ => (none, none, r)

def coreTag : Bytes := utf8 "tag:yaml.org,2002:"

/-- The tag that a handle and suffix stand for. A tag of the format itself is
shortened to `!!`; the tag `!` is no tag. -/
def expand (r : Reading) : Option (Bytes × Bytes) → Option (Option Bytes)
  | none => some none
  | some (handle, suffix) => do
    let tag ← if handle.isEmpty then some suffix
      else do
        let start ← r.handles.lookup handle
        let tag := start ++ suffix
        if tag.isEmpty then none else some tag
    if tag = [0x21] then return none
    match Bytes.dropBeginning? coreTag tag with
    | some short => return some (0x21 :: 0x21 :: short)
    | none => return some tag

/-- Reserves the number of an anchor before its node is read. -/
def reserve (r : Reading) : Option (List Char) → Option Nat × Reading
  | none => (none, r)
  | some name =>
    (some r.fresh, { r with names := (name, r.fresh) :: r.names, fresh := r.fresh + 1 })

def keep (r : Reading) (number : Option Nat) (n : Node) : Node × Reading :=
  match number with
  | some i => (n, { r with anchors := (i, n) :: r.anchors })
  | none => (n, r)

mutual

/-- Reads a node. Block collections may begin where `block` says so, and a sequence
without indentation of its own where `indentless` does. -/
def node : Nat → Bool → Bool → Reading → Option (Node × Reading)
  | 0, _, _, _ => none
  | fuel + 1, block, indentless, r =>
    match r.tokens with
    | .alias name :: rest => do
      let target ← r.names.lookup name
      return (.alias r.fresh (Utf8.encode name) target,
        { r with tokens := rest, fresh := r.fresh + 1 })
    | _ => do
      let (anchor, tag, r) := r.properties
      let tagged := anchor.isSome || tag.isSome
      let tag ← r.expand tag
      let (number, r) := r.reserve anchor
      match r.tokens with
      | .scalar text style :: rest =>
        return { r with tokens := rest }.keep number (.scalar tag style (Utf8.encode text))
      | .flowSequenceStart :: rest => do
        let (items, r) ← flowItems fuel true [] { r with tokens := rest }
        return r.keep number (.sequence tag items)
      | .flowMappingStart :: rest => do
        let (entries, r) ← flowEntries fuel true [] { r with tokens := rest }
        return r.keep number (.mapping tag entries)
      | .blockEntry :: _ =>
        if indentless then do
          let (items, r) ← looseItems fuel [] r
          return r.keep number (.sequence tag items)
        else if tagged then return r.keep number (.scalar tag .plain [])
        else none
      | .blockSequenceStart :: rest =>
        if block then do
          let (items, r) ← blockItems fuel [] { r with tokens := rest }
          return r.keep number (.sequence tag items)
        else if tagged then return r.keep number (.scalar tag .plain [])
        else none
      | .blockMappingStart :: rest =>
        if block then do
          let (entries, r) ← blockEntries fuel [] { r with tokens := rest }
          return r.keep number (.mapping tag entries)
        else if tagged then return r.keep number (.scalar tag .plain [])
        else none
      | [] => none
      | _ => if tagged then return r.keep number (.scalar tag .plain []) else none

def blockItems : Nat → List Node → Reading → Option (List Node × Reading)
  | 0, _, _ => none
  | fuel + 1, items, r =>
    match r.tokens with
    | .blockEntry :: rest =>
      let r := { r with tokens := rest }
      match rest with
      | .blockEntry :: _ | .blockEnd :: _ => blockItems fuel (.absent :: items) r
      | _ => do
        let (n, r) ← node fuel true false r
        blockItems fuel (n :: items) r
    | .blockEnd :: rest => some (items.reverse, { r with tokens := rest })
    | _ => none

/-- Reads the items of a sequence that is indented like the mapping around it. -/
def looseItems : Nat → List Node → Reading → Option (List Node × Reading)
  | 0, _, _ => none
  | fuel + 1, items, r =>
    match r.tokens with
    | .blockEntry :: rest =>
      let r := { r with tokens := rest }
      match rest with
      | .blockEntry :: _ | .key :: _ | .value :: _ | .blockEnd :: _ =>
        looseItems fuel (.absent :: items) r
      | _ => do
        let (n, r) ← node fuel true false r
        looseItems fuel (n :: items) r
    | [] => none
    | _ => some (items.reverse, r)

def blockEntries : Nat → List (Node × Node) → Reading → Option (List (Node × Node) × Reading)
  | 0, _, _ => none
  | fuel + 1, entries, r =>
    match r.tokens with
    | .key :: _ => do
      let (k, r) ← blockPart fuel r.skip
      match r.tokens with
      | .value :: _ =>
        let (v, r) ← blockPart fuel r.skip
        blockEntries fuel ((k, v) :: entries) r
      | [] => none
      | _ => blockEntries fuel ((k, .absent) :: entries) r
    | .value :: _ => none
    | .blockEnd :: rest => some (entries.reverse, { r with tokens := rest })
    | _ => none

def blockPart : Nat → Reading → Option (Node × Reading)
  | 0, _ => none
  | fuel + 1, r =>
    match r.tokens with
    | .key :: _ | .value :: _ | .blockEnd :: _ => some (.absent, r)
    | _ => node fuel true true r

/-- Reads the items of a bracketed sequence up to its end. A key among them makes an
item that is a mapping of one entry. -/
def flowItems : Nat → Bool → List Node → Reading → Option (List Node × Reading)
  | 0, _, _, _ => none
  | fuel + 1, first, items, r =>
    match r.tokens with
    | .flowSequenceEnd :: rest => some (items.reverse, { r with tokens := rest })
    | .flowEntry :: rest =>
      if first then none
      else match rest with
        | .flowSequenceEnd :: rest' => some (items.reverse, { r with tokens := rest' })
        | _ => do
          let (n, r) ← flowItem fuel { r with tokens := rest }
          flowItems fuel false (n :: items) r
    | _ =>
      if first then do
        let (n, r) ← flowItem fuel r
        flowItems fuel false (n :: items) r
      else none

def flowItem : Nat → Reading → Option (Node × Reading)
  | 0, _ => none
  | fuel + 1, r =>
    match r.tokens with
    | .key :: _ => do
      let r := r.skip
      let (k, r) ← match r.tokens with
        | .value :: _ | .flowEntry :: _ | .flowSequenceEnd :: _ => some (Node.absent, r.skip)
        | _ => node fuel false false r
      let (v, r) ← match r.tokens with
        | .value :: .flowEntry :: _ | .value :: .flowSequenceEnd :: _ => some (Node.absent, r.skip)
        | .value :: _ => node fuel false false r.skip
        | [] => none
        | _ => some (Node.absent, r)
      return (.mapping none [(k, v)], r)
    | _ => node fuel false false r

def flowEntries : Nat → Bool → List (Node × Node) → Reading →
    Option (List (Node × Node) × Reading)
  | 0, _, _, _ => none
  | fuel + 1, first, entries, r =>
    match r.tokens with
    | .flowMappingEnd :: rest => some (entries.reverse, { r with tokens := rest })
    | .flowEntry :: rest =>
      if first then none
      else match rest with
        | .flowMappingEnd :: rest' => some (entries.reverse, { r with tokens := rest' })
        | _ => do
          let (e, r) ← flowPair fuel { r with tokens := rest }
          flowEntries fuel false (e :: entries) r
    | _ =>
      if first then do
        let (e, r) ← flowPair fuel r
        flowEntries fuel false (e :: entries) r
      else none

/-- Reads one entry of a bracketed mapping. A node without a key mark is a key
without a value. -/
def flowPair : Nat → Reading → Option ((Node × Node) × Reading)
  | 0, _ => none
  | fuel + 1, r =>
    match r.tokens with
    | .key :: _ => do
      let r := r.skip
      let (k, r) ← match r.tokens with
        | .value :: _ | .flowEntry :: _ | .flowMappingEnd :: _ => some (Node.absent, r)
        | _ => node fuel false false r
      let (v, r) ← match r.tokens with
        | .value :: .flowEntry :: _ | .value :: .flowMappingEnd :: _ => some (Node.absent, r.skip)
        | .value :: _ => node fuel false false r.skip
        | [] => none
        | _ => some (Node.absent, r)
      return ((k, v), r)
    | _ => do
      let (k, r) ← node fuel false false r
      return ((k, .absent), r)

end

/-- Reads the directives before a document. The version must be 1.1 and given once; a
handle is given once, and the usual handles stand where they are not given. -/
def directives : Bool → List (Bytes × Bytes) → List Token →
    Option (List (Bytes × Bytes) × List Token)
  | seen, handles, .version major minor :: rest =>
    if seen || major != 1 || minor != 1 then none else directives true handles rest
  | seen, handles, .tagAbbreviation handle start :: rest =>
    if (handles.lookup handle).isSome then none
    else directives seen ((handle, start) :: handles) rest
  | _, handles, rest => some (handles ++ [([0x21], [0x21]), ([0x21, 0x21], coreTag)], rest)

end Reading

def Document.ofTokens (ts : List Token) : Option Document := do
  let (handles, body) ← Reading.directives false [] ts
  let explicit := body.length != ts.length || body.head? = some .documentStart
  match explicit, body with
  | false, [] => none
  | false, .streamEnd :: _ => return ⟨none, []⟩
  | true, .documentStart :: rest => content handles rest
  | true, _ => none
  | false, .documentEnd :: _ => none
  | false, _ => content handles body
where
  content (handles : List (Bytes × Bytes)) (ts : List Token) : Option Document :=
    match ts with
    | [] => none
    | .version _ _ :: _ | .tagAbbreviation _ _ :: _ | .documentStart :: _ | .documentEnd :: _
    | .streamEnd :: _ => some ⟨some .absent, []⟩
    | _ => do
      let (n, r) ← Reading.node (4 * ts.length + 8) true false ⟨ts, handles, [], [], 0⟩
      if r.tokens.isEmpty then none else return ⟨some n, r.anchors⟩

/-- Reads the first document of a stream. Nothing behind it is looked at. -/
def Document.read (s : Bytes) : Option Document := do
  Document.ofTokens (tokens (← characters s))

end Overworld.Yaml
