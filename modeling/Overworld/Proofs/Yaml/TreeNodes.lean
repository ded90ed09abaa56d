import Overworld.Proofs.Yaml.TreeTokens

/-!
# The nodes of a written document

The tokens of a written document are put together to the tree of nodes that it was written from.
No anchor and no alias is ever written, so nothing but the tokens is threaded through.
-/

set_option autoImplicit false

namespace Overworld.Yaml

/-- The node of a text under a key. -/
def textNode (s : Bytes) : Node :=
  .scalar (if (Written.shape s).encoded then some (utf8 "!!binary") else none)
    (Written.style false (Written.shape s)) (Utf8.encode (textBack s))

/-- The node of a key. -/
def keyNode (k : Bytes) : Node :=
  let sh := Written.shape k
  .scalar none (Written.style (Written.isSimpleKey sh) sh) (Utf8.encode sh.chars)

/-- The node of an integer. -/
def intNode (n : Int) : Node := .scalar none .plain (Bytes.ofInt n)

mutual

/-- The node of a document or a part of it. -/
def treeNode : Tree → Node
  | .text s => textNode s
  | .int n => intNode n
  | .flag b => .scalar none .plain (Written.flagText b)
  | .row ns => .sequence none (ns.map intNode)
  | .items ts => .sequence none (itemNodes ts)
  | .fields es => .mapping none (entryNodes es)

/-- The nodes of the items of a sequence. -/
def itemNodes : List Tree → List Node
  | [] => []
  | t :: ts => treeNode t :: itemNodes ts

/-- The nodes of the entries of a mapping. -/
def entryNodes : List (Bytes × Tree) → List (Node × Node)
  | [] => []
  | e :: es => entryNode e :: entryNodes es

/-- The nodes of one entry of a mapping. -/
def entryNode : Bytes × Tree → Node × Node
  | (k, t) => (keyNode k, treeNode t)

end

namespace Reading

/-- What is left to read of a document without directives and anchors. -/
def ofTokens (ts : List Token) : Reading :=
  ⟨ts, [([0x21], [0x21]), ([0x21, 0x21], coreTag)], [], [], 0⟩

theorem node_scalar (fuel : Nat) (block indentless : Bool) (text : List Char) (style : Style)
    (rest : List Token) :
    node (fuel + 1) block indentless (ofTokens (.scalar text style :: rest)) =
      some (.scalar none style (Utf8.encode text), ofTokens rest) := rfl

theorem node_binary (fuel : Nat) (block indentless : Bool) (text : List Char) (style : Style)
    (rest : List Token) :
    node (fuel + 1) block indentless
        (ofTokens (.tag (utf8 "!!") (utf8 "binary") :: .scalar text style :: rest)) =
      some (.scalar (some (utf8 "!!binary")) style (Utf8.encode text), ofTokens rest) := rfl

theorem node_text (fuel : Nat) (block indentless : Bool) (s : Bytes) (rest : List Token) :
    node (fuel + 1) block indentless (ofTokens (textTokens s ++ rest)) =
      some (textNode s, ofTokens rest) := by
  cases bare : (Written.shape s).encoded with
  | false =>
    simp only [textTokens, textNode, bare, Bool.false_eq_true, if_false, List.nil_append,
      List.singleton_append]
    exact node_scalar ..
  | true =>
    simp only [textTokens, textNode, bare, if_true, List.singleton_append]
    exact node_binary ..

/-- The tokens of a row after its first word. -/
def rowTail : List (List Char) → List Token
  | [] => [.flowSequenceEnd]
  | w :: ws => .flowEntry :: .scalar w .plain :: rowTail ws

theorem row_tokens_cons (w : List Char) (ws : List (List Char)) :
    Scanner.rowTokens (w :: ws) = .scalar w .plain :: rowTail ws := by
  induction ws generalizing w with
  | nil => rfl
  | cons v ws ih => rw [Scanner.rowTokens, ih, rowTail]

/-- A word of a row. -/
def wordNode (w : List Char) : Node := .scalar none .plain (Utf8.encode w)

theorem flow_items_tail {ws : List (List Char)} {fuel : Nat} (items : List Node)
    (rest : List Token) (enough : ws.length + 2 ≤ fuel) :
    flowItems fuel false items (ofTokens (rowTail ws ++ rest)) =
      some (items.reverse ++ ws.map wordNode, ofTokens rest) := by
  induction ws generalizing fuel items with
  | nil =>
    obtain ⟨fuel, rfl⟩ : ∃ f, fuel = f + 1 := ⟨fuel - 1, by omega⟩
    rw [List.map_nil, List.append_nil]
    rfl
  | cons w ws ih =>
    rw [List.length_cons] at enough
    obtain ⟨fuel, rfl⟩ : ∃ f, fuel = f + 3 := ⟨fuel - 3, by omega⟩
    have step : flowItems (fuel + 3) false items (ofTokens (rowTail (w :: ws) ++ rest)) =
        flowItems (fuel + 2) false (wordNode w :: items) (ofTokens (rowTail ws ++ rest)) := rfl
    rw [step, ih _ (by omega)]
    simp

/-- The words of a row are read one after the other. -/
theorem flow_items_row {ws : List (List Char)} {fuel : Nat} (rest : List Token)
    (enough : ws.length + 3 ≤ fuel) :
    flowItems fuel true [] (ofTokens (Scanner.rowTokens ws ++ rest)) =
      some (ws.map wordNode, ofTokens rest) := by
  obtain ⟨fuel, rfl⟩ : ∃ f, fuel = f + 3 := ⟨fuel - 3, by omega⟩
  cases ws with
  | nil => rfl
  | cons w ws =>
    rw [List.length_cons] at enough
    have step : flowItems (fuel + 3) true []
        (ofTokens (.scalar w .plain :: rowTail ws ++ rest)) =
        flowItems (fuel + 2) false [wordNode w] (ofTokens (rowTail ws ++ rest)) := rfl
    rw [row_tokens_cons, step, flow_items_tail _ _ (by omega)]
    simp

theorem row_tokens_length (ws : List (List Char)) : ws.length < (Scanner.rowTokens ws).length := by
  cases ws with
  | nil => decide
  | cons w ws =>
    have tail : ws.length < (rowTail ws).length := by
      induction ws with
      | nil => decide
      | cons v ws ih =>
        simp only [rowTail, List.length_cons]
        omega
    rw [row_tokens_cons, List.length_cons, List.length_cons]
    omega

/-- A tree is read from its tokens in front of any others. -/
def TreeReads (t : Tree) : Prop :=
  ∀ (fuel : Nat) (indentless : Bool) (rest : List Token), 4 * (treeTokens t).length ≤ fuel →
    node fuel true indentless (ofTokens (treeTokens t ++ rest)) = some (treeNode t, ofTokens rest)

theorem node_row (fuel : Nat) (block indentless : Bool) (ts : List Token) :
    node (fuel + 1) block indentless (ofTokens (.flowSequenceStart :: ts)) =
      (flowItems fuel true [] (ofTokens ts)).bind fun x => some (.sequence none x.1, x.2) := rfl

theorem node_mapping (fuel : Nat) (indentless : Bool) (ts : List Token) :
    node (fuel + 1) true indentless (ofTokens (.blockMappingStart :: ts)) =
      (blockEntries fuel [] (ofTokens ts)).bind fun x => some (.mapping none x.1, x.2) := rfl

theorem row_reads (ns : List Int) : TreeReads (.row ns) := by
  intro fuel indentless rest enough
  have length := row_tokens_length (ns.map intChars)
  rw [treeTokens, List.length_cons] at enough
  rw [List.length_map] at length
  obtain ⟨fuel, rfl⟩ : ∃ f, fuel = f + 1 := ⟨fuel - 1, by omega⟩
  have words : (ns.map intChars).map wordNode = ns.map intNode := by
    rw [List.map_map]
    apply List.map_congr_left
    intro n _
    rw [Function.comp_apply, wordNode, intNode, of_int_eq_encode]
  rw [treeTokens, List.cons_append, node_row,
    flow_items_row _ (by rw [List.length_map]; omega), words, treeNode]
  rfl

theorem text_reads (s : Bytes) : TreeReads (.text s) := by
  intro fuel indentless rest enough
  have one : 0 < (textTokens s).length := by simp [textTokens]
  rw [treeTokens] at enough
  obtain ⟨fuel, rfl⟩ : ∃ f, fuel = f + 1 := ⟨fuel - 1, by omega⟩
  rw [treeTokens, treeNode]
  exact node_text ..

/-- What may stand after a colon: no key, no colon and no end of a mapping. -/
def BeginsNode : List Token → Prop
  | [] => False
  | .key :: _ | .value :: _ | .blockEnd :: _ => False
  | _ => True

theorem text_tokens_begin (s : Bytes) (rest : List Token) : BeginsNode (textTokens s ++ rest) := by
  unfold textTokens
  split <;> trivial

theorem tree_tokens_begin (t : Tree) (rest : List Token) : BeginsNode (treeTokens t ++ rest) := by
  cases t with
  | text s =>
    rw [treeTokens]
    exact text_tokens_begin s rest
  | int n => trivial
  | flag b => trivial
  | row ns => trivial
  | items ts =>
    rw [treeTokens]
    split <;> trivial
  | fields es =>
    rw [treeTokens]
    split <;> trivial

theorem block_part_node (fuel : Nat) {ts : List Token} (h : BeginsNode ts) :
    blockPart (fuel + 1) (ofTokens ts) = node fuel true true (ofTokens ts) := by
  rw [blockPart]
  split
  · rename_i e
    rw [show ts = _ from e] at h
    exact h.elim
  · rename_i e
    rw [show ts = _ from e] at h
    exact h.elim
  · rename_i e
    rw [show ts = _ from e] at h
    exact h.elim
  · rfl

/-- The entries of a mapping are read from their tokens up to its end. -/
def EntriesRead (es : List (Bytes × Tree)) : Prop :=
  ∀ (fuel : Nat) (before : List (Node × Node)) (rest : List Token),
    4 * (entriesTokens es).length + 1 ≤ fuel →
    blockEntries fuel before (ofTokens (entriesTokens es ++ .blockEnd :: rest)) =
      some (before.reverse ++ entryNodes es, ofTokens rest)

theorem block_entries_entry (fuel : Nat) (before : List (Node × Node)) (k : Bytes)
    (ts : List Token) :
    blockEntries (fuel + 3) before (ofTokens (.key :: keyToken k :: .value :: ts)) =
      (blockPart (fuel + 2) (ofTokens ts)).bind fun x =>
        blockEntries (fuel + 2) ((keyNode k, x.1) :: before) x.2 := rfl

theorem entries_read_cons {k : Bytes} {t : Tree} {es : List (Bytes × Tree)}
    (value : TreeReads t) (rest : EntriesRead es) : EntriesRead ((k, t) :: es) := by
  intro fuel before after enough
  rw [entriesTokens, entryTokens, List.length_append] at enough
  simp only [List.length_cons] at enough
  obtain ⟨fuel, rfl⟩ : ∃ f, fuel = f + 3 := ⟨fuel - 3, by omega⟩
  have begins := tree_tokens_begin t (entriesTokens es ++ .blockEnd :: after)
  rw [entriesTokens, entryTokens]
  simp only [List.cons_append, List.append_assoc]
  rw [block_entries_entry, block_part_node _ begins, value _ _ _ (by omega), Option.bind_some,
    rest _ _ _ (by omega), entryNodes, entryNode]
  simp

theorem fields_read {es : List (Bytes × Tree)} (entries : es ≠ [] → EntriesRead es) :
    TreeReads (.fields es) := by
  intro fuel indentless rest enough
  cases es with
  | nil =>
    rw [treeTokens] at enough
    obtain ⟨fuel, rfl⟩ : ∃ f, fuel = f + 2 := ⟨fuel - 2, by simp at enough; omega⟩
    rfl
  | cons e es =>
    have tokens : treeTokens (.fields (e :: es)) =
        .blockMappingStart :: (entriesTokens (e :: es) ++ [.blockEnd]) := by
      rw [treeTokens, if_neg (by simp)]
    rw [tokens, List.length_cons, List.length_append] at enough
    obtain ⟨fuel, rfl⟩ : ∃ f, fuel = f + 1 := ⟨fuel - 1, by omega⟩
    rw [tokens, List.cons_append, node_mapping, List.append_assoc, List.singleton_append,
      entries (by simp) _ _ _ (by omega), treeNode]
    simp

mutual

/-- Every legible tree is read back from its tokens. -/
theorem tree_reads {P : Bytes → Prop} {room : Nat} : (t : Tree) → Legible P room t → TreeReads t
  | .text s, _ => text_reads s
  | .int n, _ => by
    intro fuel indentless rest enough
    obtain ⟨fuel, rfl⟩ : ∃ f, fuel = f + 1 := ⟨fuel - 1, by simp [treeTokens] at enough; omega⟩
    rw [treeNode, intNode, of_int_eq_encode]
    rfl
  | .flag b, _ => by
    intro fuel indentless rest enough
    obtain ⟨fuel, rfl⟩ : ∃ f, fuel = f + 1 := ⟨fuel - 1, by simp [treeTokens] at enough; omega⟩
    cases b <;> rfl
  | .row ns, _ => row_reads ns
  | .items us, h => absurd rfl (h.no_items us)
  | .fields es, h => by
    refine fields_read fun nonempty => ?_
    rw [Legible] at h
    obtain ⟨inner, _, legible⟩ := h.resolve_left nonempty
    exact entries_read es legible

theorem entries_read {P : Bytes → Prop} {room : Nat} :
    (es : List (Bytes × Tree)) → LegibleEntries P room es → EntriesRead es
  | [], _ => by
    intro fuel before rest enough
    obtain ⟨fuel, rfl⟩ : ∃ f, fuel = f + 1 := ⟨fuel - 1, by omega⟩
    rw [entryNodes, List.append_nil]
    rfl
  | e :: es, h => by
    rw [LegibleEntries] at h
    exact entries_read_of_entry e h.1 (entries_read es h.2)

theorem entries_read_of_entry {P : Bytes → Prop} {room : Nat} {es : List (Bytes × Tree)} :
    (e : Bytes × Tree) → LegibleEntry P room e → EntriesRead es → EntriesRead (e :: es)
  | (_, t), h, rest => by
    rw [LegibleEntry] at h
    exact entries_read_cons (tree_reads t h.2.2) rest

end

end Reading

theorem of_tokens_mapping (ts : List Token) :
    Document.ofTokens (.blockMappingStart :: ts) =
      (Reading.node (4 * (ts.length + 1) + 8) true false
        (Reading.ofTokens (.blockMappingStart :: ts))).bind fun x =>
          if x.2.tokens.isEmpty then none else some ⟨some x.1, x.2.anchors⟩ := by
  have handles : Reading.directives false [] (.blockMappingStart :: ts) =
      some ([([0x21], [0x21]), ([0x21, 0x21], Reading.coreTag)], .blockMappingStart :: ts) := rfl
  rw [Document.ofTokens, handles]
  simp only [Option.bind_eq_bind, Option.bind_some, bne_self_eq_false, List.head?_cons,
    Bool.false_or]
  rfl

theorem characters_render (e : Bytes × Tree) (es : List (Bytes × Tree)) :
    characters (renderFields (e :: es)) = some (Utf8.chars (renderFields (e :: es))) := by
  have text : renderFields (e :: es) = Written.fieldsText 0 true (e :: es) := by
    simp [renderFields]
  have noMark : (Utf8.chars (renderFields (e :: es))).head? ≠ some byteOrderMark := by
    obtain ⟨c, cs, chars, solid⟩ := fields_head 0 e es []
    rw [text, ← List.append_nil (Utf8.chars _), chars]
    intro same
    exact solid.2.2.2 (Option.some.inj same)
  have legal : Legal (renderFields (e :: es)) := by
    rw [text]
    exact legal_fields 0 true (e :: es)
  exact characters_legal legal noMark

/-- A document is read as the mapping whose tokens it is split into. -/
theorem read_of_tokens {e : Bytes × Tree} {es : List (Bytes × Tree)}
    (scanned : tokens (Utf8.chars (renderFields (e :: es))) =
      .blockMappingStart :: (entriesTokens (e :: es) ++ [.blockEnd, .streamEnd]))
    (read : Reading.EntriesRead (e :: es)) :
    Document.read (renderFields (e :: es)) =
      some ⟨some (.mapping none (entryNodes (e :: es))), []⟩ := by
  rw [Document.read, characters_render, Option.bind_eq_bind, Option.bind_some, scanned]
  have enough : ∀ n, (entriesTokens (e :: es)).length ≤ n →
      Reading.blockEntries (4 * (n + 1) + 7) []
        (Reading.ofTokens (entriesTokens (e :: es) ++ [.blockEnd, .streamEnd])) =
      some (entryNodes (e :: es), Reading.ofTokens [.streamEnd]) := fun n le =>
    read _ [] [.streamEnd] (by omega)
  rw [of_tokens_mapping, Reading.node_mapping, enough _ (by simp)]
  rfl

/-- A written document is read as the mapping that it was written from. -/
theorem read_document {e : Bytes × Tree} {es : List (Bytes × Tree)} {room : Nat}
    (legible : LegibleEntries TextScans room (e :: es)) (depth : room < Scanner.maxDepth) :
    Document.read (renderFields (e :: es)) =
      some ⟨some (.mapping none (entryNodes (e :: es))), []⟩ :=
  read_of_tokens (tokens_document legible depth) (Reading.entries_read (e :: es) legible)

end Overworld.Yaml
