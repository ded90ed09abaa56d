import Overworld.Proofs.Yaml.TreeNodes

/-!
# Sequences of records

A document may end with a sequence of records, each after a dash, whose names and texts take one
line each. Such a sequence is split into the tokens of its records and put together again.
-/

set_option autoImplicit false

namespace Overworld.Yaml

open Scanner

/-- The entries of a record of texts. -/
def textEntries (es : List (Bytes × Bytes)) : List (Bytes × Tree) :=
  es.map fun e => (e.1, .text e.2)

def recordTree (es : List (Bytes × Bytes)) : Tree := .fields (textEntries es)

/-- An entry whose name and text take one line. -/
structure OneLine (e : Bytes × Bytes) : Prop where
  name : KeyText e.1
  simple : Written.isSimpleKey (Written.shape e.1) = true
  text : KeyText e.2

/-- A record whose entries take one line each. -/
structure Lines (es : List (Bytes × Bytes)) : Prop where
  nonempty : es ≠ []
  each : ∀ e ∈ es, OneLine e

section
variable {i n : Nat} {p : Int} {ts ts' : List Token} {o o' : List Int} {m : Mark} {r : List Char}
  {s k : Bytes} {e : Bytes × Bytes} {es : List (Bytes × Bytes)} {rs : List (List (Bytes × Bytes))}

/-! ## Entries on one line -/

theorem text_tokens_inline (h : KeyText s) :
    textTokens s = [.scalar (Written.shape s).chars (Written.style false (Written.shape s))] := by
  simp [textTokens, textBack, h.bare, @key_inline s false h]

theorem chars_one_line (h : OneLine e) (i : Nat) :
    Utf8.chars (Written.fieldText i (e.1, .text e.2)) =
      bodyChars (Written.deeper i) (Written.style true (Written.shape e.1))
          (Written.shape e.1).chars ++
        ':' :: ' ' :: (bodyChars (Written.deeper i) (Written.style false (Written.shape e.2))
          (Written.shape e.2).chars ++ ['\n']) := by
  rw [Written.fieldText, if_pos h.simple, Written.valueText, line_end_inline (key_inline h.text),
    chars_scalar h.name.bare, chars_cons _ (by decide), List.cons_append, chars_cons _ (by decide),
    chars_scalar h.text.bare]
  rfl

theorem one_line_scans (h : OneLine e) (opening : Opening .blockMappingStart p i ts o ts' o')
    (column : m.column = i) (less : n ≤ i) (solid : SolidHead r) :
    ∃ m', m'.column = n ∧
      Reaches (line ts p o true none m
          (Utf8.chars (Written.fieldText i (e.1, .text e.2)) ++ (List.replicate n ' ' ++ r)))
        (line (ts' ++ entryTokens (e.1, .text e.2)) i o' true none m' r) := by
  have indented : 0 < Written.deeper i := Nat.zero_lt_of_lt (deeper_pos i)
  have body := inline_body indented (plain_nonempty h.text.bare) (@key_inline e.2 false h.text)
  rw [chars_one_line h, entryTokens, treeTokens, text_tokens_inline h.text]
  generalize bodyChars (Written.deeper i) (Written.style false (Written.shape e.2))
    (Written.shape e.2).chars = w at body ⊢
  obtain ⟨c, cs, word, head⟩ := inline_head body
  have after : AfterColon (' ' :: (w ++ '\n' :: (List.replicate n ' ' ++ r))) := by
    rw [word]
    exact after_colon_space head
  have solid' : SolidHead (w ++ '\n' :: (List.replicate n ' ' ++ r)) := by
    rw [word]
    rintro _ ⟨⟩
    exact head
  obtain ⟨m₁, inside, read⟩ := opening.arrives_simple_key h.name h.simple column after indented
  obtain ⟨m₂, column₂, _, value⟩ := @reaches_inline_value (ts' ++ [.key, keyToken e.1, .value]) i o'
    false w _ r _ (m₁.skip 1) n body (by simp; omega) (by simp) (by omega) solid
  refine ⟨m₂, column₂, ?_⟩
  simp only [List.append_assoc, List.cons_append, List.nil_append] at read value ⊢
  refine read.reaches.trans (.same (@step_spaces _ i o' false none m₁ 1 _ solid') ?_ value)
  simp [line]

theorem lines_scan (h : Lines es) (opening : Opening .blockMappingStart p i ts o ts' o')
    (column : m.column = i) (less : n ≤ i) (solid : SolidHead r) :
    ∃ m', m'.column = n ∧
      Reaches (line ts p o true none m
          (Utf8.chars (Written.fieldsText i true (textEntries es)) ++ (List.replicate n ' ' ++ r)))
        (line (ts' ++ entriesTokens (textEntries es)) i o' true none m' r) := by
  induction es generalizing p ts ts' o o' m with
  | nil => exact absurd rfl h.nonempty
  | cons e es ih =>
    obtain ⟨first, others⟩ := List.forall_mem_cons.mp h.each
    cases es with
    | nil =>
      have text : Written.fieldsText i true (textEntries [e]) =
          Written.fieldText i (e.1, .text e.2) := by
        simp [textEntries, Written.fieldsText]
      have tokens : entriesTokens (textEntries [e]) = entryTokens (e.1, .text e.2) := by
        simp [textEntries, entriesTokens]
      rw [text, tokens]
      exact one_line_scans first opening column less solid
    | cons f es =>
      obtain ⟨m₁, column₁, read⟩ := one_line_scans first opening column (Nat.le_refl i)
        (fields_solid i (f.1, .text f.2) (textEntries es) (List.replicate n ' ' ++ r))
      have opened : Opening .blockMappingStart i i (ts' ++ entryTokens (e.1, .text e.2)) o' _ o' :=
        .opened rfl
      obtain ⟨m₂, column₂, more⟩ := ih ⟨by simp, others⟩ opened column₁
      have chars : Utf8.chars (Written.fieldsText i true (textEntries (e :: f :: es))) =
          Utf8.chars (Written.fieldText i (e.1, .text e.2)) ++
            (List.replicate i ' ' ++ Utf8.chars (Written.fieldsText i true
              (textEntries (f :: es)))) := by
        rw [← chars_pad, ← chars_append (legal_field i _)]
        exact congrArg Utf8.chars (fields_text_cons i _ _ (textEntries es))
      have tokens : entriesTokens (textEntries (e :: f :: es)) =
          entryTokens (e.1, .text e.2) ++ entriesTokens (textEntries (f :: es)) := by
        rw [textEntries, List.map_cons, entriesTokens]
        rfl
      refine ⟨m₂, column₂, ?_⟩
      rw [chars, tokens]
      simp only [List.append_assoc] at read more ⊢
      exact read.trans more

/-! ## Items -/

theorem Lines.entries_nonempty (h : Lines es) : (textEntries es).isEmpty = false := by
  simp [textEntries, h.nonempty]

theorem record_tokens (h : Lines es) : treeTokens (recordTree es) =
    .blockMappingStart :: (entriesTokens (textEntries es) ++ [.blockEnd]) := by
  rw [recordTree, treeTokens, h.entries_nonempty]
  rfl

theorem chars_item (h : Lines es) (i : Nat) :
    Utf8.chars (Written.itemText i (recordTree es)) =
      '-' :: ' ' :: Utf8.chars (Written.fieldsText (i + 2) true (textEntries es)) := by
  rw [recordTree, Written.itemText, h.entries_nonempty, if_neg (by simp),
    chars_cons _ (by decide), chars_cons _ (by decide)]
  rfl

/-- One record of a sequence. -/
theorem item_scans (h : Lines es) (opening : Opening .blockSequenceStart p i ts o ts' o')
    (room : o'.length < maxDepth) (column : m.column = i) (less : n ≤ i) (solid : SolidHead r) :
    ∃ m', m'.column = n ∧
      Reaches (line ts p o true none m
          (Utf8.chars (Written.itemText i (recordTree es)) ++ (List.replicate n ' ' ++ r)))
        (line (ts' ++ .blockEntry :: treeTokens (recordTree es)) i o' true none m' r) := by
  obtain ⟨e, es, rfl⟩ := List.exists_cons_of_ne_nil h.nonempty
  have within := opening.within
  have head : SolidHead (Utf8.chars (Written.fieldsText (i + 2) true (textEntries (e :: es))) ++
      (List.replicate n ' ' ++ r)) := fields_solid (i + 2) (e.1, .text e.2) (textEntries es) _
  obtain ⟨m₁, column₁, read⟩ := @lines_scan (i + 2) n i (ts' ++ [.blockEntry]) _ o' _
    ((m.skip 1).skip 1) r _ h (.opens (by omega) room) (by simp; omega) (by omega) solid
  refine ⟨m₁, column₁, ?_⟩
  rw [chars_item h, record_tokens h]
  refine .more (step_dash (by omega) (opening.rolled column _)) (by simp [line]) ?_
  refine .same (@step_spaces _ i o' true none (m.skip 1) 1 _ head) (by simp [line]) (read.trans ?_)
  refine .same (step_close solid (by omega)) (Nat.le_refl _) ?_
  simp only [List.append_assoc, List.cons_append, List.nil_append]
  exact .refl _

theorem items_text_cons (i : Nat) (t u : Tree) (us : List Tree) :
    Written.itemsText i true (t :: u :: us) =
      Written.itemText i t ++ (Written.pad i ++ Written.itemsText i true (u :: us)) := by
  rw [Written.itemsText, Written.itemsText, Written.itemsText]
  simp

theorem items_solid (i : Nat) (h : Lines es) (us : List Tree) (r : List Char) :
    SolidHead (Utf8.chars (Written.itemsText i true (recordTree es :: us)) ++ r) := by
  have chars : Utf8.chars (Written.itemsText i true (recordTree es :: us)) =
      Utf8.chars (Written.itemText i (recordTree es)) ++
        Utf8.chars (Written.itemsText i false us) := by
    rw [Written.itemsText, if_pos rfl, List.nil_append, chars_append (legal_item i _)]
  rw [chars, chars_item h]
  rintro _ ⟨⟩
  decide

/-- The records of a sequence follow one another at its indentation. -/
theorem items_scan (nonempty : rs ≠ []) (h : ∀ es ∈ rs, Lines es)
    (opening : Opening .blockSequenceStart p i ts o ts' o') (room : o'.length < maxDepth)
    (column : m.column = i) (less : n ≤ i) (solid : SolidHead r) :
    ∃ m', m'.column = n ∧
      Reaches (line ts p o true none m
          (Utf8.chars (Written.itemsText i true (rs.map recordTree)) ++
            (List.replicate n ' ' ++ r)))
        (line (ts' ++ itemsTokens (rs.map recordTree)) i o' true none m' r) := by
  induction rs generalizing p ts ts' o o' m with
  | nil => exact absurd rfl nonempty
  | cons es rs ih =>
    obtain ⟨first, others⟩ := List.forall_mem_cons.mp h
    cases rs with
    | nil =>
      have text : Written.itemsText i true (List.map recordTree [es]) =
          Written.itemText i (recordTree es) := by
        simp [Written.itemsText]
      have tokens : itemsTokens (List.map recordTree [es]) =
          .blockEntry :: treeTokens (recordTree es) := by
        simp [itemsTokens]
      rw [text, tokens]
      exact item_scans first opening room column less solid
    | cons fs rs =>
      obtain ⟨m₁, column₁, read⟩ := item_scans first opening room column (Nat.le_refl i)
        (items_solid i (others fs (by simp)) (rs.map recordTree) (List.replicate n ' ' ++ r))
      have opened : Opening .blockSequenceStart i i
          (ts' ++ .blockEntry :: treeTokens (recordTree es)) o' _ o' := .opened rfl
      obtain ⟨m₂, column₂, more⟩ := ih (by simp) others opened room column₁
      have chars : Utf8.chars (Written.itemsText i true (List.map recordTree (es :: fs :: rs))) =
          Utf8.chars (Written.itemText i (recordTree es)) ++
            (List.replicate i ' ' ++ Utf8.chars (Written.itemsText i true
              (List.map recordTree (fs :: rs)))) := by
        rw [← chars_pad, ← chars_append (legal_item i _)]
        exact congrArg Utf8.chars (items_text_cons i _ _ (rs.map recordTree))
      have tokens : itemsTokens (List.map recordTree (es :: fs :: rs)) =
          .blockEntry :: treeTokens (recordTree es) ++
            itemsTokens (List.map recordTree (fs :: rs)) := by
        rw [List.map_cons, itemsTokens]
        rfl
      refine ⟨m₂, column₂, ?_⟩
      rw [chars, tokens]
      simp only [List.append_assoc] at read more ⊢
      exact read.trans more

/-! ## A sequence under a key -/

theorem items_tokens (nonempty : rs ≠ []) : treeTokens (.items (rs.map recordTree)) =
    .blockSequenceStart :: (itemsTokens (rs.map recordTree) ++ [.blockEnd]) := by
  rw [treeTokens, if_neg (by simpa using nonempty)]

/-- The last entry of a mapping, whose value is a sequence of records. -/
theorem sequence_entry_scans (name : KeyText k)
    (simple : Written.isSimpleKey (Written.shape k) = true) (h : ∀ es ∈ rs, Lines es)
    (four : 4 ∣ i) (room : o.length + 1 < maxDepth) (column : m.column = i) (less : n ≤ i)
    (solid : SolidHead r) :
    ∃ m', m'.column = n ∧
      Reaches (line ts i o true none m
          (Utf8.chars (Written.fieldText i (k, .items (rs.map recordTree))) ++
            (List.replicate n ' ' ++ r)))
        (line (ts ++ entryTokens (k, .items (rs.map recordTree))) i o true none m' r) := by
  have opening : Opening .blockMappingStart i i ts o ts o := .opened rfl
  cases rs with
  | nil =>
    -- no item is written like a row of no numbers
    have text : Written.fieldText i (k, .items []) = Written.fieldText i (k, .row []) := by
      rw [Written.fieldText, Written.fieldText]
      rfl
    have legible : LegibleEntry TextScans 0 (k, .row []) := ⟨name, .inl simple, trivial⟩
    rw [List.map_nil, text]
    exact entry_scans (k, .row []) 0 i n i ts ts o o m r legible opening four (by omega) column
      less solid
  | cons es rs =>
    have nonempty : es :: rs ≠ [] := by simp
    have first := h es (by simp)
    have deeper := deeper_pos i
    have chars : Utf8.chars (Written.fieldText i (k, .items ((es :: rs).map recordTree))) =
        bodyChars (Written.deeper i) (Written.style true (Written.shape k))
            (Written.shape k).chars ++
          ':' :: '\n' :: (List.replicate (Written.deeper i) ' ' ++ Utf8.chars
            (Written.itemsText (Written.deeper i) true ((es :: rs).map recordTree))) := by
      rw [Written.fieldText, if_pos simple, Written.valueText, if_neg (by simp), Written.gapTo,
        chars_scalar name.bare, chars_cons _ (by decide), List.cons_append,
        chars_cons _ (by decide), chars_pad]
      rfl
    have head := items_solid (Written.deeper i) first (rs.map recordTree)
      (List.replicate n ' ' ++ r)
    have after : AfterColon ('\n' :: (List.replicate (Written.deeper i) ' ' ++
        (Utf8.chars (Written.itemsText (Written.deeper i) true ((es :: rs).map recordTree)) ++
          (List.replicate n ' ' ++ r)))) := ⟨rfl, 0, _, rfl, by rintro _ ⟨⟩; decide⟩
    obtain ⟨m₁, _, read⟩ :=
      opening.arrives_simple_key name simple column after (Nat.zero_lt_of_lt deeper)
    have opens : Opening .blockSequenceStart i (Written.deeper i)
        (ts ++ [.key, keyToken k, .value]) o _ _ := .opens (by omega) (by omega)
    have within : n ≤ Written.deeper i := by omega
    obtain ⟨m₂, column₂, items⟩ := items_scan nonempty h opens (by simp; omega)
      (m := (m₁.newline 1).skip (Written.deeper i)) (by simp) within solid
    refine ⟨m₂, column₂, ?_⟩
    rw [chars, entryTokens, items_tokens nonempty]
    simp only [List.append_assoc, List.cons_append, List.nil_append] at read items ⊢
    refine read.reaches.trans ((reaches_newline (Written.deeper i) head).trans (items.trans ?_))
    refine .same (step_close solid (by omega)) (Nat.le_refl _) ?_
    simp only [List.append_assoc, List.cons_append]
    exact .refl _

end

/-! ## Documents -/

section
variable {e : Bytes × Tree} {es : List (Bytes × Tree)} {room : Nat} {k : Bytes}
  {rs : List (List (Bytes × Bytes))}

theorem fields_text_snoc (i : Nat) (e : Bytes × Tree) (es : List (Bytes × Tree))
    (x : Bytes × Tree) :
    Written.fieldsText i true (e :: es ++ [x]) =
      Written.fieldsText i true (e :: es) ++ (Written.pad i ++ Written.fieldText i x) := by
  induction es generalizing e with
  | nil => simp [Written.fieldsText]
  | cons f es ih =>
    rw [List.cons_append, List.cons_append, fields_text_cons, fields_text_cons, ← List.cons_append,
      ih]
    simp only [List.append_assoc]

theorem entries_tokens_snoc (es : List (Bytes × Tree)) (x : Bytes × Tree) :
    entriesTokens (es ++ [x]) = entriesTokens es ++ entryTokens x := by
  induction es with
  | nil => simp [entriesTokens]
  | cons e es ih => rw [List.cons_append, entriesTokens, ih, entriesTokens, List.append_assoc]

/-- A document that ends with a sequence of records is split into the tokens of its entries. -/
theorem tokens_sequence (legible : LegibleEntries TextScans room (e :: es))
    (depth : room < maxDepth) (name : KeyText k)
    (simple : Written.isSimpleKey (Written.shape k) = true) (h : ∀ es ∈ rs, Lines es) :
    tokens (Utf8.chars (renderFields (e :: es ++ [(k, .items (rs.map recordTree))]))) =
      .blockMappingStart :: (entriesTokens (e :: es ++ [(k, .items (rs.map recordTree))]) ++
        [.blockEnd, .streamEnd]) := by
  have empty : SolidHead [] := by
    intro c hc
    cases hc
  obtain ⟨c, cs, head, solid⟩ := field_head 0 (k, .items (rs.map recordTree)) []
  have follows : SolidHead (Utf8.chars (Written.fieldText 0 (k, .items (rs.map recordTree)))) := by
    rw [List.append_nil] at head
    rw [head]
    rintro _ ⟨⟩
    exact solid
  obtain ⟨m₁, column₁, read⟩ := entries_scan (e :: es) (by simp) room 0 0 (-1) []
    [.blockMappingStart] [] [-1] Mark.start _ legible (.opens (by omega) (by decide)) (by omega)
    (by simp; omega) rfl (Nat.le_refl 0) follows
  obtain ⟨m₂, column₂, last⟩ := @sequence_entry_scans 0 0
    ([.blockMappingStart] ++ entriesTokens (e :: es)) [-1] m₁ [] k rs name simple h (by omega)
    (by decide) column₁ (Nat.le_refl 0) empty
  have text : renderFields (e :: es ++ [(k, .items (rs.map recordTree))]) =
      Written.fieldsText 0 true (e :: es) ++
        Written.fieldText 0 (k, .items (rs.map recordTree)) := by
    rw [renderFields, if_neg (by simp), fields_text_snoc]
    rfl
  simp only [List.replicate_zero, List.append_nil] at last
  have whole := read.trans last
  simp only [List.replicate_zero, List.nil_append, List.cons_append] at whole
  rw [text, entries_tokens_snoc]
  apply tokens_of_reaches column₂
  rw [chars_append (legal_fields 0 true _)]
  exact whole

/-! ## Nodes -/

namespace Reading

theorem node_sequence (fuel : Nat) (indentless : Bool) (ts : List Token) :
    node (fuel + 1) true indentless (ofTokens (.blockSequenceStart :: ts)) =
      (blockItems fuel [] (ofTokens ts)).bind fun x => some (.sequence none x.1, x.2) := rfl

theorem block_items_mapping (fuel : Nat) (before : List Node) (ts : List Token) :
    blockItems (fuel + 1) before (ofTokens (.blockEntry :: .blockMappingStart :: ts)) =
      (node fuel true false (ofTokens (.blockMappingStart :: ts))).bind fun x =>
        blockItems fuel (x.1 :: before) x.2 := rfl

theorem text_entries_read (es : List (Bytes × Bytes)) : EntriesRead (textEntries es) := by
  induction es with
  | nil =>
    intro fuel before rest enough
    obtain ⟨fuel, rfl⟩ : ∃ f, fuel = f + 1 := ⟨fuel - 1, by omega⟩
    simp [textEntries, entriesTokens, entryNodes]
    rfl
  | cons e es ih => exact entries_read_cons (text_reads e.2) ih

theorem record_reads (es : List (Bytes × Bytes)) : TreeReads (recordTree es) :=
  fields_read fun _ => text_entries_read es

/-- The records of a sequence are read from their tokens up to its end. -/
theorem items_read (h : ∀ es ∈ rs, Lines es) {fuel : Nat} (before : List Node)
    (rest : List Token) (enough : 4 * (itemsTokens (rs.map recordTree)).length + 1 ≤ fuel) :
    blockItems fuel before (ofTokens (itemsTokens (rs.map recordTree) ++ .blockEnd :: rest)) =
      some (before.reverse ++ itemNodes (rs.map recordTree), ofTokens rest) := by
  induction rs generalizing fuel before with
  | nil =>
    obtain ⟨fuel, rfl⟩ : ∃ f, fuel = f + 1 := ⟨fuel - 1, by omega⟩
    rw [List.map_nil, itemNodes, List.append_nil]
    rfl
  | cons es rs ih =>
    obtain ⟨first, others⟩ := List.forall_mem_cons.mp h
    rw [List.map_cons, itemsTokens, List.length_cons, List.length_append] at enough
    obtain ⟨fuel, rfl⟩ : ∃ f, fuel = f + 1 := ⟨fuel - 1, by omega⟩
    have item : node fuel true false (ofTokens (treeTokens (recordTree es) ++
        (itemsTokens (rs.map recordTree) ++ .blockEnd :: rest))) = _ :=
      record_reads es fuel false _ (by omega)
    have step : blockItems (fuel + 1) before (ofTokens (.blockEntry ::
        (treeTokens (recordTree es) ++ (itemsTokens (rs.map recordTree) ++ .blockEnd :: rest)))) =
        (node fuel true false (ofTokens (treeTokens (recordTree es) ++
          (itemsTokens (rs.map recordTree) ++ .blockEnd :: rest)))).bind fun x =>
            blockItems fuel (x.1 :: before) x.2 := by
      rw [record_tokens first]
      exact block_items_mapping ..
    rw [List.map_cons, itemsTokens, List.cons_append, List.append_assoc, step, item,
      Option.bind_some, ih others _ (by omega), itemNodes]
    simp

theorem sequence_reads (h : ∀ es ∈ rs, Lines es) : TreeReads (.items (rs.map recordTree)) := by
  intro fuel indentless rest enough
  cases rs with
  | nil =>
    rw [List.map_nil, treeTokens] at enough
    obtain ⟨fuel, rfl⟩ : ∃ f, fuel = f + 2 := ⟨fuel - 2, by simp at enough; omega⟩
    rfl
  | cons es rs =>
    have tokens := @items_tokens (es :: rs) (by simp)
    rw [tokens, List.length_cons, List.length_append] at enough
    obtain ⟨fuel, rfl⟩ : ∃ f, fuel = f + 1 := ⟨fuel - 1, by omega⟩
    rw [tokens, List.cons_append, node_sequence, List.append_assoc, List.singleton_append,
      items_read h _ _ (by omega), treeNode]
    rfl

theorem entries_read_snoc {P : Bytes → Prop} {t : Tree} (legible : LegibleEntries P room es)
    (last : TreeReads t) : EntriesRead (es ++ [(k, t)]) := by
  induction es with
  | nil => exact entries_read_cons last (@entries_read P room [] trivial)
  | cons e es ih =>
    rw [LegibleEntries] at legible
    exact entries_read_of_entry e legible.1 (ih legible.2)

end Reading

/-- A document that ends with a sequence of records is read as what it was written from. -/
theorem read_sequence (legible : LegibleEntries TextScans room (e :: es))
    (depth : room < maxDepth) (name : KeyText k)
    (simple : Written.isSimpleKey (Written.shape k) = true) (h : ∀ es ∈ rs, Lines es) :
    Document.read (renderFields (e :: es ++ [(k, .items (rs.map recordTree))])) =
      some ⟨some (treeNode (.fields (e :: es ++ [(k, .items (rs.map recordTree))]))), []⟩ := by
  rw [treeNode]
  exact read_of_tokens (tokens_sequence legible depth name simple h)
    (Reading.entries_read_snoc legible (Reading.sequence_reads h))

end

end Overworld.Yaml
