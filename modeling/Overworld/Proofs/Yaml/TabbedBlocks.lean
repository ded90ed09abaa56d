import Overworld.Proofs.Yaml.TextForms

/-!
# Blocks that begin with a tab

The indentation of a literal block is found from its first line, and a tab there is refused. So a
document with such a text is split only up to the colon before it. The tokens up to there, less
the two that are never reached, end inside the mapping that holds the text, and no document is
read from them.
-/

set_option autoImplicit false

namespace Overworld.Yaml

open Scanner

/-! ## Where splitting stops -/

theorem read_block_tab {parent : Nat} {m : Mark} {cs rest : List Char} (h : LiteralText cs)
    (tab : cs.head? = some '\t') :
    readBlock false parent m
      (headerChars cs ++ (literalChars (parent + 4) true true cs ++ rest)) = none := by
  obtain ⟨c, broken, noReturn, opened⟩ := @literal_chars_opened (parent + 4) cs h
  obtain ⟨m', _, header⟩ := @read_block_header cs
    (literalChars (parent + 4) true false (literalBack cs) ++ rest) parent m c broken noReturn
  rw [opened, List.cons_append, header]
  cases cs with
  | nil => cases tab
  | cons d ds =>
    cases tab
    have first : literalChars (parent + 4) true false (literalBack ('\t' :: ds)) =
        List.replicate (parent + 4) ' ' ++ '\t' :: literalChars (parent + 4) false true ds := by
      simp [literalBack, literalChars, isBreak]
    have lead : ∀ m rest, blockLead 0 0 [] m ('\t' :: rest) = none := by
      intro m rest
      rw [blockLead]
      · simp
      · simp
    have unstated : statesIndent ('\t' :: ds) = false := by
      simp [statesIndent, isBreak]
    rw [first, unstated, List.append_assoc]
    simp [blockLines, block_lead_spaces, lead]

section
variable {ts : List Token} {i : Nat} {o : List Int} {m : Mark} {r : List Char}

theorem step_tab {s : Bytes} (h : BeginsWithTab s) (four : 4 ∣ i) (inside : i < m.column) :
    (line ts i o false none m (Utf8.chars (Written.valueText i none (.text s)) ++ r)).step =
      none := by
  obtain ⟨literal, tab⟩ := h
  have bare : (Written.shape s).encoded = false := by
    cases encoded : (Written.shape s).encoded with
    | false => rfl
    | true =>
      obtain ⟨c, cs, first, _, noTab⟩ := encoded_head encoded
      rw [first] at tab
      exact absurd (Option.some.inj tab) noTab
  have text : LiteralText (Written.shape s).chars := by
    have styled := styled false (Written.shape s)
    rw [literal] at styled
    cases styled with
    | literal allowed feed => exact literal_text_of_allowed allowed feed
  have body : bodyChars (i + 4) .literal (Written.shape s).chars =
      '|' :: (headerChars (Written.shape s).chars ++
        literalChars (i + 4) true true (Written.shape s).chars) := rfl
  have block := fun rest => @read_block_tab i ((m.skip 1).skip 1) _ rest text tab
  rw [Written.valueText, deeper_eq four, List.cons_append, chars_cons _ (by decide),
    chars_scalar bare, literal, body]
  simp only [List.cons_append, List.append_assoc]
  have space := @step_spaces ts i o false none m 1 ('|' :: (headerChars (Written.shape s).chars ++
    (literalChars (i + 4) true true (Written.shape s).chars ++
      (Utf8.chars (Written.lineEnd false s) ++ r)))) (by rintro _ ⟨⟩; decide)
  refine space.trans ?_
  rw [step_token (by decide) (by simp; omega) (by simp)]
  simp [token, line, inFlow, dropKey, key?, block]

end

/-- The entries of a mapping up to a text that begins with a tab, with the tokens that are used of
them. The text may stand in a mapping among them, and it stands under a key that fits before its
colon. -/
inductive Tabbed : Nat → List (Bytes × Tree) → List Token → Prop
  | here {room : Nat} {k s : Bytes} {es : List (Bytes × Tree)} (key : KeyText k)
      (fits : Written.isSimpleKey (Written.shape k) = true) (tab : BeginsWithTab s) :
      Tabbed room ((k, .text s) :: es) [.key]
  | inside {room : Nat} {k : Bytes} {f : Bytes × Tree} {fs es : List (Bytes × Tree)}
      {used : List Token} (key : KeyText k) (deeper : Tabbed room (f :: fs) used) :
      Tabbed (room + 1) ((k, .fields (f :: fs)) :: es)
        (.key :: keyToken k :: .value :: .blockMappingStart :: used)
  | later {room : Nat} {e f : Bytes × Tree} {es : List (Bytes × Tree)} {used : List Token}
      (first : LegibleEntry TextScans room e) (rest : Tabbed room (f :: es) used) :
      Tabbed room (e :: f :: es) (entryTokens e ++ used)

/-- Splitting stops before a text, with the key before it as its last token but two. -/
def StopsAfter (s : Scanner) (used : List Token) : Prop :=
  ∃ (x y : Token) (i : Int) (o : List Int) (allowed : Bool) (m : Mark) (r : List Char),
    Arrives s (line (used ++ [x, y]) i o allowed none m r) ∧
      (line (used ++ [x, y]) i o allowed none m r).step = none

theorem StopsAfter.from_reached {s t : Scanner} {used : List Token} (h : StopsAfter t used)
    (first : Reaches s t) : StopsAfter s used := by
  obtain ⟨x, y, i, o, allowed, m, r, arrives, stuck⟩ := h
  exact ⟨x, y, i, o, allowed, m, r, arrives.after first, stuck⟩

theorem chars_fields (i : Nat) (e : Bytes × Tree) (es : List (Bytes × Tree)) (r : List Char) :
    Utf8.chars (Written.fieldsText i true (e :: es)) ++ r =
      Utf8.chars (Written.fieldText i e) ++ (Utf8.chars (Written.fieldsText i false es) ++ r) := by
  rw [Written.fieldsText, if_pos rfl, List.nil_append, chars_append (legal_field i e),
    List.append_assoc]

/-- By induction on where the tab stands: the entries before it are read, and the mappings around
it are opened. -/
theorem stops_at_tab {room : Nat} {es : List (Bytes × Tree)} {used : List Token}
    (h : Tabbed room es used) {i : Nat} {p : Int} {ts ts' : List Token} {o o' : List Int} {m : Mark}
    (opening : Opening .blockMappingStart p i ts o ts' o') (four : 4 ∣ i)
    (depth : o'.length + room ≤ maxDepth) (column : m.column = i) (r : List Char) :
    StopsAfter (line ts p o true none m (Utf8.chars (Written.fieldsText i true es) ++ r))
      (ts' ++ used) := by
  induction h generalizing i p ts ts' o o' m r with
  | @here room k s es key fits tab =>
    obtain ⟨m', _, _, place, arrives⟩ := @entry_arrives i p ts ts' o o' m k (.text s) opening key
      (.inl fits) (by simp) four column (Utf8.chars (Written.fieldsText i false es) ++ r)
    cases place with
    | sameLine _ inside =>
      rw [List.append_cons ts' .key] at arrives
      rw [chars_fields]
      exact ⟨keyToken k, .value, i, o', false, m', _, arrives, step_tab tab four inside⟩
  | @inside room k f fs es used key deeper ih =>
    obtain ⟨m₁, _, _, place, arrives⟩ := @entry_arrives i p ts ts' o o' m k (.fields (f :: fs))
      opening key (.inr ⟨f, fs, rfl⟩) (by simp) four column
      (Utf8.chars (Written.fieldsText i false es) ++ r)
    obtain ⟨m₂, column₂, gap⟩ := @fields_begin i (ts' ++ [.key, keyToken k, .value]) o' m₁ _ _ f fs
      place four (Utf8.chars (Written.fieldsText i false es) ++ r)
    have opens : Opening .blockMappingStart i (i + 4) (ts' ++ [.key, keyToken k, .value]) o'
        (ts' ++ [.key, keyToken k, .value] ++ [.blockMappingStart]) (i :: o') :=
      .opens (by omega) (by omega)
    have stops := ih opens (by omega) (by simp; omega) column₂
      (Utf8.chars (Written.fieldsText i false es) ++ r)
    rw [chars_fields]
    simpa using stops.from_reached (arrives.reaches.trans gap)
  | @later room e f es used first rest ih =>
    obtain ⟨m₁, column₁, read⟩ := entry_scans e room i i p ts ts' o o' m
      (Utf8.chars (Written.fieldsText i true (f :: es)) ++ r) first opening four depth column
      (Nat.le_refl i) (fields_solid i f es r)
    have opened : Opening .blockMappingStart i i (ts' ++ entryTokens e) o'
        (ts' ++ entryTokens e) o' := .opened rfl
    have stops := ih opened four depth column₁ r
    rw [fields_text_cons, chars_append (legal_field i e), chars_pad]
    simpa using stops.from_reached read

theorem tokens_tabbed {e : Bytes × Tree} {es : List (Bytes × Tree)} {room : Nat}
    {used : List Token} (h : Tabbed room (e :: es) used) (depth : room < maxDepth) :
    tokens (Utf8.chars (renderFields (e :: es))) = .blockMappingStart :: used := by
  have opens : Opening .blockMappingStart (-1) 0 [] [] [.blockMappingStart] [-1] :=
    .opens (by omega) (by decide)
  obtain ⟨x, y, i, o, allowed, m, r, arrives, stuck⟩ :=
    stops_at_tab h opens (by omega) (by simp; omega) (m := Mark.start) rfl []
  have text : renderFields (e :: es) = Written.fieldsText 0 true (e :: es) := by
    simp [renderFields]
  have run := arrives.run_stuck stuck (Nat.lt_succ_self _)
  rw [List.append_nil] at run
  have stopped : Scanner.run ((Utf8.chars (Written.fieldsText 0 true (e :: es))).length + 1)
      (Scanner.start (Utf8.chars (Written.fieldsText 0 true (e :: es)))) = _ := run
  rw [text, tokens, stopped]
  simp [line, usable]

/-! ## What is read of the tokens -/

theorem Reading.tabbed_unread {room : Nat} {es : List (Bytes × Tree)} {used : List Token}
    (h : Tabbed room es used) {fuel : Nat} (enough : 4 * used.length ≤ fuel)
    (before : List (Node × Node)) : blockEntries fuel before (ofTokens used) = none := by
  induction h generalizing fuel before with
  | here =>
    obtain ⟨fuel, rfl⟩ : ∃ f, fuel = f + 3 := ⟨fuel - 3, by simp at enough; omega⟩
    rfl
  | @inside room k f fs es used key deeper ih =>
    simp only [List.length_cons] at enough
    obtain ⟨fuel, rfl⟩ : ∃ f, fuel = f + 3 := ⟨fuel - 3, by omega⟩
    have begins : BeginsNode (.blockMappingStart :: used) := trivial
    rw [block_entries_entry, block_part_node _ begins, node_mapping, ih (by omega)]
    rfl
  | @later room e f es used first rest ih =>
    obtain ⟨k, t⟩ := e
    rw [LegibleEntry] at first
    rw [entryTokens, List.length_append] at enough
    simp only [List.length_cons] at enough
    obtain ⟨fuel, rfl⟩ : ∃ f, fuel = f + 3 := ⟨fuel - 3, by omega⟩
    have begins := tree_tokens_begin t used
    rw [entryTokens]
    simp only [List.cons_append]
    rw [block_entries_entry, block_part_node _ begins, tree_reads t first.2.2 _ _ _ (by omega),
      Option.bind_some, ih (by omega)]

/-! ## Documents -/

mutual

/-- A tab in a text of legible entries is come upon. -/
theorem tabbed_of_shaped {room : Nat} : (es : List (Bytes × Tree)) →
    LegibleEntries (fun _ => True) room es → (∃ s ∈ entriesTexts es, BeginsWithTab s) →
      ∃ used, Tabbed room es used
  | [], _, ⟨_, member, _⟩ => by simp [entriesTexts] at member
  | e :: es, shaped, ⟨s, member, tab⟩ => by
    rw [LegibleEntries] at shaped
    rw [entriesTexts, List.mem_append] at member
    by_cases first : ∃ s ∈ entryTexts e, BeginsWithTab s
    · exact tabbed_entry_of_shaped e shaped.1 first es
    · have scans : ∀ s ∈ entryTexts e, TextScans s := fun s hs =>
        text_scans fun tab => first ⟨s, hs, tab⟩
      have later : s ∈ entriesTexts es := member.resolve_left fun hs => first ⟨s, hs, tab⟩
      obtain ⟨used, rest⟩ := tabbed_of_shaped es shaped.2 ⟨s, later, tab⟩
      have legible := legible_entry_of_shaped e shaped.1 scans
      cases es with
      | nil => cases rest
      | cons f es => exact ⟨_, .later legible rest⟩

theorem tabbed_entry_of_shaped {room : Nat} : (e : Bytes × Tree) →
    LegibleEntry (fun _ => True) room e → (∃ s ∈ entryTexts e, BeginsWithTab s) →
      ∀ es, ∃ used, Tabbed room (e :: es) used
  | (k, .text t), shaped, ⟨s, member, tab⟩, es => by
    rw [entryTexts, treeTexts, List.mem_singleton] at member
    obtain ⟨key, shape, _⟩ := shaped
    exact ⟨_, .here key (shape.resolve_right (by simp)) (member ▸ tab)⟩
  | (_, .int _), _, ⟨_, member, _⟩, _ => by simp [entryTexts, treeTexts] at member
  | (_, .flag _), _, ⟨_, member, _⟩, _ => by simp [entryTexts, treeTexts] at member
  | (_, .row _), _, ⟨_, member, _⟩, _ => by simp [entryTexts, treeTexts] at member
  | (_, .items us), shaped, _, _ => absurd rfl (shaped.2.2.no_items us)
  | (k, .fields fs), shaped, ⟨s, member, tab⟩, es => by
    obtain ⟨key, _, shaped⟩ := shaped
    rw [entryTexts, treeTexts] at member
    rw [Legible] at shaped
    rcases shaped with rfl | ⟨inner, rfl, entries⟩
    · simp [entriesTexts] at member
    · obtain ⟨used, deeper⟩ := tabbed_of_shaped fs entries ⟨s, member, tab⟩
      cases fs with
      | nil => cases deeper
      | cons f fs => exact ⟨_, .inside key deeper⟩

end

/-- A document with a text that begins with a tab is not read. -/
theorem read_tabbed {e : Bytes × Tree} {es : List (Bytes × Tree)} {room : Nat}
    (shaped : LegibleEntries (fun _ => True) room (e :: es)) (depth : room < maxDepth)
    (tab : ∃ s ∈ entriesTexts (e :: es), BeginsWithTab s) :
    Document.read (renderFields (e :: es)) = none := by
  obtain ⟨used, tabbed⟩ := tabbed_of_shaped (e :: es) shaped tab
  rw [Document.read, characters_render, Option.bind_eq_bind, Option.bind_some,
    tokens_tabbed tabbed depth, of_tokens_mapping, Reading.node_mapping,
    Reading.tabbed_unread tabbed (by omega)]
  rfl

end Overworld.Yaml
