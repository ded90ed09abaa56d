import Overworld.Proofs.Yaml.Written

/-!
# The tokens of a written document

A written mapping is split into the tokens of its entries between the tokens that open and close
it. Each entry is read in front of what follows: the next entry of the same mapping, an entry of a
mapping around it, or the end of the document. How far that is indented decides which blocks are
closed.
-/

set_option autoImplicit false

namespace Overworld.Yaml

open Scanner

/-! ## Tokens of a tree -/

/-- The characters that are read back of a text under a key. -/
def textBack (s : Bytes) : List Char :=
  let sh := Written.shape s
  if Written.style false sh = .literal then literalBack sh.chars else sh.chars

/-- The tokens of a text under a key. -/
def textTokens (s : Bytes) : List Token :=
  (if (Written.shape s).encoded then [.tag (utf8 "!!") (utf8 "binary")] else []) ++
    [.scalar (textBack s) (Written.style false (Written.shape s))]

/-- The token of a key. -/
def keyToken (k : Bytes) : Token :=
  let sh := Written.shape k
  .scalar sh.chars (Written.style (Written.isSimpleKey sh) sh)

mutual

/-- The tokens of a document or a part of it. -/
def treeTokens : Tree → List Token
  | .text s => textTokens s
  | .int n => [.scalar (intChars n) .plain]
  | .flag b => [.scalar (Utf8.chars (Written.flagText b)) .plain]
  | .row ns => .flowSequenceStart :: rowTokens (ns.map intChars)
  | .items ts =>
    if ts.isEmpty then [.flowSequenceStart, .flowSequenceEnd]
    else .blockSequenceStart :: (itemsTokens ts ++ [.blockEnd])
  | .fields es =>
    if es.isEmpty then [.flowMappingStart, .flowMappingEnd]
    else .blockMappingStart :: (entriesTokens es ++ [.blockEnd])

/-- The tokens of the items of a sequence. -/
def itemsTokens : List Tree → List Token
  | [] => []
  | t :: ts => .blockEntry :: (treeTokens t ++ itemsTokens ts)

/-- The tokens of the entries of a mapping. -/
def entriesTokens : List (Bytes × Tree) → List Token
  | [] => []
  | e :: es => entryTokens e ++ entriesTokens es

/-- The tokens of one entry of a mapping. -/
def entryTokens : Bytes × Tree → List Token
  | (k, t) => .key :: keyToken k :: .value :: treeTokens t

end

/-- A key of printable characters on one line. -/
structure KeyText (k : Bytes) : Prop where
  bare : (Written.shape k).encoded = false
  printed : ∀ c ∈ (Written.shape k).chars, Written.isPrintable c = true ∧ isBreak c = false

/-- A text under a key is read up to what follows it, which is indented no deeper than the key. -/
def TextScans (s : Bytes) : Prop :=
  ∀ (i n : Nat) (ts : List Token) (o : List Int) (m : Mark) (r : List Char),
    i < m.column → n ≤ i → SolidHead r →
    ∃ m', m'.column = n ∧
      Reaches (line ts i o false none m
          (Utf8.chars (Written.scalar (i + 4) false s ++ Written.lineEnd false s) ++
            (List.replicate n ' ' ++ r)))
        (line (ts ++ textTokens s) i o true none m' r)

mutual

/-- What a tree has to be for its tokens to be those it was written with: mappings nest no deeper
than there is room for, its keys are read back, and a key that takes a line of its own stands
before a mapping. What its texts have to be is a parameter. -/
def Legible (P : Bytes → Prop) (room : Nat) : Tree → Prop
  | .text s => P s
  | .int _ | .flag _ | .row _ => True
  | .items _ => False
  | .fields es => es = [] ∨ ∃ inner, room = inner + 1 ∧ LegibleEntries P inner es

/-- The entries of a mapping are as they have to be. -/
def LegibleEntries (P : Bytes → Prop) (room : Nat) : List (Bytes × Tree) → Prop
  | [] => True
  | e :: es => LegibleEntry P room e ∧ LegibleEntries P room es

/-- An entry of a mapping is as it has to be. -/
def LegibleEntry (P : Bytes → Prop) (room : Nat) : Bytes × Tree → Prop
  | (k, t) =>
    KeyText k ∧ (Written.isSimpleKey (Written.shape k) = true ∨ ∃ e es, t = .fields (e :: es)) ∧
      Legible P room t

end

theorem Legible.no_items {P : Bytes → Prop} {room : Nat} {t : Tree} (h : Legible P room t) :
    ∀ us, t ≠ .items us := by
  rintro us rfl
  rw [Legible] at h
  exact h

mutual

/-- The texts that a tree holds besides its keys. -/
def treeTexts : Tree → List Bytes
  | .text s => [s]
  | .int _ | .flag _ | .row _ => []
  | .items ts => itemsTexts ts
  | .fields es => entriesTexts es

/-- The texts in the items of a sequence. -/
def itemsTexts : List Tree → List Bytes
  | [] => []
  | t :: ts => treeTexts t ++ itemsTexts ts

/-- The texts in the entries of a mapping. -/
def entriesTexts : List (Bytes × Tree) → List Bytes
  | [] => []
  | e :: es => entryTexts e ++ entriesTexts es

/-- The texts in one entry of a mapping. -/
def entryTexts : Bytes × Tree → List Bytes
  | (_, t) => treeTexts t

end

/-- A tree that is legible but for its texts. -/
abbrev Shaped : Nat → Tree → Prop := Legible fun _ => True

mutual

theorem legible_of_shaped {P : Bytes → Prop} {room : Nat} :
    (t : Tree) → Shaped room t → (∀ s ∈ treeTexts t, P s) → Legible P room t
  | .text s, _, texts => by
    rw [Legible]
    exact texts s (by simp [treeTexts])
  | .int _, _, _ => by simp [Legible]
  | .flag _, _, _ => by simp [Legible]
  | .row _, _, _ => by simp [Legible]
  | .items us, shaped, _ => absurd rfl (shaped.no_items us)
  | .fields es, shaped, texts => by
    rw [Shaped, Legible] at shaped
    rw [Legible]
    refine shaped.imp_right ?_
    rintro ⟨inner, rfl, entries⟩
    exact ⟨inner, rfl, legible_entries_of_shaped es entries (by rwa [treeTexts] at texts)⟩

theorem legible_entries_of_shaped {P : Bytes → Prop} {room : Nat} :
    (es : List (Bytes × Tree)) → LegibleEntries (fun _ => True) room es →
      (∀ s ∈ entriesTexts es, P s) → LegibleEntries P room es
  | [], _, _ => by simp [LegibleEntries]
  | e :: es, shaped, texts => by
    rw [LegibleEntries] at shaped ⊢
    rw [entriesTexts, List.forall_mem_append] at texts
    exact ⟨legible_entry_of_shaped e shaped.1 texts.1,
      legible_entries_of_shaped es shaped.2 texts.2⟩

theorem legible_entry_of_shaped {P : Bytes → Prop} {room : Nat} :
    (e : Bytes × Tree) → LegibleEntry (fun _ => True) room e → (∀ s ∈ entryTexts e, P s) →
      LegibleEntry P room e
  | (_, t), shaped, texts => by
    rw [LegibleEntry] at shaped ⊢
    rw [entryTexts] at texts
    exact ⟨shaped.1, shaped.2.1, legible_of_shaped t shaped.2.2 texts⟩

end

/-! ## Written trees are well-formed text -/

theorem legal_cons {b : UInt8} {s : Bytes} (visible : Visible b ∨ b = 0x0A) (h : Legal s) :
    Legal (b :: s) :=
  legal_append (a := [b]) (legal_ascii (by simpa using visible)) h

theorem row_eq_encode (ns : List Int) :
    Written.row ns = Utf8.encode ('[' :: rowChars (ns.map intChars)) := by
  have inner : Bytes.join [0x2C, 0x20] (ns.map Bytes.ofInt) ++ [0x5D] =
      Utf8.encode (rowChars (ns.map intChars)) := by
    induction ns with
    | nil => rfl
    | cons n ns ih =>
      cases ns with
      | nil =>
        simp only [List.map_cons, List.map_nil, Bytes.join, rowChars, of_int_eq_encode,
          encode_append]
        rfl
      | cons k ns =>
        simp only [List.map_cons, Bytes.join, rowChars] at ih ⊢
        rw [encode_append, encode_cons, encode_cons, ← ih, of_int_eq_encode n]
        simp only [List.append_assoc]
        rfl
  rw [encode_cons, ← inner]
  rfl

theorem legal_row (ns : List Int) : Legal (Written.row ns) := by
  rw [row_eq_encode]
  apply legal_encode
  intro c hc
  left
  rcases List.mem_cons.mp hc with rfl | hc
  · decide
  · induction ns with
    | nil =>
      rw [List.mem_singleton.mp hc]
      decide
    | cons n ns ih =>
      have word : ∀ d ∈ intChars n, Written.isPrintable d = true := fun d hd =>
        (plainest_digit (int_chars_cases hd)).2.1
      cases ns with
      | nil =>
        rcases List.mem_append.mp hc with hc | hc
        · exact word c hc
        · rw [List.mem_singleton.mp hc]
          decide
      | cons k ns =>
        rcases List.mem_append.mp hc with hc | hc
        · exact word c hc
        · rcases List.mem_cons.mp hc with rfl | hc
          · decide
          · rcases List.mem_cons.mp hc with rfl | hc
            · decide
            · exact ih (List.mem_cons_of_mem _ hc) hc

theorem legal_gap (indent : Nat) (column : Option Nat) : Legal (Written.gapTo indent column) := by
  cases column with
  | some column => exact legal_pad _
  | none => exact legal_cons (.inr rfl) (legal_pad _)

mutual

/-- A written value is well-formed text. -/
theorem legal_value (indent : Nat) (column : Option Nat) :
    (t : Tree) → Legal (Written.valueText indent column t)
  | .text s => by
    rw [Written.valueText]
    exact legal_cons (.inl (by decide)) (legal_append (legal_scalar _ _ s) (legal_line_end _ s))
  | .int n => by
    rw [Written.valueText]
    exact legal_cons (.inl (by decide)) (legal_append (legal_int n) (legal_ascii (by decide)))
  | .flag b => by
    rw [Written.valueText]
    exact legal_cons (.inl (by decide)) (legal_append (legal_flag b) (legal_ascii (by decide)))
  | .row ns => by
    rw [Written.valueText]
    exact legal_cons (.inl (by decide)) (legal_append (legal_row ns) (legal_ascii (by decide)))
  | .items ts => by
    rw [Written.valueText]
    split
    · exact legal_ascii (by decide)
    · exact legal_append (legal_gap _ column) (legal_items _ _ ts)
  | .fields es => by
    rw [Written.valueText]
    split
    · exact legal_ascii (by decide)
    · exact legal_append (legal_gap _ column) (legal_fields _ _ es)

theorem legal_items (indent : Nat) (placed : Bool) :
    (ts : List Tree) → Legal (Written.itemsText indent placed ts)
  | [] => by
    rw [Written.itemsText]
    exact legal_nil
  | t :: ts => by
    rw [Written.itemsText]
    refine legal_append (legal_append ?_ (legal_item indent t)) (legal_items indent false ts)
    split
    · exact legal_nil
    · exact legal_pad _

theorem legal_item (indent : Nat) : (t : Tree) → Legal (Written.itemText indent t)
  | .text s => by
    rw [Written.itemText]
    exact legal_cons (.inl (by decide)) (legal_cons (.inl (by decide))
      (legal_append (legal_scalar _ _ s) (legal_line_end _ s)))
  | .int n => by
    rw [Written.itemText]
    exact legal_cons (.inl (by decide)) (legal_cons (.inl (by decide))
      (legal_append (legal_int n) (legal_ascii (by decide))))
  | .flag b => by
    rw [Written.itemText]
    exact legal_cons (.inl (by decide)) (legal_cons (.inl (by decide))
      (legal_append (legal_flag b) (legal_ascii (by decide))))
  | .row ns => by
    rw [Written.itemText]
    exact legal_cons (.inl (by decide)) (legal_cons (.inl (by decide))
      (legal_append (legal_row ns) (legal_ascii (by decide))))
  | .items ts => by
    rw [Written.itemText]
    split
    · exact legal_ascii (by decide)
    · exact legal_cons (.inl (by decide)) (legal_cons (.inl (by decide)) (legal_items _ _ ts))
  | .fields es => by
    rw [Written.itemText]
    split
    · exact legal_ascii (by decide)
    · exact legal_cons (.inl (by decide)) (legal_cons (.inl (by decide)) (legal_fields _ _ es))

theorem legal_fields (indent : Nat) (placed : Bool) :
    (es : List (Bytes × Tree)) → Legal (Written.fieldsText indent placed es)
  | [] => by
    rw [Written.fieldsText]
    exact legal_nil
  | e :: es => by
    rw [Written.fieldsText]
    refine legal_append (legal_append ?_ (legal_field indent e)) (legal_fields indent false es)
    split
    · exact legal_nil
    · exact legal_pad _

theorem legal_field (indent : Nat) : (e : Bytes × Tree) → Legal (Written.fieldText indent e)
  | (k, t) => by
    rw [Written.fieldText]
    split
    · exact legal_append (legal_scalar _ _ k)
        (legal_cons (.inl (by decide)) (legal_value indent none t))
    · have value := legal_value indent (some (indent + 1)) t
      exact legal_cons (.inl (by decide)) (legal_cons (.inl (by decide))
        (legal_append (legal_append (legal_append (legal_scalar _ _ k) (legal_line_end _ k))
          (legal_pad _)) (legal_cons (.inl (by decide)) value)))

end

/-! ## Characters of written pieces -/

theorem chars_cons {b : UInt8} (s : Bytes) (ascii : b.toNat < 0x80) :
    Utf8.chars (b :: s) = Char.ofNat b.toNat :: Utf8.chars s := by
  have split := Utf8.chars_encode_append [Char.ofNat b.toNat] s
  rw [encode_cons, encode_char_visible ascii] at split
  exact split

theorem chars_pad (n : Nat) (s : Bytes) :
    Utf8.chars (Written.pad n ++ s) = List.replicate n ' ' ++ Utf8.chars s := by
  rw [pad_eq_encode, Utf8.chars_encode_append]

theorem chars_scalar {indent : Nat} {simple : Bool} {s : Bytes}
    (bare : (Written.shape s).encoded = false) (rest : Bytes) :
    Utf8.chars (Written.scalar indent simple s ++ rest) =
      bodyChars indent (Written.style simple (Written.shape s)) (Written.shape s).chars ++
        Utf8.chars rest := by
  rw [scalar_eq_encode, Written.tagText, bare, if_neg (by simp), List.nil_append,
    Utf8.chars_encode_append]

theorem plain_nonempty {simple : Bool} {sh : Written.Shape} (bare : sh.encoded = false)
    (plain : Written.style simple sh = .plain) : sh.chars ≠ [] := by
  have styled := styled simple sh
  rw [plain] at styled
  cases styled with
  | plain _ reads =>
    rcases reads with encoded | reads
    · rw [bare] at encoded
      cases encoded
    · rintro empty
      rw [empty] at reads
      exact (reads_as_text reads).2 rfl

/-- A written text begins with a character that is not passed over. -/
theorem body_head {simple : Bool} {sh : Written.Shape} (indent : Nat)
    (nonempty : Written.style simple sh = .plain → sh.chars ≠ []) :
    ∃ c cs, bodyChars (indent + 1) (Written.style simple sh) sh.chars = c :: cs ∧ Solid c := by
  by_cases literal : Written.style simple sh = .literal
  · rw [literal]
    exact ⟨'|', _, rfl, by decide⟩
  · exact inline_head (inline_body (Nat.succ_pos indent) nonempty literal)

theorem scalar_head (indent : Nat) (simple : Bool) (s rest : Bytes) :
    ∃ c cs, Utf8.chars (Written.scalar (indent + 1) simple s ++ rest) = c :: cs ∧ Solid c := by
  cases bare : (Written.shape s).encoded with
  | true =>
    have tag : Written.tagText (Written.shape s) = 0x21 :: utf8 "!binary " := by
      rw [Written.tagText, bare]
      rfl
    rw [scalar_eq_encode, tag, List.cons_append, List.cons_append, chars_cons _ (by decide)]
    exact ⟨_, _, rfl, by decide⟩
  | false =>
    obtain ⟨c, cs, body, solid⟩ := @body_head simple (Written.shape s) indent (plain_nonempty bare)
    exact ⟨c, cs ++ Utf8.chars rest, by rw [chars_scalar bare, body]; rfl, solid⟩

theorem line_end_inline {simple : Bool} {s : Bytes}
    (inline : Written.style simple (Written.shape s) ≠ .literal) :
    Written.lineEnd simple s = [0x0A] := by
  simp [Written.lineEnd, inline]

/-! ## Keys -/

theorem key_inline {k : Bytes} {simple : Bool} (h : KeyText k) :
    Written.style simple (Written.shape k) ≠ .literal := by
  intro literal
  have styled := styled simple (Written.shape k)
  rw [literal] at styled
  cases styled with
  | literal _ feed => exact absurd (h.printed _ feed).2 (by decide)

theorem double_chars_length {c : Char} (printable : Written.isPrintable c = true)
    (noBreak : isBreak c = false) : (doubleChars c).length ≤ 2 := by
  by_cases quote : c = '"'
  · rw [quote]
    decide
  · by_cases slash : c = '\\'
    · rw [slash]
      decide
    · simp [doubleChars, printable, noBreak, quote, slash]

theorem single_chars_length {indent : Nat} {cs : List Char}
    (row : ∀ c ∈ cs, isBreak c = false) :
    (singleChars indent false cs).length ≤ 2 * cs.length := by
  induction cs with
  | nil => simp [singleChars]
  | cons c cs ih =>
    have tail := ih fun d hd => row d (by simp [hd])
    have noBreak := row c (by simp)
    rw [singleChars, if_neg (by simp [noBreak])]
    by_cases quote : c = '\'' <;> simp [quote] <;> omega

theorem flat_map_length {cs : List Char} (h : ∀ c ∈ cs, (doubleChars c).length ≤ 2) :
    (cs.flatMap doubleChars).length ≤ 2 * cs.length := by
  induction cs with
  | nil => simp
  | cons c cs ih =>
    have tail := ih fun d hd => h d (by simp [hd])
    have head := h c (by simp)
    simp only [List.flatMap_cons, List.length_append, List.length_cons]
    omega

theorem length_le_encode (cs : List Char) : cs.length ≤ (Utf8.encode cs).length := by
  induction cs with
  | nil => simp
  | cons c cs ih =>
    have one : 0 < (String.utf8EncodeChar c).length := by
      rw [String.length_utf8EncodeChar]
      exact Char.utf8Size_pos c
    rw [encode_cons, List.length_append, List.length_cons]
    omega

/-- A key that fits before its colon is short enough to be recognised there. -/
theorem simple_key_length {indent : Nat} {simple : Bool} {k : Bytes} (h : KeyText k)
    (fits : Written.isSimpleKey (Written.shape k) = true) :
    (bodyChars indent (Written.style simple (Written.shape k)) (Written.shape k).chars).length ≤
      1024 := by
  have inline := @key_inline k simple h
  have length := length_le_encode (Written.shape k).chars
  have short : (Utf8.encode (Written.shape k).chars).length ≤ 128 := by
    simp only [Written.isSimpleKey, h.bare, Bool.and_eq_true, decide_eq_true_eq] at fits
    simpa using fits.2
  cases e : Written.style simple (Written.shape k) with
  | plain =>
    simp only [bodyChars]
    omega
  | single =>
    have body := @single_chars_length indent _ fun c hc => (h.printed c hc).2
    simp only [bodyChars, List.length_cons, List.length_append, List.length_nil]
    omega
  | double =>
    have body := flat_map_length fun c hc =>
      double_chars_length (h.printed c hc).1 (h.printed c hc).2
    simp only [bodyChars, List.length_cons, List.length_append, List.length_nil]
    omega
  | literal => exact absurd e inline
  | folded =>
    have styled := styled simple (Written.shape k)
    rw [e] at styled
    cases styled

/-- A block at an indentation is open already, or its first token opens it: the tokens and the
blocks around it before and after. -/
inductive Opening (block : Token) (p : Int) (i : Nat) (ts : List Token) (o : List Int) :
    List Token → List Int → Prop
  | opened (same : p = i) : Opening block p i ts o ts o
  | opens (deeper : p < i) (room : o.length < maxDepth) :
      Opening block p i ts o (ts ++ [block]) (p :: o)

namespace Opening

variable {block : Token} {p : Int} {i : Nat} {ts ts' : List Token} {o o' : List Int}

theorem within (h : Opening block p i ts o ts' o') : p ≤ i := by
  cases h with
  | opened same => omega
  | opens deeper => omega

theorem rolled (h : Opening block p i ts o ts' o') {m : Mark} (column : m.column = i)
    (r : List Char) :
    (line ts p o true none m r).roll m.column ts.length block =
      some (line ts' i o' true none m r) := by
  cases h with
  | opened same =>
    rw [roll_stays (by omega), same]
  | opens deeper room =>
    have opens := @roll_opens ts p o true none [] block m r m.column (by omega) room
    rw [List.append_nil] at opens
    rw [opens, column]

/-- A key before its colon. -/
theorem arrives_simple_key {k : Bytes} {m : Mark} {rest : List Char}
    (h : Opening .blockMappingStart p i ts o ts' o') (key : KeyText k)
    (fits : Written.isSimpleKey (Written.shape k) = true) (column : m.column = i)
    (after : AfterColon rest) {indent : Nat} (indented : 0 < indent) :
    ∃ m', i < m'.column ∧
      Arrives (line ts p o true none m
          (bodyChars indent (Written.style true (Written.shape k)) (Written.shape k).chars ++
            ':' :: rest))
        (line (ts' ++ [.key, keyToken k, .value]) i o' false none m' rest) := by
  have inline := @key_inline k true key
  have body := @inline_body indent true _ indented (plain_nonempty key.bare) inline
  have row := @inline_row indent true _ inline fun c hc => (key.printed c hc).2
  have near := @simple_key_length indent true k key fits
  generalize bodyChars indent (Written.style true (Written.shape k)) (Written.shape k).chars = w
    at body row near ⊢
  have token : keyToken k =
      .scalar (Written.shape k).chars (Written.style true (Written.shape k)) := by
    simp [keyToken, fits]
  have within := h.within
  have word := @step_inline_key ts p o _ _ rest _ m body row (by omega) after.1
  rw [← token] at word
  refine ⟨m.skip (w.length + 1), ?_, _, .more word ?_ (.refl _), ?_, ?_⟩
  · simp only [Mark.skip_column]
    omega
  · obtain ⟨c, cs, nonempty, _⟩ := inline_head body
    simp only [line, nonempty, List.length_append, List.length_cons]
    omega
  · cases h with
    | opened same =>
      have colon := @step_colon_open ts p o (keyToken k) m w.length rest after (by omega) near
      subst same
      exact colon
    | opens deeper room =>
      have colon := @step_colon_deeper ts p o (keyToken k) m w.length rest after (by omega) near
        room
      rw [column] at colon
      rw [List.append_assoc]
      exact colon
  · simp [line]

/-- A key on a line of its own. -/
theorem arrives_long_key {k : Bytes} {m : Mark} {rest : List Char}
    (h : Opening .blockMappingStart p i ts o ts' o') (key : KeyText k)
    (long : Written.isSimpleKey (Written.shape k) = false) (column : m.column = i)
    (after : AfterColon rest) :
    ∃ m', m'.column = i + 1 ∧
      Arrives (line ts p o true none m
          ('?' :: ' ' ::
            (bodyChars (i + 4) (Written.style false (Written.shape k)) (Written.shape k).chars ++
              '\n' :: (List.replicate i ' ' ++ ':' :: rest))))
        (line (ts' ++ [.key, keyToken k, .value]) i o' true none m' rest) := by
  have inline := @key_inline k false key
  have body := inline_body (Nat.succ_pos (i + 3)) (plain_nonempty key.bare) inline
  have token : keyToken k =
      .scalar (Written.shape k).chars (Written.style false (Written.shape k)) := by
    simp [keyToken, long]
  have within := h.within
  obtain ⟨m', column', explicit⟩ :=
    @arrives_explicit_key ts' i o' _ _ rest _ m body (by omega) after
  rw [column] at explicit column'
  rw [← token] at explicit
  refine ⟨m', column', ?_⟩
  generalize words : bodyChars (i + 4) (Written.style false (Written.shape k))
    (Written.shape k).chars ++ '\n' :: (List.replicate i ' ' ++ ':' :: rest) = text at explicit ⊢
  have head : ∀ c ∈ text.head?, isBlank c = false ∧ c ≠ '#' := by
    obtain ⟨c, cs, nonempty, solid⟩ := inline_head body
    rw [← words, nonempty]
    rintro _ ⟨⟩
    exact ⟨solid.1, solid.2.2.1⟩
  have question := step_question (by omega) head (h.rolled column _)
  exact explicit.after (.more question (by simp [line]) (.refl _))

end Opening

/-! ## Values and entries -/

theorem deeper_eq {i : Nat} (h : 4 ∣ i) : Written.deeper i = i + 4 := by
  obtain ⟨k, rfl⟩ := h
  unfold Written.deeper
  omega

theorem deeper_pos (i : Nat) : i < Written.deeper i := by
  unfold Written.deeper
  omega

theorem field_head (i : Nat) (e : Bytes × Tree) (rest : Bytes) :
    ∃ c cs, Utf8.chars (Written.fieldText i e ++ rest) = c :: cs ∧ Solid c := by
  obtain ⟨k, t⟩ := e
  rw [Written.fieldText]
  split
  · obtain ⟨j, deeper⟩ : ∃ j, Written.deeper i = j + 1 :=
      Nat.exists_eq_succ_of_ne_zero (by have := deeper_pos i; omega)
    rw [List.append_assoc, deeper]
    exact scalar_head j true k _
  · simp only [List.cons_append]
    rw [chars_cons _ (by decide)]
    exact ⟨_, _, rfl, by decide⟩

theorem fields_head (i : Nat) (e : Bytes × Tree) (es : List (Bytes × Tree)) (r : List Char) :
    ∃ c cs, Utf8.chars (Written.fieldsText i true (e :: es)) ++ r = c :: cs ∧ Solid c := by
  obtain ⟨c, cs, chars, solid⟩ := field_head i e (Written.fieldsText i false es)
  refine ⟨c, cs ++ r, ?_, solid⟩
  rw [Written.fieldsText, if_pos rfl, List.nil_append, chars]
  rfl

theorem fields_solid (i : Nat) (e : Bytes × Tree) (es : List (Bytes × Tree)) (r : List Char) :
    SolidHead (Utf8.chars (Written.fieldsText i true (e :: es)) ++ r) := by
  obtain ⟨c, cs, chars, solid⟩ := fields_head i e es r
  rw [chars]
  rintro _ ⟨⟩
  exact solid

/-- The entries after the first one begin at the indentation. -/
theorem fields_text_cons (i : Nat) (e f : Bytes × Tree) (es : List (Bytes × Tree)) :
    Written.fieldsText i true (e :: f :: es) =
      Written.fieldText i e ++ (Written.pad i ++ Written.fieldsText i true (f :: es)) := by
  rw [Written.fieldsText, Written.fieldsText, Written.fieldsText]
  simp

/-- Where a value may begin: after a colon on the line of its key, or, for a mapping, after the
colon of a key with a line of its own. -/
inductive ValuePlace (i : Nat) (m : Mark) : Option Nat → Bool → Tree → Prop
  | sameLine (t : Tree) (inside : i < m.column) : ValuePlace i m none false t
  | ownLine (e : Bytes × Tree) (es : List (Bytes × Tree)) (column : m.column = i + 1) :
      ValuePlace i m (some (i + 1)) true (.fields (e :: es))

theorem value_text_fields {i : Nat} (h : 4 ∣ i) (column : Option Nat) (e : Bytes × Tree)
    (es : List (Bytes × Tree)) :
    Written.valueText i column (.fields (e :: es)) =
      Written.gapTo (i + 4) column ++ Written.fieldsText (i + 4) true (e :: es) := by
  rw [Written.valueText, deeper_eq h, if_neg (by simp)]

theorem after_colon_space {c : Char} {rest : List Char} (solid : Solid c) :
    AfterColon (' ' :: c :: rest) := by
  refine ⟨rfl, 1, c :: rest, rfl, ?_⟩
  rintro _ ⟨⟩
  exact ⟨solid.1, solid.2.2.1⟩

theorem chars_int (n : Int) (s : Bytes) :
    Utf8.chars (Bytes.ofInt n ++ s) = intChars n ++ Utf8.chars s := by
  rw [of_int_eq_encode, Utf8.chars_encode_append]

/-- What follows a colon begins with a blank or a break, and with no comment after that. -/
theorem value_after_colon {i : Nat} {m : Mark} {column : Option Nat} {allowed : Bool}
    {t : Tree} (place : ValuePlace i m column allowed t) (noItems : ∀ us, t ≠ .items us)
    (four : 4 ∣ i) (r : List Char) :
    AfterColon (Utf8.chars (Written.valueText i column t) ++ r) := by
  cases place with
  | ownLine e es =>
    obtain ⟨c, cs, chars, solid⟩ := fields_head (i + 4) e es r
    rw [value_text_fields four, Written.gapTo, chars_pad, List.append_assoc, chars]
    refine ⟨?_, i + 4 - (i + 1), c :: cs, rfl, ?_⟩
    · rw [show i + 4 - (i + 1) = 3 by omega]
      rfl
    · rintro _ ⟨⟩
      exact ⟨solid.1, solid.2.2.1⟩
  | sameLine =>
    cases t with
    | text s =>
      obtain ⟨c, cs, chars, solid⟩ := scalar_head (i + 3) false s (Written.lineEnd false s)
      rw [Written.valueText, deeper_eq four, List.cons_append, chars_cons _ (by decide), chars]
      exact after_colon_space solid
    | int n =>
      obtain ⟨c, cs, chars, begins⟩ := begins_word_int n
      rw [Written.valueText, List.cons_append, chars_cons _ (by decide), chars_int, chars]
      exact after_colon_space (begins []).1
    | flag b =>
      cases b <;> exact after_colon_space (by decide)
    | row ns =>
      rw [Written.valueText, List.cons_append, chars_cons _ (by decide), row_eq_encode,
        Utf8.chars_encode_append]
      exact after_colon_space (by decide)
    | items us => exact absurd rfl (noItems us)
    | fields es =>
      cases es with
      | nil =>
        rw [Written.valueText]
        exact after_colon_space (by decide)
      | cons e es =>
        rw [value_text_fields four, Written.gapTo, List.cons_append, chars_cons _ (by decide)]
        exact ⟨rfl, 0, _, rfl, by rintro _ ⟨⟩; decide⟩

/-- A value is read up to what follows it, with the tokens of its tree. -/
def ValueScans (t : Tree) : Prop :=
  ∀ (room i n : Nat) (ts : List Token) (o : List Int) (m : Mark) (column : Option Nat)
    (allowed : Bool) (r : List Char),
    ValuePlace i m column allowed t → Legible TextScans room t → 4 ∣ i →
    o.length + room ≤ maxDepth → n ≤ i → SolidHead r →
    ∃ m', m'.column = n ∧
      Reaches (line ts i o allowed none m
          (Utf8.chars (Written.valueText i column t) ++ (List.replicate n ' ' ++ r)))
        (line (ts ++ treeTokens t) i o true none m' r)

/-- An entry, or several, are read up to what follows them, which may be indented as they are. -/
def EntriesScan (legible : Nat → Prop) (text : Nat → Bytes) (tokens : List Token) : Prop :=
  ∀ (room i n : Nat) (p : Int) (ts ts' : List Token) (o o' : List Int) (m : Mark) (r : List Char),
    legible room → Opening .blockMappingStart p i ts o ts' o' → 4 ∣ i →
    o'.length + room ≤ maxDepth → m.column = i → n ≤ i → SolidHead r →
    ∃ m', m'.column = n ∧
      Reaches (line ts p o true none m (Utf8.chars (text i) ++ (List.replicate n ' ' ++ r)))
        (line (ts' ++ tokens) i o' true none m' r)

/-- A key is read up to the value after its colon. -/
theorem entry_arrives {i : Nat} {p : Int} {ts ts' : List Token} {o o' : List Int} {m : Mark}
    {k : Bytes} {t : Tree} (opening : Opening .blockMappingStart p i ts o ts' o') (key : KeyText k)
    (shape : Written.isSimpleKey (Written.shape k) = true ∨ ∃ e es, t = .fields (e :: es))
    (noItems : ∀ us, t ≠ .items us) (four : 4 ∣ i) (column : m.column = i) (r : List Char) :
    ∃ m' place allowed, ValuePlace i m' place allowed t ∧
      Arrives (line ts p o true none m (Utf8.chars (Written.fieldText i (k, t)) ++ r))
        (line (ts' ++ [.key, keyToken k, .value]) i o' allowed none m'
          (Utf8.chars (Written.valueText i place t) ++ r)) := by
  cases fits : Written.isSimpleKey (Written.shape k) with
  | true =>
    have after := value_after_colon (.sameLine (i := i) (m := ⟨0, 0, i + 1⟩) t (Nat.lt_succ_self i))
      noItems four r
    obtain ⟨m₁, inside, read⟩ :=
      opening.arrives_simple_key key fits column after (Nat.succ_pos (i + 3))
    have chars : Utf8.chars (Written.fieldText i (k, t)) =
        bodyChars (i + 4) (Written.style true (Written.shape k)) (Written.shape k).chars ++
          ':' :: Utf8.chars (Written.valueText i none t) := by
      rw [Written.fieldText, if_pos fits, deeper_eq four, chars_scalar key.bare,
        chars_cons _ (by decide)]
      rfl
    refine ⟨m₁, none, false, .sameLine t inside, ?_⟩
    rw [chars, List.append_assoc]
    exact read
  | false =>
    obtain ⟨e, es, rfl⟩ : ∃ e es, t = .fields (e :: es) := by
      rcases shape with simple | block
      · rw [fits] at simple
        cases simple
      · exact block
    have after := value_after_colon (.ownLine (i := i) (m := ⟨0, 0, i + 1⟩) e es rfl) noItems four r
    obtain ⟨m₁, column₁, read⟩ := opening.arrives_long_key key fits column after
    have chars : Utf8.chars (Written.fieldText i (k, .fields (e :: es))) =
        '?' :: ' ' ::
          (bodyChars (i + 4) (Written.style false (Written.shape k)) (Written.shape k).chars ++
            '\n' :: (List.replicate i ' ' ++
              ':' :: Utf8.chars (Written.valueText i (some (i + 1)) (.fields (e :: es))))) := by
      rw [Written.fieldText, if_neg (by simp [fits]), deeper_eq four,
        line_end_inline (key_inline key)]
      simp only [List.cons_append, List.append_assoc, List.nil_append]
      rw [chars_cons _ (by decide), chars_cons _ (by decide), chars_scalar key.bare,
        chars_cons _ (by decide), chars_pad, chars_cons _ (by decide)]
      rfl
    refine ⟨m₁, some (i + 1), true, .ownLine e es column₁, ?_⟩
    rw [chars]
    simp only [List.cons_append, List.append_assoc]
    exact read

theorem entry_scans_of_value {k : Bytes} {t : Tree} (value : ValueScans t) :
    EntriesScan (LegibleEntry TextScans · (k, t)) (Written.fieldText · (k, t))
      (entryTokens (k, t)) := by
  intro room i n p ts ts' o o' m r legible opening four depth column less solid
  obtain ⟨key, shape, legible⟩ := legible
  obtain ⟨m₁, place, allowed, valuePlace, read⟩ := entry_arrives opening key shape legible.no_items
    four column (List.replicate n ' ' ++ r)
  obtain ⟨m₂, column₂, rest⟩ := value room i n (ts' ++ [.key, keyToken k, .value]) o' m₁ place
    allowed r valuePlace legible four depth less solid
  refine ⟨m₂, column₂, ?_⟩
  rw [List.append_assoc] at rest
  rw [entryTokens]
  exact read.reaches.trans rest

theorem entries_scan_single {e : Bytes × Tree}
    (first : EntriesScan (LegibleEntry TextScans · e) (Written.fieldText · e) (entryTokens e)) :
    EntriesScan (LegibleEntries TextScans · [e]) (Written.fieldsText · true [e])
      (entriesTokens [e]) := by
  intro room i n p ts ts' o o' m r legible opening four depth column less solid
  have legible' : LegibleEntry TextScans room e ∧ LegibleEntries TextScans room [] := by
    rw [LegibleEntries] at legible
    exact legible
  have text : Written.fieldsText i true [e] = Written.fieldText i e := by
    simp [Written.fieldsText]
  dsimp only
  rw [text, entriesTokens, entriesTokens, List.append_nil]
  exact first room i n p ts ts' o o' m r legible'.1 opening four depth column less solid

/-- Entries follow one another at the indentation of their mapping. -/
theorem entries_scan_cons {e f : Bytes × Tree} {es : List (Bytes × Tree)}
    (first : EntriesScan (LegibleEntry TextScans · e) (Written.fieldText · e) (entryTokens e))
    (rest : EntriesScan (LegibleEntries TextScans · (f :: es)) (Written.fieldsText · true (f :: es))
      (entriesTokens (f :: es))) :
    EntriesScan (LegibleEntries TextScans · (e :: f :: es))
      (Written.fieldsText · true (e :: f :: es)) (entriesTokens (e :: f :: es)) := by
  intro room i n p ts ts' o o' m r legible opening four depth column less solid
  have legible' : LegibleEntry TextScans room e ∧ LegibleEntries TextScans room (f :: es) := by
    rw [LegibleEntries] at legible
    exact legible
  obtain ⟨m₁, column₁, read⟩ := first room i i p ts ts' o o' m
    (Utf8.chars (Written.fieldsText i true (f :: es)) ++ (List.replicate n ' ' ++ r))
    legible'.1 opening four depth column (Nat.le_refl i) (fields_solid i f es _)
  obtain ⟨m₂, column₂, more⟩ := rest room i n i (ts' ++ entryTokens e) (ts' ++ entryTokens e) o' o'
    m₁ r legible'.2 (.opened rfl) four depth column₁ less solid
  refine ⟨m₂, column₂, ?_⟩
  have chars : Utf8.chars (Written.fieldsText i true (e :: f :: es)) =
      Utf8.chars (Written.fieldText i e) ++
        (List.replicate i ' ' ++ Utf8.chars (Written.fieldsText i true (f :: es))) := by
    rw [fields_text_cons, chars_append (legal_field i e), chars_pad]
  rw [List.append_assoc] at more
  dsimp only at read more ⊢
  rw [chars, entriesTokens]
  simp only [List.append_assoc]
  exact read.trans more

/-- What lies before the first entry of the mapping under a key is passed over. -/
theorem fields_begin {i : Nat} {ts : List Token} {o : List Int} {m : Mark} {column : Option Nat}
    {allowed : Bool} {e : Bytes × Tree} {es : List (Bytes × Tree)}
    (place : ValuePlace i m column allowed (.fields (e :: es))) (four : 4 ∣ i) (r : List Char) :
    ∃ m', m'.column = i + 4 ∧
      Reaches (line ts i o allowed none m
          (Utf8.chars (Written.valueText i column (.fields (e :: es))) ++ r))
        (line ts i o true none m'
          (Utf8.chars (Written.fieldsText (i + 4) true (e :: es)) ++ r)) := by
  have head := fields_solid (i + 4) e es r
  rw [value_text_fields four]
  cases place with
  | sameLine =>
    refine ⟨(m.newline 1).skip (i + 4), by simp, ?_⟩
    rw [Written.gapTo, List.cons_append, chars_cons _ (by decide), chars_pad, List.cons_append,
      List.append_assoc]
    exact reaches_newline (i + 4) head
  | ownLine _ _ start =>
    refine ⟨m.skip (i + 4 - (i + 1)), by simp; omega, ?_⟩
    rw [Written.gapTo, chars_pad, List.append_assoc]
    refine .same (step_spaces _ head) ?_ (.refl _)
    simp only [line, List.length_append]
    omega

/-- The mapping under a key is opened by its first entry and closed before what follows it. -/
theorem fields_scan {e : Bytes × Tree} {es : List (Bytes × Tree)}
    (entries : EntriesScan (LegibleEntries TextScans · (e :: es))
      (Written.fieldsText · true (e :: es)) (entriesTokens (e :: es))) :
    ValueScans (.fields (e :: es)) := by
  intro room i n ts o m column allowed r place legible four depth less solid
  obtain ⟨inner, rfl, inside⟩ :
      ∃ inner, room = inner + 1 ∧ LegibleEntries TextScans inner (e :: es) := by
    rw [Legible] at legible
    exact legible.resolve_left (by simp)
  obtain ⟨m₁, column₁, gap⟩ := @fields_begin i ts o m column allowed e es place four
    (List.replicate n ' ' ++ r)
  obtain ⟨m₂, column₂, read⟩ := entries inner (i + 4) n i ts (ts ++ [.blockMappingStart]) o (i :: o)
    m₁ r inside (.opens (by omega) (by omega)) (by omega) (by simp; omega) column₁ (by omega) solid
  have closed := @step_close (ts ++ [.blockMappingStart] ++ entriesTokens (e :: es))
    ((i + 4 : Nat) : Int) o true none i m₂ r solid (by omega)
  refine ⟨m₂, column₂, gap.trans (read.trans (.same closed (Nat.le_refl _) ?_))⟩
  rw [treeTokens, if_neg (by simp)]
  simp only [List.append_assoc, List.singleton_append]
  exact .refl _

theorem inline_value_scans {t : Tree} {w cs : List Char} {style : Style} (h : Inline w cs style)
    (tokens : treeTokens t = [.scalar cs style])
    (chars : ∀ i, Utf8.chars (Written.valueText i none t) = ' ' :: (w ++ ['\n']))
    (flat : ∀ es, t ≠ .fields es) : ValueScans t := by
  intro room i n ts o m column allowed r place legible four depth less solid
  cases place with
  | ownLine e es => exact absurd rfl (flat (e :: es))
  | sameLine _ inside =>
    obtain ⟨m', column', _, read⟩ := @reaches_inline_value ts i o false w cs r style (m.skip 1) n h
      (by simp; omega) (by simp) (by omega) solid
    refine ⟨m', column', ?_⟩
    obtain ⟨c, rest, word, head⟩ := inline_head h
    rw [chars, tokens]
    simp only [List.cons_append, List.append_assoc, List.nil_append]
    refine .same (@step_spaces ts i o false none m 1 _ ?_) (by simp [line]) read
    rw [word]
    rintro _ ⟨⟩
    exact head

theorem text_value_scans (s : Bytes) : ValueScans (.text s) := by
  intro room i n ts o m column allowed r place legible four depth less solid
  cases place with
  | sameLine _ inside =>
    rw [Legible] at legible
    obtain ⟨m', column', read⟩ := legible i n ts o (m.skip 1) r (by simp; omega) less solid
    refine ⟨m', column', ?_⟩
    obtain ⟨c, cs, chars, head⟩ := scalar_head (i + 3) false s (Written.lineEnd false s)
    rw [chars] at read
    rw [Written.valueText, deeper_eq four, List.cons_append, chars_cons _ (by decide), chars,
      treeTokens]
    refine .same (@step_spaces ts i o false none m 1 _ ?_) (by simp [line]) read
    rintro _ ⟨⟩
    exact head

theorem row_value_scans (ns : List Int) : ValueScans (.row ns) := by
  intro room i n ts o m column allowed r place legible four depth less solid
  have words : ∀ w ∈ ns.map intChars, RowWord w := by
    intro w hw
    obtain ⟨k, _, rfl⟩ := List.mem_map.mp hw
    exact row_word_int k
  cases place with
  | sameLine _ inside =>
    obtain ⟨m', column', read⟩ := @reaches_row ts i o (ns.map intChars) r (m.skip 1) n words
      (by simp; omega) (by simp) solid
    refine ⟨m', column', ?_⟩
    rw [Written.valueText, List.cons_append, chars_cons _ (by decide), row_eq_encode,
      Utf8.chars_encode_append, treeTokens]
    simp only [List.cons_append, List.append_assoc]
    refine .same (@step_spaces ts i o false none m 1 _ ?_) (by simp [line]) read
    rintro _ ⟨⟩
    decide

theorem braces_value_scans : ValueScans (.fields []) := by
  intro room i n ts o m column allowed r place legible four depth less solid
  cases place with
  | sameLine _ inside =>
    obtain ⟨m', column', read⟩ := @reaches_braces ts i o r (m.skip 1) n (by simp; omega) (by simp)
      solid
    have chars : Utf8.chars (Written.valueText i none (.fields [])) =
        [' ', '\x7b', '\x7d', '\n'] := by
      rw [Written.valueText]
      rfl
    refine ⟨m', column', ?_⟩
    rw [chars, treeTokens]
    refine .same (@step_spaces ts i o false none m 1 _ ?_) (by simp [line]) read
    rintro _ ⟨⟩
    decide

mutual

/-- Every legible value is split into the tokens of its tree. -/
theorem value_scans : (t : Tree) → ValueScans t
  | .text s => text_value_scans s
  | .int n => by
    refine inline_value_scans (.plain (plain_text_int n)) rfl (fun i => ?_) (by simp)
    rw [Written.valueText, List.cons_append, chars_cons _ (by decide), chars_int]
    rfl
  | .flag b => by
    refine inline_value_scans (.plain (plain_text_flag b)) rfl (fun i => ?_) (by simp)
    cases b <;> rfl
  | .row ns => row_value_scans ns
  | .items ts => by
    intro room i n us o m column allowed r place legible
    exact absurd legible (by simp [Legible])
  | .fields es => by
    have entries := entries_scan es
    cases es with
    | nil => exact braces_value_scans
    | cons e es => exact fields_scan (entries (by simp))

/-- So are the entries of a mapping. -/
theorem entries_scan : (es : List (Bytes × Tree)) → es ≠ [] →
    EntriesScan (LegibleEntries TextScans · es) (Written.fieldsText · true es) (entriesTokens es)
  | [], nonempty => absurd rfl nonempty
  | e :: es, _ => by
    have first := entry_scans e
    have rest := entries_scan es
    cases es with
    | nil => exact entries_scan_single first
    | cons f es => exact entries_scan_cons first (rest (by simp))

theorem entry_scans : (e : Bytes × Tree) →
    EntriesScan (LegibleEntry TextScans · e) (Written.fieldText · e) (entryTokens e)
  | (_, t) => entry_scans_of_value (value_scans t)

end

/-! ## Whole documents -/

/-- The end of a document closes the mapping at its root. -/
theorem step_document_end {ts : List Token} {m : Mark} (column : m.column = 0) :
    (line ts 0 [-1] true none m []).step =
      some (.ended (line (ts ++ [.blockEnd, .streamEnd]) (-1) [] false none m [])) := by
  have empty : SolidHead [] := by
    intro c hc
    cases hc
  rw [step_solid empty, unroll_stays (by omega)]
  simp [dispatch, leaveBlocks, unroll, line, inFlow, closeBlocks, dropKey, key?, emit]

theorem tokens_of_run {cs : List Char} {u : Scanner}
    (h : Scanner.run (cs.length + 1) (Scanner.start cs) = (u, true)) :
    tokens cs = u.tokens.reverse := by
  simp [tokens, h]

/-- Reading the entries at the root leads to the tokens of the whole document. -/
theorem tokens_of_reaches {text : Bytes} {ts : List Token} {m : Mark} (column : m.column = 0)
    (read : Reaches (line [] (-1) [] true none Mark.start (Utf8.chars text))
      (line (.blockMappingStart :: ts) 0 [-1] true none m [])) :
    tokens (Utf8.chars text) = .blockMappingStart :: (ts ++ [.blockEnd, .streamEnd]) := by
  have run := read.run_ended (step_document_end column) (Nat.lt_succ_self _)
  refine (tokens_of_run run).trans ?_
  simp [line]

/-- A document with a mapping at its root is split into the tokens of its entries. -/
theorem tokens_document {e : Bytes × Tree} {es : List (Bytes × Tree)} {room : Nat}
    (legible : LegibleEntries TextScans room (e :: es)) (depth : room < maxDepth) :
    tokens (Utf8.chars (renderFields (e :: es))) =
      .blockMappingStart :: (entriesTokens (e :: es) ++ [.blockEnd, .streamEnd]) := by
  have empty : SolidHead [] := by
    intro c hc
    cases hc
  obtain ⟨m, column, read⟩ := entries_scan (e :: es) (by simp) room 0 0 (-1) [] [.blockMappingStart]
    [] [-1] Mark.start [] legible (.opens (by omega) (by decide)) (by omega) (by simp; omega) rfl
    (Nat.le_refl 0) empty
  have text : renderFields (e :: es) = Written.fieldsText 0 true (e :: es) := by
    simp [renderFields]
  simp only [List.replicate_zero, List.append_nil] at read
  rw [text]
  exact tokens_of_reaches column read

end Overworld.Yaml
