import Overworld.Yaml.Tree
import Overworld.Proofs.Utf8
import Mathlib.Tactic.Ring
import Mathlib.Tactic.SplitIfs

/-!
# Scalars are read as they are written

A plain scalar is read up to the colon or the line break after it, a quoted one up to its closing
quote, and what is read is the text that was written. Blanks and breaks inside a text pass through
the gap of the reader; joining the gap at the next word puts them back.
-/

set_option autoImplicit false

namespace Overworld.Yaml

/-- The position after some characters. -/
def Mark.past (m : Mark) : List Char → Mark
  | [] => m
  | c :: cs => (if isBreak c then m.newline 1 else m.skip 1).past cs

namespace Mark

@[simp] theorem past_nil (m : Mark) : m.past [] = m := rfl

theorem past_append (m : Mark) (a b : List Char) : m.past (a ++ b) = (m.past a).past b := by
  induction a generalizing m with
  | nil => rfl
  | cons c a ih => exact ih _

theorem skip_skip (m : Mark) (a b : Nat) : (m.skip a).skip b = m.skip (a + b) := by
  simp [skip, Nat.add_assoc]

@[simp] theorem skip_zero (m : Mark) : m.skip 0 = m := rfl

@[simp] theorem skip_column (m : Mark) (n : Nat) : (m.skip n).column = m.column + n := rfl

@[simp] theorem newline_column (m : Mark) (n : Nat) : (m.newline n).column = 0 := rfl

theorem past_line (m : Mark) {cs : List Char} (h : ∀ c ∈ cs, isBreak c = false) :
    m.past cs = m.skip cs.length := by
  induction cs generalizing m with
  | nil => rfl
  | cons c cs ih =>
    have hc := h c (by simp)
    have tail := ih (m.skip 1) fun d hd => h d (by simp [hd])
    rw [past, hc, if_neg (by decide), tail, skip_skip, List.length_cons, Nat.add_comm]

theorem past_spaces (m : Mark) (n : Nat) : m.past (List.replicate n ' ') = m.skip n := by
  have line : ∀ c ∈ List.replicate n ' ', isBreak c = false := by
    intro c hc
    rw [List.eq_of_mem_replicate hc]
    decide
  rw [past_line m line, List.length_replicate]

end Mark

/-! ## Plain scalars -/

/-- The gap that blanks leave. -/
def Gap.ofBlanks : List Char → Gap
  | [] => .none
  | b :: bs => .blanks (b :: bs)

@[simp] theorem join_of_blanks (bs text : List Char) :
    (Gap.ofBlanks bs).join text = bs ++ text := by
  cases bs <;> rfl

@[simp] theorem blank_of_blanks (c : Char) (bs : List Char) :
    (Gap.ofBlanks bs).blank c = Gap.ofBlanks (c :: bs) := by
  cases bs <;> rfl

/-- What makes a text fit to be written plain on one line. -/
structure PlainText (cs : List Char) : Prop where
  nonempty : cs ≠ []
  printed : ∀ c ∈ cs, isBreak c = false ∧ Written.isPrintable c = true
  start : cs.head? ≠ some ' '
  ending : cs.getLast? ≠ some ' '
  mark : Written.beginsLikeMark cs = false
  first : Written.indicatorFirst cs = false
  inner : Written.indicatorLater false cs = false

theorem not_tab_of_printable {c : Char} (h : Written.isPrintable c = true) : c ≠ '\t' := by
  rintro rfl
  exact absurd h (by decide)

theorem plain_text_of_allowed {cs : List Char} (nonempty : cs ≠ [])
    (h : (Written.features cs).plainAllowed = true) : PlainText cs := by
  simp only [Written.Features.plainAllowed, Written.features, Bool.not_eq_true',
    Bool.or_eq_false_iff, decide_eq_false_iff_not] at h
  obtain ⟨⟨⟨⟨⟨⟨⟨⟨⟨start, _⟩, ending⟩, _⟩, _⟩, _⟩, tabs⟩, special⟩, breaks⟩, ⟨mark, first⟩,
    later⟩ := h
  refine ⟨nonempty, ?_, start, ending, mark, first, ?_⟩
  · intro c hc
    refine ⟨?_, ?_⟩
    · simpa using List.any_eq_false.mp breaks c hc
    · have noTab : c ≠ '\t' := by
        rintro rfl
        simp [hc] at tabs
      simpa [noTab] using List.any_eq_false.mp special c hc
  · cases cs with
    | nil => rfl
    | cons c rest =>
      simp only [Written.indicatorFirst, Bool.or_eq_false_iff] at first
      simp only [Written.indicatorLater, later, Bool.or_false, Bool.and_false]
      by_cases colon : c = ':'
      · subst colon
        simpa using first.2
      · simp [colon]

theorem not_return {c : Char} (h : isBreak c = false) : c ≠ '\r' := by
  rintro rfl
  simp [isBreak] at h

theorem is_blank_iff (c : Char) : isBlank c = true ↔ c = ' ' ∨ c = '\t' := by
  simp [isBlank]

/-- One character of a plain scalar, unless it is a carriage return. -/
theorem read_plain_cons {flow : Bool} {indent : Int} {text : List Char} {gap : Gap} {m : Mark}
    {c : Char} (rest : List Char) (h : c ≠ '\r') :
    readPlain flow indent text gap m (c :: rest) =
      if isBlank c then
        if gap.isLines && (m.column : Int) < indent && c = '\t' then none
        else readPlain flow indent text (gap.blank c) (m.skip 1) rest
      else if isBreak c then
        readPlain flow indent text (gap.lineBreak c) (m.newline 1) rest
      else if gap != .none &&
          ((!flow && (m.column : Int) < indent) ||
            (m.column = 0 && atDocumentMark (c :: rest)) || c = '#') then
        some ⟨text.reverse, gap, m, c :: rest⟩
      else if endsPlain flow c rest then some ⟨text.reverse, gap, m, c :: rest⟩
      else readPlain flow indent (c :: gap.join text) .none (m.skip 1) rest := by
  rw [readPlain]
  intro _ e
  exact absurd e h

theorem indicator_later_of_gap {gap : Bool} {cs : List Char}
    (h : Written.indicatorLater gap cs = false) : Written.indicatorLater false cs = false := by
  cases cs with
  | nil => rfl
  | cons c cs =>
    simp only [Written.indicatorLater, Bool.or_eq_false_iff] at h
    simp [Written.indicatorLater, h.1.1, h.2]

/-- A colon inside a text does not end it. -/
theorem not_ends_plain {c : Char} {cs : List Char} (rest : List Char)
    (colon : decide (c = ':') = false ∨ cs.head?.all isBlank = false)
    (printed : ∀ d ∈ cs, isBreak d = false ∧ Written.isPrintable d = true) :
    endsPlain false c (cs ++ rest) = false := by
  simp only [endsPlain, Bool.false_and, Bool.or_false, Bool.and_eq_false_iff]
  rcases colon with other | word
  · exact Or.inl other
  · right
    cases cs with
    | nil => simp at word
    | cons d cs =>
      have noBlank : isBlank d = false := by simpa using word
      have noBreak := (printed d (by simp)).1
      simp [atGap, noBlank, noBreak]

/-- Reading goes through the words of a text, which lie on one line. -/
theorem read_plain_words {indent : Int} {cs : List Char} {bs text rest : List Char} {m : Mark}
    (printed : ∀ c ∈ cs, isBreak c = false ∧ Written.isPrintable c = true)
    (inner : Written.indicatorLater (!bs.isEmpty) cs = false)
    (column : bs ≠ [] → indent ≤ m.column ∧ 0 < m.column) (next : indent ≤ m.column + 1)
    (ending : cs.getLast? ≠ some ' ') (nonempty : cs ≠ []) :
    readPlain false indent text (.ofBlanks bs) m (cs ++ rest) =
      readPlain false indent (cs.reverse ++ (bs ++ text)) .none (m.skip cs.length) rest := by
  induction cs generalizing bs text m with
  | nil => exact absurd rfl nonempty
  | cons c cs ih =>
    obtain ⟨noBreak, printable⟩ := printed c (by simp)
    have noTab := not_tab_of_printable printable
    have printed' : ∀ d ∈ cs, isBreak d = false ∧ Written.isPrintable d = true := fun d hd =>
      printed d (by simp [hd])
    have ending' : cs ≠ [] → cs.getLast? ≠ some ' ' := by
      intro more
      rwa [List.getLast?_cons_of_ne_nil more] at ending
    have length : m.skip (c :: cs).length = (m.skip 1).skip cs.length := by
      rw [Mark.skip_skip, List.length_cons, Nat.add_comm]
    simp only [Written.indicatorLater, Bool.or_eq_false_iff, Bool.and_eq_false_iff] at inner
    obtain ⟨⟨colon, hash⟩, inner⟩ := inner
    rw [List.cons_append, read_plain_cons _ (not_return noBreak)]
    by_cases blank : isBlank c = true
    · -- A space goes into the gap; a word has to follow it.
      have more : cs ≠ [] := by
        rintro rfl
        rcases (is_blank_iff c).mp blank with rfl | rfl
        · simp at ending
        · exact noTab rfl
      have inner' : Written.indicatorLater (!(c :: bs).isEmpty) cs = false := by
        simpa [blank] using inner
      have column' : c :: bs ≠ [] → indent ≤ (m.skip 1).column ∧ 0 < (m.skip 1).column := by
        intro _
        simp only [Mark.skip_column]
        omega
      rw [if_pos blank, if_neg (by simp [noTab]), blank_of_blanks,
        ih printed' inner' column' (by simp only [Mark.skip_column]; omega) (ending' more) more,
        length]
      simp
    · have noBlank : isBlank c = false := by simpa using blank
      have goesOn : (Gap.ofBlanks bs != .none &&
          ((!false && (m.column : Int) < indent) ||
            (m.column = 0 && atDocumentMark (c :: (cs ++ rest))) || c = '#')) = false := by
        cases bs with
        | nil => rfl
        | cons b bs =>
          obtain ⟨deep, positive⟩ := column (by simp)
          have shallow : ¬ (m.column : Int) < indent := by omega
          have notZero : m.column ≠ 0 := by omega
          have notHash : c ≠ '#' := by simpa using hash
          simp [shallow, notZero, notHash]
      rw [if_neg blank, if_neg (by simp [noBreak]), if_neg (by rw [goesOn]; decide),
        not_ends_plain rest colon printed', if_neg (by decide), join_of_blanks, length]
      by_cases more : cs = []
      · subst more
        rfl
      · have step : readPlain false indent (c :: (bs ++ text)) .none (m.skip 1) (cs ++ rest) = _ :=
          @ih [] _ _ printed' (indicator_later_of_gap inner) (absurd rfl)
            (by simp only [Mark.skip_column]; omega) (ending' more) more
        rw [step]
        simp

/-- A plain key is read up to its colon. -/
theorem read_plain_key {indent : Int} {cs rest : List Char} {m : Mark} (h : PlainText cs)
    (next : indent ≤ m.column + 1) (gap : atGap rest = true) :
    readPlain false indent [] .none m (cs ++ ':' :: rest) =
      some ⟨cs, .none, m.skip cs.length, ':' :: rest⟩ := by
  have words := @read_plain_words indent cs [] [] (':' :: rest) m h.printed h.inner (absurd rfl)
    next h.ending h.nonempty
  have colon : isBlank ':' = false ∧ isBreak ':' = false := by decide
  have ends : endsPlain false ':' rest = true := by simp [endsPlain, gap]
  refine words.trans ?_
  rw [read_plain_cons rest (by decide), if_neg (by simp [colon.1]), if_neg (by simp [colon.2]),
    if_neg (by simp), if_pos ends]
  simp

/-- A character at which nothing is passed over before a token. -/
def Solid (c : Char) : Prop :=
  isBlank c = false ∧ isBreak c = false ∧ c ≠ '#' ∧ c ≠ byteOrderMark

instance (c : Char) : Decidable (Solid c) := by
  unfold Solid
  infer_instance

/-- Whether a text ends, or begins with a character at which nothing is passed over. -/
def SolidHead (r : List Char) : Prop := ∀ c ∈ r.head?, Solid c

theorem read_plain_indentation {indent : Int} {text first more : List Char} {n : Nat}
    {r : List Char} {m : Mark} :
    readPlain false indent text (.lines first more) m (List.replicate n ' ' ++ r) =
      readPlain false indent text (.lines first more) (m.skip n) r := by
  induction n generalizing m with
  | zero => rfl
  | succ n ih =>
    rw [List.replicate_succ, List.cons_append, read_plain_cons _ (by decide), if_pos (by decide),
      if_neg (by simp)]
    rw [Gap.blank, ih, Mark.skip_skip, Nat.add_comm]

/-- A plain value is read up to the next key, which is indented less. -/
theorem read_plain_value {indent : Int} {cs r : List Char} {n : Nat} {m : Mark}
    (h : PlainText cs) (next : indent ≤ m.column + 1) (less : (n : Int) < indent)
    (solid : SolidHead r) :
    readPlain false indent [] .none m (cs ++ '\n' :: (List.replicate n ' ' ++ r)) =
      some ⟨cs, .lines ['\n'] [], ((m.skip cs.length).newline 1).skip n, r⟩ := by
  have words := @read_plain_words indent cs [] [] ('\n' :: (List.replicate n ' ' ++ r)) m
    h.printed h.inner (absurd rfl) next h.ending h.nonempty
  refine words.trans ?_
  rw [read_plain_cons _ (by decide), if_neg (by decide), if_pos (by decide)]
  rw [Gap.lineBreak, read_plain_indentation]
  · cases r with
    | nil => simp [readPlain, breakText]
    | cons c r =>
      obtain ⟨blank, noBreak, _, _⟩ := solid c rfl
      rw [read_plain_cons _ (not_return noBreak), if_neg (by simp [blank]),
        if_neg (by simp [noBreak]), if_pos (by simp [less])]
      simp [breakText]
  · simp

/-- A character of a word that stands between brackets. -/
def Plainest (c : Char) : Prop :=
  isBlank c = false ∧ isBreak c = false ∧ c ≠ ':' ∧ isFlowEnd c = false

/-- A word between brackets is read up to the comma or bracket after it. -/
theorem read_plain_item {indent : Int} {cs text rest : List Char} {d : Char} {m : Mark}
    (h : ∀ c ∈ cs, Plainest c) (solid : isBlank d = false ∧ isBreak d = false)
    (ends : isFlowEnd d = true) :
    readPlain true indent text .none m (cs ++ d :: rest) =
      some ⟨text.reverse ++ cs, .none, m.skip cs.length, d :: rest⟩ := by
  induction cs generalizing text m with
  | nil =>
    rw [List.nil_append, read_plain_cons _ (not_return solid.2), if_neg (by simp [solid.1]),
      if_neg (by simp [solid.2]), if_neg (by simp), if_pos (by simp [endsPlain, ends])]
    simp [Mark.skip]
  | cons c cs ih =>
    obtain ⟨blank, noBreak, colon, inside⟩ := h c (by simp)
    have tail := @ih (c :: text) (m.skip 1) fun e he => h e (by simp [he])
    rw [List.cons_append, read_plain_cons _ (not_return noBreak), if_neg (by simp [blank]),
      if_neg (by simp [noBreak]), if_neg (by simp), if_neg (by simp [endsPlain, colon, inside])]
    rw [Gap.join, tail, Mark.skip_skip]
    simp [Nat.add_comm]

/-! ## Single quotes -/

/-- The characters between single quotes. -/
def singleChars (indent : Nat) : Bool → List Char → List Char
  | _, [] => []
  | fresh, c :: cs =>
    if isBreak c then c :: singleChars indent true cs
    else
      (if fresh && c != ' ' then List.replicate indent ' ' else []) ++
        (if c = '\'' then ['\'', '\''] else [c]) ++ singleChars indent (fresh && c = ' ') cs

theorem encode_append (a b : List Char) : Utf8.encode (a ++ b) = Utf8.encode a ++ Utf8.encode b :=
  List.flatMap_append

theorem encode_cons (c : Char) (cs : List Char) :
    Utf8.encode (c :: cs) = String.utf8EncodeChar c ++ Utf8.encode cs :=
  List.flatMap_cons

theorem pad_eq_encode (n : Nat) : Written.pad n = Utf8.encode (List.replicate n ' ') := by
  induction n with
  | zero => rfl
  | succ n ih =>
    rw [List.replicate_succ, encode_cons, ← ih]
    rfl

theorem single_body_eq_encode (indent : Nat) (fresh : Bool) (cs : List Char) :
    Written.singleBody indent fresh cs = Utf8.encode (singleChars indent fresh cs) := by
  induction cs generalizing fresh with
  | nil => rfl
  | cons c cs ih =>
    unfold Written.singleBody singleChars
    split
    · rw [encode_cons, ih]
    · rw [encode_append, encode_append, ih]
      congr 2
      · split
        · exact pad_eq_encode indent
        · rfl
      · split
        · rfl
        · rw [encode_cons]
          simp [Utf8.encode]

/-- A break that may stand unescaped reads as itself. -/
theorem break_text_printable {c : Char} (printable : Written.isPrintable c = true)
    (broken : isBreak c = true) : breakText c = c := by
  unfold breakText
  split
  · rfl
  · rename_i other
    simp only [Bool.or_eq_true, decide_eq_true_eq, not_or] at other
    simp only [isBreak, Bool.or_eq_true, decide_eq_true_eq, other, or_false] at broken
    rcases broken with (feed | carriage) | next
    · exact feed.symm
    · subst carriage
      exact absurd printable (by decide)
    · simp [Written.isPrintable, next] at printable

/-- What makes a text fit to stand between single quotes. Its breaks are separators, which stand
for themselves, and no space touches them. -/
structure SingleText (cs : List Char) : Prop where
  printed : ∀ c ∈ cs, Written.isPrintable c = true ∧ c ≠ '\n'
  breakSpace : Written.followed isBreak (· = ' ') cs = false
  spaceBreak : Written.followed (· = ' ') isBreak cs = false

theorem SingleText.tail {c : Char} {cs : List Char} (h : SingleText (c :: cs)) :
    SingleText cs := by
  obtain ⟨printed, breakSpace, spaceBreak⟩ := h
  refine ⟨fun d hd => printed d (by simp [hd]), ?_, ?_⟩
  · cases cs with
    | nil => rfl
    | cons d cs =>
      simp only [Written.followed, Bool.or_eq_false_iff] at breakSpace
      exact breakSpace.2
  · cases cs with
    | nil => rfl
    | cons d cs =>
      simp only [Written.followed, Bool.or_eq_false_iff] at spaceBreak
      exact spaceBreak.2

theorem not_followed {p q : Char → Bool} {c : Char} {cs : List Char}
    (h : Written.followed p q (c :: cs) = false) (hc : p c = true) :
    ∀ d ∈ cs.head?, q d = false := by
  cases cs with
  | nil => simp
  | cons d cs =>
    simp only [Written.followed, hc, Bool.true_and, Bool.or_eq_false_iff] at h
    simpa using h.1

/-- The gaps that occur between single quotes, with whether a line has just begun and with what
may come next. -/
inductive SingleGap : Gap → Bool → List Char → Prop
  | blanks (bs cs : List Char) (next : bs ≠ [] → ∀ c ∈ cs.head?, isBreak c = false) :
      SingleGap (.ofBlanks bs) false cs
  | lines (b : Char) (more cs : List Char) (other : b ≠ '\n')
      (next : ∀ c ∈ cs.head?, c ≠ ' ') : SingleGap (.lines [b] more) true cs

theorem join_lines {b : Char} (h : b ≠ '\n') (more text : List Char) :
    (Gap.lines [b] more).join text = more ++ b :: text := by
  rw [Gap.join]
  · simp
  · simp [h]
  · simpa using h

/-- One character between single quotes, unless it is a carriage return or a doubled quote. -/
theorem read_single_cons {text : List Char} {gap : Gap} {m : Mark} {c : Char} {rest : List Char}
    (h : c ≠ '\r') (quote : c = '\'' → rest.head? ≠ some '\'') :
    readSingle text gap m (c :: rest) =
      if isBlank c then readSingle text (gap.blank c) (m.skip 1) rest
      else if isBreak c then readSingle text (gap.lineBreak c) (m.newline 1) rest
      else if m.column = 0 && atDocumentMark (c :: rest) then none
      else if c = '\'' then some ⟨(gap.join text).reverse, .none, m.skip 1, rest⟩
      else readSingle (c :: gap.join text) .none (m.skip 1) rest := by
  rw [readSingle]
  · intro _ e
    exact absurd e h
  · rintro _ e rfl
    exact quote e rfl

theorem read_single_indentation {text first more : List Char} {n : Nat} {r : List Char}
    {m : Mark} :
    readSingle text (.lines first more) m (List.replicate n ' ' ++ r) =
      readSingle text (.lines first more) (m.skip n) r := by
  induction n generalizing m with
  | zero => rfl
  | succ n ih =>
    rw [List.replicate_succ, List.cons_append, read_single_cons (by decide) (by simp),
      if_pos (by decide), Gap.blank, ih, Mark.skip_skip, Nat.add_comm]

theorem past_single_char (m : Mark) {c : Char} (noBreak : isBreak c = false) :
    0 < (m.past (if c = '\'' then ['\'', '\''] else [c])).column := by
  have line : ∀ d ∈ (if c = '\'' then ['\'', '\''] else [c]), isBreak d = false := by
    intro d hd
    split at hd
    · obtain rfl : d = '\'' := by simpa using hd
      decide
    · obtain rfl : d = c := by simpa using hd
      exact noBreak
  rw [Mark.past_line m line]
  split <;> simp

/-- A character that is neither blank nor a break, with its quote doubled where it is one. -/
theorem read_single_char {text : List Char} {gap : Gap} {m : Mark} {c : Char} (rest : List Char)
    (blank : isBlank c = false) (noBreak : isBreak c = false) (column : 0 < m.column) :
    readSingle text gap m ((if c = '\'' then ['\'', '\''] else [c]) ++ rest) =
      readSingle (c :: gap.join text) .none
        (m.past (if c = '\'' then ['\'', '\''] else [c])) rest := by
  by_cases quote : c = '\''
  · subst quote
    simp [readSingle, Mark.past, noBreak, Mark.skip_skip]
  · have notZero : m.column ≠ 0 := by omega
    rw [if_neg quote, List.singleton_append, read_single_cons (not_return noBreak)
      (fun e => absurd e quote), if_neg (by simp [blank]), if_neg (by simp [noBreak]),
      if_neg (by simp [notZero]), if_neg quote]
    simp [Mark.past, noBreak]

theorem not_blank_of_break {c : Char} (h : isBreak c = true) : isBlank c = false := by
  cases e : isBlank c with
  | false => rfl
  | true => rcases (is_blank_iff c).mp e with rfl | rfl <;> simp [isBreak] at h

theorem not_blank_of_ne {c : Char} (space : c ≠ ' ') (tab : c ≠ '\t') : isBlank c = false := by
  simp [isBlank, space, tab]

/-- A break lengthens the gap, whatever it was. -/
theorem single_gap_break {gap : Gap} {fresh : Bool} {c : Char} {cs : List Char}
    (state : SingleGap gap fresh (c :: cs)) (broken : isBreak c = true) (same : breakText c = c)
    (feed : c ≠ '\n') (next : ∀ d ∈ cs.head?, d ≠ ' ') :
    SingleGap (gap.lineBreak c) true cs ∧
      ∀ text, (gap.lineBreak c).join text = c :: gap.join text := by
  cases state with
  | blanks bs _ inside =>
    obtain rfl : bs = [] := by
      cases bs with
      | nil => rfl
      | cons b bs => simp [inside (by simp) c rfl] at broken
    refine ⟨?_, fun text => ?_⟩
    · rw [Gap.ofBlanks, Gap.lineBreak, same]
      · exact .lines c [] cs feed next
      · simp
    · rw [Gap.ofBlanks, Gap.lineBreak, same]
      · exact join_lines feed [] text
      · simp
  | lines b more _ other _ =>
    rw [Gap.lineBreak, same]
    refine ⟨.lines b (c :: more) cs other next, fun text => ?_⟩
    rw [join_lines other, join_lines other, List.cons_append]

/-- A text between single quotes is read up to the closing quote. -/
theorem read_single_body {indent : Nat} {cs text rest : List Char} {gap : Gap} {fresh : Bool}
    {m : Mark} (h : SingleText cs) (state : SingleGap gap fresh cs) (indented : 0 < indent)
    (column : fresh = false → 0 < m.column) (after : rest.head? ≠ some '\'') :
    readSingle text gap m (singleChars indent fresh cs ++ '\'' :: rest) =
      some ⟨(gap.join text).reverse ++ cs, .none,
        (m.past (singleChars indent fresh cs)).skip 1, rest⟩ := by
  induction cs generalizing text gap fresh m with
  | nil =>
    rw [singleChars, List.nil_append, read_single_cons (by decide) (fun _ => after),
      if_neg (by decide), if_neg (by decide), if_neg (by simp [atDocumentMark]), if_pos rfl]
    simp
  | cons c cs ih =>
    obtain ⟨printable, feed⟩ := h.printed c (by simp)
    have noTab := not_tab_of_printable printable
    by_cases broken : isBreak c = true
    · have same := break_text_printable printable broken
      have noReturn : c ≠ '\r' := by
        rintro rfl
        simp [breakText] at same
      have noQuote : c ≠ '\'' := by
        rintro rfl
        simp [isBreak] at broken
      have next : ∀ d ∈ cs.head?, d ≠ ' ' := fun d hd => by
        simpa using not_followed h.breakSpace broken d hd
      obtain ⟨state', joined⟩ := single_gap_break state broken same feed next
      have tail := @ih text _ true (m.newline 1) h.tail state' (by simp)
      rw [singleChars, if_pos broken, List.cons_append, read_single_cons noReturn
        (fun e => absurd e noQuote), if_neg (by simp [not_blank_of_break broken]), if_pos broken,
        tail, joined, Mark.past, if_pos broken]
      simp
    · have noBreak : isBreak c = false := by simpa using broken
      rw [singleChars, if_neg broken, List.append_assoc, List.append_assoc]
      cases state with
      | blanks bs _ inside =>
        have positive := column rfl
        by_cases space : c = ' '
        · subst space
          have next : ' ' :: bs ≠ [] → ∀ d ∈ cs.head?, isBreak d = false := fun _ d hd =>
            not_followed h.spaceBreak (by decide) d hd
          have tail := @ih text _ false (m.skip 1) h.tail (.blanks (' ' :: bs) cs next)
            (by simp)
          simp only [Bool.false_and, Bool.false_eq_true, if_false, List.nil_append,
            if_neg (show ' ' ≠ '\'' by decide), List.singleton_append]
          rw [read_single_cons (by decide) (by simp), if_pos (by decide), blank_of_blanks, tail]
          simp [Mark.past, noBreak]
        · have tail := @ih (c :: (Gap.ofBlanks bs).join text) .none false
            (m.past (if c = '\'' then ['\'', '\''] else [c])) h.tail
            (.blanks [] cs (absurd rfl)) (fun _ => past_single_char m noBreak)
          simp only [Bool.false_and, Bool.false_eq_true, if_false, List.nil_append]
          rw [read_single_char _ (not_blank_of_ne space noTab) noBreak positive, tail,
            Mark.past_append]
          simp [Gap.join]
      | lines b more _ other next =>
        have space : c ≠ ' ' := next c rfl
        have deep : 0 < (m.skip indent).column := by
          simp only [Mark.skip_column]
          omega
        have tail := @ih (c :: (Gap.lines [b] more).join text) .none false
          ((m.skip indent).past (if c = '\'' then ['\'', '\''] else [c])) h.tail
          (.blanks [] cs (absurd rfl)) (fun _ => past_single_char _ noBreak)
        simp only [space, Bool.true_and, bne_iff_ne, ne_eq, not_false_eq_true, if_true,
          decide_false]
        rw [read_single_indentation, read_single_char _ (not_blank_of_ne space noTab) noBreak deep,
          tail, Mark.past_append, Mark.past_append]
        simp [Gap.join, Mark.past_spaces]

/-! ## Double quotes -/

/-- The characters of ASCII bytes. -/
def asciiChars (s : Bytes) : List Char := s.map fun b => Char.ofNat b.toNat

/-- The characters that stand for one between double quotes. -/
def doubleChars (c : Char) : List Char :=
  if !Written.isPrintable c || isBreak c || c = '"' || c = '\\' then
    '\\' :: asciiChars (Written.escape c)
  else [c]

theorem hex_value_upper {d : Nat} (h : d < 16) :
    hexValue? (Char.ofNat (Written.upperHex d).toNat) = some d := by
  revert d
  decide

theorem fold_hex_digits (k n a : Nat) :
    (asciiChars (Written.hexDigits k n)).foldlM
        (fun n c => (hexValue? c).map (16 * n + ·)) a = some (16 ^ k * a + n % 16 ^ k) := by
  induction k generalizing n a with
  | zero => simp [Written.hexDigits, asciiChars, Nat.mod_one]
  | succ k ih =>
    have digit := hex_value_upper (Nat.mod_lt n (by decide : 0 < 16))
    have split := Nat.mod_mul (x := n) (a := 16) (b := 16 ^ k)
    simp only [Written.hexDigits, asciiChars, List.map_append, List.foldlM_append] at ih ⊢
    rw [ih, Option.bind_eq_bind, Option.bind_some, List.map_singleton, List.foldlM_cons, digit,
      Nat.pow_succ', split]
    simp only [List.foldlM_nil, Option.map_some, Option.bind_eq_bind, Option.bind_some,
      Option.pure_def, Option.some.injEq]
    ring

theorem char_of_hex_digits {k : Nat} (c : Char) (h : c.toNat < 16 ^ k) :
    charOfHex? (asciiChars (Written.hexDigits k c.toNat)) = some c := by
  have valid : c.toNat.isValidChar := c.valid
  rw [charOfHex?, fold_hex_digits, Nat.mul_zero, Nat.zero_add, Nat.mod_eq_of_lt h]
  simp [valid]

/-- A byte that stands for a character that may be seen. -/
def Visible (b : UInt8) : Prop := 0x20 ≤ b.toNat ∧ b.toNat ≤ 0x7E

instance (b : UInt8) : Decidable (Visible b) :=
  inferInstanceAs (Decidable (0x20 ≤ b.toNat ∧ b.toNat ≤ 0x7E))

/-- Whether a letter after a backslash stands for a character by itself. -/
def isEscapeLetter (c : Char) (b : UInt8) : Bool :=
  let e := Char.ofNat b.toNat
  escapeChar? e = some c && !isBreak e && e != 'x' && e != 'u' && e != 'U' && Visible b

/-- What an escape can be: one letter, or two, four or eight digits of the character's number. -/
def IsEscape (c : Char) (e : Bytes) : Prop :=
  (∃ b, e = [b] ∧ isEscapeLetter c b = true) ∨
    (e = 0x78 :: Written.hexDigits 2 c.toNat ∧ c.toNat < 16 ^ 2) ∨
    (e = 0x75 :: Written.hexDigits 4 c.toNat ∧ c.toNat < 16 ^ 4) ∨
    (e = 0x55 :: Written.hexDigits 8 c.toNat ∧ c.toNat < 16 ^ 8)

theorem is_escape_letter {c : Char} {n : Nat} {b : UInt8} (e : c.toNat = n)
    (h : isEscapeLetter (Char.ofNat n) b = true) : IsEscape c [b] := by
  rw [← e, Char.ofNat_toNat] at h
  exact Or.inl ⟨b, rfl, h⟩

theorem is_escape_ite {c : Char} {p : Prop} [Decidable p] {a b : Bytes} (h : p → IsEscape c a)
    (h' : ¬ p → IsEscape c b) : IsEscape c (if p then a else b) := by
  split
  · exact h (by assumption)
  · exact h' (by assumption)

theorem is_escape_escape (c : Char) : IsEscape c (Written.escape c) := by
  have bound := Utf8.char_bound c
  unfold Written.escape
  -- The fourteen characters that have a letter of their own, and then the rest by size.
  iterate 14 refine is_escape_ite (fun h => is_escape_letter h (by decide)) fun _ => ?_
  refine is_escape_ite (fun h => Or.inr (Or.inl ⟨rfl, by omega⟩)) fun _ => ?_
  refine is_escape_ite (fun h => Or.inr (Or.inr (Or.inl ⟨rfl, by omega⟩))) fun _ => ?_
  exact Or.inr (Or.inr (Or.inr ⟨rfl, by omega⟩))

/-- An escaped character is read as that character. -/
theorem read_double_escape {text rest : List Char} {gap : Gap} {m : Mark} (c : Char) :
    readDouble text gap m ('\\' :: (asciiChars (Written.escape c) ++ rest)) =
      readDouble (c :: gap.join text) .none
        (m.skip (1 + (asciiChars (Written.escape c)).length)) rest := by
  rcases is_escape_escape c with ⟨b, escaped, letter⟩ | ⟨escaped, small⟩ | ⟨escaped, small⟩ |
    ⟨escaped, small⟩
  · simp only [isEscapeLetter, Bool.and_eq_true, decide_eq_true_eq, bne_iff_ne, ne_eq,
      Bool.not_eq_true'] at letter
    obtain ⟨⟨⟨⟨⟨value, noBreak⟩, x⟩, u⟩, U⟩, _⟩ := letter
    rw [escaped]
    simp only [asciiChars, List.map_cons, List.map_nil, List.singleton_append]
    rw [readDouble]
    · simp [noBreak, value]
    · intro _ e
      exact absurd e (not_return noBreak)
    · intro _ _ _ e
      exact absurd e x
    · intro _ _ _ _ _ e
      exact absurd e u
    · intro _ _ _ _ _ _ _ _ _ e
      exact absurd e U
  · have digits := char_of_hex_digits c small
    rw [escaped]
    simp only [asciiChars, Written.hexDigits, List.nil_append, List.cons_append, List.map_cons,
      List.map_nil] at digits ⊢
    rw [show Char.ofNat (0x78 : UInt8).toNat = 'x' from rfl, readDouble, digits]
    rfl
  · have digits := char_of_hex_digits c small
    rw [escaped]
    simp only [asciiChars, Written.hexDigits, List.nil_append, List.cons_append, List.map_cons,
      List.map_nil] at digits ⊢
    rw [show Char.ofNat (0x75 : UInt8).toNat = 'u' from rfl, readDouble, digits]
    rfl
  · have digits := char_of_hex_digits c small
    rw [escaped]
    simp only [asciiChars, Written.hexDigits, List.nil_append, List.cons_append, List.map_cons,
      List.map_nil] at digits ⊢
    rw [show Char.ofNat (0x55 : UInt8).toNat = 'U' from rfl, readDouble, digits]
    rfl

/-- One character between double quotes that is not escaped. -/
theorem read_double_cons {text rest : List Char} {gap : Gap} {m : Mark} {c : Char}
    (noReturn : c ≠ '\r') (noEscape : c ≠ '\\') :
    readDouble text gap m (c :: rest) =
      if isBlank c then readDouble text (gap.blank c) (m.skip 1) rest
      else if isBreak c then readDouble text (gap.lineBreak c) (m.newline 1) rest
      else if m.column = 0 && atDocumentMark (c :: rest) then none
      else if c = '"' then some ⟨(gap.join text).reverse, .none, m.skip 1, rest⟩
      else readDouble (c :: gap.join text) .none (m.skip 1) rest := by
  rw [readDouble]
  · simp [noEscape]
  all_goals
    intros
    contradiction

/-- A character between double quotes goes to the text, or to the gap where it is a space. -/
theorem read_double_char {text bs : List Char} {m : Mark} (c : Char) (rest : List Char)
    (column : 0 < m.column) :
    ∃ text' bs', readDouble text (.ofBlanks bs) m (doubleChars c ++ rest) =
        readDouble text' (.ofBlanks bs') (m.skip (doubleChars c).length) rest ∧
      bs' ++ text' = c :: (bs ++ text) := by
  unfold doubleChars
  split
  · refine ⟨c :: (bs ++ text), [], ?_, rfl⟩
    rw [List.cons_append, read_double_escape, join_of_blanks, List.length_cons, Nat.add_comm]
    rfl
  · rename_i h
    simp only [Bool.or_eq_true, Bool.not_eq_true', decide_eq_true_eq, not_or,
      Bool.not_eq_false, Bool.not_eq_true] at h
    obtain ⟨⟨⟨printable, noBreak⟩, noQuote⟩, noEscape⟩ := h
    have notZero : m.column ≠ 0 := by omega
    rw [List.singleton_append, read_double_cons (not_return noBreak) noEscape]
    by_cases space : isBlank c = true
    · exact ⟨text, c :: bs, by rw [if_pos space, blank_of_blanks]; rfl, rfl⟩
    · refine ⟨c :: (bs ++ text), [], ?_, rfl⟩
      rw [if_neg space, if_neg (by simp [noBreak]), if_neg (by simp [notZero]), if_neg noQuote,
        join_of_blanks]
      rfl

/-- A text between double quotes is read up to the closing quote. -/
theorem read_double_body {cs text bs rest : List Char} {m : Mark} (column : 0 < m.column) :
    readDouble text (.ofBlanks bs) m (cs.flatMap doubleChars ++ '"' :: rest) =
      some ⟨(bs ++ text).reverse ++ cs, .none,
        (m.skip (cs.flatMap doubleChars).length).skip 1, rest⟩ := by
  induction cs generalizing text bs m with
  | nil =>
    rw [List.flatMap_nil, List.nil_append, read_double_cons (by decide) (by decide),
      if_neg (by decide), if_neg (by decide), if_neg (by simp [atDocumentMark]), if_pos rfl,
      join_of_blanks]
    simp [Mark.skip]
  | cons c cs ih =>
    obtain ⟨text', bs', step, joined⟩ := @read_double_char text bs m c
      (cs.flatMap doubleChars ++ '"' :: rest) column
    have column' : 0 < (m.skip (doubleChars c).length).column := by
      simp only [Mark.skip_column]
      omega
    rw [List.flatMap_cons, List.append_assoc, step, ih column', joined]
    simp [Mark.skip_skip, Nat.add_assoc]

theorem encode_char_visible {b : UInt8} (h : b.toNat < 0x80) :
    String.utf8EncodeChar (Char.ofNat b.toNat) = [b] := by
  rw [Utf8.encode_char_of_nat (by omega), if_pos (by omega), Utf8.byte_eq_of_nat rfl]

theorem encode_ascii_chars {s : Bytes} (h : ∀ b ∈ s, b.toNat < 0x80) :
    Utf8.encode (asciiChars s) = s := by
  induction s with
  | nil => rfl
  | cons b s ih =>
    rw [asciiChars, List.map_cons, encode_cons, encode_char_visible (h b (by simp))]
    exact congrArg (b :: ·) (ih fun c hc => h c (by simp [hc]))

theorem upper_hex_visible {d : Nat} (h : d < 16) : Visible (Written.upperHex d) := by
  revert d
  decide

theorem hex_digits_visible (k n : Nat) : ∀ b ∈ Written.hexDigits k n, Visible b := by
  induction k generalizing n with
  | zero => simp [Written.hexDigits]
  | succ k ih =>
    intro b hb
    rcases List.mem_append.mp hb with inner | last
    · exact ih (n / 16) b inner
    · obtain rfl := List.mem_singleton.mp last
      exact upper_hex_visible (Nat.mod_lt _ (by decide))

theorem escape_visible (c : Char) : ∀ b ∈ Written.escape c, Visible b := by
  rcases is_escape_escape c with ⟨b, escaped, letter⟩ | ⟨escaped, _⟩ | ⟨escaped, _⟩ | ⟨escaped, _⟩
  · simp only [isEscapeLetter, Bool.and_eq_true, decide_eq_true_eq] at letter
    rw [escaped]
    simpa using letter.2
  all_goals
    rw [escaped]
    intro b hb
    rcases List.mem_cons.mp hb with rfl | digit
    · decide
    · exact hex_digits_visible _ _ b digit

theorem double_char_eq_encode (c : Char) :
    Written.doubleChar c = Utf8.encode (doubleChars c) := by
  have ascii : ∀ b ∈ Written.escape c, b.toNat < 0x80 := fun b hb => by
    have := (escape_visible c b hb).2
    omega
  unfold Written.doubleChar doubleChars
  split
  · rw [encode_cons, encode_ascii_chars ascii]
    rfl
  · simp [Utf8.encode]

theorem double_body_eq_encode (cs : List Char) :
    cs.flatMap Written.doubleChar = Utf8.encode (cs.flatMap doubleChars) := by
  induction cs with
  | nil => rfl
  | cons c cs ih =>
    rw [List.flatMap_cons, List.flatMap_cons, encode_append, ih, double_char_eq_encode]

end Overworld.Yaml
