import Overworld.Proofs.Yaml.Scalar

/-!
# Splitting a written document into tokens

Splitting is followed step by step over the text of a written document. Two states count as one
where the next step from them is the same: before a token it passes over what lies between, and
closes the blocks that are indented deeper.
-/

set_option autoImplicit false

namespace Overworld.Yaml.Scanner

/-- A state outside brackets, with its tokens in their order. -/
def line (ts : List Token) (i : Int) (o : List Int) (allowed : Bool) (k : Option PendingKey)
    (m : Mark) (r : List Char) : Scanner :=
  ⟨r, m, ts.reverse, ts.length, i, o, allowed, [k]⟩

/-- Splitting goes from one state to another, with less of the text left after each token. -/
inductive Reaches : Scanner → Scanner → Prop
  | refl (s : Scanner) : Reaches s s
  | same {s t u : Scanner} (h : s.step = t.step) (le : t.rest.length ≤ s.rest.length) :
      Reaches t u → Reaches s u
  | more {s t u : Scanner} (h : s.step = some (.more t)) (lt : t.rest.length < s.rest.length) :
      Reaches t u → Reaches s u

namespace Reaches

theorem trans {s t u : Scanner} (first : Reaches s t) (second : Reaches t u) : Reaches s u := by
  induction first with
  | refl => exact second
  | same h le _ ih => exact .same h le (ih second)
  | more h lt _ ih => exact .more h lt (ih second)

theorem moves {s t : Scanner} (h : Reaches s t) (last : t.step ≠ none) : s.step ≠ none := by
  induction h with
  | refl => exact last
  | same h _ _ ih => exact h ▸ ih last
  | more h => simp [h]

/-- With fuel for the text that is left, running goes on from any state that is reached. -/
theorem run_from {s t : Scanner} (h : Reaches s t) (last : t.step ≠ none) {fuel : Nat}
    (enough : s.rest.length < fuel) :
    ∃ left, t.rest.length < left ∧ run fuel s = run left t := by
  induction h generalizing fuel with
  | refl s => exact ⟨fuel, enough, rfl⟩
  | @same s t _ h le rest ih =>
    obtain ⟨left, enough', same⟩ := ih last (Nat.lt_of_le_of_lt le enough)
    refine ⟨left, enough', ?_⟩
    obtain ⟨fuel, rfl⟩ : ∃ n, fuel = n + 1 := ⟨fuel - 1, by omega⟩
    rw [← same, run, run, h]
    -- A state that cannot go on would be given back itself.
    cases e : t.step with
    | none => exact absurd e (rest.moves last)
    | some p => cases p <;> rfl
  | @more s t _ h lt _ ih =>
    obtain ⟨fuel, rfl⟩ : ∃ n, fuel = n + 1 := ⟨fuel - 1, by omega⟩
    rw [run, h]
    exact ih last (by omega)

theorem run_ended {s t u : Scanner} (h : Reaches s t) (ended : t.step = some (.ended u))
    {fuel : Nat} (enough : s.rest.length < fuel) : run fuel s = (u, true) := by
  obtain ⟨left, enough', same⟩ := h.run_from (by simp [ended]) enough
  obtain ⟨left, rfl⟩ : ∃ n, left = n + 1 := ⟨left - 1, by omega⟩
  rw [same, run, ended]

end Reaches

/-- Splitting goes to a state, and the last step there reads a token. -/
def Arrives (s t : Scanner) : Prop :=
  ∃ u, Reaches s u ∧ u.step = some (.more t) ∧ t.rest.length < u.rest.length

namespace Arrives

theorem reaches {s t : Scanner} (h : Arrives s t) : Reaches s t := by
  obtain ⟨u, reaches, step, less⟩ := h
  exact reaches.trans (.more step less (.refl t))

theorem after {s t u : Scanner} (h : Arrives t u) (first : Reaches s t) : Arrives s u := by
  obtain ⟨v, reaches, last⟩ := h
  exact ⟨v, first.trans reaches, last⟩

/-- Running stops where the text cannot be split further. -/
theorem run_stuck {s t : Scanner} (h : Arrives s t) (stuck : t.step = none) {fuel : Nat}
    (enough : s.rest.length < fuel) : run fuel s = (t, false) := by
  obtain ⟨u, reaches, step, less⟩ := h
  obtain ⟨left, enough', same⟩ := reaches.run_from (by simp [step]) enough
  obtain ⟨left, rfl⟩ : ∃ n, left = n + 2 := ⟨left - 2, by omega⟩
  rw [same, run, step]
  show run (left + 1) t = (t, false)
  rw [run, stuck]

end Arrives

/-! ## Between tokens -/

section
variable {ts : List Token} {i : Int} {o : List Int} {allowed : Bool} {k : Option PendingKey}

theorem skip_gap_solid {flow ahead : Bool} {m : Mark} {r : List Char} (h : SolidHead r) :
    skipGap flow false ahead allowed m r = (allowed, m, r) := by
  cases r with
  | nil => rfl
  | cons c r =>
    obtain ⟨blank, noBreak, hash, mark⟩ := h c rfl
    have noSpace : c ≠ ' ' ∧ c ≠ '\t' := by
      simpa [isBlank] using blank
    rw [skipGap]
    · simp [noBreak, hash, mark, noSpace.1, noSpace.2]
    · intro _ e
      exact absurd e (not_return noBreak)

theorem skip_gap_spaces {flow ahead : Bool} {m : Mark} (n : Nat) (r : List Char) :
    skipGap flow false ahead allowed m (List.replicate n ' ' ++ r) =
      skipGap flow false ahead allowed (m.skip n) r := by
  induction n generalizing m with
  | zero => rfl
  | succ n ih =>
    rw [List.replicate_succ, List.cons_append, skipGap]
    · simp only [show isBreak ' ' = false from rfl]
      simp [ih, Mark.skip_skip, Nat.add_comm]
    · simp

theorem skip_gap_newline {flow ahead : Bool} {m : Mark} (r : List Char) :
    skipGap flow false ahead allowed m ('\n' :: r) =
      skipGap flow false ahead (allowed || !flow) (m.newline 1) r := by
  rw [skipGap]
  · simp [isBreak]
  · simp

theorem step_solid {m : Mark} {r : List Char} (solid : SolidHead r) :
    (line ts i o allowed k m r).step =
      ((line ts i o allowed k m r).unroll m.column).dispatch := by
  simp only [step, line, skip_gap_solid solid]

/-- What lies between tokens is passed over. -/
theorem step_gap {m m' : Mark} {allowed' : Bool} {r r' : List Char}
    (h : skipGap false false false allowed m r = (allowed', m', r')) (solid : SolidHead r') :
    (line ts i o allowed k m r).step = (line ts i o allowed' k m' r').step := by
  rw [step_solid solid]
  simp only [step, line, inFlow, List.length_singleton, Nat.lt_irrefl, decide_false, h]

/-- At a new line a key may begin. -/
theorem step_newline {m : Mark} (n : Nat) {r : List Char} (solid : SolidHead r) :
    (line ts i o allowed k m ('\n' :: (List.replicate n ' ' ++ r))).step =
      (line ts i o true k ((m.newline 1).skip n) r).step := by
  apply step_gap _ solid
  rw [skip_gap_newline, skip_gap_spaces, skip_gap_solid solid]
  simp

theorem step_spaces {m : Mark} (n : Nat) {r : List Char} (solid : SolidHead r) :
    (line ts i o allowed k m (List.replicate n ' ' ++ r)).step =
      (line ts i o allowed k (m.skip n) r).step := by
  apply step_gap _ solid
  rw [skip_gap_spaces, skip_gap_solid solid]

/-- Closing one block and then the ones that are still too deep closes them all. -/
theorem unroll_close {p : Int} {m : Mark} {r : List Char} {column : Int} (deeper : column < i) :
    (line ts i (p :: o) allowed k m r).unroll column =
      (line (ts ++ [.blockEnd]) p o allowed k m r).unroll column := by
  simp [unroll, line, inFlow, closeBlocks, if_pos deeper]

/-- A block that is indented deeper than the next token ends. -/
theorem step_close {p : Int} {m : Mark} {r : List Char} (solid : SolidHead r)
    (deeper : (m.column : Int) < i) :
    (line ts i (p :: o) allowed k m r).step =
      (line (ts ++ [.blockEnd]) p o allowed k m r).step := by
  rw [step_solid solid, step_solid solid, unroll_close deeper]

/-- A block that is not indented deeper stays open. -/
theorem unroll_stays {m : Mark} {r : List Char} {column : Int} (within : i ≤ column) :
    (line ts i o allowed k m r).unroll column = line ts i o allowed k m r := by
  have notDeeper : ¬ column < i := by omega
  cases o <;> simp [unroll, line, inFlow, closeBlocks, notDeeper]

/-- Where neither a directive nor a document mark stands, a token is read. -/
theorem step_token {m : Mark} {c : Char} {r : List Char} (solid : Solid c) (within : i ≤ m.column)
    (inside : m.column = 0 → c ≠ '%' ∧ atDocumentMark (c :: r) = false) :
    (line ts i o allowed k m (c :: r)).step =
      ((line ts i o allowed k m (c :: r)).token c r).map .more := by
  have head : SolidHead (c :: r) := by
    rintro _ ⟨⟩
    exact solid
  have noDirective : ¬ (decide (m.column = 0) && decide (c = '%')) = true := by
    simp only [Bool.and_eq_true, decide_eq_true_eq, not_and]
    exact fun zero => (inside zero).1
  have noMark : ¬ (decide (m.column = 0) && atDocumentMark (c :: r)) = true := by
    simp only [Bool.and_eq_true, decide_eq_true_eq, not_and, Bool.not_eq_true]
    exact fun zero => (inside zero).2
  rw [step_solid head, unroll_stays within]
  refine (if_neg noDirective).trans ((if_neg noMark).trans ?_)
  cases (line ts i o allowed k m (c :: r)).token c r <;> rfl

/-! ## Scalars -/

theorem skip_comment_stays {s : Scanner} {n : Nat} {r : List Char}
    (h : s.rest = List.replicate n ' ' ++ r)
    (other : ∀ c ∈ r.head?, isBlank c = false ∧ c ≠ '#') : s.skipComment = s := by
  have blanks : s.rest.takeWhile isBlank = List.replicate n ' ' := by
    rw [h, List.takeWhile_append_of_pos (by
      intro c hc
      rw [List.eq_of_mem_replicate hc]
      decide)]
    cases r with
    | nil => simp
    | cons c r => simp [(other c rfl).1]
  rw [skipComment, blanks, h]
  cases r with
  | nil => simp
  | cons c r =>
    have rest : (List.replicate n ' ' ++ c :: r).drop (List.replicate n ' ').length = c :: r := by
      simp
    rw [rest]
    split
    · rename_i e
      exact absurd (List.cons.inj e).1 (other c rfl).2
    · rfl

/-- The key that a scalar leaves pending, where one may begin. -/
def pendingAt (ts : List Token) (i : Int) (m : Mark) : PendingKey :=
  ⟨i = (m.column : Int), ts.length, m⟩

theorem remember_key_allowed {m : Mark} {r : List Char} :
    (line ts i o true none m r).rememberKey =
      some (line ts i o true (some (pendingAt ts i m)) m r) := by
  simp [rememberKey, dropKey, key?, setKey, line, inFlow, pendingAt]
  rfl

theorem remember_key_not_allowed {m : Mark} {r : List Char} :
    (line ts i o false k m r).rememberKey = some (line ts i o false k m r) := by
  simp [rememberKey, line]

theorem after_scalar_line {m : Mark} {r : List Char} (style : Style) (read : ReadScalar)
    (allowed' : Bool) :
    (line ts i o allowed k m r).afterScalar style read allowed' =
      line (ts ++ [.scalar read.text style]) i o allowed' k read.mark read.rest := by
  simp [afterScalar, emit, line]

/-- A character that begins no other token than a plain scalar. -/
def BeginsWord (c : Char) (rest : List Char) : Prop :=
  Solid c ∧ c ∉ "#,[]\x7b\x7d&*!|>'\"%@`".toList ∧
    (c = '-' ∨ c = '?' ∨ c = ':' → atGap rest = false)

theorem begins_plain {c : Char} {rest : List Char} {flow : Bool} (h : BeginsWord c rest)
    (inner : flow = true → c ≠ '?' ∧ c ≠ ':') : beginsPlain flow c rest = true := by
  obtain ⟨⟨blank, _⟩, other, mark⟩ := h
  have unmarked : c ≠ '-' → c ≠ '?' → c ≠ ':' →
      "-?:,[]\x7b\x7d#&*!|>'\"%@`".toList.contains c = false := by
    intro dash question colon
    simp_all
  unfold beginsPlain
  by_cases dash : c = '-'
  · subst dash
    have noGap := mark (Or.inl rfl)
    cases rest with
    | nil => simp [atGap] at noGap
    | cons d rest =>
      simp only [atGap, Bool.or_eq_false_iff] at noGap
      simp [noGap.1]
  · by_cases special : c = '?' ∨ c = ':'
    · have noGap := mark (Or.inr special)
      have outside : flow = false := by
        cases flow with
        | false => rfl
        | true =>
          obtain ⟨question, colon⟩ := inner rfl
          exact absurd special (by simp [question, colon])
      rcases special with rfl | rfl <;> simp [noGap, outside]
    · obtain ⟨question, colon⟩ := not_or.mp special
      have indicator := unmarked dash question colon
      simp only [indicator, blank, Bool.not_false, Bool.and_self, Bool.true_or]

/-- A plain scalar is read where one begins. -/
theorem token_plain {s s' : Scanner} {c : Char} {rest : List Char} {r : ReadScalar}
    (h : BeginsWord c rest) (inner : s.inFlow = true → c ≠ '?' ∧ c ≠ ':')
    (remember : s.rememberKey = some s')
    (read : readPlain s.inFlow (s'.indent + 1) [] .none s'.mark s'.rest = some r) :
    s.token c rest =
      some (if r.gap.isLines then s'.afterScalar .plain r true
        else (s'.afterScalar .plain r false).skipComment) := by
  have begins := begins_plain h inner
  obtain ⟨_, other, mark⟩ := h
  have dash : (decide (c = '-') && atGap rest) = false := by
    by_cases e : c = '-'
    · simp [mark (Or.inl e)]
    · simp [e]
  have noMark : ∀ d, d = '?' ∨ d = ':' →
      (decide (c = d) && (s.inFlow || atGap rest)) = false := by
    intro d hd
    by_cases e : c = d
    · subst e
      have outside : s.inFlow = false := by
        cases flow : s.inFlow with
        | false => rfl
        | true =>
          obtain ⟨question, colon⟩ := inner flow
          exact absurd hd (by simp [question, colon])
      simp [mark (Or.inr hd), outside]
    · simp [e]
  have marks : c ≠ '[' ∧ c ≠ '\x7b' ∧ c ≠ ']' ∧ c ≠ '\x7d' ∧ c ≠ ',' ∧ c ≠ '*' ∧ c ≠ '&' ∧ c ≠ '!' ∧
      c ≠ '|' ∧ c ≠ '>' ∧ c ≠ '\'' ∧ c ≠ '"' := by
    refine ⟨?_, ?_, ?_, ?_, ?_, ?_, ?_, ?_, ?_, ?_, ?_, ?_⟩
    all_goals
      rintro rfl
      exact other (by decide)
  obtain ⟨h₁, h₂, h₃, h₄, h₅, h₆, h₇, h₈, h₉, h₁₀, h₁₁, h₁₂⟩ := marks
  simp only [token, h₁, h₂, h₃, h₄, h₅, h₆, h₇, h₈, h₉, h₁₀, h₁₁, h₁₂, if_false, dash,
    noMark '?' (Or.inl rfl), noMark ':' (Or.inr rfl), begins, if_true, Bool.false_eq_true,
    decide_false, Bool.or_self, Bool.false_and, remember]
  cases e : r.gap.isLines <;> simp [read, e]

/-! ## Keys and values on one line -/

/-- How a text stands in a document: plain, in single quotes or in double quotes. -/
inductive Inline : List Char → List Char → Style → Prop
  | plain {cs : List Char} (h : PlainText cs) : Inline cs cs .plain
  | single {cs : List Char} (h : SingleText cs) (n : Nat) (indented : 0 < n) :
      Inline ('\'' :: (singleChars n false cs ++ ['\''])) cs .single
  | double (cs : List Char) : Inline ('"' :: (cs.flatMap doubleChars ++ ['"'])) cs .double

theorem begins_word_of_plain {c : Char} {cs : List Char} (h : PlainText (c :: cs))
    (rest : List Char) : BeginsWord c (cs ++ rest) := by
  have first := h.first
  obtain ⟨noBreak, printable⟩ := h.printed c (by simp)
  have noSpace : c ≠ ' ' := by simpa using h.start
  simp only [Written.indicatorFirst, Bool.or_eq_false_iff, List.contains_eq_mem,
    decide_eq_false_iff_not] at first
  obtain ⟨other, lead⟩ := first
  refine ⟨⟨not_blank_of_ne noSpace (not_tab_of_printable printable), noBreak, ?_, ?_⟩, other, ?_⟩
  · rintro rfl
    exact other (by decide)
  · rintro rfl
    exact absurd printable (by decide)
  · intro special
    cases cs with
    | nil =>
      rcases special with rfl | rfl | rfl <;> simp at lead
    | cons d cs =>
      have blank : isBlank d = false := by
        rcases special with rfl | rfl | rfl <;> simpa using lead
      have noBreak := (h.printed d (by simp)).1
      simp [atGap, blank, noBreak]

theorem not_document_mark {cs : List Char} (h : PlainText cs) (rest : List Char) :
    atDocumentMark (cs ++ ':' :: rest) = false := by
  have mark := h.mark
  match cs with
  | [] => rfl
  | [c] => simp [atDocumentMark]
  | [c, d] => simp [atDocumentMark]
  | c :: d :: e :: cs =>
    unfold Written.beginsLikeMark at mark
    unfold atDocumentMark
    split <;> simp_all

theorem token_single {s s' : Scanner} {rest : List Char} {r : ReadScalar}
    (remember : s.rememberKey = some s')
    (read : readSingle [] .none (s'.mark.skip 1) rest = some r) :
    s.token '\'' rest = some (s'.afterScalar .single r false).skipComment := by
  simp [token, remember, read]

theorem token_double {s s' : Scanner} {rest : List Char} {r : ReadScalar}
    (remember : s.rememberKey = some s')
    (read : readDouble [] .none (s'.mark.skip 1) rest = some r) :
    s.token '"' rest = some (s'.afterScalar .double r false).skipComment := by
  simp [token, remember, read]

theorem skip_comment_line {ts' : List Token} {m : Mark} {n : Nat} {r : List Char}
    (other : ∀ c ∈ r.head?, isBlank c = false ∧ c ≠ '#') :
    (line ts' i o allowed k m (List.replicate n ' ' ++ r)).skipComment =
      line ts' i o allowed k m (List.replicate n ' ' ++ r) :=
  skip_comment_stays rfl other

/-- A key on one line is read up to its colon and stays pending. -/
theorem step_inline_key {w t rest : List Char} {style : Style} {m : Mark} (h : Inline w t style)
    (row : ∀ c ∈ w, isBreak c = false) (within : i ≤ m.column) (gap : atGap rest = true) :
    (line ts i o true none m (w ++ ':' :: rest)).step =
      some (.more (line (ts ++ [.scalar t style]) i o false (some (pendingAt ts i m))
        (m.skip w.length) (':' :: rest))) := by
  have stays : ∀ ts' k' m', (line ts' i o false k' m' (':' :: rest)).skipComment =
      line ts' i o false k' m' (':' :: rest) := fun ts' k' m' =>
    @skip_comment_line i o false k' ts' m' 0 (':' :: rest) (by simp [isBlank])
  cases h with
  | plain plain =>
    obtain ⟨c, cs, rfl⟩ := List.exists_cons_of_ne_nil plain.nonempty
    have word := begins_word_of_plain plain (':' :: rest)
    have read := @read_plain_key (i + 1) (c :: cs) rest m plain (by omega) gap
    have inside : m.column = 0 → c ≠ '%' ∧ atDocumentMark (c :: (cs ++ ':' :: rest)) = false :=
      fun _ => ⟨fun e => word.2.1 (by rw [e]; decide), not_document_mark plain rest⟩
    rw [List.cons_append] at read ⊢
    rw [step_token word.1 within inside,
      token_plain word (by simp [line, inFlow]) remember_key_allowed read]
    simp only [Gap.isLines, Bool.false_eq_true, if_false, after_scalar_line, stays, Option.map_some]
  | single single n indented =>
    have row' : ∀ c ∈ singleChars n false t, isBreak c = false := fun c hc => row c (by simp [hc])
    have read := @read_single_body n t [] (':' :: rest) .none false (m.skip 1) single
      (.blanks [] t (absurd rfl)) indented (by simp) (by simp)
    have length : ('\'' :: (singleChars n false t ++ ['\''])).length =
        1 + (singleChars n false t).length + 1 := by
      simp
      omega
    rw [Mark.past_line _ row', Mark.skip_skip, Mark.skip_skip, ← Nat.add_assoc] at read
    rw [List.cons_append, List.append_assoc, List.singleton_append,
      step_token (by decide) within (by simp [atDocumentMark]),
      token_single remember_key_allowed read, length]
    simp only [after_scalar_line, stays, Option.map_some, Gap.join, List.reverse_nil,
      List.nil_append]
  | double =>
    have read := @read_double_body t [] [] (':' :: rest) (m.skip 1) (by simp)
    have length : ('"' :: (t.flatMap doubleChars ++ ['"'])).length =
        1 + (t.flatMap doubleChars).length + 1 := by
      simp only [List.length_cons, List.length_append, List.length_nil]
      omega
    rw [Mark.skip_skip, Mark.skip_skip, ← Nat.add_assoc] at read
    rw [List.cons_append, List.append_assoc, List.singleton_append,
      step_token (by decide) within (by simp [atDocumentMark]),
      token_double remember_key_allowed read, length]
    simp only [after_scalar_line, stays, Option.map_some, List.nil_append, List.reverse_nil]

/-- What stands after a colon: a gap, and then no comment. -/
def AfterColon (rest : List Char) : Prop :=
  atGap rest = true ∧
    ∃ n r, rest = List.replicate n ' ' ++ r ∧ ∀ c ∈ r.head?, isBlank c = false ∧ c ≠ '#'

theorem skip_comment_after {ts' : List Token} {m : Mark} {rest : List Char}
    (h : AfterColon rest) :
    (line ts' i o allowed k m rest).skipComment = line ts' i o allowed k m rest := by
  obtain ⟨_, n, r, rfl, other⟩ := h
  exact skip_comment_line other

theorem step_colon_eq {m : Mark} {rest : List Char} (h : AfterColon rest) (within : i ≤ m.column) :
    (line ts i o allowed k m (':' :: rest)).step =
      ((line ts i o allowed k m (':' :: rest)).colon.map skipComment).map .more := by
  rw [step_token (by decide) within (by simp [atDocumentMark])]
  generalize state : line ts i o allowed k m (':' :: rest) = s
  have colon : s.token ':' rest = s.colon.map skipComment := by
    simp only [token, h.1]
    cases s.colon <;> simp
  rw [colon]

theorem colon_pending {s : Scanner} {k : PendingKey} (key : s.key? = some k)
    (fresh : k.isStale s.mark = false) :
    s.colon =
      ((s.insertAt k.position .key).roll k.mark.column k.position .blockMappingStart).map fun s =>
        ({ s.setKey none with keyAllowed := false }.emit .value).skip 1 := by
  simp only [colon, key, fresh, Bool.false_eq_true, if_false]

theorem insert_at_line {us : List Token} {t : Token} {m : Mark} {r : List Char} :
    (line (ts ++ us) i o allowed k m r).insertAt ts.length t =
      line (ts ++ t :: us) i o allowed k m r := by
  simp [insertAt, line, Nat.add_assoc]

theorem roll_stays {t : Token} {m : Mark} {r : List Char} {column position : Nat}
    (within : ¬ i < column) :
    (line ts i o allowed k m r).roll column position t = some (line ts i o allowed k m r) := by
  simp [roll, line, inFlow, within]

theorem roll_opens {us : List Token} {t : Token} {m : Mark} {r : List Char} {column : Nat}
    (deeper : i < column) (room : o.length < maxDepth) :
    (line (ts ++ us) i o allowed k m r).roll column ts.length t =
      some (line (ts ++ t :: us) column (i :: o) allowed k m r) := by
  have shallow : ¬ maxDepth ≤ o.length := by omega
  have inserted := @insert_at_line ts i o allowed k us t m r
  simp only [line] at inserted
  simp only [roll, line, inFlow, List.length_singleton, Nat.lt_irrefl, decide_false,
    Bool.false_eq_true, if_false, if_pos deeper, if_neg shallow, inserted]

theorem emit_value {m : Mark} {rest : List Char} {allowed' : Bool} :
    ({ (line ts i o allowed k m (':' :: rest)).setKey none with keyAllowed := allowed' }.emit
        .value).skip 1 = line (ts ++ [.value]) i o allowed' none (m.skip 1) rest := by
  simp [line, setKey, emit, skip]

theorem not_stale {m : Mark} {n : Nat} (near : n ≤ 1024) :
    (pendingAt ts i m).isStale (m.skip n) = false := by
  simp only [pendingAt, PendingKey.isStale, Mark.skip]
  simp
  omega

/-- The colon after a pending key of an open mapping. -/
theorem step_colon_open {c : Token} {m : Mark} {n : Nat} {rest : List Char} (h : AfterColon rest)
    (column : i = m.column) (near : n ≤ 1024) :
    (line (ts ++ [c]) i o false (some (pendingAt ts i m)) (m.skip n) (':' :: rest)).step =
      some (.more (line (ts ++ [.key, c, .value]) i o false none (m.skip (n + 1)) rest)) := by
  have within : ¬ i < ((pendingAt ts i m).mark.column : Nat) := by
    simp [pendingAt, column]
  have position : (pendingAt ts i m).position = ts.length := rfl
  rw [step_colon_eq h (by simp; omega), colon_pending rfl (not_stale near), position,
    insert_at_line, roll_stays within]
  simp only [Option.map_some, emit_value, skip_comment_after h, Mark.skip_skip, List.append_assoc,
    List.cons_append, List.nil_append]

/-- The colon after a pending key at a deeper column, which opens a mapping. -/
theorem step_colon_deeper {c : Token} {m : Mark} {n : Nat} {rest : List Char} (h : AfterColon rest)
    (column : i < m.column) (near : n ≤ 1024) (room : o.length < maxDepth) :
    (line (ts ++ [c]) i o false (some (pendingAt ts i m)) (m.skip n) (':' :: rest)).step =
      some (.more (line (ts ++ [.blockMappingStart, .key, c, .value]) m.column (i :: o) false none
        (m.skip (n + 1)) rest)) := by
  have deeper : i < ((pendingAt ts i m).mark.column : Nat) := column
  have position : (pendingAt ts i m).position = ts.length := rfl
  rw [step_colon_eq h (by simp; omega), colon_pending rfl (not_stale near), position,
    insert_at_line, roll_opens deeper room]
  simp only [Option.map_some, emit_value, skip_comment_after h, Mark.skip_skip, List.append_assoc,
    List.cons_append, List.nil_append]
  rfl

theorem past_line_le (m : Mark) (cs : List Char) : m.line ≤ (m.past cs).line := by
  induction cs generalizing m with
  | nil => exact Nat.le_refl _
  | cons c cs ih =>
    refine Nat.le_trans ?_ (ih _)
    split <;> simp [Mark.newline, Mark.skip]

/-- What is pending after a scalar. -/
def pendingAfter (allowed : Bool) (ts : List Token) (i : Int) (m : Mark) : Option PendingKey :=
  if allowed then some (pendingAt ts i m) else none

theorem remember_key_line {m : Mark} {r : List Char} :
    (line ts i o allowed none m r).rememberKey =
      some (line ts i o allowed (pendingAfter allowed ts i m) m r) := by
  cases allowed with
  | false => exact remember_key_not_allowed
  | true => exact remember_key_allowed

/-- A value is read up to the next key, or to the end of the document. -/
theorem reaches_inline_value {w t r : List Char} {style : Style} {m : Mark} {n : Nat}
    (h : Inline w t style) (inside : i < m.column) (positive : 0 < m.column) (less : (n : Int) ≤ i)
    (solid : SolidHead r) :
    ∃ m', m'.column = n ∧ m.line < m'.line ∧
      Reaches (line ts i o allowed none m (w ++ '\n' :: (List.replicate n ' ' ++ r)))
        (line (ts ++ [.scalar t style]) i o true (pendingAfter allowed ts i m) m' r) := by
  have notZero : m.column = 0 → ∀ c rest, c ≠ '%' ∧ atDocumentMark (c :: rest) = false := by
    omega
  generalize after : '\n' :: (List.replicate n ' ' ++ r) = rest
  have stays : ∀ ts' k' m', (line ts' i o false k' m' rest).skipComment =
      line ts' i o false k' m' rest := fun ts' k' m' => by
    subst after
    exact @skip_comment_line i o false k' ts' m' 0 ('\n' :: _) (by simp [isBlank])
  have newline : ∀ ts' k' m', Reaches (line ts' i o false k' m' rest)
      (line ts' i o true k' ((m'.newline 1).skip n) r) := fun ts' k' m' => by
    subst after
    refine .same (step_newline n solid) ?_ (.refl _)
    simp [line]
    omega
  cases h with
  | plain plain =>
    subst after
    obtain ⟨c, cs, rfl⟩ := List.exists_cons_of_ne_nil plain.nonempty
    have word := begins_word_of_plain plain ('\n' :: (List.replicate n ' ' ++ r))
    have read := @read_plain_value (i + 1) (c :: cs) r n m plain (by omega) (by omega) solid
    refine ⟨((m.skip (c :: cs).length).newline 1).skip n, by simp,
      by simp [Mark.skip, Mark.newline], .more ?_ ?_ (.refl _)⟩
    · rw [List.cons_append] at read ⊢
      rw [step_token word.1 (by omega) (fun zero => notZero zero _ _),
        token_plain word (by simp [line, inFlow]) remember_key_line read]
      simp only [Gap.isLines, if_true, after_scalar_line, Option.map_some]
    · simp [line]
      omega
  | single single k indented =>
    have read := @read_single_body k t [] rest .none false (m.skip 1) single
      (.blanks [] t (absurd rfl)) indented (by simp) (by simp [← after])
    have later :
        m.line < (((((m.skip 1).past (singleChars k false t)).skip 1).newline 1).skip n).line :=
      Nat.lt_succ_of_le (past_line_le (m.skip 1) (singleChars k false t))
    refine ⟨_, by simp, later, .more ?_ ?_ (newline _ _ _)⟩
    · rw [List.cons_append, List.append_assoc, List.singleton_append,
        step_token (by decide) (by omega) (fun zero => notZero zero _ _),
        token_single remember_key_line read]
      simp only [after_scalar_line, stays, Option.map_some, Gap.join, List.reverse_nil,
        List.nil_append]
    · simp [line]
      omega
  | double =>
    have read := @read_double_body t [] [] rest (m.skip 1) (by simp)
    have later : m.line <
        (((((m.skip 1).skip (t.flatMap doubleChars).length).skip 1).newline 1).skip n).line :=
      Nat.lt_succ_self _
    refine ⟨_, by simp, later, .more ?_ ?_ (newline _ _ _)⟩
    · rw [List.cons_append, List.append_assoc, List.singleton_append,
        step_token (by decide) (by omega) (fun zero => notZero zero _ _),
        token_double remember_key_line read]
      simp only [after_scalar_line, stays, Option.map_some, List.nil_append, List.reverse_nil]
    · simp only [line, List.cons_append, List.length_cons, List.length_append]
      omega

/-! ## Keys after a question mark -/

theorem inline_head {w t : List Char} {style : Style} (h : Inline w t style) :
    ∃ c cs, w = c :: cs ∧ Solid c := by
  cases h with
  | plain plain =>
    obtain ⟨c, cs, rfl⟩ := List.exists_cons_of_ne_nil plain.nonempty
    exact ⟨c, cs, rfl, (begins_word_of_plain plain []).1⟩
  | single => exact ⟨_, _, rfl, by decide⟩
  | double => exact ⟨_, _, rfl, by decide⟩

/-- An item of a sequence after a dash. -/
theorem step_dash {us : List Token} {j : Int} {o' : List Int} {m : Mark} {rest : List Char}
    (within : i ≤ m.column)
    (rolled : (line ts i o true none m ('-' :: ' ' :: rest)).roll m.column ts.length
      .blockSequenceStart = some (line us j o' true none m ('-' :: ' ' :: rest))) :
    (line ts i o true none m ('-' :: ' ' :: rest)).step =
      some (.more (line (us ++ [.blockEntry]) j o' true none (m.skip 1) (' ' :: rest))) := by
  have outside : (line ts i o true none m ('-' :: ' ' :: rest)).inFlow = false := by
    simp [line, inFlow]
  have token : (line ts i o true none m ('-' :: ' ' :: rest)).token '-' (' ' :: rest) =
      some (line (us ++ [.blockEntry]) j o' true none (m.skip 1) (' ' :: rest)) := by
    have rolled' : (line ts i o true none m ('-' :: ' ' :: rest)).roll
        (line ts i o true none m ('-' :: ' ' :: rest)).mark.column
        (line ts i o true none m ('-' :: ' ' :: rest)).count .blockSequenceStart = _ := rolled
    have opened : (line ts i o true none m ('-' :: ' ' :: rest)).openItem .blockSequenceStart
        .blockEntry true = some (line (us ++ [.blockEntry]) j o' true none (m.skip 1)
          (' ' :: rest)) := by
      unfold openItem
      simp only [outside, rolled']
      simp [line, dropKey, key?, emit, skip]
    simp [token, atGap, isBlank, opened]
  rw [step_token (by decide) within (by simp [atDocumentMark]), token]
  rfl

theorem step_question {us : List Token} {j : Int} {o' : List Int} {m : Mark} {rest : List Char}
    (within : i ≤ m.column) (other : ∀ c ∈ rest.head?, isBlank c = false ∧ c ≠ '#')
    (rolled : (line ts i o true none m ('?' :: ' ' :: rest)).roll m.column ts.length
      .blockMappingStart = some (line us j o' true none m ('?' :: ' ' :: rest))) :
    (line ts i o true none m ('?' :: ' ' :: rest)).step =
      some (.more (line (us ++ [.key]) j o' true none (m.skip 1) (' ' :: rest))) := by
  have stays := @skip_comment_line j o' true none (us ++ [.key]) (m.skip 1) 1 rest other
  have outside : (line ts i o true none m ('?' :: ' ' :: rest)).inFlow = false := by
    simp [line, inFlow]
  have opened : (line ts i o true none m ('?' :: ' ' :: rest)).openItem .blockMappingStart .key
      true = some (line (us ++ [.key]) j o' true none (m.skip 1) (' ' :: rest)) := by
    unfold openItem
    have rolled' : (line ts i o true none m ('?' :: ' ' :: rest)).roll
        (line ts i o true none m ('?' :: ' ' :: rest)).mark.column
        (line ts i o true none m ('?' :: ' ' :: rest)).count .blockMappingStart = _ := rolled
    simp only [outside, rolled']
    simp [line, dropKey, key?, emit, skip]
  have token : (line ts i o true none m ('?' :: ' ' :: rest)).token '?' (' ' :: rest) =
      some (line (us ++ [.key]) j o' true none (m.skip 1) (' ' :: rest)) := by
    simp [token, outside, atGap, isBlank, opened]
    exact stays
  rw [step_token (by decide) within (by simp [atDocumentMark]), token]
  rfl

theorem colon_stale {s : Scanner} {k : PendingKey} (key : s.key? = some k)
    (stale : k.isStale s.mark = true) (free : k.required = false)
    (outside : (s.setKey none).inFlow = false) (may : s.keyAllowed = true) :
    s.colon = ((s.setKey none).roll s.mark.column s.count .blockMappingStart).map fun s =>
      ({ s with keyAllowed := true }.emit .value).skip 1 := by
  have may' : (s.setKey none).keyAllowed = true := may
  simp only [colon, key, stale, free, outside, may', if_true, Bool.false_eq_true, if_false]
  rfl

/-- The colon of a key that stands on an earlier line. -/
theorem step_colon_explicit {p : PendingKey} {m : Mark} {rest : List Char} (h : AfterColon rest)
    (within : i = m.column) (earlier : p.mark.line < m.line) (free : p.required = false) :
    (line ts i o true (some p) m (':' :: rest)).step =
      some (.more (line (ts ++ [.value]) i o true none (m.skip 1) rest)) := by
  have stale : p.isStale m = true := by simp [PendingKey.isStale, earlier]
  have dropped : (line ts i o true (some p) m (':' :: rest)).setKey none =
      line ts i o true none m (':' :: rest) := rfl
  have rolled : (line ts i o true none m (':' :: rest)).roll m.column ts.length
      .blockMappingStart = some (line ts i o true none m (':' :: rest)) := roll_stays (by omega)
  have emitted : ({ line ts i o true none m (':' :: rest) with keyAllowed := true }.emit
      .value).skip 1 = line (ts ++ [.value]) i o true none (m.skip 1) rest :=
    emit_value (k := none)
  have explicit : (line ts i o true (some p) m (':' :: rest)).colon =
      some (line (ts ++ [.value]) i o true none (m.skip 1) rest) := by
    rw [colon_stale rfl stale free (by simp [line, setKey, inFlow]) rfl, dropped]
    refine (congrArg (Option.map _) rolled).trans ?_
    rw [Option.map_some, emitted]
  rw [step_colon_eq h (by omega), explicit]
  simp only [Option.map_some, skip_comment_after h]

/-- A key on its own line after a question mark, and its colon on the next line. -/
theorem arrives_explicit_key {w t rest : List Char} {style : Style} {m : Mark}
    (h : Inline w t style) (within : i = m.column) (after : AfterColon rest) :
    ∃ m', m'.column = m.column + 1 ∧
      Arrives (line (ts ++ [.key]) i o true none (m.skip 1)
          (' ' :: (w ++ '\n' :: (List.replicate m.column ' ' ++ ':' :: rest))))
        (line (ts ++ [.key, .scalar t style, .value]) i o true none m' rest) := by
  obtain ⟨c, cs, rfl, solid⟩ := inline_head h
  have head : SolidHead (c :: cs ++ '\n' :: (List.replicate m.column ' ' ++ ':' :: rest)) := by
    rintro _ ⟨⟩
    exact solid
  have colonHead : SolidHead (':' :: rest) := by
    rintro _ ⟨⟩
    decide
  have space := @step_spaces (ts ++ [.key]) i o true none (m.skip 1) 1 _ head
  obtain ⟨m', column, later, value⟩ := @reaches_inline_value (ts ++ [.key]) i o true (c :: cs) t
    (':' :: rest) style ((m.skip 1).skip 1) m.column h (by simp; omega) (by simp) (by omega)
    colonHead
  have colon : (line (ts ++ [.key] ++ [.scalar t style]) i o true
      (some (pendingAt (ts ++ [.key]) i ((m.skip 1).skip 1))) m' (':' :: rest)).step = _ :=
    step_colon_explicit after (by omega) later (by simp [pendingAt]; omega)
  simp only [List.append_assoc, List.cons_append, List.nil_append] at space value colon ⊢
  refine ⟨m'.skip 1, by simp [column], _, .same space ?_ value, colon, ?_⟩
  · simp [line]
  · simp [line]

/-! ## Rows in brackets -/

/-- A state inside one pair of brackets. -/
def bracket (ts : List Token) (i : Int) (o : List Int) (allowed : Bool) (k : Option PendingKey)
    (m : Mark) (r : List Char) : Scanner :=
  ⟨r, m, ts.reverse, ts.length, i, o, allowed, [k, none]⟩

theorem bracket_step {m : Mark} {c : Char} {r : List Char} (n : Nat) (solid : Solid c)
    (column : 0 < m.column) :
    (bracket ts i o allowed k m (List.replicate n ' ' ++ c :: r)).step =
      ((bracket ts i o allowed k (m.skip n) (c :: r)).token c r).map .more := by
  have head : SolidHead (c :: r) := by
    rintro _ ⟨⟩
    exact solid
  have notZero : m.column ≠ 0 := by omega
  have passed : (bracket ts i o allowed k m (List.replicate n ' ' ++ c :: r)).step =
      (bracket ts i o allowed k (m.skip n) (c :: r)).dispatch := by
    simp [step, bracket, inFlow, skip_gap_spaces, skip_gap_solid head, unroll]
  have noDirective : ¬ (decide (m.column + n = 0) && decide (c = '%')) = true := by
    simp [notZero]
  have noMark : ¬ (decide (m.column + n = 0) && atDocumentMark (c :: r)) = true := by
    simp [notZero]
  rw [passed]
  refine (if_neg noDirective).trans ((if_neg noMark).trans ?_)
  cases (bracket ts i o allowed k (m.skip n) (c :: r)).token c r <;> rfl

theorem skip_comment_bracket {ts' : List Token} {m : Mark} {n : Nat} {r : List Char}
    (other : ∀ c ∈ r.head?, isBlank c = false ∧ c ≠ '#') :
    (bracket ts' i o allowed k m (List.replicate n ' ' ++ r)).skipComment =
      bracket ts' i o allowed k m (List.replicate n ' ' ++ r) :=
  skip_comment_stays rfl other

/-- A word that may stand between brackets. -/
structure RowWord (w : List Char) : Prop where
  plainest : ∀ c ∈ w, Plainest c
  begins : ∃ c cs, w = c :: cs ∧ ∀ rest, BeginsWord c (cs ++ rest)

theorem RowWord.length_pos {w : List Char} (h : RowWord w) : 0 < w.length := by
  obtain ⟨c, cs, rfl, _⟩ := h.begins
  simp

/-- The characters of words between brackets, with their closing bracket. -/
def rowChars : List (List Char) → List Char
  | [] => [']']
  | [w] => w ++ [']']
  | w :: v :: ws => w ++ ',' :: ' ' :: rowChars (v :: ws)

/-- The tokens of words between brackets, with their closing bracket. -/
def rowTokens : List (List Char) → List Token
  | [] => [.flowSequenceEnd]
  | [w] => [.scalar w .plain, .flowSequenceEnd]
  | w :: v :: ws => .scalar w .plain :: .flowEntry :: rowTokens (v :: ws)

theorem remember_key_bracket {m : Mark} {r : List Char} :
    (bracket ts i o true none m r).rememberKey =
      some (bracket ts i o true (some ⟨false, ts.length, m⟩) m r) := by
  simp [rememberKey, dropKey, key?, setKey, bracket, inFlow]

theorem drop_key_bracket {m : Mark} {r : List Char} (free : ∀ p, k = some p → p.required = false) :
    (bracket ts i o allowed k m r).dropKey = some (bracket ts i o allowed none m r) := by
  cases k with
  | none => rfl
  | some p => simp [dropKey, key?, setKey, bracket, free p rfl]

theorem step_row_word {w rest : List Char} {d : Char} {m : Mark} {n : Nat} (h : RowWord w)
    (column : 0 < m.column) (ends : d = ',' ∨ d = ']') :
    (bracket ts i o true none m (List.replicate n ' ' ++ (w ++ d :: rest))).step =
      some (.more (bracket (ts ++ [.scalar w .plain]) i o false
        (some ⟨false, ts.length, m.skip n⟩) ((m.skip n).skip w.length) (d :: rest))) := by
  obtain ⟨c, cs, rfl, begins⟩ := h.begins
  have solid : isBlank d = false ∧ isBreak d = false ∧ d ≠ '#' := by
    rcases ends with rfl | rfl <;> decide
  have flowEnd : isFlowEnd d = true := by
    rcases ends with rfl | rfl <;> decide
  have read := @read_plain_item (i + 1) (c :: cs) [] rest d (m.skip n) h.plainest
    ⟨solid.1, solid.2.1⟩ flowEnd
  obtain ⟨_, _, colon, inner⟩ := h.plainest c (by simp)
  have question : c ≠ '?' := by
    rintro rfl
    simp [isFlowEnd] at inner
  have stays : ∀ ts' k' m', (bracket ts' i o false k' m' (d :: rest)).skipComment =
      bracket ts' i o false k' m' (d :: rest) := fun ts' k' m' =>
    @skip_comment_bracket i o false k' ts' m' 0 (d :: rest) (by simp [solid.1, solid.2.2])
  rw [List.cons_append] at read ⊢
  have scalar := token_plain (s := bracket ts i o true none (m.skip n) (c :: (cs ++ d :: rest)))
    (begins (d :: rest)) (fun _ => ⟨question, colon⟩) remember_key_bracket read
  rw [bracket_step n (begins []).1 column, scalar]
  have after : (bracket ts i o true (some ⟨false, ts.length, m.skip n⟩) (m.skip n)
      (c :: (cs ++ d :: rest))).afterScalar .plain
        ⟨[].reverse ++ c :: cs, .none, (m.skip n).skip (c :: cs).length, d :: rest⟩ false =
      bracket (ts ++ [.scalar (c :: cs) .plain]) i o false (some ⟨false, ts.length, m.skip n⟩)
        ((m.skip n).skip (c :: cs).length) (d :: rest) := by
    simp [afterScalar, emit, bracket]
  simp only [Gap.isLines, Bool.false_eq_true, if_false, after, stays, Option.map_some]

theorem step_row_comma {m : Mark} {rest : List Char} (column : 0 < m.column)
    (free : ∀ p, k = some p → p.required = false)
    (other : ∀ c ∈ rest.head?, isBlank c = false ∧ c ≠ '#') :
    (bracket ts i o false k m (',' :: ' ' :: rest)).step =
      some (.more (bracket (ts ++ [.flowEntry]) i o true none (m.skip 1) (' ' :: rest))) := by
  have stays := @skip_comment_bracket i o true none (ts ++ [.flowEntry]) (m.skip 1) 1 rest other
  have after : (({ bracket ts i o false none m (',' :: ' ' :: rest) with keyAllowed := true }.emit
      .flowEntry).skip 1) =
      bracket (ts ++ [.flowEntry]) i o true none (m.skip 1) (' ' :: rest) := by
    simp [emit, skip, bracket]
  have passed := @bracket_step ts i o false k m ',' (' ' :: rest) 0 (by decide) column
  refine passed.trans ?_
  have comma : (bracket ts i o false k m (',' :: ' ' :: rest)).token ',' (' ' :: rest) =
      some (bracket (ts ++ [.flowEntry]) i o true none (m.skip 1) (' ' :: rest)) := by
    simp [token, drop_key_bracket free]
    rw [after]
    exact stays
  exact congrArg (Option.map Progress.more) comma

/-- The tokens of a pair of brackets, with their characters. -/
inductive Brackets : Char → Char → Token → Token → Prop
  | sequence : Brackets '[' ']' .flowSequenceStart .flowSequenceEnd
  | mapping : Brackets '\x7b' '\x7d' .flowMappingStart .flowMappingEnd

theorem step_open_bracket {a b : Char} {t u : Token} {m : Mark} {rest : List Char}
    (pair : Brackets a b t u) (within : i ≤ m.column) (positive : 0 < m.column)
    (other : ∀ c ∈ rest.head?, isBlank c = false ∧ c ≠ '#') :
    (line ts i o false none m (a :: rest)).step =
      some (.more (bracket (ts ++ [t]) i o true none (m.skip 1) rest)) := by
  have stays := @skip_comment_bracket i o true none (ts ++ [t]) (m.skip 1) 0 rest other
  have solid : Solid a := by cases pair <;> decide
  have opened : (line ts i o false none m (a :: rest)).openFlow t =
      some (bracket (ts ++ [t]) i o true none (m.skip 1) rest) := by
    rw [openFlow, remember_key_not_allowed]
    simp [maxDepth, line, bracket, emit, skip]
  have token : (line ts i o false none m (a :: rest)).token a rest =
      some (bracket (ts ++ [t]) i o true none (m.skip 1) rest) := by
    cases pair <;> simp [token, opened] <;> exact stays
  rw [step_token solid within (by omega), token]
  rfl

theorem step_close_bracket {a b : Char} {t u : Token} {m : Mark} {rest : List Char}
    (pair : Brackets a b t u) (column : 0 < m.column)
    (free : ∀ p, k = some p → p.required = false)
    (other : ∀ c ∈ rest.head?, isBlank c = false ∧ c ≠ '#') :
    (bracket ts i o allowed k m (b :: rest)).step =
      some (.more (line (ts ++ [u]) i o false none (m.skip 1) rest)) := by
  have stays := @skip_comment_line i o false none (ts ++ [u]) (m.skip 1) 0 rest other
  have solid : Solid b := by cases pair <;> decide
  have passed := @bracket_step ts i o allowed k m b rest 0 solid column
  have closed : (bracket ts i o allowed k m (b :: rest)).closeFlow u =
      some (line (ts ++ [u]) i o false none (m.skip 1) rest) := by
    rw [closeFlow, drop_key_bracket free]
    simp [bracket, line, inFlow, emit, skip]
  have close : (bracket ts i o allowed k m (b :: rest)).token b rest =
      some (line (ts ++ [u]) i o false none (m.skip 1) rest) := by
    cases pair <;> simp [token, closed] <;> exact stays
  exact passed.trans (congrArg (Option.map Progress.more) close)

theorem row_chars_head {w : List Char} {ws : List (List Char)} (h : RowWord w) (rest : List Char) :
    ∀ c ∈ (rowChars (w :: ws) ++ rest).head?, isBlank c = false ∧ c ≠ '#' := by
  obtain ⟨c, cs, rfl, begins⟩ := h.begins
  have solid := (begins []).1
  intro d hd
  have same : d = c := by
    cases ws <;> simpa [rowChars, eq_comm] using hd
  rw [same]
  exact ⟨solid.1, solid.2.2.1⟩

/-- The words between brackets are read one after the other. -/
theorem reaches_row_words {w : List Char} {ws : List (List Char)} {rest : List Char} {m : Mark}
    (n : Nat) (words : ∀ v ∈ w :: ws, RowWord v) (column : 0 < m.column)
    (other : ∀ c ∈ rest.head?, isBlank c = false ∧ c ≠ '#') :
    ∃ m', Reaches
      (bracket ts i o true none m (List.replicate n ' ' ++ (rowChars (w :: ws) ++ rest)))
      (line (ts ++ rowTokens (w :: ws)) i o false none m' rest) := by
  induction ws generalizing ts w m n with
  | nil =>
    have word := words w (by simp)
    have read := @step_row_word ts i o w rest ']' m n word column (Or.inr rfl)
    have close : (bracket (ts ++ [.scalar w .plain]) i o false (some ⟨false, ts.length, m.skip n⟩)
        ((m.skip n).skip w.length) (']' :: rest)).step = _ :=
      step_close_bracket .sequence (by simp; omega) (by rintro _ ⟨⟩; rfl) other
    simp only [rowChars, rowTokens, List.append_assoc, List.singleton_append] at read close ⊢
    refine ⟨_, .more read ?_ (.more close (by simp [bracket, line]) (.refl _))⟩
    have := word.length_pos
    simp only [bracket, List.length_append, List.length_replicate, List.length_cons]
    omega
  | cons v ws ih =>
    have word := words w (by simp)
    have words' : ∀ u ∈ v :: ws, RowWord u := fun u hu => words u (by simp [hu])
    have read := @step_row_word ts i o w (' ' :: (rowChars (v :: ws) ++ rest)) ',' m n word column
      (Or.inl rfl)
    have comma : (bracket (ts ++ [.scalar w .plain]) i o false (some ⟨false, ts.length, m.skip n⟩)
        ((m.skip n).skip w.length) (',' :: ' ' :: (rowChars (v :: ws) ++ rest))).step = _ :=
      step_row_comma (by simp; omega) (by rintro _ ⟨⟩; rfl)
        (row_chars_head (words' v (by simp)) rest)
    obtain ⟨m', tail⟩ := @ih (ts ++ [.scalar w .plain, .flowEntry]) v
      (((m.skip n).skip w.length).skip 1) 1 words' (by simp)
    simp only [rowChars, rowTokens, List.append_assoc, List.cons_append,
      List.nil_append] at read comma tail ⊢
    refine ⟨m', .more read ?_ (.more comma (by simp [bracket]) tail)⟩
    have := word.length_pos
    simp only [bracket, List.length_append, List.length_replicate, List.length_cons]
    omega

theorem reaches_newline {m : Mark} {r : List Char} (n : Nat) (solid : SolidHead r) :
    Reaches (line ts i o allowed k m ('\n' :: (List.replicate n ' ' ++ r)))
      (line ts i o true k ((m.newline 1).skip n) r) := by
  refine .same (step_newline n solid) ?_ (.refl _)
  simp only [line, List.length_cons, List.length_append]
  omega

/-- A row in brackets after a colon. -/
theorem reaches_row {ws : List (List Char)} {r : List Char} {m : Mark} {n : Nat}
    (words : ∀ w ∈ ws, RowWord w) (within : i ≤ m.column) (positive : 0 < m.column)
    (solid : SolidHead r) :
    ∃ m', m'.column = n ∧
      Reaches
        (line ts i o false none m ('[' :: (rowChars ws ++ '\n' :: (List.replicate n ' ' ++ r))))
        (line (ts ++ .flowSequenceStart :: rowTokens ws) i o true none m' r) := by
  have feed : ∀ c ∈ ('\n' :: (List.replicate n ' ' ++ r)).head?, isBlank c = false ∧ c ≠ '#' := by
    simp [isBlank]
  generalize after : '\n' :: (List.replicate n ' ' ++ r) = rest at feed ⊢
  have head : ∀ c ∈ (rowChars ws ++ rest).head?, isBlank c = false ∧ c ≠ '#' := by
    cases ws with
    | nil => simp [rowChars, isBlank]
    | cons w ws => exact row_chars_head (words w (by simp)) rest
  have opened : (line ts i o false none m ('[' :: (rowChars ws ++ rest))).step = _ :=
    step_open_bracket .sequence within positive head
  have inner : ∃ m', Reaches (bracket (ts ++ [.flowSequenceStart]) i o true none (m.skip 1)
      (rowChars ws ++ rest))
      (line (ts ++ .flowSequenceStart :: rowTokens ws) i o false none m' rest) := by
    cases ws with
    | nil =>
      have close : (bracket (ts ++ [.flowSequenceStart]) i o true none (m.skip 1)
          (']' :: rest)).step = _ := step_close_bracket .sequence (by simp) (by simp) feed
      rw [List.append_assoc] at close
      exact ⟨_, .more close (by simp [line, bracket, rowChars]) (.refl _)⟩
    | cons w ws =>
      obtain ⟨m', inner⟩ := @reaches_row_words (ts ++ [.flowSequenceStart]) i o w ws rest (m.skip 1)
        0 words (by simp) feed
      rw [List.append_assoc] at inner
      exact ⟨m', inner⟩
  obtain ⟨m', inner⟩ := inner
  subst after
  refine ⟨_, ?_, .more opened (by simp [line, bracket]) (inner.trans (reaches_newline n solid))⟩
  simp

/-- Empty braces after a colon. -/
theorem reaches_braces {r : List Char} {m : Mark} {n : Nat} (within : i ≤ m.column)
    (positive : 0 < m.column) (solid : SolidHead r) :
    ∃ m', m'.column = n ∧
      Reaches (line ts i o false none m
          ('\x7b' :: '\x7d' :: '\n' :: (List.replicate n ' ' ++ r)))
        (line (ts ++ [.flowMappingStart, .flowMappingEnd]) i o true none m' r) := by
  have opened : (line ts i o false none m
      ('\x7b' :: '\x7d' :: '\n' :: (List.replicate n ' ' ++ r))).step = _ :=
    step_open_bracket .mapping within positive (by simp [isBlank])
  have close : (bracket (ts ++ [.flowMappingStart]) i o true none (m.skip 1)
      ('\x7d' :: '\n' :: (List.replicate n ' ' ++ r))).step = _ :=
    step_close_bracket .mapping (by simp) (by simp) (by simp [isBlank])
  rw [List.append_assoc] at close
  refine ⟨_, ?_, .more opened (by simp [line, bracket]) (.more close (by simp [line, bracket])
    (reaches_newline n solid))⟩
  simp

end

end Overworld.Yaml.Scanner
