import Overworld.Proofs.Bytes
import Overworld.Proofs.Outcome
import Overworld.Settings
import Mathlib.Algebra.Order.Field.Power
import Mathlib.Algebra.Order.Monoid.Unbundled.WithTop
import Mathlib.Data.Rat.Cast.Order

/-!
# The rules that settings break

Settings are accepted exactly if they keep every rule. The complaint names each broken rule outside
logging. Of the rules on logging it names the first that is broken, since the later ones are not
looked at then.
-/

set_option autoImplicit false

namespace Overworld

namespace Binary64

/-- The exact value, with both infinities; there is none for `nan`. -/
def value : Binary64 → Option (WithBot (WithTop ℚ))
  | .nan => none
  | .infinite negative => some (if negative then ⊥ else ⊤)
  | .finite negative m e =>
    some (((if negative then -(m : ℚ) else m) * (2 : ℚ) ^ e : ℚ) : WithTop ℚ)

/-- The two tests look at the sign of the value. -/
theorem sign_iff (x : Binary64) : (x.isNegative = true ↔ ∃ q ∈ x.value, q < 0) ∧
    (x.isPositive = true ↔ ∃ q ∈ x.value, 0 < q) := by
  cases x with
  | nan => simp [isNegative, isPositive, value]
  | infinite negative =>
    have top : (0 : WithBot (WithTop ℚ)) < ⊤ := WithBot.coe_lt_coe.mpr (WithTop.coe_lt_top 0)
    cases negative <;> simp [isNegative, isPositive, value, top]
  | finite negative m e =>
    have scale : (0 : ℚ) < 2 ^ e := zpow_pos two_pos e
    have below (q : ℚ) : q * 2 ^ e < 0 ↔ q < 0 := by
      rw [mul_neg_iff]
      simp [scale, not_lt.mpr scale.le]
    have above (q : ℚ) : 0 < q * 2 ^ e ↔ 0 < q := mul_pos_iff_of_pos_right scale
    simp only [isNegative, isPositive, value, Option.mem_some, exists_eq_left']
    norm_cast
    rw [below, above]
    cases negative <;> simp [Nat.pos_iff_ne_zero]

end Binary64

namespace Settings

variable {s : Settings} {v : Violation}

/-! ## What the rules say -/

/-- Settings break a rule, whatever other rules they break. -/
def Breaks (s : Settings) : Violation → Prop
  | .noSource => s.source.dir = [] ∧ s.source.baseUrl = []
  | .baseUrl url => url = s.source.baseUrl ∧ s.source.dir = [] ∧ s.source.baseUrl ≠ [] ∧
    ∀ u, Url.parse s.source.baseUrl = some u → u.scheme ≠ utf8 "http" ∧ u.scheme ≠ utf8 "https"
  | .negativeRate => ∃ q ∈ s.source.rate.value, q < 0
  | .burst n => n = s.source.burst ∧ (∃ q ∈ s.source.rate.value, 0 < q) ∧ s.source.burst.toInt < 1
  | .negativeTimeout => s.source.timeout.toInt < 0
  | .noSnapshotPath => s.snapshotPath = []
  | .workers n => n = s.workers ∧ s.workers.toInt < 1
  | .noOutputDir => s.outputDir = []
  | .level l => l = s.logging.level ∧
    s.logging.level ∉ [utf8 "debug", utf8 "info", utf8 "warn", utf8 "error"]
  | .format f => f = s.logging.format ∧ s.logging.format ∉ [utf8 "json", utf8 "console"]
  | .maxSize n => n = s.logging.maxSize ∧ s.logging.file ≠ [] ∧ s.logging.maxSize.toInt < 1

/-- A rule on logging is not looked at, since one before it is broken. -/
def Unchecked (s : Settings) : Violation → Prop
  | .format _ => s.Breaks (.level s.logging.level)
  | .maxSize _ => s.Breaks (.level s.logging.level) ∨ s.Breaks (.format s.logging.format)
  | _ => False

/-- The rules on logging in the order in which they are looked at. -/
def Logging.rules (l : Logging) : List Violation :=
  [.level l.level, .format l.format, .maxSize l.maxSize]

/-- The rules in the order of a complaint. -/
def rules (s : Settings) : List Violation :=
  [.noSource, .baseUrl s.source.baseUrl, .negativeRate, .burst s.source.burst, .negativeTimeout,
    .noSnapshotPath, .workers s.workers, .noOutputDir] ++ s.logging.rules

/-! ## What is found -/

theorem mem_when {broken : Bool} {w : Violation} : v ∈ when broken w ↔ v = w ∧ broken = true := by
  cases broken <;> simp [when]

theorem when_sublist (broken : Bool) (w : Violation) : (when broken w).Sublist [w] := by
  cases broken <;> simp [when]

theorem not_web_url_iff {url : Bytes} : isWebUrl url = false ↔
    ∀ u, Url.parse url = some u → u.scheme ≠ utf8 "http" ∧ u.scheme ≠ utf8 "https" := by
  unfold isWebUrl
  cases Url.parse url <;> simp

theorem mem_location {x : Source} : v ∈ x.location ↔
    (v = .noSource ∧ x.dir = [] ∧ x.baseUrl = []) ∨
      v = .baseUrl x.baseUrl ∧ x.dir = [] ∧ x.baseUrl ≠ [] ∧ isWebUrl x.baseUrl = false := by
  unfold Source.location
  by_cases dir : x.dir = []
  · by_cases url : x.baseUrl = []
    · simp [dir, url]
    · simp [dir, url, mem_when]
  · simp [dir]

theorem mem_logging {l : Logging} : v ∈ l.violations ↔
    (v = .level l.level ∧ l.level ∉ Logging.levels) ∨
      (v = .format l.format ∧ l.format ∉ Logging.formats ∧ l.level ∈ Logging.levels) ∨
      v = .maxSize l.maxSize ∧ (l.file ≠ [] ∧ l.maxSize.toInt < 1) ∧ l.level ∈ Logging.levels ∧
        l.format ∈ Logging.formats := by
  unfold Logging.violations
  by_cases level : l.level ∈ Logging.levels
  · by_cases format : l.format ∈ Logging.formats
    · simp [level, format, mem_when, Int64.lt_iff_toInt_lt]
    · simp [level, format]
  · simp [level]

theorem location_sublist (x : Source) : x.location.Sublist [.noSource, .baseUrl x.baseUrl] := by
  unfold Source.location
  split
  · simp
  · split
    · simp
    · exact (when_sublist _ _).cons _

theorem logging_sublist (l : Logging) : l.violations.Sublist l.rules := by
  unfold Logging.violations Logging.rules
  split
  · simp
  · split
    · simp
    · exact ((when_sublist _ _).cons _).cons _

theorem source_sublist (x : Source) : x.violations.Sublist
    [.noSource, .baseUrl x.baseUrl, .negativeRate, .burst x.burst, .negativeTimeout] :=
  (((location_sublist x).append (when_sublist _ _)).append (when_sublist _ _)).append
    (when_sublist _ _)

theorem violations_sublist (s : Settings) : s.violations.Sublist s.rules :=
  ((((source_sublist s.source).append (when_sublist _ _)).append (when_sublist _ _)).append
    (when_sublist _ _)).append (logging_sublist s.logging)

theorem breaks_level {l : Bytes} : s.Breaks (.level l) ↔
    l = s.logging.level ∧ s.logging.level ∉ Logging.levels := Iff.rfl

theorem breaks_format {f : Bytes} : s.Breaks (.format f) ↔
    f = s.logging.format ∧ s.logging.format ∉ Logging.formats := Iff.rfl

theorem breaks_max_size {n : Int64} : s.Breaks (.maxSize n) ↔
    n = s.logging.maxSize ∧ s.logging.file ≠ [] ∧ s.logging.maxSize.toInt < 1 := Iff.rfl

/-- The rules that are found broken are those that are, less the ones that are not looked at. -/
theorem mem_violations : v ∈ s.violations ↔ s.Breaks v ∧ ¬ s.Unchecked v := by
  simp only [violations, Source.violations, List.mem_append, mem_location, mem_logging, mem_when,
    not_web_url_iff, Bool.and_eq_true, (Binary64.sign_iff _).1, (Binary64.sign_iff _).2,
    decide_eq_true_eq, List.isEmpty_iff, Int64.lt_iff_toInt_lt]
  -- The rules on logging stay folded, since simp would spell out their lists of names.
  cases v with
  | level l => simp [breaks_level, Unchecked]
  | format f => simp [breaks_level, breaks_format, Unchecked, and_assoc]
  | maxSize n => simp [breaks_level, breaks_format, breaks_max_size, Unchecked, and_assoc]
  | _ => simp [Breaks, Unchecked]

theorem exists_checked (h : s.Breaks v) : ∃ w, s.Breaks w ∧ ¬ s.Unchecked w := by
  -- The first broken rule on logging is looked at, and so is every rule if no level or format is
  -- broken.
  by_cases level : s.Breaks (.level s.logging.level)
  · exact ⟨_, level, id⟩
  · by_cases format : s.Breaks (.format s.logging.format)
    · exact ⟨_, format, level⟩
    · refine ⟨v, h, ?_⟩
      cases v with
      | format f => exact level
      | maxSize n => exact not_or.mpr ⟨level, format⟩
      | _ => exact id

theorem violations_eq_nil : s.violations = [] ↔ ∀ v, ¬ s.Breaks v := by
  simp only [List.eq_nil_iff_forall_not_mem, mem_violations]
  constructor
  · intro none_found v broken
    obtain ⟨w, found⟩ := exists_checked broken
    exact none_found w found
  · intro kept v found
    exact kept v found.1

/-- Every broken rule is looked at exactly if no two of them are on logging. -/
theorem all_checked_iff : (∀ v, s.Breaks v → ¬ s.Unchecked v) ↔
    s.logging.rules.Pairwise fun v w => ¬ (s.Breaks v ∧ s.Breaks w) := by
  simp only [Logging.rules, List.pairwise_cons, List.forall_mem_cons, List.not_mem_nil,
    List.Pairwise.nil, false_imp_iff, implies_true, and_true]
  constructor
  · intro checked
    refine ⟨⟨?_, ?_⟩, ?_⟩
    · exact fun ⟨level, format⟩ => checked _ format level
    · exact fun ⟨level, maxSize⟩ => checked _ maxSize (.inl level)
    · exact fun ⟨format, maxSize⟩ => checked _ maxSize (.inr format)
  · rintro ⟨⟨levelFormat, levelSize⟩, formatSize⟩ v broken unchecked
    cases v with
    | format f =>
      obtain rfl := broken.1
      exact levelFormat ⟨unchecked, broken⟩
    | maxSize n =>
      obtain rfl := broken.1
      rcases unchecked with level | format
      · exact levelSize ⟨level, broken⟩
      · exact formatSize ⟨format, broken⟩
    | _ => exact unchecked

/-! ## What is said -/

theorem validate_eq_ok : s.validate = .ok () ↔ ∀ v, ¬ s.Breaks v := by
  rw [← violations_eq_nil, validate]
  cases s.violations with
  | nil => simp
  | cons v vs => simp

theorem validate_eq_error {f : Failure} : s.validate = .error f ↔
    s.violations ≠ [] ∧ f = .of (.invalidSettings (s.violations.map Violation.message)) := by
  unfold validate
  cases s.violations with
  | nil => simp
  | cons v vs => simp [fail, eq_comm]

theorem complaint_contains {vs : List Violation} (h : v ∈ vs) :
    v.message.toList <:+:
      (Failure.of (.invalidSettings (vs.map Violation.message))).message.toList := by
  have joined : v.message.toList <:+: ("; ".intercalate (vs.map Violation.message)).toList :=
    infix_intercalate (List.mem_map_of_mem h)
  show _ <:+: ("configuration validation failed: " ++ _).toList
  rw [String.toList_append]
  exact joined.trans (List.suffix_append _ _).isInfix

/-- Settings are accepted exactly if they break no rule. A complaint is made of the words for the
broken rules in their order, each of which it contains, without those that are not looked at. So it
leaves out no broken rule exactly if no two rules on logging are broken. -/
theorem complaint_names_checked_rules (s : Settings) :
    (s.validate = .ok () ↔ ∀ v, ¬ s.Breaks v) ∧
    ∀ f, s.validate = .error f →
      (∀ v, s.Breaks v → ¬ s.Unchecked v → v.message.toList <:+: f.message.toList) ∧
      ∃ vs : List Violation, vs.Sublist s.rules ∧ (∀ v, v ∈ vs ↔ s.Breaks v ∧ ¬ s.Unchecked v) ∧
        f.message = "configuration validation failed: " ++
          "; ".intercalate (vs.map Violation.message) ∧
        ((∀ v, s.Breaks v → v ∈ vs) ↔
          s.logging.rules.Pairwise fun v w => ¬ (s.Breaks v ∧ s.Breaks w)) := by
  refine ⟨validate_eq_ok, fun f refused => ?_⟩
  obtain ⟨_, rfl⟩ := validate_eq_error.mp refused
  refine ⟨?_, s.violations, violations_sublist s, fun v => mem_violations, rfl, ?_⟩
  · exact fun v broken checked => complaint_contains (mem_violations.mpr ⟨broken, checked⟩)
  · rw [← all_checked_iff]
    simp +contextual [mem_violations]

/-- Settings that break rules of each section, of those on logging only the first. -/
def unruly : Settings :=
  ⟨⟨utf8 "ftp://host", [], Binary64.ofInt 20, 0, -1⟩, [], [], -3, [],
    ⟨utf8 "trace", utf8 "json", [], 0, 0⟩⟩

def unrulyRules : List Violation :=
  [.baseUrl (utf8 "ftp://host"), .burst 0, .negativeTimeout, .noSnapshotPath, .workers (-3),
    .noOutputDir, .level (utf8 "trace")]

theorem unruly_settings_named : ∃ f, unruly.validate = .error f ∧
    ∀ v ∈ unrulyRules, unruly.Breaks v ∧ v.message.toList <:+: f.message.toList := by
  have found : unruly.violations = unrulyRules := by decide +kernel
  obtain ⟨f, refused⟩ : ∃ f, unruly.validate = .error f :=
    ⟨_, validate_eq_error.mpr ⟨by simp [found, unrulyRules], rfl⟩⟩
  obtain ⟨contained, _⟩ := (complaint_names_checked_rules unruly).2 f refused
  refine ⟨f, refused, fun v hv => ?_⟩
  obtain ⟨broken, checked⟩ := mem_violations.mp (found ▸ hv)
  exact ⟨broken, contained v broken checked⟩

/-- Settings that break all rules on logging and no other. -/
def chatty : Settings :=
  ⟨⟨utf8 "https://host", [], Binary64.zero, 0, 0⟩, utf8 "snapshot", [], 1, utf8 "out",
    ⟨utf8 "trace", utf8 "xml", utf8 "run.log", 0, 0⟩⟩

/-- The unknown level keeps the unknown format and the missing size out of the complaint. -/
theorem level_hides_later_rules : ∃ f, chatty.validate = .error f ∧
    (chatty.Breaks (.format (utf8 "xml")) ∧
      ¬ (Violation.format (utf8 "xml")).message.toList <:+: f.message.toList) ∧
    chatty.Breaks (.maxSize 0) ∧
      ¬ (Violation.maxSize 0).message.toList <:+: f.message.toList := by
  refine ⟨.of (.invalidSettings (chatty.violations.map Violation.message)), ?_, ⟨?_, ?_⟩, ?_, ?_⟩
  · exact validate_eq_error.mpr ⟨by decide +kernel, rfl⟩
  · exact ⟨rfl, by decide +kernel⟩
  · decide +kernel
  · exact ⟨rfl, by decide +kernel, by decide +kernel⟩
  · decide +kernel

end Settings

end Overworld
