import Overworld.Proofs.ShortestPaths
import Mathlib.Data.List.Induction

/-!
# Trees of files

In a tree everything stands in a directory. Requests keep it so. Making directories lets the
contents at every path below be as they were, and a new file changes nothing but at its own place.
-/

set_option autoImplicit false

namespace Overworld.FileSystem

open Overworld.Path (IsName follow lastPart)

variable {fs fs' : FileSystem} {p c contents : Bytes} {e : FileEntry}
  {place d q cs names : List Bytes}

/-- Everything stands in a directory. -/
def Grounded (fs : FileSystem) : Prop :=
  ∀ a b e, fs.entries.find? (a ++ Path.slash :: b) = some e → fs.entries.find? a = some .directory

/-! ## Places -/

theorem key_snoc (some : d ≠ []) (c : Bytes) : key (d ++ [c]) = key d ++ Path.slash :: c := by
  simp [key, Bytes.join_snoc some]

theorem at_of_ne_nil (some : place ≠ []) : fs.at? place = fs.entries.find? (key place) := by
  simp [at?, some]

@[simp] theorem at_nil (fs : FileSystem) : fs.at? [] = some .directory := rfl

theorem last_part_key (solid : Path.slash ∉ c) (d : List Bytes) :
    lastPart (key (d ++ [c])) = c := by
  by_cases top : d = []
  · subst top
    exact Path.last_part_of_solid solid
  · rw [key_snoc top]
    exact Path.last_part_append _ solid

theorem Grounded.above (h : fs.Grounded) (found : fs.at? (d ++ [c]) = some e) :
    fs.at? d = some .directory := by
  by_cases top : d = []
  · rw [top, at_nil]
  · rw [at_of_ne_nil top]
    rw [at_of_ne_nil (by simp), key_snoc top] at found
    exact h _ _ _ found

theorem Grounded.above_all (h : fs.Grounded) (found : fs.at? (d ++ cs) = some .directory) :
    fs.at? d = some .directory := by
  induction cs using List.reverseRecOn with
  | nil => simpa using found
  | append_singleton cs c ih =>
    rw [← List.append_assoc] at found
    exact ih (h.above found)

/-! ## Walks -/

/-- The place where the path begins. -/
def origin (fs : FileSystem) (p : Bytes) : List Bytes := if Path.isRooted p then [] else fs.start

theorem locate_eq_ok : fs.locate p = .ok q ↔
    0 ∉ p ∧ p ≠ [] ∧ fs.walk (fs.origin p) (Path.components p) = .ok q := by
  unfold locate
  by_cases zero : 0 ∈ p
  · simp [zero]
  · by_cases nothing : p = []
    · simp [nothing]
    · simp only [List.contains_iff_mem, zero, if_false, List.isEmpty_iff, nothing,
        not_false_eq_true, true_and, ne_eq]
      rfl

theorem advance_eq_ok : advance place c = .ok q ↔
    q = Path.step place c ∧ c.length ≤ maxName := by
  unfold advance Path.step
  by_cases skip : (c.isEmpty || c = Path.dot) = true
  · have short : c.length ≤ maxName := by
      simp only [Bool.or_eq_true, List.isEmpty_iff, decide_eq_true_eq] at skip
      rcases skip with rfl | rfl <;> decide
    simp [skip, short, eq_comm]
  · rw [if_neg skip, if_neg skip]
    by_cases up : c = Path.dotDot
    · have short : Path.dotDot.length ≤ maxName := by decide
      simp [up, short, eq_comm]
    · by_cases long : maxName < c.length
      · simp [up, long, Nat.not_le.mpr long]
      · simp [up, long, Nat.not_lt.mp long, eq_comm]

theorem walk_follow (h : fs.walk place cs = .ok q) :
    q = follow place cs ∧ ∀ c ∈ cs, c.length ≤ maxName := by
  induction cs generalizing place with
  | nil =>
    cases h
    exact ⟨rfl, by simp⟩
  | cons c cs ih =>
    obtain ⟨_, next, stepped, walked⟩ := walk_cons.mp h
    obtain ⟨rfl, short⟩ := advance_eq_ok.mp stepped
    obtain ⟨rfl, others⟩ := ih walked
    exact ⟨rfl, List.forall_mem_cons.mpr ⟨short, others⟩⟩

theorem walk_start (used : cs ≠ []) (h : fs.walk place cs = .ok q) :
    fs.at? place = some .directory := by
  cases cs with
  | nil => exact absurd rfl used
  | cons c cs => exact (walk_cons.mp h).1

theorem locate_origin (h : fs.locate p = .ok q) : fs.at? (fs.origin p) = some .directory :=
  walk_start (Bytes.split_on_ne_nil p) (locate_eq_ok.mp h).2.2

/-- The last part of a path is a name below a directory, or the path leads to a directory. -/
theorem locate_cases (h : fs.Grounded) (located : fs.locate p = .ok q) :
    fs.at? q = some .directory ∨
      IsName (lastPart p) ∧ ∃ d, q = d ++ [lastPart p] ∧ fs.at? d = some .directory := by
  obtain ⟨_, init, _, split, _⟩ := Path.directory_spec p
  obtain ⟨_, _, walked⟩ := locate_eq_ok.mp located
  rw [split] at walked
  obtain ⟨d, _, last⟩ := walk_append.mp walked
  obtain ⟨directory, next, stepped, rest⟩ := walk_cons.mp last
  cases rest
  obtain ⟨rfl, _⟩ := advance_eq_ok.mp stepped
  by_cases skip : ((lastPart p).isEmpty || lastPart p = Path.dot) = true
  · rw [Path.step, if_pos skip]
    exact .inl directory
  by_cases up : lastPart p = Path.dotDot
  · rw [up, Path.step_dot_dot]
    left
    cases d using List.reverseRecOn with
    | nil => exact directory
    | append_singleton d c =>
      rw [List.dropLast_concat]
      exact h.above directory
  · simp only [Bool.or_eq_true, List.isEmpty_iff, decide_eq_true_eq, not_or] at skip
    right
    exact ⟨⟨Path.last_part_solid p, skip.1, skip.2, up⟩, d,
      Path.step_name skip.1 skip.2 up, directory⟩

theorem walk_names (h : fs.Grounded)
    (named : ∀ n ∈ names, n ≠ [] ∧ n ≠ Path.dot ∧ n ≠ Path.dotDot)
    (short : ∀ n ∈ names, n.length ≤ maxName) (found : fs.at? (place ++ names) = some .directory) :
    fs.walk place names = .ok (place ++ names) := by
  induction names generalizing place with
  | nil => simp [walk]
  | cons n names ih =>
    obtain ⟨used, notDot, notUp⟩ := named n (by simp)
    have rest : place ++ n :: names = place ++ [n] ++ names := by simp
    rw [rest] at found ⊢
    rw [walk_cons]
    refine ⟨h.above (h.above_all found), place ++ [n], ?_, ?_⟩
    · exact advance_eq_ok.mpr ⟨(Path.step_name used notDot notUp).symm, short n (by simp)⟩
    · exact ih (fun m hm => named m (by simp [hm])) (fun m hm => short m (by simp [hm])) found

theorem walk_ups (h : fs.Grounded) (found : fs.at? place = some .directory) (ups : Nat) :
    fs.walk place (List.replicate ups Path.dotDot) =
      .ok (follow place (List.replicate ups Path.dotDot)) := by
  induction ups generalizing place with
  | zero => rfl
  | succ ups ih =>
    rw [List.replicate_succ, walk_cons]
    have up : fs.at? place.dropLast = some .directory := by
      cases place using List.reverseRecOn with
      | nil => exact found
      | append_singleton d c =>
        rw [List.dropLast_concat]
        exact h.above found
    exact ⟨found, place.dropLast, advance_eq_ok.mpr ⟨rfl, by decide⟩, ih up⟩

/-- The shortest form of components leads to a directory if they lead there word by word: what it
passes on the way stands above its start or above that directory. -/
theorem walk_reduce {rooted : Bool} (h : fs.Grounded) (root : rooted = true → place = [])
    (start : fs.at? place = some .directory) (short : ∀ c ∈ cs, c.length ≤ maxName)
    (found : fs.at? (follow place cs) = some .directory) :
    fs.walk place (Path.reduce rooted cs) = .ok (follow place cs) := by
  have same := Path.follow_reduce root cs
  obtain ⟨ups, names, left, _, named⟩ := Path.reduce_up_down rooted cs
  have short' : ∀ n ∈ names, n.length ≤ maxName := by
    intro n hn
    have mem : n ∈ Path.reduce rooted cs := by simp [left, hn]
    exact short n (Path.mem_reduce mem).1
  rw [left, Path.follow_append, Path.follow_names named] at same
  rw [left, walk_append]
  refine ⟨_, walk_ups h start ups, ?_⟩
  rw [← same] at found ⊢
  exact walk_names h named short' found

theorem locate_clean (h : fs.Grounded) (legal : 0 ∉ p)
    (start : fs.at? (fs.origin p) = some .directory)
    (short : ∀ c ∈ Path.components p, c.length ≤ maxName)
    (found : fs.at? (follow (fs.origin p) (Path.components p)) = some .directory) :
    fs.locate (Path.clean p) = .ok (follow (fs.origin p) (Path.components p)) := by
  have legal' : 0 ∉ Path.clean p := by
    intro zero
    rcases Path.mem_clean zero with here | slash | dot
    · exact legal here
    · revert slash
      decide
    · revert dot
      decide
  have begins : fs.origin (Path.clean p) = fs.origin p := by
    rw [origin, Path.is_rooted_clean]
    rfl
  have root : Path.isRooted p = true → fs.origin p = [] := fun rooted => if_pos rooted
  have reduced := walk_reduce h root start short found
  rw [locate_eq_ok, begins, Path.components_clean]
  refine ⟨legal', Path.clean_ne_nil p, walk_append.mpr ⟨fs.origin p, ?_, ?_⟩⟩
  · cases Path.isRooted p with
    | false => rfl
    | true => exact walk_cons.mpr ⟨start, _, rfl, rfl⟩
  · by_cases nothing : Path.reduce (Path.isRooted p) (Path.components p) = []
    · rw [nothing] at reduced
      rw [if_pos nothing]
      cases Path.isRooted p <;> exact walk_cons.mpr ⟨start, _, rfl, reduced⟩
    · rw [if_neg nothing]
      exact reduced

/-! ## Contents -/

/-- The contents that a path leads to, if it leads to a file. -/
def contents? (fs : FileSystem) (p : Bytes) : Option Bytes :=
  match fs.lookup p with
  | .ok (.file s) => some s
  | _ => none

theorem contents_eq_some : fs.contents? p = some contents ↔
    ∃ q, fs.locate p = .ok q ∧ fs.at? q = some (.file contents) := by
  rw [← lookup_eq_ok, contents?]
  split
  · rename_i s found
    rw [found]
    simp
  · rename_i other
    simp only [reduceCtorEq, false_iff]
    exact other contents

theorem read_file_eq_ok : fs.readFile p = .ok contents ↔
    fs.refuses .read p = none ∧ fs.contents? p = some contents := by
  unfold readFile contents?
  cases fs.refuses .read p with
  | some r => simp [refusal]
  | none =>
    cases fs.lookup p with
    | error r => simp [refusal]
    | ok e => cases e <;> simp [refusal]

theorem read_file_eq_error {f : Failure} (h : fs.readFile p = .error f) :
    ∃ request r, f = .of (.file request p r) := by
  unfold readFile at h
  split at h
  · cases h
    exact ⟨_, _, rfl⟩
  · split at h
    · cases h
      exact ⟨_, _, rfl⟩
    · cases h
      exact ⟨_, _, rfl⟩
    · cases h

/-- Paths lead to the same contents where the same directories stand and the place of the path is
as it was. -/
theorem contents_congr (same : ∀ q, fs'.at? q = some .directory ↔ fs.at? q = some .directory)
    (start : fs'.start = fs.start)
    (kept : ∀ q, fs.locate p = .ok q → fs'.at? q = fs.at? q) :
    fs'.contents? p = fs.contents? p := by
  have located : ∀ q, fs'.locate p = .ok q ↔ fs.locate p = .ok q := by
    intro q
    rw [locate_eq_ok, locate_eq_ok, origin, origin, start]
    have walked : ∀ a cs, fs'.walk a cs = .ok q ↔ fs.walk a cs = .ok q := fun a cs =>
      ⟨walk_keeps fun d => (same d).mp, walk_keeps fun d => (same d).mpr⟩
    rw [walked]
  apply Option.ext
  intro s
  rw [contents_eq_some, contents_eq_some]
  constructor
  · rintro ⟨q, there, found⟩
    have there' := (located q).mp there
    exact ⟨q, there', by rw [← kept q there', found]⟩
  · rintro ⟨q, there, found⟩
    exact ⟨q, (located q).mpr there, by rw [kept q there, found]⟩

/-! ## Putting and erasing -/

theorem Grounded.put (h : fs.Grounded) (solid : Path.slash ∉ c) (dir : fs.at? d = some .directory)
    (free : fs.at? (d ++ [c]) = some .directory → e = .directory) :
    (fs.put (d ++ [c]) e).Grounded := by
  have new : fs.at? (d ++ [c]) = fs.entries.find? (key (d ++ [c])) := at_of_ne_nil (by simp)
  -- A directory other than the new entry is one of the old; the new entry is none, or still one.
  have keeps : ∀ a, fs.entries.find? a = some .directory →
      (fs.put (d ++ [c]) e).entries.find? a = some .directory := by
    intro a found
    show (fs.entries.insert _ _).find? a = _
    rw [Dict.find_insert]
    split
    · rename_i same
      rw [free (by rw [new, ← same, found])]
    · exact found
  intro a b e' found
  apply keeps
  change (fs.entries.insert _ _).find? _ = _ at found
  rw [Dict.find_insert] at found
  split at found
  · rename_i same
    by_cases top : d = []
    · subst top
      exact absurd (by rw [← show a ++ Path.slash :: b = c from same]; simp) solid
    · rw [key_snoc top] at same
      rw [at_of_ne_nil top] at dir
      -- The last slash of the key is the one before the name.
      rcases List.append_eq_append_iff.mp same with ⟨r, left, right⟩ | ⟨r, left, right⟩
      · cases r with
        | nil =>
          rw [List.append_nil] at left
          rw [← left]
          exact dir
        | cons x r =>
          obtain ⟨rfl, _⟩ := List.cons.inj right
          rw [left] at dir
          exact h _ _ _ dir
      · cases r with
        | nil =>
          rw [List.append_nil] at left
          rw [left]
          exact dir
        | cons x r =>
          obtain ⟨_, inside⟩ := List.cons.inj right
          exact absurd (by rw [inside]; simp) solid
  · exact h a b e' found

theorem Grounded.erase (h : fs.Grounded)
    (clear : ∀ b e, fs.entries.find? (key place ++ Path.slash :: b) ≠ some e) :
    (fs.erase place).Grounded := by
  intro a b e found
  change (fs.entries.erase _).find? _ = _ at found
  show (fs.entries.erase _).find? _ = _
  rw [Dict.find_erase] at found ⊢
  split at found
  · cases found
  · have above := h a b e found
    by_cases here : a = key place
    · rw [here] at found
      exact absurd found (clear b e)
    · rw [if_neg here, above]

theorem Grounded.erase_file (h : fs.Grounded) (found : fs.at? place = some (.file contents)) :
    (fs.erase place).Grounded := by
  have used : place ≠ [] := by
    rintro rfl
    cases found
  rw [at_of_ne_nil used] at found
  apply h.erase
  intro b e below
  have above := h _ b e below
  rw [found] at above
  cases above

/-! ## Requests on files -/

theorem put_directory_iff (other : fs.at? place ≠ some .directory) (contents : Bytes)
    (q : List Bytes) : (fs.put place (.file contents)).at? q = some .directory ↔
      fs.at? q = some .directory := by
  refine ⟨fun found => ?_, put_keeps other contents q⟩
  rw [at_put] at found
  split at found
  · rename_i top
    rw [top]
    rfl
  · split at found
    · cases found
    · exact found

theorem locate_put (other : fs.at? place ≠ some .directory) :
    (fs.put place (.file contents)).locate p = .ok q ↔ fs.locate p = .ok q := by
  have same := put_directory_iff other contents
  rw [locate_eq_ok, locate_eq_ok]
  refine and_congr_right fun _ => and_congr_right fun _ => ?_
  exact ⟨walk_keeps fun d => (same d).mp, walk_keeps fun d => (same d).mpr⟩

theorem put_file_grounded (h : fs.Grounded) (located : fs.locate p = .ok place)
    (other : fs.at? place ≠ some .directory) (s : Bytes) : (fs.put place (.file s)).Grounded := by
  rcases locate_cases h located with directory | ⟨named, d, rfl, directory⟩
  · exact absurd directory other
  · exact h.put named.solid directory fun found => absurd found other

theorem contents_put (located : fs.locate p = .ok place) (other : fs.at? place ≠ some .directory)
    (s : Bytes) : (fs.put place (.file s)).contents? p = some s := by
  have top : place ≠ [] := by
    rintro rfl
    exact other rfl
  rw [contents_eq_some]
  exact ⟨place, (locate_put other).mpr located, by simp [at_put, top]⟩

theorem write_file_grounded (h : fs.Grounded) (p contents : Bytes) :
    (fs.writeFile p contents).files.Grounded := by
  rcases write_file_cases fs p contents with ⟨f, failed⟩ | ⟨place, located, other, done⟩
  · rw [failed]
    exact h
  · rw [done]
    exact put_file_grounded h located other contents

/-- Removing fails and changes nothing, or takes away a file or a directory with nothing below. -/
theorem remove_cases (fs : FileSystem) (p : Bytes) :
    (∃ f, fs.remove p = ⟨fs, fail f⟩) ∨
      ∃ place, fs.locate p = .ok place ∧
        ((∃ s, fs.at? place = some (.file s)) ∨ fs.hasBelow place = false) ∧
        fs.remove p = ⟨fs.erase place, .ok ()⟩ := by
  unfold remove
  split
  · exact .inl ⟨_, rfl⟩
  · split
    · exact .inl ⟨_, rfl⟩
    · rename_i place located
      split
      · exact .inl ⟨_, rfl⟩
      · rename_i s found
        exact .inr ⟨place, located, .inl ⟨s, found⟩, rfl⟩
      · split
        · exact .inl ⟨_, rfl⟩
        · split
          · exact .inl ⟨_, rfl⟩
          · rename_i nothing
            exact .inr ⟨place, located, .inr (by simpa using nothing), rfl⟩

theorem nothing_below (h : fs.hasBelow place = false) (b : Bytes) (e : FileEntry) :
    fs.entries.find? (key place ++ Path.slash :: b) ≠ some e := by
  intro found
  have begins := Bytes.drop_beginning_append (key place ++ [Path.slash]) b
  rw [← List.append_cons] at begins
  have mem := List.mem_map_of_mem (f := Prod.fst) (Dict.find_eq_some_iff.mp found)
  refine List.any_eq_false.mp h _ mem ?_
  rw [Bytes.beginsWith, begins]
  rfl

theorem remove_grounded (h : fs.Grounded) (p : Bytes) : (fs.remove p).files.Grounded := by
  rcases remove_cases fs p with ⟨f, failed⟩ | ⟨place, _, ⟨s, found⟩ | nothing, done⟩
  · rw [failed]
    exact h
  · rw [done]
    exact h.erase_file found
  · rw [done]
    exact h.erase (nothing_below nothing)

/-! ## Making directories -/

/-- What making directories from a place can do: where there was nothing, there may be directories
afterwards, unless that place is no directory itself. -/
structure Furnished (place : List Bytes) (fs fs' : FileSystem) : Prop where
  start : fs'.start = fs.start
  refuses : fs'.refuses = fs.refuses
  keeps : ∀ k e, fs.entries.find? k = some e → fs'.entries.find? k = some e
  only : ∀ k e, fs'.entries.find? k = some e → fs.entries.find? k = some e ∨ e = .directory
  grounded : fs.Grounded → fs'.Grounded
  begun : fs' = fs ∨ fs.at? place = some .directory

theorem Furnished.refl (place : List Bytes) (fs : FileSystem) : Furnished place fs fs :=
  ⟨rfl, rfl, fun _ _ => id, fun _ _ => .inl, id, .inl rfl⟩

theorem Furnished.trans {fs'' : FileSystem} (h : Furnished place fs fs')
    (h' : Furnished place fs' fs'') : Furnished place fs fs'' where
  start := h'.start.trans h.start
  refuses := h'.refuses.trans h.refuses
  keeps k e found := h'.keeps k e (h.keeps k e found)
  only k e found := (h'.only k e found).elim (h.only k e) .inr
  grounded := h'.grounded ∘ h.grounded
  begun := by
    rcases h.begun with rfl | begun
    · exact h'.begun
    · exact .inr begun

theorem Furnished.at_keeps (h : Furnished place fs fs') {q : List Bytes}
    (found : fs.at? q = some e) : fs'.at? q = some e := by
  by_cases top : q = []
  · rw [top] at found ⊢
    exact found
  · rw [at_of_ne_nil top] at found ⊢
    exact h.keeps _ _ found

theorem Furnished.at_only (h : Furnished place fs fs') {q : List Bytes}
    (found : fs'.at? q = some (.file contents)) : fs.at? q = some (.file contents) := by
  have top : q ≠ [] := by
    rintro rfl
    cases found
  rw [at_of_ne_nil top] at found ⊢
  rcases h.only _ _ found with old | new
  · exact old
  · cases new

theorem Furnished.located (h : Furnished place fs fs') (found : fs.locate p = .ok q) :
    fs'.locate p = .ok q := by
  rw [locate_eq_ok, origin] at found ⊢
  rw [h.start]
  exact ⟨found.1, found.2.1, walk_keeps (fun _ => h.at_keeps) found.2.2⟩

/-- The contents of the file at a key, if a file is there. -/
def fileAt (fs : FileSystem) (k : Bytes) : Option Bytes :=
  match fs.entries.find? k with
  | some (.file s) => some s
  | _ => none

theorem file_at_put (fs : FileSystem) (place : List Bytes) (s k : Bytes) :
    (fs.put place (.file s)).fileAt k = if k = key place then some s else fs.fileAt k := by
  unfold fileAt
  show (match (fs.entries.insert _ _).find? k with
    | some (.file s) => some s
    | _ => none) = _
  rw [Dict.find_insert]
  by_cases here : k = key place <;> simp [here]

theorem Furnished.file_at (h : Furnished place fs fs') (k : Bytes) :
    fs'.fileAt k = fs.fileAt k := by
  unfold fileAt
  cases old : fs.entries.find? k with
  | some e => rw [h.keeps k e old]
  | none =>
    cases new : fs'.entries.find? k with
    | none => rfl
    | some e =>
      rcases h.only k e new with there | rfl
      · cases old.symm.trans there
      · rfl

theorem put_directory_furnished (located : fs.locate p = .ok place) (free : fs.at? place = none) :
    Furnished (fs.origin p) fs (fs.put place .directory) := by
  have top : place ≠ [] := by
    rintro rfl
    cases free
  have fresh : fs.entries.find? (key place) = none := by rw [← at_of_ne_nil top, free]
  refine ⟨rfl, rfl, ?_, ?_, ?_, .inr (locate_origin located)⟩
  · intro k e found
    have other : k ≠ key place := by
      rintro rfl
      cases fresh.symm.trans found
    show (fs.entries.insert _ _).find? k = _
    rw [Dict.find_insert, if_neg other, found]
  · intro k e found
    change (fs.entries.insert _ _).find? k = _ at found
    rw [Dict.find_insert] at found
    split at found
    · exact .inr (Option.some.inj found).symm
    · exact .inl found
  · intro h
    rcases locate_cases h located with directory | ⟨named, d, rfl, directory⟩
    · cases free.symm.trans directory
    · exact h.put named.solid directory fun _ => rfl

theorem is_rooted_begins {above : Bytes} (used : above ≠ []) (h : above <+: p) :
    Path.isRooted above = Path.isRooted p := by
  obtain ⟨rest, rfl⟩ := h
  cases above with
  | nil => exact absurd rfl used
  | cons b above => rfl

theorem trim_right_begins (p : Bytes) : Bytes.trimRight Path.slash p <+: p := by
  obtain ⟨n, split⟩ := @Bytes.trim_right_append Path.slash p
  exact ⟨_, split.symm⟩

theorem trim_end_append (p : Bytes) : ∃ n, p = Path.trimEnd p ++ List.replicate n Path.slash := by
  unfold Path.trimEnd
  dsimp only
  split
  · exact ⟨0, by simp⟩
  · exact Bytes.trim_right_append p

theorem trim_end_eq_nil : Path.trimEnd p = [] ↔ p = [] := by
  unfold Path.trimEnd
  dsimp only
  split
  · exact Iff.rfl
  · rename_i some
    simp only [List.isEmpty_iff] at some
    constructor
    · intro nothing
      exact absurd nothing some
    · rintro rfl
      exact absurd rfl some

theorem components_trim_end (p : Bytes) :
    ∃ n, Path.components p = Path.components (Path.trimEnd p) ++ List.replicate n [] := by
  obtain ⟨n, split⟩ := trim_end_append p
  refine ⟨n, ?_⟩
  conv_lhs => rw [split]
  exact Bytes.split_on_append_replicate _ n

theorem origin_trim_end (fs : FileSystem) (p : Bytes) :
    fs.origin (Path.trimEnd p) = fs.origin p := by
  by_cases nothing : p = []
  · rw [nothing]
    rfl
  · obtain ⟨n, split⟩ := trim_end_append p
    rw [origin, is_rooted_begins (mt trim_end_eq_nil.mp nothing) ⟨_, split.symm⟩]
    rfl

theorem walk_idle (h : fs.at? d = some .directory) (n : Nat) :
    fs.walk d (List.replicate n []) = .ok d := by
  induction n with
  | zero => rfl
  | succ n ih => exact walk_cons.mpr ⟨h, d, rfl, ih⟩

/-- Slashes after the last component do not count if the path leads to a directory. -/
theorem locate_of_trim_end (located : fs.locate (Path.trimEnd p) = .ok d)
    (directory : fs.at? d = some .directory) : fs.locate p = .ok d := by
  obtain ⟨legal, used, walked⟩ := locate_eq_ok.mp located
  obtain ⟨n, split⟩ := components_trim_end p
  rw [origin_trim_end] at walked
  rw [locate_eq_ok, split]
  refine ⟨?_, mt trim_end_eq_nil.mpr used, walk_append.mpr ⟨d, walked, walk_idle directory n⟩⟩
  obtain ⟨m, whole⟩ := trim_end_append p
  rw [whole, List.mem_append, not_or]
  exact ⟨legal, fun mem => absurd (List.eq_of_mem_replicate mem) (by decide)⟩

/-- Making one directory fails and changes nothing, or puts it where its path leads. -/
theorem mkdir_cases (fs : FileSystem) (p : Bytes) :
    (∃ f, fs.mkdir p = ⟨fs, fail f⟩) ∨
      ∃ place, fs.locate (Path.trimEnd p) = .ok place ∧ fs.at? place = none ∧
        fs.mkdir p = ⟨fs.put place .directory, .ok ()⟩ := by
  unfold mkdir
  split
  · exact .inl ⟨_, rfl⟩
  · split
    · exact .inl ⟨_, rfl⟩
    · rename_i place located
      split
      · exact .inl ⟨_, rfl⟩
      · rename_i free
        exact .inr ⟨place, located, free, rfl⟩

theorem mkdir_furnished (fs : FileSystem) (p : Bytes) :
    Furnished (fs.origin p) fs (fs.mkdir p).files ∧
      ((fs.mkdir p).outcome = .ok () → (fs.mkdir p).files.lookup p = .ok .directory) := by
  rcases mkdir_cases fs p with ⟨f, failed⟩ | ⟨place, located, free, done⟩
  · rw [failed]
    exact ⟨.refl _ _, fun done => absurd done (fail_ne_ok _ _)⟩
  · rw [done]
    have furnished := put_directory_furnished located free
    have made : (fs.put place .directory).at? place = some .directory := by simp [at_put]
    have there := locate_of_trim_end (furnished.located located) made
    rw [origin_trim_end] at furnished
    exact ⟨furnished, fun _ => lookup_eq_ok.mpr ⟨place, there, made⟩⟩

theorem is_rooted_parent {above : Bytes} (h : parent? p = some above) :
    Path.isRooted above = Path.isRooted p := by
  have trimmed := trim_right_begins p
  unfold parent? at h
  dsimp only at h
  split at h
  · rename_i long
    cases h
    apply is_rooted_begins
    · intro nothing
      have length := congrArg List.length nothing
      rw [List.length_dropLast, List.length_nil] at length
      omega
    · refine List.IsPrefix.trans ?_ trimmed
      exact List.IsPrefix.trans ( List.dropLast_prefix _) ( List.take_prefix _ _)
  · cases h

theorem is_directory_iff : fs.isDirectory p = true ↔ fs.lookup p = .ok .directory := by
  unfold isDirectory
  split
  · rename_i found
    simp [found]
  · rename_i other
    simpa using other

theorem make_last_furnished {made : Change} (h : Furnished (fs.origin p) fs made.files) :
    Furnished (fs.origin p) fs (makeLast p made).files ∧
      ((makeLast p made).outcome = .ok () → (makeLast p made).files.lookup p = .ok .directory) := by
  obtain ⟨made', found⟩ := mkdir_furnished made.files p
  have begins : made.files.origin p = fs.origin p := by
    rw [origin, h.start]
    rfl
  rw [begins] at made'
  unfold makeLast
  split
  · exact ⟨h, nofun⟩
  · dsimp only
    split
    · rename_i done
      exact ⟨h.trans made', fun _ => found done⟩
    · split
      · rename_i there
        exact ⟨h.trans made', fun _ => is_directory_iff.mp there⟩
      · exact ⟨h.trans made', nofun⟩

/-- Making a directory and those above it makes directories only, and after success the directory is
there. -/
theorem mkdir_all_within_furnished (depth : Nat) (fs : FileSystem) (p : Bytes) :
    Furnished (fs.origin p) fs (mkdirAllWithin depth fs p).files ∧
      ((mkdirAllWithin depth fs p).outcome = .ok () →
        (mkdirAllWithin depth fs p).files.lookup p = .ok .directory) := by
  induction depth generalizing p with
  | zero =>
    unfold mkdirAllWithin
    split
    · rename_i found
      exact ⟨.refl _ _, fun _ => found⟩
    · exact ⟨.refl _ _, fun done => absurd done (fail_ne_ok _ _)⟩
    · exact make_last_furnished (.refl _ _)
  | succ depth ih =>
    unfold mkdirAllWithin
    split
    · rename_i found
      exact ⟨.refl _ _, fun _ => found⟩
    · exact ⟨.refl _ _, fun done => absurd done (fail_ne_ok _ _)⟩
    · apply make_last_furnished
      cases up : parent? p with
      | none => exact .refl _ _
      | some above =>
        have begins : fs.origin above = fs.origin p := by
          rw [origin, is_rooted_parent up]
          rfl
        rw [← begins]
        exact (ih above).1

theorem mkdir_all_furnished (fs : FileSystem) (p : Bytes) :
    Furnished (fs.origin p) fs (fs.mkdirAll p).files ∧
      ((fs.mkdirAll p).outcome = .ok () → (fs.mkdirAll p).files.lookup p = .ok .directory) :=
  mkdir_all_within_furnished p.length fs p

theorem mkdir_all_of_directory (h : fs.lookup p = .ok .directory) :
    fs.mkdirAll p = ⟨fs, .ok ()⟩ := by
  unfold mkdirAll mkdirAllWithin
  rw [h]

/-- Making the directory of a path changes nothing about the contents at the path. -/
theorem contents_mkdir_all (h : fs.Grounded) (p : Bytes) :
    (fs.mkdirAll (Path.directory p)).files.contents? p = fs.contents? p := by
  obtain ⟨before, init, dir, split, rooted, leads, parts, bytes⟩ := Path.directory_spec p
  have begins : fs.origin (Path.directory p) = fs.origin p := by
    rw [origin, dir, Path.is_rooted_clean, rooted]
    rfl
  obtain ⟨furnished, _⟩ := mkdir_all_furnished fs (Path.directory p)
  rw [begins] at furnished
  rcases furnished.begun with same | start
  · rw [same]
  apply Option.ext
  intro s
  constructor
  · -- The file stood there before, so its directory did too, and nothing had to be made.
    intro found
    obtain ⟨q, located, stands⟩ := contents_eq_some.mp found
    obtain ⟨legal, _, walked⟩ := locate_eq_ok.mp located
    obtain ⟨place, short⟩ := walk_follow walked
    rw [origin, furnished.start, ← origin, split, Path.follow_snoc] at place
    have old := furnished.at_only stands
    rcases locate_cases (furnished.grounded h) located with directory | ⟨named, d, rfl, _⟩
    · cases stands.symm.trans directory
    rw [Path.step_name named.some named.notDot named.notDotDot] at place
    obtain rfl := List.append_inj_left' place rfl
    have begins' : fs.origin before = fs.origin p := by
      rw [origin, rooted]
      rfl
    have short' : ∀ c ∈ Path.components before, c.length ≤ maxName := by
      intro c hc
      rcases parts c hc with mem | rfl
      · exact short c (by simp [split, mem])
      · exact Nat.zero_le _
    have there : fs.lookup (Path.directory p) = .ok .directory := by
      have found' := h.above old
      rw [dir, lookup_eq_ok]
      refine ⟨_, locate_clean h (fun zero => legal (bytes 0 zero)) ?_ short' ?_, ?_⟩ <;>
        simp only [begins', leads, found', start]
    rw [mkdir_all_of_directory there] at found
    exact found
  · intro found
    obtain ⟨q, located, stands⟩ := contents_eq_some.mp found
    exact contents_eq_some.mpr ⟨q, furnished.located located, furnished.at_keeps stands⟩

end Overworld.FileSystem
