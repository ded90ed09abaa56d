import Overworld.Proofs.OutputDirectories

/-!
# Files of a source directory

A path is refused exactly if, read from left to right, it has gone up more often than down at some
point. Any other path leads from the root of the source down to a file below it. So it does not
matter what stands elsewhere.
-/

set_option autoImplicit false

namespace Overworld

namespace Path

variable {c p root : Bytes} {above cs names : List Bytes}

/-! ## Going up -/

def isOrdinary (c : Bytes) : Bool := c ≠ [] && c ≠ dot && c ≠ dotDot

/-- At some point of the components more of them have gone up than down. -/
def Escapes (cs : List Bytes) : Prop :=
  ∃ seen, seen <+: cs ∧ seen.countP isOrdinary < seen.count dotDot

theorem component_cases (c : Bytes) :
    (c.isEmpty || c = dot) = true ∨ c = dotDot ∨ isOrdinary c = true := by
  simp only [isOrdinary, Bool.or_eq_true, Bool.and_eq_true, List.isEmpty_iff, decide_eq_true_eq]
  tauto

theorem push_idle (h : (c.isEmpty || c = dot) = true) (rooted : Bool) (above : List Bytes) :
    push rooted above c = above := if_pos h

theorem push_back (h : c ≠ dotDot) (rooted : Bool) (above : List Bytes) :
    push rooted (c :: above) dotDot = above := if_neg h

theorem push_ordinary (h : isOrdinary c = true) (rooted : Bool) (above : List Bytes) :
    push rooted above c = c :: above := by
  simp only [isOrdinary, Bool.and_eq_true, decide_eq_true_eq] at h
  simp [push, h]

theorem up_mem_push (h : dotDot ∈ above) (c : Bytes) : dotDot ∈ push false above c := by
  unfold push
  split
  · exact h
  · split
    · cases above with
      | nil => cases h
      | cons last rest =>
        dsimp only
        split
        · exact List.mem_cons_self
        · rename_i other
          exact (List.mem_cons.mp h).resolve_left (Ne.symm other)
    · exact List.mem_cons_of_mem _ h

theorem up_mem_foldl (h : dotDot ∈ above) (cs : List Bytes) :
    dotDot ∈ cs.foldl (push false) above := by
  induction cs generalizing above with
  | nil => exact h
  | cons c cs ih => exact ih (up_mem_push h c)

theorem exists_seen_cons (depth : Nat) (c : Bytes) (cs : List Bytes) :
    (∃ seen, seen <+: c :: cs ∧ depth + seen.countP isOrdinary < seen.count dotDot) ↔
      ∃ seen, seen <+: cs ∧
        depth + (c :: seen).countP isOrdinary < (c :: seen).count dotDot := by
  constructor
  · rintro ⟨seen, begins, more⟩
    rcases List.prefix_cons_iff.mp begins with rfl | ⟨rest, rfl, later⟩
    · simp at more
    · exact ⟨rest, later, more⟩
  · rintro ⟨seen, begins, more⟩
    exact ⟨c :: seen, List.prefix_cons_iff.mpr (.inr ⟨seen, rfl, begins⟩), more⟩

/-- A step up is left over from components after names exactly if there are too few names for it at
some point. -/
theorem up_mem_foldl_push (named : dotDot ∉ above) :
    dotDot ∈ cs.foldl (push false) above ↔
      ∃ seen, seen <+: cs ∧ above.length + seen.countP isOrdinary < seen.count dotDot := by
  induction cs generalizing above with
  | nil => simp [named]
  | cons c cs ih =>
    rw [List.foldl_cons, exists_seen_cons]
    rcases component_cases c with skip | rfl | ordinary
    · have idle : isOrdinary c = false ∧ c ≠ dotDot := by
        simp only [Bool.or_eq_true, List.isEmpty_iff, decide_eq_true_eq] at skip
        rcases skip with rfl | rfl <;> decide
      rw [push_idle skip, ih named]
      simp [idle]
    · have up : isOrdinary dotDot = false := by decide
      cases above with
      | nil =>
        -- nothing is left to take back, and a step up that is left stays to the end
        have stays : dotDot ∈ cs.foldl (push false) (push false [] dotDot) :=
          up_mem_foldl List.mem_cons_self cs
        simp only [stays, true_iff]
        exact ⟨[], List.nil_prefix, by decide⟩
      | cons last rest =>
        simp only [List.mem_cons, not_or] at named
        rw [push_back (Ne.symm named.1), ih named.2]
        simp only [List.length_cons, List.countP_cons_of_neg (Bool.eq_false_iff.mp up),
          List.count_cons_self, Nat.add_right_comm _ 1, Nat.add_lt_add_iff_right]
    · have other : c ≠ dotDot := by
        rintro rfl
        revert ordinary
        decide
      rw [push_ordinary ordinary, ih (by simp [named, Ne.symm other])]
      simp only [List.length_cons, List.countP_cons_of_pos ordinary, List.count_cons_of_ne other]
      simp only [Nat.add_right_comm, Nat.add_assoc]

theorem up_mem_reduce : dotDot ∈ reduce false cs ↔ Escapes cs := by
  rw [reduce, List.mem_reverse, up_mem_foldl_push (by simp)]
  simp [Escapes]

/-! ## Going down -/

theorem is_name_of_reduce (stays : ¬ Escapes (components p)) :
    ∀ n ∈ reduce false (components p), IsName n := by
  obtain ⟨ups, names, left, _, named⟩ := reduce_up_down false (components p)
  rw [← up_mem_reduce] at stays
  intro n hn
  obtain ⟨solid, some⟩ := mem_reduce_components hn
  have down : n ≠ dotDot := fun up => stays (up ▸ hn)
  rw [left] at hn
  rcases List.mem_append.mp hn with up | name
  · exact absurd (List.eq_of_mem_replicate up) down
  · exact ⟨solid, some, (named n name).2.1, down⟩

theorem follow_is_names (named : ∀ n ∈ names, IsName n) (place : List Bytes) :
    follow place names = place ++ names :=
  follow_names fun n hn => ⟨(named n hn).some, (named n hn).notDot, (named n hn).notDotDot⟩

theorem reduce_append_names (named : ∀ n ∈ names, IsName n) (rooted : Bool) (cs : List Bytes) :
    reduce rooted (cs ++ names) = reduce rooted cs ++ names := by
  induction names generalizing cs with
  | nil => simp
  | cons n names ih =>
    obtain ⟨first, rest⟩ := List.forall_mem_cons.mp named
    rw [List.append_cons cs n names, ih rest, reduce_name first, List.append_assoc,
      List.singleton_append]

theorem reduce_idle (h : (c.isEmpty || c = dot) = true) (rooted : Bool) (cs : List Bytes) :
    reduce rooted (cs ++ [c]) = reduce rooted cs := by
  simp [reduce, push_idle h]

theorem reduce_trim (p : Bytes) :
    reduce false (components (Bytes.trimLeft slash p)) = reduce false (components p) := by
  induction p with
  | nil => rfl
  | cons b p ih =>
    by_cases here : b = slash
    · rw [here, components_slash]
      exact ih
    · simp [Bytes.trimLeft, here]

theorem clean_congr {q : Bytes} (rooted : isRooted q = isRooted p)
    (same : reduce (isRooted p) (components q) = reduce (isRooted p) (components p)) :
    clean q = clean p := by
  unfold clean
  rw [rooted, same]

theorem components_clean_idle (p : Bytes) : components (clean p) = folder p ∨
    ∃ c, (c.isEmpty || c = dot) = true ∧ components (clean p) = folder p ++ [c] := by
  rw [components_clean, folder]
  by_cases nothing : reduce (isRooted p) (components p) = []
  · rw [if_pos nothing, nothing]
    refine .inr ⟨if isRooted p then [] else dot, ?_, by simp⟩
    cases isRooted p <;> rfl
  · rw [if_neg nothing]
    exact .inl rfl

theorem components_clean_names {q : Bytes} (some : names ≠ []) (rooted : isRooted q = isRooted p)
    (below : reduce (isRooted p) (components q) = reduce (isRooted p) (components p) ++ names) :
    components (clean q) = folder p ++ names := by
  have used : reduce (isRooted p) (components p) ++ names ≠ [] := by simp [some]
  rw [components_clean, rooted, below, if_neg used, folder, List.append_assoc]

end Path

namespace FileSystem

open Overworld.Path (components folder follow IsName)

variable {fs fs' : FileSystem} {c n p root : Bytes} {place q cs ds names : List Bytes}

/-! ## What stands at the end of a walk -/

/-- What stands at a place, as the answer to a request. -/
def found (fs : FileSystem) (place : List Bytes) : Except FileReason FileEntry :=
  (fs.at? place).elim (.error .notFound) .ok

/-- What components lead to from a place. -/
def reach (fs : FileSystem) (place cs : List Bytes) : Except FileReason FileEntry :=
  (fs.walk place cs).bind fs.found

/-- What components lead to from a place where this stands. -/
def enter (fs : FileSystem) (place cs : List Bytes) : FileEntry → Except FileReason FileEntry
  | .directory => fs.reach place cs
  | .file _ => .error .notDirectory

theorem walk_append_bind : fs.walk place (cs ++ ds) =
    (fs.walk place cs).bind fun q => fs.walk q ds := by
  induction cs generalizing place with
  | nil => rfl
  | cons c cs ih =>
    rw [List.cons_append, walk, walk]
    split
    · rfl
    · rfl
    · split
      · exact ih
      · split
        · exact ih
        · split
          · rfl
          · exact ih

theorem lookup_eq_reach (legal : 0 ∉ p) (some : p ≠ []) :
    fs.lookup p = fs.reach (fs.origin p) (components p) := by
  have located : fs.locate p = fs.walk (fs.origin p) (components p) := by
    simp [locate, legal, some, origin]
  rw [lookup, located, reach]
  cases fs.walk (fs.origin p) (components p) with
  | error r => rfl
  | ok q => cases there : fs.at? q <;> simp [bind, Except.bind, found, there]

theorem reach_append : fs.reach place (cs ++ ds) =
    (fs.walk place cs).bind fun q => fs.reach q ds := by
  rw [reach, walk_append_bind]
  cases fs.walk place cs <;> rfl

/-- To reach anything from a place, a directory has to stand there. -/
theorem reach_enter (some : cs ≠ []) :
    fs.reach place cs = (fs.found place).bind (fs.enter place cs) := by
  cases cs with
  | nil => exact absurd rfl some
  | cons c cs =>
    cases there : fs.at? place with
    | none => simp [reach, walk, found, there, Except.bind]
    | some e => cases e <;> simp [reach, walk, found, there, Except.bind, enter]

theorem reach_idle (idle : (c.isEmpty || c = Path.dot) = true) :
    (fs.reach place [c]).bind (fs.enter place cs) = (fs.found place).bind (fs.enter place cs) := by
  rw [reach_enter (List.cons_ne_nil c [])]
  cases there : fs.at? place with
  | none => simp [found, there, Except.bind]
  | some e =>
    cases e with
    | file s => simp [found, there, Except.bind, enter]
    | directory =>
      have stays : fs.walk place [c] = .ok place :=
        walk_cons.mpr ⟨there, place, if_pos idle, rfl⟩
      simp [found, there, Except.bind, enter, reach, stays]

/-- What stands below a path depends on the path only by what stands at its end. -/
theorem reach_below (some : names ≠ []) (p : Bytes) (place : List Bytes) :
    fs.reach place (folder p ++ names) =
      (fs.reach place (components (Path.clean p))).bind
        (fs.enter (follow place (folder p)) names) := by
  have walked : ∀ q, fs.walk place (folder p) = .ok q → q = follow place (folder p) :=
    fun q h => (walk_follow h).1
  rw [reach_append]
  rcases Path.components_clean_idle p with same | ⟨c, idle, same⟩
  · rw [same, reach]
    cases h : fs.walk place (folder p) with
    | error r => rfl
    | ok q =>
      cases walked q h
      exact reach_enter some
  · rw [same, reach_append]
    cases h : fs.walk place (folder p) with
    | error r => rfl
    | ok q =>
      cases walked q h
      exact (reach_enter some).trans (reach_idle idle).symm

theorem reach_agree (named : ∀ n ∈ names, IsName n) {place' : List Bytes}
    (same : ∀ more, (∀ n ∈ more, IsName n) → fs'.at? (place' ++ more) = fs.at? (place ++ more)) :
    fs'.reach place' names = fs.reach place names := by
  induction names generalizing place place' with
  | nil =>
    have here := same [] (by simp)
    simp only [List.append_nil] at here
    simp [reach, walk, Except.bind, found, here]
  | cons n names ih =>
    obtain ⟨first, rest⟩ := List.forall_mem_cons.mp named
    have next : fs'.reach (place' ++ [n]) names = fs.reach (place ++ [n]) names := by
      apply ih rest
      intro more hmore
      rw [List.append_assoc, List.append_assoc]
      exact same (n :: more) (List.forall_mem_cons.mpr ⟨first, hmore⟩)
    have here := same [] (by simp)
    simp only [List.append_nil] at here
    simp only [reach, walk, here, List.isEmpty_iff, first.some, first.notDot, first.notDotDot,
      decide_false, Bool.or_false, if_false] at next ⊢
    split
    · rfl
    · rfl
    · split
      · rfl
      · exact next

/-! ## File systems that agree below a directory -/

/-- Two file systems have the same at a directory and below it. -/
structure AgreeBelow (root : Bytes) (fs fs' : FileSystem) : Prop where
  itself : fs'.lookup (Path.clean root) = fs.lookup (Path.clean root)
  below : ∀ names, (∀ n ∈ names, IsName n) →
    fs'.at? (fs'.placeOf root ++ names) = fs.at? (fs.placeOf root ++ names)
  reading : ∀ rel, Path.dotDot ∉ components rel →
    fs'.refuses .read (Path.join [root, rel]) = fs.refuses .read (Path.join [root, rel])

theorem mem_clean_below (split : components p = folder root ++ names) (h : 0 ∈ Path.clean root) :
    0 ∈ p := by
  obtain ⟨c, part, mem⟩ := Bytes.mem_split_on h (by decide : (0 : UInt8) ≠ Path.slash)
  change c ∈ components (Path.clean root) at part
  have kept : c ∈ folder root := by
    rcases Path.components_clean_idle root with same | ⟨d, idle, same⟩
    · exact same ▸ part
    · rw [same] at part
      rcases List.mem_append.mp part with before | last
      · exact before
      · rw [List.mem_singleton.mp last] at mem
        simp only [Bool.or_eq_true, List.isEmpty_iff, decide_eq_true_eq] at idle
        rcases idle with rfl | rfl <;> exact absurd mem (by decide)
  exact Bytes.mem_of_mem_split_on (split ▸ List.mem_append_left names kept) mem

theorem AgreeBelow.lookup (h : AgreeBelow root fs fs') (named : ∀ n ∈ names, IsName n)
    (some : names ≠ []) (used : p ≠ []) (rooted : Path.isRooted p = Path.isRooted root)
    (split : components p = folder root ++ names) : fs'.lookup p = fs.lookup p := by
  by_cases legal : 0 ∈ p
  · simp [FileSystem.lookup, locate, legal, bind, Except.bind]
  · have legal' : 0 ∉ Path.clean root := fun mem => legal (mem_clean_below split mem)
    have fromRoot : ∀ fs : FileSystem, fs.lookup p =
        (fs.lookup (Path.clean root)).bind (fs.enter (fs.placeOf root) names) := by
      intro fs
      have begins : fs.origin p = fs.origin root := by rw [origin, origin, rooted]
      have begins' : fs.origin (Path.clean root) = fs.origin root := by
        rw [origin, origin, Path.is_rooted_clean]
      rw [lookup_eq_reach legal used, lookup_eq_reach legal' (Path.clean_ne_nil root), split,
        begins, begins', reach_below some, Path.follow_folder origin_rooted]
      rfl
    rw [fromRoot fs', fromRoot fs, h.itself]
    congr 1
    funext e
    cases e with
    | file s => rfl
    | directory => exact reach_agree named h.below

end FileSystem

namespace Source

open Overworld.Path (components follow reduce isRooted Escapes IsName)

variable {fs fs' : FileSystem} {root path : Bytes}

theorem not_rooted_trim (path : Bytes) :
    isRooted (Bytes.trimLeft Path.slash path) = false := by
  unfold isRooted Bytes.trimLeft
  rw [decide_eq_false_iff_not]
  intro first
  have head := List.head?_dropWhile_not (· == Path.slash) path
  rw [first] at head
  simp at head

theorem not_rooted_relative (path : Bytes) : isRooted (relative path) = false :=
  (Path.is_rooted_clean _).trans (not_rooted_trim path)

theorem components_relative (path : Bytes) : components (relative path) =
    if reduce false (components path) = [] then [Path.dot] else reduce false (components path) := by
  rw [relative, Path.components_clean, not_rooted_trim, Path.reduce_trim]
  rfl

theorem leaves_of_up {p : Bytes} {rest : List Bytes} (bare : isRooted p = false)
    (up : reduce (isRooted p) (components p) = Path.dotDot :: rest) :
    leaves (Path.clean p) = true := by
  have used : ∀ tail : Bytes, (Path.dotDot ++ tail).isEmpty = false := fun _ => rfl
  unfold leaves Path.clean
  rw [up, bare]
  cases rest with
  | nil => rfl
  | cons c rest =>
    have longer : Bytes.join [Path.slash] (Path.dotDot :: c :: rest) =
        (Path.dotDot ++ [Path.slash]) ++ Bytes.join [Path.slash] (c :: rest) := rfl
    rw [longer, List.append_assoc]
    simp only [Bool.false_eq_true, if_false, used]
    rw [← List.append_assoc, Bytes.beginsWith, Bytes.drop_beginning_append]
    simp

theorem up_of_leaves {p : Bytes} (h : leaves p = true) : Path.dotDot ∈ components p := by
  rw [leaves, Bool.or_eq_true, decide_eq_true_eq] at h
  rcases h with rfl | begins
  · decide
  · obtain ⟨rest, rfl⟩ := Bytes.append_of_begins begins
    rw [List.append_assoc, List.singleton_append, components, Bytes.split_on_append]
    exact List.mem_append_left _ (by decide)

/-- A path leaves the root of the source exactly if it goes up too often. -/
theorem leaves_relative : leaves (relative path) = true ↔ Escapes (components path) := by
  rw [← Path.up_mem_reduce]
  constructor
  · intro leaving
    have up := up_of_leaves leaving
    rw [components_relative] at up
    split at up
    · exact absurd up (by decide)
    · exact up
  · intro up
    have bare := not_rooted_trim path
    obtain ⟨ups, names, left, _, named⟩ := Path.reduce_up_down false (components path)
    cases ups with
    | zero =>
      rw [left] at up
      exact absurd rfl (named Path.dotDot up).2.2
    | succ ups =>
      apply leaves_of_up bare
      rw [bare, Path.reduce_trim, left]
      rfl

/-! ## Going down from the root -/

theorem reduce_relative (stays : ¬ Escapes (components path)) (rooted : Bool) (cs : List Bytes) :
    reduce rooted (cs ++ components (relative path)) =
      reduce rooted cs ++ reduce false (components path) := by
  rw [components_relative]
  split
  · rename_i none
    rw [none, List.append_nil, Path.reduce_idle (by decide)]
  · exact Path.reduce_append_names (Path.is_name_of_reduce stays) rooted cs

/-- The path that is read, before it is brought into shortest form. -/
theorem join_relative (stays : ¬ Escapes (components path)) (root : Bytes) :
    ∃ q, Path.join [root, relative path] = Path.clean q ∧ isRooted q = isRooted root ∧
      reduce (isRooted root) (components q) =
        reduce (isRooted root) (components root) ++ reduce false (components path) := by
  have used : relative path ≠ [] := Path.clean_ne_nil _
  rw [Path.join_pair used]
  by_cases here : root = []
  · rw [if_pos here, here]
    exact ⟨_, rfl, not_rooted_relative path, reduce_relative stays _ []⟩
  · rw [if_neg here]
    refine ⟨_, rfl, ?_, ?_⟩
    · cases root with
      | nil => exact absurd rfl here
      | cons b root => rfl
    · rw [components, Bytes.split_on_append]
      exact reduce_relative stays _ _

theorem follow_components (stays : ¬ Escapes (components path)) :
    follow [] (components path) = reduce false (components path) := by
  have named := Path.is_name_of_reduce stays
  have same := Path.follow_reduce (fun _ => rfl : false = true → ([] : List Bytes) = [])
  rw [← same, Path.follow_is_names named, List.nil_append]

theorem place_of_relative (stays : ¬ Escapes (components path)) (fs : FileSystem) (root : Bytes) :
    fs.placeOf (Path.join [root, relative path]) =
      fs.placeOf root ++ reduce false (components path) := by
  obtain ⟨q, joined, rooted, below⟩ := join_relative stays root
  have named := Path.is_name_of_reduce stays
  have begins : fs.origin q = fs.origin root := by
    rw [FileSystem.origin, FileSystem.origin, rooted]
  rw [joined, FileSystem.place_of_clean, FileSystem.placeOf, begins,
    ← Path.follow_reduce FileSystem.origin_rooted, below, Path.follow_append,
    Path.follow_reduce FileSystem.origin_rooted, Path.follow_is_names named]
  rfl

theorem lookup_relative (h : FileSystem.AgreeBelow root fs fs')
    (stays : ¬ Escapes (components path)) :
    fs'.lookup (Path.join [root, relative path]) = fs.lookup (Path.join [root, relative path]) := by
  obtain ⟨q, joined, rooted, below⟩ := join_relative stays root
  rw [joined]
  by_cases none : reduce false (components path) = []
  · rw [none, List.append_nil] at below
    rw [Path.clean_congr rooted below]
    exact h.itself
  · exact h.lookup (Path.is_name_of_reduce stays) none (Path.clean_ne_nil q)
      ((Path.is_rooted_clean q).trans rooted) (Path.components_clean_names none rooted below)

theorem up_not_mem_relative (stays : ¬ Escapes (components path)) :
    Path.dotDot ∉ components (relative path) := by
  rw [components_relative]
  split
  · decide
  · exact fun up => stays (Path.up_mem_reduce.mp up)

theorem fetch_file_of_escapes (escapes : Escapes (components path)) :
    fetchFile fs root path = fail (.pathEscapes path) :=
  if_pos (leaves_relative.mpr escapes)

theorem fetch_file_of_stays (stays : ¬ Escapes (components path)) : fetchFile fs root path =
    inStep ("reading " ++ Utf8.shown path) (fs.readFile (Path.join [root, relative path])) :=
  if_neg fun leaving => stays (leaves_relative.mp leaving)

theorem in_step_ne_fail {α : Type} {step : String} {r : Except Failure α} {cause : Cause} :
    inStep step r ≠ fail cause := by
  cases r with
  | ok a => exact (fail_ne_ok cause a).symm
  | error f =>
    intro same
    simp [fail, Failure.within, Failure.of] at same

/-- A path is refused exactly if it goes up too often, and any other path is read at a place below
the root. What is fetched depends only on the root and what stands below it. -/
theorem fetched_from_below_root (root path : Bytes) :
    (∀ fs : FileSystem,
      fetchFile fs root path = fail (.pathEscapes path) ↔ Escapes (components path)) ∧
    (¬ Escapes (components path) → ∃ rel names, isRooted rel = false ∧
      Path.dotDot ∉ components rel ∧ names = follow [] (components path) ∧
      (∀ n ∈ names, IsName n) ∧ ∀ fs : FileSystem,
        fetchFile fs root path =
          inStep ("reading " ++ Utf8.shown path) (fs.readFile (Path.join [root, rel])) ∧
        fs.placeOf (Path.join [root, rel]) = fs.placeOf root ++ names) ∧
    ∀ fs fs' : FileSystem, FileSystem.AgreeBelow root fs fs' →
      fetchFile fs' root path = fetchFile fs root path := by
  refine ⟨fun fs => ⟨fun refused => ?_, fetch_file_of_escapes⟩, fun stays => ?_, fun fs fs' h => ?_⟩
  · by_contra stays
    rw [fetch_file_of_stays stays] at refused
    exact in_step_ne_fail refused
  · refine ⟨relative path, _, not_rooted_relative path, up_not_mem_relative stays, rfl, ?_, ?_⟩
    · rw [follow_components stays]
      exact Path.is_name_of_reduce stays
    · intro fs
      rw [follow_components stays]
      exact ⟨fetch_file_of_stays stays, place_of_relative stays fs root⟩
  · by_cases stays : Escapes (components path)
    · rw [fetch_file_of_escapes stays, fetch_file_of_escapes stays]
    · rw [fetch_file_of_stays stays, fetch_file_of_stays stays, FileSystem.readFile,
        FileSystem.readFile, lookup_relative h stays, h.reading _ (up_not_mem_relative stays)]

/-- A source with one file, and a file beside it. -/
def besideSource (secret : Bytes) : FileSystem :=
  (((FileSystem.empty.put [utf8 "src"] .directory).put [utf8 "src", utf8 "a"]
    (.file (utf8 "tiles"))).put [utf8 "home"] .directory).put [utf8 "home", utf8 "key"]
    (.file secret)

theorem file_beside_source_never_fetched :
    FileSystem.AgreeBelow (utf8 "src") (besideSource (utf8 "one")) (besideSource (utf8 "two")) ∧
    fetchFile (besideSource (utf8 "two")) (utf8 "src") (utf8 "/..b//./../a") =
      fetchFile (besideSource (utf8 "one")) (utf8 "src") (utf8 "/..b//./../a") ∧
    fetchFile (besideSource (utf8 "one")) (utf8 "src") (utf8 "/..b//./../a") =
      .ok (utf8 "tiles") ∧
    fetchFile (besideSource (utf8 "one")) (utf8 "src") (utf8 "a/../../home/key") =
      fail (.pathEscapes (utf8 "a/../../home/key")) := by
  have agree : FileSystem.AgreeBelow (utf8 "src") (besideSource (utf8 "one"))
      (besideSource (utf8 "two")) := by
    refine ⟨by decide +kernel, fun names named => ?_, fun rel _ => rfl⟩
    have apart : FileSystem.key ([utf8 "src"] ++ names) ≠
        FileSystem.key [utf8 "home", utf8 "key"] := by
      refine (FileSystem.key_ne_of_apart (d := [utf8 "home"]) ?_ ?_ _).symm
      · unfold FileSystem.Covers
        decide +kernel
      · unfold FileSystem.Covers
        decide +kernel
    have place : ∀ s, (besideSource s).placeOf (utf8 "src") = [utf8 "src"] := by
      intro s
      show follow [] (components (utf8 "src")) = _
      decide +kernel
    rw [place, place]
    simp only [besideSource, FileSystem.at_put _ [utf8 "home", utf8 "key"], apart, if_false]
  have escapes : Escapes (components (utf8 "a/../../home/key")) :=
    ⟨[utf8 "a", Path.dotDot, Path.dotDot], by decide +kernel, by decide +kernel⟩
  exact ⟨agree, (fetched_from_below_root _ _).2.2 _ _ agree, by decide +kernel,
    ((fetched_from_below_root _ _).1 _).mpr escapes⟩

end Source

end Overworld
