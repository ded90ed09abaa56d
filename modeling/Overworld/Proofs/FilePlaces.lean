import Overworld.Proofs.Bytes
import Overworld.Proofs.Dictionary
import Overworld.Proofs.Outcome

/-!
# Files of one directory

A name below a directory leads to the same place whatever other files are written there. A file
that was written is found under its name until that very name is written again.
-/

set_option autoImplicit false

namespace Overworld

namespace Path

variable {name dir : Bytes}

/-- A name that something can have in a directory. -/
structure IsName (name : Bytes) : Prop where
  solid : slash ∉ name
  some : name ≠ []
  notDot : name ≠ dot
  notDotDot : name ≠ dotDot

theorem push_name (h : IsName name) (rooted : Bool) (above : List Bytes) :
    push rooted above name = name :: above := by
  simp [push, h.some, h.notDot, h.notDotDot]

theorem mem_push {rooted : Bool} {above : List Bytes} {c p : Bytes} (h : p ∈ push rooted above c) :
    p = c ∧ c ≠ [] ∨ p ∈ above := by
  unfold push at h
  split at h
  · exact .inr h
  · rename_i used
    have some : c ≠ [] := fun none => used (by simp [none])
    split at h
    · rename_i up
      split at h
      · split at h
        · cases h
        · exact .inl ⟨(List.mem_singleton.mp h).trans up.symm, some⟩
      · split at h
        · rcases List.mem_cons.mp h with here | h
          · exact .inl ⟨here.trans up.symm, some⟩
          · exact .inr h
        · exact .inr (List.mem_cons_of_mem _ h)
    · rcases List.mem_cons.mp h with here | h
      · exact .inl ⟨here, some⟩
      · exact .inr h

theorem mem_foldl_push {rooted : Bool} {cs above : List Bytes} {p : Bytes}
    (h : p ∈ cs.foldl (push rooted) above) : p ∈ cs ∧ p ≠ [] ∨ p ∈ above := by
  induction cs generalizing above with
  | nil => exact .inr h
  | cons c cs ih =>
    rcases ih h with ⟨mem, some⟩ | h
    · exact .inl ⟨List.mem_cons_of_mem _ mem, some⟩
    · rcases mem_push h with ⟨rfl, some⟩ | h
      · exact .inl ⟨List.mem_cons_self, some⟩
      · exact .inr h

theorem mem_reduce {rooted : Bool} {cs : List Bytes} {p : Bytes} (h : p ∈ reduce rooted cs) :
    p ∈ cs ∧ p ≠ [] := by
  rcases mem_foldl_push (List.mem_reverse.mp h) with found | none
  · exact found
  · cases none

theorem reduce_name (h : IsName name) (rooted : Bool) (cs : List Bytes) :
    reduce rooted (cs ++ [name]) = reduce rooted cs ++ [name] := by
  simp [reduce, push_name h]

/-- The components of a directory's shortest form; the empty one at the beginning of a rooted path
included. -/
def folder (dir : Bytes) : List Bytes :=
  (if isRooted dir then [[]] else []) ++ reduce (isRooted dir) (components dir)

theorem not_rooted_join {ps : List Bytes} (h : ∀ p ∈ ps, slash ∉ p ∧ p ≠ []) :
    isRooted (Bytes.join [slash] ps) = false := by
  cases ps with
  | nil => rfl
  | cons p ps =>
    obtain ⟨solid, some⟩ := h p (by simp)
    cases p with
    | nil => exact absurd rfl some
    | cons b p =>
      have other : b ≠ slash := fun same => solid (by simp [same])
      cases ps <;> simp [Bytes.join, isRooted, other]

/-- The shortest form of a path whose last component is a name. -/
theorem clean_name (h : IsName name) {p : Bytes} {cs : List Bytes}
    (split : components p = cs ++ [name]) :
    components (clean p) = (if isRooted p then [[]] else []) ++ reduce (isRooted p) cs ++ [name] ∧
      isRooted (clean p) = isRooted p ∧ clean p ≠ [] := by
  have parts : ∀ q ∈ reduce (isRooted p) cs ++ [name], slash ∉ q ∧ q ≠ [] := by
    rw [← reduce_name h]
    intro q hq
    obtain ⟨mem, some⟩ := mem_reduce hq
    rw [← split] at mem
    exact ⟨Bytes.not_mem_split_on mem, some⟩
  obtain ⟨rest, joined⟩ : ∃ rest, Bytes.join [slash] (reduce (isRooted p) cs ++ [name]) = rest :=
    ⟨_, rfl⟩
  have pieces : components rest = reduce (isRooted p) cs ++ [name] := by
    rw [← joined]
    exact Bytes.split_on_join (by simp) fun q hq => (parts q hq).1
  have bare : isRooted rest = false := by
    rw [← joined]
    exact not_rooted_join parts
  have some : rest ≠ [] := by
    rintro rfl
    exact (parts [] (by rw [← pieces]; exact List.mem_singleton.mpr rfl)).2 rfl
  have cleaned : clean p = if isRooted p then slash :: rest else rest := by
    simp [clean, split, reduce_name h, joined, some]
  rw [cleaned]
  by_cases rooted : isRooted p = true
  · have first : components (slash :: rest) = [] :: components rest := by
      simp [components, Bytes.splitOn]
    simp only [rooted, if_true] at pieces ⊢
    rw [first, pieces]
    simp [isRooted]
  · simp only [rooted, Bool.false_eq_true, if_false, List.nil_append] at pieces ⊢
    exact ⟨pieces, bare, some⟩

/-- A name below a directory: the components of the directory, and then the name. -/
theorem join_name (h : IsName name) (dir : Bytes) :
    components (join [dir, name]) = folder dir ++ [name] ∧
      isRooted (join [dir, name]) = isRooted dir ∧ join [dir, name] ≠ [] := by
  have single : components name = [name] := Bytes.split_on_solid h.solid
  by_cases here : dir = []
  · subst here
    have bare : isRooted name = false := by
      change isRooted (Bytes.join [slash] [name]) = false
      apply not_rooted_join
      simpa using ⟨h.solid, h.some⟩
    have cleaned := clean_name h (single.trans (List.nil_append [name]).symm)
    rw [bare] at cleaned
    have joined : join [[], name] = clean name := by simp [join, h.some, Bytes.join]
    rw [joined]
    exact cleaned
  · have split : components (dir ++ slash :: name) = components dir ++ [name] := by
      rw [components, Bytes.split_on_append, ← components, ← components, single]
    have rooted : isRooted (dir ++ slash :: name) = isRooted dir := by
      cases dir with
      | nil => exact absurd rfl here
      | cons b dir => rfl
    have cleaned := clean_name h split
    rw [rooted] at cleaned
    have joined : join [dir, name] = clean (dir ++ slash :: name) := by
      simp [join, here, Bytes.join]
    rw [joined]
    exact cleaned

end Path

namespace FileSystem

open Overworld.Path (IsName folder)

variable {fs fs' : FileSystem} {dir name other p contents : Bytes} {e : FileEntry}
  {place d : List Bytes}

def advance (place : List Bytes) (c : Bytes) : Except FileReason (List Bytes) :=
  if c.isEmpty || c = Path.dot then .ok place
  else if c = Path.dotDot then .ok place.dropLast
  else if maxName < c.length then .error .nameTooLong
  else .ok (place ++ [c])

theorem walk_cons {c : Bytes} {cs : List Bytes} : fs.walk place (c :: cs) = .ok d ↔
    fs.at? place = some .directory ∧ ∃ q, advance place c = .ok q ∧ fs.walk q cs = .ok d := by
  rw [walk]
  cases fs.at? place with
  | none => simp
  | some e =>
    cases e with
    | file s => simp
    | directory =>
      dsimp only [advance]
      by_cases skip : (c.isEmpty || c = Path.dot) = true
      · simp [skip]
      · rw [if_neg skip, if_neg skip]
        by_cases up : c = Path.dotDot
        · simp [up]
        · by_cases long : maxName < c.length <;> simp [up, long]

theorem walk_append {cs ds : List Bytes} : fs.walk place (cs ++ ds) = .ok d ↔
    ∃ q, fs.walk place cs = .ok q ∧ fs.walk q ds = .ok d := by
  induction cs generalizing place with
  | nil => simp [walk]
  | cons c cs ih =>
    simp only [List.cons_append, walk_cons, ih]
    constructor
    · rintro ⟨directory, q, step, q', walked, rest⟩
      exact ⟨q', ⟨directory, q, step, walked⟩, rest⟩
    · rintro ⟨q', ⟨directory, q, step, walked⟩, rest⟩
      exact ⟨directory, q, step, q', walked, rest⟩

theorem walk_name (h : IsName name) : fs.walk place [name] = .ok d ↔
    fs.at? place = some .directory ∧ name.length ≤ maxName ∧ d = place ++ [name] := by
  rw [walk_cons]
  apply and_congr_right
  intro directory
  by_cases long : maxName < name.length
  · simp [advance, h.some, h.notDot, h.notDotDot, long, Nat.not_le.mpr long]
  · have step : advance place name = .ok (place ++ [name]) := by
      simp [advance, h.some, h.notDot, h.notDotDot, long]
    simp only [step, walk, Except.ok.injEq, exists_eq_left', Nat.not_lt.mp long, true_and]
    exact eq_comm

/-- Walking needs directories only, so it leads to the same place where these are kept. -/
theorem walk_keeps (keeps : ∀ q, fs.at? q = some .directory → fs'.at? q = some .directory)
    {cs : List Bytes} (h : fs.walk place cs = .ok d) : fs'.walk place cs = .ok d := by
  induction cs generalizing place with
  | nil => exact h
  | cons c cs ih =>
    obtain ⟨directory, q, step, walked⟩ := walk_cons.mp h
    exact walk_cons.mpr ⟨keeps place directory, q, step, ih walked⟩

def folderPlace (fs : FileSystem) (dir : Bytes) : Except FileReason (List Bytes) :=
  fs.walk (if Path.isRooted dir then [] else fs.start) (folder dir)

theorem locate_name (h : IsName name) :
    fs.locate (Path.join [dir, name]) = .ok place ↔ 0 ∉ Path.join [dir, name] ∧
      ∃ d, fs.folderPlace dir = .ok d ∧ fs.at? d = some .directory ∧ name.length ≤ maxName ∧
        place = d ++ [name] := by
  obtain ⟨split, rooted, some⟩ := Path.join_name h dir
  rw [locate, split, rooted]
  by_cases zero : 0 ∈ Path.join [dir, name]
  · simp [zero]
  · simp only [List.contains_iff_mem, zero, if_false, List.isEmpty_iff, some, not_false_eq_true,
      true_and, walk_append, walk_name h]
    rfl

theorem lookup_eq_ok : fs.lookup p = .ok e ↔
    ∃ place, fs.locate p = .ok place ∧ fs.at? place = some e := by
  rw [lookup]
  cases fs.locate p with
  | error reason => simp [bind, Except.bind]
  | ok place => cases found : fs.at? place <;> simp [bind, Except.bind, found]

theorem at_put (fs : FileSystem) (place q : List Bytes) (e : FileEntry) :
    (fs.put place e).at? q =
      if q = [] then some .directory else if key q = key place then some e else fs.at? q := by
  by_cases root : q = [] <;> simp [at?, put, root]

/-- A file that is written over no directory leaves all directories in their places. -/
theorem put_keeps (free : fs.at? place ≠ some .directory) (contents : Bytes) (q : List Bytes)
    (h : fs.at? q = some .directory) :
    (fs.put place (.file contents)).at? q = some .directory := by
  rw [at_put]
  by_cases root : q = []
  · rw [if_pos root]
  · -- two places may have one key, but then the file would stand over the directory
    have apart : key q ≠ key place := by
      intro same
      apply free
      by_cases top : place = []
      · simp [at?, top]
      · simpa [at?, root, top, same] using h
    rw [if_neg root, if_neg apart]
    exact h

theorem key_name_inj (d : List Bytes) : key (d ++ [name]) = key (d ++ [other]) ↔ name = other := by
  by_cases top : d = []
  · simp [top, key, Bytes.join]
  · simp [key, Bytes.join_snoc top]

/-- Writing a file fails and changes nothing, or puts the file where its path leads. -/
theorem write_file_cases (fs : FileSystem) (p s : Bytes) :
    (∃ f, fs.writeFile p s = ⟨fs, fail f⟩) ∨
      ∃ place, fs.locate p = .ok place ∧ fs.at? place ≠ some .directory ∧
        fs.writeFile p s = ⟨fs.put place (.file s), .ok ()⟩ := by
  unfold writeFile
  split
  · exact .inl ⟨_, rfl⟩
  · split
    · exact .inl ⟨_, rfl⟩
    · rename_i place located
      split
      · exact .inl ⟨_, rfl⟩
      · rename_i other
        split
        · exact .inl ⟨_, rfl⟩
        · exact .inr ⟨place, located, other, rfl⟩

theorem write_file_ok (h : (fs.writeFile p contents).outcome = .ok ()) :
    ∃ place, fs.locate p = .ok place ∧ fs.at? place ≠ some .directory ∧
      (fs.writeFile p contents).files = fs.put place (.file contents) := by
  rcases write_file_cases fs p contents with ⟨f, failed⟩ | ⟨place, located, other, done⟩
  · rw [failed] at h
    exact absurd h (fail_ne_ok _ _)
  · exact ⟨place, located, other, by rw [done]⟩

theorem write_file_found (named : IsName name)
    (h : (fs.writeFile (Path.join [dir, name]) contents).outcome = .ok ()) :
    (fs.writeFile (Path.join [dir, name]) contents).files.lookup (Path.join [dir, name]) =
      .ok (.file contents) := by
  obtain ⟨place, located, free, written⟩ := write_file_ok h
  obtain ⟨legal, d, walked, directory, short, rfl⟩ := (locate_name named).mp located
  have keeps := put_keeps free contents
  rw [written, lookup_eq_ok]
  refine ⟨d ++ [name], (locate_name named).mpr ⟨legal, d, ?_, keeps d directory, short, rfl⟩, ?_⟩
  · exact walk_keeps keeps walked
  · simp [at_put]

/-- What stands under another name of the directory stays as it is. -/
theorem write_file_keeps (named : IsName name) (named' : IsName other) (apart : other ≠ name)
    (h : (fs.writeFile (Path.join [dir, name]) contents).outcome = .ok ())
    (found : fs.lookup (Path.join [dir, other]) = .ok e) :
    (fs.writeFile (Path.join [dir, name]) contents).files.lookup (Path.join [dir, other]) =
      .ok e := by
  obtain ⟨place, located, free, written⟩ := write_file_ok h
  obtain ⟨_, d, walked, directory, _, rfl⟩ := (locate_name named).mp located
  obtain ⟨_, located', stands⟩ := lookup_eq_ok.mp found
  obtain ⟨legal, d', walked', _, short, rfl⟩ := (locate_name named').mp located'
  -- both names are below the one place that the directory leads to
  cases walked.symm.trans walked'
  have keeps := put_keeps free contents
  rw [written, lookup_eq_ok]
  refine ⟨d ++ [other], (locate_name named').mpr ⟨legal, d, ?_, keeps d directory, short, rfl⟩, ?_⟩
  · exact walk_keeps keeps walked
  · rw [at_put, if_neg (by simp), if_neg (fun same => apart ((key_name_inj d).mp same))]
    exact stands

end FileSystem

end Overworld
