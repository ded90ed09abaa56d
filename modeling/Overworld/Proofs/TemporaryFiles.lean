import Overworld.Proofs.FileTrees

/-!
# Temporary files

A temporary file gets a path at which nothing stands, beside the file it is made for. While it is
written, every other path leads to what it led to before. Once it is renamed or removed, nothing of
it is left.
-/

set_option autoImplicit false

namespace Overworld.FileSystem

open Overworld.Path (IsName lastPart)

variable {fs : FileSystem} {dir name n p path temporary contents : Bytes} {e : Failure}
  {place q target : List Bytes}

/-! ## Fresh names -/

theorem walk_stay {cs d : List Bytes} : fs.walk place (cs ++ [[]]) = .ok d ↔
    fs.walk place cs = .ok d ∧ fs.at? d = some .directory := by
  rw [walk_append]
  constructor
  · rintro ⟨q, walked, last⟩
    obtain ⟨directory, _, stays, rest⟩ := walk_cons.mp last
    cases stays
    cases rest
    exact ⟨walked, directory⟩
  · rintro ⟨walked, directory⟩
    exact ⟨d, walked, walk_cons.mpr ⟨directory, d, rfl, rfl⟩⟩

theorem mem_below {b : UInt8} (h : b ≠ Path.slash) : b ∈ below dir n ↔ b ∈ dir ∨ b ∈ n := by
  unfold below
  split <;> simp [h]

theorem begins_below (dir n : Bytes) : dir <+: below dir n := by
  unfold below
  split <;> exact List.prefix_append _ _

theorem origin_below (used : dir ≠ []) : fs.origin (below dir n) = fs.origin dir := by
  rw [origin, ← is_rooted_begins used (begins_below dir n)]
  rfl

/-- A name below a directory comes after components that lead to the directory. -/
theorem components_below (fs : FileSystem) (place : List Bytes) (named : IsName n) (dir : Bytes) :
    ∃ cs, Path.components (below dir n) = cs ++ [n] ∧
      ∀ d, fs.at? d = some .directory → (fs.walk place cs = .ok d ↔
        fs.walk place (Path.components dir) = .ok d) := by
  have single : Path.components n = [n] := Bytes.split_on_solid named.solid
  have split : ∀ stem, Path.components (stem ++ Path.slash :: n) = Path.components stem ++ [n] := by
    intro stem
    rw [Path.components, Bytes.split_on_append, ← Path.components, ← Path.components, single]
  unfold below
  by_cases ends : dir.getLast? = some Path.slash
  · obtain ⟨stem, rfl⟩ := List.getLast?_eq_some_iff.mp ends
    have split' : Path.components (stem ++ [Path.slash]) = Path.components stem ++ [[]] :=
      Bytes.split_on_append stem []
    refine ⟨Path.components stem, ?_, ?_⟩
    · rw [if_pos ends, List.append_assoc]
      exact split stem
    · intro d directory
      rw [split', walk_stay]
      exact ⟨fun walked => ⟨walked, directory⟩, And.left⟩
  · refine ⟨Path.components dir, ?_, fun _ _ => Iff.rfl⟩
    rw [if_neg ends]
    exact split dir

theorem locate_below (named : IsName n) (used : dir ≠ []) :
    fs.locate (below dir n) = .ok q ↔ 0 ∉ n ∧ ∃ d, fs.locate dir = .ok d ∧
      fs.at? d = some .directory ∧ n.length ≤ maxName ∧ q = d ++ [n] := by
  obtain ⟨cs, split, leads⟩ := components_below fs (fs.origin dir) named dir
  have some : below dir n ≠ [] := fun nothing =>
    used (List.prefix_nil.mp (nothing ▸ begins_below dir n))
  simp only [locate_eq_ok, origin_below used, split, walk_append, walk_name named,
    mem_below (show (0 : UInt8) ≠ Path.slash by decide), not_or]
  constructor
  · rintro ⟨⟨legal, legal'⟩, _, d, walked, directory, short, rfl⟩
    exact ⟨legal', d, ⟨legal, used, (leads d directory).mp walked⟩, directory, short, rfl⟩
  · rintro ⟨legal', d, ⟨legal, _, walked⟩, directory, short, rfl⟩
    exact ⟨⟨legal, legal'⟩, some, d, (leads d directory).mpr walked, directory, short, rfl⟩

theorem temp_name_length (name : Bytes) (drawn : UInt32) :
    name.length + 5 ≤ (tempName name drawn).length := by
  have four : (utf8 ".tmp").length = 4 := by decide
  simp only [tempName, List.length_append, List.length_cons, four]
  omega

theorem temp_name_is_name (solid : Path.slash ∉ name) (drawn : UInt32) :
    IsName (tempName name drawn) := by
  have long := temp_name_length name drawn
  have short : ∀ s : Bytes, s.length < 5 → tempName name drawn ≠ s := by
    intro s few same
    rw [same] at long
    omega
  refine ⟨?_, short _ (by decide), short _ (by decide), short _ (by decide)⟩
  have ends : Path.slash ∉ utf8 ".tmp" := by decide
  have dot : Path.slash ≠ 0x2E := by decide
  have digits : Path.slash ∉ Bytes.ofNat drawn.toNat :=
    fun mem => absurd (Bytes.is_digit_of_mem_of_nat mem) (by decide)
  simp [tempName, solid, ends, dot, digits]

theorem create_new_eq_ok {made : FileSystem} : fs.createNew p = .ok made ↔
    fs.refuses .createTemp p = none ∧ ∃ place, fs.locate p = .ok place ∧ fs.at? place = none ∧
      made = fs.put place (.file []) := by
  unfold createNew
  cases fs.refuses .createTemp p with
  | some r => simp
  | none =>
    cases fs.locate p with
    | error r => simp [bind, Except.bind]
    | ok place =>
      simp only [bind, Except.bind, Except.ok.injEq, exists_eq_left', true_and]
      cases fs.at? place <;> simp [eq_comm]

/-- Of the drawn names, one is free and gets the file, or nothing is changed. -/
theorem create_temp_from_cases (fs : FileSystem) (dir name : Bytes) (tries i : Nat) :
    (∃ f, fs.createTempFrom dir name tries i = (fail f, fs)) ∨
      ∃ drawn made, fs.createNew (below dir (tempName name drawn)) = .ok made ∧
        fs.createTempFrom dir name tries i = (.ok (below dir (tempName name drawn)), made) := by
  induction tries generalizing i with
  | zero => exact .inl ⟨_, rfl⟩
  | succ tries ih =>
    unfold createTempFrom
    dsimp only
    split
    · rename_i made created
      exact .inr ⟨_, made, created, rfl⟩
    · exact ih (i + 1)
    · exact .inl ⟨_, rfl⟩

/-! ## Writing beside a file -/

/-- A temporary file for a path is being made: it is at a place where nothing stood, in a directory,
under a name longer than that of the path, and it can be removed. -/
structure Beside (fs : FileSystem) (path temporary : Bytes) (place : List Bytes) : Prop where
  located : fs.locate temporary = .ok place
  free : fs.at? place = none
  within : ∃ d n, place = d ++ [n] ∧ IsName n ∧ (Path.base path).length < n.length ∧
    fs.at? d = some .directory
  removable : fs.refuses .remove temporary = none

theorem Beside.ne_nil (h : Beside fs path temporary place) : place ≠ [] := by
  obtain ⟨d, n, rfl, _⟩ := h.within
  simp

theorem Beside.fresh (h : Beside fs path temporary place) :
    fs.entries.find? (key place) = none := by
  rw [← at_of_ne_nil h.ne_nil, h.free]

theorem Beside.not_directory (b : Beside fs path temporary place) :
    fs.at? place ≠ some .directory := by
  simp [b.free]

/-- Once it is made, the path of the temporary file leads to it. -/
theorem Beside.located_put (b : Beside fs path temporary place) (s : Bytes) :
    (fs.put place (.file s)).locate temporary = .ok place :=
  (locate_put b.not_directory).mpr b.located

theorem Beside.at_put (b : Beside fs path temporary place) (s : Bytes) :
    (fs.put place (.file s)).at? place = some (.file s) := by
  simp [FileSystem.at_put, b.ne_nil]

/-- No path of which the temporary file is made leads to it. -/
theorem Beside.apart (h : fs.Grounded) (b : Beside fs path temporary place)
    (located : fs.locate path = .ok q) (top : q ≠ []) : key q ≠ key place := by
  intro same
  have nothing : fs.at? q = none := by rw [at_of_ne_nil top, same, b.fresh]
  obtain ⟨d, n, rfl, named, longer, _⟩ := b.within
  rcases locate_cases h located with directory | ⟨named', d', rfl, _⟩
  · cases nothing.symm.trans directory
  · have last := congrArg lastPart same
    rw [last_part_key named'.solid, last_part_key named.solid] at last
    rw [Path.base_eq_last_part named'.some, last] at longer
    exact Nat.lt_irrefl _ longer

theorem Beside.contents_put (h : fs.Grounded) (b : Beside fs path temporary place)
    (s : Bytes) : (fs.put place (.file s)).contents? path = fs.contents? path := by
  apply contents_congr (put_directory_iff b.not_directory s) rfl
  intro q located
  by_cases top : q = []
  · rw [top]
    rfl
  · rw [FileSystem.at_put, if_neg top, if_neg (b.apart h located top)]

theorem Beside.erase (b : Beside fs path temporary place) (e : FileEntry) :
    (fs.put place e).erase place = fs := by
  have same : (fs.entries.insert (key place) e).erase (key place) = fs.entries := by
    apply Dict.ext_find
    intro k
    rw [Dict.find_erase, Dict.find_insert]
    split
    · rename_i here
      rw [here, b.fresh]
    · rfl
  show { fs with entries := (fs.entries.insert (key place) e).erase (key place) } = fs
  rw [same]

theorem put_put (fs : FileSystem) (place : List Bytes) (e e' : FileEntry) :
    (fs.put place e).put place e' = fs.put place e' := by
  have same : (fs.entries.insert (key place) e).insert (key place) e' =
      fs.entries.insert (key place) e' := by
    apply Dict.ext_find
    intro k
    simp only [Dict.find_insert]
    split <;> rfl
  show { fs with entries := (fs.entries.insert (key place) e).insert (key place) e' } = _
  rw [same]
  rfl

/-! ## Requests on a temporary file -/

theorem create_temp_cases (fs : FileSystem) (dir name : Bytes) :
    (∃ f, fs.createTemp dir name = (fail f, fs)) ∨
      Path.slash ∉ name ∧ ∃ drawn made, fs.createNew (below dir (tempName name drawn)) = .ok made ∧
        fs.createTemp dir name = (.ok (below dir (tempName name drawn)), made) := by
  unfold createTemp
  split
  · exact .inl ⟨_, rfl⟩
  · rename_i solid
    rcases create_temp_from_cases fs dir name tempTries 0 with failed | created
    · exact .inl failed
    · exact .inr ⟨by simpa using solid, created⟩

/-- Making a temporary file for a path fails and changes nothing, or the file is beside the path. -/
theorem create_temp_beside (fs : FileSystem) (path : Bytes) :
    (∃ f, fs.createTemp (Path.directory path) (Path.base path) = (fail f, fs)) ∨
      ∃ temporary place, Beside fs path temporary place ∧
        fs.createTemp (Path.directory path) (Path.base path) =
          (.ok temporary, fs.put place (.file [])) := by
  rcases create_temp_cases fs (Path.directory path) (Path.base path) with
    failed | ⟨solid, drawn, made, created, done⟩
  · exact .inl failed
  · obtain ⟨granted, place, located, free, rfl⟩ := create_new_eq_ok.mp created
    have named := temp_name_is_name solid drawn
    have longer := temp_name_length (Path.base path) drawn
    obtain ⟨_, d, _, directory, _, rfl⟩ := (locate_below named (Path.clean_ne_nil _)).mp located
    exact .inr ⟨_, _, ⟨located, free, ⟨d, _, rfl, named, by omega, directory⟩,
      fs.refuses.removable _ granted⟩, done⟩

theorem Beside.append (b : Beside fs path temporary place) (s contents : Bytes) :
    (fs.put place (.file s)).append temporary contents =
      match fs.refuses .append temporary with
      | some r => (fs.put place (.file s)).refused "write" temporary r
      | none => ⟨fs.put place (.file (s ++ contents)), .ok ()⟩ := by
  have old : (fs.put place (.file s)).refuses = fs.refuses := rfl
  unfold FileSystem.append
  rw [old]
  cases fs.refuses .append temporary with
  | some r => rfl
  | none => simp only [b.located_put, b.at_put, put_put]

theorem Beside.remove (b : Beside fs path temporary place) (s : Bytes) :
    (fs.put place (.file s)).remove temporary = ⟨fs, .ok ()⟩ := by
  have granted : (fs.put place (.file s)).refuses .remove temporary = none := b.removable
  unfold FileSystem.remove
  simp only [granted, b.located_put, b.at_put, b.erase]

/-- A file that was put elsewhere stays when the temporary file is not found. -/
theorem Beside.remove_gone (b : Beside fs path temporary place)
    (other : fs.at? target ≠ some .directory) (apart : key place ≠ key target) (s : Bytes) :
    ((fs.put target (.file s)).remove temporary).files = fs.put target (.file s) := by
  have located : (fs.put target (.file s)).locate temporary = .ok place :=
    (locate_put other).mpr b.located
  have gone : (fs.put target (.file s)).at? place = none := by
    rw [FileSystem.at_put, if_neg b.ne_nil, if_neg apart, b.free]
  unfold FileSystem.remove
  split
  · rfl
  · simp only [located, gone]
    rfl

theorem Beside.rename (h : fs.Grounded) (b : Beside fs path temporary place) (s : Bytes) :
    (∃ f, (fs.put place (.file s)).rename temporary path = ⟨fs.put place (.file s), fail f⟩) ∨
      ∃ target, fs.locate path = .ok target ∧ fs.at? target ≠ some .directory ∧
        key place ≠ key target ∧
        (fs.put place (.file s)).rename temporary path = ⟨fs.put target (.file s), .ok ()⟩ := by
  unfold FileSystem.rename
  split
  · exact .inl ⟨_, rfl⟩
  · rw [b.located_put]
    cases there : (fs.put place (.file s)).locate path with
    | error r => exact .inl ⟨_, rfl⟩
    | ok target =>
      have there' : fs.locate path = .ok target := (locate_put b.not_directory).mp there
      dsimp only
      rw [b.at_put]
      by_cases directory : (fs.put place (.file s)).at? target = some .directory
      · rw [directory]
        exact .inl ⟨_, rfl⟩
      · right
        have other' : fs.at? target ≠ some .directory :=
          fun found => directory ((put_directory_iff b.not_directory s target).mpr found)
        have top : target ≠ [] := by
          rintro rfl
          exact other' rfl
        refine ⟨target, there', other', (b.apart h there' top).symm, ?_⟩
        rw [b.erase]
        cases found : (fs.put place (.file s)).at? target with
        | none => rfl
        | some e =>
          cases e with
          | directory => exact absurd found directory
          | file old => rfl

end Overworld.FileSystem
