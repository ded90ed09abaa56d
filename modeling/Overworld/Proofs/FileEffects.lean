import Overworld.Proofs.OutputDirectories
import Overworld.Proofs.TemporaryFiles

/-!
# What requests change

A request changes nothing but at the places it is about. Writing a file is about one place, and
making a directory about the places that its path passes.
-/

set_option autoImplicit false

namespace Overworld.FileSystem

open Overworld.Path (IsName follow)

variable {fs fs' fs'' : FileSystem} {dir name p s : Bytes} {place : List Bytes}
  {allowed allowed' : Bytes → Prop}

/-- All changes are at paths from the root that are allowed. -/
structure Confined (allowed : Bytes → Prop) (fs fs' : FileSystem) : Prop where
  start : fs'.start = fs.start
  refuses : fs'.refuses = fs.refuses
  same : ∀ k, ¬ allowed k → fs'.entries.find? k = fs.entries.find? k

theorem Confined.refl (allowed : Bytes → Prop) (fs : FileSystem) : Confined allowed fs fs :=
  ⟨rfl, rfl, fun _ _ => rfl⟩

theorem Confined.trans (h : Confined allowed fs fs') (h' : Confined allowed fs' fs'') :
    Confined allowed fs fs'' where
  start := h'.start.trans h.start
  refuses := h'.refuses.trans h.refuses
  same k other := (h'.same k other).trans (h.same k other)

theorem Confined.mono (h : Confined allowed fs fs') (wider : ∀ k, allowed k → allowed' k) :
    Confined allowed' fs fs' where
  start := h.start
  refuses := h.refuses
  same k other := h.same k fun mem => other (wider k mem)

theorem Confined.at_same (h : Confined allowed fs fs') {q : List Bytes}
    (other : ¬ allowed (key q)) :
    fs'.at? q = fs.at? q := by
  by_cases top : q = []
  · rw [top]
    rfl
  · rw [at_of_ne_nil top, at_of_ne_nil top, h.same _ other]

theorem put_confined (fs : FileSystem) (place : List Bytes) (e : FileEntry) :
    Confined (· = key place) fs (fs.put place e) := by
  refine ⟨rfl, rfl, ?_⟩
  intro k other
  show (fs.entries.insert _ _).find? k = _
  rw [Dict.find_insert, if_neg other]

/-! ## Writing a file -/

/-- Writing under a name in a directory fails and changes nothing, or puts the file there. -/
theorem write_name_cases (named : IsName name) (fs : FileSystem) (dir s : Bytes) :
    (∃ f, fs.writeFile (Path.join [dir, name]) s = ⟨fs, fail f⟩) ∨
      fs.at? (fs.placeOf dir ++ [name]) ≠ some .directory ∧
        fs.writeFile (Path.join [dir, name]) s =
          ⟨fs.put (fs.placeOf dir ++ [name]) (.file s), .ok ()⟩ := by
  rcases write_file_cases fs (Path.join [dir, name]) s with failed | ⟨place, located, other, done⟩
  · exact .inl failed
  · obtain ⟨_, d, leads, _, _, rfl⟩ := (locate_name named).mp located
    obtain rfl := folder_place_of leads
    exact .inr ⟨other, done⟩

/-! ## Making directories -/

/-- The places that a path passes, word by word. -/
def Passes (fs : FileSystem) (p : Bytes) (q : List Bytes) : Prop :=
  ∃ cs, cs <+: Path.components p ∧ q = follow (fs.origin p) cs

/-- The path from the root of a place that another path passes, if nothing stands there. -/
def Missing (fs : FileSystem) (p k : Bytes) : Prop :=
  ∃ q, fs.Passes p q ∧ fs.at? q = none ∧ k = key q

theorem passes_trim_end (fs : FileSystem) (p : Bytes) :
    fs.Passes p (fs.placeOf (Path.trimEnd p)) := by
  obtain ⟨n, split⟩ := components_trim_end p
  exact ⟨_, ⟨_, split.symm⟩, by rw [placeOf, origin_trim_end]⟩

theorem components_parent {above : Bytes} (h : parent? p = some above) :
    Path.components above <+: Path.components p := by
  obtain ⟨slashes, whole⟩ := trim_right_begins p
  unfold parent? at h
  dsimp only at h
  rcases Path.solid_or_split (Bytes.trimRight Path.slash p) with solid | ⟨b, c, split, solid⟩
  · rw [Path.last_part_of_solid solid] at h
    simp at h
  · have cut : (b ++ Path.slash :: c).length - c.length = (b ++ [Path.slash]).length := by
      simp only [List.length_append, List.length_cons, List.length_nil]
      omega
    rw [split, Path.last_part_append b solid, cut, List.append_cons b Path.slash c,
      List.take_left, List.dropLast_concat] at h
    obtain rfl : b = above := by
      split at h
      · exact Option.some.inj h
      · cases h
    rw [← whole, split, List.append_assoc, List.cons_append, Path.components, Path.components,
      Bytes.split_on_append]
    exact List.prefix_append _ _

theorem missing_parent {above k : Bytes} (h : parent? p = some above)
    (missed : fs.Missing above k) :
    fs.Missing p k := by
  obtain ⟨q, ⟨cs, begins, rfl⟩, nothing, rfl⟩ := missed
  rw [origin, is_rooted_parent h] at nothing ⊢
  exact ⟨_, ⟨cs, begins.trans (components_parent h), rfl⟩, nothing, rfl⟩

theorem Furnished.missing (h : Furnished place fs fs') {k : Bytes} (missed : fs'.Missing p k) :
    fs.Missing p k := by
  obtain ⟨q, ⟨cs, begins, rfl⟩, nothing, rfl⟩ := missed
  have same : fs'.origin p = fs.origin p := by
    rw [origin, h.start]
    rfl
  rw [same] at nothing ⊢
  refine ⟨_, ⟨cs, begins, rfl⟩, ?_, rfl⟩
  cases old : fs.at? (follow (fs.origin p) cs) with
  | none => rfl
  | some e => cases nothing.symm.trans (h.at_keeps old)

theorem mkdir_confined (fs : FileSystem) (p : Bytes) :
    Confined (fs.Missing p) fs (fs.mkdir p).files := by
  rcases mkdir_cases fs p with ⟨f, failed⟩ | ⟨place, located, free, done⟩
  · rw [failed]
    exact .refl _ _
  · rw [done]
    apply (put_confined fs place _).mono
    rintro k rfl
    exact ⟨place, locate_place_of located ▸ passes_trim_end fs p, free, rfl⟩

theorem make_last_confined {made : Change} (furnished : Furnished place fs made.files)
    (h : Confined (fs.Missing p) fs made.files) :
    Confined (fs.Missing p) fs (makeLast p made).files := by
  have last := (mkdir_confined made.files p).mono fun k => furnished.missing
  unfold makeLast
  split
  · exact h
  · dsimp only
    split
    · exact h.trans last
    · split <;> exact h.trans last

theorem mkdir_all_within_confined (depth : Nat) (fs : FileSystem) (p : Bytes) :
    Confined (fs.Missing p) fs (mkdirAllWithin depth fs p).files := by
  induction depth generalizing p with
  | zero =>
    unfold mkdirAllWithin
    split
    · exact .refl _ _
    · exact .refl _ _
    · exact make_last_confined (.refl [] _) (.refl _ _)
  | succ depth ih =>
    unfold mkdirAllWithin
    split
    · exact .refl _ _
    · exact .refl _ _
    · cases up : parent? p with
      | none => exact make_last_confined (.refl [] _) (.refl _ _)
      | some above =>
        apply make_last_confined (mkdir_all_within_furnished depth fs above).1
        exact (ih above).mono fun k => missing_parent up

/-- Making a directory changes nothing but at places that its path passes and where nothing
stood. -/
theorem mkdir_all_confined (fs : FileSystem) (p : Bytes) :
    Confined (fs.Missing p) fs (fs.mkdirAll p).files :=
  mkdir_all_within_confined p.length fs p

theorem mkdir_all_changed {k : Bytes}
    (changed : (fs.mkdirAll p).files.entries.find? k ≠ fs.entries.find? k) :
    fs.Missing p k ∧ (fs.mkdirAll p).files.entries.find? k = some .directory := by
  have furnished := (mkdir_all_furnished fs p).1
  have missed : fs.Missing p k := by
    by_contra other
    exact changed ((mkdir_all_confined fs p).same k other)
  refine ⟨missed, ?_⟩
  cases new : (fs.mkdirAll p).files.entries.find? k with
  | none =>
    cases old : fs.entries.find? k with
    | none => exact absurd (new.trans old.symm) changed
    | some e => cases new.symm.trans (furnished.keeps k e old)
  | some e =>
    rcases furnished.only k e new with there | rfl
    · exact absurd (new.trans there.symm) changed
    · rfl

end Overworld.FileSystem
