import Overworld.Proofs.Dictionary
import Overworld.Proofs.MapValidation
import Overworld.World.Graph

/-!
# Written locations

A location is written with a byte between its scope and its index. That byte may occur in the
parts as well, so different locations can be written alike. The graph is keyed by the written
form: the map it finds for a location, or reports as being in the way, is the first one whose
location is written like it.
-/

set_option autoImplicit false

namespace Overworld

namespace Location

variable {sep : UInt8} {l l' : Location}

def joined (sep : UInt8) (l : Location) : Bytes :=
  if l.scope.isEmpty then l.index else l.scope ++ sep :: l.index

theorem joined_nil {scope : Bytes} (h : scope = []) (index : Bytes) :
    joined sep ⟨scope, index⟩ = index := by
  simp [joined, h]

theorem joined_cons {scope : Bytes} (h : scope ≠ []) (index : Bytes) :
    joined sep ⟨scope, index⟩ = scope ++ sep :: index := by
  simp [joined, h]

/-- A part of the index, up to a separator in it, stands in the scope instead. -/
def Shifted (sep : UInt8) (l l' : Location) : Prop :=
  l'.scope ≠ [] ∧ ∃ part, l'.scope = joined sep ⟨l.scope, part⟩ ∧ l.index = part ++ sep :: l'.index

theorem Shifted.joined_eq (h : Shifted sep l l') : l.joined sep = l'.joined sep := by
  obtain ⟨some, part, scope, index⟩ := h
  obtain ⟨s, i⟩ := l
  obtain ⟨s', i'⟩ := l'
  simp only at some scope index
  rw [joined_cons some, index]
  by_cases bare : s = []
  · rw [joined_nil bare] at scope ⊢
    rw [scope]
  · rw [joined_cons bare] at scope ⊢
    rw [scope, List.append_assoc, List.cons_append]

/-- Of two scopes that are written before a separator one goes on where the other ends. -/
theorem shifted_of_append {s s' i i' : Bytes} (hs : s ≠ []) (hs' : s' ≠ [])
    (h : s ++ sep :: i = s' ++ sep :: i') (longer : ∃ more, s' = s ++ more) :
    s = s' ∧ i = i' ∨ Shifted sep ⟨s, i⟩ ⟨s', i'⟩ := by
  obtain ⟨more, rfl⟩ := longer
  rw [List.append_assoc, List.append_cancel_left_eq] at h
  cases more with
  | nil => exact .inl (by simpa using h)
  | cons b part =>
    rw [List.cons_append, List.cons.injEq] at h
    obtain ⟨rfl, index⟩ := h
    right
    refine ⟨hs', part, ?_, index⟩
    rw [joined_cons hs]

/-- Two locations are written alike exactly if they are equal or differ in where a separator was
taken for the one between scope and index. -/
theorem joined_eq_iff :
    l.joined sep = l'.joined sep ↔ l = l' ∨ Shifted sep l l' ∨ Shifted sep l' l := by
  constructor
  · intro h
    obtain ⟨s, i⟩ := l
    obtain ⟨s', i'⟩ := l'
    by_cases bare : s = []
    · rw [joined_nil bare] at h
      by_cases bare' : s' = []
      · rw [joined_nil bare'] at h
        simp [bare, bare', h]
      · rw [joined_cons bare'] at h
        exact .inr (.inl ⟨bare', s', (joined_nil bare s').symm, h⟩)
    · rw [joined_cons bare] at h
      by_cases bare' : s' = []
      · rw [joined_nil bare'] at h
        exact .inr (.inr ⟨bare, s, (joined_nil bare' s).symm, h.symm⟩)
      · rw [joined_cons bare'] at h
        rcases List.append_eq_append_iff.mp h with ⟨more, longer, _⟩ | ⟨more, longer, _⟩
        · rcases shifted_of_append bare bare' h ⟨more, longer⟩ with same | shifted
          · exact .inl (by simp [same])
          · exact .inr (.inl shifted)
        · rcases shifted_of_append bare' bare h.symm ⟨more, longer⟩ with same | shifted
          · exact .inl (by simp [same])
          · exact .inr (.inr shifted)
  · rintro (rfl | shifted | shifted)
    · rfl
    · exact shifted.joined_eq
    · exact shifted.joined_eq.symm

/-- Two locations are written alike in the graph. -/
def Alike (l l' : Location) : Prop := l = l' ∨ Shifted 0x3A l l' ∨ Shifted 0x3A l' l

theorem key_eq_iff : l.key = l'.key ↔ l.Alike l' := joined_eq_iff

/-- The only colon in the written form is the one between scope and index. -/
structure Plain (l : Location) : Prop where
  scope : 0x3A ∉ l.scope
  bare : l.scope = [] → 0x3A ∉ l.index

theorem not_shifted_of_plain (h : l.Plain) (h' : l'.Plain) : ¬ Shifted 0x3A l l' := by
  rintro ⟨_, part, scope, index⟩
  by_cases empty : l.scope = []
  · apply h.bare empty
    simp [index]
  · apply h'.scope
    rw [scope, joined_cons empty]
    simp

theorem alike_iff_of_plain (h : l.Plain) (h' : l'.Plain) : l.Alike l' ↔ l = l' := by
  constructor
  · rintro (same | shifted | shifted)
    · exact same
    · exact absurd shifted (not_shifted_of_plain h h')
    · exact absurd shifted (not_shifted_of_plain h' h)
  · exact .inl

end Location

namespace Graph

variable {g : Graph} {m x : WorldMap} {l : Location}

/-- The graph after an attempt to insert a map; a map whose place is taken is left out. -/
def offer (g : Graph) (m : WorldMap) : Graph :=
  match g.insertIfAbsent m with
  | .inserted g' => g'
  | .taken _ => g

def offered (ms : List WorldMap) : Graph := ms.foldl offer empty

/-- The first map of a sequence whose location is in a relation to another. -/
def IsFirst (rel : Location → Location → Prop) (ms : List WorldMap) (l : Location)
    (m : WorldMap) : Prop :=
  ∃ before after, ms = before ++ m :: after ∧ rel m.id l ∧ ∀ x ∈ before, ¬ rel x.id l

theorem get_offer (g : Graph) (m : WorldMap) (l : Location) :
    (g.offer m).get? l = (g.get? l).or (if m.id.key = l.key then some m else none) := by
  unfold offer insertIfAbsent
  cases found : g.maps.find? m.id.key with
  | some x =>
    by_cases same : m.id.key = l.key
    · simp [get?, ← same, found]
    · simp [same]
  | none =>
    by_cases same : m.id.key = l.key
    · simp [get?, ← same, found]
    · simp [get?, same, Ne.symm same]

theorem get_foldl_offer (ms : List WorldMap) (g : Graph) (l : Location) :
    (ms.foldl offer g).get? l = (g.get? l).or (ms.find? fun m => m.id.key = l.key) := by
  induction ms generalizing g with
  | nil => simp
  | cons m ms ih =>
    rw [List.foldl_cons, ih, get_offer, Option.or_assoc]
    congr 1
    by_cases same : m.id.key = l.key <;> simp [same]

theorem get_offered (ms : List WorldMap) (l : Location) :
    (offered ms).get? l = some m ↔ IsFirst Location.Alike ms l m := by
  have absent : empty.get? l = none := rfl
  rw [offered, get_foldl_offer, absent, Option.none_or, List.find?_eq_some_iff_append]
  simp only [decide_eq_true_eq, Bool.not_eq_true', decide_eq_false_iff_not, Location.key_eq_iff]
  constructor
  · rintro ⟨alike, before, after, split, first⟩
    exact ⟨before, after, split, alike, first⟩
  · rintro ⟨before, after, split, alike, first⟩
    exact ⟨alike, before, after, split, first⟩

theorem insert_taken_iff : g.insertIfAbsent m = .taken x ↔ g.get? m.id = some x := by
  unfold insertIfAbsent get?
  cases g.maps.find? m.id.key <;> simp

theorem is_first_congr {rel rel' : Location → Location → Prop} {ms : List WorldMap}
    (h : ∀ m ∈ ms, rel m.id l ↔ rel' m.id l) : IsFirst rel ms l m ↔ IsFirst rel' ms l m := by
  constructor
  · rintro ⟨before, after, rfl, here, first⟩
    refine ⟨before, after, rfl, (h m (by simp)).mp here, ?_⟩
    exact fun y hy => (not_congr (h y (by simp [hy]))).mp (first y hy)
  · rintro ⟨before, after, rfl, here, first⟩
    refine ⟨before, after, rfl, (h m (by simp)).mpr here, ?_⟩
    exact fun y hy => (not_congr (h y (by simp [hy]))).mpr (first y hy)

/-- Maps are told apart by their locations: a map is turned away exactly by the first one with its
location, and the first one with a location is what is found there. -/
def KeyedByLocation (ms : List WorldMap) : Prop :=
  (∀ m x, m.id.validate = .ok () →
    ((offered ms).insertIfAbsent m = .taken x ↔ IsFirst Eq ms m.id x)) ∧
  ∀ l m, l.validate = .ok () → ((offered ms).get? l = some m ↔ IsFirst Eq ms l m)

theorem keyed_by_location_iff {ms : List WorldMap} (valid : ∀ m ∈ ms, m.id.validate = .ok ()) :
    KeyedByLocation ms ↔ ∀ m ∈ ms, ∀ l, l.validate = .ok () → m.id.Alike l → m.id = l := by
  constructor
  · rintro ⟨_, found⟩ m hm l hl alike
    -- both locations find one and the same map, so that map is at both
    cases here : (offered ms).get? l with
    | none =>
      rw [offered, get_foldl_offer, Option.or_eq_none_iff, List.find?_eq_none] at here
      exact absurd (decide_eq_true (Location.key_eq_iff.mpr alike)) (here.2 m hm)
    | some y =>
      have there : (offered ms).get? m.id = some y := by
        rw [get?, Location.key_eq_iff.mpr alike]
        exact here
      obtain ⟨_, _, _, first, _⟩ := (found l y hl).mp here
      obtain ⟨_, _, _, second, _⟩ := (found m.id y (valid m hm)).mp there
      exact second.symm.trans first
  · intro apart
    have same : ∀ l, l.validate = .ok () → ∀ m ∈ ms, m.id.Alike l ↔ m.id = l :=
      fun l hl m hm => ⟨apart m hm l hl, .inl⟩
    constructor
    · intro m x hm
      rw [insert_taken_iff, get_offered]
      exact is_first_congr (same m.id hm)
    · intro l m hl
      rw [get_offered]
      exact is_first_congr (same l hl)

/-- The graph goes by how locations are written. A map is turned away exactly by the first map whose
location is written like its own, and the first map whose location is written like another is what
is found there. So maps are told apart by their locations exactly if no other valid location is
written like that of a map; among plain locations they always are. -/
theorem insertions_go_by_written_location (ms : List WorldMap)
    (valid : ∀ m ∈ ms, m.id.validate = .ok ()) :
    (∀ m x, (offered ms).insertIfAbsent m = .taken x ↔ IsFirst Location.Alike ms m.id x) ∧
    (∀ l m, (offered ms).get? l = some m ↔ IsFirst Location.Alike ms l m) ∧
    (KeyedByLocation ms ↔ ∀ m ∈ ms, ∀ l, l.validate = .ok () → m.id.Alike l → m.id = l) ∧
    ((∀ m ∈ ms, m.id.Plain) → ∀ l m, l.Plain →
      ((offered ms).get? l = some m ↔ IsFirst Eq ms l m)) := by
  refine ⟨?_, fun l m => get_offered ms l, keyed_by_location_iff valid, ?_⟩
  · intro m x
    rw [insert_taken_iff, get_offered]
  · intro plain l m hl
    rw [get_offered]
    exact is_first_congr fun x hx => Location.alike_iff_of_plain (plain x hx) hl

def signpost (scope index name : String) : WorldMap :=
  { (default : WorldMap) with id := ⟨utf8 scope, utf8 index⟩, name := utf8 name }

/-- A later map at the same location changes nothing, and one without a scope is another. -/
theorem first_signpost_found :
    let ms := [signpost "" "c" "1", signpost "a" "c" "2", signpost "a" "c" "3"]
    (∀ m ∈ ms, m.id.validate = .ok ()) ∧
      (offered ms).get? ⟨utf8 "a", utf8 "c"⟩ = some (signpost "a" "c" "2") := by
  intro ms
  have valid : ∀ m ∈ ms, m.id.validate = .ok () := by decide
  refine ⟨valid, ?_⟩
  obtain ⟨_, found, _⟩ := insertions_go_by_written_location ms valid
  rw [found]
  refine ⟨[signpost "" "c" "1"], [signpost "a" "c" "3"], rfl, .inl rfl, ?_⟩
  intro x hx
  rw [List.mem_singleton.mp hx, ← Location.key_eq_iff]
  decide

/-- Two valid locations that a colon makes alike: the second map is turned away, and the first is
found in its place. -/
theorem colon_confuses_locations :
    let first := signpost "a" "b:c" "1"
    let second := signpost "a:b" "c" "2"
    first.id.validate = .ok () ∧ second.id.validate = .ok () ∧ first.id ≠ second.id ∧
      (offered [first]).insertIfAbsent second = .taken first ∧
      (offered [first, second]).get? second.id = some first ∧ ¬ KeyedByLocation [first] := by
  intro first second
  have validFirst : first.id.validate = .ok () := by decide
  have validSecond : second.id.validate = .ok () := by decide
  have other : first.id ≠ second.id := by decide
  refine ⟨validFirst, validSecond, other, rfl, by decide, ?_⟩
  intro keyed
  have apart := (keyed_by_location_iff (by simpa using validFirst)).mp keyed
  apply other
  exact apart first (by simp) second.id validSecond (Location.key_eq_iff.mp (by decide))

end Graph

end Overworld
