import Overworld.Proofs.CrossReferences
import Overworld.Proofs.WriteEffects
import Mathlib.Data.List.Dedup

/-!
# Insertions that race

An insertion stores its map if the place is free. One that finds the place taken looks up, in a
second step, which map stands there. Other insertions may act between the two steps. As nothing is
ever removed, the map that is found is the one that took the place, whatever the interleaving.

In a graph made this way the report of the dangling connections is complete, has no repetition, and
goes by key and then by direction.
-/

set_option autoImplicit false

namespace Overworld

open Assembly (entry insert_eq_inserted insert_eq_taken)

/-- How far an insertion has come. -/
inductive Attempt where
  | pending (m : WorldMap)
  /-- The place was taken; by which map is not known yet. -/
  | refused (m : WorldMap)
  | won (m : WorldMap)
  | lost (m existing : WorldMap)

namespace Attempt

/-- The map to be inserted. -/
def map : Attempt → WorldMap
  | pending m | refused m | won m | lost m _ => m

/-- The map, if it was stored. -/
def stored : Attempt → Option WorldMap
  | won m => some m
  | _ => none

/-- The number of steps that are left, at most. -/
def work : Attempt → Nat
  | pending _ => 2
  | refused _ => 1
  | won _ | lost _ _ => 0

/-- What is known of the graph in each phase. -/
def Fits (g : Graph) : Attempt → Prop
  | pending _ | won _ => True
  | refused m => ∃ x, g.get? m.id = some x
  | lost m x => g.get? m.id = some x

/-- One atomic action of an insertion. A look-up that finds nothing gives the default map. -/
inductive Advance : Graph → Attempt → Graph → Attempt → Prop
  | store {g g' : Graph} {m : WorldMap} (free : g.insertIfAbsent m = .inserted g') :
      Advance g (pending m) g' (won m)
  | refuse {g : Graph} {m x : WorldMap} (taken : g.insertIfAbsent m = .taken x) :
      Advance g (pending m) g (refused m)
  | read {g : Graph} {m : WorldMap} :
      Advance g (refused m) g (lost m ((g.get? m.id).getD default))

variable {g g' : Graph} {a a' : Attempt}

theorem Advance.map_eq (h : Advance g a g' a') : a'.map = a.map := by
  cases h <;> rfl

theorem Advance.work_lt (h : Advance g a g' a') : a'.work < a.work := by
  cases h <;> simp [work]

/-- A place that is taken keeps its map. -/
theorem Advance.grows (h : Advance g a g' a') {l : Location} {x : WorldMap}
    (stands : g.get? l = some x) : g'.get? l = some x := by
  cases h with
  | store free =>
    obtain ⟨absent, rfl⟩ := insert_eq_inserted free
    rw [Graph.get?] at stands absent ⊢
    rw [Dict.find_insert]
    split
    · rename_i same
      rw [← same, stands] at absent
      cases absent
    · exact stands
  | refuse | read => exact stands

theorem Advance.fits_other (h : Advance g a g' a') {b : Attempt} (fits : b.Fits g) :
    b.Fits g' := by
  cases b with
  | pending | won => trivial
  | refused m =>
    obtain ⟨x, stands⟩ := fits
    exact ⟨x, h.grows stands⟩
  | lost m x => exact h.grows fits

theorem Advance.fits (h : Advance g a g' a') (fits : a.Fits g) : a'.Fits g' := by
  cases h with
  | store => trivial
  | refuse taken => exact ⟨_, insert_eq_taken taken⟩
  | read =>
    -- What stood there at the refusal still does, so the default is never taken.
    obtain ⟨x, stands⟩ := fits
    simp [Fits, stands]

theorem exists_advance (g : Graph) (unfinished : a.work ≠ 0) : ∃ g' a', Advance g a g' a' := by
  cases a with
  | pending m =>
    cases tried : g.insertIfAbsent m with
    | inserted g' => exact ⟨g', _, .store tried⟩
    | taken x => exact ⟨g, _, .refuse tried⟩
  | refused m => exact ⟨g, _, .read⟩
  | won | lost => exact absurd rfl unfinished

end Attempt

open Attempt (Advance)

/-- A graph and the insertions into it. -/
structure Race where
  graph : Graph
  attempts : List Attempt

namespace Race

def start (ms : List WorldMap) : Race := ⟨Graph.empty, ms.map .pending⟩

/-- One of the insertions acts. -/
inductive Step : Race → Race → Prop
  | advance {g g' : Graph} {a a' : Attempt} {before after : List Attempt}
      (h : Advance g a g' a') : Step ⟨g, before ++ a :: after⟩ ⟨g', before ++ a' :: after⟩

/-- Any interleaving of the actions of the insertions. -/
abbrev Run : Race → Race → Prop := Relation.ReflTransGen Step

/-- Every insertion has come to its end. -/
def Complete (r : Race) : Prop := ∀ a ∈ r.attempts, a.work = 0

def maps (r : Race) : List WorldMap := r.attempts.map Attempt.map

def winners (r : Race) : List WorldMap := r.attempts.filterMap Attempt.stored

def work (r : Race) : Nat := (r.attempts.map Attempt.work).sum

/-- What holds in every run: the graph holds the maps of the winners. -/
structure Sound (r : Race) : Prop where
  graph : r.graph.maps.entries.Perm (r.winners.map entry)
  fits : ∀ a ∈ r.attempts, a.Fits r.graph

variable {r s : Race} {ms : List WorldMap}

theorem step_maps (h : Step r s) : s.maps = r.maps := by
  cases h with
  | advance h => simp [maps, h.map_eq]

theorem step_work (h : Step r s) : s.work < r.work := by
  cases h with
  | advance h =>
    have less := h.work_lt
    simp only [work, List.map_append, List.map_cons, List.sum_append, List.sum_cons]
    omega

theorem advance_graph {g g' : Graph} {a a' : Attempt} {before after : List Attempt}
    (h : Advance g a g' a')
    (graph : g.maps.entries.Perm ((winners ⟨g, before ++ a :: after⟩).map entry)) :
    g'.maps.entries.Perm ((winners ⟨g', before ++ a' :: after⟩).map entry) := by
  simp only [winners, List.filterMap_append, List.filterMap_cons] at graph ⊢
  cases h with
  | @store _ m free =>
    obtain ⟨absent, rfl⟩ := insert_eq_inserted free
    have placed := Dict.insert_perm absent m
    refine placed.trans ((graph.cons (entry m)).trans ?_)
    simp only [Attempt.stored, List.map_append, List.map_cons]
    exact List.perm_middle.symm
  | refuse | read => exact graph

theorem step_sound (h : Step r s) (sound : r.Sound) : s.Sound := by
  cases h with
  | advance h =>
    refine ⟨advance_graph h sound.graph, ?_⟩
    intro b hb
    rcases List.mem_append.mp hb with hb | hb
    · exact h.fits_other (sound.fits b (by simp [hb]))
    · rcases List.mem_cons.mp hb with rfl | hb
      · exact h.fits (sound.fits _ (by simp))
      · exact h.fits_other (sound.fits b (by simp [hb]))

theorem start_sound (ms : List WorldMap) : (start ms).Sound := by
  constructor
  · have none_won : (start ms).winners = [] := by
      simp [start, winners, List.filterMap_map, Attempt.stored, Function.comp_def]
    rw [none_won]
    rfl
  · intro a ha
    obtain ⟨m, _, rfl⟩ := List.mem_map.mp ha
    trivial

theorem run_sound (run : Run (start ms) r) : r.Sound ∧ r.maps = ms := by
  induction run with
  | refl => exact ⟨start_sound ms, by simp [start, maps, Function.comp_def, Attempt.map]⟩
  | tail _ step ih => exact ⟨step_sound step ih.1, (step_maps step).trans ih.2⟩

theorem exists_step (unfinished : ¬r.Complete) : ∃ s, Step r s := by
  unfold Complete at unfinished
  push Not at unfinished
  obtain ⟨a, ha, left⟩ := unfinished
  obtain ⟨before, after, split⟩ := List.append_of_mem ha
  obtain ⟨g', a', h⟩ := Attempt.exists_advance r.graph left
  refine ⟨⟨g', before ++ a' :: after⟩, ?_⟩
  cases r with
  | mk g attempts =>
    obtain rfl : attempts = before ++ a :: after := split
    exact .advance h

theorem steps_end : WellFounded fun s r : Race => Step r s :=
  Subrelation.wf step_work (measure work).wf

theorem exists_complete (r : Race) : ∃ s, Run r s ∧ s.Complete := by
  induction r using steps_end.induction with
  | _ r ih =>
    by_cases complete : r.Complete
    · exact ⟨r, .refl, complete⟩
    · obtain ⟨s, step⟩ := exists_step complete
      obtain ⟨t, run, done⟩ := ih s step
      exact ⟨t, .head step run, done⟩

theorem Sound.keyed (sound : r.Sound) : r.graph.Keyed := by
  intro e he
  obtain ⟨m, _, rfl⟩ := List.mem_map.mp (sound.graph.mem_iff.mp he)
  rfl

theorem Sound.maps_perm (sound : r.Sound) : r.graph.toList.Perm r.winners := by
  have values := sound.graph.map Prod.snd
  rw [List.map_map] at values
  exact values.trans (List.Perm.of_eq (List.map_id _))

theorem mem_winners {m : WorldMap} : m ∈ r.winners ↔ .won m ∈ r.attempts := by
  rw [winners, List.mem_filterMap]
  constructor
  · rintro ⟨a, ha, stored⟩
    cases a with
    | won x =>
      cases stored
      exact ha
    | pending | refused | lost => cases stored
  · intro ha
    exact ⟨_, ha, rfl⟩

/-- Every map of the graph was stored by an insertion. -/
theorem Sound.owner (sound : r.Sound) {l : Location} {x : WorldMap}
    (stands : r.graph.get? l = some x) : .won x ∈ r.attempts ∧ x.id.key = l.key := by
  have mem := sound.graph.mem_iff.mp (Dict.find_eq_some_iff.mp stands)
  obtain ⟨y, hy, same⟩ := List.mem_map.mp mem
  simp only [entry, Prod.mk.injEq] at same
  obtain ⟨key, rfl⟩ := same
  exact ⟨mem_winners.mp hy, key⟩

/-- No two insertions store a map under one key. -/
theorem Sound.winner_unique (sound : r.Sound) {i j : Nat} {m x : WorldMap}
    (hi : r.attempts[i]? = some (.won m)) (hj : r.attempts[j]? = some (.won x))
    (same : m.id.key = x.id.key) : i = j := by
  -- Equal winners at two positions count twice among the winners, whose keys are the graph's.
  have distinct : (r.winners.map (·.id.key)).Nodup := by
    have keys := (sound.graph.map Prod.fst).nodup_iff.mp r.graph.maps.keys_nodup
    rwa [List.map_map] at keys
  rw [List.Nodup, List.pairwise_map, winners, List.pairwise_filterMap,
    List.pairwise_iff_getElem] at distinct
  obtain ⟨bi, hi⟩ := List.getElem?_eq_some_iff.mp hi
  obtain ⟨bj, hj⟩ := List.getElem?_eq_some_iff.mp hj
  rcases Nat.lt_trichotomy i j with before | rfl | after
  · exact absurd same (distinct i j bi bj before m (by rw [hi]; rfl) x (by rw [hj]; rfl))
  · rfl
  · exact absurd same.symm (distinct j i bj bi after x (by rw [hj]; rfl) m (by rw [hi]; rfl))

/-- How a race for the places of some maps ends. -/
structure Settled (ms : List WorldMap) (r : Race) : Prop where
  winner : ∀ k ∈ ms.map (·.id.key),
    ∃! i : Nat, ∃ m, r.attempts[i]? = some (.won m) ∧ m.id.key = k
  loser : ∀ m x, .lost m x ∈ r.attempts → .won x ∈ r.attempts ∧ x.id.key = m.id.key
  size : r.graph.size = (ms.map (·.id.key)).dedup.length
  keys_ascending : r.graph.keys.Pairwise fun a b => Bytes.lt a b = true
  keys : ∀ k, k ∈ r.graph.keys ↔ k ∈ ms.map (·.id.key)
  winners : r.graph.toList.Perm r.winners
  in_order : r.graph.toList.map (·.id.key) = r.graph.keys

/-- In the end the place of every map is taken, by that map or by another. -/
theorem Sound.placed (sound : r.Sound) (complete : r.Complete) {m : WorldMap} (hm : m ∈ r.maps) :
    ∃ x, .won x ∈ r.attempts ∧ x.id.key = m.id.key := by
  obtain ⟨a, ha, rfl⟩ := List.mem_map.mp hm
  have fits := sound.fits a ha
  have finished := complete a ha
  cases a with
  | pending | refused => cases finished
  | won m => exact ⟨m, ha, rfl⟩
  | lost m x => exact ⟨x, sound.owner fits⟩

theorem Sound.mem_keys (sound : r.Sound) (complete : r.Complete) (k : Bytes) :
    k ∈ r.graph.keys ↔ k ∈ r.maps.map (·.id.key) := by
  rw [← sound.keyed.keys, (sound.maps_perm.map _).mem_iff]
  simp only [List.mem_map, mem_winners]
  constructor
  · rintro ⟨m, hm, rfl⟩
    exact ⟨m, List.mem_map.mpr ⟨_, hm, rfl⟩, rfl⟩
  · rintro ⟨m, hm, rfl⟩
    exact sound.placed complete hm

theorem Sound.settled (sound : r.Sound) (complete : r.Complete) : r.Settled r.maps := by
  have members := sound.mem_keys complete
  refine ⟨?_, ?_, ?_, r.graph.keys_ascending, members, sound.maps_perm, sound.keyed.keys⟩
  · intro k hk
    obtain ⟨m, hm, rfl⟩ := List.mem_map.mp hk
    obtain ⟨x, hx, same⟩ := sound.placed complete hm
    obtain ⟨i, hi⟩ := List.mem_iff_getElem?.mp hx
    refine ⟨i, ⟨x, hi, same⟩, ?_⟩
    rintro j ⟨y, hj, same'⟩
    exact sound.winner_unique hj hi (same'.trans same.symm)
  · intro m x lost
    exact sound.owner (sound.fits _ lost)
  · have distinct : r.graph.keys.Perm (r.maps.map (·.id.key)).dedup := by
      apply (List.perm_ext_iff_of_nodup r.graph.maps.keys_nodup (List.nodup_dedup _)).mpr
      intro k
      rw [List.mem_dedup]
      exact members k
    simpa [Graph.size, Dict.size, Graph.keys, Dict.keys] using distinct.length_eq

end Race

namespace Direction

/-- The place of a direction in reports. -/
def rank : Direction → Nat
  | up => 0
  | down => 1
  | left => 2
  | right => 3

end Direction

namespace Graph

/-- One dangling connection is reported before another. -/
def Dangling.Before (a b : Dangling) : Prop :=
  Bytes.lt a.source.key b.source.key = true ∨
    a.source = b.source ∧ a.direction.rank < b.direction.rank

theorem Dangling.Before.ne {a b : Dangling} (h : a.Before b) : a ≠ b := by
  rintro rfl
  rcases h with less | ⟨_, less⟩
  · exact Bytes.ne_of_lt less rfl
  · exact Nat.lt_irrefl _ less

theorem reported_for {g : Graph} {m : WorldMap} {d : Direction} {a : Dangling}
    (h : (m.chunk.bind fun c => (Dict.find? c d.name).bind fun conn =>
      if (g.get? conn.location).isNone then some ⟨m.id, d, conn.location⟩ else none) = some a) :
    a.source = m.id ∧ a.direction = d := by
  simp only [Option.bind_eq_some_iff] at h
  obtain ⟨_, _, _, _, h⟩ := h
  split at h
  · cases h
    exact ⟨rfl, rfl⟩
  · cases h

theorem mem_dangling_of {g : Graph} {m : WorldMap} {d : Dangling} (h : d ∈ g.danglingOf m) :
    d.source = m.id := by
  obtain ⟨_, _, h⟩ := List.mem_filterMap.mp h
  exact (reported_for h).1

theorem dangling_of_ordered (g : Graph) (m : WorldMap) :
    (g.danglingOf m).Pairwise Dangling.Before := by
  have ranks : Direction.all.Pairwise fun a b => a.rank < b.rank := by decide
  rw [danglingOf, List.pairwise_filterMap]
  refine ranks.imp ?_
  intro d d' less a ha b hb
  obtain ⟨source, rfl⟩ := reported_for ha
  obtain ⟨source', rfl⟩ := reported_for hb
  exact .inr ⟨source.trans source'.symm, less⟩

theorem dangling_ordered {g : Graph} (keyed : g.Keyed) : g.dangling.Pairwise Dangling.Before := by
  have ascending := g.keys_ascending
  rw [← keyed.keys, List.pairwise_map] at ascending
  rw [dangling, List.pairwise_flatMap]
  refine ⟨fun m _ => dangling_of_ordered g m, ascending.imp ?_⟩
  intro m n less a ha b hb
  left
  rw [mem_dangling_of ha, mem_dangling_of hb]
  exact less

/-- A connection of a stored map to a place where no map stands. -/
def Dangles (g : Graph) (d : Dangling) : Prop :=
  ∃ m ∈ g.toList, d.source = m.id ∧ g.get? d.target = none ∧
    ∃ c conn, m.chunk = some c ∧ Dict.find? c d.direction.name = some conn ∧
      conn.location = d.target

theorem mem_dangling_iff_dangles (g : Graph) (d : Dangling) : d ∈ g.dangling ↔ g.Dangles d := by
  rw [mem_dangling_iff, Dangles]
  constructor
  · rintro ⟨absent, m, hm, source, c, present, conn, found, target⟩
    exact ⟨m, hm, source.symm, absent, c, conn, present, found, target⟩
  · rintro ⟨m, hm, source, absent, c, conn, present, found, target⟩
    exact ⟨absent, m, hm, source.symm, c, present, conn, found, target⟩

end Graph

namespace Race

/-- Insertions of any maps, interleaved in any way, come to an end. Then each key has one winner,
whose map every other insertion under the key was given and the graph holds. At all times the
dangling connections of the graph are reported once each and in order. -/
theorem racing_insertions_settle (ms : List WorldMap) :
    (WellFounded fun s r : Race => Step r s) ∧
    ∀ r, Run (start ms) r →
      r.maps = ms ∧ (∃ s, Run r s ∧ s.Complete) ∧ (r.Complete → r.Settled ms) ∧
      r.graph.dangling.Nodup ∧ (∀ d, d ∈ r.graph.dangling ↔ r.graph.Dangles d) ∧
      r.graph.dangling.Pairwise Graph.Dangling.Before := by
  refine ⟨steps_end, ?_⟩
  intro r run
  obtain ⟨sound, rfl⟩ := run_sound run
  have ordered := Graph.dangling_ordered sound.keyed
  exact ⟨rfl, exists_complete r, sound.settled, ordered.imp Graph.Dangling.Before.ne,
    r.graph.mem_dangling_iff_dangles, ordered⟩

def overtaken : WorldMap := Graph.signpost "a" "c" "1"

def overtaking : WorldMap := Graph.signpost "a" "c" "2"

def lonely : WorldMap :=
  { Graph.signpost "" "d" "3" with
    chunk := some (Dict.empty.insert Direction.left.name ⟨⟨[], utf8 "e"⟩, 0⟩) }

/-- The second insertion overtakes the first, and the third acts before the first knows to which map
it lost. The third map has a dangling connection. -/
theorem overtaking_insertion_wins :
    let ms := [overtaken, overtaking, lonely]
    let g := Graph.offered [overtaking, lonely]
    let r : Race := ⟨g, [.lost overtaken overtaking, .won overtaking, .won lonely]⟩
    Run (start ms) r ∧ r.Complete ∧ r.Settled ms ∧
      ⟨lonely.id, .left, ⟨[], utf8 "e"⟩⟩ ∈ g.dangling := by
  intro ms g r
  have run : Run (start ms) r :=
    .head (@Step.advance Graph.empty (Graph.offered [overtaking]) (.pending overtaking)
      (.won overtaking) [.pending overtaken] [.pending lonely] (.store rfl)) <|
    .head (@Step.advance (Graph.offered [overtaking]) (Graph.offered [overtaking])
      (.pending overtaken) (.refused overtaken) [] [.won overtaking, .pending lonely]
      (.refuse rfl)) <|
    .head (@Step.advance (Graph.offered [overtaking]) g (.pending lonely) (.won lonely)
      [.refused overtaken, .won overtaking] [] (.store rfl)) <|
    .single (@Step.advance g g (.refused overtaken) (.lost overtaken overtaking) []
      [.won overtaking, .won lonely] .read)
  have complete : r.Complete := by
    intro a ha
    simp only [r, List.mem_cons, List.not_mem_nil, or_false] at ha
    rcases ha with rfl | rfl | rfl <;> rfl
  obtain ⟨_, reached⟩ := racing_insertions_settle ms
  obtain ⟨_, _, settled, _, reported, _⟩ := reached r run
  refine ⟨run, complete, settled complete, (reported _).mpr ?_⟩
  exact ⟨lonely, by decide, rfl, by decide, _, _, rfl, rfl, rfl⟩

end Race

end Overworld
