import Overworld.Proofs.ResolvedWarps

/-!
# Resolved chunks

The connections of a record become its chunk, unless one of them has no known direction or leads to
no location. The first such one is reported, and for its direction before its target. The chunk has
an entry for each direction that occurs, which comes from the last connection that names it.
-/

set_option autoImplicit false

namespace Overworld.Resolver

variable {r : Resolver} {c : Raw.Connection} {cs : List Raw.Connection} {start out : Chunk}
  {f : Failure}

/-! ## One connection -/

/-- The direction of a connection is none of the four. -/
def Undirected (c : Raw.Connection) : Prop :=
  c.direction ∉ [utf8 "up", utf8 "down", utf8 "left", utf8 "right"]

/-- A connection that cannot be resolved. -/
def Unresolvable (r : Resolver) (c : Raw.Connection) : Prop :=
  Undirected c ∨ Unlocated r c.map

/-- The failure that a connection is reported with. -/
def Refused (r : Resolver) (c : Raw.Connection) (f : Failure) : Prop :=
  (Undirected c ∧
    f = ⟨["connection to " ++ Utf8.shown c.map], .unknownDirection c.direction⟩) ∨
  (¬ Undirected c ∧ Unlocated r c.map ∧ ∃ cause, Identifier.Complains c.map cause ∧
    f = ⟨["connection " ++ Utf8.shown c.direction], cause⟩)

theorem directed_iff : ¬ Undirected c ↔ ∃ d : Direction, c.direction = d.name := by
  rw [Undirected, not_not]
  constructor
  · intro known
    simp only [List.mem_cons, List.not_mem_nil, or_false] at known
    rcases known with up | down | left | right
    · exact ⟨.up, up⟩
    · exact ⟨.down, down⟩
    · exact ⟨.left, left⟩
    · exact ⟨.right, right⟩
  · rintro ⟨d, named⟩
    rw [named]
    cases d <;> decide

theorem parse_undirected (h : Undirected c) :
    Direction.parse c.direction = fail (.unknownDirection c.direction) := by
  unfold Direction.parse
  cases found : Direction.ofName? c.direction with
  | none => rfl
  | some d =>
    have parsed : Direction.parse c.direction = .ok d := by rw [Direction.parse, found]
    exact absurd h (directed_iff.mpr ⟨d, Direction.parse_eq_ok.mp parsed⟩)

theorem connection_eq_error : (r.connection c).outcome = .error f ↔ Refused r c f := by
  unfold connection Refused
  rw [Traced.bind_eq_error, Traced.outcome_within, Traced.outcome_lift]
  by_cases undirected : Undirected c
  · rw [parse_undirected undirected]
    constructor
    · rintro (refused | ⟨_, parsed, _⟩)
      · cases refused
        exact .inl ⟨undirected, rfl⟩
      · cases parsed
    · rintro (⟨_, rfl⟩ | ⟨directed, _⟩)
      · exact .inl rfl
      · exact absurd undirected directed
  · obtain ⟨d, named⟩ := directed_iff.mp undirected
    rw [Direction.parse_eq_ok.mpr named]
    simp only [in_step_ok, reduceCtorEq, false_or, Except.ok.injEq, exists_eq_left', undirected,
      false_and, not_false_eq_true, true_and]
    rw [Traced.bind_eq_error, Traced.outcome_within, ← named]
    cases located : (r.locate c.map).outcome with
    | error g =>
      obtain ⟨unlocated, cause, complains, rfl⟩ := locate_eq_error.mp located
      constructor
      · rintro (failed | ⟨_, other, _⟩)
        · cases failed
          exact ⟨unlocated, cause, complains, rfl⟩
        · cases other
      · rintro ⟨_, cause', complains', rfl⟩
        cases located.symm.trans (locate_eq_error.mpr ⟨unlocated, cause', complains', rfl⟩)
        exact .inl rfl
    | ok l => simp [not_unlocated located]

theorem refused_unresolvable (h : Refused r c f) : Unresolvable r c := by
  rcases h with ⟨undirected, _⟩ | ⟨_, unlocated, _⟩
  · exact .inl undirected
  · exact .inr unlocated

theorem connection_resolves_iff :
    (∃ p, (r.connection c).outcome = .ok p) ↔ ¬ Unresolvable r c := by
  cases outcome : (r.connection c).outcome with
  | ok p =>
    obtain ⟨named, located, _⟩ := connection_eq_ok.mp outcome
    have directed : ¬ Undirected c := directed_iff.mpr ⟨_, named⟩
    simp [Unresolvable, directed, not_unlocated located]
  | error f =>
    simp [refused_unresolvable (connection_eq_error.mp outcome)]

theorem exists_refused (h : Unresolvable r c) : ∃ f, Refused r c f := by
  cases outcome : (r.connection c).outcome with
  | ok p => exact absurd h (connection_resolves_iff.mp ⟨p, outcome⟩)
  | error f => exact ⟨f, connection_eq_error.mp outcome⟩

/-! ## All connections -/

theorem connections_eq_error : (r.connections cs start).outcome = .error f ↔
    ∃ before c after, cs = before ++ c :: after ∧ (∀ c' ∈ before, ¬ Unresolvable r c') ∧
      Refused r c f := by
  induction cs generalizing start with
  | nil => simp [connections]
  | cons c cs ih =>
    rw [connections, Traced.bind_eq_error, connection_eq_error]
    constructor
    · rintro (refused | ⟨p, resolved, later⟩)
      · exact ⟨[], c, cs, rfl, by simp, refused⟩
      · obtain ⟨before, c', after, rfl, sound, refused⟩ := ih.mp later
        refine ⟨c :: before, c', after, rfl, ?_, refused⟩
        exact List.forall_mem_cons.mpr ⟨connection_resolves_iff.mp ⟨p, resolved⟩, sound⟩
    · rintro ⟨before, c', after, split, sound, refused⟩
      cases before with
      | nil =>
        cases split
        exact .inl refused
      | cons first before =>
        cases split
        obtain ⟨here, sound⟩ := List.forall_mem_cons.mp sound
        obtain ⟨p, resolved⟩ := connection_resolves_iff.mpr here
        exact .inr ⟨p, resolved, ih.mpr ⟨before, c', after, rfl, sound, refused⟩⟩

theorem chunk_eq_none : (r.chunk cs).outcome = .ok none ↔ cs = [] := by
  cases cs with
  | nil => simp [chunk]
  | cons c cs =>
    refine iff_of_false ?_ (List.cons_ne_nil c cs)
    intro absent
    obtain ⟨_, _, same⟩ := Traced.bind_eq_ok.mp absent
    cases same

theorem connections_of_chunk (made : (r.chunk cs).outcome = .ok (some out)) :
    (r.connections cs Dict.empty).outcome = .ok out := by
  cases cs with
  | nil => cases made
  | cons c cs =>
    obtain ⟨_, resolved, same⟩ := Traced.bind_eq_ok.mp made
    cases same
    exact resolved

theorem chunk_eq_error : (r.chunk cs).outcome = .error f ↔
    ∃ before c after, cs = before ++ c :: after ∧ (∀ c' ∈ before, ¬ Unresolvable r c') ∧
      Refused r c f := by
  rw [← @connections_eq_error r cs Dict.empty f]
  cases cs with
  | nil => simp [chunk, connections]
  | cons c cs =>
    rw [chunk, Traced.bind_eq_error]
    · simp
    · exact List.cons_ne_nil c cs

theorem chunk_fails_iff :
    (∃ f, (r.chunk cs).outcome = .error f) ↔ ∃ c ∈ cs, Unresolvable r c := by
  classical
  constructor
  · rintro ⟨f, failed⟩
    obtain ⟨before, c, after, rfl, _, refused⟩ := chunk_eq_error.mp failed
    exact ⟨c, by simp, refused_unresolvable refused⟩
  · rintro ⟨c, hc, unresolvable⟩
    have some_found : (cs.find? fun c => Unresolvable r c).isSome :=
      List.find?_isSome.mpr ⟨c, hc, by simpa using unresolvable⟩
    obtain ⟨first, found⟩ := Option.isSome_iff_exists.mp some_found
    obtain ⟨faulty, before, after, split, sound⟩ := List.find?_eq_some_iff_append.mp found
    obtain ⟨f, refused⟩ := exists_refused (by simpa using faulty : Unresolvable r first)
    exact ⟨f, chunk_eq_error.mpr ⟨before, first, after, split, by simpa using sound, refused⟩⟩

theorem last_connection_eq_none {k : Bytes} :
    lastConnection cs k = none ↔ ∀ c ∈ cs, c.direction ≠ k := by
  simp [lastConnection]

theorem connections_last (resolved : (r.connections cs Dict.empty).outcome = .ok out) {k : Bytes}
    (last : lastConnection cs k = some c) :
    ∃ l, (r.locate c.map).outcome = .ok l ∧ Dict.find? out k = some ⟨l, c.offset⟩ := by
  have entry := connections_find resolved k
  rw [last] at entry
  obtain ⟨d, conn, connected, here⟩ := entry
  obtain ⟨_, located, offset⟩ := connection_eq_ok.mp connected
  exact ⟨conn.location, located, by rw [here, ← offset]⟩

theorem connections_keys (resolved : (r.connections cs Dict.empty).outcome = .ok out) (k : Bytes) :
    k ∈ Dict.keys out ↔ ∃ c ∈ cs, c.direction = k := by
  rw [Dict.mem_keys_iff]
  cases last : lastConnection cs k with
  | none =>
    have entry := connections_find resolved k
    rw [last] at entry
    have absent : Dict.find? out k = none := entry
    simpa [absent] using last_connection_eq_none.mp last
  | some c =>
    obtain ⟨l, _, here⟩ := connections_last resolved last
    have mem : c ∈ cs := List.mem_of_mem_filter (List.mem_of_getLast? last)
    exact iff_of_true (by simp [here]) ⟨c, mem, last_connection_direction last⟩

/-- A record has no chunk exactly if it has no connections, be the list absent or empty. Its
connections are refused exactly if one of them cannot be resolved, with the failure of the first
such one. Otherwise the chunk has an entry for each direction that occurs, made of the last
connection in that direction. -/
theorem chunks_from_last_connections (r : Resolver) (owner : Raw.MapData) :
    ((r.chunk owner.connectionList).outcome = .ok none ↔
      owner.connections = none ∨ owner.connections = some []) ∧
    ((∃ f, (r.chunk owner.connectionList).outcome = .error f) ↔
      ∃ c ∈ owner.connectionList, Unresolvable r c) ∧
    (∀ f, (r.chunk owner.connectionList).outcome = .error f ↔
      ∃ before c after, owner.connectionList = before ++ c :: after ∧
        (∀ c' ∈ before, ¬ Unresolvable r c') ∧ Refused r c f) ∧
    ∀ out, (r.chunk owner.connectionList).outcome = .ok (some out) →
      (∀ k, k ∈ Dict.keys out ↔ ∃ c ∈ owner.connectionList, c.direction = k) ∧
      ∀ k c, lastConnection owner.connectionList k = some c →
        ∃ l, (r.locate c.map).outcome = .ok l ∧ Dict.find? out k = some ⟨l, c.offset⟩ := by
  refine ⟨?_, chunk_fails_iff, fun f => chunk_eq_error, ?_⟩
  · rw [chunk_eq_none, Raw.MapData.connectionList]
    cases owner.connections <;> simp
  · intro out made
    have resolved := connections_of_chunk made
    exact ⟨connections_keys resolved, fun k c => connections_last resolved⟩

def junction (connections : List Raw.Connection) : Raw.MapData :=
  { (default : Raw.MapData) with connections := some connections }

/-- Of two connections up the second counts. A direction that is none is reported even though the
target of the connection is malformed too, and before what follows. -/
theorem junction_turns_up :
    let r := cellResolver []
    let sound := junction [⟨utf8 "up", utf8 "MAP_A", 1⟩, ⟨utf8 "left", utf8 "MAP_B", 2⟩,
      ⟨utf8 "up", utf8 "MAP_C", 3⟩]
    let faulty := junction [⟨utf8 "up", utf8 "MAP_A", 1⟩, ⟨utf8 "north", utf8 "MAP_", 2⟩,
      ⟨utf8 "down", utf8 "MAP", 3⟩]
    (∃ out, (r.chunk sound.connectionList).outcome = .ok (some out) ∧
      ∃ l, (r.locate (utf8 "MAP_C")).outcome = .ok l ∧
        Dict.find? out (utf8 "up") = some ⟨l, 3⟩) ∧
    (r.chunk faulty.connectionList).outcome =
      .error ⟨["connection to MAP_"], .unknownDirection (utf8 "north")⟩ := by
  intro r sound faulty
  obtain ⟨_, _, _, entries⟩ := chunks_from_last_connections r sound
  obtain ⟨_, _, refusals, _⟩ := chunks_from_last_connections r faulty
  constructor
  · obtain ⟨out, made⟩ : ∃ out, (r.chunk sound.connectionList).outcome = .ok (some out) :=
      ⟨_, rfl⟩
    exact ⟨out, made, (entries out made).2 _ ⟨utf8 "up", utf8 "MAP_C", 3⟩ (by decide)⟩
  · apply (refusals _).mpr
    refine ⟨[⟨utf8 "up", utf8 "MAP_A", 1⟩], ⟨utf8 "north", utf8 "MAP_", 2⟩, _, rfl, ?_, ?_⟩
    · intro c hc
      obtain rfl := List.mem_singleton.mp hc
      exact connection_resolves_iff.mp ⟨_, rfl⟩
    · exact .inl ⟨by unfold Undirected; decide, by decide⟩

end Overworld.Resolver
