import Overworld.Proofs.Outcome
import Overworld.Proofs.RawTables
import Overworld.Source.Retrieval
import Mathlib.Data.List.Induction

/-!
# Retrieved tables

A retrieval gives the record of every listed map, or it fails at the first map whose record cannot
be had or has the identifier of an earlier one. The order in which the maps are listed decides
which failure is met, and nothing else.
-/

set_option autoImplicit false

namespace Overworld

open Raw (Layout MapData Record Table)

theorem Dict.find_of_list {α : Type} (es : List (Bytes × α)) (k : Bytes) :
    (Dict.ofList es).find? k = ((es.filter fun e => e.1 = k).getLast?).map (·.2) := by
  induction es using List.reverseRecOn with
  | nil => rfl
  | append_singleton es e ih =>
    have placed : Dict.ofList (es ++ [e]) = (Dict.ofList es).insert e.1 e.2 :=
      List.foldl_concat _ _ _ _
    rw [placed, Dict.find_insert, List.filter_append, ih]
    by_cases same : e.1 = k
    · simp [same]
    · simp [same, Ne.symm same]

/-! ## Records that break no rule -/

/-- A record in which nothing that is required is missing. -/
structure Raw.Record.Complete (r : Record) : Prop where
  id : r.data.id ≠ []
  name : r.data.name ≠ []
  layout : r.data.layout ≠ []
  connections : ∀ c ∈ r.data.connectionList, c.direction ≠ [] ∧ c.map ≠ []
  warps : ∀ w ∈ r.data.warpList, w.destination ≠ [] ∧ 0 ≤ w.index
  layoutId : r.layout.id ≠ []
  width : r.layout.width ≠ 0
  height : r.layout.height ≠ 0
  borderPath : r.layout.borderPath ≠ []
  tilesPath : r.layout.tilesPath ≠ []

theorem Raw.required_eq_nil {path field : String} {s : Bytes} :
    required path field s = [] ↔ s ≠ [] := by
  by_cases h : s = [] <;> simp [required, h]

theorem Raw.map_idx_flatten_eq_nil {α β : Type} {f : Nat → α → List β} {P : α → Prop}
    (h : ∀ i x, f i x = [] ↔ P x) (xs : List α) :
    (xs.mapIdx f).flatten = [] ↔ ∀ x ∈ xs, P x := by
  induction xs generalizing f with
  | nil => simp
  | cons x xs ih => simp [List.mapIdx_cons, h, ih fun i => h (i + 1)]

theorem Raw.Connection.violations_eq_nil (i : Nat) (c : Raw.Connection) :
    c.violations i = [] ↔ c.direction ≠ [] ∧ c.map ≠ [] := by
  simp [violations, required_eq_nil]

theorem Raw.Warp.violations_eq_nil (i : Nat) (w : Raw.Warp) :
    w.violations i = [] ↔ w.destination ≠ [] ∧ 0 ≤ w.index := by
  simp [violations, required_eq_nil]

theorem Raw.Record.violations_eq_nil (r : Record) : r.violations = [] ↔ r.Complete := by
  have connections := map_idx_flatten_eq_nil Connection.violations_eq_nil r.data.connectionList
  have warps := map_idx_flatten_eq_nil Warp.violations_eq_nil r.data.warpList
  simp only [violations, MapData.violations, Layout.violations, List.append_eq_nil_iff,
    required_eq_nil, connections, warps]
  constructor
  · rintro ⟨⟨⟨⟨⟨id, name⟩, layout⟩, linked⟩, warped⟩, ⟨⟨⟨layoutId, width⟩, height⟩, border⟩, tiles⟩
    exact ⟨id, name, layout, linked, warped, layoutId, by simpa using width, by simpa using height,
      border, tiles⟩
  · intro h
    exact ⟨⟨⟨⟨⟨h.id, h.name⟩, h.layout⟩, h.connections⟩, h.warps⟩,
      ⟨⟨⟨h.layoutId, if_neg h.width⟩, if_neg h.height⟩, h.borderPath⟩, h.tilesPath⟩

theorem Raw.Record.validate_eq_ok {r : Record} : r.validate = .ok () ↔ r.Complete := by
  rw [← violations_eq_nil, validate, ← List.isEmpty_iff]
  by_cases h : r.violations.isEmpty = true <;> simp [h]

theorem Raw.Record.validate_eq_error {r : Record} {f : Failure} : r.validate = .error f ↔
    ¬ r.Complete ∧ f = .of (.invalidRecord r.violations) := by
  rw [← violations_eq_nil, validate, ← List.isEmpty_iff]
  by_cases h : r.violations.isEmpty = true <;> simp [h, fail, eq_comm]

namespace Source

variable {fetch : Fetch} {ls : List Layout} {name : Bytes} {r : Record} {f : Failure}

/-! ## The documents -/

/-- The layout of an identifier: its last entry. -/
def lastLayout (ls : List Layout) (id : Bytes) : Option Layout :=
  (ls.filter fun l => l.id = id).getLast?

/-- The layouts that can be referred to. -/
def named (ls : List Layout) : Dict Layout :=
  Dict.ofList ((ls.filter fun l => !l.id.isEmpty).map fun l => (l.id, l))

theorem last_layout_id {id : Bytes} {l : Layout} (h : lastLayout ls id = some l) : l.id = id := by
  simpa using (List.mem_filter.mp (List.mem_of_getLast? h)).2

theorem last_layout_eq_none {id : Bytes} :
    lastLayout ls id = none ↔ ∀ l ∈ ls, l.id ≠ id := by
  simp [lastLayout]

theorem find_named (ls : List Layout) (id : Bytes) :
    (named ls).find? id = if id = [] then none else lastLayout ls id := by
  rw [named, Dict.find_of_list, List.filter_map, List.filter_filter, List.getLast?_map,
    Option.map_map, lastLayout]
  by_cases blank : id = []
  · subst blank
    have none : ls.filter (fun l => decide (l.id = []) && !l.id.isEmpty) = [] := by
      simp [List.filter_eq_nil_iff]
    simp [Function.comp_def, none]
  · have same : ls.filter (fun l => decide (l.id = id) && !l.id.isEmpty) =
        ls.filter fun l => decide (l.id = id) := by
      apply List.filter_congr
      intro l _
      by_cases here : l.id = id <;> simp [here, blank]
    simp [Function.comp_def, same, blank]

/-- A groups document lists these groups in this order, each with these members. -/
def Lists (s : Bytes) (order : List Bytes) (members : Bytes → List Bytes) : Prop :=
  ∃ doc raw, Json.document Json.object [] s = .ok doc ∧
    doc.lookup (utf8 "group_order") = some raw ∧ parseNames raw = .ok order ∧
      ∀ g ∈ order, ∃ raw, doc.lookup g = some raw ∧ parseNames raw = .ok (members g)

theorem read_eq_ok {α : Type} {step : String} {e : Except Cause α} {a : α} :
    read step e = .ok a ↔ e = .ok a := by
  cases e <;> simp [read, Except.mapError]

theorem group_members_eq_ok {doc : List (Bytes × Bytes)} {g : Bytes} {names : List Bytes} :
    groupMembers doc g = .ok names ↔
      ∃ raw, doc.lookup g = some raw ∧ parseNames raw = .ok names := by
  unfold groupMembers
  cases doc.lookup g with
  | none => simp
  | some raw => simp [read_eq_ok]

theorem map_m_eq_ok {f : Bytes → Except Failure (List Bytes)} {xs : List Bytes}
    {ys : List (List Bytes)} :
    xs.mapM f = .ok ys ↔ ∃ g, (∀ x ∈ xs, f x = .ok (g x)) ∧ ys = xs.map g := by
  induction xs generalizing ys with
  | nil => simp [pure, Except.pure, eq_comm]
  | cons x xs ih =>
    simp only [List.mapM_cons, except_bind_eq_ok]
    constructor
    · rintro ⟨y, first, zs, rest, same⟩
      cases same
      obtain ⟨g, others, rfl⟩ := ih.mp rest
      -- The function of the others may differ at `x` itself, if that comes again.
      refine ⟨fun z => if z = x then y else g z, ?_, ?_⟩
      · intro z hz
        show f z = .ok (if z = x then y else g z)
        by_cases here : z = x
        · rw [if_pos here, here, first]
        · rw [if_neg here]
          exact others z ((List.mem_cons.mp hz).resolve_left here)
      · rw [List.map_cons, if_pos rfl]
        refine congrArg _ (List.map_congr_left fun z hz => ?_)
        by_cases here : z = x
        · have again := others z hz
          rw [here, first, ← here] at again
          rw [if_pos here]
          exact (Except.ok.inj again).symm
        · rw [if_neg here]
    · rintro ⟨g, all, rfl⟩
      have rest := ih.mpr ⟨g, fun z hz => all z (by simp [hz]), rfl⟩
      exact ⟨g x, all x (by simp), _, rest, rfl⟩

/-- A groups document is read exactly if it lists groups; the names are those of all members. -/
theorem parse_groups_eq_ok {s : Bytes} {names : List Bytes} : parseGroups s = .ok names ↔
    ∃ order members, Lists s order members ∧ names = order.flatMap members := by
  have document : ∀ doc, (Json.document Json.object [] s).mapError Failure.of = .ok doc ↔
      Json.document Json.object [] s = .ok doc := by
    intro doc
    cases Json.document Json.object [] s <;> simp [Except.mapError]
  simp only [parseGroups, in_step_eq_ok, except_bind_eq_ok, document]
  constructor
  · rintro ⟨doc, parsed, rest⟩
    cases found : doc.lookup (utf8 "group_order") with
    | none => simp [found] at rest
    | some raw =>
      simp only [found, except_bind_eq_ok, read_eq_ok, map_m_eq_ok] at rest
      obtain ⟨order, ordered, _, ⟨members, listed, rfl⟩, same⟩ := rest
      cases same
      exact ⟨order, members,
        ⟨doc, raw, parsed, found, ordered, fun g hg => group_members_eq_ok.mp (listed g hg)⟩, rfl⟩
  · rintro ⟨order, members, ⟨doc, raw, parsed, found, ordered, listed⟩, rfl⟩
    refine ⟨doc, parsed, ?_⟩
    simp only [found, except_bind_eq_ok, read_eq_ok, map_m_eq_ok]
    exact ⟨order, ordered, order.map members,
      ⟨members, fun g hg => group_members_eq_ok.mpr (listed g hg), rfl⟩, rfl⟩

theorem map_path_ne_groups (name : Bytes) : mapPath name ≠ groupsPath := by
  have split : groupsPath = utf8 "data/maps/map_gr" ++ utf8 "oups.json" := by decide
  intro same
  rw [split, mapPath] at same
  have ends : utf8 "/map.json" = utf8 "oups.json" := List.append_inj_right' same (by decide)
  revert ends
  decide

/-! ## One map -/

/-- A record is the one of a listed map: its document was read, its layout is the last entry of the
identifier it names, and nothing is missing in it. -/
structure Retrieved (fetch : Fetch) (ls : List Layout) (name : Bytes) (r : Record) : Prop where
  read : ∃ s, fetch (mapPath name) = .ok s ∧ Json.document mapData default s = .ok r.data
  named : r.data.layout ≠ []
  last : lastLayout ls r.data.layout = some r.layout
  complete : r.Complete

/-- The failures of a single map. -/
inductive Refused (fetch : Fetch) (ls : List Layout) (name : Bytes) : Failure → Prop
  | unfetched {f : Failure} : fetch (mapPath name) = .error f →
      Refused fetch ls name (f.within ("map " ++ Utf8.shown name))
  | unread {s : Bytes} {cause : Cause} : fetch (mapPath name) = .ok s →
      Json.document mapData default s = .error cause →
      Refused fetch ls name
        (((Failure.of cause).within "parsing map").within ("map " ++ Utf8.shown name))
  | unplaced {s : Bytes} {data : MapData} : fetch (mapPath name) = .ok s →
      Json.document mapData default s = .ok data →
      (data.layout = [] ∨ ∀ l ∈ ls, l.id ≠ data.layout) →
      Refused fetch ls name
        ((Failure.of (.unknownLayout data.layout)).within ("map " ++ Utf8.shown name))
  | incomplete {s : Bytes} {r : Record} : fetch (mapPath name) = .ok s →
      Json.document mapData default s = .ok r.data → r.data.layout ≠ [] →
      lastLayout ls r.data.layout = some r.layout → ¬ r.Complete →
      Refused fetch ls name
        (((Failure.of (.invalidRecord r.violations)).within "invalid record").within
          ("map " ++ Utf8.shown name))

theorem retrieve_record_read {s : Bytes} {data : MapData} (fetched : fetch (mapPath name) = .ok s)
    (parsed : Json.document mapData default s = .ok data) (layouts : Dict Layout) :
    retrieveRecord fetch layouts name = inStep ("map " ++ Utf8.shown name)
      (match layouts.find? data.layout with
      | none => fail (.unknownLayout data.layout)
      | some layout => do
        inStep "invalid record" (Record.mk data layout).validate
        return ⟨data, layout⟩) := by
  have contents : parseMap s = .ok data := read_eq_ok.mpr parsed
  rw [retrieveRecord, fetched]
  show inStep _ (parseMap s >>= _) = _
  rw [contents]
  rfl

theorem retrieve_record_of_retrieved (h : Retrieved fetch ls name r) :
    retrieveRecord fetch (named ls) name = .ok r := by
  obtain ⟨⟨s, fetched, parsed⟩, blank, last, complete⟩ := h
  rw [retrieve_record_read fetched parsed, find_named, if_neg blank, last]
  show inStep _ (inStep _ (Record.validate r) >>= _) = _
  rw [Raw.Record.validate_eq_ok.mpr complete]
  rfl

theorem retrieve_record_of_refused (h : Refused fetch ls name f) :
    retrieveRecord fetch (named ls) name = .error f := by
  cases h with
  | unfetched fetched =>
    rw [retrieveRecord, fetched]
    rfl
  | unread fetched parsed =>
    rw [retrieveRecord, fetched]
    show inStep _ (parseMap _ >>= _) = _
    rw [parseMap, parsed]
    rfl
  | unplaced fetched parsed absent =>
    rw [retrieve_record_read fetched parsed, find_named]
    rcases absent with blank | absent
    · rw [if_pos blank]
      rfl
    · rw [last_layout_eq_none.mpr absent, ite_self]
      rfl
  | @incomplete s r fetched parsed blank last incomplete =>
    rw [retrieve_record_read fetched parsed, find_named, if_neg blank, last]
    show inStep _ (inStep _ (Record.validate r) >>= _) = _
    rw [Raw.Record.validate_eq_error.mpr ⟨incomplete, rfl⟩]
    rfl

theorem retrieved_or_refused (fetch : Fetch) (ls : List Layout) (name : Bytes) :
    (∃ r, Retrieved fetch ls name r) ∨ ∃ f, Refused fetch ls name f := by
  cases fetched : fetch (mapPath name) with
  | error f => exact .inr ⟨_, .unfetched fetched⟩
  | ok s =>
    cases parsed : Json.document mapData default s with
    | error cause => exact .inr ⟨_, .unread fetched parsed⟩
    | ok data =>
      by_cases blank : data.layout = []
      · exact .inr ⟨_, .unplaced fetched parsed (.inl blank)⟩
      cases last : lastLayout ls data.layout with
      | none => exact .inr ⟨_, .unplaced fetched parsed (.inr (last_layout_eq_none.mp last))⟩
      | some layout =>
        by_cases complete : (Record.mk data layout).Complete
        · exact .inl ⟨⟨data, layout⟩, ⟨s, fetched, parsed⟩, blank, last, complete⟩
        · exact .inr ⟨_, .incomplete (r := ⟨data, layout⟩) fetched parsed blank last complete⟩

theorem retrieve_record_eq_ok :
    retrieveRecord fetch (named ls) name = .ok r ↔ Retrieved fetch ls name r := by
  refine ⟨fun h => ?_, retrieve_record_of_retrieved⟩
  rcases retrieved_or_refused fetch ls name with ⟨r', got⟩ | ⟨f, refused⟩
  · cases (retrieve_record_of_retrieved got).symm.trans h
    exact got
  · cases (retrieve_record_of_refused refused).symm.trans h

theorem retrieve_record_eq_error :
    retrieveRecord fetch (named ls) name = .error f ↔ Refused fetch ls name f := by
  refine ⟨fun h => ?_, retrieve_record_of_refused⟩
  rcases retrieved_or_refused fetch ls name with ⟨r', got⟩ | ⟨f', refused⟩
  · cases (retrieve_record_of_retrieved got).symm.trans h
  · cases (retrieve_record_of_refused refused).symm.trans h
    exact refused

/-! ## All maps -/

/-- Adds the record of one more map. -/
def addRetrieved (fetch : Fetch) (layouts : Dict Layout) (t : Table) (name : Bytes) :
    Except Failure Table :=
  retrieveRecord fetch layouts name >>= t.insert

theorem retrieve_records_outcome (fetch : Fetch) (layouts : Dict Layout) (names : List Bytes)
    (t : Table) : (retrieveRecords fetch layouts names t).outcome =
      names.foldlM (addRetrieved fetch layouts) t := by
  induction names generalizing t with
  | nil => rfl
  | cons name names ih =>
    simp only [retrieveRecords, List.foldlM_cons, addRetrieved, Traced.outcome_bind,
      Traced.outcome_lift, Traced.outcome_report]
    cases retrieveRecord fetch layouts name with
    | error f => rfl
    | ok r =>
      show (t.insert r).bind _ = (t.insert r).bind _
      cases t.insert r with
      | error f => rfl
      | ok t' => exact ih t'

/-- What is known of the two documents that list the maps. -/
structure Listing (fetch : Fetch) (ls : List Layout) (order : List Bytes)
    (members : Bytes → List Bytes) : Prop where
  layouts : ∃ s entries, fetch layoutsPath = .ok s ∧
    Json.document layoutList none s = .ok entries ∧ ls = entries.getD []
  groups : ∃ s, fetch groupsPath = .ok s ∧ Lists s order members

variable {order : List Bytes} {members : Bytes → List Bytes} {t : Table}

theorem retrieve_outcome (h : Listing fetch ls order members) : (retrieve fetch).outcome =
    (order.flatMap members).foldlM (addRetrieved fetch (named ls)) Table.empty := by
  obtain ⟨⟨s, entries, fetched, parsed, rfl⟩, ⟨g, fetched', listed⟩⟩ := h
  have layouts : (do parseLayouts (← fetch layoutsPath)) = .ok (named (entries.getD [])) := by
    rw [fetched]
    show parseLayouts s = _
    exact except_bind_eq_ok.mpr ⟨entries, read_eq_ok.mpr parsed, rfl⟩
  have groups : (do parseGroups (← fetch groupsPath)) = .ok (order.flatMap members) := by
    rw [fetched']
    exact parse_groups_eq_ok.mpr ⟨order, members, listed, rfl⟩
  rw [retrieve, ← retrieve_records_outcome]
  simp only [Traced.outcome_bind, Traced.outcome_lift, Traced.outcome_report, layouts, groups]
  show Except.bind (retrieveRecords _ _ _ _).outcome _ = _
  cases (retrieveRecords fetch (named (entries.getD [])) (order.flatMap members)
    Table.empty).outcome <;> rfl

theorem add_retrieved_eq_ok (t : Table) (name : Bytes) (t' : Table) :
    addRetrieved fetch (named ls) t name = .ok t' ↔
      ∃ r, Retrieved fetch ls name r ∧ t.get? r.data.id = none ∧ t' = t.add r := by
  simp only [addRetrieved, except_bind_eq_ok, retrieve_record_eq_ok, Table.insert_eq_ok]

theorem retrieved_of_mem {names : List Bytes} {rs : List Record}
    (given : List.Forall₂ (Retrieved fetch ls) names rs) (mem : r ∈ rs) :
    ∃ name, Retrieved fetch ls name r := by
  induction given with
  | nil => simp at mem
  | cons got _ ih =>
    rcases List.mem_cons.mp mem with rfl | mem
    · exact ⟨_, got⟩
    · exact ih mem

theorem foldlM_add_retrieved {names : List Bytes} :
    names.foldlM (addRetrieved fetch (named ls)) Table.empty = .ok t ↔
      ∃ rs, List.Forall₂ (Retrieved fetch ls) names rs ∧ (rs.map (·.data.id)).Nodup ∧
        t = rs.foldl Table.add Table.empty := by
  rw [Table.foldlM_eq_ok_iff add_retrieved_eq_ok]
  have free : ∀ r : Record, Table.empty.get? r.data.id = none := fun _ => rfl
  simp [free]

theorem retrieve_eq_ok (h : Listing fetch ls order members) : (retrieve fetch).outcome = .ok t ↔
    ∃ rs, List.Forall₂ (Retrieved fetch ls) (order.flatMap members) rs ∧
      (rs.map (·.data.id)).Nodup ∧ t = rs.foldl Table.add Table.empty := by
  rw [retrieve_outcome h, foldlM_add_retrieved]

theorem add_retrieved_eq_error {t : Table} :
    addRetrieved fetch (named ls) t name = .error f ↔ Refused fetch ls name f ∨
      ∃ r s, Retrieved fetch ls name r ∧ t.get? r.data.id = some s ∧
        f = .of (.duplicateRecord r.data.id s.data.name r.data.name) := by
  simp only [addRetrieved, except_bind_eq_error, retrieve_record_eq_error, retrieve_record_eq_ok,
    Table.insert_eq_error]
  constructor
  · rintro (refused | ⟨r, got, s, taken⟩)
    · exact .inl refused
    · exact .inr ⟨r, s, got, taken⟩
  · rintro (refused | ⟨r, s, got, taken⟩)
    · exact .inl refused
    · exact .inr ⟨r, got, s, taken⟩

/-- After some maps were retrieved, the next one fails: it is refused, or its identifier is that of
an earlier one. -/
def FailsAfter (fetch : Fetch) (ls : List Layout) (rs : List Record) (name : Bytes) (f : Failure) :
    Prop :=
  Refused fetch ls name f ∨ ∃ r s, Retrieved fetch ls name r ∧ s ∈ rs ∧ s.data.id = r.data.id ∧
    f = .of (.duplicateRecord r.data.id s.data.name r.data.name)

theorem retrieve_eq_error (h : Listing fetch ls order members) :
    (retrieve fetch).outcome = .error f ↔
      ∃ before name after rs, order.flatMap members = before ++ name :: after ∧
        List.Forall₂ (Retrieved fetch ls) before rs ∧ (rs.map (·.data.id)).Nodup ∧
          FailsAfter fetch ls rs name f := by
  rw [retrieve_outcome h, foldlM_eq_error]
  constructor
  · rintro ⟨before, name, after, t, split, done, failed⟩
    obtain ⟨rs, given, distinct, rfl⟩ := foldlM_add_retrieved.mp done
    refine ⟨before, name, after, rs, split, given, distinct, ?_⟩
    rcases add_retrieved_eq_error.mp failed with refused | ⟨r, s, got, taken, same⟩
    · exact .inl refused
    · obtain ⟨mem, clash⟩ := (Table.get_foldl_add distinct).mp taken
      exact .inr ⟨r, s, got, mem, clash, same⟩
  · rintro ⟨before, name, after, rs, split, given, distinct, fails⟩
    refine ⟨before, name, after, _, split,
      foldlM_add_retrieved.mpr ⟨rs, given, distinct, rfl⟩, add_retrieved_eq_error.mpr ?_⟩
    rcases fails with refused | ⟨r, s, got, mem, clash, same⟩
    · exact .inl refused
    · exact .inr ⟨r, s, got, (Table.get_foldl_add distinct).mpr ⟨mem, clash⟩, same⟩

/-! ## Other listings of the same maps -/

theorem Retrieved.congr {fetch' : Fetch} (same : fetch' (mapPath name) = fetch (mapPath name))
    (h : Retrieved fetch ls name r) : Retrieved fetch' ls name r :=
  ⟨by rw [same]; exact h.read, h.named, h.last, h.complete⟩

/-- A listing of the same maps in another order gives the same table. -/
theorem retrieve_of_perm {order' : List Bytes} {members' : Bytes → List Bytes} {fetch' : Fetch}
    (h : Listing fetch ls order members) (h' : Listing fetch' ls order' members')
    (maps : ∀ name, fetch' (mapPath name) = fetch (mapPath name))
    (same : (order'.flatMap members').Perm (order.flatMap members))
    (got : (retrieve fetch).outcome = .ok t) : (retrieve fetch').outcome = .ok t := by
  obtain ⟨rs, given, distinct, rfl⟩ := (retrieve_eq_ok h).mp got
  obtain ⟨rs', given', shuffled⟩ := List.perm_comp_forall₂ same given
  have distinct' : (rs'.map (·.data.id)).Nodup := (shuffled.map _).nodup_iff.mpr distinct
  apply (retrieve_eq_ok h').mpr
  refine ⟨rs', given'.imp fun name r => Retrieved.congr (maps name), distinct', ?_⟩
  exact (Table.foldl_add_of_perm distinct' shuffled).symm

/-- A retrieval succeeds exactly if every listed map has a record and no two of the records have one
identifier. The table then holds just these records. Otherwise it fails at the first map that has
none, or whose identifier is taken. The order of the groups and of their members is of no
consequence for the table. -/
theorem retrieval_complete_or_first_failure (h : Listing fetch ls order members) :
    ((∃ t, (retrieve fetch).outcome = .ok t) ↔
      ∃ rs, List.Forall₂ (Retrieved fetch ls) (order.flatMap members) rs ∧
        (rs.map (·.data.id)).Nodup) ∧
    (∀ t, (retrieve fetch).outcome = .ok t →
      ∃ rs, List.Forall₂ (Retrieved fetch ls) (order.flatMap members) rs ∧
        t.size = (order.flatMap members).length ∧
        (∀ id r, t.get? id = some r ↔ r ∈ rs ∧ r.data.id = id) ∧
        ∀ r ∈ rs, r.layout.id = r.data.layout ∧ lastLayout ls r.data.layout = some r.layout ∧
          ∀ w ∈ r.data.warpList, 0 ≤ w.index) ∧
    (∀ f, (retrieve fetch).outcome = .error f ↔
      ∃ before name after rs, order.flatMap members = before ++ name :: after ∧
        List.Forall₂ (Retrieved fetch ls) before rs ∧ (rs.map (·.data.id)).Nodup ∧
          FailsAfter fetch ls rs name f) ∧
    ∀ fetch' s order' members', (∀ path, path ≠ groupsPath → fetch' path = fetch path) →
      fetch' groupsPath = .ok s → Lists s order' members' → order'.Perm order →
      (∀ g ∈ order, (members' g).Perm (members g)) →
      ∀ t, (retrieve fetch').outcome = .ok t ↔ (retrieve fetch).outcome = .ok t := by
  refine ⟨?_, ?_, fun f => retrieve_eq_error h, ?_⟩
  · constructor
    · rintro ⟨t, got⟩
      obtain ⟨rs, given, distinct, _⟩ := (retrieve_eq_ok h).mp got
      exact ⟨rs, given, distinct⟩
    · rintro ⟨rs, given, distinct⟩
      exact ⟨_, (retrieve_eq_ok h).mpr ⟨rs, given, distinct, rfl⟩⟩
  · intro t got
    obtain ⟨rs, given, distinct, rfl⟩ := (retrieve_eq_ok h).mp got
    refine ⟨rs, given, ?_, fun id r => Table.get_foldl_add distinct, ?_⟩
    · rw [given.length_eq, ← (Table.foldl_add_perm distinct).length_eq, Table.toList, Dict.values,
        List.length_map]
      rfl
    · intro r mem
      obtain ⟨name, got⟩ := retrieved_of_mem given mem
      exact ⟨last_layout_id got.last, got.last, fun w hw => (got.complete.warps w hw).2⟩
  · intro fetch' s order' members' same fetched listed groups within t
    have listing : Listing fetch' ls order' members' :=
      ⟨by rw [same _ (by decide)]; exact h.layouts, s, fetched, listed⟩
    have names : (order'.flatMap members').Perm (order.flatMap members) :=
      (groups.flatMap_right _).trans (List.Perm.flatMap_left _ within)
    have maps : ∀ name, fetch' (mapPath name) = fetch (mapPath name) :=
      fun name => same _ (map_path_ne_groups name)
    exact ⟨retrieve_of_perm listing h (fun name => (maps name).symm) names.symm,
      retrieve_of_perm h listing maps names⟩

/-- The text of an object with these entries. -/
def braced (entries : String) : Bytes := utf8 ("\x7b" ++ entries ++ "\x7d")

/-- A source of three maps in two groups, with two entries for one layout. -/
def hamlet (order : String) : Fetch := fun path =>
  let layouts : Bytes := utf8 "\x7b\"layouts\": [" ++
    braced "\"id\": \"L\", \"width\": 1, \"height\": 1" ++ utf8 ", " ++
    braced ("\"id\": \"L\", \"width\": 2, \"height\": 3, \"border_filepath\": \"b\", " ++
      "\"blockdata_filepath\": \"t\"") ++ utf8 "]\x7d"
  let groups := braced ("\"group_order\": [" ++ order ++
    "], \"east\": [\"Inn\", \"Mill\"], \"west\": [\"Barn\"]")
  let map (id : String) : Bytes :=
    braced ("\"id\": \"" ++ id ++ "\", \"name\": \"n\", \"layout\": \"L\"")
  let files := [(layoutsPath, layouts), (mapPath (utf8 "Inn"), map "MAP_INN"),
    (mapPath (utf8 "Mill"), map "MAP_MILL"), (mapPath (utf8 "Barn"), map "MAP_BARN")]
  if path = groupsPath then .ok groups
  else match files.lookup path with
    | some s => .ok s
    | none => fail (.other "absent")

def hamletLayouts : List Layout :=
  [⟨utf8 "L", [], 1, 1, [], [], [], []⟩, ⟨utf8 "L", [], 2, 3, [], [], utf8 "b", utf8 "t"⟩]

def hamletMembers (g : Bytes) : List Bytes :=
  if g = utf8 "east" then [utf8 "Inn", utf8 "Mill"] else [utf8 "Barn"]

/-- The maps of the hamlet are retrieved, the groups in either order, with the later entry of their
layout. -/
theorem hamlet_retrieved_either_way :
    ∃ t, (retrieve (hamlet "\"east\", \"west\"")).outcome = .ok t ∧ t.size = 3 ∧
      (∀ id r, t.get? id = some r → r.layout.width = 2) ∧
      (retrieve (hamlet "\"west\", \"east\"")).outcome = .ok t := by
  have layouts : ∃ s entries, hamlet "\"east\", \"west\"" layoutsPath = .ok s ∧
      Json.document layoutList none s = .ok entries ∧ hamletLayouts = entries.getD [] :=
    ⟨_, some hamletLayouts, rfl, by decide +kernel, rfl⟩
  have listed : ∃ s, hamlet "\"east\", \"west\"" groupsPath = .ok s ∧
      Lists s [utf8 "east", utf8 "west"] hamletMembers := by
    refine ⟨_, rfl, [(utf8 "west", utf8 "[\"Barn\"]"), (utf8 "east", utf8 "[\"Inn\", \"Mill\"]"),
      (utf8 "group_order", utf8 "[\"east\", \"west\"]")], _, by decide +kernel, rfl,
      by decide +kernel, ?_⟩
    simp only [List.mem_cons, List.not_mem_nil, or_false, forall_eq_or_imp, forall_eq]
    exact ⟨⟨_, rfl, by decide +kernel⟩, _, rfl, by decide +kernel⟩
  have relisted : ∃ s, hamlet "\"west\", \"east\"" groupsPath = .ok s ∧
      Lists s [utf8 "west", utf8 "east"] hamletMembers := by
    refine ⟨_, rfl, [(utf8 "west", utf8 "[\"Barn\"]"), (utf8 "east", utf8 "[\"Inn\", \"Mill\"]"),
      (utf8 "group_order", utf8 "[\"west\", \"east\"]")], _, by decide +kernel, rfl,
      by decide +kernel, ?_⟩
    simp only [List.mem_cons, List.not_mem_nil, or_false, forall_eq_or_imp, forall_eq]
    exact ⟨⟨_, rfl, by decide +kernel⟩, _, rfl, by decide +kernel⟩
  obtain ⟨_, holds, _, reordered⟩ := retrieval_complete_or_first_failure ⟨layouts, listed⟩
  have succeeds : (retrieve (hamlet "\"east\", \"west\"")).outcome.toOption.isSome := by
    decide +kernel
  cases got : (retrieve (hamlet "\"east\", \"west\"")).outcome with
  | error f =>
    rw [got] at succeeds
    cases succeeds
  | ok t =>
    obtain ⟨rs, _, size, found, records⟩ := holds t got
    obtain ⟨s, fetched, lists⟩ := relisted
    refine ⟨t, rfl, size, ?_, (reordered _ s _ _ ?_ fetched lists (.swap _ _ _) ?_ t).mpr got⟩
    · intro id r here
      obtain ⟨_, last, _⟩ := records r ((found id r).mp here).1
      by_cases named : r.data.layout = utf8 "L"
      · rw [named] at last
        exact congrArg Layout.width (Option.some.inj last).symm
      · have absent : ∀ l ∈ hamletLayouts, l.id ≠ r.data.layout := by
          simp [hamletLayouts, Ne.symm named]
        rw [last_layout_eq_none.mpr absent] at last
        cases last
    · intro path other
      simp only [hamlet, if_neg other]
    · exact fun _ _ => .refl _

end Source

end Overworld
