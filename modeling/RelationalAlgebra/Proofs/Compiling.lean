import RelationalAlgebra.Proofs.Drafts

/-!
# Compiling follows the rules

Every relation of a sound algebra compiles, to a query that the rules of `Compiles` allow:
`exists_compiles`.

The proof is by recursion on the relation, which is in each of the places it can stand in what the
rules say (`Renders`).  `Finished` holds when a relation has become a query: its columns can be
written, and nothing in the draft is younger than the relation.  A selection or projection goes on
from there.
-/

namespace RelationalAlgebra.Sql

variable {a : Algebra} {d d' d'' : Draft} {r s root : Relation} {i k : Nat} {e : SqlExpr}

/-! ## Relations as queries -/

theorem Draft.column?_congr (hwritten : d'.written = d.written)
    (hunits : d'.query.units = d.query.units) : d'.column? r i = d.column? r i := by
  have hknown : ∀ (r : Relation) (i : Nat) (o : Option SqlExpr),
      d'.known? r i o = d.known? r i o := by
    intro r i o
    simp only [known?, memo, hwritten, hunits]
  induction r generalizing i with
  | table t => simp only [column?, hknown]
  | selection id operand condition ih => simp only [column?, hknown, ih]
  | projection id operand whole shown ih => simp only [column?, hknown]
  | join id kind left right condition ihl ihr => simp only [column?, hknown, ihl, ihr]

/-- The columns of a relation can be written, and nothing is younger than the relation. -/
structure Ready (r : Relation) (columns : List SqlExpr) (d : Draft) : Prop where
  shows : ∀ i e, columns[i]? = some e → d.column? r i = some e
  noted_le : ∀ key e, d.memo key = some e → key.1 ≤ r.id
  units_le : ∀ u ∈ d.query.units, u.relation.id ≤ r.id

theorem Ready.congr {columns : List SqlExpr} (h : Ready r columns d)
    (hwritten : d'.written = d.written) (hunits : d'.query.units = d.query.units) :
    Ready r columns d' where
  shows i e he := by rw [Draft.column?_congr hwritten hunits]; exact h.shows i e he
  noted_le := by unfold Draft.memo; rw [hwritten]; exact h.noted_le
  units_le := by rw [hunits]; exact h.units_le

/-- Nothing is remembered of a younger relation. -/
theorem Ready.memo_eq_none {columns : List SqlExpr} {n : Nat} (h : Ready r columns d)
    (hn : r.id < n) : d.memo (n, i) = none := by
  cases hmemo : d.memo (n, i) with
  | none => rfl
  | some e => exact absurd (h.noted_le _ _ hmemo) (Nat.not_le.2 hn)

/-- No younger relation is a unit. -/
theorem Ready.exposure?_eq_none {columns : List SqlExpr} {n : Nat} (h : Ready r columns d)
    (hn : r.id < n) : exposure? d.query.units n i = none :=
  Sql.exposure?_eq_none fun u hu => Nat.ne_of_lt (Nat.lt_of_le_of_lt (h.units_le u hu) hn)

theorem Ready.columnExpr_ends {columns : List SqlExpr} (ha : a.Sound) (hr : r ∈ a.relations)
    (h : Ready r columns d) (hi : i < columns.length) :
    Ends (columnExpr r i) d fun e d' =>
      Ready r columns d' ∧ d.OnlyNotes d' ∧ columns[i]? = some e := by
  have he : columns[i]? = some columns[i] := List.getElem?_eq_getElem hi
  obtain ⟨d', hwrites, hrun⟩ := exists_writes (h.shows i _ he)
  refine ends_of_run hrun ⟨⟨?_, ?_, ?_⟩, hwrites.onlyNotes, he⟩
  · intro j f hf
    rw [hwrites.keeps ha hr hr]
    exact h.shows j f hf
  · intro key f hf
    rcases hwrites.id_le ha hr hf with hf | hle
    · exact h.noted_le key f hf
    · exact hle
  · rw [hwrites.onlyNotes.query]
    exact h.units_le

/-- A relation has become a query. -/
structure Finished (root r : Relation) (n : Numbering) (columns : List SqlExpr) (d : Draft) :
    Prop where
  compiles : Compiles root r n d.query columns ⟨d.subqueries, d.placeholders⟩
  ready : Ready r columns d

/-- The name a column is shown under is that of the rules. -/
theorem Finished.exposedName?_eq {n : Numbering} {columns : List SqlExpr} (ha : a.Sound)
    (hr : r ∈ a.relations) (h : Finished root r n columns d) (hi : i < columns.length) :
    exposedName? d r i = d.query.nameOf? columns[i] := by
  obtain ⟨e, d', hrun, -, -, he⟩ := h.ready.columnExpr_ends ha hr hi
  rw [List.getElem?_eq_getElem hi] at he
  rw [exposedName?, hrun, Option.some.inj he]
  rfl

/-! ### Units -/

/-- A relation that is no unit becomes the last one. -/
theorem unitOf_ends {make : Compile FromUnit} {P : FromUnit → Draft → Prop}
    (hnew : ∀ u ∈ d.query.units, u.relation.id ≠ r.id)
    (hmake : Ends make d fun u d' => d'.query = d.query ∧ P u d') :
    Ends (unitOf r make) d fun place d' =>
      place = d.query.units.length ∧ ∃ u d₁, P u d₁ ∧
        d' = { d₁ with query := { d.query with units := d.query.units ++ [u] } } := by
  have hnone : d.query.units.findIdx? (·.relation.id == r.id) = none := by
    rw [List.findIdx?_eq_none_iff]
    exact fun u hu => beq_eq_false_iff_ne.2 (hnew u hu)
  refine Ends.get ?_
  rw [hnone]
  refine hmake.bind ?_
  rintro u d₁ ⟨hquery, hpost⟩
  refine Ends.get ?_
  refine (ends_modify (P := fun _ d' =>
    d' = { d₁ with query := { d.query with units := d.query.units ++ [u] } }) ?_).bind ?_
  · rw [hquery]
  · rintro _ _ rfl
    exact ends_pure ⟨by rw [hquery], u, d₁, hpost, rfl⟩

/-- A relation that becomes a query can be a subquery. -/
theorem subqueryOf_ends {whole : Compile Unit} (ha : a.Sound) (hr : r ∈ a.relations)
    (hnested : r.table? = none)
    (hwhole : Ends whole (Draft.start r (d.subqueries + 1) d.placeholders) fun _ d' =>
      ∃ columns, Finished r r ⟨d.subqueries + 1, d.placeholders⟩ columns d') :
    Ends (subqueryOf r whole) d fun u d' => d'.query = d.query ∧ d'.written = d.written ∧
      Stands r ⟨d.subqueries, d.placeholders⟩ u ⟨d'.subqueries, d'.placeholders⟩ := by
  obtain ⟨_, inner, hrun, columns, hfinished⟩ := hwhole
  refine Ends.get ?_
  refine (ends_lift (P := fun p t => p = (⟨⟩, inner) ∧ d = t) hrun ⟨rfl, rfl⟩).bind ?_
  rintro _ _ ⟨rfl, rfl⟩
  refine (ends_set (P := fun _ t => t = { d with
    subqueries := inner.subqueries, placeholders := inner.placeholders }) rfl).bind ?_
  rintro _ _ rfl
  refine ends_pure ⟨rfl, rfl, ?_⟩
  have hwidth := hfinished.compiles.length
  have hexposed : (List.range r.width).map (exposedName? inner r) =
      columns.map inner.query.nameOf? := by
    refine List.ext_getElem (by simp [hwidth]) fun i hi hi' => ?_
    rw [List.length_map] at hi'
    rw [List.getElem_map, List.getElem_range, List.getElem_map,
      hfinished.exposedName?_eq ha hr hi']
  rw [hexposed]
  exact .subquery hnested hfinished.compiles

/-! ### What a relation is in each place -/

/-- A relation that is no unit yet becomes the last one. -/
def AddsUnit (r : Relation) (unit : Compile Nat) : Prop :=
  ∀ d : Draft, (∀ u ∈ d.query.units, u.relation.id ≠ r.id) → Ends unit d fun place d' =>
    place = d.query.units.length ∧ ∃ u, Stands r ⟨d.subqueries, d.placeholders⟩ u
      ⟨d'.subqueries, d'.placeholders⟩ ∧ d'.written = d.written ∧
        d'.query = { d.query with units := d.query.units ++ [u] }

/-- A relation is in each place what the rules say. -/
structure Renders (a : Algebra) (r : Relation) : Prop where
  whole (root : Relation) (n : Numbering) :
    Ends (rendering r).whole (Draft.start root n.subqueries n.placeholders) fun _ d =>
      ∃ columns, Finished root r n columns d
  operand (root : Relation) (n : Numbering) :
    Ends (rendering r).operand (Draft.start root n.subqueries n.placeholders) fun source d =>
      Laid a r d ∧ d.query = { Query.start root with units := d.query.units } ∧
        Lays r n source d.query.units ⟨d.subqueries, d.placeholders⟩
  unit : AddsUnit r (rendering r).unit

/-- A unit that is not the whole query and no join is the only unit to its right. -/
theorem laid_of_leaf {u : FromUnit} {n n' : Numbering} (hr : r ∈ a.relations)
    (hleaf : r.joinChain = []) (hstands : Stands r n u n') (hunits : d.query.units = [u])
    (hwritten : d.written = []) : Laid a r d where
  mem := hr
  relations := by
    rw [hunits, Relation.joinUnits_of_joinChain_nil hleaf, ← hstands.relation_eq]
    rfl
  total := by
    intro v hv i hi
    rw [hunits] at hv
    obtain rfl := List.mem_singleton.1 hv
    rw [hstands.relation_eq] at hi
    exact hstands.column?_isSome hi
  faithful := by
    intro key e hkey
    simp [Draft.memo, hwritten] at hkey

/-- A leaf is one unit as the left operand of a join. -/
theorem operand_ends_of_leaf {unit : Compile Nat} {n : Numbering} (hr : r ∈ a.relations)
    (hleaf : r.joinChain = []) (hunit : AddsUnit r unit) :
    Ends (do return .unit (← unit) : Compile Source)
      (Draft.start root n.subqueries n.placeholders) fun source d =>
        Laid a r d ∧ d.query = { Query.start root with units := d.query.units } ∧
          Lays r n source d.query.units ⟨d.subqueries, d.placeholders⟩ := by
  refine (hunit _ (by simp [Draft.start, Query.start])).bind ?_
  rintro place d ⟨rfl, u, hstands, hwritten, hquery⟩
  have hunits : d.query.units = [u] := by rw [hquery]; rfl
  refine ends_pure ⟨laid_of_leaf hr hleaf hstands hunits hwritten, ?_, ?_⟩
  · rw [hquery]
    rfl
  · rw [hunits]
    exact .leaf hleaf hstands

/-- A relation that becomes a query becomes a unit as a subquery. -/
theorem addsUnit_of_whole {whole : Compile Unit} (ha : a.Sound) (hr : r ∈ a.relations)
    (hnested : r.table? = none)
    (hwhole : ∀ root n, Ends whole (Draft.start root n.subqueries n.placeholders) fun _ d =>
      ∃ columns, Finished root r n columns d) : AddsUnit r (unitOf r (subqueryOf r whole)) := by
  intro d hnew
  refine (unitOf_ends hnew (subqueryOf_ends ha hr hnested (hwhole r ⟨_, _⟩))).mono ?_
  rintro place d' ⟨hplace, u, d₁, ⟨hwritten, hstands⟩, rfl⟩
  exact ⟨hplace, u, hstands, hwritten, rfl⟩

theorem nested_renders {whole : Compile Unit} (ha : a.Sound) (hr : r ∈ a.relations)
    (hnested : r.table? = none) (hleaf : r.joinChain = [])
    (hrendering : rendering r = .nested r whole)
    (hwhole : ∀ root n, Ends whole (Draft.start root n.subqueries n.placeholders) fun _ d =>
      ∃ columns, Finished root r n columns d) : Renders a r := by
  have hunit : AddsUnit r (rendering r).unit := by
    rw [hrendering]
    exact addsUnit_of_whole ha hr hnested hwhole
  refine ⟨?_, ?_, hunit⟩
  · rw [hrendering]
    exact hwhole
  · intro root n
    rw [hrendering] at hunit ⊢
    exact operand_ends_of_leaf hr hleaf hunit

/-! ### Base tables -/

theorem table_renders {t : Table} (hr : Relation.table t ∈ a.relations) :
    Renders a (.table t) := by
  have hunit : AddsUnit (.table t) (rendering (.table t)).unit := by
    intro d hnew
    refine (unitOf_ends (P := fun u d' => u = .table t ∧ d' = d)
      hnew (ends_pure ⟨rfl, rfl, rfl⟩)).mono ?_
    rintro place d' ⟨hplace, u, d₁, ⟨rfl, rfl⟩, rfl⟩
    exact ⟨hplace, _, .table, rfl, rfl⟩
  refine ⟨?_, ?_, hunit⟩
  · intro root n
    refine ⟨⟨⟩, ⟨⟨root, none, some (.unit 0), [], [.table t], none, none⟩, [], n.subqueries,
      n.placeholders⟩, rfl, _, .table, ?_, ?_, ?_⟩
    · intro i e he
      rw [List.getElem?_map] at he
      rw [Draft.column?, Draft.known?_of_none rfl rfl, he]
    · intro key e hkey
      cases hkey
    · intro u hu
      obtain rfl := List.mem_singleton.1 hu
      exact Nat.le_refl _
  · intro root n
    exact operand_ends_of_leaf hr rfl hunit

/-! ### Selections -/

theorem selection_renders {id : Nat} {operand : Relation} {condition : Expr Nat} (ha : a.Sound)
    (hr : Relation.selection id operand condition ∈ a.relations) (hoperand : Renders a operand) :
    Renders a (.selection id operand condition) := by
  obtain ⟨hop, hlt⟩ := ha.selection_operand hr
  refine nested_renders ha hr rfl rfl rfl fun root n => ?_
  refine (hoperand.whole root n).bind ?_
  rintro _ d ⟨columns, hfinished⟩
  have hcondition := ha.selection_condition hr
  rw [← hfinished.compiles.length] at hcondition
  refine (exprOf_ends (Ready operand columns) (fun i e => columns[i]? = some e) (fun d i hd hi =>
    hd.columnExpr_ends ha hop hi) (fun d p hd => hd.congr rfl rfl) hcondition
      hfinished.ready).bind ?_
  rintro e d' ⟨hready, hquery, hsub, hfills⟩
  refine ends_modify ⟨columns, ?_, ?_⟩
  · have hcompiles := hfinished.compiles
    rw [← hquery, ← hsub] at hcompiles
    exact .selection hcompiles hfills
  · refine ⟨fun i e he => ?_, fun key e hkey => ?_, fun u hu => ?_⟩
    · have hmemo : d'.memo (id, i) = none := hready.memo_eq_none hlt
      have hhidden : exposure? d'.query.units id i = none := hready.exposure?_eq_none hlt
      rw [Draft.column?, Draft.known?_of_none hmemo hhidden, ← hready.shows i e he]
      exact Draft.column?_congr rfl rfl
    · exact Nat.le_trans (hready.noted_le key e hkey) (Nat.le_of_lt hlt)
    · exact Nat.le_trans (hready.units_le u hu) (Nat.le_of_lt hlt)

/-! ### Projections -/

theorem getElem?_concat_eq_some {α : Type} {l : List α} {x y : α}
    (h : (l ++ [x])[i]? = some y) : l[i]? = some y ∨ i = l.length ∧ y = x := by
  rcases Nat.lt_trichotomy i l.length with hi | rfl | hi
  · rw [List.getElem?_append_left hi] at h
    exact .inl h
  · rw [List.getElem?_append_right (Nat.le_refl _), Nat.sub_self] at h
    exact .inr ⟨rfl, (Option.some.inj h).symm⟩
  · rw [List.getElem?_eq_none (by rw [List.length_append]; exact hi)] at h
    cases h

/-- The columns of a select list whose entries are remembered are remembered. -/
theorem memo_map_expr {done : List SelectEntry} {n : Nat}
    (h : ∀ i entry, done[i]? = some entry → d.memo (n, i) = some entry.expr)
    (he : (done.map (·.expr))[i]? = some e) : d.memo (n, i) = some e := by
  rw [List.getElem?_map] at he
  obtain ⟨entry, hentry, rfl⟩ := Option.map_eq_some_iff.1 he
  exact h i entry hentry

/-- The first `k` columns of a projection are written. -/
structure Projecting (id : Nat) (operand : Relation) (columns : List SqlExpr) (k : Nat)
    (done : List SelectEntry) (d : Draft) : Prop where
  length : done.length = k
  shows : ∀ i e, columns[i]? = some e → d.column? operand i = some e
  noted : ∀ i entry, done[i]? = some entry → d.memo (id, i) = some entry.expr
  fresh : ∀ i, k ≤ i → d.memo (id, i) = none
  noted_le : ∀ key e, d.memo key = some e → key.1 ≤ id
  units_lt : ∀ u ∈ d.query.units, u.relation.id < id

namespace Projecting

variable {id : Nat} {operand : Relation} {whole : Option Table} {shown : List OutputColumn}
  {columns : List SqlExpr} {done : List SelectEntry}

/-- At first nothing of the projection is written. -/
theorem start (hlt : operand.id < id) (h : Ready operand columns d) :
    Projecting id operand columns 0 [] d where
  length := rfl
  shows := h.shows
  noted := by
    intro i entry hentry
    cases hentry
  fresh := by
    intro i _
    exact h.memo_eq_none hlt
  noted_le := by
    intro key e hkey
    exact Nat.le_trans (h.noted_le key e hkey) (Nat.le_of_lt hlt)
  units_lt := by
    intro u hu
    exact Nat.lt_of_le_of_lt (h.units_le u hu) hlt

/-- At last the columns of the projection can be written. -/
theorem ready (h : Projecting id operand columns k done d) :
    Ready (.projection id operand whole shown) (done.map (·.expr)) d where
  shows _ _ he := Draft.column?_of_memo (memo_map_expr h.noted he)
  noted_le := h.noted_le
  units_le u hu := Nat.le_of_lt (h.units_lt u hu)

theorem congr (h : Projecting id operand columns k done d) (hwritten : d'.written = d.written)
    (hunits : d'.query.units = d.query.units) : Projecting id operand columns k done d' where
  length := h.length
  shows i e he := by rw [Draft.column?_congr hwritten hunits]; exact h.shows i e he
  noted := by unfold Draft.memo; rw [hwritten]; exact h.noted
  fresh := by unfold Draft.memo; rw [hwritten]; exact h.fresh
  noted_le := by unfold Draft.memo; rw [hwritten]; exact h.noted_le
  units_lt := by rw [hunits]; exact h.units_lt

variable (ha : a.Sound) (hr : Relation.projection id operand whole shown ∈ a.relations)
  (h : Projecting id operand columns k done d)

include ha hr h

theorem columnExpr_ends (hi : i < columns.length) :
    Ends (columnExpr operand i) d fun e d' =>
      Projecting id operand columns k done d' ∧ d.OnlyNotes d' ∧ columns[i]? = some e := by
  obtain ⟨hop, hlt⟩ := ha.projection_operand hr
  have he : columns[i]? = some columns[i] := List.getElem?_eq_getElem hi
  obtain ⟨d', hwrites, hrun⟩ := exists_writes (h.shows i _ he)
  refine ends_of_run hrun ⟨⟨h.length, ?_, ?_, ?_, ?_, ?_⟩, hwrites.onlyNotes, he⟩
  · intro j f hf
    rw [hwrites.keeps ha hop hop]
    exact h.shows j f hf
  · intro j entry hentry
    exact hwrites.memo_of_some (h.noted j entry hentry)
  · intro j hj
    cases hmemo : d'.memo (id, j) with
    | none => rfl
    | some f =>
      rcases hwrites.id_le ha hop hmemo with hold | hle
      · rw [h.fresh j hj] at hold
        cases hold
      · exact absurd hle (Nat.not_le.2 hlt)
  · intro key f hf
    rcases hwrites.id_le ha hop hf with hf | hle
    · exact h.noted_le key f hf
    · exact Nat.le_trans hle (Nat.le_of_lt hlt)
  · rw [hwrites.onlyNotes.query]
    exact h.units_lt

/-- The next column is remembered. -/
theorem note (name : String) :
    Projecting id operand columns (k + 1) (done ++ [⟨name, e⟩])
      (d.note (.projection id operand whole shown) k e) := by
  obtain ⟨hop, hlt⟩ := ha.projection_operand hr
  have hmemo : ∀ key, (d.note (.projection id operand whole shown) k e).memo key =
      if key = (id, k) then some e else d.memo key := fun key => Draft.memo_note key
  refine ⟨by rw [List.length_append, h.length]; rfl, ?_, ?_, ?_, ?_, h.units_lt⟩
  · intro i f hf
    rw [Draft.column?_note ha hr (fun hle => absurd hle (Nat.not_le.2 hlt)) hop]
    exact h.shows i f hf
  · intro i entry hentry
    rw [hmemo]
    rcases getElem?_concat_eq_some hentry with hentry | ⟨rfl, rfl⟩
    · rw [if_neg]
      · exact h.noted i entry hentry
      · rintro heq
        cases heq
        rw [List.getElem?_eq_none (Nat.le_of_eq h.length)] at hentry
        cases hentry
    · rw [if_pos (by rw [h.length])]
  · intro i hi
    rw [hmemo, if_neg]
    · exact h.fresh i (Nat.le_of_succ_le hi)
    · rintro heq
      cases heq
      exact absurd hi (Nat.not_succ_le_self _)
  · intro key f hf
    rw [hmemo] at hf
    split at hf
    · next hkey => exact Nat.le_of_eq (congrArg Prod.fst hkey)
    · exact h.noted_le key f hf

/-- The next column is written. -/
theorem next_ends {c : OutputColumn} (hc : shown[k]? = some c)
    (hbound : c.source.All (· < columns.length)) :
    Ends (columnExpr (.projection id operand whole shown) k) d fun e d' => ∃ d₁,
      Projecting id operand columns k done d₁ ∧ d₁.query = d.query ∧
        d₁.subqueries = d.subqueries ∧
          Fills (fun i e => columns[i]? = some e) c.source d.placeholders e d₁.placeholders ∧
            d' = d₁.note (.projection id operand whole shown) k e := by
  obtain ⟨e, d₁, hrun, hprojecting, hquery, hsub, hfills⟩ :=
    exprOf_ends (Projecting id operand columns k done) (fun i e => columns[i]? = some e)
      (fun d i hd hi => hd.columnExpr_ends ha hr hi) (fun d p hd => hd.congr rfl rfl) hbound h
  have hmemo : d.memo (id, k) = none := h.fresh k (Nat.le_refl k)
  have hhidden : exposure? d.query.units id k = none :=
    exposure?_eq_none fun u hu => Nat.ne_of_lt (h.units_lt u hu)
  refine ends_of_run (remembered_run_of_source hmemo hhidden ?_)
    ⟨d₁, hprojecting, hquery, hsub, hfills, rfl⟩
  rw [hc]
  exact hrun

omit h in
/-- All columns are written, one after the other. -/
theorem entriesOf_ends (hwidth : columns.length = operand.width)
    (h : Projecting id operand columns 0 [] d) :
    Ends (entriesOf (.projection id operand whole shown) fun c _ => c.name) d fun entries d' =>
      Projecting id operand columns shown.length entries d' ∧ d'.query = d.query ∧
        d'.subqueries = d.subqueries ∧
          FillsAll (fun i e => columns[i]? = some e) shown d.placeholders entries
            d'.placeholders := by
  refine (ends_mapM_zipIdx (l := shown) (fun k done d' =>
    Projecting id operand columns k done d' ∧ d'.query = d.query ∧
      d'.subqueries = d.subqueries ∧
        FillsAll (fun i e => columns[i]? = some e) (shown.take k) d.placeholders done
          d'.placeholders) ?_ ⟨h, rfl, rfl, .nil⟩).mono ?_
  · rintro k c done d' hc ⟨hprojecting, hquery, hsub, hfills⟩
    have hbound : c.source.All (· < columns.length) := by
      rw [hwidth]
      exact (ha.projection_shown hr).sources_lt c (List.mem_of_getElem? hc)
    refine (hprojecting.next_ends ha hr hc hbound).bind ?_
    rintro e _ ⟨d₁, hprojecting, hquery₁, hsub₁, hfills₁, rfl⟩
    refine ends_pure ⟨hprojecting.note ha hr c.name, hquery₁.trans hquery, hsub₁.trans hsub, ?_⟩
    rw [List.take_add_one, hc]
    exact hfills.concat hfills₁
  · rintro entries d' ⟨hprojecting, hquery, hsub, hfills⟩
    rw [List.take_length] at hfills
    exact ⟨hprojecting, hquery, hsub, hfills⟩

end Projecting

theorem projection_renders {id : Nat} {operand : Relation} {whole : Option Table}
    {shown : List OutputColumn} (ha : a.Sound)
    (hr : Relation.projection id operand whole shown ∈ a.relations) (hoperand : Renders a operand) :
    Renders a (.projection id operand whole shown) := by
  obtain ⟨hop, hlt⟩ := ha.projection_operand hr
  refine nested_renders ha hr rfl rfl rfl fun root n => ?_
  refine (hoperand.whole root n).bind ?_
  rintro _ d ⟨columns, hfinished⟩
  have hstart := Projecting.start hlt hfinished.ready
  refine (hstart.entriesOf_ends ha hr hfinished.compiles.length).bind ?_
  rintro entries d' ⟨hprojecting, hquery, hsub, hfills⟩
  have hcompiles := hfinished.compiles
  rw [← hquery, ← hsub] at hcompiles
  have hready : Ready (.projection id operand whole shown) (entries.map (·.expr)) d' :=
    hprojecting.ready
  refine (ends_modify (P := fun _ t =>
    t = { d' with query := { d'.query with entries := some entries } }) rfl).bind ?_
  rintro _ _ rfl
  cases whole with
  | some t => exact ends_modify ⟨_, .projection hcompiles hfills, hready.congr rfl rfl⟩
  | none => exact ends_modify ⟨_, .projection hcompiles hfills, hready.congr rfl rfl⟩

/-! ### Joins -/

section

variable {id : Nat} {kind : JoinKind} {left right : Relation} {condition : Expr Nat}
  {n : Numbering}

/-- A chain of joins that is laid out goes on with the unit of its next right operand. -/
theorem Laid.join {u : FromUnit} {n' : Numbering}
    (hr : Relation.join id kind left right condition ∈ a.relations) (h : Laid a left d)
    (hstands : Stands right n u n') (hwritten : d'.written = d.written)
    (hunits : d'.query.units = d.query.units ++ [u]) :
    Laid a (.join id kind left right condition) d' where
  mem := hr
  relations := by
    rw [hunits, List.map_append, h.relations, List.map_singleton, hstands.relation_eq]
    rfl
  total := by
    intro v hv i hi
    rw [hunits] at hv
    rcases List.mem_append.1 hv with hv | hv
    · exact h.total v hv i hi
    · obtain rfl := List.mem_singleton.1 hv
      rw [hstands.relation_eq] at hi
      exact hstands.column?_isSome hi
  faithful := by
    have hmemo : d'.memo = d.memo := by unfold Draft.memo; rw [hwritten]
    rw [hunits, hmemo]
    exact h.faithful.mono (fun s hs => List.mem_cons_of_mem _ hs)
      (fun v hv => List.mem_append_left _ hv)

/-- The condition of a join is written over its units. -/
theorem Laid.condition_ends (ha : a.Sound) (h : Laid a (.join id kind left right condition) d) :
    Ends (exprOf (joinColumnExpr left right) condition) d fun e d' =>
      Laid a (.join id kind left right condition) d' ∧ d'.query = d.query ∧
        d'.subqueries = d.subqueries ∧
          Fills (Reads (Relation.join id kind left right condition).joinChain d.query.units
            (.join id kind left right condition)) condition d.placeholders e d'.placeholders := by
  refine (exprOf_ends (fun t => Laid a (.join id kind left right condition) t ∧
    t.query = d.query) (Reads (Relation.join id kind left right condition).joinChain
      d.query.units (.join id kind left right condition)) ?_
        (fun t p ht => ⟨ht.1.congr rfl rfl, ht.2⟩) (ha.join_condition h.mem) ⟨h, rfl⟩).mono ?_
  · rintro t i ⟨ht, hquery⟩ hi
    refine (ht.joinColumnExpr_ends ha hi).mono ?_
    rintro e t' ⟨ht', hnotes, hreads⟩
    rw [hquery] at hreads
    exact ⟨⟨ht', hnotes.query.trans hquery⟩, hnotes, hreads⟩
  · rintro e d' ⟨⟨hlaid, hquery⟩, -, hsub, hfills⟩
    exact ⟨hlaid, hquery, hsub, hfills⟩

theorem join_operand_ends (ha : a.Sound)
    (hr : Relation.join id kind left right condition ∈ a.relations) (hleft : Renders a left)
    (hright : Renders a right) :
    Ends (rendering (.join id kind left right condition)).operand
      (Draft.start root n.subqueries n.placeholders) fun source d =>
        Laid a (.join id kind left right condition) d ∧
          d.query = { Query.start root with units := d.query.units } ∧
            Lays (.join id kind left right condition) n source d.query.units
              ⟨d.subqueries, d.placeholders⟩ := by
  refine (hleft.operand root n).bind ?_
  rintro source d ⟨hlaid, hquery, hlays⟩
  have hnew : ∀ u ∈ d.query.units, u.relation.id ≠ right.id := by
    intro u hu
    apply ha.join_new hr
    rw [← hlaid.relations]
    exact List.mem_map_of_mem hu
  refine (hright.unit d hnew).bind ?_
  rintro place d' ⟨rfl, u, hstands, hwritten, hquery'⟩
  have hunits : d'.query.units = d.query.units ++ [u] := by rw [hquery']
  refine ((hlaid.join hr hstands hwritten hunits).condition_ends ha).bind ?_
  rintro e t ⟨ht, hqueryt, hsub, hfills⟩
  rw [hunits] at hfills
  refine ends_pure ⟨ht, ?_, ?_⟩
  · rw [hqueryt, hquery', hquery]
  · rw [hqueryt, hunits, hsub]
    exact .join hlays hstands hfills

/-- The first `k` columns of a join are written. -/
structure WritingEntries (a : Algebra) (r : Relation) (k : Nat) (done : List SelectEntry)
    (d : Draft) : Prop where
  laid : Laid a r d
  length : done.length = k
  entries : done = qualifiedEntries (r.columns.take k) (done.map (·.expr))
  noted : ∀ i entry, done[i]? = some entry → d.memo (r.id, i) = some entry.expr

/-- The columns that are written can be written again. -/
theorem WritingEntries.ready {done : List SelectEntry} (ha : a.Sound)
    (h : WritingEntries a r k done d) : Ready r (done.map (·.expr)) d where
  shows _ _ he := Draft.column?_of_memo (memo_map_expr h.noted he)
  noted_le := h.laid.noted_le ha
  units_le := h.laid.units_le ha

/-- The next column is written. -/
theorem WritingEntries.next_ends {done : List SelectEntry} {c : OutputColumn} (ha : a.Sound)
    (h : WritingEntries a r k done d) (hc : r.columns[k]? = some c) :
    Ends (do
      let e ← columnExpr r k
      return ⟨e.qualifiedName?.getD c.name, e⟩ : Compile SelectEntry) d fun entry d' =>
        WritingEntries a r (k + 1) (done ++ [entry]) d' ∧ d.OnlyNotes d' := by
  have hlt : k < r.columns.length := (List.getElem?_eq_some_iff.1 hc).1
  refine (h.laid.columnExpr_ends ha (Relation.mem_spine_self r) hlt).bind ?_
  rintro e d' ⟨hlaid, hwrites⟩
  refine ends_pure ⟨⟨hlaid, by rw [List.length_append, h.length]; rfl, ?_, ?_⟩,
    hwrites.onlyNotes⟩
  · have hlength : (r.columns.take k).length = (done.map (·.expr)).length := by
      rw [List.length_take, List.length_map, h.length]
      omega
    rw [List.take_add_one, hc, List.map_append, qualifiedEntries, Option.toList_some,
      List.zipWith_append hlength, ← qualifiedEntries, ← h.entries]
    rfl
  · intro i entry hentry
    rcases getElem?_concat_eq_some hentry with hentry | ⟨rfl, rfl⟩
    · exact hwrites.memo_of_some (h.noted i entry hentry)
    · rw [h.length]
      exact hwrites.noted

/-- All columns are written, one after the other. -/
theorem Laid.entriesOf_ends (ha : a.Sound) (h : Laid a r d) :
    Ends (entriesOf r fun c e => e.qualifiedName?.getD c.name) d fun entries d' =>
      WritingEntries a r r.columns.length entries d' ∧ d.OnlyNotes d' := by
  have hstart : WritingEntries a r 0 [] d := ⟨h, rfl, rfl, fun i entry hentry => by cases hentry⟩
  refine ends_mapM_zipIdx (fun k done d' => WritingEntries a r k done d' ∧ d.OnlyNotes d') ?_
    ⟨hstart, .rfl⟩
  rintro k c done d₁ hc ⟨hwriting, hnotes⟩
  refine (hwriting.next_ends ha hc).mono ?_
  rintro entry d' ⟨hwriting', hnotes'⟩
  exact ⟨hwriting', hnotes.trans hnotes'⟩

/-- The `FROM` clause of a query is set once. -/
theorem setSource_ends {source : Source} (h : d.query.source = none) :
    Ends (setSource source) d fun _ d' =>
      d' = { d with query := { d.query with source := some source } } := by
  refine Ends.get ?_
  rw [h]
  exact ends_modify rfl

theorem join_whole_ends (ha : a.Sound)
    (hr : Relation.join id kind left right condition ∈ a.relations) (hleft : Renders a left)
    (hright : Renders a right) :
    Ends (rendering (.join id kind left right condition)).whole
      (Draft.start root n.subqueries n.placeholders) fun _ d =>
        ∃ columns, Finished root (.join id kind left right condition) n columns d := by
  refine (join_operand_ends ha hr hleft hright).bind ?_
  rintro source d ⟨hlaid, hquery, hlays⟩
  have hsource : d.query.source = none := by rw [hquery]; rfl
  refine (setSource_ends hsource).bind ?_
  rintro _ d₁ hd₁
  have hstart : Laid a (.join id kind left right condition) d₁ := by
    rw [hd₁]
    exact hlaid.congr rfl rfl
  refine (hstart.entriesOf_ends ha).bind ?_
  rintro entries t ⟨hwriting, hnotes⟩
  rw [hd₁] at hnotes
  have hunits : t.query.units = d.query.units := by rw [hnotes.query]
  refine ends_modify ⟨entries.map (·.expr), ?_, ?_⟩
  · have hentries := hwriting.entries
    rw [List.take_length] at hentries
    have hcompiles : Compiles root (.join id kind left right condition) n _
        (entries.map (·.expr)) ⟨d.subqueries, d.placeholders⟩ :=
      .join hlays (hunits ▸ hwriting.laid.faithful) ?_ fun i e => memo_map_expr hwriting.noted
    · rw [← hentries] at hcompiles
      rw [hnotes.query, hnotes.subqueries, hnotes.placeholders, hquery]
      exact hcompiles
    · rw [List.length_map, hwriting.length]
      rfl
  · exact (hwriting.ready ha).congr rfl rfl

theorem join_renders (ha : a.Sound)
    (hr : Relation.join id kind left right condition ∈ a.relations) (hleft : Renders a left)
    (hright : Renders a right) : Renders a (.join id kind left right condition) where
  whole _ _ := join_whole_ends ha hr hleft hright
  operand _ _ := join_operand_ends ha hr hleft hright
  unit := addsUnit_of_whole ha hr rfl fun _ _ => join_whole_ends ha hr hleft hright

end

/-! ## The main statement -/

/-- Each relation is in each place what the rules say. -/
theorem renders (ha : a.Sound) (hr : r ∈ a.relations) : Renders a r := by
  induction r with
  | table t => exact table_renders hr
  | selection id operand condition ih =>
    exact selection_renders ha hr (ih (ha.selection_operand hr).1)
  | projection id operand whole shown ih =>
    exact projection_renders ha hr (ih (ha.projection_operand hr).1)
  | join id kind left right condition ihl ihr =>
    exact join_renders ha hr (ihl (ha.join_left hr).1) (ihr (ha.join_right hr).1)

/-- Every relation compiles, to a query that the rules allow. -/
theorem exists_compiles (ha : a.Sound) (hr : r ∈ a.relations) :
    ∃ c columns k, compile r = .ok c ∧
      Compiles r r ⟨0, .empty⟩ c.query columns ⟨k, c.placeholders⟩ := by
  obtain ⟨_, d, hrun, columns, hfinished⟩ := (renders ha hr).whole r ⟨0, .empty⟩
  refine ⟨⟨d.query, d.placeholders⟩, columns, d.subqueries, ?_, hfinished.compiles⟩
  exact bind_ok_iff.2 ⟨_, hrun, rfl⟩

end RelationalAlgebra.Sql
