import RelationalAlgebra.Proofs.Lineage
import RelationalAlgebra.Proofs.Naming
import RelationalAlgebra.Proofs.Scope

/-!
# Column references lead to the declared columns

A column that a relation passes on from a table is a chain of places in the tree, and in the
compiled query it is a chain of names: a reference leads to a unit of the `FROM` clause, in a
subquery the name leads to an entry of the select list, and so on down to a table.
`referenceTrace` follows the second chain by names alone.  The main statement is `compile_trace`:
both chains end at the same declared column.

The chain of names was made by looking for expressions: a subquery is asked for the name it shows an
expression under.  That the name leads back to the expression is `Compiles.trace_of_nameOf?`, and
here the names of tables have to be plain, since it is qualified names that must not coincide.
-/

namespace RelationalAlgebra.Sql

open RelationalAlgebra.Relation

/-! ## Following names -/

mutual

/-- The declared column that a name leads to in a unit. -/
def FromUnit.trace : FromUnit → String → Option Physical
  | .table t, name => (t.columns.findIdx? (·.name == name)).map (⟨t, ·⟩)
  | .subquery _ _ _ query, name => queryTrace query name

/-- The declared column that a name leads to in a query: that of the first entry of the name, or,
if everything is shown, that of the first unit that has the name. -/
def queryTrace : QueryOf FromUnit → String → Option Physical
  | ⟨_, entries, _, _, units, _, _⟩, name =>
    match entries with
    | some (e :: rest) =>
      match (e :: rest).find? (·.name == name) with
      | some ⟨_, .column c⟩ => referenceTrace units c
      | _ => none
    | _ => everyTrace units name

/-- The declared column that a reference leads to: its name leads there in the first unit that has
the name of its qualifier. -/
def referenceTrace : List FromUnit → SqlColumn → Option Physical
  | [], _ => none
  | unit :: rest, c =>
    if unit.qualifier.name == c.qualifier.name then unit.trace c.name else referenceTrace rest c

/-- The declared column that a name leads to in the first unit that has it. -/
def everyTrace : List FromUnit → String → Option Physical
  | [], _ => none
  | unit :: rest, name => unit.trace name <|> everyTrace rest name

end

/-- The expressions that a query shows, column by column. -/
def Query.shown (q : Query) : List SqlExpr :=
  match q.entries with
  | some (e :: rest) => (e :: rest).map (·.expr)
  | _ => q.units.flatMap fun u => u.names.map fun name => .column ⟨u.qualifier, name⟩

section

variable {a : Algebra} {root r : Relation} {n n' : Numbering} {q : Query} {columns : List SqlExpr}
  {source : Source} {units : List FromUnit} {u : FromUnit} {i : Nat} {e : SqlExpr}
  {chain : List Relation} {p : Physical} {c : SqlColumn} {name : String} {t : Table}

/-- A name leads to the only column of a table that has it. -/
theorem trace_table (ht : (t.columns.map (·.name)).Nodup) {column : Column}
    (hc : t.columns[i]? = some column) : (FromUnit.table t).trace column.name = some ⟨t, i⟩ := by
  rw [FromUnit.trace, Algebra.findIdx?_key ht hc]
  rfl

/-- A reference to a unit is followed in that unit, if the units have different names. -/
theorem referenceTrace_of_mem (hnodup : (units.map (·.qualifier.name)).Nodup) (hu : u ∈ units)
    (hc : c.qualifier = u.qualifier) : referenceTrace units c = u.trace c.name := by
  induction units with
  | nil => cases hu
  | cons v rest ih =>
    rw [List.map_cons, List.nodup_cons] at hnodup
    rw [referenceTrace, hc]
    rcases List.mem_cons.1 hu with rfl | hu
    · rw [if_pos (by simp)]
    · have hne : v.qualifier.name ≠ u.qualifier.name := by
        intro hname
        exact hnodup.1 (List.mem_map.2 ⟨u, hu, hname.symm⟩)
      rw [if_neg (by simpa using hne)]
      exact ih hnodup.2 hu

/-- A unit shows a column under a name that leads to the declared column that the column reads. -/
def FromUnit.Leads (u : FromUnit) : Prop :=
  ∀ i p e, u.relation.physical? i = some p → u.column? i = some e →
    ∃ name, e = .column ⟨u.qualifier, name⟩ ∧ u.trace name = some p

/-- The expression is a reference that leads to the declared column. -/
def Reaches (units : List FromUnit) (e : SqlExpr) (p : Physical) : Prop :=
  ∃ c, e = .column c ∧ referenceTrace units c = some p

/-- The expressions that a query shows are those its columns are written with. -/
theorem Compiles.shown_eq (ha : a.Sound) (hr : r ∈ a.relations)
    (h : Compiles root r n q columns n') (he : columns[i]? = some e) :
    q.shown[i]? = some e := by
  cases hentries : q.entries with
  | none =>
    obtain ⟨t, -, -, hunits, rfl⟩ := h.entries_none hr ha hentries
    rw [← he, Query.shown, hentries, hunits]
    simp [FromUnit.names, FromUnit.qualifier, Function.comp_def]
  | some entries =>
    have hcolumns := h.entries_some hentries
    cases entries with
    | nil =>
      subst hcolumns
      cases he
    | cons entry rest =>
      rw [Query.shown, hentries, ← he, ← hcolumns]

/-- In a query an expression and the name it is shown under lead to one declared column. -/
theorem Compiles.trace_of_nameOf? (ha : a.Sound) (hplain : a.PlainTables) (hr : r ∈ a.relations)
    (h : Compiles root r n q columns n') (hc : .column c ∈ columns)
    (hname : q.nameOf? (.column c) = some name) :
    queryTrace q name = referenceTrace q.units c := by
  obtain ⟨relation, entries, source, conditions, units, shape, projected⟩ := q
  cases entries with
  | none =>
    obtain ⟨t, -, -, hunits, rfl⟩ := h.entries_none hr ha rfl
    obtain ⟨column, -, hcolumn⟩ := List.mem_map.1 hc
    cases hcolumn
    cases hname
    obtain rfl : units = [.table t] := hunits
    simp [queryTrace, everyTrace, referenceTrace, FromUnit.qualifier]
  | some entries =>
    obtain ⟨entry, hentry, rfl⟩ := Option.map_eq_some_iff.1 hname
    have hmem := List.mem_of_find?_eq_some hentry
    have hexpr : entry.expr = .column c := by simpa using List.find?_some hentry
    cases entries with
    | nil => cases hmem
    | cons first rest =>
      cases hfound : (first :: rest).find? (·.name == entry.name) with
      | none =>
        have hnone := List.find?_eq_none.1 hfound entry hmem
        simp at hnone
      | some other =>
        have hother := List.mem_of_find?_eq_some hfound
        have hnames : other.name = entry.name := by simpa using List.find?_some hfound
        have hsame := h.expr_eq_of_name_eq ha hplain hr rfl hother hmem hnames
        rw [hexpr] at hsame
        obtain ⟨name, expr⟩ := other
        obtain rfl : expr = .column c := hsame
        rw [queryTrace, hfound]

/-- The query of a relation reaches the declared columns that its columns read. -/
def ReachesAll (r : Relation) : Prop :=
  ∀ root n q columns n', Compiles root r n q columns n' →
    ∀ i p e, r.physical? i = some p → columns[i]? = some e → Reaches q.units e p

/-- The unit of a relation leads to the declared columns if its query reaches them. -/
theorem Stands.leads (ha : a.Sound) (hplain : a.PlainTables) (hr : r ∈ a.relations)
    (hwhole : ReachesAll r) (h : Stands r n u n') : u.Leads := by
  intro i p e hp he
  cases h with
  | @table t =>
    obtain ⟨column, hcolumn, rfl⟩ := Option.map_eq_some_iff.1 he
    refine ⟨column.name, rfl, ?_⟩
    rw [trace_table (ha.table_columns_nodup hr) hcolumn]
    simpa [FromUnit.relation, physical?, (List.getElem?_eq_some_iff.1 hcolumn).1] using hp
  | subquery nested compiles =>
    obtain ⟨name, hname, rfl⟩ := Option.map_eq_some_iff.1 he
    refine ⟨name, rfl, ?_⟩
    rw [List.getElem?_map, Option.join_eq_some_iff, Option.map_eq_some_iff] at hname
    obtain ⟨inner, hinner, hname⟩ := hname
    obtain ⟨c, rfl, hc⟩ := hwhole _ _ _ _ _ compiles i p inner hp hinner
    rw [FromUnit.trace, compiles.trace_of_nameOf? ha hplain hr (List.mem_of_getElem? hinner) hname]
    exact hc

/-- A column of a `FROM` clause reaches the declared column that it reads. -/
theorem Reads.reaches (hnodup : (units.map (·.qualifier.name)).Nodup)
    (hleads : ∀ u ∈ units, u.Leads) (h : Reads chain units r i e) (hp : r.physical? i = some p) :
    Reaches units e p := by
  induction h with
  | @unit u r i e mem stands shows =>
    obtain ⟨name, rfl, htrace⟩ := hleads u mem i p e (by rw [stands, hp]) shows
    exact ⟨_, rfl, by rw [referenceTrace_of_mem hnodup mem rfl, htrace]⟩
  | left mem lt _ ih =>
    rw [physical?, if_pos lt] at hp
    exact ih hp
  | right mem ge _ ih =>
    rw [physical?, if_neg (Nat.not_lt.2 ge)] at hp
    exact ih hp

/-- All units of a `FROM` clause lead to the declared columns, if the queries of their relations
reach them. -/
theorem Lays.leads (ha : a.Sound) (hplain : a.PlainTables) (hr : r ∈ a.relations)
    (hall : ∀ s ∈ r.joinUnits, ReachesAll s) (h : Lays r n source units n') :
    ∀ u ∈ units, u.Leads := by
  induction h using Lays.chainInduction with
  | leaf hleaf stands =>
    intro u hu
    obtain rfl := List.mem_singleton.1 hu
    rw [joinUnits_of_joinChain_nil hleaf] at hall
    exact stands.leads ha hplain hr (hall _ (List.mem_singleton_self _))
  | join lays stands fills ih =>
    intro u hu
    rcases List.mem_append.1 hu with hu | hu
    · exact ih (ha.join_left hr).1 (fun s hs => hall s (List.mem_append_left _ hs)) u hu
    · obtain rfl := List.mem_singleton.1 hu
      exact stands.leads ha hplain (ha.join_right hr).1
        (hall _ (List.mem_append_right _ (List.mem_singleton_self _)))

theorem table_reachesAll (ha : a.Sound) (hr : Relation.table t ∈ a.relations) :
    ReachesAll (.table t) := by
  intro root n q columns n' h i p e hp he
  cases h with
  | table =>
    rw [List.getElem?_map] at he
    obtain ⟨column, hcolumn, rfl⟩ := Option.map_eq_some_iff.1 he
    refine ⟨_, rfl, ?_⟩
    rw [physical?, if_pos (List.getElem?_eq_some_iff.1 hcolumn).1] at hp
    rw [referenceTrace, if_pos (by simp [FromUnit.qualifier]), ← hp]
    exact trace_table (ha.table_columns_nodup hr) hcolumn

theorem projection_reachesAll {id : Nat} {operand : Relation} {whole : Option Table}
    {shown : List OutputColumn} (hoperand : ReachesAll operand) :
    ReachesAll (.projection id operand whole shown) := by
  intro root n q columns n' h i p e hp he
  cases h with
  | projection compiles fills =>
    rw [Query.reshape_units]
    rw [List.getElem?_map] at he
    obtain ⟨entry, hentry, rfl⟩ := Option.map_eq_some_iff.1 he
    rw [physical?] at hp
    split at hp
    · next name label j hc =>
      obtain ⟨p₁, p₂, hfills⟩ := fills.exists_fills hc hentry
      cases hfills with
      | column read => exact hoperand _ _ _ _ _ compiles j p _ hp read
    · cases hp

theorem join_reachesAll (ha : a.Sound) (hplain : a.PlainTables) {id : Nat} {kind : JoinKind}
    {left right : Relation} {condition : Expr Nat}
    (hr : Relation.join id kind left right condition ∈ a.relations)
    (hall : ∀ s ∈ (Relation.join id kind left right condition).joinUnits, ReachesAll s) :
    ReachesAll (.join id kind left right condition) := by
  intro root n q columns n' h i p e hp he
  obtain ⟨source, units, lays, rfl, hreads⟩ := h.join_cases ha hr
  exact (hreads i e he).reaches (lays.names_nodup ha hplain hr) (lays.leads ha hplain hr hall) hp

/-- The query of every relation reaches the declared columns that its columns read. -/
theorem reachesAll (ha : a.Sound) (hplain : a.PlainTables) (hr : r ∈ a.relations) :
    ReachesAll r := by
  -- the units of a join are no operands of it, but they were built before it
  induction hid : r.id using Nat.strongRecOn generalizing r with
  | ind n ih =>
    cases r with
    | table t => exact table_reachesAll ha hr
    | selection id operand condition =>
      obtain ⟨hop, hlt⟩ := ha.selection_operand hr
      have hoperand := ih operand.id (hid ▸ hlt) hop rfl
      intro root n q columns n' h i p e hp he
      cases h with
      | selection compiles fills => exact hoperand _ _ _ _ _ compiles i p e hp he
    | projection id operand whole shown =>
      obtain ⟨hop, hlt⟩ := ha.projection_operand hr
      exact projection_reachesAll (ih operand.id (hid ▸ hlt) hop rfl)
    | join id kind left right condition =>
      refine join_reachesAll ha hplain hr fun s hs => ?_
      have hmem := (ha.mem_of_mem_spine hr (List.mem_append_right _ hs)).1
      exact ih s.id (hid ▸ ha.joinUnits_id_lt hr hs) hmem rfl

end

/-- Whatever a session built compiles, and if a column of it reads a declared column, the
expression that is shown for it is a reference that leads there. -/
theorem compile_trace {a : Algebra} {r : Relation} {i : Nat} {p : Physical} (h : a.Reachable)
    (hplain : a.PlainTables) (hr : r ∈ a.relations) (hi : i < r.width)
    (hp : r.physical? i = some p) :
    ∃ compiled, compile r = .ok compiled ∧ ∃ c, compiled.query.shown[i]? = some (.column c) ∧
      referenceTrace compiled.query.units c = some p := by
  obtain ⟨compiled, columns, k, hcompile, hrules⟩ := exists_compiles h.sound hr
  refine ⟨compiled, hcompile, ?_⟩
  have hlt : i < columns.length := by rwa [hrules.length]
  have he := List.getElem?_eq_getElem hlt
  obtain ⟨c, hc, hreaches⟩ := reachesAll h.sound hplain hr _ _ _ _ _ hrules i p _ hp he
  have hshown := hrules.shown_eq h.sound hr he
  exact ⟨c, by rw [hshown, hc], hreaches⟩

/-- The first column of the join is read through a subquery, down to the table of blogs. -/
theorem compile_trace_firstPosts :
    Sample.firstPosts.physical? 0 = some ⟨Sample.blogs, 0⟩ ∧
      ∃ compiled, compile Sample.firstPosts = .ok compiled ∧
        ∃ c, compiled.query.shown[0]? = some (.column c) ∧
          referenceTrace compiled.query.units c = some ⟨Sample.blogs, 0⟩ :=
  ⟨rfl, compile_trace Sample.reachable Sample.plainTables (by decide) (by decide) rfl⟩

end RelationalAlgebra.Sql
