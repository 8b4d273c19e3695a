import Mathlib.Data.List.Forall2
import RelationalAlgebra.Proofs.Compiling
import RelationalAlgebra.Proofs.Naming
import RelationalAlgebra.Proofs.Session
import RelationalAlgebra.Sql.Evaluate

/-!
# Compiling preserves meaning

The rows of the compiled query are the rows of the relation, with the i-th entry of the select list
for the i-th column: `compile_rows`.

Both meanings are loops over the same tables, and they are compared row by row.

* `Represents` is what ties a row of a `FROM` clause to a row of the relation it lays out: whatever
  the clause shows of a column has the value of that column.  Joins keep it
  (`Lays.represents_join`), since the nested loops of the two sides run in step (`loop_related`).
* `Stands.shows` is the same for a unit, where a column is asked for by its name.
* `Shows` is about a relation in each of its places; in a whole query the values of the columns are
  the row.
-/

namespace RelationalAlgebra.Sql

open List (Forall₂)

/-! ## Nested loops in step -/

section

variable {α α' β β' γ γ' : Type} {R : α → α' → Prop} {S : β → β' → Prop} {T : γ → γ' → Prop}
  {left : List α} {left' : List α'} {right : List β} {right' : List β'}
  {pair : α → β → γ} {pair' : α' → β' → γ'} {alone : α → γ} {alone' : α' → γ'}
  {keep : γ → Bool} {keep' : γ' → Bool}

/-- Nested loops over related items, with related conditions, find related pairs. -/
theorem loop_related (kind : JoinKind) (hleft : Forall₂ R left left')
    (hright : Forall₂ S right right')
    (hpair : ∀ a a' b b', R a a' → S b b' → T (pair a b) (pair' a' b'))
    (halone : ∀ a a', R a a' → T (alone a) (alone' a'))
    (hkeep : ∀ c c', T c c' → keep c = keep' c') :
    Forall₂ T (kind.loop left right pair alone keep)
      (kind.loop left' right' pair' alone' keep') := by
  unfold JoinKind.loop
  refine List.rel_flatMap hleft fun a a' ha => ?_
  have hfound : Forall₂ T ((right.map (pair a)).filter keep)
      ((right'.map (pair' a')).filter keep') := by
    refine List.rel_filter (fun c c' hc => iff_of_eq (congrArg (· = true) (hkeep c c' hc))) ?_
    exact List.rel_map (fun b b' hb => hpair a a' b b' ha hb) hright
  generalize (right.map (pair a)).filter keep = found at hfound
  generalize (right'.map (pair' a')).filter keep' = found' at hfound
  cases hfound with
  | nil =>
    by_cases hkind : kind = .leftOuter
    · simp only [if_pos hkind]
      exact .cons (halone a a' ha) .nil
    · simp only [if_neg hkind]
      exact .nil
  | cons hc hrest => exact .cons hc hrest

end

variable {a : Algebra} {root r left right : Relation} {n n' : Numbering} {q : Query}
  {columns : List SqlExpr} {source : Source} {units more : List FromUnit} {u : FromUnit}
  {reads : Nat → SqlExpr → Prop} {p p' ph : Placeholders} {e : SqlExpr} {scope : Scope}
  {row : List Value} {i : Nat} {contents : Contents}

/-! ## Values of expressions -/

/-- An expression has the value of what it was written for, once its columns do. -/
theorem Fills.value_eq {expr : Expr Nat} (h : Fills reads expr p e p') (hph : ph.Numbered)
    (hp : p'.Extends ph) (hreads : ∀ i e, reads i e → e.value ph scope = row[i]?.getD .null) :
    e.value ph scope = expr.value row := by
  induction h with
  | column read => exact hreads _ _ read
  | @literal value p =>
    have hentry : (p.add value).2.entries[p.entries.length]? = some ((p.add value).1, value) := by
      simp [Placeholders.add]
    have hfound := hph.get?_eq (hp.getElem? hentry)
    rw [SqlExpr.value, hfound]
    rfl
  | aliased _ ih => exact ih hp
  | equal fills_left fills_right ihl ihr =>
    rw [SqlExpr.value, Expr.value, ihl (fills_right.extends.trans hp), ihr hp]
  | aggregate => rfl

/-- The values of a select list are those of the columns it was written for. -/
theorem FillsAll.values_eq {shown : List OutputColumn} {entries : List SelectEntry}
    (h : FillsAll reads shown p entries p') (hph : ph.Numbered) (hp : p'.Extends ph)
    (hreads : ∀ i e, reads i e → e.value ph scope = row[i]?.getD .null) :
    entries.map (·.expr.value ph scope) = shown.map (·.source.value row) := by
  induction h with
  | nil => rfl
  | cons head tail ih =>
    rw [List.map_cons, List.map_cons, ih hp, head.value_eq hph (tail.extends.trans hp) hreads]

/-- The value of a column that is read by its place. -/
theorem getD_getElem?_map_value (h : columns[i]? = some e) :
    e.value ph scope = (columns.map (·.value ph scope))[i]?.getD .null := by
  rw [List.getElem?_map, h]
  rfl

/-! ## Rows of a query -/

/-- The rows of the `FROM` clause of a query that meet its conditions. -/
def Query.scopes (contents : Contents) (ph : Placeholders) (q : Query) : List Scope :=
  (match q.source with
    | some source => source.scopes ph (unitRows contents ph q.units)
    | none => [[]]).filter fun scope => q.conditions.all (·.holds ph scope)

theorem Query.rows_eq (contents : Contents) (ph : Placeholders) (q : Query) :
    Query.rows contents ph q = (q.scopes contents ph).map (showRow ph q.entries) := by
  obtain ⟨relation, entries, source, conditions, units, shape, projected⟩ := q
  rfl

theorem unitRows_eq_map (contents : Contents) (ph : Placeholders) (units : List FromUnit) :
    unitRows contents ph units = units.map (·.rows contents ph) := by
  induction units with
  | nil => rfl
  | cons u rest ih => rw [unitRows, ih, List.map_cons]

/-- Units to the right do not matter. -/
theorem Source.scopes_append {units more : List UnitRows}
    (h : ∀ place ∈ source.units, place < units.length) :
    source.scopes ph (units ++ more) = source.scopes ph units := by
  induction source with
  | unit place =>
    have hplace := h place (List.mem_singleton_self place)
    rw [scopes, scopes, List.getElem?_append_left hplace]
  | join kind left right condition ih =>
    have hright := h right (List.mem_append_right _ (List.mem_singleton_self right))
    rw [scopes, scopes, List.getElem?_append_left hright,
      ih fun place hplace => h place (List.mem_append_left _ hplace)]

/-! ## Rows by name -/

theorem Row.value_of_mem {row : Row} {name : String} {value : Value} (hmem : (name, value) ∈ row)
    (hsame : ∀ other, (name, other) ∈ row → other = value) : row.value name = value := by
  rw [Row.value, lookup_of_mem hmem hsame]
  rfl

/-- In a row of one unit, a reference to it is read from that row. -/
theorem value_column_singleton (ph : Placeholders) {c : SqlColumn} {row : Row} {key : String}
    (h : c.qualifier.name = key) : (SqlExpr.column c).value ph [(key, row)] = row.value c.name := by
  rw [SqlExpr.value, h, List.lookup_cons_self]

/-- Values under different names are read back by their names. -/
theorem map_value_zip {names : List String} {values : List Value} (hnodup : names.Nodup)
    (hlength : values.length = names.length) :
    names.map (Row.value (names.zip values)) = values := by
  refine List.ext_getElem (by rw [List.length_map, hlength]) fun i hi hi' => ?_
  rw [List.getElem_map]
  rw [List.length_map] at hi
  have hi'' : i < (names.zip values).length := by rw [List.length_zip]; omega
  refine Row.value_of_mem ?_ ?_
  · rw [← List.getElem_zip (h := hi'')]
    exact List.getElem_mem hi''
  · intro other hother
    obtain ⟨j, hj, heq⟩ := List.getElem_of_mem hother
    rw [List.getElem_zip, Prod.mk.injEq] at heq
    obtain ⟨hname, rfl⟩ := heq
    have hij := (hnodup.getElem_inj_iff).1 hname
    simp only [hij]

/-- The columns of a table have in one of its rows the values of the row. -/
theorem values_table_columns (ph : Placeholders) {t : Table} {values : List Value}
    (hnodup : (t.columns.map (·.name)).Nodup) (hlength : values.length = t.columns.length) :
    (t.columns.map fun c => SqlExpr.column ⟨.table t.name, c.name⟩).map
      (·.value ph [(t.name, (t.columns.map (·.name)).zip values)]) = values := by
  refine Eq.trans ?_ (map_value_zip hnodup (by rw [List.length_map, hlength]))
  rw [List.map_map, List.map_map]
  refine List.map_congr_left fun c _ => ?_
  exact value_column_singleton ph rfl

theorem showRow_none : showRow ph none scope = scope.flatMap (·.2) := rfl

/-! ## What a query shows by name -/

/-- The contents of the tables are rows of the tables. -/
def Contents.Fit (contents : Contents) (a : Algebra) : Prop :=
  ∀ t, Relation.table t ∈ a.relations → ∀ row ∈ contents t, row.length = t.columns.length

section

variable (ha : a.Sound) (hplain : a.PlainTables) (hfit : Contents.Fit contents a)
  (hr : r ∈ a.relations)

include ha hfit hr

/-- Without a select list, a row of the query is a row of one table. -/
theorem Compiles.exists_row_of_entries_none (h : Compiles root r n q columns n')
    (hentries : q.entries = none) (hscope : scope ∈ q.scopes contents ph) :
    ∃ t values, Relation.table t ∈ a.relations ∧ values.length = t.columns.length ∧
      scope = [(t.name, (t.columns.map (·.name)).zip values)] ∧
      columns = t.columns.map fun c => .column ⟨.table t.name, c.name⟩ := by
  obtain ⟨t, ht, hsource, hunits, hcolumns⟩ := h.entries_none hr ha hentries
  have hmem := (List.mem_filter.1 hscope).1
  rw [hsource, hunits] at hmem
  obtain ⟨row, hrow, rfl⟩ := List.mem_map.1 hmem
  obtain ⟨values, hvalues, rfl⟩ := List.mem_map.1 hrow
  exact ⟨t, values, ht, hfit t ht values hvalues, rfl, hcolumns⟩

/-- What a query shows is the values of the columns, unless there are none. -/
theorem Compiles.showRow_values (h : Compiles root r n q columns n')
    (hscope : scope ∈ q.scopes contents ph) (hwidth : 0 < r.width) :
    (showRow ph q.entries scope).map (·.2) = columns.map (·.value ph scope) := by
  cases hentries : q.entries with
  | none =>
    obtain ⟨t, values, ht, hlength, rfl, rfl⟩ :=
      h.exists_row_of_entries_none ha hfit hr hentries hscope
    rw [values_table_columns ph (ha.table_columns_nodup ht) hlength, showRow_none,
      List.flatMap_singleton, List.map_snd_zip (Nat.le_of_eq (by rw [List.length_map, hlength]))]
  | some entries =>
    have hcolumns := h.entries_some hentries
    cases entries with
    | nil =>
      rw [← h.length, ← hcolumns] at hwidth
      exact absurd hwidth (Nat.lt_irrefl 0)
    | cons entry rest =>
      rw [← hcolumns, showRow, List.map_map, List.map_map]
      rfl

include hplain

/-- A column has in the row a query shows the value it has in the query. -/
theorem Compiles.value_of_nameOf? (h : Compiles root r n q columns n')
    (hscope : scope ∈ q.scopes contents ph) (he : e ∈ columns) {name : String}
    (hname : q.nameOf? e = some name) :
    (showRow ph q.entries scope).value name = e.value ph scope := by
  cases hentries : q.entries with
  | none =>
    obtain ⟨t, values, ht, hlength, rfl, rfl⟩ :=
      h.exists_row_of_entries_none ha hfit hr hentries hscope
    obtain ⟨c, hc, rfl⟩ := List.mem_map.1 he
    rw [Query.nameOf?, hentries] at hname
    cases hname
    rw [showRow_none, List.flatMap_singleton]
    exact (value_column_singleton ph rfl).symm
  | some entries =>
    rw [Query.nameOf?, hentries] at hname
    obtain ⟨entry, hfound, rfl⟩ := Option.map_eq_some_iff.1 hname
    have hentry := List.mem_of_find?_eq_some hfound
    have hexpr : entry.expr = e := by simpa using List.find?_some hfound
    cases entries with
    | nil => cases hentry
    | cons first rest =>
      rw [showRow, ← hexpr]
      refine Row.value_of_mem (List.mem_map_of_mem hentry) fun other hother => ?_
      obtain ⟨entry', hentry', heq⟩ := List.mem_map.1 hother
      obtain ⟨hsame, rfl⟩ := Prod.mk.inj heq
      rw [h.expr_eq_of_name_eq ha hplain hr hentries hentry' hentry hsame]

end

/-! ## Units and joins -/

/-- A row that a unit shows and a row of its relation: each column has the value of its place. -/
structure UnitShows (ph : Placeholders) (u : FromUnit) (shown : Row) (row : List Value) :
    Prop where
  length : row.length = u.relation.width
  values : ∀ i e, u.column? i = some e →
    e.value ph [(u.qualifier.name, shown)] = row[i]?.getD .null

/-- A row of a `FROM` clause and a row of the relation it lays out: whatever is read as a column has
the value of its place. -/
structure Represents (ph : Placeholders) (r : Relation) (units : List FromUnit) (scope : Scope)
    (row : List Value) : Prop where
  keys : scope.map (·.1) = units.map (·.qualifier.name)
  length : row.length = r.width
  values : ∀ i e, Reads r.joinChain units r i e → e.value ph scope = row[i]?.getD .null

/-- A reference to one of the rows on the left does not see the rows on the right. -/
theorem value_append_left {c : SqlColumn} {more : Scope}
    (h : c.qualifier.name ∈ scope.map (·.1)) :
    (SqlExpr.column c).value ph (scope ++ more) = (SqlExpr.column c).value ph scope := by
  obtain ⟨entry, hentry, hkey⟩ := List.mem_map.1 h
  have hsome : (scope.lookup c.qualifier.name).isSome :=
    List.lookup_isSome_iff.2 ⟨entry, hentry, by simp [hkey]⟩
  rw [SqlExpr.value, SqlExpr.value, List.lookup_append, Option.or_of_isSome hsome]

/-- A reference to a row on the right does not see the rows on the left. -/
theorem value_append_right {c : SqlColumn} {more : Scope}
    (h : c.qualifier.name ∉ scope.map (·.1)) :
    (SqlExpr.column c).value ph (scope ++ more) = (SqlExpr.column c).value ph more := by
  have hnone : scope.lookup c.qualifier.name = none := by
    rw [List.lookup_eq_none_iff]
    intro entry hentry
    simp only [bne_iff_ne, ne_eq]
    intro hkey
    exact h (List.mem_map.2 ⟨entry, hentry, hkey.symm⟩)
  rw [SqlExpr.value, SqlExpr.value, List.lookup_append, hnone, Option.none_or]

/-- In a row of nulls every name is null. -/
theorem value_nulls (fields : List String) (name : String) :
    Row.value (fields.map fun name => (name, .null)) name = .null := by
  rw [Row.value]
  cases hlookup : (fields.map fun name => (name, Value.null)).lookup name with
  | none => rfl
  | some value =>
    obtain ⟨before, after, heq, -⟩ := List.lookup_eq_some_iff.1 hlookup
    have hmem : (name, value) ∈ fields.map fun name => (name, Value.null) := by
      rw [heq]
      exact List.mem_append_right _ (List.mem_cons_self ..)
    obtain ⟨other, -, hpair⟩ := List.mem_map.1 hmem
    rw [← (Prod.mk.inj hpair).2]
    rfl

theorem qualifier_rows (u : FromUnit) : (u.rows contents ph).qualifier = u.qualifier.name := by
  cases u <;> rfl

/-- The rows of a table are its rows as a unit. -/
theorem table_shows (ha : a.Sound) (hfit : Contents.Fit contents a) {t : Table}
    (ht : Relation.table t ∈ a.relations) :
    Forall₂ (UnitShows ph (.table t)) (tableRows contents t) (contents t) := by
  refine List.forall₂_map_left_iff.2 (List.forall₂_same.2 fun values hvalues => ?_)
  have hlength := hfit t ht values hvalues
  have hvalues := values_table_columns ph (ha.table_columns_nodup ht) hlength
  refine ⟨by rw [FromUnit.relation, Relation.width_table, hlength], fun i e he => ?_⟩
  have hcolumn : (t.columns.map fun c => SqlExpr.column ⟨.table t.name, c.name⟩)[i]? = some e := by
    rw [List.getElem?_map]
    exact he
  rw [FromUnit.qualifier, Qualifier.name, getD_getElem?_map_value hcolumn, hvalues]

/-- The rows of a subquery are those of its relation. -/
theorem subquery_shows (ha : a.Sound) (hplain : a.PlainTables) (hfit : Contents.Fit contents a)
    (hr : r ∈ a.relations) {label : String} (h : Compiles root r n q columns n')
    (hrows : r.rows contents =
      (q.scopes contents ph).map fun scope => columns.map (·.value ph scope)) :
    Forall₂ (UnitShows ph (.subquery r label (columns.map q.nameOf?) q))
      (Query.rows contents ph q) (r.rows contents) := by
  rw [Query.rows_eq, hrows]
  refine List.forall₂_map_left_iff.2 (List.forall₂_map_right_iff.2
    (List.forall₂_same.2 fun scope hscope => ?_))
  refine ⟨by rw [List.length_map]; exact h.length, fun i e he => ?_⟩
  obtain ⟨name, hname, rfl⟩ := Option.map_eq_some_iff.1 he
  rw [Option.join_eq_some_iff, List.getElem?_map] at hname
  obtain ⟨column, hcolumn, hname⟩ := Option.map_eq_some_iff.1 hname
  rw [← getD_getElem?_map_value hcolumn]
  refine (value_column_singleton ph rfl).trans ?_
  exact h.value_of_nameOf? ha hplain hfit hr hscope (List.mem_of_getElem? hcolumn) hname

/-- What is said of a relation as a query is said of it as a unit. -/
theorem Stands.shows (ha : a.Sound) (hplain : a.PlainTables) (hfit : Contents.Fit contents a)
    (hr : r ∈ a.relations) (hp : n'.placeholders.Extends ph)
    (hrows : ∀ {root n q columns n'}, Compiles root r n q columns n' →
      n'.placeholders.Extends ph → r.rows contents =
        (q.scopes contents ph).map fun scope => columns.map (·.value ph scope))
    (h : Stands r n u n') :
    Forall₂ (UnitShows ph u) (u.rows contents ph).rows (r.rows contents) := by
  cases h with
  | table => exact table_shows ha hfit hr
  | subquery nested compiles =>
    exact subquery_shows ha hplain hfit hr compiles (hrows compiles hp)

/-- A leaf is represented by its unit. -/
theorem Lays.represents_of_leaf (hleaf : r.joinChain = [])
    (hstands : ∀ {u}, Stands r n u n' →
      Forall₂ (UnitShows ph u) (u.rows contents ph).rows (r.rows contents))
    (h : Lays r n source units n') :
    Forall₂ (Represents ph r units) (source.scopes ph (unitRows contents ph units))
      (r.rows contents) := by
  cases h with
  | join => cases hleaf
  | @leaf _ _ _ u _ stands =>
    refine List.forall₂_map_left_iff.2 ((hstands stands).imp fun shown row hshown => ?_)
    rw [qualifier_rows]
    refine ⟨rfl, by rw [hshown.length, stands.relation_eq], fun i e hreads => ?_⟩
    rw [hleaf] at hreads
    exact hshown.values i e hreads.of_leaf

section

variable {id : Nat} {kind : JoinKind} {condition : Expr Nat}

/-- A row of the left operand and one of the right make a row of the join. -/
theorem Represents.append (ha : a.Sound)
    (hr : Relation.join id kind left right condition ∈ a.relations)
    (hright : right ∉ left.joinChain) (hunits : units.map (·.relation) = left.joinUnits)
    (hu : u.relation = right) (hnodup : ((units ++ [u]).map (·.qualifier.name)).Nodup)
    {shown : Row} {rightRow : List Value} (hleft : Represents ph left units scope row)
    (hshown : UnitShows ph u shown rightRow) :
    Represents ph (.join id kind left right condition) (units ++ [u])
      (scope ++ [(u.qualifier.name, shown)]) (row ++ rightRow) := by
  refine ⟨?_, ?_, fun i e hreads => ?_⟩
  · rw [List.map_append, List.map_append, hleft.keys]
    rfl
  · rw [List.length_append, hleft.length, hshown.length, hu,
      Relation.width_join (ne_of_not_mem_joinChain ha hr hright)]
  · rcases hreads.join_cases ha hr hright hunits hu with ⟨hlt, hreads⟩ | ⟨hge, hcolumn⟩
    · have hvalue := hleft.values i e hreads
      obtain ⟨v, hv, j, hj⟩ := hreads.exists_unit
      obtain ⟨name, rfl⟩ := FromUnit.exists_name_of_column? hj
      rw [value_append_left, hvalue, List.getElem?_append_left (by rw [hleft.length]; exact hlt)]
      rw [hleft.keys]
      exact List.mem_map_of_mem hv
    · have hvalue := hshown.values _ e hcolumn
      obtain ⟨name, rfl⟩ := FromUnit.exists_name_of_column? hcolumn
      rw [value_append_right, hvalue, List.getElem?_append_right (by rw [hleft.length]; exact hge),
        hleft.length]
      rw [hleft.keys]
      rw [List.map_append, List.nodup_append] at hnodup
      intro hmem
      exact hnodup.2.2 _ hmem _ (List.mem_singleton_self _) rfl

/-- The `FROM` clause of a join is the nested loop of its left part and of its last unit. -/
theorem Lays.scopes_join (lays : Lays left n source units n') (kind : JoinKind) (u : FromUnit)
    (e : SqlExpr) :
    Source.scopes ph (unitRows contents ph (units ++ [u])) (.join kind source units.length e) =
      kind.loop (source.scopes ph (unitRows contents ph units)) (u.rows contents ph).scopes
        (· ++ ·) (· ++ (u.rows contents ph).missing) (e.holds ph) := by
  have happend : unitRows contents ph (units ++ [u]) =
      unitRows contents ph units ++ [u.rows contents ph] := by
    simp only [unitRows_eq_map, List.map_append, List.map_singleton]
  have hlength : (unitRows contents ph units).length = units.length := by
    rw [unitRows_eq_map, List.length_map]
  have hscopes : source.scopes ph (unitRows contents ph (units ++ [u])) =
      source.scopes ph (unitRows contents ph units) := by
    rw [happend]
    refine Source.scopes_append fun place hplace => ?_
    rw [lays.source_units] at hplace
    rw [hlength]
    exact List.mem_range.1 hplace
  have hplace : (unitRows contents ph (units ++ [u]))[units.length]? =
      some (u.rows contents ph) := by
    rw [happend, ← hlength, List.getElem?_concat_length]
  rw [Source.scopes, hplace, hscopes]

/-- Where there is no match, a unit shows nulls. -/
theorem missing_shows (ph : Placeholders) (contents : Contents) (u : FromUnit) : UnitShows ph u
    ((u.rows contents ph).fields.map fun name => (name, .null)) u.relation.nulls := by
  refine ⟨by rw [Relation.nulls, List.length_replicate], fun i e he => ?_⟩
  obtain ⟨name, rfl⟩ := FromUnit.exists_name_of_column? he
  refine (value_column_singleton ph rfl).trans ((value_nulls _ _).trans ?_)
  rw [Relation.nulls, List.getElem?_replicate]
  split <;> rfl

theorem Lays.represents_join (ha : a.Sound) (hplain : a.PlainTables)
    (hr : Relation.join id kind left right condition ∈ a.relations)
    (hright : right ∉ left.joinChain) (hph : ph.Numbered) (hp : n'.placeholders.Extends ph)
    (hleft : ∀ {n source units n'}, Lays left n source units n' →
      n'.placeholders.Extends ph →
      Forall₂ (Represents ph left units) (source.scopes ph (unitRows contents ph units))
        (left.rows contents))
    (hstands : ∀ {n u n'}, Stands right n u n' → n'.placeholders.Extends ph →
      Forall₂ (UnitShows ph u) (u.rows contents ph).rows (right.rows contents))
    (h : Lays (.join id kind left right condition) n source units n') :
    Forall₂ (Represents ph (.join id kind left right condition) units)
      (source.scopes ph (unitRows contents ph units))
      (Relation.rows contents (.join id kind left right condition)) := by
  have hnodup := h.names_nodup ha hplain hr
  cases h with
  | leaf leaf => cases leaf
  | @join _ _ _ _ _ _ n₁ source units u _ p p' e lays stands fills =>
    have hfill := fills.extends.trans hp
    have hrows := hleft lays (stands.upto.placeholders.trans hfill)
    have hshown := hstands stands hfill
    have hunits := lays.relations
    have hu := stands.relation_eq
    have hright' : Forall₂ (fun scope row => ∃ shown, scope = [(u.qualifier.name, shown)] ∧
        UnitShows ph u shown row) (u.rows contents ph).scopes (right.rows contents) := by
      refine List.forall₂_map_left_iff.2 (hshown.imp fun shown row hshows => ?_)
      rw [qualifier_rows]
      exact ⟨shown, rfl, hshows⟩
    rw [lays.scopes_join, Relation.rows, if_neg (ne_of_not_mem_joinChain ha hr hright)]
    refine loop_related kind hrows hright' ?_ ?_ ?_
    · rintro scope row _ rightRow hrepresents ⟨shown, rfl, hshows⟩
      exact hrepresents.append ha hr hright hunits hu hnodup hshows
    · intro scope row hrepresents
      have hmissing := missing_shows ph contents u
      rw [hu] at hmissing
      rw [UnitRows.missing, qualifier_rows]
      exact hrepresents.append ha hr hright hunits hu hnodup hmissing
    · intro scope row hrepresents
      rw [SqlExpr.holds, fills.value_eq hph hp hrepresents.values]

end

/-! ## Whole queries -/

/-- Without conditions, a query has the rows of its `FROM` clause. -/
theorem Query.scopes_of_conditions_nil (hsource : q.source = some source)
    (hconditions : q.conditions = []) :
    q.scopes contents ph = source.scopes ph (unitRows contents ph q.units) := by
  rw [scopes, hsource, hconditions]
  exact List.filter_true _

/-- One more condition filters the rows. -/
theorem Query.scopes_condition (q : Query) (e : SqlExpr) :
    Query.scopes contents ph { q with conditions := q.conditions ++ [e] } =
      (q.scopes contents ph).filter (e.holds ph) := by
  simp only [scopes, List.filter_filter, List.all_append, List.all_cons, List.all_nil,
    Bool.and_true]
  simp only [Bool.and_comm]

/-- A select list has no part in the rows of the `FROM` clause. -/
theorem Query.scopes_reshape (q : Query) (entries : List SelectEntry) (whole : Option Table) :
    (Query.reshape { q with entries := some entries } whole).scopes contents ph =
      q.scopes contents ph := by
  simp only [scopes, reshape_source, reshape_units, reshape_conditions]

theorem filter_map_congr {α β : Type} {f : α → β} {keep : β → Bool} {keep' : α → Bool}
    (h : ∀ x, keep (f x) = keep' x) (l : List α) :
    (l.map f).filter keep = (l.filter keep').map f := by
  rw [List.filter_map]
  congr 2
  exact funext h

/-- Rows that correspond one by one are rows that are computed from the others. -/
theorem eq_map_of_forall₂ {α β : Type} {R : α → β → Prop} {f : α → β} {l : List α} {l' : List β}
    (h : Forall₂ R l l') (hf : ∀ x y, R x y → y = f x) : l' = l.map f := by
  induction h with
  | nil => rfl
  | cons hxy _ ih => rw [List.map_cons, ← hf _ _ hxy, ← ih]

section

variable (ha : a.Sound) (hplain : a.PlainTables) (hfit : Contents.Fit contents a)
  (hph : ph.Numbered)

/-- The rows of a relation are, column by column, the rows of its `FROM` clause that meet the
conditions. -/
structure Shows (ph : Placeholders) (contents : Contents) (r : Relation) : Prop where
  whole : ∀ {root n q columns n'}, Compiles root r n q columns n' →
    n'.placeholders.Extends ph → r.rows contents =
      (q.scopes contents ph).map fun scope => columns.map (·.value ph scope)
  operand : ∀ {n source units n'}, Lays r n source units n' → n'.placeholders.Extends ph →
    Forall₂ (Represents ph r units) (source.scopes ph (unitRows contents ph units))
      (r.rows contents)

include ha hplain hfit

theorem shows_of_leaf (hr : r ∈ a.relations) (hleaf : r.joinChain = [])
    (hwhole : ∀ {root n q columns n'}, Compiles root r n q columns n' →
      n'.placeholders.Extends ph → r.rows contents =
        (q.scopes contents ph).map fun scope => columns.map (·.value ph scope)) :
    Shows ph contents r where
  whole := hwhole
  operand lays hp :=
    lays.represents_of_leaf hleaf fun stands => stands.shows ha hplain hfit hr hp hwhole

theorem table_rows {t : Table} (ht : Relation.table t ∈ a.relations) :
    Shows ph contents (.table t) := by
  refine shows_of_leaf ha hplain hfit ht rfl ?_
  intro root n q columns n' h _
  cases h with
  | table =>
    rw [Query.scopes_of_conditions_nil rfl rfl]
    have hscopes : Source.scopes ph (unitRows contents ph [.table t]) (.unit 0) =
        (contents t).map fun values => [(t.name, (t.columns.map (·.name)).zip values)] := by
      rw [Source.scopes]
      exact List.map_map
    rw [hscopes, List.map_map, Relation.rows]
    refine (List.map_id _).symm.trans (List.map_congr_left fun values hvalues => ?_)
    exact (values_table_columns ph (ha.table_columns_nodup ht) (hfit t ht values hvalues)).symm

include hph

theorem selection_rows {id : Nat} {operand : Relation} {condition : Expr Nat}
    (hr : Relation.selection id operand condition ∈ a.relations)
    (hoperand : Shows ph contents operand) :
    Shows ph contents (.selection id operand condition) := by
  refine shows_of_leaf ha hplain hfit hr rfl ?_
  intro root n q columns n' h hp
  cases h with
  | selection compiles fills =>
    have hrows := hoperand.whole compiles (fills.extends.trans hp)
    rw [Query.scopes_condition, Relation.rows, hrows]
    refine filter_map_congr (fun scope => ?_) _
    rw [SqlExpr.holds, fills.value_eq hph hp fun i e he => getD_getElem?_map_value he]

theorem projection_rows {id : Nat} {operand : Relation} {whole : Option Table}
    {shown : List OutputColumn} (hr : Relation.projection id operand whole shown ∈ a.relations)
    (hoperand : Shows ph contents operand) :
    Shows ph contents (.projection id operand whole shown) := by
  refine shows_of_leaf ha hplain hfit hr rfl ?_
  intro root n q columns n' h hp
  cases h with
  | projection compiles fills =>
    have hrows := hoperand.whole compiles (fills.extends.trans hp)
    rw [Query.scopes_reshape, Relation.rows, hrows, List.map_map]
    refine List.map_congr_left fun scope _ => ?_
    rw [List.map_map]
    exact (fills.values_eq hph hp fun i e he => getD_getElem?_map_value he).symm

theorem join_rows {id : Nat} {kind : JoinKind} {condition : Expr Nat}
    (hr : Relation.join id kind left right condition ∈ a.relations)
    (hright : right ∉ left.joinChain) (hl : Shows ph contents left)
    (hshown : Shows ph contents right) :
    Shows ph contents (.join id kind left right condition) := by
  have hoperand : ∀ {n source units n'},
      Lays (.join id kind left right condition) n source units n' →
        n'.placeholders.Extends ph →
        Forall₂ (Represents ph (.join id kind left right condition) units)
          (source.scopes ph (unitRows contents ph units))
          (Relation.rows contents (.join id kind left right condition)) := by
    intro n source units n' lays hp
    exact lays.represents_join ha hplain hr hright hph hp hl.operand
      fun stands hp => stands.shows ha hplain hfit (ha.join_right hr).1 hp hshown.whole
  refine ⟨?_, hoperand⟩
  intro root n q columns n' h hp
  have hlength := h.length
  obtain ⟨source, units, lays, rfl, hreads⟩ := h.join_cases ha hr
  rw [Query.scopes_of_conditions_nil rfl rfl]
  refine eq_map_of_forall₂ (hoperand lays hp) fun scope row hrepresents => ?_
  refine List.ext_getElem (by rw [hrepresents.length, List.length_map, hlength])
    fun i hi hi' => ?_
  rw [List.length_map] at hi'
  have hvalue := hrepresents.values i _ (hreads i _ (List.getElem?_eq_getElem hi'))
  rw [List.getElem?_eq_getElem hi] at hvalue
  rw [List.getElem_map, hvalue]
  rfl

theorem shows (hr : r ∈ a.relations) (hapart : r.Apart) : Shows ph contents r := by
  induction r with
  | table t => exact table_rows ha hplain hfit hr
  | selection id operand condition ih =>
    exact selection_rows ha hplain hfit hph hr (ih (ha.selection_operand hr).1 hapart)
  | projection id operand whole shown ih =>
    exact projection_rows ha hplain hfit hph hr (ih (ha.projection_operand hr).1 hapart)
  | join id kind left right condition ihl ihr =>
    exact join_rows ha hplain hfit hph hr hapart.2.2 (ihl (ha.join_left hr).1 hapart.1)
      (ihr (ha.join_right hr).1 hapart.2.1)

end

/-! ## The main statement -/

/-- The rows of the compiled query are the rows of the relation, where the i-th column of the
relation is the i-th entry of a row.  A relation without columns is compiled to a query that shows
everything, of which no entry counts. -/
theorem compile_rows (h : a.Reachable) (hplain : a.PlainTables) (hfit : Contents.Fit contents a)
    (hr : r ∈ a.relations) (hapart : r.Apart) :
    ∃ c, compile r = .ok c ∧
      (Query.rows contents c.placeholders c.query).map (fun row => (row.map (·.2)).take r.width) =
        r.rows contents ∧
      (0 < r.width → ∀ row ∈ Query.rows contents c.placeholders c.query,
        row.length = r.width) := by
  have ha := h.sound
  obtain ⟨c, columns, k, hcompile, hrules⟩ := exists_compiles ha hr
  have hph : c.placeholders.Numbered :=
    hrules.upto.placeholders.numbered Placeholders.numbered_empty
  have hrows := (shows ha hplain hfit hph hr hapart).whole hrules .refl
  have hlength := hrules.length
  refine ⟨c, hcompile, ?_, fun hwidth row hrow => ?_⟩
  · rw [Query.rows_eq, List.map_map, hrows]
    refine List.map_congr_left fun scope hscope => ?_
    rcases Nat.eq_zero_or_pos r.width with hzero | hpos
    · rw [hzero] at hlength ⊢
      rw [List.eq_nil_of_length_eq_zero hlength]
      rfl
    · rw [Function.comp, hrules.showRow_values ha hfit hr hscope hpos, ← hlength]
      refine List.take_of_length_le (Nat.le_of_eq ?_)
      rw [List.length_map]
  · rw [Query.rows_eq] at hrow
    obtain ⟨scope, hscope, rfl⟩ := List.mem_map.1 hrow
    have hvalues := congrArg List.length (hrules.showRow_values ha hfit hr hscope hwidth)
    rwa [List.length_map, List.length_map, hlength] at hvalues

open RelationalAlgebra.Sample in
theorem compile_rows_firstPosts :
    ∃ c, compile firstPosts = .ok c ∧
      (Query.rows stored c.placeholders c.query).map
          (fun row => (row.map (·.2)).take 3) =
        [[.integer 1, .integer 7, .integer 1]] := by
  have hfit : Contents.Fit stored algebra := by
    intro t ht
    have htable : t = blogs ∨ t = posts := by simpa [algebra, first, firstPosts] using ht
    rcases htable with rfl | rfl
    · decide
    · decide
  obtain ⟨c, hcompile, hrows, -⟩ := compile_rows reachable plainTables hfit
    (show firstPosts ∈ algebra.relations by decide) ⟨trivial, trivial, by decide⟩
  exact ⟨c, hcompile, hrows.trans (by decide)⟩

end RelationalAlgebra.Sql
