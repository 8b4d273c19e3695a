import RelationalAlgebra.Proofs.Compiling
import RelationalAlgebra.Proofs.Distinctness
import RelationalAlgebra.Sql.Reading

/-!
# The shape of a tuple

A row of a query is flat; the tuple it stands for has a record for each leaf of the relation, that
is for each table and each projection that no other projection hides (`Relation.leaves`).  The
query cuts the row up by the names of its columns, once more for every subquery.

`Fits` says that nothing is lost on the way, nothing taken twice and nothing moved: from left to
right the records hold the values of the relation's columns, and only a record without any value is
left out.  The main statement is `compile_tuple`.

* `value_rowOf`: what a subquery is given of a row is what stands under its qualifier.
* `Shaped` is about a relation in each of its places; a `FROM` clause adds the records of its units
  one after the other (`Lays.components_join`).
-/

namespace RelationalAlgebra

open QualifiedName RelationalAlgebra.Relation

/-- Plain names can be taken apart. -/
theorem Algebra.PlainNames.separable {a : Algebra} (h : a.PlainNames) : a.Separable :=
  Algebra.separable_iff.2 fun t ht c hc => (h.column t ht c hc).recoverable (h.table_nonempty t ht)

/-! ## What a tuple is to hold -/

/-- The relations that have a record of their own in a tuple, from left to right. -/
def Relation.leaves : Relation → List Relation
  | .table t => [.table t]
  | .selection _ operand _ => operand.leaves
  | .projection id operand whole shown => [.projection id operand whole shown]
  | .join _ _ left right _ => left.leaves ++ right.leaves

/-- The fields of the record are the columns of the relation with their values. -/
structure Carries (r : Relation) (values : List Value) (record : Record) : Prop where
  names : record.fields.map (·.1) = r.columnNames
  values : record.fields.map (·.2) = values

/-- The records, one for each of the relations, that hold the values of their columns.  A relation
of which all values are null has none. -/
inductive Components : List Relation → List Value → List (String × Option Record) → Prop
  | nil : Components [] [] []
  | missing {leaf : Relation} {leaves : List Relation} {part values : List Value} {key : String}
      {components : List (String × Option Record)} (width : part.length = leaf.width)
      (nulls : ∀ value ∈ part, value = .null) (rest : Components leaves values components) :
      Components (leaf :: leaves) (part ++ values) ((key, none) :: components)
  | present {leaf : Relation} {leaves : List Relation} {part values : List Value} {key : String}
      {components : List (String × Option Record)} {record : Record}
      (carries : Carries leaf part record) (held : ∃ value ∈ part, value ≠ .null)
      (rest : Components leaves values components) :
      Components (leaf :: leaves) (part ++ values) ((key, some record) :: components)

/-- The tuple has the shape of the relation and holds the values of its columns: a relation that is
one leaf is one record, any other has a component for each leaf. -/
inductive Fits (r : Relation) (values : List Value) : Tuple → Prop
  | record {leaf : Relation} {record : Record} (single : r.leaves = [leaf])
      (carries : Carries leaf values record) : Fits r values (.record record)
  | composite {components : List (String × Option Record)} (several : 1 < r.leaves.length)
      (parts : Components r.leaves values components) : Fits r values (.composite components)

theorem leaves_length_pos (r : Relation) : 0 < r.leaves.length := by
  induction r with
  | table t => exact Nat.zero_lt_one
  | selection id operand condition ih => exact ih
  | projection id operand whole shown ih => exact Nat.zero_lt_one
  | join id kind left right condition ihl ihr =>
    rw [leaves, List.length_append]
    exact Nat.lt_add_right _ ihl

/-- A selection has the tuples of its operand. -/
theorem Fits.selection {id : Nat} {operand : Relation} {condition : Expr Nat}
    {values : List Value} {tuple : Tuple} (h : Fits operand values tuple) :
    Fits (.selection id operand condition) values tuple := by
  cases h with
  | record single carries => exact .record single carries
  | composite several parts => exact .composite several parts

theorem Components.append {leaves leaves' : List Relation} {values values' : List Value}
    {components components' : List (String × Option Record)}
    (h : Components leaves values components) (h' : Components leaves' values' components') :
    Components (leaves ++ leaves') (values ++ values') (components ++ components') := by
  induction h with
  | nil => exact h'
  | missing width nulls _ ih =>
    rw [List.append_assoc]
    exact .missing width nulls ih
  | present carries held _ ih =>
    rw [List.append_assoc]
    exact .present carries held ih

theorem Carries.length {r : Relation} {values : List Value} {record : Record}
    (h : Carries r values record) : values.length = r.width := by
  have hlength := congrArg List.length h.names
  rw [← h.values, List.length_map]
  simpa [columnNames, width] using hlength

/-- A record without any value has nulls only. -/
theorem Carries.isAllNull_iff {r : Relation} {values : List Value} {record : Record}
    (h : Carries r values record) :
    record.isAllNull = true ↔ ∀ value ∈ values, value = .null := by
  have hnull : ∀ value : Value, value.isNull = true ↔ value = .null := by
    intro value
    cases value <;> simp [Value.isNull]
  rw [← h.values, Record.isAllNull, List.all_eq_true, List.forall_mem_map]
  exact forall₂_congr fun _ _ => hnull _

namespace Sql

variable {a : Algebra} {root r left right : Relation} {n n' : Numbering} {q : Query}
  {columns : List SqlExpr} {source : Source} {units : List FromUnit} {u : FromUnit}

/-- A tuple of the right shape adds the right components to a join. -/
theorem components_of_fits {values : List Value} {tuple : Tuple} (qualifier : String)
    (h : Fits r values tuple) : Components r.leaves values (componentsOf qualifier tuple) := by
  cases h with
  | composite several parts => exact parts
  | @record leaf record single carries =>
    rw [single, componentsOf, ← List.append_nil values]
    by_cases hnull : record.isAllNull
    · rw [if_pos hnull]
      exact .missing carries.length (carries.isAllNull_iff.1 hnull) .nil
    · rw [if_neg hnull]
      refine .present carries ?_ .nil
      rw [carries.isAllNull_iff] at hnull
      simpa using hnull

/-! ## Reading a row -/

/-- What follows a qualifier is the field of the qualified name. -/
theorem field?_eq_some_iff {qualifier name field : String} :
    field? qualifier name = some field ↔ name = qualify qualifier field := by
  rw [field?, ← @String.toList_inj name, qualify, String.toList_append]
  generalize (qualifier ++ delimiter).toList = start
  constructor
  · intro h
    split at h
    · next hstart =>
      obtain ⟨rest, hrest⟩ := List.isPrefixOf_iff_prefix.1 hstart
      rw [← hrest, List.drop_left] at h
      rw [← hrest, ← Option.some.inj h, String.toList_append, String.toList_append,
        String.toList_ofList]
    · cases h
  · intro h
    rw [h]
    simp

/-- A subquery is given what stands under its qualifier. -/
theorem lookup_rowOf (qualifier name : String) (row : Row) :
    (rowOf qualifier row).lookup name = row.lookup (qualify qualifier name) := by
  induction row with
  | nil => rfl
  | cons entry rest ih =>
    obtain ⟨key, value⟩ := entry
    rw [rowOf, List.filterMap_cons, List.lookup_cons]
    cases hfield : field? qualifier key with
    | none =>
      have hne : qualify qualifier name ≠ key := by
        intro heq
        rw [field?_eq_some_iff.2 heq.symm] at hfield
        cases hfield
      simp only [hfield, Option.map_none, beq_false_of_ne hne]
      exact ih
    | some field =>
      obtain rfl := field?_eq_some_iff.1 hfield
      simp only [hfield, Option.map_some, List.lookup_cons]
      by_cases hname : name = field
      · simp [hname]
      · have hne : qualify qualifier name ≠ qualify qualifier field := by
          intro heq
          exact hname (append_inj_right heq)
        simp only [beq_false_of_ne hname, beq_false_of_ne hne]
        exact ih

theorem value_rowOf (qualifier : String) (row : Row) :
    (rowOf qualifier row).value = fun name => row.value (qualify qualifier name) := by
  funext name
  rw [Row.value, Row.value, lookup_rowOf]

/-- A record that is read under the names of a relation's columns carries what is found there. -/
theorem carries_ofRow {names : List String} (hnames : names = r.columnNames)
    (table : Option String) (key : String → String) (row : Row) :
    Carries r (names.map fun name => row.value (key name)) (.ofRow table names key row) where
  names := by simp [Record.ofRow, Function.comp_def, hnames]
  values := by simp [Record.ofRow, Function.comp_def]

/-- The record of a table is read in the order of the columns, within a join under a qualifier. -/
theorem table_fits (t : Table) (qualifier : Option String) (row : Row) :
    Fits (.table t)
      ((Relation.table t).columnNames.map fun name =>
        row.value (qualifier.elim name (qualify · name)))
      (.record (tableRecord t qualifier row)) := by
  rw [columnNames_table]
  cases qualifier with
  | none => exact .record rfl (carries_ofRow (columnNames_table t).symm _ _ row)
  | some q => exact .record rfl (carries_ofRow (columnNames_table t).symm _ _ row)

theorem unitTuples_eq_map (units : List FromUnit) :
    unitTuples units = units.map fun u => (u, u.tuple) := by
  induction units with
  | nil => rfl
  | cons u rest ih => rw [unitTuples, ih, List.map_cons]

/-- Going through the places of a list is going through the list. -/
theorem flatMap_range {α β : Type} (l : List α) (f : α → List β) :
    ((List.range l.length).flatMap fun i => match l[i]? with
      | some x => f x
      | none => []) = l.flatMap f := by
  induction l with
  | nil => rfl
  | cons x rest ih =>
    rw [List.length_cons, List.range_succ_eq_map, List.flatMap_cons, List.flatMap_map,
      List.flatMap_cons, ← ih]
    rfl

/-! ## Tuples of a query -/

/-- The values that a row holds for the columns of a unit. -/
def FromUnit.values (u : FromUnit) (row : Row) : List Value :=
  u.labels.map fun name => row.value (qualify u.qualifier.name name)

/-- The components that a unit of a join reads from a row. -/
def FromUnit.components (u : FromUnit) (row : Row) : List (String × Option Record) :=
  componentsOf u.qualifier.name (u.tuple (some u.qualifier.name) row)

/-- What holds of a relation in each of its places: the tuples fit the values that a row holds for
its columns. -/
structure Shaped (r : Relation) : Prop where
  whole : ∀ {root n q columns n'}, Compiles root r n q columns n' → ∀ row,
    Fits r ((q.rowNames r).map row.value) (q.tuple row)
  operand : ∀ {n source units n'}, Lays r n source units n' → ∀ row,
    Components r.leaves (units.flatMap (·.values row)) (units.flatMap (·.components row))

/-- What is said of a relation as a query is said of it as a unit. -/
theorem Stands.components_values
    (hwhole : ∀ {root n q columns n'}, Compiles root r n q columns n' → ∀ row,
      Fits r ((q.rowNames r).map row.value) (q.tuple row))
    (h : Stands r n u n') (row : Row) :
    Components r.leaves (u.values row) (u.components row) := by
  cases h with
  | @table t =>
    have hfits := table_fits t (some t.name) row
    rw [FromUnit.components, FromUnit.tuple]
    exact components_of_fits t.name hfits
  | @subquery r n n' q columns nested compiles =>
    have hfits := hwhole compiles (rowOf (labelOf (n.subqueries + 1)) row)
    rw [value_rowOf] at hfits
    rw [FromUnit.components, FromUnit.tuple]
    exact components_of_fits (labelOf (n.subqueries + 1)) hfits

theorem shaped_of_leaf (hleaf : r.joinChain = [])
    (hwhole : ∀ {root n q columns n'}, Compiles root r n q columns n' → ∀ row,
      Fits r ((q.rowNames r).map row.value) (q.tuple row)) : Shaped r where
  whole := hwhole
  operand h row := by
    cases h with
    | leaf _ stands =>
      simp only [List.flatMap_singleton]
      exact stands.components_values hwhole row
    | join => cases hleaf

theorem table_shaped (t : Table) : Shaped (.table t) := by
  refine shaped_of_leaf rfl ?_
  intro root n q columns n' h row
  cases h with
  | table => exact table_fits t none row

/-- One more condition does not change the tuples. -/
theorem Query.tuple_condition (q : Query) (e : SqlExpr) (row : Row) :
    Query.tuple { q with conditions := q.conditions ++ [e] } row = q.tuple row := by
  obtain ⟨relation, entries, source, conditions, units, shape, projected⟩ := q
  rfl

theorem selection_shaped {id : Nat} {operand : Relation} {condition : Expr Nat}
    (hoperand : Shaped operand) : Shaped (.selection id operand condition) := by
  refine shaped_of_leaf rfl ?_
  intro root n q columns n' h row
  cases h with
  | selection compiles fills =>
    have hfits := hoperand.whole compiles row
    rw [Query.tuple_condition, Query.rowNames, columnNames_selection]
    exact hfits.selection

/-- A projection gives one record, also of a whole table. -/
theorem projection_shaped (ha : a.Sound) (hnames : a.Separable) {id : Nat} {operand : Relation}
    {whole : Option Table} {shown : List OutputColumn}
    (hr : Relation.projection id operand whole shown ∈ a.relations) :
    Shaped (.projection id operand whole shown) := by
  refine shaped_of_leaf rfl ?_
  intro root n q columns n' h row
  cases h with
  | projection compiles fills =>
    rw [Query.rowNames_some (Query.reshape_entries ..)]
    cases whole with
    | none => exact .record rfl (carries_ofRow fills.names none (fun name => name) row)
    | some t =>
      have hcolumns := names_whole ha hnames hr
      rw [fills.names, hcolumns]
      exact .record rfl (carries_ofRow hcolumns.symm (some t.name) (fun name => name) row)

/-! ### Joins -/

section

variable {id : Nat} {kind : JoinKind} {condition : Expr Nat}

/-- A `FROM` clause has the components of its left part and those of its last unit. -/
theorem Lays.components_join (hl : Shaped left) (hright : Shaped right)
    (h : Lays (.join id kind left right condition) n source units n') (row : Row) :
    Components (Relation.join id kind left right condition).leaves
      (units.flatMap (·.values row)) (units.flatMap (·.components row)) := by
  cases h with
  | leaf leaf => cases leaf
  | join lays stands fills =>
    simp only [List.flatMap_append, List.flatMap_singleton]
    exact (hl.operand lays row).append (stands.components_values hright.whole row)

/-- The tuple of a join has the components of its units. -/
theorem Lays.tuple_join (h : Lays (.join id kind left right condition) n source units n')
    (entries : Option (List SelectEntry)) (row : Row) :
    Query.tuple ⟨root, entries, some source, [], units, none, none⟩ row =
      .composite (units.flatMap (·.components row)) := by
  have hplaces := h.source_units
  cases h with
  | leaf leaf => cases leaf
  | @join _ _ _ _ _ _ _ source units u _ _ _ _ lays stands fills =>
    rw [Query.tuple, queryTuple, sourceTuple, hplaces, unitTuples_eq_map]
    · refine congrArg Tuple.composite (Eq.trans ?_ (flatMap_range _ _))
      refine List.flatMap_congr fun place _ => ?_
      rw [List.getElem?_map]
      cases (units ++ [u])[place]? with
      | none => rfl
      | some unit => rfl
    · simp

/-- The entries of a select list of references stand under their qualified names. -/
theorem map_name_qualifiedEntries {shown : List OutputColumn} {cs : List SqlColumn}
    (h : cs.length = shown.length) :
    (qualifiedEntries shown (cs.map .column)).map (·.name) = cs.map (·.qualifiedName) := by
  refine List.ext_getElem (by simp [qualifiedEntries, h]) fun i hi hi' => ?_
  simp [qualifiedEntries, SqlExpr.qualifiedName?]

/-- What a row holds under the qualified names of the references to units is what it holds for the
units. -/
theorem map_value_references (units : List FromUnit) (row : Row) :
    ((units.flatMap (·.references)).map (·.qualifiedName)).map row.value =
      units.flatMap (·.values row) := by
  rw [List.map_map, List.map_flatMap]
  refine List.flatMap_congr fun u _ => ?_
  rw [FromUnit.references, List.map_map]
  rfl

theorem join_shaped (ha : a.Sound) (hplain : a.PlainTables)
    (hr : Relation.join id kind left right condition ∈ a.relations)
    (htell : (Relation.join id kind left right condition).Telling) (hl : Shaped left)
    (hright : Shaped right) : Shaped (.join id kind left right condition) := by
  refine ⟨?_, fun h => h.components_join hl hright⟩
  intro root n q columns n' h row
  have hwidth := h.length
  obtain ⟨source, units, lays, rfl, hreads⟩ := h.join_cases ha hr
  have hregular := (distinguished_of_telling ha hplain hr htell).operand lays
  obtain rfl := lays.columns_eq ha hr htell.apart hregular hwidth hreads
  rw [List.length_map] at hwidth
  rw [lays.tuple_join, Query.rowNames_some rfl, map_name_qualifiedEntries hwidth,
    map_value_references]
  have hleft := leaves_length_pos left
  have hrt := leaves_length_pos right
  refine .composite ?_ (lays.components_join hl hright row)
  rw [leaves, List.length_append]
  omega

end

/-- The tuples of a relation that tells its columns apart fit their values. -/
theorem shaped_of_telling (ha : a.Sound) (hplain : a.PlainTables) (hnames : a.Separable)
    (hr : r ∈ a.relations) (htell : r.Telling) : Shaped r := by
  induction r with
  | table t => exact table_shaped t
  | selection id operand condition ih =>
    exact selection_shaped (ih (ha.selection_operand hr).1 htell)
  | projection id operand whole shown ih => exact projection_shaped ha hnames hr
  | join id kind left right condition ihl ihr =>
    exact join_shaped ha hplain hr htell (ihl (ha.join_left hr).1 htell.1)
      (ihr (ha.join_right hr).1 htell.2.1)

theorem shaped (ha : a.Sound) (hplain : a.PlainTables) (hnames : a.Separable)
    (hr : r ∈ a.relations) (hapart : r.Apart) (hsimple : r.Simple) : Shaped r :=
  shaped_of_telling ha hplain hnames hr (hsimple.telling ha hr hapart)

/-! ## The main statement -/

/-- A row of the compiled query has a different name for each column of the relation, and whatever
values it holds under these names, its tuple fits them. -/
theorem compile_tuple (h : a.Reachable) (hplain : a.PlainNames) (hr : r ∈ a.relations)
    (hapart : r.Apart) (hsimple : r.Simple) :
    ∃ c, compile r = .ok c ∧ (c.query.rowNames r).Nodup ∧
      (c.query.rowNames r).length = r.width ∧
      ∀ values row, (c.query.rowNames r).map (Row.value row) = values →
        Fits r values (c.query.tuple row) := by
  have ha := h.sound
  obtain ⟨c, columns, k, hcompile, hrules⟩ := exists_compiles ha hr
  have hnodup := hrules.columns_nodup ha hplain.toPlainTables hr hapart hsimple
  have hshaped := shaped ha hplain.toPlainTables hplain.separable hr hapart hsimple
  refine ⟨c, hcompile, hrules.rowNames_nodup hnodup ha hplain.toPlainTables hr,
    hrules.rowNames_length hnodup, ?_⟩
  rintro values row rfl
  exact hshaped.whole hrules row

open RelationalAlgebra.Sample in
/-- A blog without posts: the record of the blog comes from the subquery, and posts have none. -/
theorem compile_tuple_firstPosts :
    ∃ c, compile firstPosts = .ok c ∧
      c.query.rowNames firstPosts = ["t1__id", "posts__id", "posts__blog_id"] ∧
      Fits firstPosts [.integer 1, .null, .null] (c.query.tuple
        [("t1__id", .integer 1), ("posts__id", .null), ("posts__blog_id", .null)]) := by
  obtain ⟨c, hcompile, -, -, hfits⟩ := compile_tuple reachable plainNames
    (show firstPosts ∈ algebra.relations by decide) ⟨trivial, trivial, by decide⟩
    ⟨trivial, trivial⟩
  have hnames : c.query.rowNames firstPosts = ["t1__id", "posts__id", "posts__blog_id"] := by
    have hrun : (compile firstPosts).map (fun c => c.query.rowNames firstPosts) =
        .ok ["t1__id", "posts__id", "posts__blog_id"] := by decide +kernel
    rw [hcompile] at hrun
    exact Except.ok.inj hrun
  refine ⟨c, hcompile, hnames, hfits _ _ ?_⟩
  rw [hnames]
  decide

end Sql

end RelationalAlgebra
