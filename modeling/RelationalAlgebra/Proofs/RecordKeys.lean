import RelationalAlgebra.Proofs.Grouping
import RelationalAlgebra.Proofs.Readers
import RelationalAlgebra.Proofs.Shapes
import RelationalAlgebra.Proofs.Twins

/-!
# The keys of a tuple

In the tuple of a join each record stands under a key: the name of the table that holds it, also if the
table is wrapped in selections or is what a projection passes through, or else the alias of the subquery
that shows it.  What holds the records is read off the relation (`Relation.holders`), where the
subqueries are numbered as the compiler numbers them.

A key is repeated exactly if a table holds two of the records, as when a table is joined with a selection
of itself, or if a table that holds one is called like the alias that another one stands under
(`Relation.tupleKeys_nodup_iff`).  Then the tuple has a component that the JSON leaves out.  The main statement
is `compile_readers`.

* `Counted`: a relation takes as many subqueries as are counted, in each of its places.
* `Files`: in each place its components stand under the keys, and no record has a field twice.
-/

namespace RelationalAlgebra

/-! ## What holds the records -/

/-- What holds a record of a tuple: a table, or a subquery by its number. -/
inductive Holder where
  | table (t : Table)
  | subquery (number : Nat)
  deriving DecidableEq

/-- The key of the record. -/
def Holder.key : Holder → String
  | table t => t.name
  | subquery number => Sql.labelOf number

namespace Relation

/-- How many subqueries the query of a relation has, at all levels. -/
def subqueries : Relation → Nat
  | .table _ => 0
  | .selection _ operand _ => operand.subqueries
  | .projection _ operand _ _ => operand.subqueries
  | .join _ _ left right _ =>
    (left.subqueries + if left.joinChain.isEmpty && left.table?.isNone then 1 else 0) +
      (right.subqueries + if right.table?.isNone then 1 else 0)

/-- How many subqueries a relation takes as a unit of a `FROM` clause. -/
def unitSubqueries (r : Relation) : Nat := r.subqueries + if r.table?.isNone then 1 else 0

/-- How many subqueries a relation takes as the left operand of a join. -/
def operandSubqueries (r : Relation) : Nat :=
  r.subqueries + if r.joinChain.isEmpty && r.table?.isNone then 1 else 0

/-- Where the numbering stands at a left operand, after `number` subqueries: a join goes on with its own
left operand, and anything else is a unit with the next number, if it is no table. -/
def operandNumber (r : Relation) (number : Nat) : Nat :=
  if r.joinChain.isEmpty then number + 1 else number

/-- What holds the records of the tuples, from left to right, after `number` subqueries: if the relation
is one of them, `number` is its own. -/
def holders : Relation → Nat → List Holder
  | .table t, _ => [.table t]
  | .selection _ operand _, number => operand.holders number
  | .projection _ _ whole _, number => [whole.elim (.subquery number) .table]
  | .join _ _ left right _, number =>
    left.holders (left.operandNumber number) ++ right.holders (number + left.operandSubqueries + 1)

/-- The keys of the tuples of a relation. -/
def tupleKeys (r : Relation) : List String := (r.holders 0).map Holder.key

variable {a : Algebra} {r left right : Relation} {id number k : Nat} {kind : JoinKind}
  {condition : Expr Nat}

theorem subqueries_join : (Relation.join id kind left right condition).subqueries =
    left.operandSubqueries + right.unitSubqueries := rfl

theorem operandSubqueries_of_leaf (h : r.joinChain = []) :
    r.operandSubqueries = r.unitSubqueries := by
  rw [operandSubqueries, h]
  rfl

theorem operandNumber_of_leaf (h : r.joinChain = []) : r.operandNumber number = number + 1 := by
  rw [operandNumber, h]
  rfl

/-! ### Numbers -/

/-- If the subquery `k` holds a record, it is the relation itself or one of the subqueries in it. -/
def Ranged (r : Relation) (k : Nat) : Prop :=
  ∀ number, Holder.subquery k ∈ r.holders number →
    number ≤ k ∧ k ≤ number + r.subqueries ∧ (r.joinChain ≠ [] → number < k)

theorem Ranged.unit (h : r.Ranged k) (hk : Holder.subquery k ∈ r.holders (number + 1)) :
    number < k ∧ k ≤ number + r.unitSubqueries := by
  obtain ⟨hge, hle, -⟩ := h _ hk
  have hunit : r.unitSubqueries = r.subqueries + 1 := by
    cases r with
    | table t => simp [holders] at hk
    | selection => rfl
    | projection => rfl
    | join => rfl
  omega

theorem Ranged.operand (h : r.Ranged k)
    (hk : Holder.subquery k ∈ r.holders (r.operandNumber number)) :
    number < k ∧ k ≤ number + r.operandSubqueries := by
  by_cases hleaf : r.joinChain = []
  · rw [operandNumber_of_leaf hleaf] at hk
    rw [operandSubqueries_of_leaf hleaf]
    exact h.unit hk
  · have hchain : r.joinChain.isEmpty = false := by simpa using hleaf
    rw [operandNumber, hchain] at hk
    obtain ⟨-, hle, hlt⟩ := h _ hk
    simp only [operandSubqueries, hchain]
    exact ⟨hlt hleaf, hle⟩

theorem ranged (r : Relation) (k : Nat) : r.Ranged k := by
  induction r with
  | table t =>
    intro number hk
    simp [holders] at hk
  | selection id operand condition ih =>
    intro number hk
    obtain ⟨hge, hle, -⟩ := ih number hk
    exact ⟨hge, hle, fun hchain => absurd rfl hchain⟩
  | projection id operand whole shown =>
    intro number hk
    cases whole with
    | some t => simp [holders] at hk
    | none =>
      obtain rfl : k = number := by simpa [holders] using hk
      exact ⟨Nat.le_refl _, Nat.le_add_right .., fun hchain => absurd rfl hchain⟩
  | join id kind left right condition ihl ihr =>
    intro number hk
    rw [subqueries_join]
    rcases List.mem_append.1 hk with hk | hk
    · obtain ⟨hlt, hle⟩ := ihl.operand hk
      omega
    · obtain ⟨hlt, hle⟩ := ihr.unit hk
      omega

/-- No subquery holds two records. -/
theorem count_subquery_le_one (r : Relation) (number k : Nat) :
    (r.holders number).count (.subquery k) ≤ 1 := by
  induction r generalizing number with
  | table t => simp [holders]
  | selection id operand condition ih => exact ih number
  | projection id operand whole shown => exact List.count_le_length
  | join id kind left right condition ihl ihr =>
    rw [holders, List.count_append]
    by_cases hk : Holder.subquery k ∈ left.holders (left.operandNumber number)
    · -- the numbers on the right are past those on the left
      have hright : Holder.subquery k ∉ right.holders (number + left.operandSubqueries + 1) := by
        intro hk'
        have hle := ((ranged left k).operand hk).2
        have hlt := ((ranged right k).unit hk').1
        omega
      rw [List.count_eq_zero_of_not_mem hright]
      exact ihl _
    · rw [List.count_eq_zero_of_not_mem hk, Nat.zero_add]
      exact ihr _

/-! ### Tables -/

/-- A table that holds a record is a table of the algebra. -/
theorem table_mem_of_mem_holders (ha : a.Sound) (hr : r ∈ a.relations) {t : Table}
    (h : Holder.table t ∈ r.holders number) : Relation.table t ∈ a.relations := by
  induction r generalizing number with
  | table u =>
    obtain rfl : t = u := by simpa [holders] using h
    exact hr
  | selection id operand condition ih => exact ih (ha.selection_operand hr).1 h
  | projection id operand whole shown =>
    cases whole with
    | none => simp [holders] at h
    | some u =>
      obtain rfl : t = u := by simpa [holders] using h
      exact ha.table_mem_of_tableNamed? (ha.projection_operand hr).1 (ha.whole_built hr).1
  | join id kind left right condition ihl ihr =>
    rcases List.mem_append.1 h with h | h
    · exact ihl (ha.join_left hr).1 h
    · exact ihr (ha.join_right hr).1 h

/-- The keys of the tuples of a relation differ exactly if no table holds two of the records and none that
holds one is called like a subquery that holds another. -/
theorem tupleKeys_nodup_iff (ha : a.Sound) (hr : r ∈ a.relations) : r.tupleKeys.Nodup ↔
    (∀ t, (r.holders 0).count (.table t) ≤ 1) ∧
      ∀ t k, .table t ∈ r.holders 0 → .subquery k ∈ r.holders 0 → t.name ≠ Sql.labelOf k := by
  constructor
  · intro hkeys
    refine ⟨fun t => List.nodup_iff_count_le_one.1 (hkeys.of_map _) _, fun t k ht hk hname => ?_⟩
    have hsame : Holder.table t = Holder.subquery k := List.inj_on_of_nodup_map hkeys ht hk hname
    cases hsame
  · rintro ⟨htables, halias⟩
    refine List.Nodup.map_on ?_ (List.nodup_iff_count_le_one.2 ?_)
    · rintro (t | k) hx (u | j) hy hkey
      · have hmem := table_mem_of_mem_holders ha hr hx
        rw [ha.table_eq_of_name_eq hmem (table_mem_of_mem_holders ha hr hy) hkey]
      · exact absurd hkey (halias t j hx hy)
      · exact absurd hkey.symm (halias u k hy hx)
      · rw [Sql.labelOf_inj hkey]
    · rintro (t | k)
      · exact htables t
      · exact count_subquery_le_one r 0 k

end Relation

namespace Sql

open RelationalAlgebra.Relation

variable {a : Algebra} {root r left right : Relation} {n n' : Numbering} {q : Query}
  {columns : List SqlExpr} {source : Source} {units : List FromUnit} {u : FromUnit}
  {holders holders' : List Holder} {components components' : List (String × Option Record)}

/-! ## How subqueries are numbered -/

/-- In each of its places a relation takes as many subqueries as are counted. -/
structure Counted (r : Relation) : Prop where
  whole : ∀ {root n q columns n'}, Compiles root r n q columns n' →
    n'.subqueries = n.subqueries + r.subqueries
  operand : ∀ {n source units n'}, Lays r n source units n' →
    n'.subqueries = n.subqueries + r.operandSubqueries

theorem Stands.subqueries_of (h : Stands r n u n')
    (hwhole : ∀ {root n q columns n'}, Compiles root r n q columns n' →
      n'.subqueries = n.subqueries + r.subqueries) :
    n'.subqueries = n.subqueries + r.unitSubqueries := by
  cases h with
  | table => rfl
  | subquery nested compiles =>
    rw [hwhole compiles, unitSubqueries, nested]
    simp only [Option.isNone_none, if_true]
    omega

theorem counted_of_leaf (hleaf : r.joinChain = [])
    (hwhole : ∀ {root n q columns n'}, Compiles root r n q columns n' →
      n'.subqueries = n.subqueries + r.subqueries) : Counted r where
  whole := hwhole
  operand h := by
    cases h with
    | leaf _ stands =>
      rw [operandSubqueries_of_leaf hleaf]
      exact stands.subqueries_of hwhole
    | join => cases hleaf

theorem join_counted {id : Nat} {kind : JoinKind} {condition : Expr Nat} (hl : Counted left)
    (hright : Counted right) : Counted (.join id kind left right condition) := by
  have hoperand : ∀ {n source units n'},
      Lays (.join id kind left right condition) n source units n' → n'.subqueries =
        n.subqueries + (Relation.join id kind left right condition).subqueries := by
    intro n source units n' h
    cases h with
    | leaf leaf => cases leaf
    | join lays stands fills =>
      have hleft := hl.operand lays
      have hunit := stands.subqueries_of hright.whole
      rw [subqueries_join]
      simp only at hunit ⊢
      omega
  refine ⟨?_, hoperand⟩
  intro root n q columns n' h
  cases h with
  | join lays => exact hoperand lays

theorem counted (r : Relation) : Counted r := by
  induction r with
  | table t =>
    refine counted_of_leaf rfl ?_
    intro root n q columns n' h
    cases h with
    | table => rfl
  | selection id operand condition ih =>
    refine counted_of_leaf rfl ?_
    intro root n q columns n' h
    cases h with
    | selection compiles fills =>
      have hoperand := ih.whole compiles
      exact hoperand
  | projection id operand whole shown ih =>
    refine counted_of_leaf rfl ?_
    intro root n q columns n' h
    cases h with
    | projection compiles fills =>
      have hoperand := ih.whole compiles
      exact hoperand
  | join id kind left right condition ihl ihr => exact join_counted ihl ihr

/-! ## Components under their keys -/

/-- The components stand under the keys of what holds their records, and no record has a field twice. -/
structure Filed (holders : List Holder) (components : List (String × Option Record)) : Prop where
  keys : components.map (·.1) = holders.map Holder.key
  fields : ∀ key record, (key, some record) ∈ components → (record.fields.map (·.1)).Nodup

theorem Filed.append (h : Filed holders components) (h' : Filed holders' components') :
    Filed (holders ++ holders') (components ++ components') where
  keys := by rw [List.map_append, List.map_append, h.keys, h'.keys]
  fields := by
    intro key record hmem
    rcases List.mem_append.1 hmem with hmem | hmem
    · exact h.fields key record hmem
    · exact h'.fields key record hmem

/-- A record is one component. -/
theorem filed_record {holder : Holder} {qualifier : String} {record : Record}
    (hkey : record.table.getD qualifier = holder.key)
    (hfields : (record.fields.map (·.1)).Nodup) :
    Filed [holder] (componentsOf qualifier (.record record)) where
  keys := by rw [componentsOf, List.map_singleton, List.map_singleton, hkey]
  fields := by
    intro key other hmem
    rw [componentsOf, List.mem_singleton] at hmem
    by_cases hnull : record.isAllNull
    · simp [hnull] at hmem
    · simp only [hnull, Prod.mk.injEq] at hmem
      obtain rfl := Option.some.inj hmem.2
      exact hfields

/-- What holds of a relation in each of its places: the components are filed under what holds them. -/
structure Files (r : Relation) : Prop where
  whole : ∀ {root n q columns n'}, Compiles root r n q columns n' → ∀ row,
    Filed (r.holders n.subqueries) (componentsOf (labelOf n.subqueries) (q.tuple row))
  operand : ∀ {n source units n'}, Lays r n source units n' → ∀ row,
    Filed (r.holders (r.operandNumber n.subqueries)) (units.flatMap (·.components row))

/-- The fields of a record that is read under different names have these names. -/
theorem nodup_ofRow {names : List String} (hnames : names.Nodup) (table : Option String)
    (key : String → String) (row : Row) :
    ((Record.ofRow table names key row).fields.map (·.1)).Nodup := by
  simpa [Record.ofRow, Function.comp_def] using hnames

theorem Stands.filed_of (ha : a.Sound) (hr : r ∈ a.relations)
    (hwhole : ∀ {root n q columns n'}, Compiles root r n q columns n' → ∀ row,
      Filed (r.holders n.subqueries) (componentsOf (labelOf n.subqueries) (q.tuple row)))
    (h : Stands r n u n') (row : Row) :
    Filed (r.holders (n.subqueries + 1)) (u.components row) := by
  cases h with
  | @table t =>
    rw [FromUnit.components, FromUnit.tuple]
    exact filed_record rfl (nodup_ofRow (ha.table_columns_nodup hr) _ _ row)
  | subquery nested compiles =>
    rw [FromUnit.components, FromUnit.tuple]
    exact hwhole compiles (rowOf (labelOf (n.subqueries + 1)) row)

theorem files_of_leaf (ha : a.Sound) (hr : r ∈ a.relations) (hleaf : r.joinChain = [])
    (hwhole : ∀ {root n q columns n'}, Compiles root r n q columns n' → ∀ row,
      Filed (r.holders n.subqueries) (componentsOf (labelOf n.subqueries) (q.tuple row))) :
    Files r where
  whole := hwhole
  operand h row := by
    cases h with
    | leaf _ stands =>
      rw [operandNumber_of_leaf hleaf, List.flatMap_singleton]
      exact stands.filed_of ha hr hwhole row
    | join => cases hleaf

theorem table_files (ha : a.Sound) {t : Table} (hr : Relation.table t ∈ a.relations) :
    Files (.table t) := by
  refine files_of_leaf ha hr rfl ?_
  intro root n q columns n' h row
  cases h with
  | table => exact filed_record rfl (nodup_ofRow (ha.table_columns_nodup hr) _ _ row)

theorem selection_files (ha : a.Sound) {id : Nat} {operand : Relation} {condition : Expr Nat}
    (hr : Relation.selection id operand condition ∈ a.relations) (hoperand : Files operand) :
    Files (.selection id operand condition) := by
  refine files_of_leaf ha hr rfl ?_
  intro root n q columns n' h row
  cases h with
  | selection compiles fills =>
    rw [Query.tuple_condition]
    exact hoperand.whole compiles row

theorem projection_files (ha : a.Sound) {id : Nat} {operand : Relation} {whole : Option Table}
    {shown : List OutputColumn} (hr : Relation.projection id operand whole shown ∈ a.relations) :
    Files (.projection id operand whole shown) := by
  refine files_of_leaf ha hr rfl ?_
  intro root n q columns n' h row
  cases h with
  | projection compiles fills =>
    cases whole with
    | none =>
      have hnames := ha.projection_names hr
      rw [← fills.names] at hnames
      exact filed_record rfl (nodup_ofRow hnames none (fun name => name) row)
    | some t =>
      have ht := ha.table_mem_of_tableNamed? (ha.projection_operand hr).1 (ha.whole_built hr).1
      exact filed_record rfl (nodup_ofRow (ha.table_columns_nodup ht) (some t.name) _ row)

theorem join_files (ha : a.Sound) {id : Nat} {kind : JoinKind} {condition : Expr Nat}
    (hr : Relation.join id kind left right condition ∈ a.relations) (hl : Files left)
    (hright : Files right) : Files (.join id kind left right condition) := by
  have hoperand : ∀ {n source units n'},
      Lays (.join id kind left right condition) n source units n' → ∀ row,
        Filed ((Relation.join id kind left right condition).holders n.subqueries)
          (units.flatMap (·.components row)) := by
    intro n source units n' h row
    cases h with
    | leaf leaf => cases leaf
    | join lays stands fills =>
      have hnumber := (counted left).operand lays
      have hfiled := stands.filed_of ha (ha.join_right hr).1 hright.whole row
      rw [hnumber] at hfiled
      simp only [List.flatMap_append, List.flatMap_singleton]
      exact (hl.operand lays row).append hfiled
  refine ⟨?_, hoperand⟩
  intro root n q columns n' h row
  cases h with
  | join lays =>
    rw [lays.tuple_join]
    exact hoperand lays row

theorem files (ha : a.Sound) (hr : r ∈ a.relations) : Files r := by
  induction r with
  | table t => exact table_files ha hr
  | selection id operand condition ih =>
    exact selection_files ha hr (ih (ha.selection_operand hr).1)
  | projection id operand whole shown ih => exact projection_files ha hr
  | join id kind left right condition ihl ihr =>
    exact join_files ha hr (ihl (ha.join_left hr).1) (ihr (ha.join_right hr).1)

theorem holders_length_pos (r : Relation) (number : Nat) : 0 < (r.holders number).length := by
  induction r generalizing number with
  | table t => exact Nat.zero_lt_one
  | selection id operand condition ih => exact ih number
  | projection id operand whole shown ih => exact Nat.zero_lt_one
  | join id kind left right condition ihl ihr =>
    rw [Relation.holders, List.length_append]
    exact Nat.lt_add_right _ (ihl _)

/-- A projection makes its tuple one record. -/
theorem Query.exists_record_reshape (q : Query) (whole : Option Table) (row : Row) :
    ∃ record, (q.reshape whole).tuple row = .record record := by
  obtain ⟨relation, entries, source, conditions, units, shape, projected⟩ := q
  cases whole with
  | none => exact ⟨_, rfl⟩
  | some t => exact ⟨_, rfl⟩

theorem exists_composite_iff_of_record {tuple : Tuple} {record : Record}
    (h : tuple = .record record) (holder : Holder) :
    (∃ components, tuple = .composite components) ↔ 1 < [holder].length := by
  subst h
  simp

/-- The tuples of a relation are composite exactly if they have several records. -/
theorem Compiles.exists_composite_iff (h : Compiles root r n q columns n') (row : Row) :
    (∃ components, q.tuple row = .composite components) ↔
      1 < (r.holders n.subqueries).length := by
  induction r generalizing q columns n' with
  | table t =>
    cases h with
    | table => exact exists_composite_iff_of_record rfl _
  | selection id operand condition ih =>
    cases h with
    | selection compiles fills =>
      rw [Query.tuple_condition]
      have hoperand := ih compiles
      exact hoperand
  | projection id operand whole shown ih =>
    cases h with
    | projection compiles fills =>
      obtain ⟨record, hrecord⟩ := Query.exists_record_reshape _ whole row
      exact exists_composite_iff_of_record hrecord _
  | join id kind left right condition ihl ihr =>
    cases h with
    | join lays =>
      have hleft := holders_length_pos left (left.operandNumber n.subqueries)
      have hright := holders_length_pos right (n.subqueries + left.operandSubqueries + 1)
      rw [lays.tuple_join, Relation.holders, List.length_append]
      exact ⟨fun _ => by omega, fun _ => ⟨_, rfl⟩⟩

/-! ## The main statement -/

/-- The tuples of a relation that a session built are composite if they have several records, and the
components then stand under the keys of the relation, which can be repeated only by a table that holds two
records or is called like a subquery that holds one.  A tuple's JSON has all components exactly if no key is
repeated; its readers agree exactly if, moreover, no two fields have one name behind their keys, which is
so of itself when the names of the tables have no dot. -/
theorem compile_readers (h : a.Reachable) (hr : r ∈ a.relations) :
    ∃ c, compile r = .ok c ∧
      (r.tupleKeys.Nodup ↔ (∀ t, (r.holders 0).count (.table t) ≤ 1) ∧
        ∀ t k, .table t ∈ r.holders 0 → .subquery k ∈ r.holders 0 → t.name ≠ labelOf k) ∧
      ∀ row,
        ((∃ components, c.query.tuple row = .composite components) ↔
          1 < (r.holders 0).length) ∧
        ∀ components, c.query.tuple row = .composite components →
          components.map (·.1) = r.tupleKeys ∧
          ((∃ fields, (c.query.tuple row).toJson = .object fields ∧
            fields.length = components.length) ↔ r.tupleKeys.Nodup) ∧
          (ReadAlike components ↔
            r.tupleKeys.Nodup ∧ ((c.query.tuple row).cells.map (·.1)).Nodup) ∧
          ((∀ t, .table t ∈ r.holders 0 → '.' ∉ t.name.toList) →
            (ReadAlike components ↔ r.tupleKeys.Nodup)) := by
  have ha := h.sound
  obtain ⟨c, columns, k, hcompile, hrules⟩ := exists_compiles ha hr
  refine ⟨c, hcompile, tupleKeys_nodup_iff ha hr, fun row =>
    ⟨hrules.exists_composite_iff row, fun components htuple => ?_⟩⟩
  have hfiled := (files ha hr).whole hrules row
  rw [htuple] at hfiled ⊢
  obtain ⟨hkeys, hfields⟩ := hfiled
  have htupleKeys : components.map (·.1) = r.tupleKeys := hkeys
  rw [← htupleKeys]
  refine ⟨rfl, entries_iff, readAlike_iff, fun hdots => ?_⟩
  refine readAlike_iff_of_not_mem_dot ?_ hfields
  intro key hkey
  rw [htupleKeys] at hkey
  obtain ⟨holder, hholder, rfl⟩ := List.mem_map.1 hkey
  cases holder with
  | table t => exact hdots t hholder
  | subquery k => exact (oneName_labelOf k).2

section

open RelationalAlgebra.Sample

/-- The record of the first blog. -/
def firstRecord : Record := ⟨some "blogs", [("id", .integer 1)]⟩

/-- The readers agree on the first blog without posts.  Of the blog beside itself, which has two records
under one key, the JSON leaves one out. -/
theorem compile_readers_beside :
    (∃ c, compile firstPosts = .ok c ∧ firstPosts.tupleKeys = ["blogs", "posts"] ∧
      c.query.tuple [("t1__id", .integer 1)] =
        .composite [("blogs", some firstRecord), ("posts", none)] ∧
      ReadAlike [("blogs", some firstRecord), ("posts", none)]) ∧
    ∃ c, compile firstTwice = .ok c ∧ firstTwice.tupleKeys = ["blogs", "blogs"] ∧
      c.query.tuple [("t1__id", .integer 1), ("t2__id", .integer 1)] =
        .composite [("blogs", some firstRecord), ("blogs", some firstRecord)] ∧
      ¬ ReadAlike [("blogs", some firstRecord), ("blogs", some firstRecord)] := by
  constructor
  · obtain ⟨c, hcompile, -, hreaders⟩ := compile_readers reachable
      (show firstPosts ∈ algebra.relations by decide)
    have hrun : (compile firstPosts).map (fun c => c.query.tuple [("t1__id", .integer 1)]) =
        .ok (.composite [("blogs", some firstRecord), ("posts", none)]) := by decide +kernel
    rw [hcompile] at hrun
    have htuple := Except.ok.inj hrun
    have hkeys : firstPosts.tupleKeys = ["blogs", "posts"] := by decide
    refine ⟨c, hcompile, hkeys, htuple, ?_⟩
    refine (((hreaders _).2 _ htuple).2.2.2 ?_).2 (by decide)
    intro t ht
    have hcases : t = blogs ∨ t = posts := by simpa [holders, firstPosts, first] using ht
    rcases hcases with rfl | rfl
    · decide
    · decide
  · obtain ⟨c, hcompile, -, hreaders⟩ := compile_readers reachable_mirrored
      (show firstTwice ∈ mirrored.relations by decide)
    have hrun : (compile firstTwice).map (fun c =>
        c.query.tuple [("t1__id", .integer 1), ("t2__id", .integer 1)]) =
        .ok (.composite [("blogs", some firstRecord), ("blogs", some firstRecord)]) := by
      decide +kernel
    rw [hcompile] at hrun
    have htuple := Except.ok.inj hrun
    have hkeys : firstTwice.tupleKeys = ["blogs", "blogs"] := by decide
    refine ⟨c, hcompile, hkeys, htuple, fun halike => ?_⟩
    have hnodup := (((hreaders _).2 _ htuple).2.2.1.1 halike).1
    rw [hkeys] at hnodup
    simp at hnodup

end

end Sql

end RelationalAlgebra
