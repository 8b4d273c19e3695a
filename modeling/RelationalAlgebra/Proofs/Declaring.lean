import RelationalAlgebra.Proofs.AskedColumns
import RelationalAlgebra.Proofs.Finding

/-!
# Declaring the tables of a schema

A schema is declared table by table, each at once if it can be, and nothing is taken back when one
cannot.  What a table becomes depends on its columns alone: a column that is described again keeps
its place and takes the later type (`columns_names`, `columns_types`).

* `Arena.withTable` is an arena with one more table, and nothing else that is new (`createTable_on`).
* `Arena.Takes` puts one table after the other into an arena, where each has types that are known
  and a name that is new.
* `Arena.Offends` says of a table what stands against it behind the tables before it: its first
  unknown type, or else that its name is taken.
* `Arena.Shows` says of a handle that the table as described is found there, with its columns.

The main statement is `Arena.declare_until`: declaring goes as far as the first table that offends.
-/

namespace RelationalAlgebra

open QualifiedName
open List (Forall₂)

/-! ## The types of columns -/

/-- The type is one of the known ones, in any letter case. -/
def ColumnSchema.Recognised (c : ColumnSchema) : Prop :=
  Text.lowercase c.type ∈
    ["integer", "int", "string", "text", "boolean", "bool", "datetime", "timestamp"]

/-- The column is described with this type. -/
def ColumnSchema.Describes (c : ColumnSchema) (column : String × ColumnType) : Prop :=
  column.1 = c.name ∧ ColumnType.ofName? (Text.lowercase c.type) = some column.2

theorem ColumnSchema.ofName?_isSome_iff (c : ColumnSchema) :
    (ColumnType.ofName? (Text.lowercase c.type)).isSome ↔ c.Recognised := by
  unfold ColumnType.ofName? ColumnSchema.Recognised
  generalize Text.lowercase c.type = name
  split_ifs <;> simp_all [← or_assoc]

theorem ColumnSchema.Describes.recognised {c : ColumnSchema} {column : String × ColumnType}
    (h : c.Describes column) : c.Recognised := by
  rw [← c.ofName?_isSome_iff, h.2]
  rfl

/-- The error for a type that is not known. -/
def ColumnSchema.unknownType (c : ColumnSchema) : Error :=
  .config ("unknown column type '" ++ Text.lowercase c.type ++ "'")

theorem ColumnSchema.typed_cases (c : ColumnSchema) :
    (∃ column, c.Describes column ∧ c.typed = .ok column) ∨
      ¬ c.Recognised ∧ c.typed = .error c.unknownType := by
  rw [← c.ofName?_isSome_iff]
  unfold ColumnSchema.typed ColumnType.parse
  cases htype : ColumnType.ofName? (Text.lowercase c.type) with
  | some type => exact .inl ⟨(c.name, type), ⟨rfl, htype⟩, rfl⟩
  | none => exact .inr ⟨by simp, rfl⟩

/-- Either all columns have a known type, or there is a first one that has none. -/
theorem typed_columns_cases (columns : List ColumnSchema) :
    (∃ typed, columns.mapM ColumnSchema.typed = .ok typed ∧
      Forall₂ ColumnSchema.Describes columns typed) ∨
    ∃ before c after, columns = before ++ c :: after ∧ (∀ d ∈ before, d.Recognised) ∧
      ¬ c.Recognised ∧ columns.mapM ColumnSchema.typed = .error c.unknownType := by
  induction columns with
  | nil => exact .inl ⟨[], rfl, .nil⟩
  | cons c rest ih =>
    rw [List.mapM_cons]
    rcases c.typed_cases with ⟨column, hcolumn, htyped⟩ | ⟨hunknown, htyped⟩
    · rw [htyped]
      rcases ih with ⟨typed, hrest, hall⟩ | ⟨before, d, after, rfl, hbefore, hunknown, hrest⟩
      · refine .inl ⟨column :: typed, ?_, .cons hcolumn hall⟩
        rw [hrest]
        rfl
      · refine .inr ⟨c :: before, d, after, rfl, ?_, hunknown, ?_⟩
        · exact List.forall_mem_cons.2 ⟨hcolumn.recognised, hbefore⟩
        · rw [hrest]
          rfl
    · refine .inr ⟨[], c, rest, rfl, by simp, hunknown, ?_⟩
      rw [htyped]
      rfl

theorem recognised_of_described {columns : List ColumnSchema} {typed : List (String × ColumnType)}
    (h : Forall₂ ColumnSchema.Describes columns typed) : ∀ c ∈ columns, c.Recognised := by
  induction h with
  | nil => simp
  | cons hcolumn _ ih => exact List.forall_mem_cons.2 ⟨hcolumn.recognised, ih⟩

/-! ## The columns of a table -/

section

variable {id : Nat} {name : String}

/-- A column that is declared has its type from then on, and the others keep theirs. -/
theorem declareColumn_type {columns : List Column} {name : String} {type : ColumnType} {c : Column}
    (h : c ∈ declareColumn columns name type) :
    (c.name = name ∧ c.type = type) ∨ (c.name ≠ name ∧ c ∈ columns) := by
  rw [declareColumn] at h
  split at h
  · obtain ⟨d, hd, rfl⟩ := List.mem_map.1 h
    by_cases hname : d.name = name
    · exact .inl (by simp [hname])
    · exact .inr (by simpa [hname] using hd)
  · next hnew =>
    rcases List.mem_append.1 h with h | h
    · refine .inr ⟨fun hname => hnew ?_, h⟩
      exact List.any_eq_true.2 ⟨c, h, by simpa using hname⟩
    · rw [List.mem_singleton.1 h]
      exact .inl ⟨rfl, rfl⟩

/-- The columns stand in the order in which their names first occur. -/
theorem columns_names (columns : List (String × ColumnType)) :
    (Table.declare id name columns).columns.map (·.name) = (columns.map (·.1)).eraseDups := by
  induction columns using List.reverseRecOn with
  | nil => rfl
  | append_singleton columns column ih =>
    simp only [Table.declare] at ih ⊢
    rw [List.foldl_append, List.foldl_cons, List.foldl_nil, Algebra.declareColumn_names, ih,
      List.map_append, List.map_singleton, eraseDups_concat]
    simp only [List.mem_eraseDups]

/-- Each column has the type with which its name occurs last. -/
theorem columns_types (columns : List (String × ColumnType)) :
    ∀ c ∈ (Table.declare id name columns).columns,
      columns.reverse.lookup c.name = some c.type := by
  induction columns using List.reverseRecOn with
  | nil => simp [Table.declare]
  | append_singleton columns column ih =>
    intro c hc
    simp only [Table.declare] at ih hc
    rw [List.foldl_append, List.foldl_cons, List.foldl_nil] at hc
    rw [List.reverse_append, List.reverse_singleton, List.singleton_append, List.lookup_cons]
    rcases declareColumn_type hc with ⟨hname, htype⟩ | ⟨hname, hmem⟩
    · rw [beq_iff_eq.2 hname, htype]
    · rw [beq_eq_false_iff_ne.2 hname]
      exact ih c hmem

/-- What is looked up among the typed columns is described by the first column of that name. -/
theorem describes_of_lookup {columns : List ColumnSchema} {typed : List (String × ColumnType)}
    {name : String} {type : ColumnType} (h : Forall₂ ColumnSchema.Describes columns typed)
    (hlookup : typed.lookup name = some type) :
    ∃ c, columns.find? (·.name == name) = some c ∧ c.Describes (name, type) := by
  induction h with
  | nil => cases hlookup
  | @cons c column columns typed hcolumn _ ih =>
    rw [List.lookup_cons] at hlookup
    rw [List.find?_cons]
    by_cases hname : name = column.1
    · rw [beq_iff_eq.2 hname] at hlookup
      have hfound : (c.name == name) = true := by simp [hname, hcolumn.1]
      rw [hfound]
      refine ⟨c, rfl, hname.trans hcolumn.1, ?_⟩
      rw [hcolumn.2, Option.some.inj hlookup]
    · rw [beq_eq_false_iff_ne.2 hname] at hlookup
      have hother : (c.name == name) = false := by
        rw [beq_eq_false_iff_ne, ← hcolumn.1]
        exact Ne.symm hname
      rw [hother]
      exact ih hlookup

end

/-- A plain name is looked up at the place of its column. -/
theorem get?_plain {t : Table} (hnodup : (t.columns.map (·.name)).Nodup) {i : Nat} {c : Column}
    (hc : t.columns[i]? = some c) (hplain : isQualified c.name = false) :
    t.position? c.name = some i ∧ t.get? c.name = some c := by
  have hplace : t.position? c.name = some i :=
    (Table.position?_eq_some_iff hnodup hc).2 (Table.ownName?_of_plain hplain)
  refine ⟨hplace, ?_⟩
  rw [Table.get?, hplace]
  exact hc

namespace Arena

/-! ## One more table -/

/-- The memo of a table whose columns have the handles from `first` on. -/
def tableMemo (t : Table) (first : Nat) : Memo :=
  t.columns.zipIdx.foldl
    (fun memo (c, i) => memo.insert (first + i) (.column (.declared t.id i)) c.name) .empty

/-- The columns of a table as it shows them. -/
def tableColumns (t : Table) : List Derived :=
  t.columns.zipIdx.map fun (c, i) => ⟨t.id, .column (.declared t.id i), none, c.name⟩

/-- The arena with one more table. -/
def withTable (a : Arena) (t : Table) : Arena where
  nodes := a.nodes ++ [⟨.table t, tableMemo t a.derived.length⟩]
  derived := a.derived ++ tableColumns t
  tablesByName := (t.name, a.nodes.length) :: a.tablesByName

variable {a a' : Arena} {t u : TableSchema} {tables before : List TableSchema}

/-- A declared column that is not shown yet is shown under its name. -/
theorem derive_declared {owner i : Nat} {memo : Memo} (a : Arena) (name : String)
    (hnew : memo.byAncestor.lookup (.column (.declared owner i)) = none) :
    (derive owner memo (.column (.declared owner i)) (some name)).on a =
      (.ok (a.derived.length, memo.insert a.derived.length (.column (.declared owner i)) name),
        a.withColumn ⟨owner, .column (.declared owner i), none, name⟩) := by
  unfold derive
  simp only [Expr.stripAlias, hnew]
  rfl

/-- The columns of a table are put in one behind the other. -/
theorem derive_all {a : Arena} {first k : Nat} (owner : Nat) (memo : Memo) (columns : List Column)
    (hfirst : a.derived.length = first + k)
    (hnew : ∀ i, k ≤ i → memo.byAncestor.lookup (.column (.declared owner i)) = none) :
    ((columns.zipIdx k).foldlM (fun memo (c, i) => do
        return (← derive owner memo (.column (.declared owner i)) (some c.name)).2) memo :
        Work Memo).on a =
      (.ok ((columns.zipIdx k).foldl
          (fun memo (c, i) => memo.insert (first + i) (.column (.declared owner i)) c.name) memo),
        { a with derived := a.derived ++ (columns.zipIdx k).map fun (c, i) =>
            ⟨owner, .column (.declared owner i), none, c.name⟩ }) := by
  induction columns generalizing a memo k with
  | nil =>
    rw [List.zipIdx_nil, List.map_nil, List.append_nil]
    rfl
  | cons c rest ih =>
    have hderive := derive_declared a c.name (hnew k (Nat.le_refl k))
    rw [hfirst] at hderive
    rw [List.zipIdx_cons, List.foldlM_cons]
    have hstep : (do return (← derive owner memo (.column (.declared owner k)) (some c.name)).2 :
        Work Memo).on a = _ := on_bind_ok hderive
    rw [on_bind_ok hstep]
    have hlength : (a.withColumn ⟨owner, .column (.declared owner k), none, c.name⟩).derived.length =
        first + (k + 1) := by
      simp [withColumn, hfirst, Nat.add_assoc]
    refine (ih _ hlength fun i hi => ?_).trans ?_
    · rw [Memo.insert, List.lookup_cons, beq_eq_false_iff_ne.2, hnew i (by omega)]
      intro heq
      have hplace := (ColumnHandle.declared.inj (Expr.column.inj heq)).2
      omega
    · rw [List.foldl_cons, List.map_cons, withColumn, List.append_assoc]
      rfl

/-- Declaring a table adds it, unless there is one of its name, and then nothing happens. -/
theorem createTable_on (a : Arena) (name : String) (columns : List (String × ColumnType)) :
    (createTable name columns).on a =
      if (a.tableNamed? name).isSome then (.error (.failure (.duplicateTable name)), a)
      else (.ok a.nodes.length, a.withTable (.declare a.nodes.length name columns)) := by
  have hlook : (look fun a => .ok (a.tableNamed? name)).on a = (.ok (a.tableNamed? name), a) := rfl
  have hnext : next.on a = (.ok a.nodes.length, a) := rfl
  refine (on_bind_ok hlook).trans ?_
  by_cases htaken : (a.tableNamed? name).isSome
  · simp only [if_pos htaken]
    exact on_bind_error rfl
  · simp only [if_neg htaken]
    have hderive := derive_all a.nodes.length .empty
      (Table.declare a.nodes.length name columns).columns (Nat.add_zero a.derived.length).symm
      (by simp [Memo.empty])
    refine (on_bind_ok hnext).trans ((on_bind_ok hderive).trans ?_)
    rfl

/-! ## One table after the other -/

/-- What an arena takes in: tables that can be declared one after the other, and the arena after them. -/
inductive Takes : (a : Arena) → (tables : List TableSchema) → (a' : Arena) → Prop
  | nil {a : Arena} : Takes a [] a
  | cons {a a' : Arena} {t : TableSchema} {tables : List TableSchema}
      {typed : List (String × ColumnType)}
      (columns : Forall₂ ColumnSchema.Describes t.columns typed)
      (fresh : a.tableNamed? t.name = none)
      (rest : Takes (a.withTable (.declare a.nodes.length t.name typed)) tables a') :
      Takes a (t :: tables) a'

/-- What stands against a table behind the tables before it. -/
inductive Offends (a : Arena) (before : List TableSchema) (t : TableSchema) : Error → Prop
  /-- The first type that is not known. -/
  | type {known more : List ColumnSchema} {c : ColumnSchema}
      (columns : t.columns = known ++ c :: more) (recognised : ∀ d ∈ known, d.Recognised)
      (unknown : ¬ c.Recognised) : Offends a before t c.unknownType
  /-- All types are known, but the name is taken. -/
  | name (recognised : ∀ c ∈ t.columns, c.Recognised)
      (taken : t.name ∈ before.map (·.name) ∨ (a.tableNamed? t.name).isSome) :
      Offends a before t (.duplicateTable t.name)

/-- All types are known and all names are new. -/
structure Declarable (a : Arena) (tables : List TableSchema) : Prop where
  recognised : ∀ t ∈ tables, ∀ c ∈ t.columns, c.Recognised
  distinct : (tables.map (·.name)).Nodup
  fresh : ∀ t ∈ tables, a.tableNamed? t.name = none

theorem tableNamed?_withTable (a : Arena) (table : Table) (name : String) :
    (a.withTable table).tableNamed? name = none ↔
      name ≠ table.name ∧ a.tableNamed? name = none := by
  rw [tableNamed?, tableNamed?, withTable, List.lookup_cons]
  by_cases hname : name = table.name
  · simp [hname]
  · simp [beq_eq_false_iff_ne.2 hname, hname]

/-- What stands against a table stands against it behind one more table. -/
theorem Offends.cons {table : Table} {e : Error} (hname : table.name = t.name)
    (h : Offends (a.withTable table) before u e) : Offends a (t :: before) u e := by
  cases h with
  | type columns recognised unknown => exact .type columns recognised unknown
  | name recognised taken =>
    refine .name recognised ?_
    have hnone := tableNamed?_withTable a table u.name
    rw [hname] at hnone
    rw [List.map_cons, List.mem_cons, or_assoc, or_left_comm]
    refine taken.imp_right fun hsome => ?_
    by_contra hnot
    rw [not_or, Bool.not_eq_true, Option.isSome_eq_false_iff, Option.isNone_iff_eq_none] at hnot
    rw [hnone.2 hnot] at hsome
    cases hsome

/-- Tables that can be declared have known types and new names. -/
theorem Takes.declarable (h : Takes a tables a') : Declarable a tables := by
  induction h with
  | nil => exact ⟨by simp, List.nodup_nil, by simp⟩
  | @cons a a' t rest typed columns fresh _ ih =>
    have hrest := fun u hu => (tableNamed?_withTable a _ u.name).1 (ih.fresh u hu)
    constructor
    · exact List.forall_mem_cons.2 ⟨recognised_of_described columns, ih.recognised⟩
    · rw [List.map_cons, List.nodup_cons]
      refine ⟨fun hmem => ?_, ih.distinct⟩
      obtain ⟨u, hu, hname⟩ := List.mem_map.1 hmem
      exact (hrest u hu).1 hname
    · exact List.forall_mem_cons.2 ⟨fresh, fun u hu => (hrest u hu).2⟩

/-- Nothing stands against a table that can be declared with those before it. -/
theorem Declarable.not_offends {after : List TableSchema} {e : Error}
    (h : Declarable a (before ++ t :: after)) : ¬ Offends a before t e := by
  have hmem : t ∈ before ++ t :: after := by simp
  intro hoffends
  cases hoffends with
  | @type known more c columns recognised unknown =>
    exact unknown (h.recognised t hmem c (by simp [columns]))
  | name recognised taken =>
    rcases taken with hbefore | hsome
    · have hdistinct := h.distinct
      rw [List.map_append, List.map_cons, List.nodup_append] at hdistinct
      exact hdistinct.2.2 t.name hbefore t.name (List.mem_cons_self ..) rfl
    · rw [h.fresh t hmem] at hsome
      cases hsome

/-- One table of a schema. -/
theorem declareTable_on (t : TableSchema) (a : Arena) :
    (∃ typed, Forall₂ ColumnSchema.Describes t.columns typed ∧ a.tableNamed? t.name = none ∧
      (check (t.columns.mapM ColumnSchema.typed) >>= createTable t.name).on a =
        (.ok a.nodes.length, a.withTable (.declare a.nodes.length t.name typed))) ∨
    ∃ e, Offends a [] t e ∧
      (check (t.columns.mapM ColumnSchema.typed) >>= createTable t.name).on a =
        (.error (.failure e), a) := by
  have hcheck := on_check (t.columns.mapM ColumnSchema.typed) a
  rcases typed_columns_cases t.columns with ⟨typed, htyped, hcolumns⟩ |
    ⟨known, c, more, hcolumns, hknown, hunknown, htyped⟩
  · rw [htyped] at hcheck ⊢
    rw [on_bind_ok hcheck, createTable_on]
    by_cases htaken : (a.tableNamed? t.name).isSome
    · rw [if_pos htaken]
      exact .inr ⟨_, .name (recognised_of_described hcolumns) (.inr htaken), rfl⟩
    · rw [if_neg htaken]
      exact .inl ⟨typed, hcolumns, by simpa using htaken, rfl⟩
  · rw [htyped] at hcheck ⊢
    exact .inr ⟨_, .type hcolumns hknown hunknown, on_bind_error hcheck⟩

/-- Declaring goes on until a table offends, and what was declared until then stays. -/
theorem declare_on (tables : List TableSchema) (a : Arena) :
    ∃ before after a', tables = before ++ after ∧ Takes a before a' ∧
      (after = [] →
        (declare ⟨tables⟩).on a = (.ok (List.range' a.nodes.length before.length), a')) ∧
      ∀ t rest, after = t :: rest →
        ∃ e, Offends a before t e ∧ (declare ⟨tables⟩).on a = (.error (.failure e), a') := by
  induction tables generalizing a with
  | nil => exact ⟨[], [], a, rfl, .nil, fun _ => rfl, by simp⟩
  | cons t rest ih =>
    have hcons : declare ⟨t :: rest⟩ =
        (check (t.columns.mapM ColumnSchema.typed) >>= createTable t.name) >>= fun n =>
          declare ⟨rest⟩ >>= fun handles => pure (n :: handles) := List.mapM_cons
    rw [hcons]
    rcases declareTable_on t a with ⟨typed, hcolumns, hfresh, hrun⟩ | ⟨e, hoffends, hrun⟩
    · obtain ⟨before, after, a', rfl, htakes, hall, hstop⟩ :=
        ih (a.withTable (.declare a.nodes.length t.name typed))
      refine ⟨t :: before, after, a', rfl, .cons hcolumns hfresh htakes, fun hafter => ?_,
        fun u more hafter => ?_⟩
      · rw [on_bind_ok hrun, on_bind_ok (hall hafter), List.length_cons, List.range'_succ]
        simp only [withTable, List.length_append, List.length_singleton]
        rfl
      · obtain ⟨e, hoffends, hrest⟩ := hstop u more hafter
        refine ⟨e, hoffends.cons rfl, ?_⟩
        rw [on_bind_ok hrun]
        exact on_bind_error hrest
    · refine ⟨[], t :: rest, a, rfl, .nil, by simp, fun u more hafter => ?_⟩
      obtain ⟨rfl, rfl⟩ := List.cons.inj hafter
      exact ⟨e, hoffends, on_bind_error hrun⟩

/-! ## What is declared -/

/-- The arena shows the table as it is described, under this handle. -/
structure Shows (a : Arena) (handle : Nat) (t : TableSchema) (table : Table) : Prop where
  stored : a.table handle = .ok table
  name : table.name = t.name
  found : a.tableNamed? t.name = some handle
  /-- The columns stand in the order in which their names first occur. -/
  names : table.columns.map (·.name) = (t.columns.map (·.name)).eraseDups
  /-- A column has the type with which its name occurs last. -/
  types : ∀ c ∈ table.columns, ∃ d, t.columns.reverse.find? (·.name == c.name) = some d ∧
    d.Describes (c.name, c.type)
  shown : a.columnNames handle = .ok (table.columns.map (·.name))
  /-- A plain name is looked up at the place of its column. -/
  plain : ∀ (i : Nat) (c : Column), table.columns[i]? = some c → isQualified c.name = false →
    table.get? c.name = some c ∧ a.columnPlace handle c.name = .ok (some i)

/-- What an arena takes in comes behind what was there. -/
theorem Takes.nodes (h : Takes a tables a') : a.nodes <+: a'.nodes := by
  induction h with
  | nil => exact List.prefix_rfl
  | cons _ _ _ ih => exact (List.prefix_append _ _).trans ih

/-- Every table gets the next handle. -/
theorem Takes.exists_node (h : Takes a tables a') {i : Nat} (ht : tables[i]? = some t) :
    ∃ typed memo, Forall₂ ColumnSchema.Describes t.columns typed ∧
      a'.nodes[a.nodes.length + i]? =
        some ⟨.table (.declare (a.nodes.length + i) t.name typed), memo⟩ := by
  induction h generalizing i with
  | nil => cases ht
  | @cons a a' u tables typed columns fresh rest ih =>
    cases i with
    | zero =>
      obtain rfl := Option.some.inj ht
      obtain ⟨more, hmore⟩ := rest.nodes
      refine ⟨typed, tableMemo (.declare a.nodes.length u.name typed) a.derived.length, columns, ?_⟩
      rw [← hmore]
      simp [withTable]
    | succ i =>
      obtain ⟨typed', memo, hcolumns, hnode⟩ := ih ht
      have hplace : (a.withTable (.declare a.nodes.length u.name typed)).nodes.length + i =
          a.nodes.length + (i + 1) := by
        simp [withTable]
        omega
      rw [hplace] at hnode
      exact ⟨typed', memo, hcolumns, hnode⟩

/-- A declared table is shown as it is described. -/
theorem Stores.shows {b : Algebra} {handle : Nat} {typed : List (String × ColumnType)} {memo : Memo}
    (h : Stores a b) (hcolumns : Forall₂ ColumnSchema.Describes t.columns typed)
    (hnode : a.nodes[handle]? = some ⟨.table (.declare handle t.name typed), memo⟩) :
    Shows a handle t (.declare handle t.name typed) := by
  obtain ⟨hmem, -⟩ := h.table_mem hnode
  have hnodup := h.sound.table_columns_nodup hmem
  have hnames : typed.map (·.1) = t.columns.map (·.name) := by
    rw [← List.forall₂_eq_eq_eq, List.forall₂_map_left_iff, List.forall₂_map_right_iff]
    exact hcolumns.flip.imp fun c column hdescribes => hdescribes.1
  constructor
  case stored => exact h.table_eq hmem
  case name => rfl
  case found => exact h.tableNamed?_eq_some_iff.2 ⟨_, memo, hnode, rfl⟩
  case names => rw [columns_names, hnames]
  case types =>
    intro c hc
    exact describes_of_lookup (List.forall₂_reverse_iff.2 hcolumns) (columns_types typed c hc)
  case shown =>
    have hshown := h.columnNames_eq hmem
    rwa [Relation.columnNames_table] at hshown
  case plain =>
    intro i c hc hplain
    obtain ⟨hplace, hget⟩ := get?_plain hnodup hc hplain
    have hfind := h.columnPlace_eq hmem c.name
    rw [Relation.find?, hplace] at hfind
    exact ⟨hget, hfind⟩

/-! ## The main statement -/

/-- A schema is declared exactly if all types are known and all names are new, and then every table
gets the next handle in order.  Otherwise declaring stops at the first table that offends, and the
arena has taken in those before it and nothing else.  What was declared is shown as it is described. -/
theorem declare_until (h : Reached a) (schema : Schema) :
    ((∃ handles, ((declare schema).on a).1 = .ok handles) ↔ Declarable a schema.tables) ∧
    ∃ before after a', schema.tables = before ++ after ∧ Takes a before a' ∧
      (after = [] →
        (declare schema).on a = (.ok (List.range' a.nodes.length before.length), a')) ∧
      (∀ t rest, after = t :: rest →
        ∃ e, Offends a before t e ∧ (declare schema).on a = (.error (.failure e), a')) ∧
      ∀ i t, before[i]? = some t → ∃ table, Shows a' (a.nodes.length + i) t table := by
  obtain ⟨before, after, a', htables, htakes, hall, hstop⟩ := declare_on schema.tables a
  refine ⟨?_, before, after, a', htables, htakes, hall, hstop, fun i t ht => ?_⟩
  · cases after with
    | nil =>
      rw [List.append_nil] at htables
      rw [hall rfl, htables]
      exact ⟨fun _ => htakes.declarable, fun _ => ⟨_, rfl⟩⟩
    | cons t rest =>
      obtain ⟨e, hoffends, hrun⟩ := hstop t rest rfl
      rw [hrun, htables]
      refine ⟨fun ⟨handles, hok⟩ => ?_, fun hdeclarable => ?_⟩
      · cases hok
      · exact absurd hoffends hdeclarable.not_offends
  · have harena : ((declare schema).on a).2 = a' := by
      cases after with
      | nil => rw [hall rfl]
      | cons t rest =>
        obtain ⟨e, -, hrun⟩ := hstop t rest rfl
        rw [hrun]
    obtain ⟨b, -, hstores⟩ := (h.declare schema).sound
    rw [harena] at hstores
    obtain ⟨typed, memo, hcolumns, hnode⟩ := htakes.exists_node ht
    exact ⟨_, hstores.shows hcolumns hnode⟩

/-- Two tables, the first of which describes a column twice. -/
def lending : Schema :=
  ⟨[⟨"loans", [⟨"book", "Integer"⟩, ⟨"note", "int"⟩, ⟨"note", "TEXT"⟩]⟩,
    ⟨"readers", [⟨"id", "int"⟩]⟩]⟩

/-- Both tables get a handle behind the books, and the note is a text; but the books cannot be declared
once more behind the readers. -/
theorem declare_until_shelf :
    Reached shelf ∧ ((declare lending).on shelf).1 = .ok [1, 2] ∧
    (∃ table, Shows ((declare lending).on shelf).2 1
        ⟨"loans", [⟨"book", "Integer"⟩, ⟨"note", "int"⟩, ⟨"note", "TEXT"⟩]⟩ table ∧
      table.columns = [⟨"book", .integer⟩, ⟨"note", .string⟩]) ∧
    ¬ Declarable shelf [⟨"readers", [⟨"id", "int"⟩]⟩, ⟨"books", []⟩] := by
  have hall : ((declare lending).on shelf).1 = .ok [1, 2] := by cbv
  obtain ⟨-, before, after, a', htables, -, hdone, hstop, hshows⟩ :=
    declare_until shelf_reached lending
  have hafter : after = [] := by
    cases after with
    | nil => rfl
    | cons t rest =>
      obtain ⟨e, -, hrun⟩ := hstop t rest rfl
      rw [hrun] at hall
      cases hall
  have harena : ((declare lending).on shelf).2 = a' := by rw [hdone hafter]
  rw [hafter, List.append_nil] at htables
  obtain ⟨table, hloans⟩ := hshows 0 ⟨"loans", [⟨"book", "Integer"⟩, ⟨"note", "int"⟩,
    ⟨"note", "TEXT"⟩]⟩ (by rw [← htables]; rfl)
  have hlength : shelf.nodes.length + 0 = 1 := by cbv
  rw [← harena, hlength] at hloans
  have hstored : ((declare lending).on shelf).2.table 1 =
      .ok ⟨1, "loans", [⟨"book", .integer⟩, ⟨"note", .string⟩]⟩ := by cbv
  refine ⟨shelf_reached, hall, ⟨table, hloans, ?_⟩, fun hdeclarable => ?_⟩
  · rw [← Except.ok.inj (hstored.symm.trans hloans.stored)]
  · have hbooks := (declare_until shelf_reached
      ⟨[⟨"readers", [⟨"id", "int"⟩]⟩, ⟨"books", []⟩]⟩).1.2 hdeclarable
    obtain ⟨handles, hok⟩ := hbooks
    have htaken : ((declare ⟨[⟨"readers", [⟨"id", "int"⟩]⟩, ⟨"books", []⟩]⟩).on shelf).1 =
        .error (.failure (.duplicateTable "books")) := by cbv
    rw [htaken] at hok
    cases hok

end Arena

end RelationalAlgebra
