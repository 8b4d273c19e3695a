import RelationalAlgebra.Proofs.Naming
import RelationalAlgebra.Proofs.Scope

/-!
# What a qualified reference can mean

Within one `SELECT` a reference is qualified with the name of a unit of the `FROM` clause: the name of
a base table, or a label `t1`, `t2`, … that was given to a subquery.  Labels are all different, and so
are the names of the tables, but nothing keeps a table from being called `t1`.

* `Within` goes from a query to its subqueries at every depth, and `Compiles.of_within` says that
  each of these is the query of a relation again, with every property that relations pass on to their
  operands.
* `Query.Unambiguous` says that the units of a query have different names, so that each reference
  denotes one of them.

The main statement is `compile_qualifiers`: a `SELECT` is unambiguous exactly when no table in its
`FROM` clause is called as a subquery beside it, and so every one is if no table is called like a label.
-/

namespace RelationalAlgebra.Sql

/-! ## Queries within queries -/

/-- A query is within itself and within every query that has it as a subquery, at any depth. -/
inductive Within : Query → Query → Prop
  | self {q : Query} : Within q q
  | unit {q inner s : Query} {relation : Relation} {label : String}
      {exposed : List (Option String)}
      (mem : FromUnit.subquery relation label exposed inner ∈ q.units) (within : Within inner s) :
      Within q s

/-- A property that a relation passes on to its operands. -/
structure Inherited (P : Relation → Prop) : Prop where
  selection : ∀ {id operand condition}, P (.selection id operand condition) → P operand
  projection : ∀ {id operand whole shown}, P (.projection id operand whole shown) → P operand
  left : ∀ {id kind left right condition}, P (.join id kind left right condition) → P left
  right : ∀ {id kind left right condition}, P (.join id kind left right condition) → P right

/-- The operands of a relation of the algebra are relations of the algebra. -/
theorem inherited_mem {a : Algebra} (ha : a.Sound) : Inherited (· ∈ a.relations) where
  selection h := (ha.selection_operand h).1
  projection h := (ha.projection_operand h).1
  left h := (ha.join_left h).1
  right h := (ha.join_right h).1

section

variable {M : Relation → Prop} {root r : Relation} {n n' : Numbering} {q s : Query}
  {columns : List SqlExpr} {source : Source} {units : List FromUnit} {u : FromUnit}

/-- Each unit of a `FROM` clause stands for one of the operands of its joins. -/
theorem Lays.exists_stands (hM : Inherited M) (hr : M r) (h : Lays r n source units n')
    (hu : u ∈ units) : ∃ s, M s ∧ ∃ n₁ n₂, Stands s n₁ u n₂ := by
  induction h using Lays.chainInduction with
  | leaf hleaf stands =>
    obtain rfl := List.mem_singleton.1 hu
    exact ⟨_, hr, _, _, stands⟩
  | join lays stands fills ih =>
    rcases List.mem_append.1 hu with hu | hu
    · exact ih (hM.left hr) hu
    · obtain rfl := List.mem_singleton.1 hu
      exact ⟨_, hM.right hr, _, _, stands⟩

/-- The units of a query are the `FROM` clause of the relation or of one below it. -/
theorem Compiles.exists_lays (hM : Inherited M) (hr : M r)
    (h : Compiles root r n q columns n') :
    ∃ s, M s ∧ ∃ n₁ source n₂, Lays s n₁ source q.units n₂ := by
  induction r generalizing q columns n' with
  | table t =>
    cases h with
    | table => exact ⟨_, hr, n, _, n, .leaf rfl .table⟩
  | selection id operand condition ih =>
    cases h with
    | selection compiles fills =>
      have hoperand := ih (hM.selection hr) compiles
      exact hoperand
  | projection id operand whole shown ih =>
    cases h with
    | projection compiles fills =>
      simpa using ih (hM.projection hr) compiles
  | join id kind left right condition ihl ihr =>
    cases h with
    | join lays => exact ⟨_, hr, n, _, n', lays⟩

/-- What is within the query of a relation is the query of the relation or of one below it. -/
theorem Compiles.of_within (hM : Inherited M) (hr : M r) (h : Compiles root r n q columns n')
    (hs : Within q s) :
    ∃ root' r', M r' ∧ ∃ n₁ columns' n₂, Compiles root' r' n₁ s columns' n₂ := by
  induction hs generalizing root r n columns n' with
  | self => exact ⟨root, r, hr, n, columns, n', h⟩
  | unit mem within ih =>
    obtain ⟨core, hcore, _, _, _, lays⟩ := h.exists_lays hM hr
    obtain ⟨r', hr', _, _, stands⟩ := lays.exists_stands hM hcore mem
    cases stands with
    | subquery nested compiles => exact ih hr' compiles

end

variable {a : Algebra} {root r : Relation} {n n' : Numbering} {q s : Query}
  {columns : List SqlExpr} {source : Source} {units : List FromUnit} {P : SqlColumn → Prop}

/-! ## References -/

/-- Every column reference in the conditions of the joins has the property. -/
def Source.All (P : SqlColumn → Prop) : Source → Prop
  | .unit _ => True
  | .join _ left _ condition => left.All P ∧ condition.All P

/-- Every column reference of a query has the property; those of its subqueries are not its own. -/
structure Query.All (P : SqlColumn → Prop) (q : Query) : Prop where
  entries : ∀ list, q.entries = some list → ∀ entry ∈ list, entry.expr.All P
  source : ∀ source, q.source = some source → source.All P
  conditions : ∀ condition ∈ q.conditions, condition.All P

/-- The reference is qualified with the name of one unit and of no other one. -/
def DenotesOne (units : List FromUnit) (c : SqlColumn) : Prop :=
  ∃! place : Nat, ∃ u, units[place]? = some u ∧ u.qualifier.name = c.qualifier.name

/-- The units have different names, and each reference denotes one of them. -/
structure Query.Unambiguous (q : Query) : Prop where
  names : (q.units.map (·.qualifier.name)).Nodup
  references : Query.All (DenotesOne q.units) q

theorem Source.Scoped.all (h : source.Scoped units) (hP : ∀ places c, Exposes units places c → P c) :
    source.All P := by
  induction source with
  | unit place => trivial
  | join kind left right condition ih => exact ⟨ih h.1, h.2.2.mono (hP _)⟩

/-- What every reference in scope has is true of all references. -/
theorem WellScoped.all (h : WellScoped q) (hP : ∀ places c, Exposes q.units places c → P c) :
    Query.All P q := by
  cases h with
  | intro source_eq joins entries conditions subqueries =>
    refine ⟨fun list hlist entry hentry => (entries list hlist entry hentry).mono (hP _), ?_,
      fun condition hcondition => (conditions condition hcondition).mono (hP _)⟩
    intro source hsource
    obtain rfl := Option.some.inj (source_eq.symm.trans hsource)
    exact joins.all hP

/-- Among units of different names a reference in scope denotes one. -/
theorem Exposes.denotesOne {places : List Nat} {c : SqlColumn} (h : Exposes units places c)
    (hnames : (units.map (·.qualifier.name)).Nodup) : DenotesOne units c := by
  obtain ⟨place, -, u, hu, hqualifier, -⟩ := h
  refine ⟨place, ⟨u, hu, by rw [hqualifier]⟩, ?_⟩
  rintro other ⟨v, hv, hname⟩
  have hplace := (List.getElem?_eq_some_iff.1 hv).1
  refine (List.getElem?_inj (by rwa [List.length_map]) hnames).1 ?_
  rw [List.getElem?_map, List.getElem?_map, hu, hv, Option.map_some, Option.map_some, hname,
    hqualifier]

/-! ## Qualifiers -/

/-- No table of the `FROM` clause is called as a subquery beside it. -/
def Query.TablesApart (q : Query) : Prop :=
  ∀ name, .table name ∈ q.units.map (·.qualifier) → .subquery name ∉ q.units.map (·.qualifier)

/-- Different qualifiers have different names, unless one is a table called as a subquery. -/
theorem names_nodup_iff {qualifiers : List Qualifier} (hnodup : qualifiers.Nodup) :
    (qualifiers.map (·.name)).Nodup ↔
      ∀ name, .table name ∈ qualifiers → .subquery name ∉ qualifiers := by
  constructor
  · intro hnames name htable hsubquery
    have heq := List.inj_on_of_nodup_map hnames htable hsubquery rfl
    cases heq
  · intro hapart
    refine hnodup.map_on ?_
    intro x hx y hy hname
    cases x with
    | table name =>
      cases y with
      | table name' => exact congrArg Qualifier.table hname
      | subquery label =>
        obtain rfl : name = label := hname
        exact absurd hy (hapart name hx)
    | subquery label =>
      cases y with
      | table name =>
        obtain rfl : label = name := hname
        exact absurd hx (hapart label hy)
      | subquery label' => exact congrArg Qualifier.subquery hname

/-- A query is unambiguous exactly when its tables are told apart from its subqueries. -/
theorem Compiles.unambiguous_iff (ha : a.Sound) (hr : r ∈ a.relations)
    (h : Compiles root r n q columns n') : q.Unambiguous ↔ q.TablesApart := by
  obtain ⟨core, hcore, _, _, _, lays⟩ := h.exists_lays (inherited_mem ha) hr
  have hnames := names_nodup_iff (lays.qualifiers_nodup ha hcore)
  rw [List.map_map] at hnames
  constructor
  · intro hunambiguous
    exact hnames.1 hunambiguous.names
  · intro hapart
    have hdistinct := hnames.2 hapart
    have hscoped := ((safe ha hr).whole h).1
    exact ⟨hdistinct, hscoped.all fun _ _ hexposed => hexposed.denotesOne hdistinct⟩

/-- Tables that are not called like labels are told apart from subqueries. -/
theorem Compiles.tablesApart (ha : a.Sound)
    (hlabel : ∀ t, Relation.table t ∈ a.relations → ∀ k, t.name ≠ labelOf k)
    (hr : r ∈ a.relations) (h : Compiles root r n q columns n') : q.TablesApart := by
  obtain ⟨core, hcore, _, _, _, lays⟩ := h.exists_lays (inherited_mem ha) hr
  intro name htable hsubquery
  obtain ⟨u, hu, hqualifier⟩ := List.mem_map.1 htable
  obtain ⟨v, hv, hqualifier'⟩ := List.mem_map.1 hsubquery
  rcases lays.labelled u hu with ⟨t, rfl⟩ | ⟨k, -, -, hlabelled⟩
  · rcases lays.labelled v hv with ⟨t', rfl⟩ | ⟨k, -, -, hlabelled⟩
    · cases hqualifier'
    · have hname := Qualifier.subquery.inj (hlabelled.symm.trans hqualifier')
      rw [← Qualifier.table.inj hqualifier] at hname
      exact hlabel t (lays.unit_mem ha hcore hu) k hname.symm
  · cases hlabelled.symm.trans hqualifier

/-! ## A table that is called like a label -/

namespace Called

/-- A table that is called like the first label. -/
def table : Table := ⟨0, "t1", [⟨"id", .integer⟩]⟩

/-- Another table. -/
def blogs : Table := ⟨1, "blogs", [⟨"id", .integer⟩]⟩

/-- A selection, which is the first subquery wherever it is joined. -/
def first : Relation := .selection 2 (.table blogs) (.equal (.column 0) (.literal (.integer 1)))

/-- The table beside the subquery. -/
def joined : Relation := .join 3 .inner (.table table) first (.equal (.column 0) (.column 1))

/-- The relations of the session. -/
def algebra : Algebra := ⟨[.table table, .table blogs, first, joined]⟩

theorem reachable : algebra.Reachable := by
  refine .step (a := ⟨[.table table, .table blogs, first]⟩)
    (.join .inner (.table table) first (.pairs [("t1__id", .column "blogs__id")]))
    (.step (a := ⟨[.table table, .table blogs]⟩)
      (.select (.table blogs) (.pairs [("id", .literal (.integer 1))]))
      (.step (a := ⟨[.table table]⟩) (.createTable "blogs" [("id", .integer)])
        (.step (.createTable "t1" [("id", .integer)]) .empty ?_) ?_) ?_) ?_
  all_goals decide

end Called

/-! ## The main statement -/

/-- A relation that a session built compiles, and each `SELECT` of the query, at every depth, is
unambiguous exactly when no table in its `FROM` clause is called as a subquery beside it.  If no table
of the session is called like a label, all of them are. -/
theorem compile_qualifiers (h : a.Reachable) (hr : r ∈ a.relations) :
    ∃ c, compile r = .ok c ∧ ∀ s, Within c.query s →
      (s.Unambiguous ↔ s.TablesApart) ∧
        ((∀ t, Relation.table t ∈ a.relations → ∀ k, t.name ≠ labelOf k) → s.Unambiguous) := by
  have ha := h.sound
  obtain ⟨c, columns, k, hcompile, hrules⟩ := exists_compiles ha hr
  refine ⟨c, hcompile, fun s hs => ?_⟩
  obtain ⟨root, r', hr', _, _, _, hrules'⟩ := hrules.of_within (inherited_mem ha) hr hs
  have hiff := hrules'.unambiguous_iff ha hr'
  exact ⟨hiff, fun hlabel => hiff.2 (hrules'.tablesApart ha hlabel hr')⟩

/-- The short session is unambiguous.  A table called `t1` beside the first subquery is not told apart
from it. -/
theorem compile_qualifiers_called :
    (∃ c, compile Sample.firstPosts = .ok c ∧ ∀ s, Within c.query s → s.Unambiguous) ∧
      ∃ c, compile Called.joined = .ok c ∧ c.query.units.map (·.qualifier.name) = ["t1", "t1"] ∧
        ¬ c.query.Unambiguous := by
  constructor
  · obtain ⟨c, hcompile, hlevels⟩ := compile_qualifiers Sample.reachable
      (show Sample.firstPosts ∈ Sample.algebra.relations by decide)
    exact ⟨c, hcompile, fun s hs => (hlevels s hs).2 Sample.plainTables.no_label⟩
  · obtain ⟨c, hcompile, hlevels⟩ := compile_qualifiers Called.reachable
      (show Called.joined ∈ Called.algebra.relations by decide)
    have hrun : (compile Called.joined).map (fun c => c.query.units.map (·.qualifier)) =
        .ok [.table "t1", .subquery "t1"] := by decide +kernel
    rw [hcompile] at hrun
    have hqualifiers : c.query.units.map (·.qualifier) = [.table "t1", .subquery "t1"] :=
      Except.ok.inj hrun
    have hnames := congrArg (List.map Qualifier.name) hqualifiers
    rw [List.map_map] at hnames
    refine ⟨c, hcompile, hnames, fun hunambiguous => ?_⟩
    refine (hlevels c.query .self).1.1 hunambiguous "t1" ?_ ?_
    · simp [hqualifiers]
    · simp [hqualifiers]

end RelationalAlgebra.Sql
