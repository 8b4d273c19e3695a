import RelationalAlgebra.Proofs.Qualifiers
import RelationalAlgebra.Proofs.Shapes

/-!
# Columns under names of their own

A query around a subquery asks for a column by a name: that of the first entry of the subquery's select
list with the expression of the column.  So a column keeps the name of its own entry as long as no entry
before it shows the same expression.  A projection can show one expression twice, though: an alias
inside of another one makes a new column of a column, and is not written.

* `Query.KeepsNames` says that the names in each select list differ, and that a subquery shows each
  column under the name of its own entry.
* `Compiles.keeps_iff`: a query does so for its own columns exactly when its entries show different
  expressions (`Query.TellsApart`).
* `Compiles.tellsApart`: they do if the relation tells its columns apart (`Relation.Telling`).

The main statement is `compile_names`.
-/

namespace RelationalAlgebra.Sql

/-! ## The property -/

/-- The entries of the select list show different expressions. -/
def Query.TellsApart (q : Query) : Prop :=
  ∀ list, q.entries = some list → (list.map (·.expr)).Nodup

/-- The entries of the select list have different names. -/
def Query.NamesApart (q : Query) : Prop :=
  ∀ list, q.entries = some list → (list.map (·.name)).Nodup

/-- In each select list the names differ, and each subquery shows the columns of its relation under the
names of their own entries. -/
structure Query.KeepsNames (q : Query) : Prop where
  names : ∀ s, Within q s → s.NamesApart
  exposed : ∀ s, Within q s → ∀ r label exposed inner,
    FromUnit.subquery r label exposed inner ∈ s.units →
      exposed = (Query.rowNames inner r).map some

/-- A query is a subquery of a query within `q`. -/
def Nested (q inner : Query) : Prop :=
  ∃ s, Within q s ∧ ∃ r label exposed, FromUnit.subquery r label exposed inner ∈ s.units

variable {a : Algebra} {root r : Relation} {n n' : Numbering} {q s inner : Query}
  {columns : List SqlExpr}

/-- What is within a query is the query or nested in it. -/
theorem Within.nested_or_eq (h : Within q s) : s = q ∨ Nested q s := by
  induction h with
  | self => exact .inl rfl
  | @unit q inner s relation label exposed mem within ih =>
    right
    rcases ih with rfl | ⟨outer, houter, hunit⟩
    · exact ⟨q, .self, relation, label, exposed, mem⟩
    · exact ⟨outer, .unit mem houter, hunit⟩

theorem Within.trans_unit {relation : Relation} {label : String} {exposed : List (Option String)}
    (h : Within q s) (hunit : FromUnit.subquery relation label exposed inner ∈ s.units) :
    Within q inner := by
  induction h with
  | self => exact .unit hunit .self
  | unit mem _ ih => exact .unit mem (ih hunit)

/-! ## One query -/

section

variable (ha : a.Sound) (hr : r ∈ a.relations) (h : Compiles root r n q columns n')

include ha hr h

/-- The entries show different expressions exactly when the columns are written in different ways. -/
theorem Compiles.tellsApart_iff : q.TellsApart ↔ columns.Nodup := by
  cases hentries : q.entries with
  | none =>
    obtain ⟨t, ht, -, -, rfl⟩ := h.entries_none hr ha hentries
    have hnodup : (t.columns.map fun c => SqlExpr.column ⟨.table t.name, c.name⟩).Nodup := by
      have hnames := ha.table_columns_nodup ht
      rw [List.Nodup, List.pairwise_map] at hnames ⊢
      refine hnames.imp ?_
      intro c d hne heq
      exact hne (SqlColumn.mk.inj (SqlExpr.column.inj heq)).2
    simp [Query.TellsApart, hentries, hnodup]
  | some entries =>
    rw [← h.entries_some hentries]
    simp [Query.TellsApart, hentries]

/-- The names in a select list differ and each column is shown under its own one exactly when the
entries show different expressions. -/
theorem Compiles.keeps_iff (hplain : a.PlainTables) :
    q.TellsApart ↔ q.NamesApart ∧ columns.map q.nameOf? = (q.rowNames r).map some := by
  rw [h.tellsApart_iff ha hr]
  constructor
  · intro hnodup
    refine ⟨fun list hlist => ?_, h.map_nameOf? hnodup⟩
    have hnames := h.rowNames_nodup hnodup ha hplain hr
    rwa [Query.rowNames_some hlist] at hnames
  · rintro ⟨hnames, hown⟩
    cases hentries : q.entries with
    | none =>
      rw [← h.tellsApart_iff ha hr]
      intro list hlist
      rw [hentries] at hlist
      cases hlist
    | some list =>
      -- columns that are written alike would be shown under one name
      have hnodup : (columns.map q.nameOf?).Nodup := by
        rw [hown, Query.rowNames_some hentries]
        exact (hnames list hentries).map (Option.some_injective String)
      exact hnodup.of_map _

end

/-- The names of the entries of a join differ exactly when their expressions do. -/
theorem namesApart_join_iff (ha : a.Sound) (hplain : a.PlainTables) {id : Nat} {kind : JoinKind}
    {left right : Relation} {condition : Expr Nat}
    (hr : Relation.join id kind left right condition ∈ a.relations)
    (h : Compiles root (.join id kind left right condition) n q columns n') :
    q.NamesApart ↔ q.TellsApart := by
  have hwidth := h.length
  obtain ⟨source, units, lays, hquery, hreads⟩ := h.join_cases ha hr
  have hnamed : ∀ list, q.entries = some list →
      list.map (·.name) = (list.map (·.expr)).map fun e => e.qualifiedName?.getD "" := by
    intro list hlist
    rw [List.map_map]
    refine List.map_congr_left fun entry hentry => ?_
    rw [hquery] at hlist
    rw [← Option.some.inj hlist] at hentry
    obtain ⟨c, -, hcolumn, hname⟩ := mem_qualifiedEntries hentry
    obtain ⟨i, hi⟩ := List.getElem?_of_mem hcolumn
    obtain ⟨u, -, j, hj⟩ := (hreads i _ hi).exists_unit
    obtain ⟨name, hexpr⟩ := FromUnit.exists_name_of_column? hj
    rw [hname, Function.comp, hexpr]
    rfl
  constructor
  · intro hnames list hlist
    have hnodup := hnames list hlist
    rw [hnamed list hlist] at hnodup
    exact hnodup.of_map _
  · intro hexprs list hlist
    refine List.Nodup.map_on ?_ ((hexprs list hlist).of_map _)
    intro x hx y hy hname
    exact List.inj_on_of_nodup_map (hexprs list hlist) hx hy
      (h.expr_eq_of_name_eq ha hplain hr hlist hx hy hname)

/-- The names of a select list differ if a projection made it, and else as far as its expressions do. -/
theorem Compiles.namesApart_iff (ha : a.Sound) (hplain : a.PlainTables) (hr : r ∈ a.relations)
    (h : Compiles root r n q columns n') :
    q.NamesApart ↔ (q.shape = none → q.TellsApart) := by
  induction r generalizing q columns n' with
  | table t =>
    cases h with
    | table => simp [Query.NamesApart, Query.TellsApart]
  | selection id operand condition ih =>
    cases h with
    | selection compiles fills =>
      have hoperand := ih (ha.selection_operand hr).1 compiles
      exact hoperand
  | projection id operand whole shown ih =>
    cases h with
    | projection compiles fills =>
      have hnames := ha.projection_names hr
      rw [← fills.names] at hnames
      constructor
      · intro _ hshape
        cases whole <;> cases hshape
      · intro _ list hlist
        rw [Query.reshape_entries, Option.some.injEq] at hlist
        rwa [← hlist]
  | join id kind left right condition ihl ihr =>
    have hiff := namesApart_join_iff ha hplain hr h
    obtain ⟨source, units, lays, rfl, hreads⟩ := h.join_cases ha hr
    simpa using hiff

/-! ## All queries within a query -/

theorem inherited_telling (ha : a.Sound) : Inherited fun r => r ∈ a.relations ∧ r.Telling where
  selection h := ⟨(ha.selection_operand h.1).1, h.2⟩
  projection h := ⟨(ha.projection_operand h.1).1, h.2.1⟩
  left h := ⟨(ha.join_left h.1).1, h.2.1⟩
  right h := ⟨(ha.join_right h.1).1, h.2.2.1⟩

/-- A relation that tells its columns apart is compiled to queries that do. -/
theorem Compiles.tellsApart (ha : a.Sound) (hplain : a.PlainTables) (hr : r ∈ a.relations)
    (htell : r.Telling) (h : Compiles root r n q columns n') (hs : Within q s) : s.TellsApart := by
  obtain ⟨root', r', ⟨hr', htell'⟩, _, _, _, hrules⟩ :=
    h.of_within (inherited_telling ha) ⟨hr, htell⟩ hs
  rw [hrules.tellsApart_iff ha hr']
  exact ((distinguished_of_telling ha hplain hr' htell').whole hrules).1

/-- A subquery is the query of a relation, and shows columns as the query has names for them. -/
theorem Compiles.of_subquery (ha : a.Sound) (hr : r ∈ a.relations)
    (h : Compiles root r n q columns n') (hs : Within q s) {relation : Relation} {label : String}
    {exposed : List (Option String)}
    (hunit : FromUnit.subquery relation label exposed inner ∈ s.units) :
    relation ∈ a.relations ∧ ∃ n₁ columns' n₂,
      Compiles relation relation n₁ inner columns' n₂ ∧ exposed = columns'.map inner.nameOf? := by
  obtain ⟨root', r', hr', _, _, _, hrules⟩ := h.of_within (inherited_mem ha) hr hs
  obtain ⟨core, hcore, _, _, _, lays⟩ := hrules.exists_lays (inherited_mem ha) hr'
  obtain ⟨r'', hr'', _, _, stands⟩ := lays.exists_stands (inherited_mem ha) hcore hunit
  cases stands with
  | subquery nested compiles => exact ⟨hr'', _, _, _, compiles, rfl⟩

/-- A query keeps the names of its columns exactly when each of its subqueries, and the query itself
unless a projection made its select list, shows different expressions. -/
theorem Compiles.keepsNames_iff (ha : a.Sound) (hplain : a.PlainTables) (hr : r ∈ a.relations)
    (h : Compiles root r n q columns n') :
    q.KeepsNames ↔
      (q.shape = none → q.TellsApart) ∧ ∀ inner, Nested q inner → inner.TellsApart := by
  rw [← h.namesApart_iff ha hplain hr]
  constructor
  · intro hkeeps
    refine ⟨hkeeps.names q .self, ?_⟩
    rintro inner ⟨s, hs, relation, label, exposed, hunit⟩
    obtain ⟨hrelation, _, _, _, hrules, hexposed⟩ := h.of_subquery ha hr hs hunit
    rw [hrules.keeps_iff ha hrelation hplain, ← hexposed]
    exact ⟨hkeeps.names inner (hs.trans_unit hunit), hkeeps.exposed s hs _ _ _ _ hunit⟩
  · rintro ⟨hnames, hnested⟩
    have hkeep : ∀ {s : Query}, Within q s → ∀ {relation label exposed} {inner : Query},
        FromUnit.subquery relation label exposed inner ∈ s.units →
          inner.NamesApart ∧ exposed = (Query.rowNames inner relation).map some := by
      intro s hs relation label exposed inner hunit
      obtain ⟨hrelation, _, _, _, hrules, rfl⟩ := h.of_subquery ha hr hs hunit
      rw [← hrules.keeps_iff ha hrelation hplain]
      exact hnested inner ⟨s, hs, relation, label, _, hunit⟩
    refine ⟨fun s hs => ?_, fun s hs _ _ _ _ hunit => (hkeep hs hunit).2⟩
    rcases hs.nested_or_eq with rfl | ⟨outer, houter, relation, label, exposed, hunit⟩
    · exact hnames
    · exact (hkeep houter hunit).1

/-! ## An alias inside of another one -/

namespace Renamed

open Sample (blogs)

/-- A table of posts. -/
def posts : Table := ⟨1, "posts", [⟨"blog_id", .integer⟩]⟩

/-- The column `id` of the blogs, once as `a` and once, by way of `b`, as `c`. -/
def twice : Relation :=
  .projection 2 (.table blogs) none
    [⟨"a", some "a", .column 0⟩, ⟨"c", some "c", .aliased (.column 0) "b"⟩]

/-- The posts beside the two columns. -/
def joined : Relation := .join 3 .inner (.table posts) twice (.equal (.column 0) (.column 1))

/-- The relations of the session. -/
def algebra : Algebra := ⟨[.table blogs, .table posts, twice, joined]⟩

theorem reachable : algebra.Reachable := by
  refine .step (a := ⟨[.table blogs, .table posts, twice]⟩)
    (.join .inner (.table posts) twice (.pairs [("blog_id", .column "a")]))
    (.step (a := ⟨[.table blogs, .table posts]⟩)
      (.project (.table blogs) [.expr (.aliased (.column "id") "a"),
        .expr (.aliased (.aliased (.column "id") "b") "c")])
      (.step (a := ⟨[.table blogs]⟩) (.createTable "posts" [("blog_id", .integer)])
        (.step (.createTable "blogs" [("id", .integer)]) .empty ?_) ?_) ?_) ?_
  all_goals decide

theorem table_cases {t : Table} (ht : Relation.table t ∈ algebra.relations) :
    t = blogs ∨ t = posts := by
  simpa [algebra, twice, joined] using ht

/-- All names of the session are plain. -/
theorem plainNames : algebra.PlainNames where
  plain t ht := by
    rcases table_cases ht with rfl | rfl
    · exact ⟨by decide, by decide⟩
    · exact ⟨by decide, by decide⟩
  no_label t ht k hname := by
    have hhead : t.name.toList.head? = some 't' := by
      rw [hname, labelOf, String.toList_append]
      rfl
    rcases table_cases ht with rfl | rfl
    · exact absurd hhead (by decide)
    · exact absurd hhead (by decide)
  table_nonempty t ht := by
    rcases table_cases ht with rfl | rfl
    · decide
    · decide
  column t ht c hc := by
    rcases table_cases ht with rfl | rfl
    · obtain rfl := List.mem_singleton.1 hc
      exact ⟨by decide, by decide, by decide⟩
    · obtain rfl := List.mem_singleton.1 hc
      exact ⟨by decide, by decide, by decide⟩

end Renamed

/-! ## The main statement -/

/-- A query keeps the names of its columns exactly when each of its subqueries, and the query itself
unless a projection made its select list, shows different expressions.  It does if the relation tells
its columns apart, and then a tuple holds what a row holds under the names of the columns. -/
theorem compile_names (h : a.Reachable) (hplain : a.PlainNames) (hr : r ∈ a.relations) :
    ∃ c, compile r = .ok c ∧
      (c.query.KeepsNames ↔ (c.query.shape = none → c.query.TellsApart) ∧
        ∀ inner, Nested c.query inner → inner.TellsApart) ∧
      (r.Telling → c.query.KeepsNames ∧
        ∀ row, Fits r ((c.query.rowNames r).map (Row.value row)) (c.query.tuple row)) := by
  have ha := h.sound
  have htables := hplain.toPlainTables
  obtain ⟨c, columns, k, hcompile, hrules⟩ := exists_compiles ha hr
  have hiff := hrules.keepsNames_iff ha htables hr
  refine ⟨c, hcompile, hiff, fun htell => ⟨hiff.2 ⟨?_, ?_⟩, ?_⟩⟩
  · intro _
    exact hrules.tellsApart ha htables hr htell .self
  · rintro inner ⟨s, hs, _, _, _, hunit⟩
    exact hrules.tellsApart ha htables hr htell (hs.trans_unit hunit)
  · exact (shaped_of_telling ha htables hplain.separable hr htell).whole hrules

/-- The short session keeps all names.  A column that is shown once as `a` and once, by way of another
alias, as `c` is shown twice as `a`. -/
theorem compile_names_renamed :
    (∃ c, compile Sample.firstPosts = .ok c ∧ c.query.KeepsNames) ∧
      ∃ c list, compile Renamed.joined = .ok c ∧ c.query.entries = some list ∧
        list.map (·.name) = ["posts__blog_id", "t1__a", "t1__a"] ∧ ¬ c.query.KeepsNames := by
  constructor
  · obtain ⟨c, hcompile, -, htelling⟩ := compile_names Sample.reachable Sample.plainNames
      (show Sample.firstPosts ∈ Sample.algebra.relations by decide)
    exact ⟨c, hcompile, (htelling ⟨trivial, trivial, by decide⟩).1⟩
  · obtain ⟨c, hcompile, -, -⟩ := compile_names Renamed.reachable Renamed.plainNames
      (show Renamed.joined ∈ Renamed.algebra.relations by decide)
    have hrun : (compile Renamed.joined).map (fun c => c.query.entries) =
        .ok (some [⟨"posts__blog_id", .column ⟨.table "posts", "blog_id"⟩⟩,
          ⟨"t1__a", .column ⟨.subquery "t1", "a"⟩⟩, ⟨"t1__a", .column ⟨.subquery "t1", "a"⟩⟩]) := by
      decide +kernel
    rw [hcompile] at hrun
    have hentries := Except.ok.inj hrun
    refine ⟨c, _, hcompile, hentries, rfl, fun hkeeps => ?_⟩
    exact absurd (hkeeps.names c.query .self _ hentries) (by decide)

end RelationalAlgebra.Sql
