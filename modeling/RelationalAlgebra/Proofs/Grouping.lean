import RelationalAlgebra.Proofs.Parsing

/-!
# What conditions denote when they are read back

An equality is written without brackets, whatever its sides are.  So the text of an expression says
what its operands are, in their order, and everything else is for the reader to group: from the
left, as SQL does.

The main statement is `compile_grouping`: every expression of a compiled query, at every level,
reads back with its operands as they are and its equalities grouped from the left.  It reads back as
itself if and only if no equality is the right side of an equality.  A condition with an equality on
its right side comes to denote another expression.

An expression can only be read back if its names are written as one name each, so no name is empty
or has a dot (`Relation.OneNamed`).  The names in a query are then such names too: tables and their
columns, labels, projected columns, and qualified names of these (`oneNamed`).
-/

namespace RelationalAlgebra

open Sql

/-- No name of a table, of its columns or of a projected column is empty or has a dot. -/
def Relation.OneNamed : Relation → Prop
  | .table t => OneName t.name ∧ ∀ c ∈ t.columns, OneName c.name
  | .selection _ operand _ => operand.OneNamed
  | .projection _ operand _ shown => operand.OneNamed ∧ ∀ c ∈ shown, OneName c.name
  | .join _ _ left right _ => left.OneNamed ∧ right.OneNamed

/-- A relation passes this on to its operands, as it does that it is of the algebra. -/
theorem inherited_oneNamed {a : Algebra} (ha : a.Sound) :
    Inherited fun r => r ∈ a.relations ∧ r.OneNamed where
  selection h := ⟨(ha.selection_operand h.1).1, h.2⟩
  projection h := ⟨(ha.projection_operand h.1).1, h.2.1⟩
  left h := ⟨(ha.join_left h.1).1, h.2.1⟩
  right h := ⟨(ha.join_right h.1).1, h.2.2⟩

theorem Sample.first_oneNamed : Sample.first.OneNamed := by
  refine ⟨by decide, fun c hc => ?_⟩
  obtain rfl := List.mem_singleton.1 hc
  decide

namespace Sql

open RelationalAlgebra.Relation QualifiedName

variable {a : Algebra} {root r : Relation} {n n' : Numbering} {q s : Query}
  {columns : List SqlExpr} {source : Source} {units : List FromUnit} {u : FromUnit}
  {p : Placeholders} {e : SqlExpr} {name : String} {P : SqlColumn → Prop}

/-! ## Names -/

theorem oneName_labelOf (k : Nat) : OneName (labelOf k) := by
  have hlist : (labelOf k).toList = 't' :: Nat.toDigits 10 k := by
    rw [labelOf, String.toList_append]
    exact congrArg ('t' :: ·) Nat.toList_repr
  rw [OneName, hlist]
  refine ⟨List.cons_ne_nil _ _, fun hdot => ?_⟩
  rcases List.mem_cons.1 hdot with heq | hdigit
  · cases heq
  · exact absurd (Nat.isDigit_of_mem_toDigits (by decide) (by decide) hdigit) (by decide)

theorem OneName.qualify {qualifier : String} (h : OneName qualifier) (h' : OneName name) :
    OneName (qualify qualifier name) := by
  have hdelimiter : '.' ∉ delimiter.toList := by decide
  rw [QualifiedName.qualify, OneName, String.toList_append, String.toList_append]
  refine ⟨fun hnil => h.1 ?_, ?_⟩
  · exact (List.append_eq_nil_iff.1 (List.append_eq_nil_iff.1 hnil).1).1
  · rw [List.mem_append, List.mem_append, not_or, not_or]
    exact ⟨⟨h.2, hdelimiter⟩, h'.2⟩

/-- The names of a unit are written as one name each. -/
structure FromUnit.OneNamed (u : FromUnit) : Prop where
  qualifier : OneName u.qualifier.name
  names : ∀ name ∈ u.names, OneName name

/-- So are the names that a query shows its entries under, and those of its units. -/
structure Query.OneNamed (q : Query) : Prop where
  entries : ∀ list, q.entries = some list → ∀ entry ∈ list, OneName entry.name
  units : ∀ u ∈ q.units, u.OneNamed

/-- A query shows names of its entries or of its units. -/
theorem Query.OneNamed.names (h : q.OneNamed) : ∀ name ∈ queryNames q, OneName name := by
  obtain ⟨relation, entries, source, conditions, units, shape, projected⟩ := q
  obtain ⟨hentries, hunits⟩ := h
  have hgather : ∀ name ∈ source.elim [] (·.gather (unitNames units)), OneName name := by
    intro name hname
    cases source with
    | none => cases hname
    | some source =>
      obtain ⟨place, -, hname⟩ := List.mem_flatMap.1 hname
      rw [unitNames_eq_map, List.getElem?_map] at hname
      cases hunit : units[place]? with
      | none =>
        rw [hunit] at hname
        cases hname
      | some u =>
        rw [hunit] at hname
        exact (hunits u (List.mem_of_getElem? hunit)).names name hname
  intro name hname
  match entries with
  | some (e :: rest) =>
    obtain ⟨entry, hentry, rfl⟩ := List.mem_map.1 hname
    exact hentries _ rfl entry hentry
  | some [] =>
    cases source with
    | none => cases hname
    | some source => exact hgather name hname
  | none =>
    cases source with
    | none => cases hname
    | some source => exact hgather name hname

theorem table_oneNamed {t : Table} (h : (Relation.table t).OneNamed) :
    (FromUnit.table t).OneNamed := by
  refine ⟨h.1, fun name hname => ?_⟩
  obtain ⟨c, hc, rfl⟩ := List.mem_map.1 hname
  exact h.2 c hc

theorem Stands.oneNamed (hr : r.OneNamed) (h : Stands r n u n')
    (hwhole : ∀ {root n q columns n'}, Compiles root r n q columns n' → q.OneNamed) :
    u.OneNamed := by
  cases h with
  | table => exact table_oneNamed hr
  | subquery nested compiles => exact ⟨oneName_labelOf _, (hwhole compiles).names⟩

theorem Lays.oneNamed_of_leaf (hr : r.OneNamed) (hleaf : r.joinChain = [])
    (hwhole : ∀ {root n q columns n'}, Compiles root r n q columns n' → q.OneNamed)
    (h : Lays r n source units n') : ∀ u ∈ units, u.OneNamed := by
  cases h with
  | leaf _ stands =>
    intro u hu
    obtain rfl := List.mem_singleton.1 hu
    exact stands.oneNamed hr hwhole
  | join => cases hleaf

/-- The names in the query of a relation, and in its `FROM` clause, are written as one name each if
those of the relation are. -/
theorem oneNamed (ha : a.Sound) (hr : r ∈ a.relations) (hnamed : r.OneNamed) :
    (∀ {root n q columns n'}, Compiles root r n q columns n' → q.OneNamed) ∧
      ∀ {n source units n'}, Lays r n source units n' → ∀ u ∈ units, u.OneNamed := by
  induction r with
  | table t =>
    have hwhole : ∀ {root n q columns n'}, Compiles root (.table t) n q columns n' →
        q.OneNamed := by
      intro root n q columns n' h
      cases h with
      | table =>
        refine ⟨fun _ heq => (by cases heq), fun u hu => ?_⟩
        obtain rfl := List.mem_singleton.1 hu
        exact table_oneNamed hnamed
    exact ⟨hwhole, Lays.oneNamed_of_leaf hnamed rfl hwhole⟩
  | selection id operand condition ih =>
    have hwhole : ∀ {root n q columns n'},
        Compiles root (.selection id operand condition) n q columns n' → q.OneNamed := by
      intro root n q columns n' h
      cases h with
      | selection compiles fills =>
        have hoperand := (ih (ha.selection_operand hr).1 hnamed).1 compiles
        exact ⟨hoperand.entries, hoperand.units⟩
    exact ⟨hwhole, Lays.oneNamed_of_leaf hnamed rfl hwhole⟩
  | projection id operand whole shown ih =>
    have hwhole : ∀ {root n q columns n'},
        Compiles root (.projection id operand whole shown) n q columns n' → q.OneNamed := by
      intro root n q columns n' h
      cases h with
      | projection compiles fills =>
        have hoperand := (ih (ha.projection_operand hr).1 hnamed.1).1 compiles
        refine ⟨fun list hlist entry hentry => ?_, fun u hu => ?_⟩
        · rw [Query.reshape_entries, Option.some.injEq] at hlist
          have hname := List.mem_map_of_mem (f := (·.name)) (hlist ▸ hentry)
          rw [fills.names] at hname
          obtain ⟨c, hc, hname⟩ := List.mem_map.1 hname
          rw [← hname]
          exact hnamed.2 c hc
        · rw [Query.reshape_units] at hu
          exact hoperand.units u hu
    exact ⟨hwhole, Lays.oneNamed_of_leaf hnamed rfl hwhole⟩
  | join id kind left right condition ihl ihr =>
    have hleft := ihl (ha.join_left hr).1 hnamed.1
    have hright := ihr (ha.join_right hr).1 hnamed.2
    have hoperand : ∀ {n source units n'},
        Lays (.join id kind left right condition) n source units n' →
          ∀ u ∈ units, u.OneNamed := by
      intro n source units n' h u hu
      cases h with
      | leaf leaf => cases leaf
      | join lays stands fills =>
        rcases List.mem_append.1 hu with hu | hu
        · exact hleft.2 lays u hu
        · obtain rfl := List.mem_singleton.1 hu
          exact stands.oneNamed hnamed.2 hright.1
    refine ⟨?_, hoperand⟩
    intro root n q columns n' h
    obtain ⟨source, units, lays, rfl, hreads⟩ := h.join_cases ha hr
    refine ⟨fun list hlist entry hentry => ?_, hoperand lays⟩
    obtain rfl := Option.some.inj hlist
    obtain ⟨c, -, hexpr, hname⟩ := mem_qualifiedEntries hentry
    obtain ⟨i, hi⟩ := List.getElem?_of_mem hexpr
    obtain ⟨u, hu, j, hj⟩ := (hreads i _ hi).exists_unit
    obtain ⟨shown, hshown, heq⟩ := (((safe ha hr).operand lays).2 u hu).shows j _ hj
    have hunit := hoperand lays u hu
    rw [hname, heq]
    exact hunit.qualifier.qualify (hunit.names shown hshown)

/-! ## Expressions -/

theorem Source.All.conditions (h : source.All P) : ∀ e ∈ source.conditions, e.All P := by
  induction source with
  | unit place =>
    intro e he
    cases he
  | join kind left right condition ih =>
    intro e he
    rcases List.mem_append.1 he with he | he
    · exact ih h.1 e he
    · obtain rfl := List.mem_singleton.1 he
      exact h.2

/-- What every reference of a query has is true in each of its expressions. -/
theorem Query.All.expressions (h : Query.All P q) (he : e ∈ q.expressions) : e.All P := by
  rcases Query.mem_expressions.1 he with
    ⟨list, hlist, entry, hentry, rfl⟩ | ⟨source, hsource, he⟩ | he
  · exact h.entries list hlist entry hentry
  · exact (h.source source hsource).conditions e he
  · exact h.conditions e he

/-- The references and the placeholders make an expression plain. -/
theorem plain_of_fillIn (hp : p.Numbered)
    (he : e.All fun c => OneName c.qualifier.name ∧ OneName c.name) {x : Expr Unit}
    (hx : p.fillIn e = some x) : e.Plain := by
  induction e generalizing x with
  | column c => exact he
  | placeholder name =>
    obtain ⟨value, hvalue, -⟩ := Option.map_eq_some_iff.1 hx
    exact hp.exists_nameOf hvalue
  | equal left right ihl ihr =>
    obtain ⟨l, hl, hx⟩ := Option.bind_eq_some_iff.1 hx
    obtain ⟨r, hr, -⟩ := Option.bind_eq_some_iff.1 hx
    exact ⟨ihl he.1 hl, ihr he.2 hr⟩
  | aggregate function argument ih =>
    obtain ⟨y, hy, -⟩ := Option.map_eq_some_iff.1 hx
    exact ih he hy

/-- The expressions of a query, and those of its subqueries, are plain if the names of its relation
are written as one name each. -/
theorem Compiles.plain_within (ha : a.Sound) (hr : r ∈ a.relations) (hnamed : r.OneNamed)
    (h : Compiles r r ⟨0, .empty⟩ q columns n') (hs : Within q s) (he : e ∈ s.expressions) :
    e.Plain := by
  obtain ⟨r', ⟨hr', hnamed'⟩, _, _, _, -, hrules, -⟩ :=
    h.of_within_upto (inherited_oneNamed ha) ⟨hr, hnamed⟩ hs
  have hunits := ((oneNamed ha hr' hnamed').1 hrules).units
  have hall : Query.All (fun c => OneName c.qualifier.name ∧ OneName c.name) s := by
    refine ((safe ha hr').whole hrules).1.all ?_
    rintro places c ⟨place, -, u, hu, hqualifier, hname⟩
    have hunit := hunits u (List.mem_of_getElem? hu)
    exact ⟨hqualifier ▸ hunit.qualifier, hunit.names _ hname⟩
  obtain ⟨x, hx⟩ := (h.bears_within ha hr hs).exists_fillIn he
  have hnumbered := h.upto.placeholders.numbered Placeholders.numbered_empty
  exact plain_of_fillIn hnumbered (hall.expressions he) hx

/-! ## A condition with an equality on its right side -/

namespace Chained

open Sample (blogs)

/-- The blogs for which 2 is equal to the truth of `id = 1`. -/
def first : Relation :=
  .selection 1 (.table blogs)
    (.equal (.literal (.integer 2)) (.equal (.column 0) (.literal (.integer 1))))

/-- The relations of the session. -/
def algebra : Algebra := ⟨[.table blogs, first]⟩

theorem reachable : algebra.Reachable := by
  refine .step (a := ⟨[.table blogs]⟩)
    (.select (.table blogs)
      (.expr (.equal (.literal (.integer 2)) (.equal (.column "id") (.literal (.integer 1))))))
    (.step (.createTable "blogs" [("id", .integer)]) .empty ?_) ?_
  all_goals decide

theorem first_oneNamed : first.OneNamed := by
  refine ⟨by decide, fun c hc => ?_⟩
  obtain rfl := List.mem_singleton.1 hc
  decide

/-- The condition as it is compiled. -/
def condition : SqlExpr :=
  .equal (.placeholder "v1") (.equal (.column ⟨.table "blogs", "id"⟩) (.placeholder "v2"))

end Chained

/-! ## The main statement -/

/-- A relation that a session built and whose names are written as one name each compiles.  Each
expression of the query, in the conditions of its selections and joins and in its select list, and
each of its subqueries, reads back with the same operands in the same order, grouped from the left.
It denotes itself if and only if no equality in it is the right side of an equality. -/
theorem compile_grouping (h : a.Reachable) (hr : r ∈ a.relations) (hnamed : r.OneNamed) :
    ∃ c, compile r = .ok c ∧ ∀ s, Within c.query s → ∀ e ∈ s.expressions,
      read e.text = some e.byName.regrouped ∧ (read e.text = some e.byName ↔ e.LeftNested) := by
  have ha := h.sound
  obtain ⟨c, columns, k, hcompile, hrules⟩ := exists_compiles ha hr
  refine ⟨c, hcompile, fun s hs e he => ?_⟩
  have hread := read_text (hrules.plain_within ha hr hnamed hs he)
  refine ⟨hread, ?_⟩
  rw [hread, Option.some.injEq, SqlExpr.regrouped_eq_self_iff, SqlExpr.leftNested_byName]

/-- The condition of the short session reads back as itself.  A comparison with an equality on the
right does not: its text groups the operands from the left. -/
theorem compile_grouping_chained :
    (∃ c, compile Sample.first = .ok c ∧ ∀ e ∈ c.query.conditions, read e.text = some e.byName) ∧
      ∃ c, compile Chained.first = .ok c ∧ c.query.conditions = [Chained.condition] ∧
        c.sql = "SELECT * FROM blogs WHERE :v1 = blogs.id = :v2" ∧
        read Chained.condition.text = some (.equal
          (.equal (.placeholder "v1") (.column ⟨.table "blogs", "id"⟩)) (.placeholder "v2")) ∧
        read Chained.condition.text ≠ some Chained.condition.byName := by
  constructor
  · obtain ⟨c, hcompile, hlevels⟩ := compile_grouping Sample.reachable
      (show Sample.first ∈ Sample.algebra.relations by decide) Sample.first_oneNamed
    have hrun : (compile Sample.first).map (·.query.conditions) =
        .ok [.equal (.column ⟨.table "blogs", "id"⟩) (.placeholder "v1")] := by decide +kernel
    rw [hcompile] at hrun
    have hconditions : c.query.conditions =
        [.equal (.column ⟨.table "blogs", "id"⟩) (.placeholder "v1")] := Except.ok.inj hrun
    refine ⟨c, hcompile, fun e he => ?_⟩
    refine (hlevels c.query .self e (Query.mem_expressions.2 (.inr (.inr he)))).2.2 ?_
    rw [hconditions] at he
    obtain rfl := List.mem_singleton.1 he
    exact ⟨trivial, trivial, by simp⟩
  · obtain ⟨c, hcompile, hlevels⟩ := compile_grouping Chained.reachable
      (show Chained.first ∈ Chained.algebra.relations by decide) Chained.first_oneNamed
    have hrun : (compile Chained.first).map (fun c => (c.query.conditions, c.sql)) =
        .ok ([Chained.condition], "SELECT * FROM blogs WHERE :v1 = blogs.id = :v2") := by
      decide +kernel
    rw [hcompile] at hrun
    obtain ⟨hconditions, hsql⟩ := Prod.mk.inj (Except.ok.inj hrun)
    have hmem : Chained.condition ∈ c.query.expressions :=
      Query.mem_expressions.2 (.inr (.inr (hconditions ▸ List.mem_singleton_self _)))
    obtain ⟨hread, hself⟩ := hlevels c.query .self _ hmem
    refine ⟨c, hcompile, hconditions, hsql, hread, fun h => ?_⟩
    exact (hself.1 h).2.2 _ _ rfl

end Sql

end RelationalAlgebra
