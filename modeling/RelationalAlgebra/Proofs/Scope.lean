import RelationalAlgebra.Proofs.Compiling
import RelationalAlgebra.Proofs.Session

/-!
# Column references are in scope

Whatever a session built compiles, and in the compiled query, at every level of nesting, each
column reference is to a unit of the same `FROM` clause that shows a column of the name:
`compile_wellScoped`.

* `FromUnit.names` are the names a unit shows: the declared columns of a base table, the names in
  the select list of a subquery, or what its own units show if it selects everything.
* `Source.Scoped` is about the join conditions, which may speak of the unit that is joined and of
  those to its left; `WellScoped` is about a query as a whole.
-/

namespace RelationalAlgebra.Sql

/-! ## Names that are shown -/

mutual

/-- The names a unit shows. -/
def FromUnit.names : FromUnit → List String
  | .table t => t.columns.map (·.name)
  | .subquery _ _ _ query => queryNames query

/-- The names a query shows. -/
def queryNames : QueryOf FromUnit → List String
  | ⟨_, entries, source, _, units, _, _⟩ =>
    match entries with
    | some (e :: rest) => (e :: rest).map (·.name)
    | _ =>
      match source with
      | some source => source.gather (unitNames units)
      | none => []

/-- The names each unit shows. -/
def unitNames : List FromUnit → List (List String)
  | [] => []
  | unit :: rest => unit.names :: unitNames rest

end

theorem unitNames_eq_map (units : List FromUnit) : unitNames units = units.map (·.names) := by
  induction units with
  | nil => rfl
  | cons u rest ih => rw [unitNames, ih, List.map_cons]

/-! ## References -/

/-- Every column reference has the property. -/
def SqlExpr.All (P : SqlColumn → Prop) : SqlExpr → Prop
  | .column c => P c
  | .placeholder _ => True
  | .equal left right => left.All P ∧ right.All P
  | .aggregate _ argument => argument.All P

/-- One of the units at the places has the qualifier of the reference and shows its name. -/
def Exposes (units : List FromUnit) (places : List Nat) (c : SqlColumn) : Prop :=
  ∃ place ∈ places, ∃ u, units[place]? = some u ∧ u.qualifier = c.qualifier ∧ c.name ∈ u.names

/-- Each join condition refers to the unit that is joined and to those on its left. -/
def Source.Scoped (units : List FromUnit) : Source → Prop
  | .unit place => place < units.length
  | .join _ left right condition =>
    left.Scoped units ∧ right < units.length ∧
      condition.All (Exposes units (left.units ++ [right]))

/-- Every column reference of a query and of its subqueries is in scope. -/
inductive WellScoped : Query → Prop
  | intro {q : Query} {source : Source} (source_eq : q.source = some source)
      (joins : source.Scoped q.units)
      (entries : ∀ list, q.entries = some list → ∀ entry ∈ list,
        entry.expr.All (Exposes q.units source.units))
      (conditions : ∀ condition ∈ q.conditions, condition.All (Exposes q.units source.units))
      (subqueries : ∀ relation label exposed inner,
        FromUnit.subquery relation label exposed inner ∈ q.units → WellScoped inner) :
      WellScoped q

section

variable {P Q : SqlColumn → Prop} {e : SqlExpr} {units more : List FromUnit}
  {places : List Nat} {source : Source} {c : SqlColumn} {r s root : Relation} {i : Nat}
  {reads : Nat → SqlExpr → Prop} {p p' : Placeholders} {n n' : Numbering} {u : FromUnit}
  {q : Query} {columns : List SqlExpr} {chain : List Relation} {a : Algebra}

theorem Exposes.append (h : Exposes units places c) : Exposes (units ++ more) places c := by
  obtain ⟨place, hplace, u, hu, hshown⟩ := h
  exact ⟨place, hplace, u, by rw [List.getElem?_append_left (List.getElem?_eq_some_iff.1 hu).1, hu],
    hshown⟩

theorem SqlExpr.All.mono (h : e.All P) (hPQ : ∀ c, P c → Q c) : e.All Q := by
  induction e with
  | column c => exact hPQ _ h
  | placeholder name => trivial
  | equal left right ihl ihr => exact ⟨ihl h.1, ihr h.2⟩
  | aggregate function argument ih => exact ih h

/-- More units on the right leave a `FROM` clause in scope. -/
theorem Source.Scoped.append (h : source.Scoped units) : source.Scoped (units ++ more) := by
  induction source with
  | unit place =>
    rw [Scoped, List.length_append]
    exact Nat.lt_add_right _ h
  | join kind left right condition ih =>
    refine ⟨ih h.1, ?_, h.2.2.mono fun c hc => hc.append⟩
    rw [List.length_append]
    exact Nat.lt_add_right _ h.2.1

/-- Literals are no references, so an expression refers to what its columns refer to. -/
theorem Fills.all {expr : Expr Nat} (h : Fills reads expr p e p')
    (hreads : ∀ i e, reads i e → e.All P) : e.All P := by
  induction h with
  | column read => exact hreads _ _ read
  | literal => trivial
  | aliased _ ih => exact ih
  | equal _ _ ihl ihr => exact ⟨ihl, ihr⟩
  | aggregate _ ih => exact ih

theorem FillsAll.all {shown : List OutputColumn} {entries : List SelectEntry}
    (h : FillsAll reads shown p entries p') (hreads : ∀ i e, reads i e → e.All P) :
    ∀ entry ∈ entries, entry.expr.All P := by
  induction h with
  | nil => intro entry hentry; cases hentry
  | cons head tail ih =>
    intro entry hentry
    rcases List.mem_cons.1 hentry with rfl | hentry
    · exact head.all hreads
    · exact ih entry hentry

/-! ## The rules keep references in scope -/

/-- What a unit that was built by the rules owes the query around it. -/
structure FromUnit.Safe (u : FromUnit) : Prop where
  shows : ∀ i e, u.column? i = some e → ∃ name ∈ u.names, e = .column ⟨u.qualifier, name⟩
  nested : ∀ relation label exposed inner,
    u = .subquery relation label exposed inner → WellScoped inner

/-- A reference that the `FROM` clause shows is in scope. -/
theorem Reads.all_exposes (h : Reads chain units r i e) (hsafe : ∀ u ∈ units, u.Safe) :
    e.All (Exposes units (List.range units.length)) := by
  induction h with
  | unit mem stands shows =>
    obtain ⟨name, hname, rfl⟩ := (hsafe _ mem).shows _ _ shows
    obtain ⟨place, hplace⟩ := List.getElem?_of_mem mem
    exact ⟨place, List.mem_range.2 (List.getElem?_eq_some_iff.1 hplace).1, _, hplace, rfl, hname⟩
  | left mem lt _ ih => exact ih
  | right mem ge _ ih => exact ih

/-- What the rules say of a relation that becomes a query. -/
def Query.Safe (q : Query) (columns : List SqlExpr) : Prop :=
  WellScoped q ∧ ∃ source, q.source = some source ∧
    ∀ e ∈ columns, e.All (Exposes q.units source.units)

/-- A name that a query has for one of its columns is a name it shows. -/
theorem Query.Safe.mem_names (h : q.Safe columns) (he : e ∈ columns) {name : String}
    (hname : q.nameOf? e = some name) : name ∈ queryNames q := by
  obtain ⟨relation, entries, source', conditions, units, shape, projected⟩ := q
  obtain ⟨-, source, hsource, hcolumns⟩ := h
  cases entries with
  | some entries =>
    obtain ⟨entry, hfound, rfl⟩ := Option.map_eq_some_iff.1 hname
    have hentry := List.mem_of_find?_eq_some hfound
    cases entries with
    | nil => cases hentry
    | cons first rest => exact List.mem_map_of_mem hentry
  | none =>
    have hexposed := hcolumns e he
    cases e with
    | column c =>
      obtain rfl : c.name = name := Option.some.inj hname
      obtain ⟨place, hplace, u, hu, -, hshown⟩ := hexposed
      cases hsource
      simp only [queryNames, Source.gather, List.mem_flatMap]
      refine ⟨place, hplace, ?_⟩
      have hnames : (unitNames units)[place]? = some u.names := by
        rw [unitNames_eq_map, List.getElem?_map, hu]
        rfl
      rw [hnames]
      exact hshown
    | placeholder _ => cases hname
    | equal _ _ => cases hname
    | aggregate _ _ => cases hname

theorem Stands.safe (h : Stands r n u n')
    (hwhole : ∀ {root n q columns n'}, Compiles root r n q columns n' → q.Safe columns) :
    u.Safe := by
  cases h with
  | table =>
    refine ⟨fun i e he => ?_, fun _ _ _ _ heq => by cases heq⟩
    obtain ⟨c, hc, rfl⟩ := Option.map_eq_some_iff.1 he
    exact ⟨c.name, List.mem_map_of_mem (List.mem_of_getElem? hc), rfl⟩
  | @subquery _ _ _ q columns nested compiles =>
    have hsafe := hwhole compiles
    refine ⟨fun i e he => ?_, fun _ _ _ _ heq => by cases heq; exact hsafe.1⟩
    obtain ⟨name, hname, rfl⟩ := Option.map_eq_some_iff.1 he
    rw [Option.join_eq_some_iff, List.getElem?_map] at hname
    obtain ⟨column, hcolumn, hname⟩ := Option.map_eq_some_iff.1 hname
    exact ⟨name, hsafe.mem_names (List.mem_of_getElem? hcolumn) hname, rfl⟩

/-- What the rules say of a relation in each of the places it can stand in. -/
structure Safe (r : Relation) : Prop where
  whole : ∀ {root n q columns n'}, Compiles root r n q columns n' → q.Safe columns
  operand : ∀ {n source units n'}, Lays r n source units n' →
    source.Scoped units ∧ ∀ u ∈ units, u.Safe

theorem lays_safe_of_leaf (hleaf : r.joinChain = [])
    (hwhole : ∀ {root n q columns n'}, Compiles root r n q columns n' → q.Safe columns)
    (h : Lays r n source units n') : source.Scoped units ∧ ∀ u ∈ units, u.Safe := by
  cases h with
  | leaf _ stands =>
    refine ⟨Nat.zero_lt_one, fun u hu => ?_⟩
    obtain rfl := List.mem_singleton.1 hu
    exact stands.safe hwhole
  | join => cases hleaf

theorem table_safe (t : Table) : Safe (.table t) := by
  have hwhole : ∀ {root n q columns n'}, Compiles root (.table t) n q columns n' →
      q.Safe columns := by
    intro root n q columns n' h
    cases h with
    | table =>
      refine ⟨.intro rfl Nat.zero_lt_one (fun _ heq => by cases heq) (fun _ hc => by cases hc) ?_,
        _, rfl, ?_⟩
      · intro relation label exposed inner hmem
        cases List.mem_singleton.1 hmem
      · intro e he
        obtain ⟨c, hc, rfl⟩ := List.mem_map.1 he
        exact ⟨0, List.mem_singleton_self 0, _, rfl, rfl, List.mem_map_of_mem hc⟩
  exact ⟨hwhole, lays_safe_of_leaf rfl hwhole⟩

theorem selection_safe {id : Nat} {operand : Relation} {condition : Expr Nat}
    (hoperand : Safe operand) : Safe (.selection id operand condition) := by
  have hwhole : ∀ {root n q columns n'},
      Compiles root (.selection id operand condition) n q columns n' → q.Safe columns := by
    intro root n q columns n' h
    cases h with
    | selection compiles fills =>
      obtain ⟨hscoped, source, hsource, hcolumns⟩ := hoperand.whole compiles
      cases hscoped with
      | intro source_eq joins entries conditions subqueries =>
        cases hsource.symm.trans source_eq
        refine ⟨.intro source_eq joins entries ?_ subqueries, source, hsource, hcolumns⟩
        intro c hc
        rcases List.mem_append.1 hc with hc | hc
        · exact conditions c hc
        · obtain rfl := List.mem_singleton.1 hc
          exact fills.all fun i e he => hcolumns e (List.mem_of_getElem? he)
  exact ⟨hwhole, lays_safe_of_leaf rfl hwhole⟩

theorem projection_safe {id : Nat} {operand : Relation} {whole : Option Table}
    {shown : List OutputColumn} (hoperand : Safe operand) :
    Safe (.projection id operand whole shown) := by
  have hwhole : ∀ {root n q columns n'},
      Compiles root (.projection id operand whole shown) n q columns n' → q.Safe columns := by
    intro root n q columns n' h
    cases h with
    | @projection _ _ _ _ _ _ q _ _ _ _ entries' compiles fills =>
      obtain ⟨hscoped, source, hsource, hcolumns⟩ := hoperand.whole compiles
      have hentries := fills.all fun i e he => hcolumns e (List.mem_of_getElem? he)
      cases hscoped with
      | intro source_eq joins entries conditions subqueries =>
        cases hsource.symm.trans source_eq
        have hshaped : (Query.reshape { q with entries := some entries' } whole).source =
            some source := by simpa using source_eq
        refine ⟨.intro hshaped ?_ ?_ ?_ ?_, source, hshaped, ?_⟩
        · simpa using joins
        · intro list hlist
          simp only [Query.reshape_entries, Option.some.injEq] at hlist
          simpa [hlist] using hentries
        · simpa using conditions
        · simpa using subqueries
        · intro e he
          obtain ⟨entry, hentry, rfl⟩ := List.mem_map.1 he
          simpa using hentries entry hentry
  exact ⟨hwhole, lays_safe_of_leaf rfl hwhole⟩

theorem join_safe {id : Nat} {kind : JoinKind} {left right : Relation} {condition : Expr Nat}
    (ha : a.Sound) (hr : Relation.join id kind left right condition ∈ a.relations)
    (hleft : Safe left) (hright : Safe right) : Safe (.join id kind left right condition) := by
  have hoperand : ∀ {n source units n'},
      Lays (.join id kind left right condition) n source units n' →
        source.Scoped units ∧ ∀ u ∈ units, u.Safe := by
    intro n source units n' h
    cases h with
    | leaf leaf => cases leaf
    | @join _ _ _ _ _ _ _ source units u _ _ _ _ lays stands fills =>
      obtain ⟨hscoped, hunits⟩ := hleft.operand lays
      have hall : ∀ v ∈ units ++ [u], v.Safe := by
        intro v hv
        rcases List.mem_append.1 hv with hv | hv
        · exact hunits v hv
        · obtain rfl := List.mem_singleton.1 hv
          exact stands.safe hright.whole
      refine ⟨⟨hscoped.append, by simp, ?_⟩, hall⟩
      have hcondition := fills.all fun i e he => he.all_exposes hall
      rw [lays.source_units]
      rwa [List.length_append, List.length_singleton, List.range_succ] at hcondition
  refine ⟨?_, hoperand⟩
  intro root n q columns n' h
  have hwidth := h.length
  obtain ⟨source, units, lays, rfl, hreads⟩ := h.join_cases ha hr
  obtain ⟨hscoped, hunits⟩ := hoperand lays
  have hcolumns : ∀ e ∈ columns, e.All (Exposes units source.units) := by
    intro e he
    obtain ⟨i, hi⟩ := List.getElem?_of_mem he
    rw [lays.source_units]
    exact (hreads i e hi).all_exposes hunits
  refine ⟨.intro rfl hscoped ?_ (fun _ hc => by cases hc) ?_, source, rfl, hcolumns⟩
  · intro list hlist entry hentry
    apply hcolumns
    rw [← map_expr_qualifiedEntries hwidth, Option.some.inj hlist]
    exact List.mem_map_of_mem hentry
  · intro relation label exposed inner hmem
    exact (hunits _ hmem).nested _ _ _ _ rfl

theorem safe (ha : a.Sound) (hr : r ∈ a.relations) : Safe r := by
  induction r with
  | table t => exact table_safe t
  | selection id operand condition ih =>
    exact selection_safe (ih (ha.selection_operand hr).1)
  | projection id operand whole shown ih =>
    exact projection_safe (ih (ha.projection_operand hr).1)
  | join id kind left right condition ihl ihr =>
    exact join_safe ha hr (ihl (ha.join_left hr).1) (ihr (ha.join_right hr).1)

/-! ## The main statement -/

/-- Every relation that a session built compiles, and every column reference of the query and of
its subqueries is in scope. -/
theorem compile_wellScoped (h : a.Reachable) (hr : r ∈ a.relations) :
    ∃ c, compile r = .ok c ∧ WellScoped c.query := by
  obtain ⟨c, columns, k, hcompile, hrules⟩ := exists_compiles h.sound hr
  exact ⟨c, hcompile, ((safe h.sound hr).whole hrules).1⟩

theorem compile_wellScoped_firstPosts :
    ∃ c, compile Sample.firstPosts = .ok c ∧ WellScoped c.query :=
  compile_wellScoped Sample.reachable (by decide)

end

end RelationalAlgebra.Sql
