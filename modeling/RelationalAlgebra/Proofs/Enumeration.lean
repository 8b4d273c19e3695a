import RelationalAlgebra.Proofs.Qualifiers

/-!
# Labels and placeholders are numbered without a gap

The rules hand on one numbering from subquery to subquery.  What they give out between two of its
states is said by `Numbering.Gives`: the next labels, as many as there are subqueries, and the next
placeholders, one for every literal of the relation and in the order of `Relation.literals`.

That a placeholder has the value of the literal it was written for is said of whole expressions:
`Placeholders.fillIn` writes the values back and leaves a blank for each column reference, and what
comes out is the expression of the relation with blanks for the columns of the `FROM` clause
(`Query.Bears`).  A placeholder that is written again with the column it belongs to is thereby the
literal of that column.

The main statement is `compile_numbering`.
-/

namespace RelationalAlgebra

open Sql

/-! ## Literals -/

/-- The literals of an expression, from left to right. -/
def Expr.literals {α : Type} : Expr α → List Value
  | .column _ => []
  | .literal value => [value]
  | .aliased expr _ => expr.literals
  | .equal left right => left.literals ++ right.literals
  | .aggregate _ argument => argument.literals

/-- The expression with expressions in place of its columns, and without the names inside it. -/
def Expr.over {α β : Type} (column : α → Expr β) : Expr α → Expr β
  | .column reference => column reference
  | .literal value => .literal value
  | .aliased expr _ => expr.over column
  | .equal left right => .equal (left.over column) (right.over column)
  | .aggregate function argument => .aggregate function (argument.over column)

namespace Relation

/-- The literals of the conditions and of the projected columns, those of the operands first.  A
relation that is an operand twice has its literals counted twice. -/
def literals : Relation → List Value
  | .table _ => []
  | .selection _ operand condition => operand.literals ++ condition.literals
  | .projection _ operand _ shown => operand.literals ++ shown.flatMap (·.source.literals)
  | .join _ _ left right condition => left.literals ++ right.literals ++ condition.literals

/-- The table or the join below selections and projections, which has the `FROM` clause. -/
def core : Relation → Relation
  | .selection _ operand _ => operand.core
  | .projection _ operand _ _ => operand.core
  | r => r

/-- A column as an expression over the columns of the core, with a blank for each of these. -/
def expand : Relation → Nat → Expr Unit
  | .selection _ operand _, i => operand.expand i
  | .projection _ operand _ shown, i =>
    match shown[i]? with
    | some c => c.source.over operand.expand
    | none => .column ()
  | _, _ => .column ()

/-- The conditions of the selections above the core, the innermost first. -/
def filters : Relation → List (Expr Unit)
  | .selection _ operand condition => operand.filters ++ [condition.over operand.expand]
  | .projection _ operand _ _ => operand.filters
  | _ => []

/-- The conditions of the joins down the left, the innermost first. -/
def joinConditions : Relation → List (Expr Unit)
  | .join _ _ left _ condition => left.joinConditions ++ [condition.over fun _ => .column ()]
  | _ => []

theorem joinConditions_of_joinChain_nil {r : Relation} (h : r.joinChain = []) :
    r.joinConditions = [] := by
  cases r with
  | table t => rfl
  | selection id operand condition => rfl
  | projection id operand whole shown => rfl
  | join id kind left right condition => cases h

/-- What a relation passes on to its operands it passes on to its core. -/
theorem core_of_inherited {M : Relation → Prop} (hM : Inherited M) {r : Relation} (hr : M r) :
    M r.core := by
  induction r with
  | table t => exact hr
  | selection id operand condition ih => exact ih (hM.selection hr)
  | projection id operand whole shown ih => exact ih (hM.projection hr)
  | join id kind left right condition => exact hr

end Relation

namespace Sql

open RelationalAlgebra.Relation

/-! ## Labels -/

mutual

/-- The label of a unit and those within it. -/
def FromUnit.aliases : FromUnit → List String
  | .table _ => []
  | .subquery _ label _ query => label :: queryAliases query

/-- The labels of the subqueries of a query, the outer before the inner and from left to right. -/
def queryAliases : QueryOf FromUnit → List String
  | ⟨_, _, source, _, units, _, _⟩ =>
    match source with
    | some source => source.gather (unitAliases units)
    | none => []

/-- The labels of each unit. -/
def unitAliases : List FromUnit → List (List String)
  | [] => []
  | unit :: rest => unit.aliases :: unitAliases rest

end

/-- The labels of the subqueries of a query, the outer before the inner and from left to right. -/
def Query.aliases (q : Query) : List String := queryAliases q

theorem FromUnit.aliases_subquery (r : Relation) (label : String) (exposed : List (Option String))
    (q : Query) : (FromUnit.subquery r label exposed q).aliases = label :: q.aliases := rfl

theorem unitAliases_eq_map (units : List FromUnit) : unitAliases units = units.map (·.aliases) := by
  induction units with
  | nil => rfl
  | cons u rest ih => rw [unitAliases, ih, List.map_cons]

/-- A `FROM` clause that names the units in their order holds what they hold. -/
theorem Source.gather_of_units {α : Type} {source : Source} {lists : List (List α)}
    (h : source.units = List.range lists.length) : source.gather lists = lists.flatten := by
  rw [Source.gather, h, List.flatMap_def]
  congr 1
  refine List.ext_getElem (by simp) fun i hi hi' => ?_
  simp [hi']

/-! ## Placeholders -/

namespace Placeholders

variable {p p' : Placeholders} {name : String} {value : Value}

/-- Gives names to several values. -/
def addAll (p : Placeholders) (values : List Value) : Placeholders :=
  values.foldl (fun p value => (p.add value).2) p

theorem addAll_append (p : Placeholders) (values values' : List Value) :
    p.addAll (values ++ values') = (p.addAll values).addAll values' := List.foldl_append ..

/-- Values that are added have the next names. -/
theorem entries_addAll (p : Placeholders) (values : List Value) :
    (p.addAll values).entries =
      p.entries ++ values.mapIdx fun i value => (nameOf (p.entries.length + i + 1), value) := by
  induction values generalizing p with
  | nil => simp [addAll]
  | cons value rest ih =>
    have hnext := ih (p.add value).2
    rw [addAll] at hnext ⊢
    rw [List.foldl_cons, hnext, List.mapIdx_cons]
    simp [add, Nat.add_assoc, Nat.add_comm 1]

/-- A name keeps its value. -/
theorem Extends.get? (h : p.Extends p') (hget : p.get? name = some value) :
    p'.get? name = some value := by
  induction h with
  | refl => exact hget
  | add _ ih =>
    rw [Placeholders.get?, Placeholders.add, List.lookup_append, ← Placeholders.get?, ih,
      Option.some_or]

/-- A new name is found with its value. -/
theorem Numbered.get?_add (hp : p.Numbered) (value : Value) :
    (p.add value).2.get? (p.add value).1 = some value := by
  have hnumbered : (p.add value).2.Numbered := (Extends.add .refl).numbered hp
  exact hnumbered.get?_eq (i := p.entries.length) (by simp [add])

/-- The names with values are those of numbers. -/
theorem Numbered.exists_nameOf (hp : p.Numbered) (h : p.get? name = some value) :
    ∃ n, name = nameOf n := by
  obtain ⟨before, after, hentries, -⟩ := List.lookup_eq_some_iff.1 h
  exact ⟨before.length + 1, hp before.length (name, value) (by simp [hentries])⟩

/-- The expression with the values written for the placeholders, if they all have one, and with a
blank for each column. -/
def fillIn (p : Placeholders) : SqlExpr → Option (Expr Unit)
  | .column _ => some (.column ())
  | .placeholder name => (p.get? name).map .literal
  | .equal left right => do
    let left ← p.fillIn left
    let right ← p.fillIn right
    return .equal left right
  | .aggregate function argument => (p.fillIn argument).map (.aggregate function)

/-- More placeholders fill in what fewer do. -/
theorem Extends.fillIn (h : p.Extends p') {e : SqlExpr} {x : Expr Unit}
    (he : p.fillIn e = some x) : p'.fillIn e = some x := by
  induction e generalizing x with
  | column c => exact he
  | placeholder name =>
    obtain ⟨value, hvalue, rfl⟩ := Option.map_eq_some_iff.1 he
    rw [Placeholders.fillIn, h.get? hvalue, Option.map_some]
  | equal left right ihl ihr =>
    obtain ⟨l, hl, he⟩ := Option.bind_eq_some_iff.1 he
    obtain ⟨r, hr, he⟩ := Option.bind_eq_some_iff.1 he
    rw [← he, Placeholders.fillIn, ihl hl, ihr hr]
    rfl
  | aggregate function argument ih =>
    obtain ⟨y, hy, rfl⟩ := Option.map_eq_some_iff.1 he
    rw [Placeholders.fillIn, ih hy, Option.map_some]

end Placeholders

variable {M : Relation → Prop} {a : Algebra} {root r : Relation} {n m n' : Numbering}
  {q s : Query} {columns : List SqlExpr} {source : Source} {units : List FromUnit} {u : FromUnit}
  {reads : Nat → SqlExpr → Prop} {p p' : Placeholders} {e : SqlExpr} {expr : Expr Nat}
  {labels labels' : List String} {values values' : List Value}

/-! ## Queries within queries, with the numbering -/

/-- The query of a relation has the `FROM` clause of its core, which takes the first numbers. -/
theorem Compiles.exists_core (h : Compiles root r n q columns n') :
    ∃ source m, q.source = some source ∧ Lays r.core n source q.units m ∧ m.Upto n' := by
  induction r generalizing q columns n' with
  | table t => cases h with | table => exact ⟨_, n, rfl, .leaf rfl .table, .rfl⟩
  | selection id operand condition ih =>
    cases h with
    | selection compiles fills =>
      obtain ⟨source, m, hsource, lays, hupto⟩ := ih compiles
      exact ⟨source, m, hsource, lays, hupto.fill fills.extends⟩
  | projection id operand whole shown ih =>
    cases h with
    | projection compiles fills =>
      obtain ⟨source, m, hsource, lays, hupto⟩ := ih compiles
      refine ⟨source, m, ?_, ?_, hupto.fill fills.extends⟩
      · rw [Query.reshape_source]
        exact hsource
      · rw [Query.reshape_units]
        exact lays
  | join id kind left right condition ihl ihr =>
    cases h with
    | join lays => exact ⟨_, n', rfl, lays, .rfl⟩

/-- Each unit takes its numbers from those of the `FROM` clause. -/
theorem Lays.exists_stands_upto (hM : Inherited M) (hr : M r) (h : Lays r n source units n')
    (hu : u ∈ units) : ∃ s, M s ∧ ∃ n₁ n₂, n.Upto n₁ ∧ Stands s n₁ u n₂ ∧ n₂.Upto n' := by
  induction h using Lays.chainInduction with
  | leaf hleaf stands =>
    obtain rfl := List.mem_singleton.1 hu
    exact ⟨_, hr, _, _, .rfl, stands, .rfl⟩
  | join lays stands fills ih =>
    rcases List.mem_append.1 hu with hu | hu
    · obtain ⟨s, hs, n₁, n₂, hn, hstands, hn'⟩ := ih (hM.left hr) hu
      exact ⟨s, hs, n₁, n₂, hn, hstands, (hn'.trans stands.upto).fill fills.extends⟩
    · obtain rfl := List.mem_singleton.1 hu
      exact ⟨_, hM.right hr, _, _, lays.upto, stands, Numbering.Upto.rfl.fill fills.extends⟩

/-- What is within the query of a relation is the query of the relation or of one below it, and
takes its numbers from those of the whole query. -/
theorem Compiles.of_within_upto (hM : Inherited M) (hr : M r) (h : Compiles r r n q columns n')
    (hs : Within q s) :
    ∃ r', M r' ∧ ∃ n₁ columns' n₂, n.Upto n₁ ∧ Compiles r' r' n₁ s columns' n₂ ∧ n₂.Upto n' := by
  induction hs generalizing r n columns n' with
  | self => exact ⟨r, hr, n, columns, n', .rfl, h, .rfl⟩
  | unit mem within ih =>
    obtain ⟨source, m, -, lays, hm⟩ := h.exists_core
    obtain ⟨r', hr', n₁, n₂, hn, stands, hn'⟩ :=
      lays.exists_stands_upto hM (core_of_inherited hM hr) mem
    cases stands with
    | subquery nested compiles =>
      obtain ⟨r'', hr'', n₃, columns', n₄, hn₃, compiles', hn₄⟩ := ih hr' compiles
      refine ⟨r'', hr'', n₃, columns', n₄, hn.trans ?_, compiles', hn₄.trans (hn'.trans hm)⟩
      exact ⟨Nat.le_of_succ_le hn₃.subqueries, hn₃.placeholders⟩

/-- A query knows the relation it is built for. -/
theorem Compiles.relation_eq (h : Compiles root r n q columns n') : q.relation = root := by
  induction r generalizing q columns n' with
  | table t => cases h with | table => rfl
  | selection id operand condition ih =>
    cases h with
    | selection compiles fills =>
      have hoperand := ih compiles
      exact hoperand
  | projection id operand whole shown ih =>
    cases h with
    | projection compiles fills =>
      have hoperand := ih compiles
      cases whole with
      | none => exact hoperand
      | some t => exact hoperand
  | join id kind left right condition ihl ihr => cases h with | join => rfl

/-! ## What is given out -/

/-- The labels and the placeholders for the values are given out from `n` on, in this order and no
others, and the numbering then stands at `n'`. -/
structure Numbering.Gives (n : Numbering) (labels : List String) (values : List Value)
    (n' : Numbering) : Prop where
  subqueries : n'.subqueries = n.subqueries + labels.length
  labels : labels = (List.range' (n.subqueries + 1) labels.length).map labelOf
  placeholders : n'.placeholders = n.placeholders.addAll values

theorem Numbering.Gives.nothing : n.Gives [] [] n := ⟨rfl, rfl, rfl⟩

theorem Numbering.Gives.trans (h : n.Gives labels values m) (h' : m.Gives labels' values' n') :
    n.Gives (labels ++ labels') (values ++ values') n' where
  labels := by
    have hstart : m.subqueries + 1 = n.subqueries + 1 + labels.length := by
      rw [h.subqueries]
      omega
    rw [List.length_append, ← List.range'_append_1, List.map_append, ← hstart, ← h.labels,
      ← h'.labels]
  subqueries := by rw [h'.subqueries, h.subqueries, List.length_append, Nat.add_assoc]
  placeholders := by rw [h'.placeholders, h.placeholders, Placeholders.addAll_append]

/-- An expression takes one placeholder for each of its literals, and none for its columns. -/
theorem Fills.eq_addAll (h : Fills reads expr p e p') : p' = p.addAll expr.literals := by
  induction h with
  | column read => rfl
  | literal => rfl
  | aliased _ ih => exact ih
  | equal _ _ ihl ihr => rw [Expr.literals, Placeholders.addAll_append, ← ihl, ihr]
  | aggregate _ ih => exact ih

theorem FillsAll.eq_addAll {shown : List OutputColumn} {entries : List SelectEntry}
    (h : FillsAll reads shown p entries p') :
    p' = p.addAll (shown.flatMap (·.source.literals)) := by
  induction h with
  | nil => rfl
  | cons head tail ih =>
    rw [List.flatMap_cons, Placeholders.addAll_append, ← head.eq_addAll, ih]

/-- Literals take no labels. -/
theorem Numbering.Gives.fill {k : Nat} (h : n.Gives labels values ⟨k, p⟩)
    (hp : p' = p.addAll values') : n.Gives labels (values ++ values') ⟨k, p'⟩ where
  labels := h.labels
  subqueries := h.subqueries
  placeholders := by
    have hplaceholders : p = n.placeholders.addAll values := h.placeholders
    rw [Placeholders.addAll_append, ← hplaceholders]
    exact hp

/-- The labels of a query are those of the units of its `FROM` clause. -/
theorem Compiles.aliases_eq (h : Compiles root r n q columns n') :
    q.aliases = q.units.flatMap (·.aliases) := by
  obtain ⟨source, m, hsource, lays, -⟩ := h.exists_core
  obtain ⟨relation, entries, source', conditions, units, shape, projected⟩ := q
  obtain rfl : source' = some source := hsource
  have hunits : source.units = List.range (unitAliases units).length := by
    rw [unitAliases_eq_map, List.length_map, lays.source_units]
  rw [Query.aliases, queryAliases]
  simp only [Source.gather_of_units hunits]
  rw [unitAliases_eq_map, List.flatMap_def]

theorem Stands.gives_of (h : Stands r n u n')
    (hwhole : ∀ {root n q columns n'}, Compiles root r n q columns n' →
      n.Gives q.aliases r.literals n') : n.Gives u.aliases r.literals n' := by
  cases h with
  | table => exact .nothing
  | @subquery _ _ _ q _ nested compiles =>
    obtain ⟨hsubqueries, hlabels, hplaceholders⟩ := hwhole compiles
    rw [FromUnit.aliases_subquery]
    refine ⟨?_, ?_, hplaceholders⟩
    · rw [hsubqueries, List.length_cons, Nat.add_assoc, Nat.add_comm 1]
    · rw [List.length_cons, List.range'_succ, List.map_cons, ← hlabels, labelOf]

theorem Lays.gives_of_leaf (h : Lays r n source units n') (hleaf : r.joinChain = [])
    (hwhole : ∀ {root n q columns n'}, Compiles root r n q columns n' →
      n.Gives q.aliases r.literals n') : n.Gives (units.flatMap (·.aliases)) r.literals n' := by
  cases h with
  | leaf _ stands =>
    rw [List.flatMap_singleton]
    exact stands.gives_of hwhole
  | join => cases hleaf

theorem gives (r : Relation) :
    (∀ {root n q columns n'}, Compiles root r n q columns n' → n.Gives q.aliases r.literals n') ∧
      ∀ {n source units n'}, Lays r n source units n' →
        n.Gives (units.flatMap (·.aliases)) r.literals n' := by
  induction r with
  | table t =>
    have hwhole : ∀ {root n q columns n'}, Compiles root (.table t) n q columns n' →
        n.Gives q.aliases (Relation.table t).literals n' := by
      intro root n q columns n' h
      rw [h.aliases_eq]
      cases h with
      | table => exact .nothing
    exact ⟨hwhole, fun h => h.gives_of_leaf rfl hwhole⟩
  | selection id operand condition ih =>
    have hwhole : ∀ {root n q columns n'},
        Compiles root (.selection id operand condition) n q columns n' →
          n.Gives q.aliases (Relation.selection id operand condition).literals n' := by
      intro root n q columns n' h
      rw [h.aliases_eq]
      cases h with
      | selection compiles fills =>
        have hoperand := (ih.1 compiles).fill fills.eq_addAll
        rw [compiles.aliases_eq] at hoperand
        exact hoperand
    exact ⟨hwhole, fun h => h.gives_of_leaf rfl hwhole⟩
  | projection id operand whole shown ih =>
    have hwhole : ∀ {root n q columns n'},
        Compiles root (.projection id operand whole shown) n q columns n' →
          n.Gives q.aliases (Relation.projection id operand whole shown).literals n' := by
      intro root n q columns n' h
      rw [h.aliases_eq]
      cases h with
      | projection compiles fills =>
        have hoperand := (ih.1 compiles).fill fills.eq_addAll
        rw [compiles.aliases_eq] at hoperand
        rw [Query.reshape_units]
        exact hoperand
    exact ⟨hwhole, fun h => h.gives_of_leaf rfl hwhole⟩
  | join id kind left right condition ihl ihr =>
    have hoperand : ∀ {n source units n'},
        Lays (.join id kind left right condition) n source units n' →
          n.Gives (units.flatMap (·.aliases))
            (Relation.join id kind left right condition).literals n' := by
      intro n source units n' h
      cases h with
      | leaf leaf => cases leaf
      | join lays stands fills =>
        rw [List.flatMap_append, List.flatMap_singleton]
        exact ((ihl.2 lays).trans (stands.gives_of ihr.1)).fill fills.eq_addAll
    refine ⟨?_, hoperand⟩
    intro root n q columns n' h
    rw [h.aliases_eq]
    cases h with
    | join lays => exact hoperand lays

/-- A query gives out the labels of its subqueries and a placeholder for each literal of its
relation. -/
theorem Compiles.gives (h : Compiles root r n q columns n') : n.Gives q.aliases r.literals n' :=
  (Sql.gives r).1 h

/-! ## The values of the placeholders -/

/-- The conditions of the joins, the innermost first. -/
def Source.conditions : Source → List SqlExpr
  | .unit _ => []
  | .join _ left _ condition => left.conditions ++ [condition]

/-- The expressions of a query: those of its select list, its joins and its conditions.  The
expressions of its subqueries are not its own. -/
def Query.expressions (q : Query) : List SqlExpr :=
  (q.entries.getD []).map (·.expr) ++ (q.source.elim [] (·.conditions) ++ q.conditions)

theorem Query.mem_expressions : e ∈ q.expressions ↔
    (∃ list, q.entries = some list ∧ ∃ entry ∈ list, entry.expr = e) ∨
      (∃ source, q.source = some source ∧ e ∈ source.conditions) ∨ e ∈ q.conditions := by
  rw [Query.expressions, List.mem_append, List.mem_append]
  refine or_congr ?_ (or_congr ?_ Iff.rfl)
  · cases q.entries <;> simp
  · cases q.source <;> simp

/-- With the values of the placeholders, the expressions of a query are those of the relation. -/
structure Query.Bears (p : Placeholders) (q : Query) (r : Relation) : Prop where
  entries : ∀ list, q.entries = some list →
    list.map (p.fillIn ·.expr) = (List.range r.width).map fun i => some (r.expand i)
  conditions : q.conditions.map p.fillIn = r.filters.map some
  joins : ∃ source, q.source = some source ∧
    source.conditions.map p.fillIn = r.core.joinConditions.map some

/-- The expressions of the select list are those of the columns. -/
theorem Query.Bears.exprs (h : q.Bears p r) {list : List SelectEntry}
    (hlist : q.entries = some list) :
    (list.map (·.expr)).map p.fillIn = ((List.range r.width).map r.expand).map some := by
  rw [List.map_map, List.map_map]
  exact h.entries list hlist

/-- Each expression of such a query is filled in. -/
theorem Query.Bears.exists_fillIn (h : q.Bears p r) (he : e ∈ q.expressions) :
    ∃ x, p.fillIn e = some x := by
  have hsome : ∀ {filled : List (Expr Unit)} {list : List SqlExpr},
      list.map p.fillIn = filled.map some → e ∈ list → ∃ x, p.fillIn e = some x := by
    intro filled list hlist hmem
    obtain ⟨x, -, hx⟩ := List.mem_map.1 (hlist ▸ List.mem_map_of_mem hmem)
    exact ⟨x, hx.symm⟩
  rcases Query.mem_expressions.1 he with
    ⟨list, hlist, entry, hentry, rfl⟩ | ⟨source, hsource, he⟩ | he
  · exact hsome (h.exprs hlist) (List.mem_map_of_mem hentry)
  · obtain ⟨source', hsource', hjoins⟩ := h.joins
    obtain rfl := Option.some.inj (hsource.symm.trans hsource')
    exact hsome hjoins he
  · exact hsome h.conditions he

/-- What fewer placeholders fill in is filled in by more of them. -/
theorem map_fillIn_of_extends (h : p.Extends p') {list : List SqlExpr} {filled : List (Expr Unit)}
    (hlist : list.map p.fillIn = filled.map some) : list.map p'.fillIn = filled.map some := by
  rw [← hlist]
  refine List.map_congr_left fun e he => ?_
  have hmem : p.fillIn e ∈ filled.map some := hlist ▸ List.mem_map_of_mem he
  obtain ⟨x, -, hx⟩ := List.mem_map.1 hmem
  rw [← hx, h.fillIn hx.symm]

/-- An expression with the values of its placeholders is the expression it was written for. -/
theorem Fills.fillIn (h : Fills reads expr p e p') (hp : p.Numbered)
    {written : Nat → Expr Unit} (hreads : ∀ i e, reads i e → p.fillIn e = some (written i)) :
    p'.fillIn e = some (expr.over written) := by
  induction h with
  | column read => exact hreads _ _ read
  | literal => rw [Placeholders.fillIn, hp.get?_add, Option.map_some, Expr.over]
  | aliased _ ih => exact ih hp hreads
  | equal left right ihl ihr =>
    have hl := right.extends.fillIn (ihl hp hreads)
    have hr := ihr (left.extends.numbered hp) fun i e he => left.extends.fillIn (hreads i e he)
    rw [Placeholders.fillIn, hl, hr]
    rfl
  | aggregate _ ih =>
    rw [Placeholders.fillIn, ih hp hreads]
    rfl

theorem FillsAll.fillIn {shown : List OutputColumn} {entries : List SelectEntry}
    (h : FillsAll reads shown p entries p') (hp : p.Numbered) {written : Nat → Expr Unit}
    (hreads : ∀ i e, reads i e → p.fillIn e = some (written i)) :
    entries.map (p'.fillIn ·.expr) = shown.map fun c => some (c.source.over written) := by
  induction h with
  | nil => rfl
  | cons head tail ih =>
    have hrest := ih (head.extends.numbered hp) fun i e he => head.extends.fillIn (hreads i e he)
    rw [List.map_cons, List.map_cons, hrest, tail.extends.fillIn (head.fillIn hp hreads)]

/-- A `FROM` clause reads columns as references, which hold no placeholder. -/
theorem Reads.fillIn {chain : List Relation} {i : Nat} (h : Reads chain units r i e) :
    p.fillIn e = some (.column ()) := by
  obtain ⟨u, -, j, hj⟩ := h.exists_unit
  obtain ⟨name, rfl⟩ := FromUnit.exists_name_of_column? hj
  rfl

/-- The conditions of a `FROM` clause are those of its joins. -/
theorem Lays.bears (h : Lays r n source units n') (hn : n.placeholders.Numbered) :
    source.conditions.map n'.placeholders.fillIn = r.joinConditions.map some := by
  induction h using Lays.chainInduction with
  | leaf hleaf stands =>
    rw [joinConditions_of_joinChain_nil hleaf]
    rfl
  | @join id kind left right condition n n' source units u k p p' e lays stands fills ih =>
    have hupto := lays.upto.trans stands.upto
    have hleft := map_fillIn_of_extends (stands.upto.placeholders.trans fills.extends) (ih hn)
    have hcondition := fills.fillIn (hupto.placeholders.numbered hn) fun i e he => he.fillIn
    rw [Source.conditions, List.map_append, hleft, joinConditions, List.map_append,
      List.map_singleton, hcondition, List.map_singleton]

/-- The columns of a relation are written as the expressions they are over the columns of the core,
and the conditions of the selections as theirs. -/
theorem Compiles.bears_whole (ha : a.Sound) (hr : r ∈ a.relations)
    (h : Compiles root r n q columns n') (hn : n.placeholders.Numbered) :
    (∀ i e, columns[i]? = some e → n'.placeholders.fillIn e = some (r.expand i)) ∧
      q.conditions.map n'.placeholders.fillIn = r.filters.map some := by
  induction r generalizing q columns n' with
  | table t =>
    cases h with
    | table =>
      refine ⟨fun i e he => ?_, rfl⟩
      rw [List.getElem?_map] at he
      obtain ⟨c, -, rfl⟩ := Option.map_eq_some_iff.1 he
      rfl
  | selection id operand condition ih =>
    cases h with
    | selection compiles fills =>
      obtain ⟨hcolumns, hconditions⟩ := ih (ha.selection_operand hr).1 compiles
      refine ⟨fun i e he => fills.extends.fillIn (hcolumns i e he), ?_⟩
      have hcondition := fills.fillIn (compiles.upto.placeholders.numbered hn) hcolumns
      rw [List.map_append, map_fillIn_of_extends fills.extends hconditions, filters,
        List.map_append, List.map_singleton, hcondition, List.map_singleton]
  | projection id operand whole shown ih =>
    cases h with
    | projection compiles fills =>
      obtain ⟨hcolumns, hconditions⟩ := ih (ha.projection_operand hr).1 compiles
      have hentries := fills.fillIn (compiles.upto.placeholders.numbered hn) hcolumns
      refine ⟨fun i e he => ?_, ?_⟩
      · rw [List.getElem?_map] at he
        obtain ⟨entry, hentry, rfl⟩ := Option.map_eq_some_iff.1 he
        have hshown := congrArg (·[i]?) hentries
        simp only [List.getElem?_map, hentry, Option.map_some] at hshown
        obtain ⟨c, hc, hsource⟩ := Option.map_eq_some_iff.1 hshown.symm
        rw [← hsource, expand, hc]
      · rw [Query.reshape_conditions]
        exact map_fillIn_of_extends fills.extends hconditions
  | join id kind left right condition ihl ihr =>
    obtain ⟨source, units, -, rfl, hreads⟩ := h.join_cases ha hr
    exact ⟨fun i e he => (hreads i e he).fillIn, rfl⟩

/-- The query of a relation bears its literals. -/
theorem Compiles.bears (ha : a.Sound) (hr : r ∈ a.relations)
    (h : Compiles root r n q columns n') (hn : n.placeholders.Numbered) :
    q.Bears n'.placeholders r := by
  obtain ⟨hcolumns, hconditions⟩ := h.bears_whole ha hr hn
  obtain ⟨source, m, hsource, lays, hupto⟩ := h.exists_core
  refine ⟨fun list hlist => ?_, hconditions, source, hsource, ?_⟩
  · have hmap : list.map (n'.placeholders.fillIn ·.expr) =
        columns.map n'.placeholders.fillIn := by
      rw [← h.entries_some hlist, List.map_map]
      rfl
    rw [hmap]
    refine List.ext_getElem (by simp [h.length]) fun i hi hi' => ?_
    rw [List.getElem_map, List.getElem_map, List.getElem_range]
    exact hcolumns i _ (List.getElem?_eq_getElem _)
  · exact map_fillIn_of_extends hupto.placeholders (lays.bears hn)

theorem Query.Bears.mono (hp : p.Extends p') (h : q.Bears p r) : q.Bears p' r := by
  obtain ⟨source, hsource, hjoins⟩ := h.joins
  refine ⟨fun list hlist => ?_, map_fillIn_of_extends hp h.conditions, source, hsource,
    map_fillIn_of_extends hp hjoins⟩
  have hmore := map_fillIn_of_extends hp (h.exprs hlist)
  rw [List.map_map, List.map_map] at hmore
  exact hmore

/-- Each query within that of a relation bears the literals of its own relation. -/
theorem Compiles.bears_within (ha : a.Sound) (hr : r ∈ a.relations)
    (h : Compiles r r ⟨0, .empty⟩ q columns n') (hs : Within q s) :
    s.Bears n'.placeholders s.relation := by
  obtain ⟨r', hr', n₁, _, n₂, hn, hrules, hn'⟩ := h.of_within_upto (inherited_mem ha) hr hs
  rw [hrules.relation_eq]
  have hnumbered := hn.placeholders.numbered Placeholders.numbered_empty
  exact (hrules.bears ha hr' hnumbered).mono hn'.placeholders

/-! ## The main statement -/

/-- A relation that a session built compiles to a query whose subqueries, at all levels, have the
labels `t1`, `t2`, … without a gap, and whose placeholders `v1`, `v2`, … have the literals of the
relation for values, one for each place a literal is compiled at.  Wherever a placeholder stands in
the query or in a subquery, its value is the literal that was written there. -/
theorem compile_numbering (h : a.Reachable) (hr : r ∈ a.relations) :
    ∃ c, compile r = .ok c ∧
      (∃ count, c.query.aliases = (List.range count).map fun i => "t" ++ toString (i + 1)) ∧
      c.placeholders.entries =
        r.literals.mapIdx (fun i value => ("v" ++ toString (i + 1), value)) ∧
      c.query.relation = r ∧
      ∀ s, Within c.query s → s.Bears c.placeholders s.relation := by
  have ha := h.sound
  obtain ⟨c, columns, k, hcompile, hrules⟩ := exists_compiles ha hr
  have hgives := hrules.gives
  refine ⟨c, hcompile, ⟨c.query.aliases.length, ?_⟩, ?_, hrules.relation_eq,
    fun s hs => hrules.bears_within ha hr hs⟩
  · have hlabels := hgives.labels
    rw [List.range'_eq_map_range, List.map_map] at hlabels
    refine hlabels.trans (List.map_congr_left fun i _ => ?_)
    rw [Function.comp, Nat.zero_add, Nat.add_comm, labelOf]
  · have hplaceholders : c.placeholders = Placeholders.empty.addAll r.literals :=
      hgives.placeholders
    rw [hplaceholders, Placeholders.entries_addAll]
    simp [Placeholders.empty, Placeholders.nameOf]

/-- The first blog with its posts: one subquery, and one placeholder for the literal of the
selection. -/
theorem compile_numbering_firstPosts :
    ∃ c, compile Sample.firstPosts = .ok c ∧ c.query.aliases = ["t1"] ∧
      c.placeholders.entries = [("v1", .integer 1)] := by
  obtain ⟨c, hcompile, ⟨count, haliases⟩, hentries, -, -⟩ := compile_numbering Sample.reachable
    (show Sample.firstPosts ∈ Sample.algebra.relations by decide)
  have hrun : (compile Sample.firstPosts).map (·.query.aliases.length) = .ok 1 := by
    decide +kernel
  rw [hcompile] at hrun
  have hcount : c.query.aliases.length = 1 := Except.ok.inj hrun
  rw [haliases, List.length_map, List.length_range] at hcount
  subst hcount
  exact ⟨c, hcompile, haliases.trans (by decide), hentries.trans (by decide)⟩

end Sql

end RelationalAlgebra
