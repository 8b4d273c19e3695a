import Mathlib.Data.List.Nodup
import Mathlib.Data.Option.Basic
import RelationalAlgebra.Proofs.Lineage
import RelationalAlgebra.Proofs.Naming

/-!
# No two columns are written alike

A row that a query returns holds values by name, so the values of two columns can only be told apart
if the columns have different names there.  The names come from expressions, and these are different
as long as projections show nothing but columns and literals (`Relation.Simple`): a source is shown
once, and every literal takes a placeholder of its own.  It is enough that the sources differ without
the names given inside them, and that comparisons and aggregates are over columns that are neither
(`Relation.Telling`).

* `Compiles.columns_nodup`: the columns of a relation are written in different ways.
* `Query.rowNames` are the names a row of a query holds the columns under, and
  `Compiles.rowNames_nodup` says that they differ.
* `FromUnit.references` are the references to the columns of a unit; the columns of a join are
  the references to its units (`Lays.columns_eq`).
-/

namespace RelationalAlgebra

open RelationalAlgebra.Relation

/-! ## Relations that show columns and literals -/

/-- A column or a literal. -/
def Expr.Simple {α : Type} : Expr α → Prop
  | .column _ => True
  | .literal _ => True
  | _ => False

theorem Expr.Simple.unaliased_eq {α : Type} {expr : Expr α} (h : expr.Simple) :
    expr.unaliased = expr := by
  cases expr with
  | column => rfl
  | literal => rfl
  | aliased => cases h
  | equal => cases h
  | aggregate => cases h

namespace Relation

/-- Wherever single columns are projected, they are columns and literals as they are. -/
def Simple : Relation → Prop
  | .table _ => True
  | .selection _ operand _ => operand.Simple
  | .projection _ operand whole shown =>
    operand.Simple ∧ (whole = none → ∀ c ∈ shown, c.source.Simple)
  | .join _ _ left right _ => left.Simple ∧ right.Simple

theorem map_name_passThrough (columns : List OutputColumn) :
    (passThrough columns).map (·.name) = columns.map (·.name) := by
  apply List.ext_getElem <;> simp [passThrough]

/-- A selection keeps the names of the columns. -/
theorem columnNames_selection (id : Nat) (operand : Relation) (condition : Expr Nat) :
    (Relation.selection id operand condition).columnNames = operand.columnNames :=
  map_name_passThrough operand.columns

theorem columnNames_table (t : Table) :
    (Relation.table t).columnNames = t.columns.map (·.name) := by
  apply List.ext_getElem <;> simp [columnNames, columns]

/-- Each column is a column of a table or of a subquery, or a literal. -/
def Flat : Relation → Prop
  | .table _ => True
  | .selection _ operand _ => operand.Flat
  | .projection _ operand whole shown =>
    operand.Flat ∧ (whole = none → ∀ c ∈ shown, c.source.unaliased.Simple)
  | .join .. => True

/-- Wherever single columns are projected, they differ by more than the names given inside them, and
they are columns and literals or are over columns that are.  No join is the right operand of a join
whose left chain contains it. -/
def Telling : Relation → Prop
  | .table _ => True
  | .selection _ operand _ => operand.Telling
  | .projection _ operand whole shown =>
    operand.Telling ∧ (whole = none → (shown.map (·.source.unaliased)).Nodup ∧
      (operand.Flat ∨ ∀ c ∈ shown, c.source.unaliased.Simple))
  | .join _ _ left right _ => left.Telling ∧ right.Telling ∧ right ∉ left.joinChain

theorem Telling.apart {r : Relation} (h : r.Telling) : r.Apart := by
  induction r with
  | table t => trivial
  | selection id operand condition ih => exact ih h
  | projection id operand whole shown ih => exact ih h.1
  | join id kind left right condition ihl ihr => exact ⟨ihl h.1, ihr h.2.1, h.2.2⟩

section

variable {a : Algebra} {r operand : Relation} {id : Nat} {whole : Option Table}
  {shown : List OutputColumn}

/-- A projection of a whole table shows columns. -/
theorem sources_whole (ha : a.Sound) {t : Table}
    (hr : Relation.projection id operand (some t) shown ∈ a.relations) :
    ∀ c ∈ shown, ∃ j, c.source = .column j := by
  intro c hc
  obtain ⟨column, -, j, -, rfl⟩ := showsOneOf_of_wholeColumns (ha.whole_built hr).2 c hc
  exact ⟨j, rfl⟩

/-- What a projection shows is simple, also if it shows a whole table. -/
theorem sources_simple (ha : a.Sound)
    (hr : Relation.projection id operand whole shown ∈ a.relations)
    (h : whole = none → ∀ c ∈ shown, c.source.unaliased.Simple) :
    ∀ c ∈ shown, c.source.unaliased.Simple := by
  cases whole with
  | none => exact h rfl
  | some t =>
    intro c hc
    obtain ⟨j, hj⟩ := sources_whole ha hr c hc
    rw [hj]
    trivial

theorem map_unaliased_of_simple (h : ∀ c ∈ shown, c.source.Simple) :
    shown.map (·.source.unaliased) = shown.map (·.source) :=
  List.map_congr_left fun c hc => (h c hc).unaliased_eq

/-- What a projection shows differs by more than names, also if it shows a whole table. -/
theorem Telling.sources (ha : a.Sound)
    (hr : Relation.projection id operand whole shown ∈ a.relations)
    (h : (Relation.projection id operand whole shown).Telling) :
    (shown.map (·.source.unaliased)).Nodup ∧
      (operand.Flat ∨ ∀ c ∈ shown, c.source.unaliased.Simple) := by
  cases whole with
  | none => exact h.2 rfl
  | some t =>
    have hsimple : ∀ c ∈ shown, c.source.Simple := by
      intro c hc
      obtain ⟨j, hj⟩ := sources_whole ha hr c hc
      rw [hj]
      trivial
    rw [map_unaliased_of_simple hsimple]
    exact ⟨(ha.projection_shown hr).sources_nodup,
      .inr fun c hc => by rw [(hsimple c hc).unaliased_eq]; exact hsimple c hc⟩

/-- Columns and literals as they are differ by more than names. -/
theorem Simple.telling (ha : a.Sound) (hr : r ∈ a.relations) (hapart : r.Apart)
    (hsimple : r.Simple) : r.Telling := by
  induction r with
  | table t => trivial
  | selection id operand condition ih => exact ih (ha.selection_operand hr).1 hapart hsimple
  | projection id operand whole shown ih =>
    refine ⟨ih (ha.projection_operand hr).1 hapart hsimple.1, fun hwhole => ?_⟩
    have hsources := hsimple.2 hwhole
    rw [map_unaliased_of_simple hsources]
    exact ⟨(ha.projection_shown hr).sources_nodup,
      .inr fun c hc => by rw [(hsources c hc).unaliased_eq]; exact hsources c hc⟩
  | join id kind left right condition ihl ihr =>
    exact ⟨ihl (ha.join_left hr).1 hapart.1 hsimple.1,
      ihr (ha.join_right hr).1 hapart.2.1 hsimple.2, hapart.2.2⟩

end

end Relation

namespace Sql

open Placeholders

/-! ## Names within rows -/

/-- The names under which a row of a query holds the values of the columns of its relation: those
of the select list, and the columns' own if everything is shown. -/
def Query.rowNames (q : Query) (r : Relation) : List String :=
  match q.entries with
  | some entries => entries.map (·.name)
  | none => r.columnNames

namespace FromUnit

/-- The names under which a unit shows the columns of its relation. -/
def labels : FromUnit → List String
  | .table t => (Relation.table t).columnNames
  | .subquery r _ _ query => Query.rowNames query r

/-- The references to the columns of a unit. -/
def references (u : FromUnit) : List SqlColumn := u.labels.map fun name => ⟨u.qualifier, name⟩

/-- A unit that shows its columns under different names, each as a reference. -/
structure Regular (u : FromUnit) : Prop where
  length : u.labels.length = u.relation.width
  nodup : u.labels.Nodup
  column?_eq : ∀ i, u.column? i = u.references[i]?.map .column

end FromUnit

variable {a : Algebra} {root r : Relation} {n n' : Numbering} {q : Query}
  {columns : List SqlExpr} {source : Source} {units : List FromUnit} {u : FromUnit}
  {reads : Nat → SqlExpr → Prop} {p p' : Placeholders} {e : SqlExpr} {shown : List OutputColumn}
  {entries : List SelectEntry}

theorem Query.rowNames_some (h : q.entries = some entries) :
    q.rowNames r = entries.map (·.name) := by
  rw [rowNames, h]

theorem Query.rowNames_none (h : q.entries = none) : q.rowNames r = r.columnNames := by
  rw [rowNames, h]

/-! ## Placeholders are fresh -/

theorem Placeholders.Extends.length_le (h : p.Extends p') :
    p.entries.length ≤ p'.entries.length := by
  induction h with
  | refl => exact Nat.le_refl _
  | add _ ih =>
    simp only [Placeholders.add, List.length_append, List.length_singleton]
    omega

/-- The placeholders among the expressions have been given out. -/
def GivenOut (p : Placeholders) (columns : List SqlExpr) : Prop :=
  ∀ name, .placeholder name ∈ columns → ∃ k ≤ p.entries.length, name = nameOf k

theorem GivenOut.mono (h : GivenOut p columns) (hp : p.Extends p') : GivenOut p' columns := by
  intro name hname
  obtain ⟨k, hk, hnameOf⟩ := h name hname
  exact ⟨k, Nat.le_trans hk hp.length_le, hnameOf⟩

/-- A name that is given out later is not among them. -/
theorem GivenOut.not_mem (h : GivenOut p columns) {k : Nat} (hk : p.entries.length < k) :
    .placeholder (nameOf k) ∉ columns := by
  intro hmem
  obtain ⟨j, hj, heq⟩ := h _ hmem
  have hjk := nameOf_inj heq
  omega

/-- References are no placeholders. -/
theorem givenOut_of_references (p : Placeholders) (cs : List SqlColumn) :
    GivenOut p (cs.map .column) := by
  intro name hname
  simp at hname

/-- The placeholders within the expressions that are written for a list of columns. -/
theorem Fills.givenOut {expr : Expr Nat} (h : Fills (fun i e => columns[i]? = some e) expr p e p')
    (hgiven : GivenOut p columns) : GivenOut p' [e] := by
  induction h with
  | column read =>
    intro name hname
    rw [← List.mem_singleton.1 hname] at read
    exact hgiven name (List.mem_of_getElem? read)
  | @literal value p =>
    intro name hname
    refine ⟨p.entries.length + 1, by simp [Placeholders.add], ?_⟩
    exact SqlExpr.placeholder.inj (List.mem_singleton.1 hname)
  | aliased _ ih => exact ih hgiven
  | equal => intro name hname; cases List.mem_singleton.1 hname
  | aggregate => intro name hname; cases List.mem_singleton.1 hname

theorem FillsAll.givenOut (h : FillsAll (fun i e => columns[i]? = some e) shown p entries p')
    (hgiven : GivenOut p columns) : GivenOut p' (entries.map (·.expr)) := by
  induction h with
  | nil => intro name hname; cases hname
  | cons head tail ih =>
    intro name hname
    rcases List.mem_cons.1 hname with hname | hname
    · exact (head.givenOut hgiven).mono tail.extends name (List.mem_singleton.2 hname)
    · exact ih (hgiven.mono head.extends) name hname

/-! ## Different sources are written in different ways -/

/-- A reference or a placeholder. -/
def SqlExpr.IsAtom : SqlExpr → Prop
  | .column _ => True
  | .placeholder _ => True
  | _ => False

/-- A column or a literal is written as a column or as a placeholder. -/
theorem Fills.isAtom {expr : Expr Nat} (h : Fills (fun i e => columns[i]? = some e) expr p e p')
    (hatoms : ∀ e ∈ columns, e.IsAtom) (hsimple : expr.unaliased.Simple) : e.IsAtom := by
  induction h with
  | column read => exact hatoms _ (List.mem_of_getElem? read)
  | literal => trivial
  | aliased _ ih => exact ih hsimple
  | equal => cases hsimple
  | aggregate => cases hsimple

/-- An entry of a select list is written for one of the sources. -/
theorem FillsAll.exists_fills_of_mem (h : FillsAll reads shown p entries p')
    {entry : SelectEntry} (hentry : entry ∈ entries) :
    ∃ c ∈ shown, ∃ p₁ p₂, p.Extends p₁ ∧ Fills reads c.source p₁ entry.expr p₂ := by
  induction h with
  | nil => cases hentry
  | cons head tail ih =>
    rcases List.mem_cons.1 hentry with rfl | hentry
    · exact ⟨_, List.mem_cons_self .., _, _, .refl, head⟩
    · obtain ⟨c, hc, p₁, p₂, hextends, hfills⟩ := ih hentry
      exact ⟨c, List.mem_cons_of_mem _ hc, p₁, p₂, head.extends.trans hextends, hfills⟩

section

variable (hnodup : columns.Nodup)

include hnodup

/-- Two expressions, one written behind the other, that come out alike differ at most by the names
given inside them.  Comparisons and aggregates can come out as a column that is one itself, so there are
to be no such columns, or else no such expressions. -/
theorem Fills.unaliased_eq {x y : Expr Nat} {p₁ p₁' p₂ p₂' : Placeholders}
    (hx : Fills (fun i e => columns[i]? = some e) x p₁ e p₁')
    (hy : Fills (fun i e => columns[i]? = some e) y p₂ e p₂')
    (hbehind : p₁'.entries.length ≤ p₂.entries.length) (hgiven : GivenOut p₁ columns)
    (hshape : (∀ e ∈ columns, e.IsAtom) ∨ x.unaliased.Simple ∧ y.unaliased.Simple) :
    x.unaliased = y.unaliased := by
  -- the second expression loses its names here, the first one as the induction meets them
  replace hy := hy.unaliased
  have hfree := Expr.unaliased_unaliased y
  generalize y.unaliased = z at hy hshape hfree ⊢
  induction hx generalizing z p₂ p₂' with
  | @column i e p₁ hread =>
    cases hy with
    | @column j _ _ hread' =>
      rw [← hread] at hread'
      have hlt := (List.getElem?_eq_some_iff.1 hread).1
      rw [Expr.unaliased, (List.getElem?_inj hlt hnodup).1 hread'.symm]
    | literal =>
      exact absurd (List.mem_of_getElem? hread) (hgiven.not_mem (by omega))
    | aliased => exact absurd hfree (Expr.unaliased_ne_aliased _ _ _)
    | equal =>
      rcases hshape with hatoms | ⟨-, hsimple⟩
      · cases hatoms _ (List.mem_of_getElem? hread)
      · cases hsimple
    | aggregate =>
      rcases hshape with hatoms | ⟨-, hsimple⟩
      · cases hatoms _ (List.mem_of_getElem? hread)
      · cases hsimple
  | @literal value p₁ =>
    simp only [Placeholders.add, List.length_append, List.length_singleton] at hbehind hy
    generalize he : SqlExpr.placeholder (nameOf (p₁.entries.length + 1)) = e at hy
    cases hy with
    | column hread =>
      rw [← he] at hread
      exact absurd (List.mem_of_getElem? hread) (hgiven.not_mem (Nat.lt_succ_self _))
    | literal =>
      have hnumber := nameOf_inj (SqlExpr.placeholder.inj he)
      omega
    | aliased => exact absurd hfree (Expr.unaliased_ne_aliased _ _ _)
    | equal => cases he
    | aggregate => cases he
  | aliased _ ih => exact ih hbehind hgiven _ hy hshape hfree
  | @equal left right p₁ p₁' p₁'' l r hl hr ihl ihr =>
    have hatoms := hshape.resolve_right fun h => h.1
    cases hy with
    | column hread => cases hatoms _ (List.mem_of_getElem? hread)
    | aliased => exact absurd hfree (Expr.unaliased_ne_aliased _ _ _)
    | equal hl' hr' =>
      obtain ⟨hfreel, hfreer⟩ := Expr.equal.inj hfree
      have hmono := hr.extends.length_le
      have hmono' := hl'.extends.length_le
      rw [Expr.unaliased, ihl (by omega) hgiven _ hl' (.inl hatoms) hfreel,
        ihr (by omega) (hgiven.mono hl.extends) _ hr' (.inl hatoms) hfreer]
  | aggregate _ ih =>
    have hatoms := hshape.resolve_right fun h => h.1
    cases hy with
    | column hread => cases hatoms _ (List.mem_of_getElem? hread)
    | aliased => exact absurd hfree (Expr.unaliased_ne_aliased _ _ _)
    | aggregate hy =>
      obtain ⟨-, hfree⟩ := Expr.aggregate.inj hfree
      rw [Expr.unaliased, ih hbehind hgiven _ hy (.inl hatoms) hfree]

/-- A select list of sources that differ by more than names, written over different columns, has
different entries. -/
theorem FillsAll.exprs_nodup (h : FillsAll (fun i e => columns[i]? = some e) shown p entries p')
    (hgiven : GivenOut p columns) (hsources : (shown.map (·.source.unaliased)).Nodup)
    (hshape : (∀ e ∈ columns, e.IsAtom) ∨ ∀ c ∈ shown, c.source.unaliased.Simple) :
    (entries.map (·.expr)).Nodup := by
  induction h with
  | nil => exact List.nodup_nil
  | @cons c shown e entries p p₁ p₂ head tail ih =>
    have hrest := hshape.imp_right fun hsimple d hd => hsimple d (List.mem_cons_of_mem c hd)
    rw [List.map_cons, List.nodup_cons] at hsources ⊢
    refine ⟨?_, ih (hgiven.mono head.extends) hsources.2 hrest⟩
    intro hmem
    obtain ⟨entry, hentry, hexpr : entry.expr = e⟩ := List.mem_map.1 hmem
    obtain ⟨d, hd, p₃, p₄, hextends, hfills⟩ := tail.exists_fills_of_mem hentry
    rw [hexpr] at hfills
    have hunaliased := head.unaliased_eq hnodup hfills hextends.length_le hgiven <|
      hshape.imp_right fun hsimple =>
        ⟨hsimple c (List.mem_cons_self ..), hsimple d (List.mem_cons_of_mem _ hd)⟩
    exact hsources.1 (List.mem_map.2 ⟨d, hd, hunaliased.symm⟩)

end

/-! ## The names of a query -/

/-- If all expressions are different, each is the only one of its entry. -/
theorem find?_expr (hnodup : (entries.map (·.expr)).Nodup) {entry : SelectEntry}
    (hentry : entry ∈ entries) : entries.find? (·.expr == entry.expr) = some entry := by
  cases hfound : entries.find? (·.expr == entry.expr) with
  | none =>
    have hnone := List.find?_eq_none.1 hfound entry hentry
    simp at hnone
  | some other =>
    have hmem := List.mem_of_find?_eq_some hfound
    have hexpr : other.expr = entry.expr := by simpa using List.find?_some hfound
    rw [List.inj_on_of_nodup_map hnodup hmem hentry hexpr]

/-- If everything is shown, the columns are references by their own names. -/
theorem Compiles.bareNames (h : Compiles root r n q columns n') (hentries : q.entries = none) :
    columns.map (·.bareName?) = r.columnNames.map some := by
  induction r generalizing q columns n' with
  | table t =>
    cases h with
    | table =>
      rw [columnNames_table]
      simp [SqlExpr.bareName?]
  | selection id operand condition ih =>
    cases h with
    | selection compiles fills =>
      rw [columnNames_selection]
      exact ih compiles hentries
  | projection id operand whole shown ih =>
    cases h with
    | projection compiles fills =>
      rw [Query.reshape_entries] at hentries
      cases hentries
  | join id kind left right condition ihl ihr => cases h with | join => cases hentries

section

variable (h : Compiles root r n q columns n') (hnodup : columns.Nodup)

include h hnodup

/-- A query shows its columns under the names of its rows. -/
theorem Compiles.map_nameOf? : columns.map q.nameOf? = (q.rowNames r).map some := by
  cases hentries : q.entries with
  | none =>
    have hname : q.nameOf? = SqlExpr.bareName? := by
      funext e
      rw [Query.nameOf?, hentries]
    rw [hname, h.bareNames hentries, Query.rowNames_none hentries]
  | some entries =>
    have hcolumns := h.entries_some hentries
    rw [← hcolumns] at hnodup ⊢
    rw [Query.rowNames_some hentries, List.map_map, List.map_map]
    refine List.map_congr_left fun entry hentry => ?_
    rw [Function.comp, Query.nameOf?, hentries]
    simp only [find?_expr hnodup hentry]
    rfl

/-- A row has a name for each column. -/
theorem Compiles.rowNames_length : (q.rowNames r).length = r.width := by
  have hlength := congrArg List.length (h.map_nameOf? hnodup)
  rw [List.length_map, List.length_map, h.length] at hlength
  exact hlength.symm

/-- The names within a row are different. -/
theorem Compiles.rowNames_nodup (ha : a.Sound) (hplain : a.PlainTables) (hr : r ∈ a.relations) :
    (q.rowNames r).Nodup := by
  cases hentries : q.entries with
  | none =>
    obtain ⟨t, ht, -, -, rfl⟩ := h.entries_none hr ha hentries
    have hbare := h.bareNames hentries
    have hnames : r.columnNames = t.columns.map (·.name) := by
      refine List.map_injective_iff.2 (Option.some_injective String) ?_
      rw [← hbare]
      simp [SqlExpr.bareName?]
    rw [Query.rowNames_none hentries, hnames]
    exact ha.table_columns_nodup ht
  | some entries =>
    have hcolumns := h.entries_some hentries
    rw [← hcolumns] at hnodup
    rw [Query.rowNames_some hentries]
    refine List.Nodup.map_on ?_ (hnodup.of_map _)
    intro x hx y hy hname
    exact List.inj_on_of_nodup_map hnodup hx hy
      (h.expr_eq_of_name_eq ha hplain hr hentries hx hy hname)

end

/-! ## Units -/

theorem FromUnit.nodup_references (h : u.Regular) : u.references.Nodup := by
  refine List.Nodup.map ?_ h.nodup
  intro name name' heq
  simpa using heq

theorem table_regular (ha : a.Sound) {t : Table} (ht : Relation.table t ∈ a.relations) :
    (FromUnit.table t).Regular where
  length := by simp [FromUnit.labels, FromUnit.relation, columnNames_table, width_table]
  nodup := by
    rw [FromUnit.labels, columnNames_table]
    exact ha.table_columns_nodup ht
  column?_eq i := by
    simp [FromUnit.column?, FromUnit.references, FromUnit.labels, FromUnit.qualifier,
      columnNames_table, Function.comp_def]

/-- A subquery shows the columns of its relation under the names of its rows. -/
theorem subquery_regular (ha : a.Sound) (hplain : a.PlainTables) (hr : r ∈ a.relations)
    {label : String} (h : Compiles root r n q columns n') (hnodup : columns.Nodup) :
    (FromUnit.subquery r label (columns.map q.nameOf?) q).Regular where
  length := h.rowNames_length hnodup
  nodup := h.rowNames_nodup hnodup ha hplain hr
  column?_eq i := by
    rw [FromUnit.column?, h.map_nameOf? hnodup]
    cases hname : (q.rowNames r)[i]? with
    | none => simp [FromUnit.references, FromUnit.labels, hname]
    | some name => simp [FromUnit.references, FromUnit.labels, FromUnit.qualifier, hname]

theorem Stands.regular (ha : a.Sound) (hplain : a.PlainTables) (hr : r ∈ a.relations)
    (hwhole : ∀ {root n q columns n'}, Compiles root r n q columns n' → columns.Nodup)
    (h : Stands r n u n') : u.Regular := by
  cases h with
  | table => exact table_regular ha hr
  | subquery nested compiles => exact subquery_regular ha hplain hr compiles (hwhole compiles)

/-- The references to different units are different. -/
theorem Lays.references_nodup (ha : a.Sound) (hr : r ∈ a.relations)
    (h : Lays r n source units n') (hregular : ∀ u ∈ units, u.Regular) :
    (units.flatMap (·.references)).Nodup := by
  refine List.nodup_flatMap.2 ⟨fun u hu => FromUnit.nodup_references (hregular u hu), ?_⟩
  have hqualifiers := h.qualifiers_nodup ha hr
  rw [List.Nodup, List.pairwise_map] at hqualifiers
  refine hqualifiers.imp ?_
  intro u v hne c hu hv
  obtain ⟨name, -, rfl⟩ := List.mem_map.1 hu
  obtain ⟨name', -, heq⟩ := List.mem_map.1 hv
  exact hne (SqlColumn.mk.inj heq).1.symm

/-- What a `FROM` clause reads as the columns of its relation are the references to its units, one
after the other. -/
theorem Lays.references (ha : a.Sound) (hr : r ∈ a.relations) (hapart : r.Apart)
    (h : Lays r n source units n') (hregular : ∀ u ∈ units, u.Regular) :
    (units.flatMap (·.references)).length = r.width ∧
      ∀ i e, Reads r.joinChain units r i e →
        (units.flatMap (·.references))[i]?.map .column = some e := by
  induction h using Lays.chainInduction with
  | @leaf r n u n' hleaf stands =>
    have hunit := hregular u (List.mem_singleton_self u)
    simp only [List.flatMap_singleton]
    refine ⟨?_, fun i e hreads => ?_⟩
    · rw [FromUnit.references, List.length_map, hunit.length, stands.relation_eq]
    · rw [hleaf] at hreads
      rw [← hunit.column?_eq]
      exact hreads.of_leaf
  | @join id kind left right condition n n' source units u k p p' e lays stands fills ih =>
    obtain ⟨hlength, hreads⟩ := ih (ha.join_left hr).1 hapart.1
      fun v hv => hregular v (List.mem_append_left _ hv)
    have hunit := hregular u (List.mem_append_right _ (List.mem_singleton_self u))
    have hwidth : u.references.length = right.width := by
      rw [FromUnit.references, List.length_map, hunit.length, stands.relation_eq]
    simp only [List.flatMap_append, List.flatMap_singleton]
    refine ⟨?_, fun i e h => ?_⟩
    · rw [List.length_append, hlength, hwidth,
        width_join (ne_of_not_mem_joinChain ha hr hapart.2.2)]
    · rcases h.join_cases ha hr hapart.2.2 lays.relations stands.relation_eq with
        ⟨hlt, h⟩ | ⟨hge, hcolumn⟩
      · rw [List.getElem?_append_left (by omega)]
        exact hreads i e h
      · rw [List.getElem?_append_right (by omega), hlength, ← hunit.column?_eq]
        exact hcolumn

/-- The columns of a join are written as the references to its units. -/
theorem Lays.columns_eq (ha : a.Sound) (hr : r ∈ a.relations) (hapart : r.Apart)
    (h : Lays r n source units n') (hregular : ∀ u ∈ units, u.Regular)
    (hwidth : columns.length = r.width)
    (hreads : ∀ i e, columns[i]? = some e → Reads r.joinChain units r i e) :
    columns = (units.flatMap (·.references)).map .column := by
  obtain ⟨hlength, hreferences⟩ := h.references ha hr hapart hregular
  refine List.ext_getElem (by rw [List.length_map, hlength, hwidth]) fun i hi hi' => ?_
  have hcolumn := hreferences i _ (hreads i _ (List.getElem?_eq_getElem hi))
  rw [← List.getElem?_map, List.getElem?_eq_getElem hi'] at hcolumn
  exact (Option.some.inj hcolumn).symm

/-! ## Columns -/

/-- The columns of a flat relation are written as references and placeholders. -/
theorem Compiles.isAtom (ha : a.Sound) (hr : r ∈ a.relations) (hflat : r.Flat)
    (h : Compiles root r n q columns n') : ∀ e ∈ columns, e.IsAtom := by
  induction r generalizing q columns n' with
  | table t =>
    cases h with
    | table =>
      intro e he
      obtain ⟨c, -, rfl⟩ := List.mem_map.1 he
      trivial
  | selection id operand condition ih =>
    cases h with
    | selection compiles fills => exact ih (ha.selection_operand hr).1 hflat compiles
  | projection id operand whole shown ih =>
    cases h with
    | projection compiles fills =>
      intro e he
      obtain ⟨entry, hentry, rfl⟩ := List.mem_map.1 he
      obtain ⟨c, hc, _, _, -, hfills⟩ := fills.exists_fills_of_mem hentry
      exact hfills.isAtom (ih (ha.projection_operand hr).1 hflat.1 compiles)
        (sources_simple ha hr hflat.2 c hc)
  | join id kind left right condition ihl ihr =>
    obtain ⟨source, units, lays, rfl, hreads⟩ := h.join_cases ha hr
    intro e he
    obtain ⟨i, hi⟩ := List.getElem?_of_mem he
    obtain ⟨u, -, j, hj⟩ := (hreads i e hi).exists_unit
    obtain ⟨name, rfl⟩ := FromUnit.exists_name_of_column? hj
    trivial

/-- What holds of a relation in each of its places: a query writes its columns in different ways,
and a `FROM` clause shows them under different names. -/
structure Distinguished (r : Relation) : Prop where
  whole : ∀ {root n q columns n'}, Compiles root r n q columns n' →
    columns.Nodup ∧ GivenOut n'.placeholders columns
  operand : ∀ {n source units n'}, Lays r n source units n' → ∀ u ∈ units, u.Regular

section

variable (ha : a.Sound) (hplain : a.PlainTables)

include ha hplain

theorem distinguished_of_leaf (hr : r ∈ a.relations) (hleaf : r.joinChain = [])
    (hwhole : ∀ {root n q columns n'}, Compiles root r n q columns n' →
      columns.Nodup ∧ GivenOut n'.placeholders columns) : Distinguished r where
  whole := hwhole
  operand h u hu := by
    cases h with
    | leaf _ stands =>
      obtain rfl := List.mem_singleton.1 hu
      exact stands.regular ha hplain hr fun h => (hwhole h).1
    | join => cases hleaf

theorem table_distinguished {t : Table} (ht : Relation.table t ∈ a.relations) :
    Distinguished (.table t) := by
  refine distinguished_of_leaf ha hplain ht rfl ?_
  intro root n q columns n' h
  cases h with
  | table =>
    constructor
    · have hnodup := ha.table_columns_nodup ht
      rw [List.Nodup, List.pairwise_map] at hnodup ⊢
      refine hnodup.imp ?_
      intro c d hne heq
      exact hne (SqlColumn.mk.inj (SqlExpr.column.inj heq)).2
    · intro name hname
      simp at hname

theorem selection_distinguished {id : Nat} {operand : Relation} {condition : Expr Nat}
    (hr : Relation.selection id operand condition ∈ a.relations)
    (hoperand : Distinguished operand) : Distinguished (.selection id operand condition) := by
  refine distinguished_of_leaf ha hplain hr rfl ?_
  intro root n q columns n' h
  cases h with
  | selection compiles fills =>
    obtain ⟨hnodup, hgiven⟩ := hoperand.whole compiles
    exact ⟨hnodup, hgiven.mono fills.extends⟩

theorem projection_distinguished {id : Nat} {operand : Relation} {whole : Option Table}
    {shown : List OutputColumn}
    (hr : Relation.projection id operand whole shown ∈ a.relations)
    (htell : (Relation.projection id operand whole shown).Telling)
    (hoperand : Distinguished operand) : Distinguished (.projection id operand whole shown) := by
  refine distinguished_of_leaf ha hplain hr rfl ?_
  intro root n q columns n' h
  cases h with
  | projection compiles fills =>
    obtain ⟨hnodup, hgiven⟩ := hoperand.whole compiles
    obtain ⟨hsources, hshape⟩ := htell.sources ha hr
    have hoperand := (ha.projection_operand hr).1
    exact ⟨fills.exprs_nodup hnodup hgiven hsources (hshape.imp_left (compiles.isAtom ha hoperand)),
      fills.givenOut hgiven⟩

theorem join_distinguished {id : Nat} {kind : JoinKind} {left right : Relation}
    {condition : Expr Nat} (hr : Relation.join id kind left right condition ∈ a.relations)
    (hapart : (Relation.join id kind left right condition).Apart) (hl : Distinguished left)
    (hrt : Distinguished right) : Distinguished (.join id kind left right condition) := by
  have hoperand : ∀ {n source units n'},
      Lays (.join id kind left right condition) n source units n' →
        ∀ u ∈ units, u.Regular := by
    intro n source units n' h u hu
    cases h with
    | leaf leaf => cases leaf
    | join lays stands fills =>
      rcases List.mem_append.1 hu with hu | hu
      · exact hl.operand lays u hu
      · obtain rfl := List.mem_singleton.1 hu
        exact stands.regular ha hplain (ha.join_right hr).1 fun h => (hrt.whole h).1
  refine ⟨?_, hoperand⟩
  intro root n q columns n' h
  have hwidth := h.length
  obtain ⟨source, units, lays, rfl, hreads⟩ := h.join_cases ha hr
  have hregular := hoperand lays
  obtain rfl := lays.columns_eq ha hr hapart hregular hwidth hreads
  refine ⟨?_, givenOut_of_references _ _⟩
  exact (lays.references_nodup ha hr hregular).map fun c d heq => SqlExpr.column.inj heq

/-- A relation that tells its columns apart is distinguished in each of its places. -/
theorem distinguished_of_telling (hr : r ∈ a.relations) (htell : r.Telling) : Distinguished r := by
  induction r with
  | table t => exact table_distinguished ha hplain hr
  | selection id operand condition ih =>
    exact selection_distinguished ha hplain hr (ih (ha.selection_operand hr).1 htell)
  | projection id operand whole shown ih =>
    exact projection_distinguished ha hplain hr htell (ih (ha.projection_operand hr).1 htell.1)
  | join id kind left right condition ihl ihr =>
    exact join_distinguished ha hplain hr htell.apart (ihl (ha.join_left hr).1 htell.1)
      (ihr (ha.join_right hr).1 htell.2.1)

/-- The columns of a relation are written in different ways. -/
theorem Compiles.columns_nodup (hr : r ∈ a.relations) (hapart : r.Apart) (hsimple : r.Simple)
    (h : Compiles root r n q columns n') : columns.Nodup :=
  ((distinguished_of_telling ha hplain hr (hsimple.telling ha hr hapart)).whole h).1

end

end Sql

end RelationalAlgebra
