import RelationalAlgebra.Proofs.Agreement
import RelationalAlgebra.Proofs.Renaming

/-!
# Queries of relations under other identities

A query that is being built refers to relations by their identities: which columns have been written,
and which relation a unit stands for.  So under other identities a query is built that differs in
nothing else (`Draft.Twin`): the two go through the same steps, fail for the same reason, and are
written in the same way.  This needs nothing of the relation, least of all that it compiles.

The main statement is `compile_rename`: same text, same placeholders.
-/

namespace RelationalAlgebra.Sql

open RelationalAlgebra.Relation

/-! ## Queries that differ in identities -/

/-- What a query sees of a unit: the relation, the name and what it is shown under, and the text. -/
def FromUnit.sight (f : Nat → Nat) (u : FromUnit) :
    Nat × Option (String × List (Option String)) × List Fragment :=
  (f u.relation.id,
    match u with
    | .table _ => none
    | .subquery _ label exposed _ => some (label, exposed),
    u.fragments)

/-- Two queries being built, the second one of relations under other identities. -/
structure Draft.Twin (f : Nat → Nat) (d d' : Draft) : Prop where
  written : d'.written = d.written.map fun (key, e) => ((f key.1, key.2), e)
  subqueries : d'.subqueries = d.subqueries
  placeholders : d'.placeholders = d.placeholders
  entries : d'.query.entries = d.query.entries
  source : d'.query.source = d.query.source
  conditions : d'.query.conditions = d.query.conditions
  units : d'.query.units.map (FromUnit.sight fun n => n) = d.query.units.map (FromUnit.sight f)

/-- Two outcomes agree: both are failures for one reason, or results with `R` and twin queries. -/
inductive TwinOutcome {α : Type} (f : Nat → Nat) (R : α → α → Prop) :
    Except Error (α × Draft) → Except Error (α × Draft) → Prop
  | error (cause : Error) : TwinOutcome f R (.error cause) (.error cause)
  | ok {v v' : α} {d d' : Draft} (result : R v v') (twin : d.Twin f d') :
      TwinOutcome f R (.ok (v, d)) (.ok (v', d'))

/-- Two steps take twins to twins. -/
def Twins {α : Type} (f : Nat → Nat) (R : α → α → Prop) (x x' : Compile α) : Prop :=
  ∀ d d' : Draft, d.Twin f d' → TwinOutcome f R (x.run d) (x'.run d')

section

variable {α β : Type} {f : Nat → Nat} {R : α → α → Prop} {S : β → β → Prop} {x x' : Compile α}

theorem twins_pure {v v' : α} (h : R v v') : Twins f R (pure v) (pure v') :=
  fun _ _ htwin => .ok h htwin

theorem twins_throw (cause : Error) : Twins f R (throw cause) (throw cause) :=
  fun _ _ _ => .error cause

theorem TwinOutcome.bind {d d' : Draft} {g g' : α → Compile β}
    (h : TwinOutcome f R (x.run d) (x'.run d')) (hg : ∀ v v', R v v' → Twins f S (g v) (g' v')) :
    TwinOutcome f S ((x >>= g).run d) ((x' >>= g').run d') := by
  rw [StateT.run_bind, StateT.run_bind]
  generalize x.run d = y, x'.run d' = y' at h
  cases h with
  | error cause => exact .error cause
  | ok result twin => exact hg _ _ result _ _ twin

/-- One step after the other. -/
theorem Twins.bind {g g' : α → Compile β} (h : Twins f R x x')
    (hg : ∀ v v', R v v' → Twins f S (g v) (g' v')) : Twins f S (x >>= g) (x' >>= g') :=
  fun d d' htwin => (h d d' htwin).bind hg

/-- Looking at the query. -/
theorem twins_get {g g' : Draft → Compile β}
    (h : ∀ d d' : Draft, d.Twin f d' → TwinOutcome f S ((g d).run d) ((g' d').run d')) :
    Twins f S (get >>= g) (get >>= g') :=
  fun d d' htwin => h d d' htwin

/-- Changing the query. -/
theorem twins_modify {g g' : Draft → Draft} (h : ∀ d d' : Draft, d.Twin f d' → (g d).Twin f (g' d')) :
    Twins f Eq (modify g) (modify g') :=
  fun d d' htwin => .ok rfl (h d d' htwin)

theorem twins_mapM {ι : Type} {g g' : ι → Compile α} {l : List ι}
    (h : ∀ i ∈ l, Twins f Eq (g i) (g' i)) : Twins f Eq (l.mapM g) (l.mapM g') := by
  induction l with
  | nil => exact twins_pure rfl
  | cons i rest ih =>
    rw [List.mapM_cons, List.mapM_cons]
    refine (h i (List.mem_cons_self ..)).bind ?_
    rintro v _ rfl
    refine (ih fun j hj => h j (List.mem_cons_of_mem _ hj)).bind ?_
    rintro vs _ rfl
    exact twins_pure rfl

/-! ## The steps -/

theorem addPlaceholder_twins (value : Value) :
    Twins f Eq (addPlaceholder value) (addPlaceholder value) := by
  intro d d' htwin
  change TwinOutcome f Eq (.ok (_, _)) (.ok (_, _))
  rw [htwin.placeholders]
  exact .ok rfl { htwin with placeholders := rfl }

theorem setSource_twins (source : Source) : Twins f Eq (setSource source) (setSource source) := by
  refine twins_get fun d d' htwin => ?_
  rw [htwin.source]
  split
  · exact .error _
  · exact .ok rfl { htwin with source := rfl }

theorem exprOf_twins {column column' : Nat → Compile SqlExpr}
    (h : ∀ i, Twins f Eq (column i) (column' i)) (e : Expr Nat) :
    Twins f Eq (exprOf column e) (exprOf column' e) := by
  induction e with
  | column i => exact h i
  | literal value => exact addPlaceholder_twins value
  | aliased expr label ih => exact ih
  | equal left right ihl ihr =>
    rw [exprOf, exprOf]
    refine ihl.bind ?_
    rintro l _ rfl
    refine ihr.bind ?_
    rintro r _ rfl
    exact twins_pure rfl
  | aggregate function argument ih =>
    rw [exprOf, exprOf]
    refine ih.bind ?_
    rintro e _ rfl
    exact twins_pure rfl

/-! ## Columns -/

variable (hf : f.Injective)

include hf

/-- What a unit shows a column under can be seen. -/
theorem exposure?_eq (units : List FromUnit) (n i : Nat) :
    exposure? units n i = (units.map (FromUnit.sight f)).findSome? fun u =>
      if u.1 = f n then u.2.1.map fun (label, exposed) => (label, exposed[i]?.join) else none := by
  rw [exposure?, List.findSome?_map]
  refine congrArg (List.findSome? · units) (funext fun u => ?_)
  have hid : f u.relation.id = f n ↔ u.relation.id = n := hf.eq_iff
  cases u with
  | table t =>
    simp only [Function.comp_apply, FromUnit.sight, Option.map_none]
    exact (ite_self _).symm
  | subquery r label exposed query =>
    simp only [Function.comp_apply, FromUnit.sight, hid, Option.map_some]
    rfl

/-- Where a relation is among the units can be seen. -/
theorem findIdx?_unit_eq (units : List FromUnit) (n : Nat) :
    units.findIdx? (·.relation.id == n) =
      (units.map (FromUnit.sight f)).findIdx? (·.1 == f n) := by
  rw [List.findIdx?_map]
  refine congrArg (List.findIdx? · units) (funext fun u => ?_)
  rw [Bool.eq_iff_iff, beq_iff_eq]
  exact hf.eq_iff.symm.trans (beq_iff_eq (a := f u.relation.id)).symm

theorem Draft.Twin.exposure?_eq {d d' : Draft} (h : d.Twin f d') (n i : Nat) :
    exposure? d'.query.units (f n) i = exposure? d.query.units n i := by
  rw [Sql.exposure?_eq hf d.query.units, Sql.exposure?_eq (f := fun n => n) (fun _ _ heq => heq),
    h.units]

theorem Draft.Twin.findIdx?_eq {d d' : Draft} (h : d.Twin f d') (n : Nat) :
    d'.query.units.findIdx? (·.relation.id == f n) =
      d.query.units.findIdx? (·.relation.id == n) := by
  rw [findIdx?_unit_eq hf d.query.units, findIdx?_unit_eq (f := fun n => n) (fun _ _ heq => heq),
    h.units]

/-- What was written for a column is found again. -/
theorem Draft.Twin.lookup_eq {d d' : Draft} (h : d.Twin f d') (n i : Nat) :
    d'.written.lookup (f n, i) = d.written.lookup (n, i) := by
  rw [h.written]
  induction d.written with
  | nil => rfl
  | cons entry rest ih =>
    have hkey : ((f n, i) == (f entry.1.1, entry.1.2)) = ((n, i) == entry.1) := by
      rw [Bool.eq_iff_iff, beq_iff_eq, beq_iff_eq, Prod.mk.injEq, hf.eq_iff, Prod.ext_iff]
    rw [List.map_cons, List.lookup_cons, List.lookup_cons, hkey, ih]

omit hf in
/-- Noting how a column is written. -/
theorem note_twins (key : ColumnKey) (e : SqlExpr) :
    Twins f Eq (modify fun d => { d with written := (key, e) :: d.written })
      (modify fun d => { d with written := ((f key.1, key.2), e) :: d.written }) := by
  refine twins_modify fun d d' htwin => ⟨?_, htwin.subqueries, htwin.placeholders, htwin.entries,
    htwin.source, htwin.conditions, htwin.units⟩
  rw [htwin.written]
  rfl

theorem remembered_twins {x x' : Compile SqlExpr} (h : Twins f Eq x x') (r : Relation) (i : Nat) :
    Twins f Eq (remembered r i x) (remembered (r.rename f) i x') := by
  refine twins_get fun d d' htwin => ?_
  rw [id_rename, htwin.lookup_eq hf]
  cases d.written.lookup (r.id, i) with
  | some e => exact .ok rfl htwin
  | none =>
    have hnote : ∀ y y' : Compile SqlExpr, Twins f Eq y y' → TwinOutcome f Eq
        ((do
          let e ← y
          modify fun d : Draft => { d with written := ((r.id, i), e) :: d.written }
          return e).run d)
        ((do
          let e ← y'
          modify fun d : Draft => { d with written := ((f r.id, i), e) :: d.written }
          return e).run d') := by
      intro y y' hy
      refine (hy d d' htwin).bind ?_
      rintro e _ rfl
      exact (note_twins (r.id, i) e).bind fun _ _ _ => twins_pure rfl
    simp only []
    rw [htwin.exposure?_eq hf, columnNames_rename hf]
    split
    · exact hnote _ _ (twins_pure rfl)
    · exact hnote _ _ (twins_throw _)
    · exact hnote _ _ h

theorem columnExpr_twins (r : Relation) (i : Nat) :
    Twins f Eq (columnExpr r i) (columnExpr (r.rename f) i) := by
  induction r generalizing i with
  | table t =>
    refine remembered_twins hf ?_ (.table t) i
    have hcolumns : (t.rename f).columns = t.columns := rfl
    rw [hcolumns]
    split
    · exact twins_pure rfl
    · exact twins_throw _
  | selection id operand condition ih => exact remembered_twins hf (ih i) _ i
  | projection id operand whole shown ih =>
    refine remembered_twins hf ?_ (.projection id operand whole shown) i
    split
    · exact exprOf_twins ih _
    · exact twins_throw _
  | join id kind left right condition ihl ihr =>
    refine remembered_twins hf ?_ (.join id kind left right condition) i
    rw [width_rename hf]
    split
    · exact ihl i
    · exact ihr _

theorem joinColumnExpr_twins (left right : Relation) (i : Nat) :
    Twins f Eq (joinColumnExpr left right i)
      (joinColumnExpr (left.rename f) (right.rename f) i) := by
  rw [joinColumnExpr, joinColumnExpr, width_rename hf]
  split
  · exact columnExpr_twins hf left i
  · exact columnExpr_twins hf right _

theorem entriesOf_twins (r : Relation) (name : OutputColumn → SqlExpr → String) :
    Twins f Eq (entriesOf r name) (entriesOf (r.rename f) name) := by
  rw [entriesOf, entriesOf, columns_rename hf]
  refine twins_mapM fun p _ => ?_
  refine (columnExpr_twins hf r p.2).bind ?_
  rintro e _ rfl
  exact twins_pure rfl

/-! ## Units -/

theorem exposedName?_eq {d d' : Draft} (h : d.Twin f d') (r : Relation) (i : Nat) :
    exposedName? d' (r.rename f) i = exposedName? d r i := by
  have hcolumn := columnExpr_twins hf r i d d' h
  rw [exposedName?, exposedName?, h.entries]
  generalize (columnExpr r i).run d = y, (columnExpr (r.rename f) i).run d' = y' at hcolumn
  cases hcolumn with
  | error cause => rfl
  | @ok e e' _ _ result twin =>
    obtain rfl : e = e' := result
    rfl

omit hf in
theorem unitFragments_eq_map (units : List FromUnit) :
    unitFragments units = units.map (·.fragments) := by
  induction units with
  | nil => rfl
  | cons u rest ih => rw [unitFragments, ih, List.map_cons]

omit hf in
/-- Twins are written in the same way. -/
theorem Draft.Twin.same {d d' : Draft} (h : d.Twin f d') : d.query.Same d'.query where
  entries := h.entries
  source := h.source
  conditions := h.conditions
  units := by
    have hunits := congrArg (List.map fun u => u.2.2) h.units
    rw [List.map_map, List.map_map] at hunits
    rw [unitFragments_eq_map, unitFragments_eq_map]
    exact hunits

/-- Units that a query sees as the same, but for identities. -/
def FromUnit.Alike (f : Nat → Nat) (u u' : FromUnit) : Prop :=
  u'.sight (fun n => n) = u.sight f

omit hf in
/-- The start of a query. -/
theorem twin_start (r : Relation) (n : Nat) (p : Placeholders) :
    (Draft.start r n p).Twin f (Draft.start (r.rename f) n p) :=
  ⟨rfl, rfl, rfl, rfl, rfl, rfl, rfl⟩

theorem subqueryOf_twins {x x' : Compile Unit} (h : Twins f Eq x x') (r : Relation) :
    Twins f (FromUnit.Alike f) (subqueryOf r x) (subqueryOf (r.rename f) x') := by
  refine twins_get fun d d' htwin => ?_
  have hinner := h _ _ (twin_start (f := f) r (d.subqueries + 1) d.placeholders)
  rw [htwin.subqueries, htwin.placeholders]
  simp only []
  rw [run_lift_bind, run_lift_bind]
  generalize x.run (Draft.start r (d.subqueries + 1) d.placeholders) = y,
    x'.run (Draft.start (r.rename f) (d.subqueries + 1) d.placeholders) = y' at hinner
  cases hinner with
  | error cause => exact .error cause
  | @ok _ _ inner inner' _ htwins =>
    refine .ok ?_ ⟨htwin.written, htwins.subqueries, htwins.placeholders, htwin.entries,
      htwin.source, htwin.conditions, htwin.units⟩
    have hexposed : exposedName? inner' (r.rename f) = exposedName? inner r :=
      funext (exposedName?_eq hf htwins r)
    simp only [FromUnit.Alike, FromUnit.sight, FromUnit.relation, id_rename, width_rename hf,
      hexposed, FromUnit.fragments, htwins.same.fragments]

theorem unitOf_twins {x x' : Compile FromUnit} (h : Twins f (FromUnit.Alike f) x x')
    (r : Relation) : Twins f Eq (unitOf r x) (unitOf (r.rename f) x') := by
  refine twins_get fun d d' htwin => ?_
  rw [id_rename, htwin.findIdx?_eq hf]
  split
  · exact .ok rfl htwin
  · refine (h d d' htwin).bind fun u u' hu => twins_get fun d d' htwin => ?_
    have hlength : d'.query.units.length = d.query.units.length := by
      have hunits := congrArg List.length htwin.units
      rwa [List.length_map, List.length_map] at hunits
    rw [hlength]
    refine (twins_modify (f := f) fun d d' htwin => ?_).bind (fun _ _ _ => twins_pure rfl) d d' htwin
    refine ⟨htwin.written, htwin.subqueries, htwin.placeholders, htwin.entries, htwin.source,
      htwin.conditions, ?_⟩
    simp only [List.map_append, List.map_singleton, htwin.units]
    rw [show u'.sight (fun n => n) = u.sight f from hu]

/-! ## Relations -/

/-- What two relations are in each of the places they can stand in. -/
structure Rendering.Twin (f : Nat → Nat) (x x' : Rendering) : Prop where
  whole : Twins f Eq x.whole x'.whole
  operand : Twins f Eq x.operand x'.operand
  unit : Twins f Eq x.unit x'.unit

theorem nested_twin {x x' : Compile Unit} (h : Twins f Eq x x') (r : Relation) :
    (Rendering.nested r x).Twin f (Rendering.nested (r.rename f) x') := by
  have hunit := unitOf_twins hf (subqueryOf_twins hf h r) r
  refine ⟨h, hunit.bind ?_, hunit⟩
  rintro place _ rfl
  exact twins_pure rfl

theorem rendering_twin (r : Relation) : (rendering r).Twin f (rendering (r.rename f)) := by
  induction r with
  | table t =>
    have htable : FromUnit.Alike f (.table t) (.table (t.rename f)) := rfl
    have hunit : Twins f Eq (unitOf (.table t) (pure (.table t)))
        (unitOf (.table (t.rename f)) (pure (.table (t.rename f)))) :=
      unitOf_twins hf (twins_pure htable) (.table t)
    refine ⟨?_, ?_, hunit⟩
    · refine hunit.bind ?_
      rintro place _ rfl
      exact setSource_twins _
    · refine hunit.bind ?_
      rintro place _ rfl
      exact twins_pure rfl
  | selection id operand condition ih =>
    refine nested_twin hf ?_ (.selection id operand condition)
    refine ih.whole.bind fun _ _ _ => ?_
    refine (exprOf_twins (columnExpr_twins hf operand) condition).bind ?_
    rintro e _ rfl
    refine twins_modify fun d d' htwin => ⟨htwin.written, htwin.subqueries, htwin.placeholders,
      htwin.entries, htwin.source, ?_, htwin.units⟩
    exact congrArg (· ++ [e]) htwin.conditions
  | projection id operand whole shown ih =>
    refine nested_twin hf ?_ (.projection id operand whole shown)
    refine ih.whole.bind fun _ _ _ => ?_
    refine (entriesOf_twins hf (.projection id operand whole shown) _).bind ?_
    rintro entries _ rfl
    refine (twins_modify fun d d' htwin => ?_).bind fun _ _ _ => ?_
    · exact ⟨htwin.written, htwin.subqueries, htwin.placeholders, rfl, htwin.source,
        htwin.conditions, htwin.units⟩
    · cases whole with
      | none =>
        exact twins_modify fun d d' htwin => ⟨htwin.written, htwin.subqueries,
          htwin.placeholders, htwin.entries, htwin.source, htwin.conditions, htwin.units⟩
      | some t =>
        exact twins_modify fun d d' htwin => ⟨htwin.written, htwin.subqueries,
          htwin.placeholders, htwin.entries, htwin.source, htwin.conditions, htwin.units⟩
  | join id kind left right condition ihl ihr =>
    have hsource : Twins f Eq (rendering (.join id kind left right condition)).operand
        (rendering ((Relation.join id kind left right condition).rename f)).operand := by
      refine ihl.operand.bind ?_
      rintro source _ rfl
      refine ihr.unit.bind ?_
      rintro place _ rfl
      refine (exprOf_twins (joinColumnExpr_twins hf left right) condition).bind ?_
      rintro e _ rfl
      exact twins_pure rfl
    have hwhole : Twins f Eq (rendering (.join id kind left right condition)).whole
        (rendering ((Relation.join id kind left right condition).rename f)).whole := by
      refine hsource.bind ?_
      rintro source _ rfl
      refine (setSource_twins source).bind fun _ _ _ => ?_
      refine (entriesOf_twins hf (.join id kind left right condition) _).bind ?_
      rintro entries _ rfl
      exact twins_modify fun d d' htwin => ⟨htwin.written, htwin.subqueries,
        htwin.placeholders, rfl, htwin.source, htwin.conditions, htwin.units⟩
    exact ⟨hwhole, hsource,
      unitOf_twins hf (subqueryOf_twins hf hwhole (.join id kind left right condition)) _⟩

/-- Relations compile under other identities to the same text with the same placeholders. -/
theorem compile_rename (r : Relation) :
    (compile (r.rename f)).map (fun c => (c.sql, c.placeholders)) =
      (compile r).map fun c => (c.sql, c.placeholders) := by
  have hwhole := (rendering_twin hf r).whole _ _ (twin_start r 0 .empty)
  rw [compile, compile]
  generalize (rendering r).whole.run (Draft.start r 0 .empty) = y,
    (rendering (r.rename f)).whole.run (Draft.start (r.rename f) 0 .empty) = y' at hwhole
  cases hwhole with
  | error cause => rfl
  | ok _ twin =>
    refine congrArg Except.ok (Prod.ext ?_ twin.placeholders)
    exact congrArg spell twin.same.fragments

end

end RelationalAlgebra.Sql
