import RelationalAlgebra.Proofs.Resolution
import RelationalAlgebra.Proofs.Session

/-!
# Equivalent relations can stand for each other

Equivalence is an equivalence relation because it is equality of forms.  It is kept by every
operation that builds a relation: what is built on one of two equivalent relations is equivalent to
what the same operation builds on the other, whenever the two are built (`select_sameResults`,
`project_sameResults`, `join_sameResults`).  A join takes two relations, and either may be replaced.

The main statement is `Reachable.equivalent_congruence`.
-/

namespace RelationalAlgebra

open RelationalAlgebra.Relation

namespace Relation

variable {a : Algebra} {r s : Relation}

/-- Relations of one form pick out one table under a name. -/
theorem tableNamed?_eq_of_form (ha : a.Sound) (hr : r ∈ a.relations) (hs : s ∈ a.relations)
    (h : r.form = s.form) (name : String) : r.tableNamed? name = s.tableNamed? name := by
  induction r generalizing s with
  | table t =>
    cases ha.parallel hr hs h with
    | table => rfl
  | selection id operand condition ih =>
    cases ha.parallel hr hs h with
    | selection operands =>
      have htable := ih (ha.selection_operand hr).1 (ha.selection_operand hs).1 operands
      exact htable
  | projection id operand whole shown ih =>
    cases ha.parallel hr hs h with
    | whole => rfl
    | columns => rfl
  | join id kind left right condition ihl ihr =>
    cases ha.parallel hr hs h with
    | join lefts rights =>
      rw [tableNamed?, tableNamed?, ihl (ha.join_left hr).1 (ha.join_left hs).1 lefts,
        ihr (ha.join_right hr).1 (ha.join_right hs).1 rights]

end Relation

namespace Algebra

variable {a b b' c d d' : Algebra} {r s operand operand' left left' right right' : Relation}
  {i j : Nat} {kind : JoinKind} {condition : Predicate} {args : List ProjectArg}

/-! ## The same operation on relations of one form -/

/-- The same arguments ask relations of one form for one table. -/
theorem projectedTable?_eq_of_form (hc : c.Sound) (hop : operand ∈ c.relations)
    (hop' : operand' ∈ c.relations) (hform : operand.form = operand'.form)
    (args : List ProjectArg) : projectedTable? operand args = projectedTable? operand' args := by
  have htable := tableNamed?_eq_of_form hc hop hop' hform
  unfold projectedTable?
  split
  · rw [funext htable]
  · rfl

/-- Whatever relations the two computations build, each in some algebra, they are equivalent as
soon as one session has both of them. -/
def SameResults (build build' : Build Relation) : Prop :=
  ∀ (a b a' b' c : Algebra) (r r' : Relation), build.run a = .ok (r, b) →
    build'.run a' = .ok (r', b') → c.Reachable → r ∈ c.relations → r' ∈ c.relations →
    r.equivalent r' = true

theorem select_sameResults (h : operand.equivalent operand' = true) (condition : Predicate) :
    SameResults (select operand condition) (select operand' condition) := by
  intro a b a' b' c r r' hrun hrun' hreachable hr hr'
  have hc := hreachable.sound
  obtain ⟨equality, bound, hequality, hbound, rfl, -⟩ := select_ok_iff.1 hrun
  obtain ⟨equality', bound', hequality', hbound', rfl, -⟩ := select_ok_iff.1 hrun'
  cases hequality.symm.trans hequality'
  have hop := (hc.selection_operand hr).1
  have hop' := (hc.selection_operand hr').1
  have hform := (hc.equivalent_iff hop hop').1 h
  have hcondition := map_eq_of_bind (hc.sameNames hop hop' hform) hbound hbound'
  rw [hc.equivalent_iff hr hr', form_selection, form_selection, hform, hcondition]

theorem project_sameResults (h : operand.equivalent operand' = true) (args : List ProjectArg) :
    SameResults (project operand args) (project operand' args) := by
  intro a b a' b' c r r' hrun hrun' hreachable hr hr'
  have hc := hreachable.sound
  obtain ⟨-, shown, rfl, hshown, -⟩ := project_ok_iff.1 hrun
  obtain ⟨-, shown', rfl, hshown', -⟩ := project_ok_iff.1 hrun'
  have hop := (hc.projection_operand hr).1
  have hop' := (hc.projection_operand hr').1
  have hform := (hc.equivalent_iff hop hop').1 h
  rw [hc.equivalent_iff hr hr', projectedTable?_eq_of_form hc hop hop' hform args]
  rw [projectedTable?_eq_of_form hc hop hop' hform args] at hshown
  cases hwhole : projectedTable? operand' args with
  | some t => rw [form_whole, form_whole, hform]
  | none =>
    rw [hwhole] at hshown hshown'
    have hcolumns := corresponds_shownColumns hc hop hop' (hc.sameNames hop hop' hform)
      (hc.distinct hop) (hc.distinct hop') hshown hshown'
    rw [form_columns, form_columns, hform, Form.columns.injEq]
    refine ⟨rfl, ?_⟩
    rw [← List.forall₂_eq_eq_eq, List.forall₂_map_left_iff, List.forall₂_map_right_iff]
    exact hcolumns.imp fun c d hcd => Prod.ext hcd.label hcd.source

theorem join_sameResults (kind : JoinKind) (h : left.equivalent left' = true)
    (h' : right.equivalent right' = true) (condition : Predicate) :
    SameResults (join kind left right condition) (join kind left' right' condition) := by
  intro a b a' b' c r r' hrun hrun' hreachable hr hr'
  have hc := hreachable.sound
  obtain ⟨-, equality, bound, hequality, hbound, rfl, -⟩ := join_ok_iff.1 hrun
  obtain ⟨-, equality', bound', hequality', hbound', rfl, -⟩ := join_ok_iff.1 hrun'
  cases hequality.symm.trans hequality'
  have hl := (hc.join_left hr).1
  have hl' := (hc.join_left hr').1
  have hrt := (hc.join_right hr).1
  have hrt' := (hc.join_right hr').1
  have hform := (hc.equivalent_iff hl hl').1 h
  have hform' := (hc.equivalent_iff hrt hrt').1 h'
  have hinputs := map_inputOrigin_find? hc hr hr' (hc.sameNames hl hl' hform)
    (hc.sameNames hrt hrt' hform')
  rw [hc.equivalent_iff hr hr', form_join, form_join, hform, hform', Form.join.injEq]
  refine ⟨rfl, rfl, rfl, Expr.map_eq_of_bindNames (fun name i j hi hj => ?_) hbound hbound'⟩
  rw [bindColumn_ok_iff, findIn?_two a.size kind bound] at hi
  rw [bindColumn_ok_iff, findIn?_two a'.size kind bound'] at hj
  have hinput := hinputs name
  rw [hi, hj] at hinput
  exact Option.some.inj hinput

/-- Every relation is equivalent to itself, by the identities alone. -/
theorem equivalent_self (r : Relation) : r.equivalent r = true := by
  cases r <;> simp [equivalent, comparison, Relation.id]

/-- A name finds the same column in two equivalent relations, or no column in either. -/
theorem Sound.find?_same (ha : a.Sound) (hr : r ∈ a.relations) (hs : s ∈ a.relations)
    (h : r.equivalent s = true) (name : String) :
    Option.Rel (fun i j => Expr.same (.column (.shown ⟨r, i⟩)) (.column (.shown ⟨s, j⟩)) = true)
      (r.find? name) (s.find? name) := by
  have hnames := ha.sameNames hr hs ((ha.equivalent_iff hr hs).1 h)
  cases hi : r.find? name with
  | none =>
    rw [hnames.find?_eq_none hi]
    exact .none
  | some i =>
    cases hj : s.find? name with
    | none =>
      rw [hnames.symm.find?_eq_none hj] at hi
      cases hi
    | some j =>
      have hsame := ha.sameColumn_iff hr hs (ha.find?_lt hr hi) (ha.find?_lt hs hj)
      exact .some (hsame.2 (hnames.origin_eq hi hj))

/-! ## The main statement -/

/-- In every algebra that a session leads to, equivalence of relations and sameness of expressions
are equivalence relations.  If two relations are equivalent, a name finds a column in both or in
none, and if it does the columns are the same; and what is built on them by one operation is
equivalent. -/
theorem Reachable.equivalent_congruence (ha : a.Reachable) :
    Equivalence (fun r s : { r // r ∈ a.relations } => r.1.equivalent s.1 = true) ∧
    Equivalence (fun e f : { e : Expr BoundColumn // e.All (·.Within a) } =>
      e.1.same f.1 = true) ∧
    ∀ r ∈ a.relations, ∀ s ∈ a.relations, r.equivalent s = true →
      (∀ name, Option.Rel
        (fun i j => Expr.same (.column (.shown ⟨r, i⟩)) (.column (.shown ⟨s, j⟩)) = true)
        (r.find? name) (s.find? name)) ∧
      (∀ condition, SameResults (select r condition) (select s condition)) ∧
      (∀ args, SameResults (project r args) (project s args)) ∧
      ∀ kind other condition,
        SameResults (join kind r other condition) (join kind s other condition) ∧
        SameResults (join kind other r condition) (join kind other s condition) := by
  have hsound := ha.sound
  have hrelations := fun r s : { r // r ∈ a.relations } => hsound.equivalent_iff r.2 s.2
  have hexprs := fun e f : { e : Expr BoundColumn // e.All (·.Within a) } =>
    hsound.same_iff e.2 f.2
  refine ⟨?_, ?_, fun r hr s hs h => ⟨?_, ?_, ?_, fun kind other condition => ⟨?_, ?_⟩⟩⟩
  · simp only [hrelations]
    exact ⟨fun _ => rfl, Eq.symm, Eq.trans⟩
  · simp only [hexprs]
    exact ⟨fun _ => rfl, Eq.symm, Eq.trans⟩
  · exact hsound.find?_same hr hs h
  · exact select_sameResults h
  · exact project_sameResults h
  · exact join_sameResults kind h (equivalent_self other) condition
  · exact join_sameResults kind (equivalent_self other) h condition

end Algebra

/-! ## The same relations once more -/

namespace Sample

/-- The first blog, selected once more. -/
def again : Relation := .selection 4 (.table blogs) (.equal (.column 0) (.literal (.integer 1)))

/-- The first blog with its posts once more. -/
def againPosts : Relation :=
  .join 5 .leftOuter again (.table posts) (.equal (.column 0) (.column 2))

/-- The session after that. -/
def twice : Algebra := ⟨[.table blogs, .table posts, first, firstPosts, again, againPosts]⟩

theorem reachable_twice : twice.Reachable := by
  refine .step (a := ⟨[.table blogs, .table posts, first, firstPosts, again]⟩)
    (.join .leftOuter again (.table posts) (.pairs [("blogs__id", .column "blog_id")]))
    (.step (.select (.table blogs) (.pairs [("id", .literal (.integer 1))])) reachable ?_) ?_
  all_goals decide

/-- The two joins are equivalent because the selections they were built on are. -/
theorem equivalent_congruence_twice :
    firstPosts.id ≠ againPosts.id ∧ firstPosts.equivalent againPosts = true := by
  have hcongruence := (Algebra.Reachable.equivalent_congruence reachable_twice).2.2 first
    (by decide) again (by decide) (by decide)
  refine ⟨by decide, ?_⟩
  exact (hcongruence.2.2.2 .leftOuter (.table posts)
    (.pairs [("blogs__id", .column "blog_id")])).1 ⟨[.table blogs, .table posts, first]⟩ algebra
    ⟨[.table blogs, .table posts, first, firstPosts, again]⟩ twice twice firstPosts againPosts rfl
    rfl reachable_twice (by decide) (by decide)

end Sample

end RelationalAlgebra
