import RelationalAlgebra.Proofs.Agreement
import RelationalAlgebra.Proofs.Congruence

/-!
# Equivalent relations compile to the same text

Equivalence does not look at identities, and it does not tell two operands of a join apart that
were built alike.  The compiler does: it looks its units up by their identities.  Still equivalent
relations are interchangeable (`interchangeable_of_form`), as long as no join is joined to itself.
The one thing to show is that their conditions and columns speak of the same places: a name finds
columns of one origin in both, by induction it finds them in the same place, and no other column
that a name finds has that origin (`eq_of_map_origin_eq`).

The main statement is `Reachable.equivalent_interchange`.
-/

namespace RelationalAlgebra.Algebra

open RelationalAlgebra.Relation Sql

variable {a : Algebra} {r s operand operand' left left' right right' : Relation} {id id' : Nat}
  {kind : JoinKind} {condition condition' : Expr Nat} {whole whole' : Option Table}
  {shown shown' : List OutputColumn} {e e' : Expr Nat}

/-- The condition of a selection speaks of columns that names find in the operand. -/
theorem Sound.selection_named (ha : a.Sound)
    (hr : Relation.selection id operand condition ∈ a.relations) :
    condition.All operand.Named := by
  obtain ⟨building, x, y, hbound⟩ := ha.selection_bound hr
  exact named_of_bind hbound

/-- The condition of a join speaks of columns that names find in the join. -/
theorem Sound.join_named (ha : a.Sound)
    (hr : Relation.join id kind left right condition ∈ a.relations) :
    condition.All (Relation.join id kind left right condition).Named := by
  obtain ⟨building, x, y, hbound⟩ := ha.join_bound hr
  refine (Algebra.all_of_bind hbound).mono ?_
  rintro i ⟨name, hname⟩
  exact ⟨name, by rw [← findIn?_two, hname]⟩

section

variable (ha : a.Sound)

include ha

/-- Expressions over relations of one form speak of the same places, if their columns have the same
origins and the relations have the same place for each name. -/
theorem eq_of_map_origin_eq (hr : r ∈ a.relations) (hs : s ∈ a.relations)
    (hform : r.form = s.form) (hfind : ∀ name, s.find? name = r.find? name)
    (he : e.All r.Named) (he' : e'.All s.Named) (h : e.map r.origin = e'.map s.origin) :
    e' = e := by
  have horigins : ∀ i, r.Named i → r.origin i = s.origin i := by
    rintro i ⟨name, hname⟩
    exact (ha.sameNames hr hs hform).origin_eq hname (by rw [hfind, hname])
  have hnamed : e.All s.Named := by
    refine he.mono ?_
    rintro i ⟨name, hname⟩
    exact ⟨name, by rw [hfind, hname]⟩
  rw [Expr.map_congr he horigins] at h
  exact ((ha.distinct hs).eq_of_map_eq hnamed he' h).symm

theorem selection_interchangeable (hr : Relation.selection id operand condition ∈ a.relations)
    (hs : Relation.selection id' operand' condition' ∈ a.relations)
    (hform : operand.form = operand'.form)
    (hconditions : condition.map operand.origin = condition'.map operand'.origin)
    (hoperand : Interchangeable operand operand') :
    Interchangeable (.selection id operand condition) (.selection id' operand' condition') := by
  obtain rfl := eq_of_map_origin_eq ha (ha.selection_operand hr).1 (ha.selection_operand hs).1
    hform hoperand.find?_eq (ha.selection_named hr) (ha.selection_named hs) hconditions
  exact .selection hoperand rfl

theorem projection_interchangeable
    (hr : Relation.projection id operand whole shown ∈ a.relations)
    (hs : Relation.projection id' operand' whole shown' ∈ a.relations)
    (hform : (Relation.projection id operand whole shown).form =
      (Relation.projection id' operand' whole shown').form)
    (hforms : operand.form = operand'.form) (hoperand : Interchangeable operand operand') :
    Interchangeable (.projection id operand whole shown)
      (.projection id' operand' whole shown') := by
  have hop := (ha.projection_operand hr).1
  have hop' := (ha.projection_operand hs).1
  have hshown := corresponds_of_form ha hr hs hform (ha.sameNames hop hop' hforms)
    (ha.distinct hop) (ha.distinct hop')
  have hsame : ∀ c d, Corresponds operand operand' c d → c = d := by
    intro c d hcd
    have hsource := eq_of_map_origin_eq ha hop hop' hforms hoperand.find?_eq hcd.named hcd.named'
      hcd.source
    obtain ⟨name, label, source⟩ := c
    obtain ⟨name', label', source'⟩ := d
    obtain rfl : name = name' := hcd.name
    obtain rfl : label = label' := hcd.label
    rw [show source' = source from hsource]
  have heq := hshown.imp hsame
  rw [List.forall₂_eq_eq_eq] at heq
  subst heq
  exact .projection hoperand rfl

theorem join_interchangeable (hr : Relation.join id kind left right condition ∈ a.relations)
    (hs : Relation.join id' kind left' right' condition' ∈ a.relations)
    (hform : (Relation.join id kind left right condition).form =
      (Relation.join id' kind left' right' condition').form)
    (hconditions : condition.map (Relation.join id kind left right condition).inputOrigin =
      condition'.map (Relation.join id' kind left' right' condition').inputOrigin)
    (hright : right ∉ left.joinChain) (hright' : right' ∉ left'.joinChain)
    (hl : Interchangeable left left') (hrt : Interchangeable right right') :
    Interchangeable (.join id kind left right condition)
      (.join id' kind left' right' condition') := by
  have hfind : ∀ name, (Relation.join id' kind left' right' condition').find? name =
      (Relation.join id kind left right condition).find? name := by
    intro name
    rw [find?, find?, hl.find?_eq, hrt.find?_eq, hl.width_eq]
  -- over the columns of the joins the conditions become equal, as they do over those of the operands
  have hmap := congrArg (Expr.map fun origin => Origin.shown
    (Relation.join id' kind left' right' condition').form none (.column origin)) hconditions
  rw [Expr.map_map, Expr.map_map] at hmap
  have horigins : condition.map (Relation.join id kind left right condition).origin =
      condition'.map (Relation.join id' kind left' right' condition').origin := by
    calc condition.map (Relation.join id kind left right condition).origin
        = condition.map fun i => Origin.shown (Relation.join id' kind left' right' condition').form
            none (.column ((Relation.join id kind left right condition).inputOrigin i)) := by
          rw [← hform]
          rfl
      _ = condition'.map (Relation.join id' kind left' right' condition').origin := hmap
  obtain rfl := eq_of_map_origin_eq ha hr hs hform hfind (ha.join_named hr) (ha.join_named hs)
    horigins
  exact .join hl hrt rfl (ne_of_not_mem_joinChain ha hr hright)
    (ne_of_not_mem_joinChain ha hs hright')

/-- Relations of one form are interchangeable if no join is joined to itself. -/
theorem interchangeable_of_form (hr : r ∈ a.relations) (hs : s ∈ a.relations)
    (hapart : r.Apart) (hapart' : s.Apart) (h : r.form = s.form) : Interchangeable r s := by
  induction r generalizing s with
  | table t =>
    cases ha.parallel hr hs h with
    | table => exact .table rfl
  | selection id operand condition ih =>
    cases ha.parallel hr hs h with
    | selection operands conditions =>
      have hoperand := ih (ha.selection_operand hr).1 (ha.selection_operand hs).1 hapart hapart'
        operands
      exact selection_interchangeable ha hr hs operands conditions hoperand
  | projection id operand whole shown ih =>
    have hop := (ha.projection_operand hr).1
    cases ha.parallel hr hs h with
    | whole operands =>
      have hoperand := ih hop (ha.projection_operand hs).1 hapart hapart' operands
      exact projection_interchangeable ha hr hs h operands hoperand
    | columns operands =>
      have hoperand := ih hop (ha.projection_operand hs).1 hapart hapart' operands
      exact projection_interchangeable ha hr hs h operands hoperand
  | join id kind left right condition ihl ihr =>
    cases ha.parallel hr hs h with
    | join lefts rights conditions =>
      have hl := ihl (ha.join_left hr).1 (ha.join_left hs).1 hapart.1 hapart'.1 lefts
      have hrt := ihr (ha.join_right hr).1 (ha.join_right hs).1 hapart.2.1 hapart'.2.1 rights
      exact join_interchangeable ha hr hs h conditions hapart.2.2 hapart'.2.2 hl hrt

end

/-- In every algebra that a session leads to, two equivalent relations in which no join is joined to
itself are described in the same words, show columns of the same names in the same order, and have
the same wire form, or none for the same reason.  They compile to the same text with the same
placeholders in the same order. -/
theorem Reachable.equivalent_interchange (ha : a.Reachable) (hr : r ∈ a.relations)
    (hs : s ∈ a.relations) (hapart : r.Apart) (hapart' : s.Apart) (h : r.equivalent s = true) :
    r.describe = s.describe ∧ r.columnNames = s.columnNames ∧ r.toWire = s.toWire ∧
      ∃ c c', compile r = .ok c ∧ compile s = .ok c' ∧ c.sql = c'.sql ∧
        c.placeholders = c'.placeholders := by
  have hform := (ha.sound.equivalent_iff hr hs).1 h
  have hswap := interchangeable_of_form ha.sound hr hs hapart hapart' hform
  obtain ⟨c, c', hc, hc', hsql, hplaceholders⟩ :=
    sql_of_interchangeable ha.sound ha.sound hswap hr hs hapart hapart'
  refine ⟨hswap.describe_eq.symm, hswap.columnNames_eq.symm, hswap.toWire_eq.symm, ?_⟩
  exact ⟨c, c', hc, hc', hsql.symm, hplaceholders.symm⟩

end RelationalAlgebra.Algebra

namespace RelationalAlgebra.Sample

/-- The two joins compile to the same text. -/
theorem equivalent_interchange_twice :
    firstPosts.id ≠ againPosts.id ∧
      ∃ c c', Sql.compile firstPosts = .ok c ∧ Sql.compile againPosts = .ok c' ∧ c.sql = c'.sql ∧
        c.placeholders = c'.placeholders := by
  have hsame := Algebra.Reachable.equivalent_interchange reachable_twice
    (show firstPosts ∈ twice.relations by decide) (show againPosts ∈ twice.relations by decide)
    ⟨trivial, trivial, by decide⟩ ⟨trivial, trivial, by decide⟩ (by decide)
  exact ⟨by decide, hsame.2.2.2⟩

end RelationalAlgebra.Sample
