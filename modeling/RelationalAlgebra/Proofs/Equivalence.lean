import RelationalAlgebra.Proofs.Alike
import RelationalAlgebra.Proofs.Forms

/-!
# Relations that are alike are equivalent

Within one algebra tables of one name are one table.  So two relations of it that are alike have
one form, if the first has no aliases in its conditions, and then they are equivalent:
`equivalent_of_alike`.

What has to be carried through the tree besides the form is that the columns have their origins in
common, place by place (`SameOrigins`).
-/

namespace RelationalAlgebra

namespace Relation

variable {a : Algebra} {r r' operand operand' left left' right right' : Relation} {id id' : Nat}
  {kind : JoinKind} {condition : Expr Nat} {t t' : Table} {shown : List OutputColumn}

/-- The relations have one form and read columns of the same origins. -/
structure SameOrigins (r r' : Relation) : Prop where
  form : r.form = r'.form
  inputs : ∀ i < r.inputWidth, r.inputOrigin i = r'.inputOrigin i

/-- Relations that show the same columns show columns of the same origins. -/
theorem SameOrigins.origin_eq (h : SameOrigins r r') (ha : a.Sound) (hr : r ∈ a.relations)
    (hcolumns : r'.columns = r.columns) (i : Nat) (hi : i < r.width) :
    r.origin i = r'.origin i := by
  have hc : r.columns[i]? = some r.columns[i] := List.getElem?_eq_getElem hi
  have hc' : r'.columns[i]? = some r.columns[i] := by rw [hcolumns, hc]
  have hsource := ha.source_lt hr (List.getElem_mem hi)
  rw [Relation.origin_eq hc, Relation.origin_eq hc', h.form, Expr.map_congr hsource h.inputs]

section

variable (ha : a.Sound)

include ha

theorem selection_sameOrigins (halike : Alike operand operand')
    (hr : Relation.selection id operand condition ∈ a.relations) (hfree : condition.AliasFree)
    (hoperand : SameOrigins operand operand') :
    SameOrigins (.selection id operand condition)
      (.selection id' operand' condition.unaliased) := by
  have horigin := hoperand.origin_eq ha (ha.selection_operand hr).1
    halike.interchangeable.columns_eq
  refine ⟨?_, horigin⟩
  rw [hfree, form_selection, form_selection, hoperand.form,
    Expr.map_congr (ha.selection_condition hr) horigin]

theorem whole_sameOrigins (halike : Alike operand operand')
    (hr : Relation.projection id operand (some t) shown ∈ a.relations)
    (hr' : Relation.projection id' operand' (some t') shown ∈ a.relations)
    (header : t'.header = t.header) (hoperand : SameOrigins operand operand') :
    SameOrigins (.projection id operand (some t) shown)
      (.projection id' operand' (some t') shown) := by
  have ht := ha.table_mem_of_tableNamed? (ha.projection_operand hr).1 (ha.whole_built hr).1
  have ht' := ha.table_mem_of_tableNamed? (ha.projection_operand hr').1 (ha.whole_built hr').1
  obtain rfl := ha.table_eq_of_name_eq ht' ht (name_of_header header)
  refine ⟨?_, hoperand.origin_eq ha (ha.projection_operand hr).1 halike.interchangeable.columns_eq⟩
  rw [form_whole, form_whole, hoperand.form]

theorem join_sameOrigins (halike : Alike left left') (halike' : Alike right right')
    (hr : Relation.join id kind left right condition ∈ a.relations) (hfree : condition.AliasFree)
    (hl : SameOrigins left left') (hrt : SameOrigins right right') :
    SameOrigins (.join id kind left right condition)
      (.join id' kind left' right' condition.unaliased) := by
  have horigins : ∀ i < left.width + right.width,
      (Relation.join id kind left right condition).inputOrigin i =
        (Relation.join id' kind left' right' condition.unaliased).inputOrigin i := by
    intro i hi
    rw [inputOrigin, inputOrigin, halike.interchangeable.width_eq]
    split
    · next hlt =>
      exact hl.origin_eq ha (ha.join_left hr).1 halike.interchangeable.columns_eq i hlt
    · next hge =>
      exact hrt.origin_eq ha (ha.join_right hr).1 halike'.interchangeable.columns_eq _ (by omega)
  refine ⟨?_, horigins⟩
  rw [form_join, form_join, hl.form, hrt.form, Expr.map_congr (ha.join_condition hr) horigins]
  rw [hfree]

theorem sameOrigins_of_alike (halike : Alike r r') (hr : r ∈ a.relations) (hr' : r' ∈ a.relations)
    (hfree : r.Conditions Expr.AliasFree) : SameOrigins r r' := by
  induction halike with
  | table header =>
    obtain rfl := ha.table_eq_of_name_eq hr' hr (name_of_header header)
    exact ⟨rfl, fun _ _ => rfl⟩
  | selection alike ih =>
    exact selection_sameOrigins ha alike hr hfree.2
      (ih (ha.selection_operand hr).1 (ha.selection_operand hr').1 hfree.1)
  | whole alike header ih =>
    exact whole_sameOrigins ha alike hr hr' header
      (ih (ha.projection_operand hr).1 (ha.projection_operand hr').1 hfree)
  | join alike_left alike_right ne ne' ihl ihr =>
    exact join_sameOrigins ha alike_left alike_right hr hfree.2.2
      (ihl (ha.join_left hr).1 (ha.join_left hr').1 hfree.1)
      (ihr (ha.join_right hr).1 (ha.join_right hr').1 hfree.2.1)

/-- Relations of one algebra that are alike are equivalent, if the first has no aliases. -/
theorem equivalent_of_alike (halike : Alike r r') (hr : r ∈ a.relations) (hr' : r' ∈ a.relations)
    (hfree : r.Conditions Expr.AliasFree) : r.equivalent r' = true :=
  (ha.equivalent_iff hr hr').2 (sameOrigins_of_alike ha halike hr hr' hfree).form

end

end Relation

end RelationalAlgebra
