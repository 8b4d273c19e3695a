import RelationalAlgebra.Proofs.Interchange

/-!
# Relations that are alike

Two relations are *alike* when they are interchangeable for the wire form: there are no projections
of single columns in them, and the second one has no aliases in its conditions.  Then moreover they
reach the same tables under a name (`Alike.tableNamed?_eq`) and have the same units
(`Alike.exists_unit`).
-/

namespace RelationalAlgebra

open List (Forall₂)

namespace Relation

/-- The same tree but for identities and aliases in conditions. -/
inductive Alike : Relation → Relation → Prop
  | table {t t' : Table} (header : t'.header = t.header) : Alike (.table t) (.table t')
  | selection {id id' : Nat} {operand operand' : Relation} {condition : Expr Nat}
      (alike : Alike operand operand') :
      Alike (.selection id operand condition) (.selection id' operand' condition.unaliased)
  | whole {id id' : Nat} {operand operand' : Relation} {t t' : Table}
      {shown : List OutputColumn} (alike : Alike operand operand')
      (header : t'.header = t.header) :
      Alike (.projection id operand (some t) shown) (.projection id' operand' (some t') shown)
  | join {id id' : Nat} {kind : JoinKind} {left left' right right' : Relation}
      {condition : Expr Nat} (alike_left : Alike left left') (alike_right : Alike right right')
      (ne : left.id ≠ right.id) (ne' : left'.id ≠ right'.id) :
      Alike (.join id kind left right condition) (.join id' kind left' right' condition.unaliased)

variable {r r' : Relation} {operands operands' : List Relation}

theorem Alike.interchangeable (h : Alike r r') : Interchangeable r r' := by
  induction h with
  | table header => exact .table header
  | selection _ ih => exact .selection ih (Expr.unaliased_unaliased _)
  | whole _ header ih => exact .projection ih (congrArg some header)
  | join _ _ ne ne' ihl ihr => exact .join ihl ihr (Expr.unaliased_unaliased _) ne ne'

theorem Alike.columnNames_eq (h : Alike r r') : r'.columnNames = r.columnNames :=
  h.interchangeable.columnNames_eq

theorem Alike.toWire_eq (h : Alike r r') : r'.toWire = r.toWire := h.interchangeable.toWire_eq

/-- Operands that are alike bind a name to the same place. -/
theorem findIn?_of_alike (h : Forall₂ Alike operands operands') (name : String) :
    findIn? operands' name = findIn? operands name :=
  findIn?_of_interchangeable (h.imp fun _ _ => Alike.interchangeable) name

/-! ## Tables and units -/

/-- Relations that are alike reach tables of the same header under a name. -/
theorem Alike.tableNamed?_eq (h : Alike r r') (name : String) :
    (r'.tableNamed? name).map Table.header = (r.tableNamed? name).map Table.header := by
  induction h with
  | table header =>
    rw [tableNamed?, tableNamed?, name_of_header header]
    split
    · exact congrArg some header
    · rfl
  | selection _ ih => exact ih
  | whole _ header _ =>
    rw [tableNamed?, tableNamed?, Option.filter_some, Option.filter_some, name_of_header header]
    split
    · exact congrArg some header
    · rfl
  | @join id id' kind left left' right right' condition _ _ _ _ ihl ihr =>
    rw [tableNamed?, tableNamed?]
    cases hl : left.tableNamed? name with
    | none =>
      rw [hl, Option.map_none, Option.map_eq_none_iff] at ihl
      rw [ihl]
      exact ihr
    | some t =>
      rw [hl, Option.map_some, Option.map_eq_some_iff] at ihl
      obtain ⟨t', ht', header⟩ := ihl
      rw [ht']
      exact congrArg some header

/-- Each unit is alike a unit. -/
theorem Alike.exists_unit (h : Alike r r') {unit' : Relation} (hunit : unit' ∈ r'.joinUnits) :
    ∃ unit ∈ r.joinUnits, Alike unit unit' := by
  induction h with
  | table header =>
    obtain rfl := List.mem_singleton.1 hunit
    exact ⟨_, List.mem_singleton_self _, .table header⟩
  | selection alike _ =>
    obtain rfl := List.mem_singleton.1 hunit
    exact ⟨_, List.mem_singleton_self _, .selection alike⟩
  | whole alike header _ =>
    obtain rfl := List.mem_singleton.1 hunit
    exact ⟨_, List.mem_singleton_self _, .whole alike header⟩
  | join _ alike_right _ _ ihl _ =>
    rcases List.mem_append.1 hunit with hunit | hunit
    · obtain ⟨unit, hmem, halike⟩ := ihl hunit
      exact ⟨unit, List.mem_append_left _ hmem, halike⟩
    · obtain rfl := List.mem_singleton.1 hunit
      exact ⟨_, List.mem_append_right _ (List.mem_singleton_self _), alike_right⟩

end Relation

end RelationalAlgebra
