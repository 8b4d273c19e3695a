import Mathlib.Data.List.Forall2
import RelationalAlgebra.Proofs.WireForms

/-!
# Relations that are interchangeable

Two relations are *interchangeable* when one can stand for the other wherever only names count: the
same tree over tables of the same names with the same columns, where no join is of a relation with
itself.  Identities and the aliases in conditions may differ, and one relation may stand in several
places of one tree where the other has several relations.

Interchangeable relations show the same columns (`Interchangeable.columns_eq`), find the same names
(`Interchangeable.find?_eq`), read the same declared columns (`Interchangeable.declared?_eq`) and
have the same description and the same wire form (`Interchangeable.describe_eq`,
`Interchangeable.toWire_eq`).
-/

namespace RelationalAlgebra

open QualifiedName
open List (Forall₂)

/-- What a table is known by elsewhere: its name and the names of its columns. -/
def Table.header (t : Table) : String × List String := (t.name, t.columns.map (·.name))

namespace Relation

/-- The same tree but for identities and aliases in conditions. -/
inductive Interchangeable : Relation → Relation → Prop
  | table {t t' : Table} (header : t'.header = t.header) : Interchangeable (.table t) (.table t')
  | selection {id id' : Nat} {operand operand' : Relation} {condition condition' : Expr Nat}
      (operands : Interchangeable operand operand')
      (conditions : condition'.unaliased = condition.unaliased) :
      Interchangeable (.selection id operand condition) (.selection id' operand' condition')
  | projection {id id' : Nat} {operand operand' : Relation} {whole whole' : Option Table}
      {shown : List OutputColumn} (operands : Interchangeable operand operand')
      (headers : whole'.map Table.header = whole.map Table.header) :
      Interchangeable (.projection id operand whole shown) (.projection id' operand' whole' shown)
  | join {id id' : Nat} {kind : JoinKind} {left left' right right' : Relation}
      {condition condition' : Expr Nat} (lefts : Interchangeable left left')
      (rights : Interchangeable right right')
      (conditions : condition'.unaliased = condition.unaliased) (ne : left.id ≠ right.id)
      (ne' : left'.id ≠ right'.id) :
      Interchangeable (.join id kind left right condition)
        (.join id' kind left' right' condition')

variable {r r' : Relation} {t t' : Table} {operands operands' : List Relation} {e e' : Expr Nat}

theorem name_of_header (h : t'.header = t.header) : t'.name = t.name := (Prod.mk.inj h).1

theorem names_of_header (h : t'.header = t.header) :
    t'.columns.map (·.name) = t.columns.map (·.name) := (Prod.mk.inj h).2

/-- Whatever is made of the names of a table's columns is settled by the header. -/
theorem map_name_of_header {α : Type} (h : t'.header = t.header) (make : String → α) :
    (t'.columns.map fun c => make c.name) = t.columns.map fun c => make c.name := by
  have hmap : ∀ u : Table,
      (u.columns.map fun c => make c.name) = (u.columns.map (·.name)).map make := by
    intro u
    rw [List.map_map]
    rfl
  rw [hmap, hmap, names_of_header h]

theorem getElem?_of_header {α : Type} (h : t'.header = t.header) (make : String → α) (i : Nat) :
    (t'.columns[i]?.map fun c => make c.name) = t.columns[i]?.map fun c => make c.name := by
  rw [← List.getElem?_map, ← List.getElem?_map, map_name_of_header h make]

/-! ## Columns -/

theorem columns_of_header (h : t'.header = t.header) :
    (Relation.table t').columns = (Relation.table t).columns := by
  refine List.ext_getElem? fun i => ?_
  rw [columns, columns, List.getElem?_mapIdx, List.getElem?_mapIdx]
  exact getElem?_of_header h (fun name => OutputColumn.mk name none (.column i)) i

/-- Interchangeable relations show the same columns. -/
theorem Interchangeable.columns_eq (h : Interchangeable r r') : r'.columns = r.columns := by
  induction h with
  | table header => exact columns_of_header header
  | selection _ _ ih => rw [columns, columns, ih]
  | projection => rfl
  | join _ _ _ ne ne' ihl ihr =>
    rw [columns, columns, joined, joined, if_neg ne, if_neg ne', ihl, ihr]

theorem Interchangeable.width_eq (h : Interchangeable r r') : r'.width = r.width := by
  rw [width, width, h.columns_eq]

theorem Interchangeable.columnNames_eq (h : Interchangeable r r') :
    r'.columnNames = r.columnNames := by
  rw [columnNames, columnNames, h.columns_eq]

/-- Interchangeable relations are described in the same words. -/
theorem Interchangeable.describe_eq (h : Interchangeable r r') : r'.describe = r.describe := by
  induction h with
  | table header => rw [describe, describe, name_of_header header]
  | selection _ _ ih => rw [describe, describe, ih]
  | projection _ _ ih => rw [describe, describe, ih]
  | join _ _ _ _ _ ihl ihr => rw [describe, describe, ihl, ihr]

/-! ## Names -/

theorem position?_of_header (h : t'.header = t.header) (name : String) :
    t'.position? name = t.position? name := by
  have hindex : ∀ (u : Table) (own : String),
      u.columns.findIdx? (·.name == own) = (u.columns.map (·.name)).findIdx? (· == own) := by
    intro u own
    rw [List.findIdx?_map]
    rfl
  rw [Table.position?, Table.position?, Table.ownName?, Table.ownName?, name_of_header h]
  simp only [hindex, names_of_header h]

/-- Interchangeable relations have the same place for a name. -/
theorem Interchangeable.find?_eq (h : Interchangeable r r') (name : String) :
    r'.find? name = r.find? name := by
  induction h with
  | table header => exact position?_of_header header name
  | selection _ _ ih => exact ih
  | projection _ _ ih => rw [find?, find?, ih]
  | join lefts _ _ _ _ ihl ihr => rw [find?, find?, ihl, ihr, lefts.width_eq]

/-- Interchangeable relations read the same declared columns. -/
theorem Interchangeable.declared?_eq (h : Interchangeable r r') (i : Nat) :
    r'.declared? i = r.declared? i := by
  induction h generalizing i with
  | @table t t' header =>
    rw [declared?_table, declared?_table, name_of_header header]
    exact getElem?_of_header header (fun c => (t.name, c)) i
  | selection _ _ ih => exact ih i
  | @projection id id' operand operand' whole whole' shown _ _ ih =>
    unfold declared? physical?
    cases hc : shown[i]? with
    | none => rfl
    | some c =>
      obtain ⟨name, label, source⟩ := c
      cases source with
      | column j => exact ih j
      | literal value => rfl
      | aliased expr label => rfl
      | equal x y => rfl
      | aggregate function argument => rfl
  | @join id id' kind left left' right right' condition condition' lefts _ _ _ _ ihl ihr =>
    rcases Nat.lt_or_ge i left.width with hlt | hge
    · rw [declared?_join_left hlt, declared?_join_left (by rwa [lefts.width_eq]), ihl]
    · obtain ⟨j, rfl⟩ := Nat.exists_eq_add_of_le hge
      rw [declared?_join_right, ← lefts.width_eq, declared?_join_right, ihr]

/-- Interchangeable operands bind a name to the same place. -/
theorem findIn?_of_interchangeable (h : Forall₂ Interchangeable operands operands')
    (name : String) : findIn? operands' name = findIn? operands name := by
  induction h with
  | nil => rfl
  | cons same _ ih => rw [findIn?, findIn?, same.find?_eq, same.width_eq, ih]

theorem declaredIn?_of_interchangeable (h : Forall₂ Interchangeable operands operands')
    (i : Nat) : declaredIn? operands' i = declaredIn? operands i := by
  induction h generalizing i with
  | nil => rfl
  | cons same _ ih =>
    unfold declaredIn? locate
    rw [same.width_eq]
    split
    · exact same.declared?_eq i
    · exact ih _

/-! ## Wire forms -/

/-- Aliases have no wire form. -/
theorem exprToWire_unaliased (operands : List Relation) (e : Expr Nat) :
    exprToWire operands e.unaliased = exprToWire operands e := by
  induction e with
  | column i => rfl
  | literal value => rfl
  | aliased expr label ih => exact ih
  | equal x y ihx ihy => rw [Expr.unaliased, exprToWire, exprToWire, ihx, ihy]
  | aggregate function argument ih => rfl

/-- Columns are written as the declared columns they read. -/
theorem exprToWire_of_interchangeable (h : Forall₂ Interchangeable operands operands')
    (heq : e'.unaliased = e.unaliased) : exprToWire operands' e' = exprToWire operands e := by
  have hcolumns : ∀ f : Expr Nat, exprToWire operands' f = exprToWire operands f := by
    intro f
    induction f with
    | column i =>
      rw [exprToWire, exprToWire, columnToWire_eq, columnToWire_eq,
        declaredIn?_of_interchangeable h]
    | literal value => rfl
    | aliased expr label ih => exact ih
    | equal x y ihx ihy => rw [exprToWire, exprToWire, ihx, ihy]
    | aggregate function argument ih => rfl
  rw [← exprToWire_unaliased, heq, exprToWire_unaliased, hcolumns]

/-- Interchangeable relations have the same wire form, or none for the same reason. -/
theorem Interchangeable.toWire_eq (h : Interchangeable r r') : r'.toWire = r.toWire := by
  induction h with
  | table header => rw [toWire, toWire, name_of_header header]
  | selection operands conditions ih =>
    rw [toWire, toWire, ih, exprToWire_of_interchangeable (.cons operands .nil) conditions]
  | @projection id id' operand operand' whole whole' shown operands headers ih =>
    cases whole with
    | none =>
      obtain rfl := Option.map_eq_none_iff.1 headers
      rw [toWire, toWire, describe, describe, operands.describe_eq]
    | some t =>
      obtain ⟨t', rfl, header⟩ := Option.map_eq_some_iff.1 headers
      rw [toWire, toWire, ih, name_of_header header]
  | join lefts rights conditions _ _ ihl ihr =>
    rw [toWire, toWire, ihl, ihr,
      exprToWire_of_interchangeable (.cons lefts (.cons rights .nil)) conditions]

end Relation

end RelationalAlgebra
