import Mathlib.Logic.Function.Defs
import RelationalAlgebra.Proofs.Structure
import RelationalAlgebra.Relation.Equivalence
import RelationalAlgebra.Wire

/-!
# Relations under other identities

An identity is a number that tells one relation from the others.  Which number it is does not matter: a
relation and its like under other identities (`Relation.rename`) have the same description and the same
columns, names find in them the same places, they have one wire form, and two relations are equivalent
under other identities when they are without.  All that is asked of the new identities is that different
ones stay different.

The last part says the same of what is computed when a relation is built: what names are bound to, which
columns a projection shows and by which key two relations are joined.
-/

namespace RelationalAlgebra

open QualifiedName

/-- The table under another identity. -/
def Table.rename (f : Nat → Nat) (t : Table) : Table := { t with id := f t.id }

namespace Relation

/-- The relation under other identities. -/
def rename (f : Nat → Nat) : Relation → Relation
  | .table t => .table (t.rename f)
  | .selection id operand condition => .selection (f id) (operand.rename f) condition
  | .projection id operand whole shown =>
    .projection (f id) (operand.rename f) (whole.map (·.rename f)) shown
  | .join id kind left right condition =>
    .join (f id) kind (left.rename f) (right.rename f) condition

/-- The column under another identity. -/
def Physical.rename (f : Nat → Nat) (p : Physical) : Physical := ⟨p.table.rename f, p.place⟩

/-- The column under other identities. -/
def Reference.rename (f : Nat → Nat) (c : Reference) : Reference := ⟨c.relation.rename f, c.place⟩

section

variable {f : Nat → Nat} {r s : Relation} {operands : List Relation} {i : Nat}

@[simp] theorem id_rename (f : Nat → Nat) (r : Relation) : (r.rename f).id = f r.id := by
  cases r <;> rfl

@[simp] theorem table?_rename (f : Nat → Nat) (r : Relation) :
    (r.rename f).table? = r.table?.map (·.rename f) := by
  cases r <;> rfl

@[simp] theorem describe_rename (f : Nat → Nat) (r : Relation) :
    (r.rename f).describe = r.describe := by
  induction r with
  | table t => rfl
  | selection id operand condition ih => rw [rename, describe, describe, ih]
  | projection id operand whole shown ih => rw [rename, describe, describe, ih]
  | join id kind left right condition ihl ihr => rw [rename, describe, describe, ihl, ihr]

@[simp] theorem operands_rename (f : Nat → Nat) (r : Relation) :
    (r.rename f).operands = r.operands.map (·.rename f) := by
  cases r <;> rfl

@[simp] theorem joinUnits_rename (f : Nat → Nat) (r : Relation) :
    (r.rename f).joinUnits = r.joinUnits.map (·.rename f) := by
  induction r with
  | table t => rfl
  | selection id operand condition ih => rfl
  | projection id operand whole shown ih => rfl
  | join id kind left right condition ihl ihr =>
    rw [rename, joinUnits, joinUnits, ihl, List.map_append, List.map_singleton]

variable (hf : f.Injective)

include hf

/-! ## Columns -/

theorem columns_rename (r : Relation) : (r.rename f).columns = r.columns := by
  induction r with
  | table t => rfl
  | selection id operand condition ih => rw [rename, columns, columns, ih]
  | projection id operand whole shown ih => rfl
  | join id kind left right condition ihl ihr =>
    have hid : f left.id = f right.id ↔ left.id = right.id := hf.eq_iff
    simp only [rename, columns, ihl, ihr, joined, id_rename, hid]

theorem width_rename (r : Relation) : (r.rename f).width = r.width := by
  rw [width, width, columns_rename hf]

theorem columnNames_rename (r : Relation) : (r.rename f).columnNames = r.columnNames := by
  rw [columnNames, columnNames, columns_rename hf]

theorem find?_rename (r : Relation) (name : String) : (r.rename f).find? name = r.find? name := by
  induction r with
  | table t => rfl
  | selection id operand condition ih => exact ih
  | projection id operand whole shown ih => rw [rename, find?, find?, ih]
  | join id kind left right condition ihl ihr =>
    rw [rename, find?, find?, ihl, ihr, width_rename hf]

theorem findIn?_rename (operands : List Relation) (name : String) :
    findIn? (operands.map (·.rename f)) name = findIn? operands name := by
  induction operands with
  | nil => rfl
  | cons r rest ih =>
    rw [List.map_cons, findIn?, findIn?, find?_rename hf, width_rename hf, ih]

omit hf in
theorem tableNamed?_rename (f : Nat → Nat) (r : Relation) (name : String) :
    (r.rename f).tableNamed? name = (r.tableNamed? name).map (·.rename f) := by
  induction r with
  | table t =>
    change (if t.name = name then some (t.rename f) else none) =
      (if t.name = name then some t else none).map (·.rename f)
    split <;> rfl
  | selection id operand condition ih => exact ih
  | projection id operand whole shown ih =>
    cases whole with
    | none => rfl
    | some t =>
      simp only [rename, tableNamed?, Option.map_some, Option.filter_some]
      change (if (t.name == name) = true then some (t.rename f) else none) = _
      split <;> rfl
  | join id kind left right condition ihl ihr =>
    rw [rename, tableNamed?, tableNamed?, ihl, ihr]
    cases left.tableNamed? name <;> rfl

theorem physical?_rename (r : Relation) (i : Nat) :
    (r.rename f).physical? i = (r.physical? i).map (·.rename f) := by
  induction r generalizing i with
  | table t =>
    change (if i < t.columns.length then some ⟨t.rename f, i⟩ else none) =
      (if i < t.columns.length then some ⟨t, i⟩ else none).map (Physical.rename f)
    split <;> rfl
  | selection id operand condition ih => exact ih i
  | projection id operand whole shown ih =>
    rw [rename, physical?, physical?]
    split
    · exact ih _
    · rfl
  | join id kind left right condition ihl ihr =>
    rw [rename, physical?, physical?, ihl, ihr, width_rename hf]
    split <;> rfl

theorem locate_rename (operands : List Relation) (i : Nat) :
    locate (operands.map (·.rename f)) i = (locate operands i).map (·.rename f) := by
  induction operands generalizing i with
  | nil => rfl
  | cons r rest ih =>
    rw [List.map_cons, locate, locate, width_rename hf, ih]
    split <;> rfl

theorem input?_rename (r : Relation) (i : Nat) :
    (r.rename f).input? i = (r.input? i).map (·.rename f) := by
  rw [input?, input?, operands_rename, locate_rename hf]

/-! ## Wire forms -/

theorem exprToWire_rename (operands : List Relation) (e : Expr Nat) :
    exprToWire (operands.map (·.rename f)) e = exprToWire operands e := by
  induction e with
  | column i =>
    have hcolumn : (locate (operands.map (·.rename f)) i).bind
        (fun ref => ref.relation.physical? ref.place) =
        ((locate operands i).bind fun ref => ref.relation.physical? ref.place).map
          (·.rename f) := by
      rw [locate_rename hf]
      cases locate operands i with
      | none => rfl
      | some ref => exact physical?_rename hf ref.relation ref.place
    rw [exprToWire, exprToWire, columnToWire, columnToWire, hcolumn]
    cases (locate operands i).bind fun ref => ref.relation.physical? ref.place <;> rfl
  | literal value => rfl
  | aliased expr label ih => exact ih
  | equal left right ihl ihr => rw [exprToWire, exprToWire, ihl, ihr]
  | aggregate function argument ih => rfl

theorem toWire_rename (r : Relation) : (r.rename f).toWire = r.toWire := by
  induction r with
  | table t => rfl
  | selection id operand condition ih =>
    have hcondition := exprToWire_rename hf [operand] condition
    rw [List.map_singleton] at hcondition
    rw [rename, toWire, toWire, ih, hcondition]
  | projection id operand whole shown ih =>
    cases whole with
    | none =>
      have hdescribe := describe_rename f (.projection id operand none shown)
      exact congrArg (fun d => Except.error (Error.notWireRepresentable d)) hdescribe
    | some t =>
      rw [rename, Option.map_some, toWire, toWire, ih]
      rfl
  | join id kind left right condition ihl ihr =>
    have hcondition := exprToWire_rename hf [left, right] condition
    rw [List.map_cons, List.map_singleton] at hcondition
    rw [rename, toWire, toWire, ihl, ihr, hcondition]

/-! ## Equivalence -/

/-- Two ways to compare agree, the second one of them under other identities. -/
structure Comparison.Renamed (f : Nat → Nat) (c c' : Comparison) : Prop where
  equivalent : ∀ s : Relation, c'.equivalent (s.rename f) = c.equivalent s
  sameInput : ∀ i s j, c'.sameInput i (s.rename f) j = c.sameInput i s j

omit hf in
theorem Comparison.Renamed.sameDerivation {c c' : Comparison} (h : c.Renamed f c')
    (column : OutputColumn) (s : Relation) (other : OutputColumn) :
    c'.sameDerivation column (s.rename f) other = c.sameDerivation column s other := by
  simp only [Comparison.sameDerivation, h.sameInput]

omit hf in
theorem Comparison.Renamed.sameDerivations {c c' : Comparison} (h : c.Renamed f c')
    (columns : List OutputColumn) (s : Relation) (others : List OutputColumn) :
    c'.sameDerivations columns (s.rename f) others = c.sameDerivations columns s others := by
  simp only [Comparison.sameDerivations, h.sameDerivation]

theorem Comparison.Renamed.sameAsInput {c c' : Comparison} (h : c.Renamed f c') (r : Relation)
    (i : Nat) (s : Relation) (j : Nat) :
    c'.sameAsInput (r.rename f) i (s.rename f) j = c.sameAsInput r i s j := by
  rw [Comparison.sameAsInput, Comparison.sameAsInput, input?_rename hf]
  cases s.input? j with
  | none => rfl
  | some ref =>
    change c'.sameColumn (r.rename f) i (ref.relation.rename f) ref.place = _
    simp only [Comparison.sameColumn, id_rename, hf.beq_eq, h.equivalent, columns_rename hf,
      h.sameDerivation]

theorem comparison_renamed_table (t : Table) :
    (Relation.table t).comparison.Renamed f ((Relation.table t).rename f).comparison := by
  constructor
  · intro s
    change (f t.id == (s.rename f).id) = (t.id == s.id)
    rw [id_rename, hf.beq_eq]
  · intro i s j
    cases s with
    | table u =>
      change (f t.id == f u.id && i == j) = (t.id == u.id && i == j)
      rw [hf.beq_eq]
    | _ => rfl

section

variable {operand left right : Relation}

theorem comparison_renamed_selection (id : Nat) (condition : Expr Nat)
    (h : operand.comparison.Renamed f (operand.rename f).comparison) :
    (Relation.selection id operand condition).comparison.Renamed f
      ((Relation.selection id operand condition).rename f).comparison := by
  have hinput := h.sameAsInput hf operand
  refine ⟨fun s => ?_, hinput⟩
  cases s with
  | selection id' operand' condition' =>
    have hmatches := funext fun i => funext fun j =>
      hinput i (.selection id' operand' condition') j
    simp only [rename, comparison] at hmatches ⊢
    rw [h.equivalent, hmatches]
    exact congrArg (· || _) hf.beq_eq
  | table t => exact congrArg (· || false) hf.beq_eq
  | projection id' operand' whole' shown' => exact congrArg (· || false) hf.beq_eq
  | join id' kind' left' right' condition' => exact congrArg (· || false) hf.beq_eq

theorem comparison_renamed_projection (id : Nat) (whole : Option Table) (shown : List OutputColumn)
    (h : operand.comparison.Renamed f (operand.rename f).comparison) :
    (Relation.projection id operand whole shown).comparison.Renamed f
      ((Relation.projection id operand whole shown).rename f).comparison := by
  have hinput := h.sameAsInput hf operand
  refine ⟨fun s => ?_, hinput⟩
  cases s with
  | projection id' operand' whole' shown' =>
    have hcompare : Comparison.Renamed f
        ⟨fun _ => false, operand.comparison.sameAsInput operand⟩
        ⟨fun _ => false, (operand.rename f).comparison.sameAsInput (operand.rename f)⟩ :=
      ⟨fun _ => rfl, hinput⟩
    have hshown := hcompare.sameDerivations shown (.projection id' operand' whole' shown') shown'
    simp only [rename, comparison] at hshown ⊢
    rw [h.equivalent, hshown]
    cases whole with
    | none => cases whole' <;> exact congrArg (· || _) hf.beq_eq
    | some t =>
      cases whole' with
      | none => exact congrArg (· || _) hf.beq_eq
      | some t' =>
        change (f id == f id' || (_ && (f t.id == f t'.id))) = _
        rw [hf.beq_eq, hf.beq_eq]
        rfl
  | table t => exact congrArg (· || false) hf.beq_eq
  | selection id' operand' condition' => exact congrArg (· || false) hf.beq_eq
  | join id' kind' left' right' condition' => exact congrArg (· || false) hf.beq_eq

theorem comparison_renamed_join (id : Nat) (kind : JoinKind) (condition : Expr Nat)
    (hl : left.comparison.Renamed f (left.rename f).comparison)
    (hr : right.comparison.Renamed f (right.rename f).comparison) :
    (Relation.join id kind left right condition).comparison.Renamed f
      ((Relation.join id kind left right condition).rename f).comparison := by
  have hleft := hl.sameAsInput hf left
  have hright := hr.sameAsInput hf right
  have hinput : ∀ i s j,
      ((Relation.join id kind left right condition).rename f).comparison.sameInput i
        (s.rename f) j =
      (Relation.join id kind left right condition).comparison.sameInput i s j := by
    intro i s j
    simp only [rename, comparison, width_rename hf, hleft, hright]
  refine ⟨fun s => ?_, hinput⟩
  cases s with
  | join id' kind' left' right' condition' =>
    have hmatches := funext fun i => funext fun j =>
      hinput i (.join id' kind' left' right' condition') j
    simp only [rename, comparison] at hmatches ⊢
    rw [hl.equivalent, hr.equivalent, hmatches]
    exact congrArg (· || _) hf.beq_eq
  | table t => exact congrArg (· || false) hf.beq_eq
  | selection id' operand' condition' => exact congrArg (· || false) hf.beq_eq
  | projection id' operand' whole' shown' => exact congrArg (· || false) hf.beq_eq

end

/-- Relations compare under other identities as they do without. -/
theorem comparison_renamed (r : Relation) : r.comparison.Renamed f (r.rename f).comparison := by
  induction r with
  | table t => exact comparison_renamed_table hf t
  | selection id operand condition ih => exact comparison_renamed_selection hf id condition ih
  | projection id operand whole shown ih => exact comparison_renamed_projection hf id whole shown ih
  | join id kind left right condition ihl ihr =>
    exact comparison_renamed_join hf id kind condition ihl ihr

/-- Relations are equivalent under other identities when they are without. -/
theorem equivalent_rename (r s : Relation) :
    (r.rename f).equivalent (s.rename f) = r.equivalent s :=
  (comparison_renamed hf r).equivalent s

/-! ## Keys -/

theorem referrers_rename (r : Relation) : (r.rename f).referrers = r.referrers := by
  have hname : ∀ i c, (r.rename f).qualifiedColumnName i c = r.qualifiedColumnName i c := by
    intro i c
    have hphysical : ((r.rename f).physical? i).bind
        (fun p => p.column?.map fun c => qualify p.table.name c.name) =
        (r.physical? i).bind fun p => p.column?.map fun c => qualify p.table.name c.name := by
      rw [physical?_rename hf]
      cases r.physical? i <;> rfl
    rw [qualifiedColumnName, qualifiedColumnName, hphysical]
  simp only [referrers, columns_rename hf, hname]

omit hf in
theorem inferKeyFrom_rename (f : Nat → Nat) (referrers : Referrers) (r : Relation) :
    (r.rename f).inferKeyFrom referrers = r.inferKeyFrom referrers := by
  induction r with
  | table t => rfl
  | selection id operand condition ih => exact ih
  | projection id operand whole shown ih =>
    cases whole with
    | none =>
      simp only [rename, Option.map_none, inferKeyFrom, describe_rename]
    | some t => rfl
  | join id kind left right condition ihl ihr => rw [rename, inferKeyFrom, inferKeyFrom, ihl, ihr]

theorem inferCondition_rename (left right : Relation) :
    (left.rename f).inferCondition (right.rename f) = left.inferCondition right := by
  simp only [inferCondition, inferKey, referrers_rename hf, inferKeyFrom_rename, describe_rename]

end

end Relation

/-! ## Building -/

namespace Algebra

/-- The argument with the relation it refers to under other identities. -/
def ProjectArg.rename (f : Nat → Nat) : ProjectArg → ProjectArg
  | .relation r => .relation (r.rename f)
  | .record table => .record table
  | .name n => .name n
  | .expr e => .expr e

variable {f : Nat → Nat}

@[simp] theorem column_rename (f : Nat → Nat) (arg : ProjectArg) :
    (arg.rename f).column = arg.column := by
  cases arg <;> rfl

@[simp] theorem tableName?_rename (f : Nat → Nat) (arg : ProjectArg) :
    (arg.rename f).tableName? = arg.tableName? := by
  cases arg with
  | relation r =>
    simp only [ProjectArg.rename, ProjectArg.tableName?, Relation.table?_rename, Option.map_map]
    rfl
  | _ => rfl

theorem projectedTable?_rename (f : Nat → Nat) (operand : Relation) (args : List ProjectArg) :
    projectedTable? (operand.rename f) (args.map (·.rename f)) =
      (projectedTable? operand args).map (·.rename f) := by
  match args with
  | [] => rfl
  | [arg] =>
    simp only [List.map_singleton, projectedTable?, tableName?_rename]
    cases arg.tableName? with
    | none => rfl
    | some name => exact Relation.tableNamed?_rename f operand name
  | _ :: _ :: _ => rfl

variable (hf : f.Injective)

include hf

theorem bind_rename (operands : List Relation) (building : String) (e : Expr String) :
    Algebra.bind (operands.map (·.rename f)) building e = Algebra.bind operands building e := by
  have hcolumn : bindColumn (operands.map (·.rename f)) building = bindColumn operands building := by
    funext name
    rw [bindColumn, bindColumn, Relation.findIn?_rename hf]
  rw [Algebra.bind, Algebra.bind, hcolumn]

theorem nameOf?_rename (operand : Relation) (e : Expr Nat) :
    nameOf? (operand.rename f) e = nameOf? operand e := by
  cases e with
  | column i => rw [nameOf?, nameOf?, Relation.columns_rename hf]
  | _ => rfl

theorem outputColumn_rename (operand : Relation) (e : Expr Nat) :
    outputColumn (operand.rename f) e = outputColumn operand e := by
  simp only [outputColumn, nameOf?_rename hf]

theorem wholeColumns_rename (operand : Relation) (building : String) (t : Table) :
    wholeColumns (operand.rename f) building (t.rename f) = wholeColumns operand building t := by
  have hbind := bind_rename hf [operand] building
  rw [List.map_singleton] at hbind
  have hcolumns : (t.rename f).qualifiedColumns = t.qualifiedColumns := rfl
  simp only [wholeColumns, hcolumns, hbind, showOnce, outputColumn_rename hf]

theorem shownColumns_rename (operand : Relation) (building : String) (args : List ProjectArg) :
    shownColumns (operand.rename f) building (args.map (·.rename f)) =
      shownColumns operand building args := by
  have hbind := bind_rename hf [operand] building
  rw [List.map_singleton] at hbind
  simp only [shownColumns, List.foldlM_map, column_rename, hbind, showNamed,
    outputColumn_rename hf]

end Algebra

end RelationalAlgebra
