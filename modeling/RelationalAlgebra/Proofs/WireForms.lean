import RelationalAlgebra.Proofs.Instants
import RelationalAlgebra.Proofs.Lineage

/-!
# Wire forms of literals and conditions

What is written of a literal or of a condition is read back, but for the aliases and the names of
the columns: an alias is dropped, and a column is named by the declared column it reads
(`Spells`).

* `scalar_toWire`: the literal is read back.
* `exists_spelling`: so is the condition, at any depth of nesting that is enough.
* `Spells.bind_eq`: bound again, the condition is the one that was written, without aliases.
-/

namespace RelationalAlgebra

open QualifiedName

/-! ## Nesting -/

/-- The value of a field is nested less deeply than the object. -/
theorem Json.depth_lt_of_get? (name : String) {j value : Json} {depth : Nat}
    (hdepth : j.depth ≤ depth) (h : j.get? name = some value) : value.depth < depth := by
  cases j with
  | object fields =>
    rw [get?] at h
    rw [Json.depth] at hdepth
    refine Nat.lt_of_lt_of_le (Nat.lt_succ_of_le ?_) hdepth
    clear hdepth
    induction fields with
    | nil => cases h
    | cons field rest ih =>
      rw [fieldsDepth]
      rw [List.lookup_cons] at h
      split at h
      · cases h; exact Nat.le_max_left _ _
      · exact Nat.le_trans (ih h) (Nat.le_max_right _ _)
  | null => cases h
  | bool b => cases h
  | number n => cases h
  | string s => cases h
  | array items => cases h

/-! ## Literals -/

/-- If the value is an instant, its year has four digits. -/
def Value.FourDigitYear : Value → Prop
  | .timestamp t => 0 ≤ t.date.year ∧ t.date.year ≤ 9999
  | _ => True

theorem Value.word?_toInt (n : Int64) : word? n.toInt = some n := by
  rw [word?, if_pos ⟨Int64.minValue_le_toInt n, Int64.toInt_le n⟩, Int64.ofInt_toInt]

/-- An instant is read back. -/
theorem scalar_instant {text : String} {t : Instant} (h : Instant.read text = .ok t) :
    Wire.scalar (.ofFields [("type", .string "scalar"), ("kind", .string "timestamp"),
      ("value", .string text)]) = .ok (.timestamp t) := by
  refine bind_ok_iff.2 ⟨text, rfl, ?_⟩
  rw [h]
  rfl

/-- A literal is read back. -/
theorem scalar_toWire {value : Value} (h : value.FourDigitYear) :
    Wire.scalar value.toWire = .ok value := by
  cases value with
  | null => rfl
  | integer n =>
    have hread : Wire.scalar (Value.integer n).toWire = Value.ofJson (.int n.toInt) := rfl
    rw [hread, Json.int, Value.ofJson, Value.word?_toInt]
  | text s => rfl
  | boolean b => rfl
  | timestamp t => exact scalar_instant (t.read_toText h.1 h.2)

/-! ## Conditions -/

namespace Wire

variable {depth : Nat}

theorem exprWithin_literal (value : Value) :
    exprWithin (depth + 1) value.toWire = (do return .literal (← scalar value.toWire)) := by
  have htype : stringField value.toWire "type" = .ok "scalar" := by cases value <;> rfl
  rw [exprWithin, htype]
  rfl

theorem exprWithin_equal (left right : Json) :
    exprWithin (depth + 1) (.ofFields [("type", .string "eq"), ("left_operand", left),
      ("right_operand", right)]) =
      (do
        let left ← exprWithin depth left
        let right ← exprWithin depth right
        return .equal left right) := rfl

end Wire

namespace Expr

variable {α : Type}

/-- Every literal has the property. -/
def Literals (P : Value → Prop) : Expr α → Prop
  | .column _ => True
  | .literal value => P value
  | .aliased expr _ => expr.Literals P
  | .equal left right => left.Literals P ∧ right.Literals P
  | .aggregate _ argument => argument.Literals P

/-- An expression without aliases is left alone. -/
def AliasFree (e : Expr α) : Prop := e.unaliased = e

end Expr

namespace Relation

/-- Every condition in the tree has the property. -/
def Conditions (P : Expr Nat → Prop) : Relation → Prop
  | .table _ => True
  | .selection _ operand condition => operand.Conditions P ∧ P condition
  | .projection _ operand _ _ => operand.Conditions P
  | .join _ _ left right condition => left.Conditions P ∧ right.Conditions P ∧ P condition

/-- Every condition in the tree has the property, over the operands that it reads. -/
def EachCondition (P : List Relation → Expr Nat → Prop) : Relation → Prop
  | .table _ => True
  | .selection _ operand condition => operand.EachCondition P ∧ P [operand] condition
  | .projection _ operand _ _ => operand.EachCondition P
  | .join _ _ left right condition =>
    left.EachCondition P ∧ right.EachCondition P ∧ P [left, right] condition

/-- The condition with its aliases dropped and its columns named by the declared columns they
read. -/
inductive Spells (operands : List Relation) : Expr Nat → Expr String → Prop
  | column {i : Nat} {t c : String} (declared : declaredIn? operands i = some (t, c)) :
      Spells operands (.column i) (.column (qualify t c))
  | literal {value : Value} : Spells operands (.literal value) (.literal value)
  | aliased {expr : Expr Nat} {spelled : Expr String} {label : String}
      (spells : Spells operands expr spelled) : Spells operands (.aliased expr label) spelled
  | equal {left right : Expr Nat} {left' right' : Expr String}
      (spells_left : Spells operands left left') (spells_right : Spells operands right right') :
      Spells operands (.equal left right) (.equal left' right')

variable {operands : List Relation} {e : Expr Nat} {spelled : Expr String} {w : Json}

/-- A column is written as the declared column it reads. -/
theorem columnToWire_eq (operands : List Relation) (i : Nat) :
    columnToWire operands i = match declaredIn? operands i with
      | some (t, c) => .ok (.ofFields
        [("type", .string "column"), ("table", .string t), ("name", .string c)])
      | none => .error (.wire "only physical columns can be sent") := by
  unfold columnToWire declaredIn? declared?
  cases locate operands i with
  | none => rfl
  | some ref =>
    cases hp : ref.relation.physical? ref.place with
    | none => simp [hp]
    | some p =>
      cases hc : p.column? with
      | none => simp [hp, hc]
      | some c => simp [hp, hc, physicalToWire]

theorem columnToWire_ok {i : Nat} (h : columnToWire operands i = .ok w) :
    ∃ t c, declaredIn? operands i = some (t, c) ∧
      w = .ofFields [("type", .string "column"), ("table", .string t), ("name", .string c)] := by
  rw [columnToWire_eq] at h
  split at h
  · next t c hdeclared =>
    cases h
    exact ⟨t, c, hdeclared, rfl⟩
  · cases h

/-- What is written of a condition is read back at any depth that is enough. -/
theorem exists_spelling (h : exprToWire operands e = .ok w)
    (hyears : e.Literals Value.FourDigitYear) :
    ∃ spelled, Spells operands e spelled ∧
      ∀ depth, w.depth ≤ depth → Wire.exprWithin depth w = .ok spelled := by
  induction e generalizing w with
  | column i =>
    obtain ⟨t, c, hdeclared, rfl⟩ := columnToWire_ok h
    refine ⟨_, .column hdeclared, fun depth hdepth => ?_⟩
    cases depth with
    | zero => cases hdepth
    | succ depth => rfl
  | literal value =>
    cases h
    refine ⟨_, .literal, fun depth hdepth => ?_⟩
    cases depth with
    | zero => cases value <;> cases hdepth
    | succ depth =>
      rw [Wire.exprWithin_literal, scalar_toWire hyears]
      rfl
  | aliased expr label ih =>
    obtain ⟨spelled, hspells, hread⟩ := ih h hyears
    exact ⟨spelled, .aliased hspells, hread⟩
  | equal left right ihl ihr =>
    obtain ⟨leftWire, hleft, h⟩ := bind_ok_iff.1 h
    obtain ⟨rightWire, hright, h⟩ := bind_ok_iff.1 h
    cases h
    obtain ⟨left', hspellsl, hreadl⟩ := ihl hleft hyears.1
    obtain ⟨right', hspellsr, hreadr⟩ := ihr hright hyears.2
    refine ⟨_, .equal hspellsl hspellsr, fun depth hdepth => ?_⟩
    have hl := Json.depth_lt_of_get? "left_operand" hdepth rfl
    have hr := Json.depth_lt_of_get? "right_operand" hdepth rfl
    cases depth with
    | zero => cases hdepth
    | succ depth =>
      rw [Wire.exprWithin_equal, hreadl depth (Nat.le_of_lt_succ hl),
        hreadr depth (Nat.le_of_lt_succ hr)]
      rfl
  | aggregate function argument ih => cases h

/-- In a relation with a wire form the columns of every condition are found by the qualified names
of the declared columns they read, if these names can be taken apart. -/
theorem Sendable.found {a : Algebra} {r : Relation} (ha : a.Sound) (hnames : a.Separable)
    (hr : r ∈ a.relations) (hsend : r.Sendable) :
    r.EachCondition fun operands condition => condition.All (Found operands) := by
  induction r with
  | table t => trivial
  | selection id operand condition ih =>
    exact ⟨ih (ha.selection_operand hr).1 hsend.selection, selection_found ha hnames hr hsend⟩
  | projection id operand whole shown ih =>
    exact ih (ha.projection_operand hr).1 hsend.projection.1
  | join id kind left right condition ihl ihr =>
    exact ⟨ihl (ha.join_left hr).1 hsend.join.1, ihr (ha.join_right hr).1 hsend.join.2,
      join_found ha hnames hr hsend⟩

/-- Bound again, the condition is what it was, without aliases. -/
theorem Spells.bind_eq {operands' : List Relation} (h : Spells operands e spelled)
    (hfound : e.All (Found operands))
    (hsame : ∀ name, findIn? operands' name = findIn? operands name) (building : String) :
    Algebra.bind operands' building spelled = .ok e.unaliased := by
  induction h with
  | column declared =>
    have hfind := hfound _ _ declared
    rw [← hsame] at hfind
    exact map_ok_iff.2 ⟨_, Algebra.bindColumn_ok_iff.2 hfind, rfl⟩
  | literal => rfl
  | aliased spells ih => exact ih hfound
  | equal spells_left spells_right ihl ihr =>
    exact bind_ok_iff.2 ⟨_, ihl hfound.1, bind_ok_iff.2 ⟨_, ihr hfound.2, rfl⟩⟩

/-- What is spelled out of an equality is an equality. -/
theorem Spells.equality {left right : Expr Nat} (h : Spells operands (.equal left right) spelled) :
    (Predicate.expr spelled).equality = .ok spelled := by
  cases h with
  | equal spells_left spells_right => rfl

end Relation

end RelationalAlgebra
