import RelationalAlgebra.Algebra
import RelationalAlgebra.Proofs.Stateful

/-!
# How relations are built

Each operation that builds a relation adds one relation to the algebra, and the relation is one of
five kinds: a new table, a selection, a projection of a whole table, a projection of columns, or a
join.  `Algebra.Built a r` says that `r` can be the next relation of `a`, with everything that was
checked when it was built, and `Algebra.Sound` says that every relation of an algebra was built from
those before it.

* `createTable_ok_iff`, `select_ok_iff`, `project_ok_iff` and `join_ok_iff` say when the operations
  succeed and what they add.
* `built_of_createTable` and its companions say that what an operation adds was built, and
  `Sound.add` that building keeps the invariant.
-/

namespace RelationalAlgebra

open RelationalAlgebra.Relation

/-- The algebra with one more relation. -/
def Algebra.add (a : Algebra) (r : Relation) : Algebra := ⟨a.relations ++ [r]⟩

/-- The number of relations, which is the identity of the next one. -/
def Algebra.size (a : Algebra) : Nat := a.relations.length

/-- What a relation can be when it is added to an algebra. -/
inductive Algebra.Built (a : Algebra) : Relation → Prop
  | table {name : String} {columns : List (String × ColumnType)} (fresh : a.table? name = none) :
      Built a (.table (Table.declare a.size name columns))
  | selection {operand : Relation} {condition : Predicate} {equality : Expr String}
      {bound : Expr Nat} (operand_mem : operand ∈ a.relations)
      (equality_eq : condition.equality = .ok equality)
      (bound_eq : Algebra.bind [operand] ("selection on " ++ operand.describe) equality =
        .ok bound) :
      Built a (.selection a.size operand bound)
  | whole {operand : Relation} {table : Table} {shown : List OutputColumn}
      (operand_mem : operand ∈ a.relations)
      (found : operand.tableNamed? table.name = some table)
      (shown_eq : Algebra.wholeColumns operand ("projection of " ++ operand.describe) table =
        .ok shown) :
      Built a (.projection a.size operand (some table) shown)
  | columns {operand : Relation} {args : List Algebra.ProjectArg} {shown : List OutputColumn}
      (operand_mem : operand ∈ a.relations) (args_ne : args ≠ [])
      (not_whole : Algebra.projectedTable? operand args = none)
      (shown_eq : Algebra.shownColumns operand ("projection of " ++ operand.describe) args =
        .ok shown) :
      Built a (.projection a.size operand none shown)
  | join {kind : JoinKind} {left right : Relation} {condition : Predicate}
      {equality : Expr String} {bound : Expr Nat}
      (left_mem : left ∈ a.relations) (right_mem : right ∈ a.relations)
      (new : ∀ unit ∈ left.joinUnits, unit.id ≠ right.id)
      (equality_eq : condition.equality = .ok equality)
      (bound_eq : Algebra.bind [left, right]
        ("join of " ++ left.describe ++ " and " ++ right.describe) equality = .ok bound) :
      Built a (.join a.size kind left right bound)

namespace Algebra

variable {a a' : Algebra} {r operand left right : Relation}

/-! ## The operations -/

theorem push_ok_iff {make : Nat → Relation} :
    (push make).run a = .ok (r, a') ↔ r = make a.size ∧ a' = a.add r := by
  simp only [push, run_bind_ok_iff, run_get_ok_iff, run_set_ok_iff, run_pure_ok_iff]
  constructor
  · rintro ⟨_, _, ⟨rfl, rfl⟩, _, _, rfl, rfl, rfl⟩
    exact ⟨rfl, rfl⟩
  · rintro ⟨rfl, rfl⟩
    exact ⟨_, _, ⟨rfl, rfl⟩, ⟨⟩, _, rfl, rfl, rfl⟩

theorem createTable_ok_iff {name : String} {columns : List (String × ColumnType)} {t : Table} :
    (createTable name columns).run a = .ok (t, a') ↔
      a.table? name = none ∧ t = Table.declare a.size name columns ∧ a' = a.add (.table t) := by
  simp only [createTable, run_bind_ok_iff, run_get_ok_iff]
  constructor
  · rintro ⟨_, _, ⟨rfl, rfl⟩, h⟩
    split at h
    · simp only [run_bind_ok_iff, run_throw_ok_iff, false_and, exists_false] at h
    · next hfresh =>
      simp only [run_bind_ok_iff, run_get_ok_iff, push_ok_iff, run_pure_ok_iff] at h
      obtain ⟨_, _, ⟨rfl, rfl⟩, _, _, ⟨rfl, rfl⟩, rfl, rfl⟩ := h
      exact ⟨by simpa using hfresh, rfl, rfl⟩
  · rintro ⟨hfresh, rfl, rfl⟩
    refine ⟨_, _, ⟨rfl, rfl⟩, ?_⟩
    rw [if_neg (by simp [hfresh])]
    simp only [run_bind_ok_iff, run_get_ok_iff, push_ok_iff, run_pure_ok_iff]
    exact ⟨_, _, ⟨rfl, rfl⟩, _, _, ⟨rfl, rfl⟩, rfl, rfl⟩

theorem select_ok_iff {condition : Predicate} :
    (select operand condition).run a = .ok (r, a') ↔
      ∃ equality bound, condition.equality = .ok equality ∧
        bind [operand] ("selection on " ++ operand.describe) equality = .ok bound ∧
        r = .selection a.size operand bound ∧ a' = a.add r := by
  simp only [select, run_bind_ok_iff, run_lift_ok_iff, push_ok_iff]
  constructor
  · rintro ⟨equality, _, ⟨heq, rfl⟩, bound, _, ⟨hbound, rfl⟩, rfl, rfl⟩
    exact ⟨equality, bound, heq, hbound, rfl, rfl⟩
  · rintro ⟨equality, bound, heq, hbound, rfl, rfl⟩
    exact ⟨equality, _, ⟨heq, rfl⟩, bound, _, ⟨hbound, rfl⟩, rfl, rfl⟩

theorem project_ok_iff {args : List ProjectArg} :
    (project operand args).run a = .ok (r, a') ↔
      args ≠ [] ∧ ∃ shown, r = .projection a.size operand (projectedTable? operand args) shown ∧
        (match projectedTable? operand args with
          | some t => wholeColumns operand ("projection of " ++ operand.describe) t
          | none => shownColumns operand ("projection of " ++ operand.describe) args) =
          .ok shown ∧ a' = a.add r := by
  simp only [project]
  cases args with
  | nil =>
    rw [if_pos (by rfl)]
    simp only [run_bind_ok_iff, run_throw_ok_iff, false_and, exists_false, ne_eq,
      not_true_eq_false]
  | cons arg rest =>
    rw [if_neg (by simp)]
    cases projectedTable? operand (arg :: rest) with
    | some t =>
      simp only [run_bind_ok_iff, run_lift_ok_iff, push_ok_iff]
      constructor
      · rintro ⟨shown, _, ⟨hshown, rfl⟩, rfl, rfl⟩
        exact ⟨by simp, shown, rfl, hshown, rfl⟩
      · rintro ⟨-, shown, rfl, hshown, rfl⟩
        exact ⟨shown, _, ⟨hshown, rfl⟩, rfl, rfl⟩
    | none =>
      simp only [run_bind_ok_iff, run_lift_ok_iff, push_ok_iff]
      constructor
      · rintro ⟨shown, _, ⟨hshown, rfl⟩, rfl, rfl⟩
        exact ⟨by simp, shown, rfl, hshown, rfl⟩
      · rintro ⟨-, shown, rfl, hshown, rfl⟩
        exact ⟨shown, _, ⟨hshown, rfl⟩, rfl, rfl⟩

theorem join_ok_iff {kind : JoinKind} {condition : Predicate} :
    (join kind left right condition).run a = .ok (r, a') ↔
      (∀ unit ∈ left.joinUnits, unit.id ≠ right.id) ∧
      ∃ equality bound, condition.equality = .ok equality ∧
        bind [left, right] ("join of " ++ left.describe ++ " and " ++ right.describe) equality =
          .ok bound ∧
        r = .join a.size kind left right bound ∧ a' = a.add r := by
  simp only [join]
  by_cases hnew : left.joinUnits.any (·.id == right.id) = true
  · rw [if_pos hnew]
    simp only [run_bind_ok_iff, run_throw_ok_iff, false_and, exists_false, false_iff]
    rintro ⟨hnone, -⟩
    obtain ⟨unit, hmem, hid⟩ := List.any_eq_true.1 hnew
    exact hnone unit hmem (by simpa using hid)
  · rw [if_neg hnew]
    have hnone : ∀ unit ∈ left.joinUnits, unit.id ≠ right.id := by
      intro unit hmem hid
      exact hnew (List.any_eq_true.2 ⟨unit, hmem, by simpa using hid⟩)
    simp only [run_bind_ok_iff, run_lift_ok_iff, push_ok_iff]
    constructor
    · rintro ⟨equality, _, ⟨heq, rfl⟩, bound, _, ⟨hbound, rfl⟩, rfl, rfl⟩
      exact ⟨hnone, equality, bound, heq, hbound, rfl, rfl⟩
    · rintro ⟨-, equality, bound, heq, hbound, rfl, rfl⟩
      exact ⟨equality, _, ⟨heq, rfl⟩, bound, _, ⟨hbound, rfl⟩, rfl, rfl⟩

/-! ### What they come to -/

theorem run_createTable (name : String) (columns : List (String × ColumnType)) (a : Algebra) :
    (createTable name columns).run a =
      if (a.table? name).isSome then .error (.duplicateTable name)
      else .ok (Table.declare a.size name columns,
        a.add (.table (Table.declare a.size name columns))) := by
  unfold createTable
  rw [StateT.run_bind]
  change (if (a.table? name).isSome then _ else _ : Build _).run a = _
  split
  · rfl
  · rfl

theorem run_select (operand : Relation) (condition : Predicate) (a : Algebra) :
    (select operand condition).run a = (do
      let equality ← condition.equality
      let bound ← Algebra.bind [operand] ("selection on " ++ operand.describe) equality
      let r := Relation.selection a.size operand bound
      return (r, a.add r)) := by
  unfold select
  rw [run_lift_bind]
  refine bind_congr fun equality => ?_
  rw [run_lift_bind]
  rfl

theorem run_project (operand : Relation) (args : List ProjectArg) (a : Algebra) :
    (project operand args).run a =
      if args.isEmpty then
        .error (.invalidProjection ("projection of " ++ operand.describe ++ " has no columns"))
      else match projectedTable? operand args with
        | some t => do
          let shown ← wholeColumns operand ("projection of " ++ operand.describe) t
          let r := Relation.projection a.size operand (some t) shown
          return (r, a.add r)
        | none => do
          let shown ← shownColumns operand ("projection of " ++ operand.describe) args
          let r := Relation.projection a.size operand none shown
          return (r, a.add r) := by
  unfold project
  by_cases hempty : args.isEmpty = true
  · simp only [if_pos hempty]
    split <;> rfl
  · simp only [if_neg hempty]
    cases projectedTable? operand args with
    | some t =>
      simp only []
      rw [run_lift_bind]
      rfl
    | none =>
      simp only []
      rw [run_lift_bind]
      rfl

theorem run_join (kind : JoinKind) (left right : Relation) (condition : Predicate) (a : Algebra) :
    (join kind left right condition).run a =
      if left.joinUnits.any (·.id == right.id) then
        .error (.repeatedJoinOperand right.describe)
      else do
        let equality ← condition.equality
        let bound ← Algebra.bind [left, right]
          ("join of " ++ left.describe ++ " and " ++ right.describe) equality
        let r := Relation.join a.size kind left right bound
        return (r, a.add r) := by
  unfold join
  split
  · rfl
  · rw [run_lift_bind]
    refine bind_congr fun equality => ?_
    rw [run_lift_bind]
    rfl

/-- The table of a name after one was declared. -/
theorem table?_add_table {t : Table} (hfresh : a.table? t.name = none) (name : String) :
    (a.add (.table t)).table? name = if t.name = name then some t else a.table? name := by
  have happend : (a.add (.table t)).table? name =
      (a.table? name).or (if t.name = name then some t else none) := by
    unfold table? add
    rw [List.findSome?_append]
    simp [Relation.table?, Option.filter_some]
  rw [happend]
  by_cases hname : t.name = name
  · rw [if_pos hname, if_pos hname, ← hname, hfresh]
    rfl
  · rw [if_neg hname, if_neg hname, Option.or_none]

/-- Building a relation from what is at hand does not fail. -/
theorem push_ne_error {make : Nat → Relation} {fault : Error} :
    (push make).run a ≠ .error fault := by
  intro h
  cases h

end Algebra

/-! ## Tables that can be reached -/

/-- The table found under a name has that name. -/
theorem Relation.name_of_tableNamed? {r : Relation} {name : String} {t : Table}
    (h : r.tableNamed? name = some t) : t.name = name := by
  induction r with
  | table u =>
    simp only [tableNamed?] at h
    split at h
    · next hu => cases h; exact hu
    · cases h
  | selection id operand condition ih => exact ih h
  | projection id operand whole shown ih =>
    simp only [tableNamed?, Option.filter_eq_some_iff, beq_iff_eq] at h
    exact h.2
  | join id kind left right condition ihl ihr =>
    simp only [tableNamed?] at h
    split at h
    · next hl => cases h; exact ihl hl
    · exact ihr h

/-- The table that a projection is asked for can be reached under its own name. -/
theorem Algebra.tableNamed?_of_projectedTable? {operand : Relation} {args : List ProjectArg}
    {t : Table} (h : projectedTable? operand args = some t) :
    operand.tableNamed? t.name = some t := by
  unfold projectedTable? at h
  split at h
  · obtain ⟨name, -, hfound⟩ := Option.bind_eq_some_iff.1 h
    rw [name_of_tableNamed? hfound]
    exact hfound
  · cases h

/-! ## The invariant -/

namespace Algebra

variable {a a' : Algebra} {r operand left right : Relation}

/-- The table found under a name is a relation of the algebra and has the name. -/
theorem mem_of_table? {name : String} {t : Table} (h : a.table? name = some t) :
    Relation.table t ∈ a.relations ∧ t.name = name := by
  obtain ⟨s, hs, hfound⟩ := List.exists_of_findSome?_eq_some h
  obtain ⟨htable, hname⟩ := Option.filter_eq_some_iff.1 hfound
  cases s with
  | table u =>
    cases htable
    exact ⟨hs, by simpa using hname⟩
  | selection => cases htable
  | projection => cases htable
  | join => cases htable

/-- Every relation was built from those before it. -/
def Sound (a : Algebra) : Prop :=
  ∀ k r, a.relations[k]? = some r → Built ⟨a.relations.take k⟩ r

theorem sound_empty : Sound .empty := by
  intro k r h
  simp [empty] at h

/-- A relation built on an algebra can be added to it. -/
theorem Sound.add (ha : a.Sound) (hr : Built a r) : (a.add r).Sound := by
  intro k s hs
  simp only [Algebra.add] at hs ⊢
  rcases Nat.lt_trichotomy k a.relations.length with hk | rfl | hk
  · rw [List.getElem?_append_left hk] at hs
    rw [List.take_append_of_le_length (Nat.le_of_lt hk)]
    exact ha k s hs
  · rw [List.getElem?_append_right (Nat.le_refl _), Nat.sub_self] at hs
    cases hs
    rw [List.take_left]
    exact hr
  · rw [List.getElem?_eq_none (by simp; omega)] at hs
    cases hs

/-- What a building step does to a sound algebra: it stays sound, keeps what it has, and holds what
was built. -/
structure Grown (a : Algebra) (r : Relation) (a' : Algebra) : Prop where
  sound : a'.Sound
  keeps : a.relations <+: a'.relations
  mem : r ∈ a'.relations

theorem Grown.mono (h : Grown a r a') (hs : operand ∈ a.relations) : operand ∈ a'.relations :=
  h.keeps.subset hs

theorem Built.grown (hr : Built a r) (ha : a.Sound) : Grown a r (a.add r) where
  sound := ha.add hr
  keeps := List.prefix_append ..
  mem := List.mem_append_right _ (List.mem_singleton_self r)

theorem built_of_createTable {name : String} {columns : List (String × ColumnType)} {t : Table}
    (h : (createTable name columns).run a = .ok (t, a')) :
    Built a (.table t) ∧ a' = a.add (.table t) := by
  obtain ⟨hfresh, rfl, rfl⟩ := createTable_ok_iff.1 h
  exact ⟨.table hfresh, rfl⟩

theorem built_of_select {condition : Predicate} (hmem : operand ∈ a.relations)
    (h : (select operand condition).run a = .ok (r, a')) : Built a r ∧ a' = a.add r := by
  obtain ⟨equality, bound, heq, hbound, rfl, rfl⟩ := select_ok_iff.1 h
  exact ⟨.selection hmem heq hbound, rfl⟩

theorem built_of_project {args : List ProjectArg} (hmem : operand ∈ a.relations)
    (h : (project operand args).run a = .ok (r, a')) : Built a r ∧ a' = a.add r := by
  obtain ⟨hne, shown, rfl, hshown, rfl⟩ := project_ok_iff.1 h
  cases hwhole : projectedTable? operand args with
  | some t =>
    rw [hwhole] at hshown
    exact ⟨.whole hmem (tableNamed?_of_projectedTable? hwhole) hshown, rfl⟩
  | none =>
    rw [hwhole] at hshown
    exact ⟨.columns hmem hne hwhole hshown, rfl⟩

theorem built_of_join {kind : JoinKind} {condition : Predicate} (hleft : left ∈ a.relations)
    (hright : right ∈ a.relations) (h : (join kind left right condition).run a = .ok (r, a')) :
    Built a r ∧ a' = a.add r := by
  obtain ⟨hnew, equality, bound, heq, hbound, rfl, rfl⟩ := join_ok_iff.1 h
  exact ⟨.join hleft hright hnew heq hbound, rfl⟩

end Algebra

end RelationalAlgebra
