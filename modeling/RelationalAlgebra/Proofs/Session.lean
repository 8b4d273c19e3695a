import RelationalAlgebra.Proofs.Building
import RelationalAlgebra.Relation.Meaning
import RelationalAlgebra.Schema
import RelationalAlgebra.Wire

/-!
# Sessions

What a caller can do with an algebra, one operation after the other: `Operation`.  An operation
that fails leaves the algebra as it was, but for the declaration of a schema, which keeps the tables
before the one that failed.  The algebras that some session leads to are `Algebra.Reachable`.

A chain of filters, projections and joins on one relation is a session of its links, and so it has
no operation of its own.

The main statement is `Reachable.sound`: whatever the session, every relation of the algebra was
built from those before it.
-/

namespace RelationalAlgebra

/-- What a caller can ask of an algebra. -/
inductive Operation where
  | createTable (name : String) (columns : List (String × ColumnType))
  | select (operand : Relation) (condition : Predicate)
  | selectId (operand : Relation) (id : Value)
  | project (operand : Relation) (args : List Algebra.ProjectArg)
  | join (kind : JoinKind) (left right : Relation) (condition : Predicate)
  | joinInferred (kind : JoinKind) (left right : Relation)
  | ofWire (wire : Json)
  | declare (schema : Schema)

/-- The algebra after a computation, which is unchanged if it failed. -/
def Algebra.after {α : Type} (a : Algebra) (build : Build α) : Algebra :=
  match build.run a with
  | .ok (_, a') => a'
  | .error _ => a

namespace Operation

/-- The relations that an operation builds on. -/
def operands : Operation → List Relation
  | .createTable .. => []
  | .select operand _ => [operand]
  | .selectId operand _ => [operand]
  | .project operand _ => [operand]
  | .join _ left right _ => [left, right]
  | .joinInferred _ left right => [left, right]
  | .ofWire _ => []
  | .declare _ => []

/-- The algebra after an operation. -/
def run (a : Algebra) : Operation → Algebra
  | .createTable name columns => a.after (Algebra.createTable name columns)
  | .select operand condition => a.after (Algebra.select operand condition)
  | .selectId operand id => a.after (Algebra.selectId operand id)
  | .project operand args => a.after (Algebra.project operand args)
  | .join kind left right condition => a.after (Algebra.join kind left right condition)
  | .joinInferred kind left right => a.after (Algebra.joinInferred kind left right)
  | .ofWire wire => a.after (Algebra.ofWire wire)
  | .declare schema => (schema.declareInto a).1

end Operation

/-- The algebras that a session leads to.  An operation builds on relations of the algebra it is
asked of. -/
inductive Algebra.Reachable : Algebra → Prop
  | empty : Reachable .empty
  | step {a : Algebra} (op : Operation) (reachable : Reachable a)
      (within : ∀ r ∈ op.operands, r ∈ a.relations) : Reachable (op.run a)

/-! ## Every session keeps the invariant -/

namespace Algebra

variable {a a' : Algebra} {r : Relation}

theorem wireTable_ok {name : String} {t : Table} (h : (wireTable name).run a = .ok (t, a')) :
    Relation.table t ∈ a.relations ∧ a' = a := by
  simp only [wireTable, run_bind_ok_iff, run_get_ok_iff] at h
  obtain ⟨_, _, ⟨rfl, rfl⟩, h⟩ := h
  split at h
  · next t' hfound =>
    obtain ⟨rfl, rfl⟩ := run_pure_ok_iff.1 h
    exact ⟨(mem_of_table? hfound).1, rfl⟩
  · exact (run_throw_ok_iff.1 h).elim

theorem Sound.grown_self (ha : a.Sound) (hr : r ∈ a.relations) : Grown a r a :=
  ⟨ha, List.prefix_rfl, hr⟩

/-- What has grown grows further. -/
theorem Grown.trans {b : Algebra} {s : Relation} (h : Grown a s b) (h' : Grown b r a') :
    Grown a r a' := ⟨h'.sound, h.keeps.trans h'.keeps, h'.mem⟩

/-- What is built on top of what has grown. -/
theorem Grown.built {b : Algebra} {s : Relation} (h : Grown a s b)
    (hr : Built b r ∧ a' = b.add r) : Grown a r a' := by
  obtain ⟨hbuilt, rfl⟩ := hr
  exact h.trans (Built.grown hbuilt h.sound)

/-- What reading a wire form does: it reads the operands, and builds on them. -/
inductive Decodes : Algebra → Relation → Algebra → Prop
  | table {a : Algebra} {t : Table} (table_mem : Relation.table t ∈ a.relations) :
      Decodes a (.table t) a
  | selection {a b a' : Algebra} {operand r : Relation} {j : Json} {condition : Expr String}
      (operand_read : Decodes a operand b) (condition_read : Wire.expr j = .ok condition)
      (built : (select operand (.expr condition)).run b = .ok (r, a')) : Decodes a r a'
  | join {a b c a' : Algebra} {kind : JoinKind} {left right r : Relation} {j : Json}
      {condition : Expr String} (left_read : Decodes a left b) (right_read : Decodes b right c)
      (condition_read : Wire.expr j = .ok condition)
      (built : (join kind left right (.expr condition)).run c = .ok (r, a')) : Decodes a r a'
  | whole {a b a' : Algebra} {operand r : Relation} {t : Table}
      (operand_read : Decodes a operand b)
      (built : (project operand [.relation (.table t)]).run b = .ok (r, a')) : Decodes a r a'

theorem decodes_of_ofWireWithin {depth : Nat} {j : Json}
    (h : (ofWireWithin depth j).run a = .ok (r, a')) : Decodes a r a' := by
  induction depth generalizing j a r a' with
  | zero => exact (run_throw_ok_iff.1 h).elim
  | succ depth ih =>
    simp only [ofWireWithin, run_bind_ok_iff, run_lift_ok_iff] at h
    obtain ⟨type, _, ⟨-, rfl⟩, h⟩ := h
    split at h
    · -- a table
      simp only [run_bind_ok_iff, run_lift_ok_iff, run_pure_ok_iff] at h
      obtain ⟨_, _, ⟨-, rfl⟩, t, _, htable, rfl, rfl⟩ := h
      obtain ⟨hmem, rfl⟩ := wireTable_ok htable
      exact .table hmem
    · split at h
      · -- a selection
        simp only [run_bind_ok_iff, run_lift_ok_iff] at h
        obtain ⟨_, _, ⟨-, rfl⟩, operand, b, hoperand, _, _, ⟨-, rfl⟩, _, _, ⟨hcondition, rfl⟩,
          h⟩ := h
        exact .selection (ih hoperand) hcondition h
      · split at h
        · -- a join
          simp only [run_bind_ok_iff, run_lift_ok_iff] at h
          obtain ⟨_, _, ⟨-, rfl⟩, left, b, hleft, _, _, ⟨-, rfl⟩, right, c, hright, _, _,
            ⟨-, rfl⟩, _, _, ⟨hcondition, rfl⟩, h⟩ := h
          exact .join (ih hleft) (ih hright) hcondition h
        · split at h
          · -- a projection of a whole table
            simp only [run_bind_ok_iff, run_lift_ok_iff] at h
            obtain ⟨_, _, ⟨-, rfl⟩, operand, b, hoperand, _, _, ⟨-, rfl⟩, t, _, htable, h⟩ := h
            obtain ⟨-, rfl⟩ := wireTable_ok htable
            exact .whole (ih hoperand) h
          · exact (run_throw_ok_iff.1 h).elim

/-- Reading builds one relation after the other. -/
theorem Decodes.grown (h : Decodes a r a') (ha : a.Sound) : Grown a r a' := by
  induction h with
  | table table_mem => exact ha.grown_self table_mem
  | selection _ _ built ih =>
    have hgrown := ih ha
    exact hgrown.built (built_of_select hgrown.mem built)
  | join _ _ _ built ihl ihr =>
    have hl := ihl ha
    have hr := ihr hl.sound
    exact (hl.trans hr).built (built_of_join (hr.mono hl.mem) hr.mem built)
  | whole _ built ih =>
    have hgrown := ih ha
    exact hgrown.built (built_of_project hgrown.mem built)

/-- Reading a wire form builds one relation after the other. -/
theorem grown_of_ofWireWithin {depth : Nat} {j : Json} (ha : a.Sound)
    (h : (ofWireWithin depth j).run a = .ok (r, a')) : Grown a r a' :=
  (decodes_of_ofWireWithin h).grown ha

theorem Sound.declareTables (ha : a.Sound) (tables : List TableSchema) :
    (Schema.declareTables tables a).1.Sound := by
  induction tables generalizing a with
  | nil => exact ha
  | cons t rest ih =>
    unfold Schema.declareTables
    split
    · next table b hrun =>
      simp only [TableSchema.declare, run_bind_ok_iff, run_lift_ok_iff] at hrun
      obtain ⟨columns, _, ⟨-, rfl⟩, hrun⟩ := hrun
      obtain ⟨hbuilt, rfl⟩ := built_of_createTable hrun
      exact ih (ha.add hbuilt)
    · exact ha

/-- An algebra stays sound under a computation whose successes keep it so. -/
theorem Sound.after {α : Type} {build : Build α} (ha : a.Sound)
    (h : ∀ x b, build.run a = .ok (x, b) → b.Sound) : (a.after build).Sound := by
  unfold Algebra.after
  split
  · next x b hrun => exact h x b hrun
  · exact ha

/-- An algebra stays sound under a computation that builds one relation. -/
theorem Sound.after_built {α : Type} {build : Build α} (ha : a.Sound) (relation : α → Relation)
    (h : ∀ x b, build.run a = .ok (x, b) → Built a (relation x) ∧ b = a.add (relation x)) :
    (a.after build).Sound := by
  refine ha.after fun x b hrun => ?_
  obtain ⟨hbuilt, rfl⟩ := h x b hrun
  exact ha.add hbuilt

/-- Every operation keeps the invariant. -/
theorem Sound.run (ha : a.Sound) (op : Operation) (within : ∀ r ∈ op.operands, r ∈ a.relations) :
    (op.run a).Sound := by
  cases op with
  | createTable name columns =>
    exact ha.after_built .table fun t b h => built_of_createTable h
  | select operand condition =>
    have hoperand := within operand (by simp [Operation.operands])
    exact ha.after_built id fun r b h => built_of_select hoperand h
  | selectId operand key =>
    have hoperand := within operand (by simp [Operation.operands])
    exact ha.after_built id fun r b h => built_of_select hoperand h
  | project operand args =>
    have hoperand := within operand (by simp [Operation.operands])
    exact ha.after_built id fun r b h => built_of_project hoperand h
  | join kind left right condition =>
    have hleft := within left (by simp [Operation.operands])
    have hright := within right (by simp [Operation.operands])
    exact ha.after_built id fun r b h => built_of_join hleft hright h
  | joinInferred kind left right =>
    have hleft := within left (by simp [Operation.operands])
    have hright := within right (by simp [Operation.operands])
    refine ha.after_built id fun r b h => ?_
    simp only [joinInferred, run_bind_ok_iff, run_lift_ok_iff] at h
    obtain ⟨condition, _, ⟨-, rfl⟩, h⟩ := h
    exact built_of_join hleft hright h
  | ofWire wire =>
    exact ha.after fun r b h => (grown_of_ofWireWithin ha h).sound
  | declare schema => exact ha.declareTables schema.tables

/-- In every algebra that a session leads to, each relation was built from those before it. -/
theorem Reachable.sound (h : a.Reachable) : a.Sound := by
  induction h with
  | empty => exact sound_empty
  | step op _ within ih => exact ih.run op within

end Algebra

/-! ## A short session -/

namespace Sample

/-- A table of blogs. -/
def blogs : Table := ⟨0, "blogs", [⟨"id", .integer⟩]⟩

/-- A table of posts, each on a blog. -/
def posts : Table := ⟨1, "posts", [⟨"id", .integer⟩, ⟨"blog_id", .integer⟩]⟩

/-- The first blog. -/
def first : Relation := .selection 2 (.table blogs) (.equal (.column 0) (.literal (.integer 1)))

/-- The first blog with its posts, if it has any. -/
def firstPosts : Relation :=
  .join 3 .leftOuter first (.table posts) (.equal (.column 0) (.column 2))

/-- Two blogs, and a post on the first. -/
def stored : Contents := fun t =>
  if t = blogs then [[.integer 1], [.integer 2]] else [[.integer 7, .integer 1]]

/-- The relations of the session. -/
def algebra : Algebra := ⟨[.table blogs, .table posts, first, firstPosts]⟩

theorem reachable : algebra.Reachable := by
  refine .step (a := ⟨[.table blogs, .table posts, first]⟩)
    (.join .leftOuter first (.table posts) (.pairs [("blogs__id", .column "blog_id")]))
    (.step (a := ⟨[.table blogs, .table posts]⟩)
      (.select (.table blogs) (.pairs [("id", .literal (.integer 1))]))
      (.step (a := ⟨[.table blogs]⟩)
        (.createTable "posts" [("id", .integer), ("blog_id", .integer)])
        (.step (.createTable "blogs" [("id", .integer)]) .empty ?_) ?_) ?_) ?_
  all_goals decide

/-- The tables of the session are those of blogs and of posts. -/
theorem table_cases {t : Table} (ht : Relation.table t ∈ algebra.relations) :
    t = blogs ∨ t = posts := by
  simpa [algebra, first, firstPosts] using ht

end Sample

end RelationalAlgebra
