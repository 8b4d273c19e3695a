import RelationalAlgebra.Proofs.Rebuilding

/-!
# What reading builds

A wire form says less than a caller can: its conditions have no aliases and no aggregates, its
columns are named by qualified names, and its projections pass on whole tables.  As every node is
built anew, the right operand of a join is no join of the left one's chain either.  So a relation
that was read (`Relation.Decoded`) has a wire form again (`Decoded.sendable`).

The qualified name of a column of a wire form is put together out of a table and a column, and it
need not come apart into these again.  A name that starts or ends with its last delimiter does not
come apart at all, and then finds a column only if that is its very name (`findIn?_declared`).
`found_iff_separated` says when the declared column that was found is found again under its own
qualified name: exactly if this name comes apart as it was put together.
-/

namespace RelationalAlgebra

open QualifiedName

/-! ## Conditions -/

namespace Expr

variable {α β ε : Type} {P Q R : α → Prop} {e : Expr α}

/-- The expression compares columns, which have the property, and literals: what a wire form can
say. -/
def Decoded (P : α → Prop) : Expr α → Prop
  | .column reference => P reference
  | .literal _ => True
  | .aliased _ _ => False
  | .equal left right => left.Decoded P ∧ right.Decoded P
  | .aggregate _ _ => False

theorem Decoded.aliasFree (h : e.Decoded P) : e.AliasFree := by
  unfold AliasFree
  induction e with
  | column reference => rfl
  | literal value => rfl
  | aliased expr label ih => exact h.elim
  | equal left right ihl ihr => rw [unaliased, ihl h.1, ihr h.2]
  | aggregate function argument ih => exact h.elim

/-- Where every column has two properties, every column has what follows from both. -/
theorem Decoded.all_of (h : e.Decoded P) (hQ : e.All Q) (himp : ∀ c, P c → Q c → R c) :
    e.All R := by
  induction e with
  | column reference => exact himp _ h hQ
  | literal value => trivial
  | aliased expr label ih => exact h.elim
  | equal left right ihl ihr => exact ⟨ihl h.1 hQ.1, ihr h.2 hQ.2⟩
  | aggregate function argument ih => exact h.elim

/-- Binding the names keeps the expression as it is. -/
theorem Decoded.bindNames {bind : α → Except ε β} {P' : β → Prop} {bound : Expr β}
    (h : e.Decoded P) (hbind : ∀ name b, P name → bind name = .ok b → P' b)
    (hbound : e.bindNames bind = .ok bound) : bound.Decoded P' := by
  induction e generalizing bound with
  | column reference =>
    obtain ⟨b, hb, rfl⟩ := map_ok_iff.1 hbound
    exact hbind _ _ h hb
  | literal value => cases hbound; trivial
  | aliased expr label ih => exact h.elim
  | equal left right ihl ihr =>
    obtain ⟨l, hl, hbound⟩ := bind_ok_iff.1 hbound
    obtain ⟨r, hr, hbound⟩ := bind_ok_iff.1 hbound
    cases hbound
    exact ⟨ihl h.1 hl, ihr h.2 hr⟩
  | aggregate function argument ih => exact h.elim

/-- The columns of a wire form are named by qualified names. -/
theorem decoded_of_exprWithin {depth : Nat} {j : Json} {e : Expr String}
    (h : Wire.exprWithin depth j = .ok e) : e.Decoded (isQualified · = true) := by
  induction depth generalizing j e with
  | zero => cases h
  | succ depth ih =>
    simp only [Wire.exprWithin] at h
    obtain ⟨type, -, h⟩ := bind_ok_iff.1 h
    split at h
    · -- an equality
      simp only [bind_ok_iff] at h
      obtain ⟨_, -, left, hleft, _, -, right, hright, h⟩ := h
      cases h
      exact ⟨ih hleft, ih hright⟩
    · split at h
      · -- a column
        simp only [bind_ok_iff] at h
        obtain ⟨table, -, name, -, h⟩ := h
        cases h
        exact isQualified_qualify table name
      · split at h
        · -- a literal
          obtain ⟨value, -, h⟩ := bind_ok_iff.1 h
          cases h
          trivial
        · cases h

end Expr

namespace Relation

variable {a : Algebra} {r operand left right : Relation} {operands : List Relation} {i : Nat}
  {name t c : String}

/-- A qualified name stands for the column. -/
def Qualified (operands : List Relation) (i : Nat) : Prop :=
  ∃ name, isQualified name = true ∧ findIn? operands name = some i

/-- The relation is as reading builds it: its conditions are what a wire form can say, its
projections pass on whole tables, and no join is the right operand of a join whose left chain
contains it. -/
def Decoded : Relation → Prop
  | .table _ => True
  | .selection _ operand condition => operand.Decoded ∧ condition.Decoded (Qualified [operand])
  | .projection _ operand whole _ => operand.Decoded ∧ whole.isSome
  | .join _ _ left right condition =>
    left.Decoded ∧ right.Decoded ∧ right ∉ left.joinChain ∧
      condition.Decoded (Qualified [left, right])

theorem Decoded.apart (h : r.Decoded) : r.Apart := by
  induction r with
  | table t => trivial
  | selection id operand condition ih => exact ih h.1
  | projection id operand whole shown ih => exact ih h.1
  | join id kind left right condition ihl ihr => exact ⟨ihl h.1, ihr h.2.1, h.2.2.1⟩

theorem Decoded.aliasFree (h : r.Decoded) : r.Conditions Expr.AliasFree := by
  induction r with
  | table t => trivial
  | selection id operand condition ih => exact ⟨ih h.1, h.2.aliasFree⟩
  | projection id operand whole shown ih => exact ih h.1
  | join id kind left right condition ihl ihr => exact ⟨ihl h.1, ihr h.2.1, h.2.2.2.aliasFree⟩

end Relation

/-! ## Reading -/

namespace Algebra

open RelationalAlgebra.Relation

variable {a a' b : Algebra} {r operand left right : Relation} {condition : Expr String}
  {j : Json}

/-- An expression that stands for an equality is that equality. -/
theorem eq_of_equality {equality : Expr String}
    (h : (Predicate.expr condition).equality = .ok equality) : condition = equality := by
  cases condition with
  | equal left right => cases h; rfl
  | _ => cases h

/-- What is bound of a condition that was read. -/
theorem decoded_of_bind {operands : List Relation} {building : String} {equality : Expr String}
    {bound : Expr Nat} (hread : Wire.expr j = .ok condition)
    (hequality : (Predicate.expr condition).equality = .ok equality)
    (hbound : bind operands building equality = .ok bound) :
    bound.Decoded (Qualified operands) := by
  obtain rfl := eq_of_equality hequality
  exact (Expr.decoded_of_exprWithin hread).bindNames
    (fun name i hname hbind => ⟨name, hname, bindColumn_ok_iff.1 hbind⟩) hbound

/-- What is read is new, unless it is a table. -/
theorem Decodes.fresh (h : Decodes a r a') (ha : a.Sound) :
    (∃ t, r = .table t) ∨ a.size ≤ r.id := by
  cases h with
  | table table_mem => exact .inl ⟨_, rfl⟩
  | selection operand_read _ built =>
    obtain ⟨_, _, -, -, rfl, -⟩ := select_ok_iff.1 built
    exact .inr (operand_read.grown ha).size_le
  | join left_read right_read _ built =>
    obtain ⟨-, _, _, -, -, rfl, -⟩ := join_ok_iff.1 built
    have hl := left_read.grown ha
    exact .inr (hl.trans (right_read.grown hl.sound)).size_le
  | whole operand_read built =>
    obtain ⟨-, _, rfl, -⟩ := project_ok_iff.1 built
    exact .inr (operand_read.grown ha).size_le

/-- No chain of joins that was there before contains what is read. -/
theorem Decodes.not_mem_joinChain (h : Decodes a right a') (ha : a.Sound)
    (hleft : left ∈ a.relations) : right ∉ left.joinChain := by
  intro hmem
  rcases h.fresh ha with ⟨t, rfl⟩ | hfresh
  · obtain ⟨_, _, _, _, _, heq⟩ := exists_join_of_mem_joinChain hmem
    cases heq
  · have hspine := (ha.mem_of_mem_spine hleft (List.mem_append_left _ hmem)).1
    have hlt := ha.id_lt_size hspine
    omega

theorem Decodes.decoded (h : Decodes a r a') (ha : a.Sound) : r.Decoded := by
  induction h with
  | table table_mem => trivial
  | selection operand_read condition_read built ih =>
    obtain ⟨_, _, hequality, hbound, rfl, -⟩ := select_ok_iff.1 built
    exact ⟨ih ha, decoded_of_bind condition_read hequality hbound⟩
  | join left_read right_read condition_read built ihl ihr =>
    obtain ⟨-, _, _, hequality, hbound, rfl, -⟩ := join_ok_iff.1 built
    have hl := left_read.grown ha
    exact ⟨ihl ha, ihr hl.sound, right_read.not_mem_joinChain hl.sound hl.mem,
      decoded_of_bind condition_read hequality hbound⟩
  | @whole a b a' operand r t operand_read built ih =>
    obtain ⟨-, shown, rfl, hshown, -⟩ := project_ok_iff.1 built
    refine ⟨ih ha, ?_⟩
    -- a table that the operand does not reach is no column either
    cases hreach : projectedTable? operand [.relation (.table t)] with
    | some u => rfl
    | none =>
      rw [hreach] at hshown
      cases hshown

end Algebra

/-! ## What is written again -/

namespace Relation

variable {a : Algebra} {r operand left right s : Relation} {operands : List Relation} {i j : Nat}
  {name t c : String}

theorem declaredIn?_of_locate (h : locate operands i = some ⟨s, j⟩) :
    declaredIn? operands i = s.declared? j := by
  rw [declaredIn?, h, Option.bind_some]

/-- Every column of a relation that was read reads a declared column. -/
theorem Decoded.declared?_isSome (h : r.Decoded) (ha : a.Sound) (hr : r ∈ a.relations)
    (hi : i < r.width) : (r.declared? i).isSome := by
  induction r generalizing i with
  | table t =>
    rw [width_table] at hi
    rw [declared?_table, List.getElem?_eq_getElem hi]
    rfl
  | selection id operand condition ih =>
    rw [width_selection] at hi
    exact ih h.1 (ha.selection_operand hr).1 hi
  | projection id operand whole shown ih =>
    obtain ⟨hoperand, hwhole⟩ := h
    obtain ⟨t, rfl⟩ := Option.isSome_iff_exists.1 hwhole
    rw [width_projection] at hi
    have hcolumn := List.getElem_mem hi
    obtain ⟨column, -, k, hk, heq⟩ :=
      showsOneOf_of_wholeColumns (ha.whole_built hr).2 _ hcolumn
    have hop := (ha.projection_operand hr).1
    rw [declared?_projection (List.getElem?_eq_getElem hi) (congrArg OutputColumn.source heq)]
    exact ih hoperand hop (ha.find?_lt hop hk)
  | join id kind left right condition ihl ihr =>
    obtain ⟨hl, hrt, hapart, -⟩ := h
    rw [width_join (Sql.ne_of_not_mem_joinChain ha hr hapart)] at hi
    by_cases hlt : i < left.width
    · rw [declared?_join_left hlt]
      exact ihl hl (ha.join_left hr).1 hlt
    · obtain ⟨k, rfl⟩ := Nat.exists_eq_add_of_le (Nat.le_of_not_lt hlt)
      rw [declared?_join_right]
      exact ihr hrt (ha.join_right hr).1 (by omega)

/-- What a name finds in relations that were read reads a declared column. -/
theorem declaredIn?_isSome (ha : a.Sound) (hops : ∀ s ∈ operands, s ∈ a.relations)
    (hdecoded : ∀ s ∈ operands, s.Decoded) (h : findIn? operands name = some i) :
    (declaredIn? operands i).isSome := by
  obtain ⟨s, hs, j, hj, hlocate⟩ := ha.exists_of_findIn? hops h
  rw [declaredIn?_of_locate hlocate]
  exact (hdecoded s hs).declared?_isSome ha (hops s hs) (ha.find?_lt (hops s hs) hj)

/-- A condition that was read has a wire form. -/
theorem exists_exprToWire {e : Expr Nat} (h : e.Decoded (Qualified operands)) (ha : a.Sound)
    (hops : ∀ s ∈ operands, s ∈ a.relations) (hdecoded : ∀ s ∈ operands, s.Decoded) :
    ∃ w, exprToWire operands e = .ok w := by
  induction e with
  | column i =>
    obtain ⟨name, -, hname⟩ := h
    obtain ⟨⟨t, c⟩, hdeclared⟩ :=
      Option.isSome_iff_exists.1 (declaredIn?_isSome ha hops hdecoded hname)
    rw [exprToWire, columnToWire_eq, hdeclared]
    exact ⟨_, rfl⟩
  | literal value => exact ⟨_, rfl⟩
  | aliased expr label ih => exact h.elim
  | equal left right ihl ihr =>
    obtain ⟨l, hl⟩ := ihl h.1
    obtain ⟨r, hr⟩ := ihr h.2
    exact ⟨_, bind_ok_iff.2 ⟨l, hl, bind_ok_iff.2 ⟨r, hr, rfl⟩⟩⟩
  | aggregate function argument ih => exact h.elim

/-- A relation that was read has a wire form. -/
theorem Decoded.sendable (h : r.Decoded) (ha : a.Sound) (hr : r ∈ a.relations) : r.Sendable := by
  induction r with
  | table t => exact ⟨_, rfl⟩
  | selection id operand condition ih =>
    have hop := (ha.selection_operand hr).1
    obtain ⟨wire, hwire⟩ := ih h.1 hop
    obtain ⟨predicate, hpredicate⟩ :=
      exists_exprToWire h.2 ha (List.forall_mem_singleton.2 hop) (List.forall_mem_singleton.2 h.1)
    exact ⟨_, bind_ok_iff.2 ⟨wire, hwire, bind_ok_iff.2 ⟨predicate, hpredicate, rfl⟩⟩⟩
  | projection id operand whole shown ih =>
    obtain ⟨t, rfl⟩ := Option.isSome_iff_exists.1 h.2
    obtain ⟨wire, hwire⟩ := ih h.1 (ha.projection_operand hr).1
    exact ⟨_, bind_ok_iff.2 ⟨wire, hwire, rfl⟩⟩
  | join id kind left right condition ihl ihr =>
    have hleft := (ha.join_left hr).1
    have hright := (ha.join_right hr).1
    obtain ⟨leftWire, hleftWire⟩ := ihl h.1 hleft
    obtain ⟨rightWire, hrightWire⟩ := ihr h.2.1 hright
    obtain ⟨predicate, hpredicate⟩ := exists_exprToWire h.2.2.2 ha
      (List.forall_mem_cons.2 ⟨hleft, List.forall_mem_singleton.2 hright⟩)
      (List.forall_mem_cons.2 ⟨h.1, List.forall_mem_singleton.2 h.2.1⟩)
    exact ⟨_, bind_ok_iff.2 ⟨leftWire, hleftWire, bind_ok_iff.2 ⟨rightWire, hrightWire,
      bind_ok_iff.2 ⟨predicate, hpredicate, rfl⟩⟩⟩⟩

/-! ## What is found again -/

/-- What a qualified name finds among the columns of several operands reads the column that the
name says, if it comes apart, and else a column of that very name. -/
theorem findIn?_declared (ha : a.Sound) (hops : ∀ s ∈ operands, s ∈ a.relations)
    (hname : isQualified name = true) (h : findIn? operands name = some i) :
    ∃ t c, declaredIn? operands i = some (t, c) ∧
      (split name = some (t, c) ∨ split name = none ∧ c = name) := by
  obtain ⟨s, hs, j, hj, hlocate⟩ := ha.exists_of_findIn? hops h
  obtain ⟨t, own, hown, hdeclared⟩ := find?_ownName ha (hops s hs) hname hj
  rw [declaredIn?_of_locate hlocate]
  refine ⟨t.name, own, hdeclared, ?_⟩
  rw [Table.ownName?] at hown
  split at hown
  · next qualifier field hsplit =>
    simp only [Option.ite_none_right_eq_some, Option.some.injEq] at hown
    rw [hsplit, hown.1, hown.2]
    exact .inl rfl
  · next hsplit => exact .inr ⟨hsplit, (Option.some.inj hown).symm⟩

/-- The qualified name of the declared column that a column of several operands reads comes apart
as it was put together. -/
def Separated (operands : List Relation) (i : Nat) : Prop :=
  ∀ t c, declaredIn? operands i = some (t, c) → split (qualify t c) = some (t, c)

/-- A declared column whose qualified name finds a column that reads it has a name that comes
apart. -/
theorem split_of_found (ha : a.Sound) (hops : ∀ s ∈ operands, s ∈ a.relations)
    (hdeclared : declaredIn? operands i = some (t, c))
    (h : findIn? operands (qualify t c) = some i) : split (qualify t c) = some (t, c) := by
  obtain ⟨t', c', hdeclared', hsplit | ⟨-, hc⟩⟩ :=
    findIn?_declared ha hops (isQualified_qualify t c) h
  · rw [hdeclared] at hdeclared'
    cases hdeclared'
    exact hsplit
  · rw [hdeclared] at hdeclared'
    cases hdeclared'
    exact absurd hc.symm (qualify_ne t c)

/-- A column that a qualified name stands for is found again under the qualified name of the
declared column it reads exactly if this name comes apart. -/
theorem found_iff_separated (ha : a.Sound) (hops : ∀ s ∈ operands, s ∈ a.relations)
    (h : Qualified operands i) : Found operands i ↔ Separated operands i := by
  obtain ⟨name, hname, hfind⟩ := h
  constructor
  · intro hfound t c hdeclared
    exact split_of_found ha hops hdeclared (hfound t c hdeclared)
  · intro hseparated t c hdeclared
    have hparts := hseparated t c hdeclared
    obtain ⟨t', c', hdeclared', hsplit | ⟨-, hc⟩⟩ := findIn?_declared ha hops hname hfind
    · rw [hdeclared] at hdeclared'
      cases hdeclared'
      rw [qualify_of_split hsplit, hfind]
    · -- the field of a name that comes apart is no qualified name
      rw [hdeclared] at hdeclared'
      cases hdeclared'
      have hplain := isQualified_field hparts
      rw [hc, hname] at hplain
      cases hplain

end Relation

end RelationalAlgebra
