import RelationalAlgebra.Proofs.Finding

/-!
# The search for a key

A join without a condition of its own takes one from a key.  The search goes through the leaves of one
operand from the left (`Relation.inferKeyFrom_eq`): a table that a column of the other operand refers to
ends it with a key, and a projection of columns, which does not say what table it stands for, ends it
with an error (`Relation.inferKey_eq_some_iff`, `Relation.inferKey_eq_error_iff`).

The left operand is searched first.  If it has no key the right one is searched, but an error ends the
search for good, whatever key the right operand has.  So the order of the operands decides, and only for
an operand whose search ends with an error.  The main statement is `Arena.joinInferred_unsupported_iff`.
-/

namespace RelationalAlgebra

open RelationalAlgebra.Relation

namespace Relation

variable {r other left right : Relation} {referrers : Referrers} {cause : Error} {pair : KeyPair}

/-! ## Leaf by leaf -/

/-- What a leaf says when a key is looked for, if it says anything: the key of its table, or that it is
not known what table it stands for. -/
def keyOf? (referrers : Referrers) : Relation → Option (Except Error KeyPair)
  | .table t => (t.inferKey referrers).map .ok
  | .selection _ _ _ => none
  | .projection _ _ (some t) _ => (t.inferKey referrers).map .ok
  | .projection _ operand none _ =>
    some (.error (.unsupportedJoinInference
      ("cannot infer join columns through projection of " ++ operand.describe)))
  | .join _ _ _ _ _ => none

/-- The table that a leaf stands for. -/
def leafTable? : Relation → Option Table
  | .table t => some t
  | .selection _ _ _ => none
  | .projection _ _ whole _ => whole
  | .join _ _ _ _ _ => none

/-- The first leaf that says something decides. -/
theorem inferKeyFrom_eq (referrers : Referrers) (r : Relation) :
    inferKeyFrom referrers r =
      (r.leaves.findSome? (keyOf? referrers)).elim (.ok none) (Except.map some) := by
  induction r with
  | table t =>
    rw [inferKeyFrom, leaves, List.findSome?_singleton, keyOf?]
    cases t.inferKey referrers <;> rfl
  | selection id operand condition ih => exact ih
  | projection id operand whole shown ih =>
    cases whole with
    | none => rfl
    | some t =>
      rw [inferKeyFrom, leaves, List.findSome?_singleton, keyOf?]
      cases t.inferKey referrers <;> rfl
  | join id kind left right condition ihl ihr =>
    rw [inferKeyFrom, leaves, List.findSome?_append, ihl, ihr]
    cases left.leaves.findSome? (keyOf? referrers) with
    | none => rfl
    | some said => cases said <;> rfl

theorem inferKey_eq (r other : Relation) :
    r.inferKey other =
      (r.leaves.findSome? (keyOf? other.referrers)).elim (.ok none) (Except.map some) :=
  inferKeyFrom_eq other.referrers r

theorem keyOf?_eq_ok_iff :
    r.keyOf? referrers = some (.ok pair) ↔
      ∃ t, r.leafTable? = some t ∧ t.inferKey referrers = some pair := by
  cases r with
  | table t => simp [keyOf?, leafTable?]
  | selection id operand condition => simp [keyOf?, leafTable?]
  | projection id operand whole shown => cases whole <;> simp [keyOf?, leafTable?]
  | join id kind left right condition => simp [keyOf?, leafTable?]

theorem keyOf?_eq_error_iff :
    r.keyOf? referrers = some (.error cause) ↔
      ∃ id operand shown, r = .projection id operand none shown ∧
        cause = .unsupportedJoinInference
          ("cannot infer join columns through projection of " ++ operand.describe) := by
  cases r with
  | table t => simp [keyOf?]
  | selection id operand condition => simp [keyOf?]
  | projection id operand whole shown =>
    cases whole with
    | none => simp [keyOf?, eq_comm]
    | some t => simp [keyOf?]
  | join id kind left right condition => simp [keyOf?]

/-- The search finds the key of the first leaf that has one, if no projection of columns stands before
it. -/
theorem inferKey_eq_some_iff :
    r.inferKey other = .ok (some pair) ↔
      ∃ before leaf after, r.leaves = before ++ leaf :: after ∧
        (∃ t, leaf.leafTable? = some t ∧ t.inferKey other.referrers = some pair) ∧
        ∀ s ∈ before, s.keyOf? other.referrers = none := by
  have hsaid : r.inferKey other = .ok (some pair) ↔
      r.leaves.findSome? (keyOf? other.referrers) = some (.ok pair) := by
    rw [inferKey_eq]
    cases r.leaves.findSome? (keyOf? other.referrers) with
    | none => simp
    | some said => cases said <;> simp [Except.map]
  rw [hsaid, List.findSome?_eq_some_iff]
  simp only [keyOf?_eq_ok_iff]

/-- The search ends with an error at a projection of columns that stands before the first key. -/
theorem inferKey_eq_error_iff :
    r.inferKey other = .error cause ↔
      ∃ before leaf after, r.leaves = before ++ leaf :: after ∧
        (∃ id operand shown, leaf = .projection id operand none shown ∧
          cause = .unsupportedJoinInference
            ("cannot infer join columns through projection of " ++ operand.describe)) ∧
        ∀ s ∈ before, s.keyOf? other.referrers = none := by
  have hsaid : r.inferKey other = .error cause ↔
      r.leaves.findSome? (keyOf? other.referrers) = some (.error cause) := by
    rw [inferKey_eq]
    cases r.leaves.findSome? (keyOf? other.referrers) with
    | none => simp
    | some said => cases said <;> simp [Except.map]
  rw [hsaid, List.findSome?_eq_some_iff]
  simp only [keyOf?_eq_error_iff]

/-! ## One operand after the other -/

/-- The search finds a key of the relation that a column of the other one refers to. -/
def Keyed (r other : Relation) : Prop := ∃ pair, r.inferKey other = .ok (some pair)

/-- The search for a key of the relation ends with an error. -/
def Undecided (r other : Relation) : Prop := ∃ cause, r.inferKey other = .error cause

/-- A search finds a key, or finds that there is none, or ends with an error. -/
theorem inferKey_cases (r other : Relation) :
    r.Keyed other ∨ r.inferKey other = .ok none ∨ r.Undecided other := by
  unfold Keyed Undecided
  cases h : r.inferKey other with
  | error cause => exact .inr (.inr ⟨cause, rfl⟩)
  | ok found =>
    cases found with
    | none => exact .inr (.inl rfl)
    | some pair => exact .inl ⟨pair, rfl⟩

/-- A search that finds a key comes to nothing else. -/
theorem Keyed.not_without (h : r.Keyed other) :
    ¬ (r.Undecided other ∨ r.inferKey other = .ok none) := by
  obtain ⟨pair, hpair⟩ := h
  rintro (⟨cause, hcause⟩ | hnone)
  · rw [hpair] at hcause
    cases hcause
  · rw [hpair] at hnone
    cases hnone

/-- A search that ends with an error has come to a projection of columns, and no leaf before that one has
a key. -/
theorem undecided_iff :
    r.Undecided other ↔
      ∃ before id operand shown after,
        r.leaves = before ++ .projection id operand none shown :: after ∧
        ∀ s ∈ before, s.keyOf? other.referrers = none := by
  constructor
  · rintro ⟨cause, h⟩
    obtain ⟨before, leaf, after, hleaves, ⟨id, operand, shown, rfl, -⟩, hbefore⟩ :=
      inferKey_eq_error_iff.1 h
    exact ⟨before, id, operand, shown, after, hleaves, hbefore⟩
  · rintro ⟨before, id, operand, shown, after, hleaves, hbefore⟩
    exact ⟨_, inferKey_eq_error_iff.2
      ⟨before, _, after, hleaves, ⟨id, operand, shown, rfl, rfl⟩, hbefore⟩⟩

/-- No condition is found if the search ends with an error on the left, or finds no key there and none on
the right. -/
theorem inferCondition_ne_ok_iff :
    (∀ p, left.inferCondition right ≠ .ok p) ↔
      left.Undecided right ∨ left.inferKey right = .ok none ∧ ¬ right.Keyed left := by
  unfold inferCondition Undecided Keyed
  cases hleft : left.inferKey right with
  | error cause => simp [bind, Except.bind]
  | ok found =>
    cases found with
    | some pair => simp [bind, Except.bind, pure, Except.pure]
    | none =>
      cases hright : right.inferKey left with
      | error cause => simp [bind, Except.bind]
      | ok found =>
        cases found with
        | some pair => simp [bind, Except.bind, pure, Except.pure]
        | none => simp [bind, Except.bind, throw, throwThe, MonadExceptOf.throw]

/-- The search for a condition fails for one reason only. -/
theorem exists_of_inferCondition_error (h : left.inferCondition right = .error cause) :
    ∃ reason, cause = .unsupportedJoinInference reason := by
  have hsearch : ∀ {r other : Relation}, r.inferKey other = .error cause →
      ∃ reason, cause = .unsupportedJoinInference reason := by
    intro r other h
    obtain ⟨-, -, -, -, ⟨id, operand, shown, -, rfl⟩, -⟩ := inferKey_eq_error_iff.1 h
    exact ⟨_, rfl⟩
  rcases bind_error_iff.1 h with h | ⟨found, -, h⟩
  · exact hsearch h
  · cases found with
    | some pair => cases h
    | none =>
      rcases bind_error_iff.1 h with h | ⟨found, -, h⟩
      · exact hsearch h
      · cases found with
        | some pair => cases h
        | none =>
          cases h
          exact ⟨_, rfl⟩

end Relation

/-! ## Joins by a key -/

namespace Algebra

variable {b : Algebra} {left right : Relation} {kind : JoinKind} {reason : String}

theorem Predicate.equality_ne_unsupported (p : Predicate) :
    p.equality ≠ .error (.unsupportedJoinInference reason) := by
  intro h
  unfold Predicate.equality at h
  split at h <;> cases h

/-- A join with a condition does not fail for want of one. -/
theorem join_ne_unsupported (p : Predicate) :
    (Algebra.join kind left right p).run b ≠ .error (.unsupportedJoinInference reason) := by
  intro h
  rw [run_join] at h
  split at h
  · cases h
  · rcases bind_error_iff.1 h with h | ⟨equality, -, h⟩
    · exact Predicate.equality_ne_unsupported p h
    · rcases bind_error_iff.1 h with h | ⟨bound, -, h⟩
      · obtain ⟨name, hname⟩ := Expr.exists_of_bindNames_error h
        unfold bindColumn at hname
        split at hname <;> cases hname
      · cases h

/-- A join by a key fails for want of a condition exactly if none is found. -/
theorem joinInferred_unsupported_iff_search (b : Algebra) (kind : JoinKind) :
    (∃ reason, (Algebra.joinInferred kind left right).run b =
        .error (.unsupportedJoinInference reason)) ↔
      ∀ p, left.inferCondition right ≠ .ok p := by
  unfold Algebra.joinInferred
  rw [run_lift_bind]
  cases hcondition : left.inferCondition right with
  | ok p =>
    refine iff_of_false ?_ fun h => h p rfl
    rintro ⟨reason, h⟩
    exact join_ne_unsupported p h
  | error cause =>
    obtain ⟨reason, rfl⟩ := exists_of_inferCondition_error hcondition
    exact iff_of_true ⟨reason, rfl⟩ fun p h => nomatch h

end Algebra

namespace Arena

variable {a : Arena} {m n : Nat}

/-- Work stops for the reason for which the computation that it follows fails. -/
theorem Follows.error_iff {α β : Type} {x : Work α} {y : Except Error β} {P : α → β → Arena → Prop}
    {Q : Arena → Prop} (h : Follows x a y P Q) {cause : Error} :
    (x.on a).1 = .error (.failure cause) ↔ y = .error cause := by
  cases y with
  | ok w =>
    obtain ⟨v, a', hx, -⟩ := h
    simp [hx]
  | error other =>
    obtain ⟨a', hx, -⟩ := h
    simp [hx]

/-- The outcome of work that stopped because no key was found. -/
def Unsupported (outcome : Except Stop Nat) : Prop :=
  ∃ reason, outcome = .error (.failure (.unsupportedJoinInference reason))

/-- A join by a key fails for want of one exactly if the search ends with an error on the left, or finds
no key there and none on the right.  So it fails although one of the operands has a key exactly if the
search ends with an error on the left and would have found a key on the right; and where the join of the
operands in the other order does not fail so, this one does exactly if its search ends with an error on
the left.  That is so exactly if among the leaves of the left operand a projection of columns stands before
the first one with a key. -/
theorem joinInferred_unsupported_iff (h : Reached a) (hm : m < a.nodes.length)
    (hn : n < a.nodes.length) (kind : JoinKind) :
    ∃ l r, a.relation m = .ok l ∧ a.relation n = .ok r ∧
      (Unsupported ((joinInferred kind m n).on a).1 ↔
        l.Undecided r ∨ l.inferKey r = .ok none ∧ ¬ r.Keyed l) ∧
      (Unsupported ((joinInferred kind m n).on a).1 ∧ (l.Keyed r ∨ r.Keyed l) ↔
        l.Undecided r ∧ r.Keyed l) ∧
      (¬ Unsupported ((joinInferred kind n m).on a).1 →
        (Unsupported ((joinInferred kind m n).on a).1 ↔ l.Undecided r)) ∧
      (l.Undecided r ↔ ∃ before id operand shown after,
        l.leaves = before ++ .projection id operand none shown :: after ∧
        ∀ s ∈ before, s.keyOf? r.referrers = none) := by
  obtain ⟨b, -, hstores⟩ := h.sound
  obtain ⟨l, hl, rfl⟩ := hstores.exists_mem hm
  obtain ⟨r, hr, rfl⟩ := hstores.exists_mem hn
  have hfails : ∀ {l r : Relation}, l ∈ b.relations → r ∈ b.relations →
      (Unsupported ((joinInferred kind l.id r.id).on a).1 ↔
        l.Undecided r ∨ l.inferKey r = .ok none ∧ ¬ r.Keyed l) := by
    intro l r hl hr
    rw [← inferCondition_ne_ok_iff, ← Algebra.joinInferred_unsupported_iff_search b kind]
    exact exists_congr fun reason => (joinInferred_follows hstores hl hr kind).error_iff
  refine ⟨l, r, hstores.relation_eq hl, hstores.relation_eq hr, hfails hl hr, ?_, fun hswap => ?_,
    undecided_iff⟩
  · rw [hfails hl hr]
    constructor
    · rintro ⟨hundecided | ⟨hnone, hunkeyed⟩, hkey⟩
      · exact ⟨hundecided, hkey.resolve_left fun hl => hl.not_without (.inl hundecided)⟩
      · exact (hkey.elim (fun hl => hl.not_without (.inr hnone)) hunkeyed).elim
    · rintro ⟨hundecided, hkeyed⟩
      exact ⟨.inl hundecided, .inr hkeyed⟩
  · rw [hfails hr hl] at hswap
    rw [hfails hl hr]
    refine or_iff_left ?_
    -- without a key on either side the join in the other order fails as well
    rintro ⟨hnone, hunkeyed⟩
    rcases inferKey_cases r l with hkeyed | hnone' | hundecided
    · exact hunkeyed hkeyed
    · exact hswap (.inr ⟨hnone', fun hkeyed => hkeyed.not_without (.inr hnone)⟩)
    · exact hswap (.inl hundecided)

/-- Two tables, one of which refers to the other, and a projection on the column that does. -/
def referring : Arena :=
  let builds : List (Construction Nat) :=
    [.createTable "blogs" [("id", .integer)],
      .createTable "posts" [("id", .integer), ("blog_id", .integer)],
      .project 1 [.expr (.column "blog_id")]]
  builds.foldl (fun a k => (k.run.on a).2) .empty

/-- The projection can be joined to the right of the table, and not to the left, although the table has a
key for it. -/
theorem joinInferred_unsupported_iff_referring :
    Unsupported ((joinInferred .inner 2 0).on referring).1 ∧
      ¬ Unsupported ((joinInferred .inner 0 2).on referring).1 ∧
      ∃ l r, referring.relation 2 = .ok l ∧ referring.relation 0 = .ok r ∧
        l.Undecided r ∧ r.Keyed l := by
  have hreached : Reached referring := by
    refine .build _ (.build _ (.build _ .empty ?_) ?_) ?_
    all_goals decide_cbv
  have hswap : ((joinInferred .inner 0 2).on referring).1 = .ok 3 := by cbv
  have hsearch : (do
      let l ← referring.relation 2
      let r ← referring.relation 0
      return ((l.inferKey r).toOption, (r.inferKey l).toOption)) =
      (.ok (none, some (some ⟨"blogs__id", "posts__blog_id"⟩)) : Except Stop _) := by cbv
  obtain ⟨l, r, hl, hr, hfails, -⟩ :=
    joinInferred_unsupported_iff hreached (m := 2) (n := 0) (by decide_cbv) (by decide_cbv) .inner
  simp only [hl, hr, bind, Except.bind, pure, Except.pure, Except.ok.injEq, Prod.mk.injEq] at hsearch
  obtain ⟨hleft, hright⟩ := hsearch
  have hundecided : l.Undecided r := by
    cases hkey : l.inferKey r with
    | error cause => exact ⟨cause, hkey⟩
    | ok found => simp [hkey, Except.toOption] at hleft
  have hkeyed : r.Keyed l := by
    cases hkey : r.inferKey l with
    | error cause => simp [hkey, Except.toOption] at hright
    | ok found =>
      rw [hkey, Except.toOption, Option.some.injEq] at hright
      exact ⟨_, hkey.trans (congrArg _ hright)⟩
  refine ⟨hfails.2 (.inl hundecided), ?_, l, r, hl, hr, hundecided, hkeyed⟩
  rintro ⟨reason, h⟩
  rw [hswap] at h
  cases h

end Arena

end RelationalAlgebra
