import RelationalAlgebra.Proofs.Enumeration

/-!
# Which literals are written

Every literal of a relation gets a number when it is compiled, but not every one is written.  A projection
puts its columns in the place of those of its operand, and what a column of the operand was made of stands
in the text only where the column is read: by a column that is shown in its place, or by a condition.

* `Relation.written` says where the literals stand, by their numbers: what comes with each column, with the
  `FROM` clause and with the conditions.
* `Relation.KeepsLiterals` follows from the outside in which columns are needed, and asks that each column
  with a literal of its own is.  By `forall_on_iff` that is so exactly if every literal is written.
* If no query has two projections, every literal is written (`ProjectsOnce.keepsLiterals`).
-/

namespace RelationalAlgebra

/-! ## The literals that are written -/

namespace Expr

/-- The columns that an expression reads, from left to right. -/
def columns {α : Type} : Expr α → List α
  | .column c => [c]
  | .literal _ => []
  | .aliased expr _ => expr.columns
  | .equal left right => left.columns ++ right.columns
  | .aggregate _ argument => argument.columns

/-- The numbers of the literals of an expression, where `before` literals come before it. -/
def numbers {α : Type} (e : Expr α) (before : Nat) : List Nat :=
  List.range' (before + 1) e.literals.length

/-- The numbers of the literals that stand in an expression as it is written, those of the columns it
reads included. -/
def written (column : Nat → List Nat) : Expr Nat → (before : Nat) → List Nat
  | .column i, _ => column i
  | .literal _, before => [before + 1]
  | .aliased expr _, before => expr.written column before
  | .equal left right, before =>
    left.written column before ++ right.written column (before + left.literals.length)
  | .aggregate _ argument, before => argument.written column before

variable {column : Nat → List Nat} {k : Nat}

/-- What is written is the literals of the expression and those of the columns that it reads. -/
theorem mem_written (e : Expr Nat) (before : Nat) :
    k ∈ e.written column before ↔ k ∈ e.numbers before ∨ ∃ i ∈ e.columns, k ∈ column i := by
  induction e generalizing before with
  | column i => simp [written, numbers, literals, columns]
  | literal value => simp [written, numbers, literals, columns]
  | aliased expr label ih => exact ih before
  | equal left right ihl ihr =>
    have hnumbers : (Expr.equal left right).numbers before =
        left.numbers before ++ right.numbers (before + left.literals.length) := by
      rw [numbers, literals, List.length_append, ← List.range'_append_1, Nat.add_right_comm]
      rfl
    rw [written, List.mem_append, ihl, ihr, hnumbers, columns, List.mem_append]
    simp only [List.mem_append, or_and_right, exists_or]
    exact or_or_or_comm
  | aggregate function argument ih => exact ih before

end Expr

namespace Relation

/-- The numbers of the literals that are written in a query. -/
structure Written where
  /-- With each column, if the column is written. -/
  columns : List (List Nat)
  /-- In the `FROM` clause. -/
  source : List Nat
  /-- In the conditions. -/
  filters : List Nat

/-- What is written with a column. -/
def Written.column (w : Written) (i : Nat) : List Nat := w.columns[i]?.getD []

/-- What is written if all columns are, in the order of the text. -/
def Written.text (w : Written) : List Nat := w.columns.flatten ++ w.source ++ w.filters

/-- What is written if the columns that are needed are. -/
def Written.On (w : Written) (needed : Nat → Prop) (k : Nat) : Prop :=
  (∃ i, needed i ∧ k ∈ w.column i) ∨ k ∈ w.source ∨ k ∈ w.filters

/-- What is written with each column that is shown. -/
def writtenShown (column : Nat → List Nat) : List OutputColumn → (before : Nat) → List (List Nat)
  | [], _ => []
  | c :: shown, before =>
    c.source.written column before ::
      writtenShown column shown (before + c.source.literals.length)

/-- What is written of a relation, where `before` literals come before its own.  A projection writes its
columns in the place of those of its operand. -/
def written : Relation → (before : Nat) → Written
  | .table t, _ => ⟨t.columns.map fun _ => [], [], []⟩
  | .selection _ operand condition, before =>
    let w := operand.written before
    { w with
      filters := w.filters ++ condition.written w.column (before + operand.literals.length) }
  | .projection _ operand _ shown, before =>
    let w := operand.written before
    { w with columns := writtenShown w.column shown (before + operand.literals.length) }
  | .join id kind left right condition, before =>
    let middle := before + left.literals.length
    { columns := List.replicate (Relation.join id kind left right condition).width []
      source :=
        (left.written before).text ++ (right.written middle).text ++
          condition.written (fun _ => []) (middle + right.literals.length)
      filters := [] }

/-- With the columns of a table no literal is written. -/
theorem text_written_table (t : Table) (before : Nat) :
    ((Relation.table t).written before).text = [] := by
  simp [written, Written.text]

/-- The columns of a join are written as references, so its literals stand in its `FROM` clause. -/
theorem text_written_join {id : Nat} {kind : JoinKind} {left right : Relation}
    {condition : Expr Nat} (before : Nat) :
    ((Relation.join id kind left right condition).written before).text =
      ((Relation.join id kind left right condition).written before).source := by
  simp [written, Written.text]

/-- Every literal is written as long as the columns that are needed are: a column that has a literal of its
own is needed, by the query or by what is written of the relations above. -/
def KeepsLiterals : Relation → (needed : Nat → Prop) → Prop
  | .table _, _ => True
  | .selection _ operand condition, needed =>
    operand.KeepsLiterals fun j => needed j ∨ j ∈ condition.columns
  | .projection _ operand _ shown, needed =>
    (∀ (i : Nat) (c : OutputColumn), shown[i]? = some c → c.source.literals ≠ [] → needed i) ∧
      operand.KeepsLiterals fun j =>
        ∃ (i : Nat) (c : OutputColumn), shown[i]? = some c ∧ needed i ∧ j ∈ c.source.columns
  | .join _ _ left right _, _ =>
    (left.KeepsLiterals fun _ => True) ∧ right.KeepsLiterals fun _ => True

/-! ## When every literal is written -/

variable {needed : Nat → Prop} {column : Nat → List Nat} {before i k : Nat} {w : Written}

/-- The numbers of the literals of each column that is shown. -/
def numbersShown : List OutputColumn → (before : Nat) → List (List Nat)
  | [], _ => []
  | c :: shown, before =>
    c.source.numbers before :: numbersShown shown (before + c.source.literals.length)

theorem flatten_numbersShown (shown : List OutputColumn) (before : Nat) :
    (numbersShown shown before).flatten =
      List.range' (before + 1) (shown.flatMap (·.source.literals)).length := by
  induction shown generalizing before with
  | nil => rfl
  | cons c rest ih =>
    rw [numbersShown, List.flatten_cons, ih, List.flatMap_cons, List.length_append,
      ← List.range'_append_1, Nat.add_right_comm]
    rfl

theorem getElem?_numbersShown {shown : List OutputColumn} (before : Nat) :
    (numbersShown shown before)[i]?.getD [] ≠ [] ↔
      ∃ c, shown[i]? = some c ∧ c.source.literals ≠ [] := by
  induction shown generalizing before i with
  | nil => simp [numbersShown]
  | cons c rest ih =>
    cases i with
    | zero => simp [numbersShown, Expr.numbers]
    | succ i => exact ih _

/-- With a column that is shown its own literals are written, and those of the columns that it reads. -/
theorem mem_writtenShown (shown : List OutputColumn) (before : Nat) :
    k ∈ (writtenShown column shown before)[i]?.getD [] ↔
      k ∈ (numbersShown shown before)[i]?.getD [] ∨
        ∃ c, shown[i]? = some c ∧ ∃ j ∈ c.source.columns, k ∈ column j := by
  induction shown generalizing before i with
  | nil => simp [numbersShown, writtenShown]
  | cons c rest ih =>
    cases i with
    | zero =>
      rw [writtenShown, numbersShown, List.getElem?_cons_zero, List.getElem?_cons_zero,
        List.getElem?_cons_zero, Option.getD_some, Option.getD_some, Expr.mem_written]
      simp
    | succ i => exact ih _

theorem mem_flatten_iff {l : List (List Nat)} : k ∈ l.flatten ↔ ∃ i : Nat, k ∈ l[i]?.getD [] := by
  rw [List.mem_flatten]
  constructor
  · rintro ⟨x, hx, hk⟩
    obtain ⟨i, hi⟩ := List.getElem?_of_mem hx
    exact ⟨i, by rw [hi]; exact hk⟩
  · rintro ⟨i, hk⟩
    cases hi : l[i]? with
    | none =>
      rw [hi] at hk
      cases hk
    | some x =>
      rw [hi] at hk
      exact ⟨x, List.mem_of_getElem? hi, hk⟩

/-- If all columns are needed, the whole text is written. -/
theorem Written.mem_text : k ∈ w.text ↔ w.On (fun _ => True) k := by
  have hcolumns : k ∈ w.columns.flatten ↔ ∃ i, True ∧ k ∈ w.column i := by
    simp only [mem_flatten_iff, true_and]
    rfl
  rw [text, On, List.mem_append, List.mem_append, hcolumns, or_assoc]

section

variable {id : Nat} {kind : JoinKind} {operand left right : Relation} {condition : Expr Nat}
  {whole : Option Table} {shown : List OutputColumn}

theorem on_selection :
    ((Relation.selection id operand condition).written before).On needed k ↔
      (operand.written before).On (fun j => needed j ∨ j ∈ condition.columns) k ∨
        k ∈ condition.numbers (before + operand.literals.length) := by
  rw [written]
  simp only [Written.On, Written.column, List.mem_append, Expr.mem_written, or_and_right, exists_or]
  simp only [or_assoc, or_comm, or_left_comm]

theorem on_projection :
    ((Relation.projection id operand whole shown).written before).On needed k ↔
      (operand.written before).On
          (fun j => ∃ (i : Nat) (c : OutputColumn),
            shown[i]? = some c ∧ needed i ∧ j ∈ c.source.columns) k ∨
        ∃ i, needed i ∧
          k ∈ (numbersShown shown (before + operand.literals.length))[i]?.getD [] := by
  rw [written]
  have hread : (∃ i, needed i ∧ ∃ c, shown[i]? = some c ∧ ∃ j ∈ c.source.columns,
        k ∈ (operand.written before).column j) ↔
      ∃ j, (∃ (i : Nat) (c : OutputColumn), shown[i]? = some c ∧ needed i ∧ j ∈ c.source.columns) ∧
        k ∈ (operand.written before).column j := by
    constructor
    · rintro ⟨i, hi, c, hc, j, hj, hk⟩
      exact ⟨j, ⟨i, c, hc, hi, hj⟩, hk⟩
    · rintro ⟨j, ⟨i, c, hc, hi, hj⟩, hk⟩
      exact ⟨i, hi, c, hc, j, hj, hk⟩
  simp only [Written.On, Written.column, mem_writtenShown, and_or_left, exists_or] at hread ⊢
  rw [hread]
  exact or_assoc.trans or_comm

theorem on_join :
    ((Relation.join id kind left right condition).written before).On needed k ↔
      (left.written before).On (fun _ => True) k ∨
        (right.written (before + left.literals.length)).On (fun _ => True) k ∨
          k ∈ condition.numbers (before + left.literals.length + right.literals.length) := by
  rw [← Written.mem_text, ← Written.mem_text, written]
  have hcolumns : ¬ ∃ i, needed i ∧
      k ∈ (List.replicate (Relation.join id kind left right condition).width [])[i]?.getD [] := by
    rintro ⟨i, -, hk⟩
    rw [List.getElem?_replicate] at hk
    split at hk <;> cases hk
  simp only [Written.On, Written.column, hcolumns, List.mem_append, Expr.mem_written,
    List.not_mem_nil, and_false, exists_false, false_or, or_false, or_assoc]

/-- The numbers of the literals of a relation. -/
def numbers (r : Relation) (before : Nat) : List Nat :=
  List.range' (before + 1) r.literals.length

theorem numbers_selection : (Relation.selection id operand condition).numbers before =
    operand.numbers before ++ condition.numbers (before + operand.literals.length) := by
  rw [numbers, literals, List.length_append, ← List.range'_append_1, Nat.add_right_comm]
  rfl

theorem numbers_projection : (Relation.projection id operand whole shown).numbers before =
    operand.numbers before ++ (numbersShown shown (before + operand.literals.length)).flatten := by
  rw [numbers, literals, List.length_append, ← List.range'_append_1, Nat.add_right_comm,
    flatten_numbersShown]
  rfl

theorem numbers_join : (Relation.join id kind left right condition).numbers before =
    left.numbers before ++ (right.numbers (before + left.literals.length) ++
      condition.numbers (before + left.literals.length + right.literals.length)) := by
  rw [numbers, literals, List.length_append, List.length_append, Nat.add_assoc,
    ← List.range'_append_1, ← List.range'_append_1]
  simp only [numbers, Expr.numbers, Nat.add_right_comm]

/-- What is written of a relation is some of its literals. -/
theorem mem_numbers_of_on {r : Relation} (h : (r.written before).On needed k) :
    k ∈ r.numbers before := by
  induction r generalizing before needed with
  | table t =>
    have hall : (Relation.table t).written before |>.On (fun _ => True) k :=
      h.imp_left fun ⟨i, _, hk⟩ => ⟨i, trivial, hk⟩
    rw [← Written.mem_text, text_written_table] at hall
    cases hall
  | selection id operand condition ih =>
    rw [numbers_selection, List.mem_append]
    exact (on_selection.1 h).imp_left ih
  | projection id operand whole shown ih =>
    rw [numbers_projection, List.mem_append, mem_flatten_iff]
    exact (on_projection.1 h).imp ih fun ⟨i, _, hk⟩ => ⟨i, hk⟩
  | join id kind left right condition ihl ihr =>
    rw [numbers_join, List.mem_append, List.mem_append]
    exact (on_join.1 h).imp ihl (Or.imp_left ihr)

/-- Two properties that hold in two different parts hold in both if each holds in its own. -/
theorem forall_mem_append_iff {xs ys : List Nat} {P Q : Nat → Prop} (hnodup : (xs ++ ys).Nodup)
    (hP : ∀ k, P k → k ∈ xs) (hQ : ∀ k, Q k → k ∈ ys) :
    (∀ k ∈ xs ++ ys, P k ∨ Q k) ↔ (∀ k ∈ xs, P k) ∧ ∀ k ∈ ys, Q k := by
  have hdisjoint := (List.nodup_append'.1 hnodup).2.2
  constructor
  · intro h
    refine ⟨fun k hk => ?_, fun k hk => ?_⟩
    · exact (h k (List.mem_append_left _ hk)).resolve_right fun hq => hdisjoint hk (hQ k hq)
    · exact (h k (List.mem_append_right _ hk)).resolve_left fun hp => hdisjoint (hP k hp) hk
  · rintro ⟨hxs, hys⟩ k hk
    exact (List.mem_append.1 hk).imp (hxs k) (hys k)

theorem eq_of_mem_of_nodup_flatten {l : List (List Nat)} {j : Nat} (hnodup : l.flatten.Nodup)
    (hi : k ∈ l[i]?.getD []) (hj : k ∈ l[j]?.getD []) : i = j := by
  have hlt : ∀ {i : Nat}, k ∈ l[i]?.getD [] → ∃ hi : i < l.length, k ∈ l[i] := by
    intro i hi
    by_cases hlt : i < l.length
    · rw [List.getElem?_eq_getElem hlt] at hi
      exact ⟨hlt, hi⟩
    · rw [List.getElem?_eq_none (Nat.le_of_not_lt hlt)] at hi
      cases hi
  obtain ⟨hilt, hi⟩ := hlt hi
  obtain ⟨hjlt, hj⟩ := hlt hj
  have hdisjoint := List.pairwise_iff_getElem.1 (List.nodup_flatten.1 hnodup).2
  rcases Nat.lt_trichotomy i j with hij | hij | hij
  · exact (hdisjoint i j hilt hjlt hij hi hj).elim
  · exact hij
  · exact (hdisjoint j i hjlt hilt hij hj hi).elim

/-- If the lists have nothing in common, all that they hold is needed exactly if each list is that holds
something. -/
theorem forall_mem_flatten_iff {l : List (List Nat)} (hnodup : l.flatten.Nodup) :
    (∀ k ∈ l.flatten, ∃ i, needed i ∧ k ∈ l[i]?.getD []) ↔
      ∀ i : Nat, l[i]?.getD [] ≠ [] → needed i := by
  constructor
  · intro h i hne
    obtain ⟨k, hk⟩ := List.exists_mem_of_ne_nil _ hne
    obtain ⟨j, hj, hkj⟩ := h k (mem_flatten_iff.2 ⟨i, hk⟩)
    rwa [eq_of_mem_of_nodup_flatten hnodup hk hkj]
  · intro h k hk
    obtain ⟨i, hi⟩ := mem_flatten_iff.1 hk
    exact ⟨i, h i (List.ne_nil_of_mem hi), hi⟩

theorem nodup_numbers (r : Relation) (before : Nat) : (r.numbers before).Nodup :=
  List.nodup_range'

/-- The literals of a relation are all written, as long as the columns that are needed are, exactly if
each column with a literal of its own is needed. -/
theorem forall_on_iff (before : Nat) {r : Relation} :
    (∀ k ∈ r.numbers before, (r.written before).On needed k) ↔ r.KeepsLiterals needed := by
  -- the parts of a relation have different numbers, so each part answers for its own
  induction r generalizing before needed with
  | table t => exact iff_of_true (fun k hk => nomatch hk) trivial
  | selection id operand condition ih =>
    have hnodup := (Relation.selection id operand condition).nodup_numbers before
    simp only [on_selection, numbers_selection] at hnodup ⊢
    rw [forall_mem_append_iff hnodup (fun k => mem_numbers_of_on) (fun k hk => hk), ih]
    exact and_iff_left fun k hk => hk
  | projection id operand whole shown ih =>
    have hnodup := (Relation.projection id operand whole shown).nodup_numbers before
    simp only [on_projection, numbers_projection] at hnodup ⊢
    rw [forall_mem_append_iff hnodup (fun k => mem_numbers_of_on)
      (fun k ⟨i, _, hk⟩ => mem_flatten_iff.2 ⟨i, hk⟩), ih,
      forall_mem_flatten_iff (List.nodup_append'.1 hnodup).2.1, and_comm, KeepsLiterals]
    simp only [getElem?_numbersShown, forall_exists_index, and_imp]
  | join id kind left right condition ihl ihr =>
    have hnodup := (Relation.join id kind left right condition).nodup_numbers before
    simp only [on_join, numbers_join] at hnodup ⊢
    rw [forall_mem_append_iff hnodup (fun k => mem_numbers_of_on)
      (fun k hk => List.mem_append.2 (hk.imp_left mem_numbers_of_on)), ihl,
      forall_mem_append_iff (List.nodup_append'.1 hnodup).2.1 (fun k => mem_numbers_of_on)
      (fun k hk => hk), ihr, KeepsLiterals]
    exact and_congr_right fun _ => and_iff_left fun k hk => hk

end

/-- The select list of the relation's query is that of a projection. -/
def Projects : Relation → Prop
  | .selection _ operand _ => operand.Projects
  | .projection _ _ _ _ => True
  | _ => False

/-- No query of the relation has two projections. -/
def ProjectsOnce : Relation → Prop
  | .table _ => True
  | .selection _ operand _ => operand.ProjectsOnce
  | .projection _ operand _ _ => ¬ operand.Projects ∧ operand.ProjectsOnce
  | .join _ _ left right _ => left.ProjectsOnce ∧ right.ProjectsOnce

/-- A projection is written if its query shows all its columns. -/
theorem ProjectsOnce.keepsLiterals {r : Relation} (h : r.ProjectsOnce)
    (hneeded : r.Projects → ∀ i, needed i) : r.KeepsLiterals needed := by
  induction r generalizing needed with
  | table t => trivial
  | selection id operand condition ih =>
    exact ih h fun hprojects j => .inl (hneeded hprojects j)
  | projection id operand whole shown ih =>
    exact ⟨fun i _ _ _ => hneeded trivial i, ih h.2 fun hprojects => (h.1 hprojects).elim⟩
  | join id kind left right condition ihl ihr =>
    exact ⟨ihl h.1 fun _ _ => trivial, ihr h.2 fun _ _ => trivial⟩

end Relation

end RelationalAlgebra
