import Mathlib.Data.List.Nodup
import RelationalAlgebra.Arena.Session
import RelationalAlgebra.Proofs.Forms

/-!
# What an arena stores

An arena stores an algebra: its nodes are the relations of the algebra under their identities, and what
a node says of its operands' columns is what the relation says of them, with handles for places
(`Arena.Stores`).  An arena may hold derived columns beside those of its nodes.

Whatever is looked for in the arena by handles is what the trees say, and no handle leads nowhere:

* `Stores.find_eq` for columns, `Stores.reach_eq` for tables and `Stores.resolve_eq` for all names of an
  expression;
* `Stores.relation_eq`: a relation is read back as the tree that was stored.
-/

namespace RelationalAlgebra

open QualifiedName RelationalAlgebra.Relation

/-! ## Expressions -/

namespace Expr

variable {α β γ ε δ : Type}

/-- Binding names in two ways that agree up to a change of what they are bound to. -/
theorem bindNames_map {f : α → Except δ γ} {g : α → Except ε β} {φ : ε → δ} {ψ : β → γ}
    (h : ∀ c, f c = ((g c).mapError φ).map ψ) (e : Expr α) :
    e.bindNames f = ((e.bindNames g).mapError φ).map (Expr.map ψ) := by
  induction e with
  | column c =>
    rw [bindNames, bindNames, h]
    cases g c <;> rfl
  | literal value => rfl
  | aliased expr label ih =>
    rw [bindNames, bindNames, ih]
    cases expr.bindNames g <;> rfl
  | equal left right ihl ihr =>
    rw [bindNames, bindNames, ihl, ihr]
    cases left.bindNames g with
    | error e => rfl
    | ok l => cases right.bindNames g <;> rfl
  | aggregate function argument ih =>
    rw [bindNames, bindNames, ih]
    cases argument.bindNames g <;> rfl

/-- What was put in the place of the columns is taken back. -/
theorem bindNames_map_eq {f : α → β} {g : β → Except ε α} {P : α → Prop} {e : Expr α}
    (h : ∀ c, P c → g (f c) = .ok c) (he : e.All P) : (e.map f).bindNames g = .ok e := by
  induction e with
  | column c =>
    rw [map, bindNames, h c he]
    rfl
  | literal value => rfl
  | aliased expr label ih =>
    rw [map, bindNames, ih he]
    rfl
  | equal left right ihl ihr =>
    rw [map, bindNames, ihl he.1, ihr he.2]
    rfl
  | aggregate function argument ih =>
    rw [map, bindNames, ih he]
    rfl

theorem stripAlias_map (f : α → β) (e : Expr α) :
    (e.map f).stripAlias = (e.stripAlias.1.map f, e.stripAlias.2) := by
  cases e <;> rfl

end Expr

namespace Arena

/-! ## What is stored -/

/-- The columns of a relation, none if the handle leads nowhere. -/
def order (a : Arena) (r : Nat) : List Nat := ((a.nodes[r]?).map (·.memo.order)).getD []

/-- The columns of several relations, from left to right. -/
def inputs (a : Arena) (operands : List Relation) : List Nat :=
  operands.flatMap fun s => a.order s.id

/-- An expression over the columns of some operands, with handles for places. -/
def encode (a : Arena) (operands : List Relation) : Expr Nat → Expr ColumnHandle :=
  Expr.map fun i => .derived ((a.inputs operands)[i]?.getD 0)

/-- The ancestor that is stored for a source. -/
def ancestor (a : Arena) : Relation → Expr Nat → Expr ColumnHandle
  | .table t => Expr.map (.declared t.id)
  | r => a.encode r.operands

/-- The operator that is stored for a relation with the columns `shown`. -/
def operator (a : Arena) (shown : List Nat) : Relation → Operator
  | .table t => .table t
  | .selection _ operand condition => .selection operand.id (a.encode [operand] condition)
  | .projection _ operand whole _ =>
    .projection operand.id (whole.map (·.id)) (if whole.isSome then [] else shown)
  | .join _ kind left right condition =>
    .join kind left.id right.id (a.encode [left, right] condition)

/-- The memo of a relation: its columns in their order, each found by its ancestor and, if it was the
last one of the name, by its name. -/
structure Holds (a : Arena) (owner : Nat) (ancestor : Expr Nat → Expr ColumnHandle) (memo : Memo)
    (shown : List OutputColumn) : Prop where
  length : memo.order.length = shown.length
  derived : ∀ (i d : Nat) (c : OutputColumn), memo.order[i]? = some d → shown[i]? = some c →
    a.derived[d]? = some ⟨owner, ancestor c.source, c.label, c.name⟩
  nodup : memo.order.Nodup
  byAncestor : ∀ e d, memo.byAncestor.lookup e = some d ↔
    d ∈ memo.order ∧ (a.derived[d]?).map (·.ancestor) = some e
  byName : ∀ name d, memo.byName.lookup name = some d →
    d ∈ memo.order ∧ (a.derived[d]?).map (·.name) = some name
  named : ∀ d ∈ memo.order, ∀ c, a.derived[d]? = some c → (memo.byName.lookup c.name).isSome

/-- The arena stores the algebra. -/
structure Stores (a : Arena) (b : Algebra) : Prop where
  sound : b.Sound
  length : a.nodes.length = b.size
  keeps : ∀ r ∈ b.relations, ∃ memo, a.nodes[r.id]? = some ⟨a.operator memo.order r, memo⟩ ∧
    Holds a r.id (a.ancestor r) memo r.columns
  tables : ∀ name, a.tableNamed? name = (b.table? name).map (·.id)

/-! ## Operands -/

/-- The columns that a relation shows of its operands if it shows them as they are: a relation beside
itself shows its columns once. -/
def beside : List Relation → List OutputColumn
  | [left, right] => joined left right left.columns right.columns
  | operands => operands.flatMap (·.columns)

/-- Operands of which an expression reads the columns: one, or the two of a join. -/
inductive Pair (b : Algebra) : List Relation → Prop
  | one {operand : Relation} (mem : operand ∈ b.relations) : Pair b [operand]
  | two {left right : Relation} (left_mem : left ∈ b.relations) (right_mem : right ∈ b.relations) :
      Pair b [left, right]

/-- How many columns can be told apart among those of some operands. -/
def breadth (operands : List Relation) : Nat := (beside operands).length

section

variable {operand left right : Relation}

theorem Pair.mem {b : Algebra} {operands : List Relation} (h : Pair b operands) {r : Relation}
    (hr : r ∈ operands) : r ∈ b.relations := by
  cases h with
  | one mem =>
    rw [List.mem_singleton.1 hr]
    exact mem
  | two left_mem right_mem =>
    rcases List.mem_cons.1 hr with rfl | hr
    · exact left_mem
    · rw [List.mem_singleton.1 hr]
      exact right_mem

theorem beside_one : beside [operand] = operand.columns := by
  simp [beside]

theorem breadth_one : breadth [operand] = operand.width := by
  rw [breadth, beside_one]
  rfl

theorem breadth_self (h : left.id = right.id) : breadth [left, right] = left.width := by
  rw [breadth, beside, joined, if_pos h]
  rfl

theorem breadth_two (h : left.id ≠ right.id) : breadth [left, right] = left.width + right.width := by
  rw [breadth, beside, joined, if_neg h]
  exact List.length_append

end

/-! ## Columns -/

section

variable {a : Arena} {owner : Nat} {ancestor : Expr Nat → Expr ColumnHandle} {memo : Memo}
  {shown : List OutputColumn} {i d : Nat} {c : OutputColumn}

/-- A column of the memo and what is shown at its place. -/
theorem Holds.exists_shown (h : Holds a owner ancestor memo shown) (hd : memo.order[i]? = some d) :
    ∃ c, shown[i]? = some c ∧ a.derived[d]? = some ⟨owner, ancestor c.source, c.label, c.name⟩ := by
  have hi : i < shown.length := h.length ▸ (List.getElem?_eq_some_iff.1 hd).1
  exact ⟨shown[i], List.getElem?_eq_getElem hi, h.derived i d _ hd (List.getElem?_eq_getElem hi)⟩

/-- What is shown and the column at its place. -/
theorem Holds.exists_column (h : Holds a owner ancestor memo shown) (hc : shown[i]? = some c) :
    ∃ d, memo.order[i]? = some d ∧
      a.derived[d]? = some ⟨owner, ancestor c.source, c.label, c.name⟩ := by
  have hi : i < memo.order.length := h.length.symm ▸ (List.getElem?_eq_some_iff.1 hc).1
  exact ⟨memo.order[i], List.getElem?_eq_getElem hi, h.derived i _ c (List.getElem?_eq_getElem hi) hc⟩

/-- A source is found by its ancestor, if other sources have other ancestors. -/
theorem Holds.lookup_ancestor (h : Holds a owner ancestor memo shown) {e : Expr Nat}
    (hinj : ∀ c ∈ shown, ancestor c.source = ancestor e → c.source = e) :
    memo.byAncestor.lookup (ancestor e) =
      (shown.findIdx? (·.source == e)).bind (memo.order[·]?) := by
  cases hfound : shown.findIdx? (·.source == e) with
  | some i =>
    obtain ⟨hlt, hsource, -⟩ := List.findIdx?_eq_some_iff_getElem.1 hfound
    obtain ⟨d, hd, hderived⟩ := h.exists_column (List.getElem?_eq_getElem hlt)
    rw [Option.bind_some, hd, h.byAncestor]
    rw [beq_iff_eq.1 hsource] at hderived
    exact ⟨List.mem_of_getElem? hd, by rw [hderived]; rfl⟩
  | none =>
    rw [Option.bind_none]
    by_contra hsome
    obtain ⟨d, hd⟩ := Option.ne_none_iff_exists'.1 hsome
    obtain ⟨hmem, hancestor⟩ := (h.byAncestor _ _).1 hd
    obtain ⟨i, hi⟩ := List.getElem?_of_mem hmem
    obtain ⟨c, hc, hderived⟩ := h.exists_shown hi
    rw [hderived] at hancestor
    have hsource := hinj c (List.mem_of_getElem? hc) (Option.some.inj hancestor)
    have hnone := List.findIdx?_eq_none_iff.1 hfound c (List.mem_of_getElem? hc)
    simp [hsource] at hnone

/-- A name is found if only one column has it. -/
theorem Holds.lookup_name (h : Holds a owner ancestor memo shown)
    (hnames : (shown.map (·.name)).Nodup) (name : String) :
    memo.byName.lookup name = (shown.findIdx? (·.name == name)).bind (memo.order[·]?) := by
  have hfind : ∀ d, memo.byName.lookup name = some d → ∃ (i : Nat) (c : OutputColumn),
      memo.order[i]? = some d ∧ shown[i]? = some c ∧ c.name = name := by
    intro d hd
    obtain ⟨hmem, hname⟩ := h.byName name d hd
    obtain ⟨i, hi⟩ := List.getElem?_of_mem hmem
    obtain ⟨c, hc, hderived⟩ := h.exists_shown hi
    rw [hderived] at hname
    exact ⟨i, c, hi, hc, Option.some.inj hname⟩
  cases hfound : shown.findIdx? (·.name == name) with
  | some i =>
    obtain ⟨hlt, hname, -⟩ := List.findIdx?_eq_some_iff_getElem.1 hfound
    have hi := List.getElem?_eq_getElem hlt
    rw [beq_iff_eq] at hname
    obtain ⟨d, hd, hderived⟩ := h.exists_column hi
    have hsome := h.named d (List.mem_of_getElem? hd) _ hderived
    simp only [hname] at hsome
    obtain ⟨d', hd'⟩ := Option.isSome_iff_exists.1 hsome
    obtain ⟨j, c, hj, hc, hcname⟩ := hfind d' hd'
    have hji : j = i := by
      have hlength : j < (shown.map (·.name)).length := by
        rw [List.length_map]
        exact (List.getElem?_eq_some_iff.1 hc).1
      refine (List.getElem?_inj hlength hnames).1 ?_
      rw [List.getElem?_map, List.getElem?_map, hc, hi, Option.map_some, Option.map_some, hcname,
        hname]
    rw [Option.bind_some, hd', ← hji, hj]
  | none =>
    rw [Option.bind_none]
    by_contra hsome
    obtain ⟨d, hd⟩ := Option.ne_none_iff_exists'.1 hsome
    obtain ⟨i, c, -, hc, hname⟩ := hfind d hd
    have hnone := List.findIdx?_eq_none_iff.1 hfound c (List.mem_of_getElem? hc)
    simp [hname] at hnone

end

namespace Stores

variable {a : Arena} {b : Algebra} {r s left right operand : Relation} {i j d : Nat}

/-! ## The columns of operands -/

theorem order_eq {memo : Memo} {operator : Operator}
    (hnode : a.nodes[r.id]? = some ⟨operator, memo⟩) : a.order r.id = memo.order := by
  rw [order, hnode]
  rfl

theorem columns_eq (h : Stores a b) (hr : r ∈ b.relations) :
    a.columns r.id = .ok (a.order r.id) := by
  obtain ⟨memo, hnode, -⟩ := h.keeps r hr
  rw [Arena.columns, Arena.node, hnode, order_eq hnode]
  rfl

theorem length_order (h : Stores a b) (hr : r ∈ b.relations) : (a.order r.id).length = r.width := by
  obtain ⟨memo, hnode, hholds⟩ := h.keeps r hr
  rw [order_eq hnode, hholds.length, Relation.width]

theorem nodup_order (h : Stores a b) (hr : r ∈ b.relations) : (a.order r.id).Nodup := by
  obtain ⟨memo, hnode, hholds⟩ := h.keeps r hr
  rw [order_eq hnode]
  exact hholds.nodup

/-- A column of a relation as it is stored. -/
theorem exists_derived (h : Stores a b) (hr : r ∈ b.relations) (hi : i < r.width) :
    ∃ (d : Nat) (c : OutputColumn), (a.order r.id)[i]? = some d ∧ r.columns[i]? = some c ∧
      a.derived[d]? = some ⟨r.id, a.ancestor r c.source, c.label, c.name⟩ := by
  obtain ⟨memo, hnode, hholds⟩ := h.keeps r hr
  rw [order_eq hnode]
  obtain ⟨d, hd, hderived⟩ := hholds.exists_column (List.getElem?_eq_getElem (l := r.columns) hi)
  exact ⟨d, _, hd, List.getElem?_eq_getElem hi, hderived⟩

/-- A column belongs to the relation that shows it. -/
theorem owner_eq (h : Stores a b) (hr : r ∈ b.relations) (hd : d ∈ a.order r.id) :
    (a.derived[d]?).map (·.owner) = some r.id := by
  obtain ⟨memo, hnode, hholds⟩ := h.keeps r hr
  rw [order_eq hnode] at hd
  obtain ⟨i, hi⟩ := List.getElem?_of_mem hd
  obtain ⟨c, -, hderived⟩ := hholds.exists_shown hi
  rw [hderived]
  rfl

theorem disjoint_order (h : Stores a b) (hr : r ∈ b.relations) (hs : s ∈ b.relations)
    (hne : r.id ≠ s.id) : (a.order r.id).Disjoint (a.order s.id) := by
  intro d hdr hds
  have hr := h.owner_eq hr hdr
  have hs := h.owner_eq hs hds
  rw [hr] at hs
  exact hne (Option.some.inj hs)

variable {operands : List Relation}

theorem inputs_one : a.inputs [operand] = a.order operand.id := by
  simp [inputs]

theorem inputs_two : a.inputs [left, right] = a.order left.id ++ a.order right.id := by
  simp [inputs]

/-- The first columns of the operands, as many as can be told apart, are different. -/
theorem nodup_inputs (h : Stores a b) (hops : Pair b operands) :
    breadth operands ≤ (a.inputs operands).length ∧
      ((a.inputs operands).take (breadth operands)).Nodup := by
  cases hops with
  | one mem =>
    rw [inputs_one, breadth_one, h.length_order mem]
    exact ⟨Nat.le_refl _, (h.nodup_order mem).sublist (List.take_sublist ..)⟩
  | @two left right left_mem right_mem =>
    rw [inputs_two, List.length_append, h.length_order left_mem, h.length_order right_mem]
    by_cases hself : left.id = right.id
    · rw [breadth_self hself]
      refine ⟨Nat.le_add_right _ _, ?_⟩
      rw [← h.length_order left_mem, List.take_left]
      exact h.nodup_order left_mem
    · rw [breadth_two hself]
      refine ⟨Nat.le_refl _, ?_⟩
      refine List.Nodup.sublist (List.take_sublist ..) ?_
      exact List.nodup_append'.2 ⟨h.nodup_order left_mem, h.nodup_order right_mem,
        h.disjoint_order left_mem right_mem hself⟩

theorem exists_input (h : Stores a b) (hops : Pair b operands) (hi : i < breadth operands) :
    ∃ d, (a.inputs operands)[i]? = some d := by
  have hlt := Nat.lt_of_lt_of_le hi (h.nodup_inputs hops).1
  exact ⟨_, List.getElem?_eq_getElem hlt⟩

theorem inputs_inj (h : Stores a b) (hops : Pair b operands) (hi : i < breadth operands)
    (hj : j < breadth operands) (heq : (a.inputs operands)[i]? = (a.inputs operands)[j]?) : i = j := by
  obtain ⟨hle, hnodup⟩ := h.nodup_inputs hops
  have hlt : i < ((a.inputs operands).take (breadth operands)).length := by
    rw [List.length_take]
    omega
  refine (List.getElem?_inj hlt hnodup).1 ?_
  rw [List.getElem?_take_of_lt hi, List.getElem?_take_of_lt hj, heq]

theorem encode_inj (h : Stores a b) (hops : Pair b operands) {e f : Expr Nat}
    (he : e.All (· < breadth operands)) (hf : f.All (· < breadth operands))
    (heq : a.encode operands e = a.encode operands f) : e = f := by
  refine Expr.eq_of_map_eq ?_ he hf heq
  intro i j hi hj heq
  obtain ⟨d, hd⟩ := h.exists_input hops hi
  obtain ⟨d', hd'⟩ := h.exists_input hops hj
  refine h.inputs_inj hops hi hj ?_
  have hhandle := ColumnHandle.derived.inj heq
  rw [hd, hd', Option.getD_some, Option.getD_some] at hhandle
  rw [hd, hd', hhandle]

/-- The place of a column among those of the operands. -/
theorem place_eq (h : Stores a b) (hops : Pair b operands) (hi : i < breadth operands) :
    a.place (operands.map (·.id)) (.derived ((a.inputs operands)[i]?.getD 0)) = .ok i := by
  have hcolumns : (operands.map (·.id)).mapM a.columns =
      (.ok (operands.map fun s => a.order s.id) : Except Stop (List (List Nat))) := by
    cases hops with
    | one mem => simp [h.columns_eq mem, bind, Except.bind, pure, Except.pure]
    | two left_mem right_mem =>
      simp [h.columns_eq left_mem, h.columns_eq right_mem, bind, Except.bind, pure, Except.pure]
  obtain ⟨d, hd⟩ := h.exists_input hops hi
  obtain ⟨hlt, hget⟩ := List.getElem?_eq_some_iff.1 hd
  have hfound : (a.inputs operands).idxOf? d = some i := by
    rw [List.idxOf?, List.findIdx?_eq_some_iff_getElem]
    refine ⟨hlt, by simp [hget], fun j hj => ?_⟩
    have hjlt : j < (a.inputs operands).length := by omega
    have hne : (a.inputs operands)[j] ≠ d := by
      intro heq
      have hij := h.inputs_inj hops (i := j) (j := i) (by omega) hi
        (by rw [hd, List.getElem?_eq_getElem hjlt, heq])
      omega
    simp [hne]
  rw [place, hcolumns, hd]
  change follow (((operands.map fun s => a.order s.id).flatten).idxOf? d) = .ok i
  rw [← List.flatMap_def]
  rw [inputs] at hfound
  rw [hfound]
  rfl

end Stores

end Arena

end RelationalAlgebra
