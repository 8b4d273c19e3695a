import Mathlib
import RelationalAlgebra.Proofs.Answering
import RelationalAlgebra.Proofs.Session

/-!
# What holds of every arena

An arena is `Reached` by building, whether what is built comes to an end or stops, as long as what is
built on is there.  However it was reached, it is `WellFormed`:

* The handles of a node lead to nodes before it, its columns are its own and show different things of
  its operands, and they are found by what they show (`Node.WellFormed`).
* Tables are found by their names, and what is found by a name in a relation is a column of it.
* So nothing that is built or asked stops at a handle that leads nowhere.

All of this is read off the algebra that such an arena stores (`Reached.sound`).  What a construction
that stopped has left behind does not belong to any node.
-/

namespace RelationalAlgebra

open RelationalAlgebra.Relation

/-- A property of the columns that are put in the place of others. -/
theorem Expr.All.map {α β : Type} {f : α → β} {P : β → Prop} {e : Expr α}
    (h : e.All fun c => P (f c)) : (e.map f).All P := by
  induction e with
  | column c => exact h
  | literal value => trivial
  | aliased expr label ih => exact ih h
  | equal left right ihl ihr => exact ⟨ihl h.1, ihr h.2⟩
  | aggregate function argument ih => exact ih h

/-- A table that can be reached from a relation was there before the relation, or is the relation. -/
theorem Algebra.Sound.tableNamed?_id_le {b : Algebra} {r : Relation} (hb : b.Sound)
    (hr : r ∈ b.relations) {name : String} {t : Table} (h : r.tableNamed? name = some t) :
    t.id ≤ r.id := by
  induction r generalizing name with
  | table u =>
    change (if u.name = name then some u else none) = some t at h
    by_cases hname : u.name = name
    · rw [if_pos hname] at h
      exact Nat.le_of_eq (congrArg Table.id (Option.some.inj h)).symm
    · rw [if_neg hname] at h
      cases h
  | selection id operand condition ih =>
    obtain ⟨hop, hlt⟩ := hb.selection_operand hr
    exact Nat.le_trans (ih hop h) (Nat.le_of_lt hlt)
  | projection id operand whole shown ih =>
    obtain ⟨hop, hlt⟩ := hb.projection_operand hr
    obtain ⟨rfl, -⟩ := Option.filter_eq_some_iff.1 h
    exact Nat.le_trans (ih hop (hb.whole_built hr).1) (Nat.le_of_lt hlt)
  | join id kind left right condition ihl ihr =>
    obtain ⟨hleft, hltl⟩ := hb.join_left hr
    obtain ⟨hright, hltr⟩ := hb.join_right hr
    rw [tableNamed?] at h
    cases hfound : left.tableNamed? name with
    | some u =>
      rw [hfound] at h
      obtain rfl := Option.some.inj h
      exact Nat.le_trans (ihl hleft hfound) (Nat.le_of_lt hltl)
    | none =>
      rw [hfound] at h
      exact Nat.le_trans (ihr hright h) (Nat.le_of_lt hltr)

namespace Arena

/-! ## How arenas are reached -/

/-- The arenas that building leads to, whether it comes to an end or stops.  What is built on is in the
arena. -/
inductive Reached : Arena → Prop
  | empty : Reached .empty
  | build {a : Arena} (k : Construction Nat) (reached : Reached a)
      (within : ∀ n ∈ k.references, n < a.nodes.length) : Reached (k.run.on a).2
  | declare {a : Arena} (schema : Schema) (reached : Reached a) :
      Reached ((Arena.declare schema).on a).2

/-- The arena stores an algebra that a session leads to. -/
def Sound (a : Arena) : Prop := ∃ b : Algebra, b.Reachable ∧ Stores a b

/-- Work that leaves a sound arena and is not stopped by a handle. -/
def Keeps {α : Type} (x : Work α) (a : Arena) : Prop :=
  Sound (x.on a).2 ∧ (x.on a).1 ≠ .error .dangling

section

variable {α β : Type} {a : Arena} {b : Algebra}

theorem sound_empty : Sound .empty := ⟨.empty, .empty, stores_empty⟩

theorem Keeps.bind {x : Work α} {f : α → Work β} (h : Keeps x a)
    (hf : ∀ v a', Sound a' → Keeps (f v) a') : Keeps (x >>= f) a := by
  obtain ⟨hsound, hstop⟩ := h
  generalize hrun : x.on a = p at hsound hstop
  obtain ⟨outcome, a'⟩ := p
  cases outcome with
  | error stop =>
    unfold Keeps
    rw [on_bind_error hrun]
    refine ⟨hsound, fun heq => hstop ?_⟩
    rw [Except.error.inj heq]
  | ok v =>
    unfold Keeps
    rw [on_bind_ok hrun]
    exact hf v a' hsound

/-- One item after the other. -/
theorem keeps_mapM {f : α → Work β} {l : List α} (h : Sound a)
    (hf : ∀ i a', Sound a' → Keeps (f i) a') : Keeps (l.mapM f) a := by
  induction l generalizing a with
  | nil => exact ⟨h, fun heq => nomatch heq⟩
  | cons i rest ih =>
    rw [List.mapM_cons]
    refine (hf i a h).bind fun v a' h' => (ih h').bind fun vs a'' h'' => ?_
    exact ⟨h'', fun heq => nomatch heq⟩

theorem keeps_check (h : Sound a) (y : Except Error α) : Keeps (check y) a := by
  refine ⟨h, fun heq => ?_⟩
  rw [on_check] at heq
  cases y <;> cases heq

/-- Work with the same outcome as in the arena itself, on what is there. -/
theorem Mirrors.keeps {x : Work Nat} (hb : b.Reachable)
    (h : Mirrors (fun n => n) b a a x x Handles) : Keeps x a := by
  obtain ⟨g, d, b', honward, hm, houtcome⟩ := h
  refine ⟨⟨d, hb.derives honward.derives, hm.stores⟩, fun heq => ?_⟩
  rw [heq] at houtcome
  cases houtcome

theorem Declares.keeps {x : Work Nat} (hb : b.Reachable)
    (h : Declares (fun n => n) b b a a x x) : Keeps x a := by
  obtain ⟨t, hbuilt, hrun, -, hm⟩ := h
  refine ⟨⟨_, hb.add hbuilt, hm.stores⟩, fun heq => ?_⟩
  rw [hrun] at heq
  cases heq

/-- One construction. -/
theorem Sound.build (h : Sound a) {k : Construction Nat}
    (within : ∀ n ∈ k.references, n < a.nodes.length) : Keeps k.run a := by
  obtain ⟨b, hb, hstores⟩ := h
  have hmatch : k.Matches (Handles (fun n => n) b) k := by
    refine Construction.matches_self fun n hn => ⟨?_, rfl⟩
    rw [← hstores.length]
    exact within n hn
  rcases Construction.run_mirrors hstores.mirrored hmatch with hmirrors | hdeclares
  · exact hmirrors.keeps hb
  · exact hdeclares.keeps hb

/-- One schema. -/
theorem Sound.declare (h : Sound a) (schema : Schema) : Keeps (Arena.declare schema) a := by
  refine keeps_mapM h fun t a' h' => (keeps_check h' _).bind fun columns a'' h'' => ?_
  exact Sound.build (k := .createTable t.name columns) h'' fun n hn => nomatch hn

/-- However an arena was reached, it stores an algebra. -/
theorem Reached.sound (h : Reached a) : Sound a := by
  induction h with
  | empty => exact sound_empty
  | build k reached within ih => exact (ih.build within).1
  | declare schema reached ih => exact (ih.declare schema).1

end

/-! ## Well-formed arenas -/

/-- The relations of which an operator shows columns. -/
def Operator.operands : Operator → List Nat
  | .table _ => []
  | .selection operand _ => [operand]
  | .projection operand _ _ => [operand]
  | .join _ left right _ => [left, right]

/-- A column that a column of a node may read: of a table one that it declares, and of any other
relation one that an operand lists. -/
def Reads (a : Arena) (i : Nat) : Operator → ColumnHandle → Prop
  | .table t, .declared owner place => owner = i ∧ place < t.columns.length
  | .table _, .derived _ => False
  | .selection _ _, .declared _ _ => False
  | .projection _ _ _, .declared _ _ => False
  | .join _ _ _ _, .declared _ _ => False
  | operator, .derived d => ∃ operand ∈ operator.operands, d ∈ a.order operand

/-- What holds of the node of a handle. -/
structure Node.WellFormed (a : Arena) (i : Nat) (n : Node) : Prop where
  /-- Operands and the table that is projected come before. -/
  handles_lt : ∀ h ∈ n.operator.handles, h < i
  whole_table : ∀ operand whole shown, n.operator = .projection operand (some whole) shown →
    ∃ t, a.table whole = .ok t
  /-- The columns are different, they are the node's own, and they read nothing but the operands. -/
  nodup : n.memo.order.Nodup
  owned : ∀ d ∈ n.memo.order, ∃ c, a.derived[d]? = some c ∧ c.owner = i ∧
    c.ancestor.All (Reads a i n.operator)
  /-- Each column is found by its ancestor, which no other one has, and nothing else is found. -/
  ancestors_nodup : (n.memo.order.map fun d => (a.derived[d]?).map (·.ancestor)).Nodup
  byAncestor : ∀ e d, n.memo.byAncestor.lookup e = some d ↔
    d ∈ n.memo.order ∧ (a.derived[d]?).map (·.ancestor) = some e
  /-- A projection of columns shows its columns in their order. -/
  shown_eq : ∀ operand shown, n.operator = .projection operand none shown → shown = n.memo.order
  names_nodup : ∀ operand whole shown, n.operator = .projection operand whole shown →
    (n.memo.order.map fun d => (a.derived[d]?).map (·.name)).Nodup

/-- What holds of an arena. -/
structure WellFormed (a : Arena) : Prop where
  nodes : ∀ (i : Nat) (n : Node), a.nodes[i]? = some n → n.WellFormed a i
  tables : ∀ name i, a.tableNamed? name = some i ↔
    ∃ t memo, a.nodes[i]? = some ⟨.table t, memo⟩ ∧ t.name = name
  found : ∀ i < a.nodes.length, ∀ name, ∃ found columns,
    a.find i name = .ok found ∧ a.columns i = .ok columns ∧ ∀ d, found = some d → d ∈ columns
  /-- No handle leads nowhere, whatever is asked or built. -/
  answered : ∀ q : Question Nat, (∀ n ∈ q.references, n < a.nodes.length) →
    q.answer a ≠ .error .dangling
  built : ∀ k : Construction Nat, (∀ n ∈ k.references, n < a.nodes.length) →
    (k.run.on a).1 ≠ .error .dangling
  declared : ∀ schema, ((Arena.declare schema).on a).1 ≠ .error .dangling

section

variable {a : Arena} {b : Algebra} {r : Relation} {memo : Memo}

theorem Holds.ancestors_nodup {owner : Nat} {ancestor : Expr Nat → Expr ColumnHandle}
    {shown : List OutputColumn} (h : Holds a owner ancestor memo shown) :
    (memo.order.map fun d => (a.derived[d]?).map (·.ancestor)).Nodup := by
  refine h.nodup.map_on fun d hd d' hd' heq => ?_
  obtain ⟨i, hi⟩ := List.getElem?_of_mem hd
  obtain ⟨c, -, hderived⟩ := h.exists_shown hi
  have hancestor : (a.derived[d]?).map (·.ancestor) = some (ancestor c.source) := by
    rw [hderived]
    rfl
  have hfound := (h.byAncestor _ d).2 ⟨hd, hancestor⟩
  have hfound' := (h.byAncestor _ d').2 ⟨hd', heq ▸ hancestor⟩
  exact Option.some.inj (hfound.symm.trans hfound')

/-- The names of the columns are those that are shown. -/
theorem Holds.names_eq {owner : Nat} {ancestor : Expr Nat → Expr ColumnHandle}
    {shown : List OutputColumn} (h : Holds a owner ancestor memo shown) :
    (memo.order.map fun d => (a.derived[d]?).map (·.name)) = shown.map fun c => some c.name := by
  refine List.ext_getElem? fun i => ?_
  rw [List.getElem?_map, List.getElem?_map]
  cases hd : memo.order[i]? with
  | none =>
    have hle := List.getElem?_eq_none_iff.1 hd
    rw [h.length] at hle
    rw [List.getElem?_eq_none hle]
    rfl
  | some d =>
    obtain ⟨c, hc, hderived⟩ := h.exists_shown hd
    rw [hc, Option.map_some, hderived]
    rfl

/-- Only a projection is stored as one. -/
theorem operator_eq_projection {order shown : List Nat} {operand : Nat} {whole : Option Nat}
    (h : a.operator order r = .projection operand whole shown) :
    ∃ id s u columns, r = .projection id s u columns ∧ s.id = operand ∧ u.map (·.id) = whole ∧
      (if u.isSome then [] else order) = shown := by
  cases r with
  | table t => cases h
  | selection => cases h
  | projection id s u columns =>
    obtain ⟨hoperand, hwhole, hshown⟩ := Operator.projection.inj h
    exact ⟨id, s, u, columns, rfl, hoperand, hwhole, hshown⟩
  | join => cases h

/-- Only a table is stored as one. -/
theorem operator_eq_table {order : List Nat} {t : Table} (h : a.operator order r = .table t) :
    r = .table t := by
  cases r with
  | table u => rw [Operator.table.inj h]
  | selection => cases h
  | projection => cases h
  | join => cases h

namespace Stores

theorem handles_lt (h : Stores a b) (hr : r ∈ b.relations) {n : Nat}
    (hn : n ∈ (a.operator memo.order r).handles) : n < r.id := by
  cases r with
  | table t => cases hn
  | selection id operand condition =>
    rw [List.mem_singleton.1 hn]
    exact (h.sound.selection_operand hr).2
  | projection id operand whole shown =>
    obtain ⟨hop, hlt⟩ := h.sound.projection_operand hr
    rcases List.mem_cons.1 hn with rfl | hn
    · exact hlt
    · obtain ⟨t, rfl, rfl⟩ : ∃ t, whole = some t ∧ t.id = n := by
        simpa [Option.map_eq_some_iff] using hn
      have hle := h.sound.tableNamed?_id_le hop (h.sound.whole_built hr).1
      exact Nat.lt_of_le_of_lt hle hlt
  | join id kind left right condition =>
    rcases List.mem_cons.1 hn with rfl | hn
    · exact (h.sound.join_left hr).2
    · rw [List.mem_singleton.1 hn]
      exact (h.sound.join_right hr).2

/-- The columns of a relation that is no table read columns of its operands. -/
theorem encode_reads (h : Stores a b) (hr : r ∈ b.relations) (hnot : r.table? = none)
    {c : OutputColumn} (hc : c ∈ r.columns) :
    (a.encode r.operands c.source).All (Reads a r.id (a.operator memo.order r)) := by
  refine Expr.All.map ((h.source_lt hr hnot hc).mono fun i hi => ?_)
  obtain ⟨d, hd⟩ := h.exists_input (h.pair hr hnot) hi
  obtain ⟨s, hs, hmem⟩ := List.mem_flatMap.1 (List.mem_of_getElem? hd)
  have hoperand : s.id ∈ (a.operator memo.order r).operands := by
    cases r with
    | table t => cases hnot
    | selection id operand condition =>
      rw [List.mem_singleton.1 hs]
      exact List.mem_singleton_self _
    | projection id operand whole shown =>
      rw [List.mem_singleton.1 hs]
      exact List.mem_singleton_self _
    | join id kind left right condition => exact List.mem_map_of_mem (f := (·.id)) hs
  rw [hd]
  cases r with
  | table t => cases hnot
  | _ => exact ⟨s.id, hoperand, hmem⟩

theorem ancestor_reads (h : Stores a b) (hr : r ∈ b.relations) {c : OutputColumn}
    (hc : c ∈ r.columns) :
    (a.ancestor r c.source).All (Reads a r.id (a.operator memo.order r)) := by
  cases r with
  | table t =>
    obtain ⟨i, hi, rfl⟩ := List.mem_mapIdx.1 hc
    exact ⟨rfl, hi⟩
  | selection id operand condition => exact h.encode_reads hr rfl hc
  | projection id operand whole shown => exact h.encode_reads hr rfl hc
  | join id kind left right condition => exact h.encode_reads hr rfl hc

/-- The node of a relation. -/
theorem node_wellFormed (h : Stores a b) (hr : r ∈ b.relations)
    (hholds : Holds a r.id (a.ancestor r) memo r.columns) :
    Node.WellFormed a r.id ⟨a.operator memo.order r, memo⟩ where
  handles_lt _ hn := h.handles_lt hr hn
  whole_table operand whole shown hop := by
    obtain ⟨id, s, u, columns, rfl, -, hwhole, -⟩ := operator_eq_projection hop
    obtain ⟨t, rfl, rfl⟩ := Option.map_eq_some_iff.1 hwhole
    have hfound := (h.sound.whole_built hr).1
    exact ⟨t, h.table_eq (h.sound.table_mem_of_tableNamed? (h.sound.projection_operand hr).1 hfound)⟩
  nodup := hholds.nodup
  owned d hd := by
    obtain ⟨i, hi⟩ := List.getElem?_of_mem hd
    obtain ⟨c, hc, hderived⟩ := hholds.exists_shown hi
    exact ⟨_, hderived, rfl, h.ancestor_reads hr (List.mem_of_getElem? hc)⟩
  ancestors_nodup := hholds.ancestors_nodup
  byAncestor := hholds.byAncestor
  shown_eq operand shown hop := by
    obtain ⟨id, s, u, columns, rfl, -, hwhole, rfl⟩ := operator_eq_projection hop
    rw [Option.map_eq_none_iff.1 hwhole]
    rfl
  names_nodup operand whole shown hop := by
    obtain ⟨id, s, u, columns, rfl, -, -, -⟩ := operator_eq_projection hop
    have hnames := (h.sound.projection_names hr).map fun _ _ => Option.some.inj
    rw [List.map_map] at hnames
    rw [hholds.names_eq]
    exact hnames

/-- Every handle is that of a relation. -/
theorem exists_mem (h : Stores a b) {i : Nat} (hi : i < a.nodes.length) :
    ∃ r ∈ b.relations, r.id = i :=
  h.sound.exists_of_lt (h.length ▸ hi)

/-- The node of a table stores that table, under its own handle. -/
theorem table_mem (h : Stores a b) {t : Table} {memo : Memo} {i : Nat}
    (hnode : a.nodes[i]? = some ⟨.table t, memo⟩) : Relation.table t ∈ b.relations ∧ t.id = i := by
  obtain ⟨r, hr, rfl⟩ := h.exists_mem (List.getElem?_eq_some_iff.1 hnode).1
  obtain ⟨memo', hnode', -⟩ := h.keeps r hr
  have hoperator : a.operator memo'.order r = .table t :=
    congrArg Node.operator (Option.some.inj (hnode'.symm.trans hnode))
  obtain rfl := operator_eq_table hoperator
  exact ⟨hr, rfl⟩

/-- Tables are found by their names. -/
theorem tableNamed?_eq_some_iff (h : Stores a b) {name : String} {i : Nat} :
    a.tableNamed? name = some i ↔
      ∃ t memo, a.nodes[i]? = some ⟨.table t, memo⟩ ∧ t.name = name := by
  rw [h.tables, Option.map_eq_some_iff]
  constructor
  · rintro ⟨t, ht, rfl⟩
    obtain ⟨hmem, hname⟩ := h.sound.table?_eq_some_iff.1 ht
    obtain ⟨memo, hnode, -⟩ := h.keeps _ hmem
    exact ⟨t, memo, hnode, hname⟩
  · rintro ⟨t, memo, hnode, hname⟩
    obtain ⟨hmem, rfl⟩ := h.table_mem hnode
    exact ⟨t, h.sound.table?_eq_some_iff.2 ⟨hmem, hname⟩, rfl⟩

/-- What a name finds in a relation is a column of it. -/
theorem exists_find (h : Stores a b) (hr : r ∈ b.relations) (name : String) :
    ∃ found columns, a.find r.id name = .ok found ∧ a.columns r.id = .ok columns ∧
      ∀ d, found = some d → d ∈ columns := by
  refine ⟨_, _, h.find_eq hr name, h.columns_eq hr, fun d hd => ?_⟩
  obtain ⟨i, -, hi⟩ := Option.bind_eq_some_iff.1 hd
  exact List.mem_of_getElem? hi

/-- No question stops at a handle. -/
theorem answer_ne_dangling (h : Stores a b) {q : Question Nat}
    (within : ∀ n ∈ q.references, n < a.nodes.length) : q.answer a ≠ .error .dangling := by
  have hmatch : q.Matches (Handles (fun n => n) b) q := by
    refine Question.matches_self fun n hn => ⟨?_, rfl⟩
    rw [← h.length]
    exact within n hn
  obtain ⟨y, hanswer, -⟩ := Question.answer_mirrored h.mirrored hmatch
  rw [hanswer]
  cases y <;> exact fun heq => nomatch heq

end Stores

end

/-- Every arena that building leads to is well-formed. -/
theorem wellFormed_of_reached {a : Arena} (h : Reached a) : a.WellFormed := by
  obtain ⟨b, hb, hstores⟩ := h.sound
  have hsound : a.Sound := ⟨b, hb, hstores⟩
  refine ⟨fun i n hn => ?_, fun name i => hstores.tableNamed?_eq_some_iff, fun i hi name => ?_,
    fun q within => hstores.answer_ne_dangling within, fun k within => (hsound.build within).2,
    fun schema => (hsound.declare schema).2⟩
  · obtain ⟨r, hr, rfl⟩ := hstores.exists_mem (List.getElem?_eq_some_iff.1 hn).1
    obtain ⟨memo, hnode, hholds⟩ := hstores.keeps r hr
    obtain rfl := Option.some.inj (hnode.symm.trans hn)
    exact hstores.node_wellFormed hr hholds
  · obtain ⟨r, hr, rfl⟩ := hstores.exists_mem hi
    exact hstores.exists_find hr name

/-- Two tables, a projection that stops at its second column, the tables beside each other, and a
projection of these. -/
def sample : Arena :=
  let builds : List (Construction Nat) :=
    [.createTable "t" [("a", .integer), ("b", .string)],
      .createTable "u" [("a", .integer), ("c", .integer)],
      .project 0 [.name "a", .name "d"],
      .join .inner 0 1 (.expr (.equal (.column "t__a") (.column "c"))),
      .project 2 [.name "b", .name "u__a"]]
  builds.foldl (fun a k => (k.run.on a).2) .empty

/-- There are eleven columns, of which one belongs to no relation: it was left behind. -/
theorem wellFormed_of_reached_sample :
    Reached sample ∧ sample.derived.length = 11 ∧
      (sample.nodes.flatMap (·.memo.order)).length = 10 ∧ sample.WellFormed := by
  have hreached : Reached sample := by
    refine .build _ (.build _ (.build _ (.build _ (.build _ .empty ?_) ?_) ?_) ?_) ?_
    all_goals decide_cbv
  exact ⟨hreached, by cbv, by cbv, wellFormed_of_reached hreached⟩

/-- The relations of such an arena can be read as trees, which an algebra holds that sessions on trees
lead to. -/
theorem Reached.algebra_reachable {a : Arena} (h : Reached a) :
    ∃ b, a.algebra = .ok b ∧ b.Reachable := by
  obtain ⟨b, hb, hstores⟩ := h.sound
  exact ⟨b, hstores.algebra_eq, hb⟩

end Arena

end RelationalAlgebra
