import RelationalAlgebra.Proofs.Projecting
import RelationalAlgebra.Proofs.Rebuilding

/-!
# Building in an arena follows building trees

Every operation on an arena that stores an algebra does what the operation of the same name does with
the algebra: it builds the relation of the same tree, or stops for the same reason, and afterwards the
arena stores the algebra that there is then.  No handle leads nowhere on the way.

* `Stores.add`: a relation is put into the arena with the columns that were derived for it.
* `createTable_follows`, `select_follows`, `project_follows`, `join_follows` and
  `joinInferred_follows`: one relation.
-/

namespace RelationalAlgebra

open RelationalAlgebra.Relation

namespace Arena

variable {a a' : Arena} {b : Algebra} {r s operand left right : Relation} {memo : Memo}

/-! ## One more relation -/

theorem order_more (h : a.nodes <+: a'.nodes) {n : Nat} (hn : n < a.nodes.length) :
    a'.order n = a.order n := by
  obtain ⟨more, hmore⟩ := h
  rw [order, order, ← hmore, List.getElem?_append_left hn]

theorem encode_more (h : a.nodes <+: a'.nodes) {operands : List Relation}
    (hops : ∀ s ∈ operands, s.id < a.nodes.length) (e : Expr Nat) :
    a'.encode operands e = a.encode operands e := by
  have hinputs : a'.inputs operands = a.inputs operands := by
    unfold inputs
    exact List.flatMap_congr fun s hs => order_more h (hops s hs)
  rw [encode, encode, hinputs]

theorem ancestor_more (h : a.nodes <+: a'.nodes)
    (hops : ∀ s ∈ r.operands, s.id < a.nodes.length) : a'.ancestor r = a.ancestor r := by
  cases r with
  | table t => rfl
  | _ => exact funext (encode_more h hops)

theorem operator_more (h : a.nodes <+: a'.nodes)
    (hops : ∀ s ∈ r.operands, s.id < a.nodes.length) (shown : List Nat) :
    a'.operator shown r = a.operator shown r := by
  cases r with
  | table t => rfl
  | selection id operand condition => exact congrArg _ (encode_more h hops condition)
  | projection id operand whole columns => rfl
  | join id kind left right condition => exact congrArg _ (encode_more h hops condition)

/-- The operands of a relation that can be built are there. -/
theorem Built.operand_mem (hr : Algebra.Built b r) (hs : s ∈ r.operands) : s ∈ b.relations := by
  cases hr with
  | table fresh => cases hs
  | selection operand_mem =>
    rw [List.mem_singleton.1 hs]
    exact operand_mem
  | whole operand_mem =>
    rw [List.mem_singleton.1 hs]
    exact operand_mem
  | columns operand_mem =>
    rw [List.mem_singleton.1 hs]
    exact operand_mem
  | join left_mem right_mem =>
    rcases List.mem_cons.1 hs with rfl | hs
    · exact left_mem
    · rw [List.mem_singleton.1 hs]
      exact right_mem

/-- A relation is put into the arena with its columns, and a table is entered under its name. -/
theorem Stores.add (h : Stores a b) (hr : Algebra.Built b r)
    (hholds : Holds a b.size (a.ancestor r) memo r.columns)
    (hnodes : a'.nodes = a.nodes ++ [⟨a.operator memo.order r, memo⟩])
    (hderived : a'.derived = a.derived)
    (htables : ∀ name, a'.tableNamed? name = ((b.add r).table? name).map (·.id)) :
    Stores a' (b.add r) := by
  have hmore : a.nodes <+: a'.nodes := ⟨_, hnodes.symm⟩
  have hlt : ∀ s ∈ b.relations, s.id < a.nodes.length := by
    intro s hs
    rw [h.length]
    exact h.sound.id_lt_size hs
  have hkept : ∀ s : Relation, (∀ u ∈ s.operands, u ∈ b.relations) → ∀ memo' : Memo, ∀ n : Nat,
      a'.nodes[n]? = some ⟨a.operator memo'.order s, memo'⟩ →
      Holds a n (a.ancestor s) memo' s.columns →
      a'.nodes[n]? = some ⟨a'.operator memo'.order s, memo'⟩ ∧
        Holds a' n (a'.ancestor s) memo' s.columns := by
    intro s hs memo' n hnode hholds'
    have hops : ∀ u ∈ s.operands, u.id < a.nodes.length := fun u hu => hlt u (hs u hu)
    rw [operator_more hmore hops, ancestor_more hmore hops]
    refine ⟨hnode, hholds'.length, ?_, hholds'.nodup, ?_, ?_, ?_⟩
    · rw [hderived]
      exact hholds'.derived
    · rw [hderived]
      exact hholds'.byAncestor
    · rw [hderived]
      exact hholds'.byName
    · rw [hderived]
      exact hholds'.named
  refine ⟨h.sound.add hr, ?_, ?_, htables⟩
  · simp [hnodes, Algebra.size, Algebra.add, h.length]
  · intro s hs
    rcases List.mem_append.1 hs with hs | hs
    · obtain ⟨memo', hnode, hholds'⟩ := h.keeps s hs
      refine ⟨memo', hkept s (fun u hu => h.sound.operand_mem hs hu) memo' s.id ?_ hholds'⟩
      rw [hnodes, List.getElem?_append_left (hlt s hs)]
      exact hnode
    · obtain rfl := List.mem_singleton.1 hs
      rw [hr.id_eq]
      refine ⟨memo, hkept s (fun u hu => Built.operand_mem hr hu) memo b.size ?_ hholds⟩
      rw [hnodes, ← h.length, List.getElem?_append_right (Nat.le_refl _), Nat.sub_self]
      rfl

/-- A relation that is no table is put into the arena. -/
theorem Stores.push (h : Stores a b) (hr : Algebra.Built b r) (hnot : r.table? = none)
    (hholds : Holds a b.size (a.ancestor r) memo r.columns) :
    Stores { a with nodes := a.nodes ++ [⟨a.operator memo.order r, memo⟩] } (b.add r) := by
  refine h.add hr hholds rfl rfl fun name => ?_
  rw [Algebra.table?_add hnot]
  exact h.tables name

/-! ## Building one relation -/

/-- The work builds, in an arena that stores an algebra, the relation that a computation on the algebra
builds; if it stops for the reason for which the computation fails, the arena still stores the
algebra. -/
def Builds (x : Work Nat) (a : Arena) (b : Algebra) (y : Except Error (Relation × Algebra)) : Prop :=
  Follows x a y (fun n p a' => n = p.1.id ∧ Stores a' p.2) (Stores · b)

/-- A relation that is no table is put into the arena when its columns are derived. -/
theorem push_builds (h : Stores a b) (hr : Algebra.Built b r) (hnot : r.table? = none)
    (hgrows : Grows a a') (hholds : Holds a' b.size (a.ancestor r) memo r.columns) {op : Operator}
    (hoperator : a.operator memo.order r = op) : Builds (push op memo) a' b (.ok (r, b.add r)) := by
  have hstores := h.grow hgrows
  rw [← hgrows.ancestor_eq] at hholds
  rw [← hoperator, ← hgrows.operator_eq]
  refine ⟨a'.nodes.length, _, rfl, ?_, hstores.push hr hnot hholds⟩
  rw [hstores.length, hr.id_eq]

/-- A relation is built that shows the columns of its operands as they are. -/
theorem passOn_builds (h : Stores a b) (hr : Algebra.Built b r) (hops : Pair b r.operands)
    (hnot : r.table? = none) (hcolumns : r.columns = passThrough (beside r.operands))
    (hancestor : a.ancestor r = a.encode r.operands) {op : Operator}
    (hoperator : ∀ shown, a.operator shown r = op) :
    Builds (do
        let memo ← passOn (← next) (r.operands.map (·.id))
        push op memo) a b (.ok (r, b.add r)) := by
  have hnext : next.on a = (.ok b.size, a) := by
    rw [← h.length]
    rfl
  refine follows_bind_ok hnext ?_
  refine (passOn_follows h hops b.size).andThen (g := fun _ => .ok (r, b.add r))
    (fun a' hgrows => h.grow hgrows) ?_
  intro memo shown a' hshown hderiving
  refine push_builds h hr hnot hderiving.grows ?_ (hoperator _)
  rw [hancestor, hcolumns, Except.ok.inj hshown]
  exact hderiving.holds

/-- A selection. -/
theorem select_follows (h : Stores a b) (hop : operand ∈ b.relations) (condition : Predicate) :
    Builds (Arena.select operand.id condition) a b ((Algebra.select operand condition).run b) := by
  have hrelation : (look (·.relation operand.id)).on a = (.ok operand, a) :=
    congrArg (·, a) (h.relation_eq hop)
  have hops : ∀ s ∈ [operand], s ∈ b.relations := by simpa using hop
  rw [Algebra.run_select]
  refine follows_bind_ok hrelation ?_
  refine (follows_check (P := fun e e' a' => e = e' ∧ a' = a ∧ condition.equality = .ok e)
    (fun e he => ⟨rfl, rfl, he⟩) h).bind ?_
  rintro equality _ a ⟨rfl, rfl, hequality⟩
  refine (follows_look (P := fun e e' a' => e = a.encode [operand] e' ∧ a' = a ∧
    Algebra.bind [operand] ("selection on " ++ operand.describe) equality = .ok e')
    (h.resolve_eq hops _ equality) (fun e he => ⟨rfl, rfl, he⟩) h).bind ?_
  rintro _ bound a ⟨rfl, rfl, hbound⟩
  have hbuilt : Algebra.Built b (.selection b.size operand bound) := .selection hop hequality hbound
  refine passOn_builds h hbuilt (.one hop) rfl ?_ rfl fun _ => rfl
  rw [Relation.operands, beside_one]
  rfl

/-- Work that stops at once. -/
theorem fail_builds {cause : Error} {f : Unit → Work Nat} (h : Stores a b) :
    Builds (fail cause >>= f) a b (.error cause) := ⟨a, on_bind_error rfl, h⟩

/-- A join. -/
theorem join_follows (h : Stores a b) (hl : left ∈ b.relations) (hr : right ∈ b.relations)
    (kind : JoinKind) (condition : Predicate) :
    Builds (Arena.join kind left.id right.id condition) a b
      ((Algebra.join kind left right condition).run b) := by
  have hleft : (look (·.relation left.id)).on a = (.ok left, a) :=
    congrArg (·, a) (h.relation_eq hl)
  have hright : (look (·.relation right.id)).on a = (.ok right, a) :=
    congrArg (·, a) (h.relation_eq hr)
  have hops : ∀ s ∈ [left, right], s ∈ b.relations := by simp [hl, hr]
  rw [Algebra.run_join]
  refine follows_bind_ok hleft (follows_bind_ok hright ?_)
  by_cases hany : left.joinUnits.any (·.id == right.id) = true
  · simp only [if_pos hany]
    exact fail_builds h
  · simp only [if_neg hany]
    refine (follows_check (P := fun e e' a' => e = e' ∧ a' = a ∧ condition.equality = .ok e)
      (fun e he => ⟨rfl, rfl, he⟩) h).bind ?_
    rintro equality _ a ⟨rfl, rfl, hequality⟩
    refine (follows_look (P := fun e e' a' => e = a.encode [left, right] e' ∧ a' = a ∧
      Algebra.bind [left, right] ("join of " ++ left.describe ++ " and " ++ right.describe)
        equality = .ok e')
      (h.resolve_eq hops _ equality) (fun e he => ⟨rfl, rfl, he⟩) h).bind ?_
    rintro _ bound a ⟨rfl, rfl, hbound⟩
    have hnew : ∀ unit ∈ left.joinUnits, unit.id ≠ right.id := by
      intro unit hunit hid
      exact hany (List.any_eq_true.2 ⟨unit, hunit, by simpa using hid⟩)
    have hbuilt : Algebra.Built b (.join b.size kind left right bound) :=
      .join hl hr hnew hequality hbound
    exact passOn_builds h hbuilt (.two hl hr) rfl rfl rfl fun _ => rfl

/-- A join by a key. -/
theorem joinInferred_follows (h : Stores a b) (hl : left ∈ b.relations) (hr : right ∈ b.relations)
    (kind : JoinKind) :
    Builds (Arena.joinInferred kind left.id right.id) a b
      ((Algebra.joinInferred kind left right).run b) := by
  have hleft : (look (·.relation left.id)).on a = (.ok left, a) :=
    congrArg (·, a) (h.relation_eq hl)
  have hright : (look (·.relation right.id)).on a = (.ok right, a) :=
    congrArg (·, a) (h.relation_eq hr)
  refine follows_bind_ok hleft (follows_bind_ok hright ?_)
  unfold Algebra.joinInferred
  rw [run_lift_bind]
  refine (follows_check (P := fun e e' a' => e = e' ∧ a' = a) (fun e _ => ⟨rfl, rfl⟩) h).bind ?_
  rintro condition _ a ⟨rfl, rfl⟩
  exact join_follows h hl hr kind condition

/-! ### Projections -/

/-- The table that is asked for is found by its handle. -/
theorem projectedTable?_eq (h : Stores a b) (hop : operand ∈ b.relations)
    (args : List Algebra.ProjectArg) :
    a.projectedTable? operand.id args =
      .ok ((Algebra.projectedTable? operand args).map (·.id)) := by
  match args with
  | [] => rfl
  | [arg] =>
    simp only [Arena.projectedTable?, Algebra.projectedTable?]
    cases arg.tableName? with
    | none => rfl
    | some name => exact h.reach_eq hop name
  | _ :: _ :: _ => rfl

/-- A projection, given the relations that its arguments refer to. -/
theorem project_follows (h : Stores a b) (hop : operand ∈ b.relations) {args : List (Arg Nat)}
    {read : List Algebra.ProjectArg} (hread : args.mapM (·.read a.relation) = .ok read) :
    Builds (Arena.project operand.id args) a b ((Algebra.project operand read).run b) := by
  have hargs : (look fun a => args.mapM (·.read a.relation)).on a = (.ok read, a) :=
    congrArg (·, a) hread
  have hrelation : (look (·.relation operand.id)).on a = (.ok operand, a) :=
    congrArg (·, a) (h.relation_eq hop)
  have hnext : next.on a = (.ok b.size, a) := by
    rw [← h.length]
    rfl
  have htable : (look (·.projectedTable? operand.id read)).on a =
      (.ok ((Algebra.projectedTable? operand read).map (·.id)), a) :=
    congrArg (·, a) (projectedTable?_eq h hop read)
  rw [Algebra.run_project]
  refine follows_bind_ok hargs (follows_bind_ok hrelation ?_)
  by_cases hempty : read.isEmpty = true
  · simp only [if_pos hempty]
    exact fail_builds h
  · simp only [if_neg hempty]
    refine follows_bind_ok hnext (follows_bind_ok htable ?_)
    cases hwhole : Algebra.projectedTable? operand read with
    | some t =>
      have hfound := Algebra.tableNamed?_of_projectedTable? hwhole
      have ht := h.sound.table_mem_of_tableNamed? hop hfound
      have hlook : (look (·.table t.id)).on a = (.ok t, a) := congrArg (·, a) (h.table_eq ht)
      refine follows_bind_ok hlook ?_
      refine (deriveWhole_follows h hop b.size ("projection of " ++ operand.describe) t).andThen
        (fun a' hgrows => h.grow hgrows) ?_
      intro memo shown a' hshown hderiving
      have hbuilt : Algebra.Built b (.projection b.size operand (some t) shown) :=
        .whole hop hfound hshown
      exact push_builds h hbuilt rfl hderiving.grows hderiving.holds rfl
    | none =>
      refine (deriveShown_follows h hop b.size ("projection of " ++ operand.describe) read).andThen
        (fun a' hgrows => h.grow hgrows) ?_
      rintro ⟨memo, handles⟩ shown a' hshown ⟨hderiving, hhandles, -⟩
      obtain rfl : handles = memo.order := hhandles
      have hbuilt : Algebra.Built b (.projection b.size operand none shown) :=
        .columns hop (by simpa using hempty) hwhole hshown
      exact push_builds h hbuilt rfl hderiving.grows hderiving.holds rfl

/-! ### Tables -/

/-- A table. -/
theorem createTable_follows (h : Stores a b) (name : String)
    (columns : List (String × ColumnType)) :
    Follows (Arena.createTable name columns) a ((Algebra.createTable name columns).run b)
      (fun n p a' => n = p.1.id ∧ Stores a' p.2) (Stores · b) := by
  have hlook : (look fun a => .ok (a.tableNamed? name)).on a =
      (.ok ((b.table? name).map (·.id)), a) := by
    rw [← h.tables name]
    rfl
  have hnext : next.on a = (.ok b.size, a) := by
    rw [← h.length]
    rfl
  rw [Algebra.run_createTable]
  refine follows_bind_ok hlook ?_
  rw [Option.isSome_map]
  by_cases hsome : (b.table? name).isSome = true
  · simp only [if_pos hsome]
    exact ⟨a, on_bind_error rfl, h⟩
  · simp only [if_neg hsome]
    refine follows_bind_ok hnext ?_
    have hfresh : b.table? name = none := by simpa using hsome
    have hbuilt : Algebra.Built b (.table (Table.declare b.size name columns)) := .table hfresh
    generalize ht : Table.declare b.size name columns = t at hbuilt ⊢
    have hid : t.id = b.size := hbuilt.id_eq
    have hname : t.name = name := by
      rw [← ht]
      rfl
    have hdeclared := declared_follows a t
    rw [hid] at hdeclared
    refine hdeclared.andThen (g := fun _ => .ok (t, b.add (.table t)))
      (fun a' hgrows => h.grow hgrows) ?_
    rintro memo shown a' hshown ⟨hgrows, hholds⟩
    have hstores := h.grow hgrows
    refine ⟨a'.nodes.length, _, rfl, hstores.length.trans hid.symm, ?_⟩
    rw [← Except.ok.inj hshown] at hholds
    refine hstores.add hbuilt ?_ rfl rfl fun other => ?_
    · rw [← hid] at hholds ⊢
      exact hholds
    · rw [Algebra.table?_add_table (hname ▸ hfresh) other, tableNamed?, hname]
      change List.lookup other ((name, b.size) :: a'.tablesByName) = _
      rw [List.lookup_cons]
      by_cases heq : name = other
      · rw [if_pos heq, heq, beq_self_eq_true, ← hid]
        rfl
      · rw [if_neg heq, beq_eq_false_iff_ne.2 (Ne.symm heq)]
        exact hstores.tables other

end Arena

end RelationalAlgebra
