import RelationalAlgebra.Proofs.Storing

/-!
# What is read from an arena

Handles lead in an arena to what the trees of the stored algebra say, and none of them leads nowhere:

* `Stores.find_eq` for a column by its name, `Stores.reach_eq` for a table by its name;
* `Stores.resolve_eq` for all the names of an expression, and `Stores.nameOf_eq` for the name of a bound
  one;
* `Stores.relation_eq`: a relation is read back as the tree that was stored.

What a name finds in an operand is found again among the relation's own columns because it is there
under its ancestor (`Stores.passing_eq`).
-/

namespace RelationalAlgebra

open QualifiedName RelationalAlgebra.Relation

/-! ## Columns that are passed on -/

/-- A column that is passed on stands at its own place. -/
theorem Relation.findIdx?_passThrough {columns : List OutputColumn} {i : Nat}
    (h : i < columns.length) :
    (passThrough columns).findIdx? (·.source == .column i) = some i := by
  rw [List.findIdx?_eq_some_iff_getElem]
  refine ⟨by simpa [passThrough] using h, by simp [passThrough], ?_⟩
  intro j hj
  simp [passThrough]
  omega

/-- A computation on every item of a list, given what it comes to on each. -/
theorem mapM_ok {α β ε : Type} {f : α → Except ε β} {l : List α} {l' : List β}
    (hlength : l.length = l'.length)
    (h : ∀ (i : Nat) (x : α) (y : β), l[i]? = some x → l'[i]? = some y → f x = .ok y) :
    l.mapM f = .ok l' := by
  induction l generalizing l' with
  | nil =>
    obtain rfl : l' = [] := List.length_eq_zero_iff.1 hlength.symm
    rfl
  | cons x rest ih =>
    cases l' with
    | nil => cases hlength
    | cons y rest' =>
      rw [List.mapM_cons, h 0 x y rfl rfl,
        ih (Nat.succ.inj hlength) fun i x y hx hy => h (i + 1) x y hx hy]
      rfl

namespace Arena

variable {a : Arena} {b : Algebra} {r operand left right : Relation} {operands : List Relation}
  {i d : Nat} {memo : Memo} {operator : Operator}

/-- The columns of a memo as they are stored. -/
theorem Holds.mapM_column {owner : Nat} {ancestor : Expr Nat → Expr ColumnHandle}
    {shown : List OutputColumn} (h : Holds a owner ancestor memo shown) :
    memo.order.mapM a.column =
      .ok (shown.map fun c => ⟨owner, ancestor c.source, c.label, c.name⟩) := by
  refine mapM_ok (by rw [List.length_map, h.length]) fun i d stored hd hstored => ?_
  rw [List.getElem?_map, Option.map_eq_some_iff] at hstored
  obtain ⟨c, hc, rfl⟩ := hstored
  rw [column, h.derived i d c hd hc]
  rfl

/-- A join shows the columns that can be told apart. -/
theorem breadth_join (id : Nat) (kind : JoinKind) (condition : Expr Nat) :
    breadth [left, right] = (Relation.join id kind left right condition).width := by
  by_cases h : left.id = right.id
  · rw [breadth_self h, width_join_self h]
  · rw [breadth_two h, width_join h]

namespace Stores

/-- The operands of a relation that is no table. -/
theorem pair (h : Stores a b) (hr : r ∈ b.relations) (hnot : r.table? = none) :
    Pair b r.operands := by
  cases r with
  | table t => cases hnot
  | selection id operand condition => exact .one (h.sound.selection_operand hr).1
  | projection id operand whole shown => exact .one (h.sound.projection_operand hr).1
  | join id kind left right condition =>
    exact .two (h.sound.join_left hr).1 (h.sound.join_right hr).1

/-- The sources of a relation that is no table read columns that can be told apart. -/
theorem source_lt (h : Stores a b) (hr : r ∈ b.relations) (hnot : r.table? = none)
    {c : OutputColumn} (hc : c ∈ r.columns) : c.source.All (· < breadth r.operands) := by
  cases r with
  | table t => cases hnot
  | selection id operand condition =>
    obtain ⟨i, hi, rfl⟩ := List.mem_mapIdx.1 hc
    rw [Relation.operands, breadth_one]
    exact hi
  | projection id operand whole shown =>
    rw [Relation.operands, breadth_one]
    exact (h.sound.projection_shown hr).sources_lt c hc
  | join id kind left right condition =>
    obtain ⟨i, hi, rfl⟩ := List.mem_mapIdx.1 hc
    rw [Relation.operands, breadth_join id kind condition, width, Relation.columns,
      length_passThrough]
    exact hi

/-- A column of the operands is found by the column that shows it. -/
theorem passing_eq (h : Stores a b) (hr : r ∈ b.relations) (hnot : r.table? = none)
    (hnode : a.nodes[r.id]? = some ⟨operator, memo⟩) (hi : i < breadth r.operands)
    (hd : (a.inputs r.operands)[i]? = some d) :
    memo.passing? d = (showing? r.columns (.column i)).bind (memo.order[·]?) := by
  obtain ⟨memo', hnode', hholds⟩ := h.keeps r hr
  obtain rfl : memo = memo' := by
    rw [hnode] at hnode'
    exact congrArg Node.memo (Option.some.inj hnode')
  have hancestor : a.ancestor r = a.encode r.operands := by
    cases r <;> first | rfl | cases hnot
  have hcolumn : a.ancestor r (.column i) = .column (.derived d) := by
    rw [hancestor, encode, Expr.map, hd]
    rfl
  rw [Memo.passing?, ← hcolumn]
  refine hholds.lookup_ancestor fun c hc heq => ?_
  rw [hancestor] at heq
  exact h.encode_inj (h.pair hr hnot) (h.source_lt hr hnot hc) hi heq

/-- The same where columns are passed on at their own places. -/
theorem passing_passThrough (h : Stores a b) (columns : List OutputColumn)
    (hr : r ∈ b.relations) (hnot : r.table? = none) (hcolumns : r.columns = passThrough columns)
    (hnode : a.nodes[r.id]? = some ⟨operator, memo⟩) (hi : i < breadth r.operands)
    (hlt : i < columns.length) (hd : (a.inputs r.operands)[i]? = some d) :
    memo.passing? d = memo.order[i]? := by
  rw [h.passing_eq hr hnot hnode hi hd, showing?, hcolumns, findIdx?_passThrough hlt,
    Option.bind_some]

/-! ## Names -/

/-- The column at a place that a name stands for. -/
theorem exists_found (h : Stores a b) (hr : r ∈ b.relations) {name : String}
    (hfound : r.find? name = some i) : i < r.width ∧ ∃ d, (a.order r.id)[i]? = some d := by
  have hlt := h.sound.find?_lt hr hfound
  have horder : i < (a.order r.id).length := by rwa [h.length_order hr]
  exact ⟨hlt, _, List.getElem?_eq_getElem horder⟩

theorem find_table_eq (h : Stores a b) {t : Table} (hr : Relation.table t ∈ b.relations)
    (name : String) :
    a.find t.id name = .ok ((t.position? name).bind ((a.order t.id)[·]?)) := by
  obtain ⟨memo, hnode, -⟩ := h.keeps _ hr
  have horder := order_eq (r := .table t) hnode
  change a.nodes[t.id]? = some ⟨.table t, memo⟩ at hnode
  change a.order t.id = memo.order at horder
  rw [find, hnode, horder]
  cases hfound : t.position? name with
  | none => simp only [hfound, Option.bind_none]
  | some i =>
    have hcolumn : (Relation.table t).find? name = some i := hfound
    obtain ⟨-, d, hd⟩ := h.exists_found hr hcolumn
    change (a.order t.id)[i]? = some d at hd
    rw [horder] at hd
    simp only [hfound, Option.bind_some, hd]
    rfl

section

variable {id : Nat} {condition : Expr Nat} {whole : Option Table} {shown : List OutputColumn}
  {kind : JoinKind} {name : String}

/-- What a name finds in the operand of a selection is found at the same place. -/
theorem find_selection_eq (h : Stores a b)
    (hr : Relation.selection id operand condition ∈ b.relations)
    (hfind : a.find operand.id name =
      .ok ((operand.find? name).bind ((a.order operand.id)[·]?))) :
    a.find id name =
      .ok (((Relation.selection id operand condition).find? name).bind ((a.order id)[·]?)) := by
  obtain ⟨hop, hlt⟩ := h.sound.selection_operand hr
  obtain ⟨memo, hnode, -⟩ := h.keeps _ hr
  have horder := order_eq hnode
  change a.nodes[id]? = some ⟨.selection operand.id (a.encode [operand] condition), memo⟩ at hnode
  change a.order id = memo.order at horder
  rw [find, hnode, horder, find?]
  simp only [if_pos hlt, hfind]
  cases hfound : operand.find? name with
  | none => rfl
  | some i =>
    obtain ⟨hi, d, hd⟩ := h.exists_found hop hfound
    have hpassing := h.passing_passThrough operand.columns hr rfl rfl hnode
      (by rwa [Relation.operands, breadth_one]) hi (by rwa [Relation.operands, inputs_one])
    simp only [Option.bind_some, hd, Except.map, hpassing]

/-- A plain name finds a column of a projection by its name, and a qualified one by what it shows. -/
theorem find_projection_eq (h : Stores a b)
    (hr : Relation.projection id operand whole shown ∈ b.relations)
    (hfind : a.find operand.id name =
      .ok ((operand.find? name).bind ((a.order operand.id)[·]?))) :
    a.find id name =
      .ok (((Relation.projection id operand whole shown).find? name).bind ((a.order id)[·]?)) := by
  obtain ⟨hop, hlt⟩ := h.sound.projection_operand hr
  obtain ⟨memo, hnode, hholds⟩ := h.keeps _ hr
  have horder := order_eq hnode
  change a.nodes[id]? = some ⟨.projection operand.id _ _, memo⟩ at hnode
  change a.order id = memo.order at horder
  rw [find, hnode, horder, find?]
  simp only [if_pos hlt, hfind]
  by_cases hname : isQualified name = true
  · rw [if_pos hname, if_pos hname]
    cases hfound : operand.find? name with
    | none => rfl
    | some i =>
      obtain ⟨hi, d, hd⟩ := h.exists_found hop hfound
      have hpassing := h.passing_eq hr rfl hnode (by rwa [Relation.operands, breadth_one])
        (by rwa [Relation.operands, inputs_one])
      simp only [Option.bind_some, hd, Except.map, hpassing]
      rfl
  · rw [if_neg hname, if_neg hname, hholds.lookup_name (h.sound.projection_names hr) name]
    rfl

/-- What either operand of a join has is found again at the place that the join has it at. -/
theorem join_passing_eq (h : Stores a b)
    (hr : Relation.join id kind left right condition ∈ b.relations)
    (hnode : a.nodes[id]? = some ⟨operator, memo⟩)
    (hi : (Relation.join id kind left right condition).find? name = some i)
    (hd : (a.order left.id ++ a.order right.id)[i]? = some d) :
    memo.passing? d = memo.order[i]? := by
  have hwidth := h.sound.find?_lt hr hi
  have hlt : i < (joined left right left.columns right.columns).length := by
    rwa [width, Relation.columns, length_passThrough] at hwidth
  refine h.passing_passThrough _ hr rfl rfl hnode ?_ hlt ?_
  · rw [Relation.operands, breadth_join id kind condition]
    exact hwidth
  · rw [Relation.operands, inputs_two]
    exact hd

/-- A name finds what it finds in the left operand of a join, or else in the right one. -/
theorem find_join_eq (h : Stores a b)
    (hr : Relation.join id kind left right condition ∈ b.relations)
    (hfindl : a.find left.id name = .ok ((left.find? name).bind ((a.order left.id)[·]?)))
    (hfindr : a.find right.id name = .ok ((right.find? name).bind ((a.order right.id)[·]?))) :
    a.find id name = .ok
      (((Relation.join id kind left right condition).find? name).bind ((a.order id)[·]?)) := by
  obtain ⟨hl, hllt⟩ := h.sound.join_left hr
  obtain ⟨hrt, hrlt⟩ := h.sound.join_right hr
  obtain ⟨memo, hnode, -⟩ := h.keeps _ hr
  have horder := order_eq hnode
  change a.nodes[id]? = some ⟨.join kind left.id right.id _, memo⟩ at hnode
  change a.order id = memo.order at horder
  rw [find, hnode, horder]
  simp only [if_pos (And.intro hllt hrlt), hfindl, hfindr]
  cases hleft : left.find? name with
  | some i =>
    obtain ⟨hi, d, hd⟩ := h.exists_found hl hleft
    have hfound : (Relation.join id kind left right condition).find? name = some i := by
      rw [find?, hleft]
    have hinput : (a.order left.id ++ a.order right.id)[i]? = some d := by
      rw [List.getElem?_append_left (by rwa [h.length_order hl]), hd]
    simp only [hfound, Option.bind_some, hd]
    exact congrArg Except.ok (h.join_passing_eq hr hnode hfound hinput)
  | none =>
    change Except.ok (Option.bind _ memo.passing?) = _
    cases hright : right.find? name with
    | none =>
      rw [find?, hleft, hright]
      rfl
    | some j =>
      obtain ⟨hj, d, hd⟩ := h.exists_found hrt hright
      have hfound : (Relation.join id kind left right condition).find? name =
          some (left.width + j) := by
        rw [find?, hleft, hright]
        rfl
      have hinput : (a.order left.id ++ a.order right.id)[left.width + j]? = some d := by
        rw [List.getElem?_append_right (by rw [h.length_order hl]; omega),
          h.length_order hl, Nat.add_sub_cancel_left, hd]
      simp only [hfound, Option.bind_some, hd]
      exact congrArg Except.ok (h.join_passing_eq hr hnode hfound hinput)

end

/-- A name finds the column at the place it stands for. -/
theorem find_eq (h : Stores a b) (hr : r ∈ b.relations) (name : String) :
    a.find r.id name = .ok ((r.find? name).bind ((a.order r.id)[·]?)) := by
  induction r with
  | table t => exact h.find_table_eq hr name
  | selection id operand condition ih =>
    exact h.find_selection_eq hr (ih (h.sound.selection_operand hr).1)
  | projection id operand whole shown ih =>
    exact h.find_projection_eq hr (ih (h.sound.projection_operand hr).1)
  | join id kind left right condition ihl ihr =>
    exact h.find_join_eq hr (ihl (h.sound.join_left hr).1) (ihr (h.sound.join_right hr).1)

/-- A base table is found by its handle. -/
theorem table_eq (h : Stores a b) {t : Table} (ht : Relation.table t ∈ b.relations) :
    a.table t.id = .ok t := by
  obtain ⟨memo, hnode, -⟩ := h.keeps _ ht
  have hnode : a.nodes[t.id]? = some ⟨.table t, memo⟩ := hnode
  rw [table, node, hnode]
  rfl

/-- A name reaches the table that the tree has under it. -/
theorem reach_eq (h : Stores a b) (hr : r ∈ b.relations) (name : String) :
    a.reach r.id name = .ok ((r.tableNamed? name).map (·.id)) := by
  induction r with
  | table t =>
    obtain ⟨memo, hnode, -⟩ := h.keeps _ hr
    change a.nodes[t.id]? = some ⟨.table t, memo⟩ at hnode
    change a.reach t.id name = _
    rw [reach, hnode, Relation.tableNamed?]
    by_cases hname : t.name = name
    · simp [hname]
    · simp [hname]
  | selection id operand condition ih =>
    obtain ⟨hop, hlt⟩ := h.sound.selection_operand hr
    obtain ⟨memo, hnode, -⟩ := h.keeps _ hr
    change a.nodes[id]? = some ⟨.selection operand.id _, memo⟩ at hnode
    change a.reach id name = _
    rw [reach, hnode, Relation.tableNamed?]
    simp only [if_pos hlt, ih hop]
  | projection id operand whole shown ih =>
    obtain ⟨memo, hnode, -⟩ := h.keeps _ hr
    change a.nodes[id]? = some ⟨.projection operand.id (whole.map (·.id)) _, memo⟩ at hnode
    change a.reach id name = _
    rw [reach, hnode, Relation.tableNamed?]
    cases whole with
    | none => rfl
    | some t =>
      have ht := h.sound.table_mem_of_tableNamed? (h.sound.projection_operand hr).1
        (h.sound.whole_built hr).1
      obtain ⟨memo', hnode', -⟩ := h.keeps _ ht
      change a.nodes[t.id]? = some ⟨.table t, memo'⟩ at hnode'
      simp only [Option.map_some, node, hnode', Option.filter_some]
      change Except.ok (if t.name = name then some t.id else none) = _
      by_cases hname : t.name = name
      · simp [hname]
      · simp [hname]
  | join id kind left right condition ihl ihr =>
    obtain ⟨hl, hllt⟩ := h.sound.join_left hr
    obtain ⟨hrt, hrlt⟩ := h.sound.join_right hr
    obtain ⟨memo, hnode, -⟩ := h.keeps _ hr
    change a.nodes[id]? = some ⟨.join kind left.id right.id _, memo⟩ at hnode
    change a.reach id name = _
    rw [reach, hnode, Relation.tableNamed?]
    simp only [if_pos (And.intro hllt hrlt), ihl hl, ihr hrt]
    cases left.tableNamed? name with
    | some t => rfl
    | none => rfl

/-- A name is bound to the column at the place the trees bind it to. -/
theorem resolveName_eq (h : Stores a b) (hops : ∀ s ∈ operands, s ∈ b.relations)
    (building name : String) :
    a.resolveName building name (operands.map (·.id)) =
      ((Algebra.bindColumn operands building name).mapError .failure).map
        fun i => .derived ((a.inputs operands)[i]?.getD 0) := by
  induction operands with
  | nil => rfl
  | cons s rest ih =>
    have hs := hops s (List.mem_cons_self ..)
    have hrest := ih fun u hu => hops u (List.mem_cons_of_mem _ hu)
    rw [List.map_cons, resolveName, h.find_eq hs, Algebra.bindColumn, findIn?]
    cases hfound : s.find? name with
    | some i =>
      obtain ⟨hi, d, hd⟩ := h.exists_found hs hfound
      have hinput : (a.inputs (s :: rest))[i]? = some d := by
        rw [inputs, List.flatMap_cons, List.getElem?_append_left (by rwa [h.length_order hs]), hd]
      simp only [Option.bind_some, hd, Except.mapError, Except.map, hinput, Option.getD_some]
      rfl
    | none =>
      have hshift : ∀ j, (a.inputs (s :: rest))[s.width + j]? = (a.inputs rest)[j]? := by
        intro j
        rw [inputs, List.flatMap_cons,
          List.getElem?_append_right (by rw [h.length_order hs]; omega), h.length_order hs,
          Nat.add_sub_cancel_left]
        rfl
      rw [Option.bind_none]
      change a.resolveName building name (rest.map (·.id)) = _
      rw [hrest, Algebra.bindColumn]
      cases findIn? rest name with
      | none => rfl
      | some j => simp only [Option.map_some, Except.mapError, Except.map, hshift]

/-- An expression is bound as over the trees. -/
theorem resolve_eq (h : Stores a b) (hops : ∀ s ∈ operands, s ∈ b.relations) (building : String)
    (e : Expr String) :
    a.resolve (operands.map (·.id)) building e =
      ((Algebra.bind operands building e).mapError .failure).map (a.encode operands) :=
  Expr.bindNames_map (fun name => h.resolveName_eq hops building name) e

/-- A bound expression has the name that it has over the tree. -/
theorem nameOf_eq (h : Stores a b) (hop : operand ∈ b.relations) {e : Expr Nat}
    (he : e.All (· < operand.width)) :
    a.nameOf (a.encode [operand] e) = .ok (Algebra.nameOf? operand e) := by
  cases e with
  | column i =>
    obtain ⟨d, c, hd, hc, hderived⟩ := h.exists_derived hop he
    simp only [encode, Expr.map, nameOf, inputs_one, hd, Option.getD_some, column, hderived,
      Algebra.nameOf?, hc]
    rfl
  | literal value => rfl
  | aliased expr label => rfl
  | equal left right => rfl
  | aggregate function argument => rfl

/-! ## Trees -/

/-- The condition of a join reads columns that can be told apart. -/
theorem join_condition_lt (h : Stores a b) {id : Nat} {kind : JoinKind} {condition : Expr Nat}
    (hr : Relation.join id kind left right condition ∈ b.relations) :
    condition.All (· < breadth [left, right]) := by
  obtain ⟨building, x, y, hbound⟩ := h.sound.join_bound hr
  refine (Algebra.all_of_bind hbound).mono ?_
  rintro i ⟨name, hname⟩
  rw [findIn?_two id kind condition] at hname
  rw [breadth_join id kind condition]
  exact h.sound.find?_lt hr hname

/-- A condition over some operands is read back. -/
theorem condition_eq (h : Stores a b) (hops : Pair b operands) {e : Expr Nat}
    (he : e.All (· < breadth operands)) :
    (a.encode operands e).bindNames (a.place (operands.map (·.id))) = .ok e :=
  Expr.bindNames_map_eq (fun _ hi => h.place_eq hops hi) he

theorem outputColumn_eq (h : Stores a b) {id : Nat} {whole : Option Table}
    {shown : List OutputColumn} {c : OutputColumn}
    (hr : Relation.projection id operand whole shown ∈ b.relations)
    (hd : (a.order id)[i]? = some d) (hc : shown[i]? = some c) :
    a.outputColumn [operand.id] d = .ok c := by
  have hi : i < shown.length := (List.getElem?_eq_some_iff.1 hc).1
  obtain ⟨d', c', hd', hc', hderived⟩ := h.exists_derived hr hi
  change (a.order id)[i]? = some d' at hd'
  change shown[i]? = some c' at hc'
  obtain rfl : d = d' := Option.some.inj (hd.symm.trans hd')
  obtain rfl : c = c' := Option.some.inj (hc.symm.trans hc')
  have hsource := h.condition_eq (h.pair hr rfl) (h.source_lt hr rfl (List.mem_of_getElem? hc))
  rw [outputColumn, column, hderived]
  change Except.bind ((a.encode [operand] c.source).bindNames (a.place [operand.id])) _ = _
  change (a.encode [operand] c.source).bindNames (a.place [operand.id]) = _ at hsource
  rw [hsource]
  rfl

/-- A relation is read back as the tree that was stored. -/
theorem relation_eq (h : Stores a b) (hr : r ∈ b.relations) : a.relation r.id = .ok r := by
  induction r with
  | table t =>
    obtain ⟨memo, hnode, -⟩ := h.keeps _ hr
    change a.nodes[t.id]? = some ⟨.table t, memo⟩ at hnode
    change a.relation t.id = _
    rw [relation, hnode]
  | selection id operand condition ih =>
    obtain ⟨hop, hlt⟩ := h.sound.selection_operand hr
    obtain ⟨memo, hnode, -⟩ := h.keeps _ hr
    change a.nodes[id]? = some ⟨.selection operand.id (a.encode [operand] condition), memo⟩ at hnode
    change a.relation id = _
    have hcondition := h.condition_eq (.one hop) (e := condition)
      (by rw [breadth_one]; exact h.sound.selection_condition hr)
    rw [List.map_singleton] at hcondition
    rw [relation, hnode]
    simp only [if_pos hlt, ih hop, hcondition]
    rfl
  | projection id operand whole shown ih =>
    obtain ⟨hop, hlt⟩ := h.sound.projection_operand hr
    obtain ⟨memo, hnode, -⟩ := h.keeps _ hr
    have horder := order_eq hnode
    change a.nodes[id]? = some ⟨.projection operand.id (whole.map (·.id)) _, memo⟩ at hnode
    change a.order id = memo.order at horder
    change a.relation id = _
    have hwhole : (whole.map (·.id)).mapM a.table = .ok whole := by
      cases whole with
      | none => rfl
      | some t =>
        have ht := h.sound.table_mem_of_tableNamed? hop (h.sound.whole_built hr).1
        rw [Option.map_some, Option.mapM_some, h.table_eq ht]
        rfl
    have hshown : memo.order.mapM (a.outputColumn [operand.id]) = .ok shown := by
      refine mapM_ok ?_ fun i d c hd hc => h.outputColumn_eq hr (horder ▸ hd) hc
      exact horder ▸ h.length_order hr
    rw [relation, hnode]
    simp only [if_pos hlt, ih hop, hwhole, hshown]
    rfl
  | join id kind left right condition ihl ihr =>
    obtain ⟨hl, hllt⟩ := h.sound.join_left hr
    obtain ⟨hrt, hrlt⟩ := h.sound.join_right hr
    obtain ⟨memo, hnode, -⟩ := h.keeps _ hr
    change a.nodes[id]? = some ⟨.join kind left.id right.id (a.encode [left, right] condition),
      memo⟩ at hnode
    change a.relation id = _
    have hcondition := h.condition_eq (.two hl hrt) (h.join_condition_lt hr)
    change (a.encode [left, right] condition).bindNames (a.place [left.id, right.id]) = _
      at hcondition
    rw [relation, hnode]
    simp only [if_pos (And.intro hllt hrlt), ihl hl, ihr hrt, hcondition]
    rfl

/-- All relations are read back. -/
theorem algebra_eq (h : Stores a b) : a.algebra = .ok b := by
  have hrelations : (List.range a.nodes.length).mapM a.relation = .ok b.relations := by
    refine mapM_ok (by rw [List.length_range, h.length]; rfl) fun i d r hd hr => ?_
    obtain ⟨hlt, rfl⟩ := List.getElem?_eq_some_iff.1 hd
    rw [List.getElem_range, ← h.sound.id_eq hr]
    exact h.relation_eq (List.mem_of_getElem? hr)
  rw [algebra, hrelations]
  rfl

end Stores

end Arena

end RelationalAlgebra
