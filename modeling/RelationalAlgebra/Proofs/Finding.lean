import RelationalAlgebra.Proofs.Invariants
import RelationalAlgebra.Proofs.Lineage
import RelationalAlgebra.Proofs.Shapes

/-!
# What a name finds

A name is passed down to the operands and what it finds there is mapped back, layer by layer; nowhere is
the list of the columns searched for it.  This file says what comes of it, first for trees and then for
arenas.

* A plain name stands for the first column of the name (`find?_plain`).  Through selections and joins
  that is the first column of the name of the leftmost leaf that has one (`map_leafColumn_find?`); a leaf
  is a table or a projection, and a projection has no names but its own.
* A qualified name stands for a column that reads the declared column of the name
  (`Relation.find?_declared`).  If no table stands twice in the tree, each column that reads a declared
  column is found by the qualified name of it (`find?_of_declared`), since no other leaf can answer.

In an arena the column that is read is found by following ancestors (`Arena.LeadsTo`), which leads where
the tree does (`Arena.Stores.leadsTo_iff`).  The main statements are `Arena.find_plain_name` and
`Arena.find_qualified_name`.
-/

namespace RelationalAlgebra

open QualifiedName

namespace Relation

variable {a : Algebra} {r left right : Relation} {name t c : String} {i : Nat}

/-! ## Plain names -/

theorem columnNames_join {id : Nat} {kind : JoinKind} {condition : Expr Nat}
    (h : left.id ≠ right.id) :
    (Relation.join id kind left right condition).columnNames =
      left.columnNames ++ right.columnNames := by
  rw [columnNames, columns, map_name_passThrough, joined, if_neg h, List.map_append]
  rfl

theorem columnNames_join_self {id : Nat} {kind : JoinKind} {condition : Expr Nat}
    (h : left.id = right.id) :
    (Relation.join id kind left right condition).columnNames = left.columnNames := by
  rw [columnNames, columns, map_name_passThrough, joined, if_pos h]
  rfl

/-- A plain name stands for the first column that has it. -/
theorem find?_plain (ha : a.Sound) (hr : r ∈ a.relations) (hname : isQualified name = false) :
    r.find? name = r.columnNames.findIdx? (· == name) := by
  induction r with
  | table t =>
    rw [find?, Table.position?, Table.ownName?_of_plain hname, columnNames_table,
      List.findIdx?_map]
    rfl
  | selection id operand condition ih =>
    rw [columnNames_selection]
    exact ih (ha.selection_operand hr).1
  | projection id operand whole shown ih =>
    rw [find?, if_neg (by simp [hname]), columnNames, List.findIdx?_map]
    rfl
  | join id kind left right condition ihl ihr =>
    have hleft := ihl (ha.join_left hr).1
    have hright := ihr (ha.join_right hr).1
    have hwidth : left.columnNames.length = left.width := List.length_map ..
    by_cases hid : left.id = right.id
    · -- the one operand answers again with what it did not find
      obtain rfl := ha.join_self hr hid
      rw [columnNames_join_self hid, ← hleft, find?]
      cases hfound : left.find? name with
      | some i => rfl
      | none => rfl
    · rw [columnNames_join hid, List.findIdx?_append, ← hleft, ← hright, hwidth, find?]
      cases hfound : left.find? name with
      | some i => rfl
      | none =>
        rw [Option.none_or]
        exact Option.map_congr fun i _ => Nat.add_comm _ _

/-- The column of a leaf that a column shows through selections and joins. -/
def leafColumn : Relation → Nat → Reference
  | .table t, i => ⟨.table t, i⟩
  | .selection _ operand _, i => operand.leafColumn i
  | .projection id operand whole shown, i => ⟨.projection id operand whole shown, i⟩
  | .join _ _ left right _, i =>
    if i < left.width then left.leafColumn i else right.leafColumn (i - left.width)

/-- The leftmost leaf that has a plain name answers for the relation, with its first column of the
name. -/
theorem map_leafColumn_find? (ha : a.Sound) (hr : r ∈ a.relations)
    (hname : isQualified name = false) :
    (r.find? name).map r.leafColumn = r.leaves.findSome? fun leaf =>
      (leaf.columnNames.findIdx? (· == name)).map (⟨leaf, ·⟩) := by
  induction r with
  | table t =>
    rw [leaves, List.findSome?_singleton, ← find?_plain ha hr hname]
    rfl
  | selection id operand condition ih => exact ih (ha.selection_operand hr).1
  | projection id operand whole shown ih =>
    rw [leaves, List.findSome?_singleton, ← find?_plain ha hr hname]
    rfl
  | join id kind left right condition ihl ihr =>
    have hleft := (ha.join_left hr).1
    rw [leaves, List.findSome?_append, ← ihl hleft, ← ihr (ha.join_right hr).1, find?]
    cases hfound : left.find? name with
    | some i =>
      rw [Option.map_some, Option.map_some, Option.some_or, leafColumn,
        if_pos (ha.find?_lt hleft hfound)]
    | none =>
      rw [Option.map_none, Option.none_or, Option.map_map]
      refine Option.map_congr fun i _ => ?_
      rw [Function.comp, leafColumn, if_neg (Nat.not_lt.2 (Nat.le_add_right _ _)),
        Nat.add_sub_cancel_left]

/-! ## Qualified names -/

/-- The base tables at the bottom of a relation, from left to right. -/
def bases : Relation → List Table
  | .table t => [t]
  | .selection _ operand _ => operand.bases
  | .projection _ operand _ _ => operand.bases
  | .join _ _ left right _ => left.bases ++ right.bases

theorem mem_of_mem_bases (ha : a.Sound) (hr : r ∈ a.relations) {u : Table} (hu : u ∈ r.bases) :
    Relation.table u ∈ a.relations := by
  induction r with
  | table t =>
    obtain rfl := List.mem_singleton.1 hu
    exact hr
  | selection id operand condition ih => exact ih (ha.selection_operand hr).1 hu
  | projection id operand whole shown ih => exact ih (ha.projection_operand hr).1 hu
  | join id kind left right condition ihl ihr =>
    rcases List.mem_append.1 hu with hu | hu
    · exact ihl (ha.join_left hr).1 hu
    · exact ihr (ha.join_right hr).1 hu

/-- A declared column that is read is one of a table at the bottom. -/
theorem mem_bases_of_physical? {p : Physical} (h : r.physical? i = some p) : p.table ∈ r.bases := by
  induction r generalizing i with
  | table t =>
    rw [physical?] at h
    split at h
    · cases h
      exact List.mem_singleton_self _
    · cases h
  | selection id operand condition ih => exact ih h
  | projection id operand whole shown ih =>
    rw [physical?] at h
    split at h
    · exact ih h
    · cases h
  | join id kind left right condition ihl ihr =>
    rw [physical?] at h
    split at h
    · exact List.mem_append_left _ (ihl h)
    · exact List.mem_append_right _ (ihr h)

theorem exists_base_of_declared? (h : r.declared? i = some (t, c)) : ∃ u ∈ r.bases, u.name = t := by
  obtain ⟨p, hp, h⟩ := Option.bind_eq_some_iff.1 h
  obtain ⟨column, -, h⟩ := Option.map_eq_some_iff.1 h
  exact ⟨p.table, mem_bases_of_physical? hp, congrArg Prod.fst h⟩

/-- What the right operand of a join reads of a table that stands once, the left one cannot answer
for. -/
theorem find?_left_eq_none (ha : a.Sound) (hleft : left ∈ a.relations) (hright : right ∈ a.relations)
    (honce : left.bases.Disjoint right.bases) (hsplit : split name = some (t, c))
    (h : right.declared? i = some (t, c)) : left.find? name = none := by
  cases hfound : left.find? name with
  | none => rfl
  | some j =>
    obtain ⟨u, hu, hut⟩ := exists_base_of_declared? (find?_declared ha hleft hsplit hfound)
    obtain ⟨v, hv, hvt⟩ := exists_base_of_declared? h
    obtain rfl := ha.table_eq_of_name_eq (mem_of_mem_bases ha hleft hu)
      (mem_of_mem_bases ha hright hv) (hut.trans hvt.symm)
    exact (honce hu hv).elim

/-- If no table stands twice in the tree, a column that reads a declared column is found by the
qualified name of it. -/
theorem find?_of_declared (ha : a.Sound) (hr : r ∈ a.relations) (honce : r.bases.Nodup)
    (hsplit : split (qualify t c) = some (t, c)) (h : r.declared? i = some (t, c)) :
    r.find? (qualify t c) = some i := by
  induction r generalizing i with
  | table u =>
    rw [declared?_table] at h
    obtain ⟨column, hcolumn, h⟩ := Option.map_eq_some_iff.1 h
    cases h
    exact (Table.position?_eq_some_iff (ha.table_columns_nodup hr) hcolumn).2
      ((Table.ownName?_of_split hsplit).2 ⟨rfl, rfl⟩)
  | selection id operand condition ih => exact ih (ha.selection_operand hr).1 honce h
  | projection id operand whole shown ih =>
    obtain ⟨p, hp, hnames⟩ := Option.bind_eq_some_iff.1 h
    rw [physical?] at hp
    split at hp
    · next cname clabel j hshown =>
      rw [declared?_projection hshown rfl] at h
      have hplace := showing?_source (ha.projection_shown hr).sources_nodup hshown
      rw [find?, if_pos (isQualified_of_split hsplit), ih (ha.projection_operand hr).1 honce h]
      exact hplace
    · cases hp
  | join id kind left right condition ihl ihr =>
    have hleft := (ha.join_left hr).1
    have hright := (ha.join_right hr).1
    obtain ⟨hnodupl, hnodupr, hdisjoint⟩ := List.nodup_append'.1 honce
    rw [find?]
    by_cases hi : i < left.width
    · rw [declared?_join_left hi] at h
      rw [ihl hleft hnodupl h]
    · obtain ⟨j, rfl⟩ := Nat.exists_eq_add_of_le (Nat.not_lt.1 hi)
      rw [declared?_join_right] at h
      rw [find?_left_eq_none ha hleft hright hdisjoint hsplit h, ihr hright hnodupr h]
      rfl

end Relation

namespace Arena

open RelationalAlgebra.Relation

variable {a : Arena} {b : Algebra} {r : Relation} {n i d : Nat} {name t c : String}

/-! ## Columns by handle -/

/-- Whether the column of a handle has the name. -/
def isNamed (a : Arena) (name : String) (d : Nat) : Bool := (a.derived[d]?).any (·.name == name)

/-- The first name of the columns is the name of the first column. -/
theorem Stores.bind_columnNames (h : Stores a b) (hr : r ∈ b.relations) (name : String) :
    (r.columnNames.findIdx? (· == name)).bind ((a.order r.id)[·]?) =
      (a.order r.id).find? (a.isNamed name) := by
  obtain ⟨memo, hnode, hholds⟩ := h.keeps r hr
  have hnames := congrArg (List.findIdx? (· == some name)) hholds.names_eq
  have hhandles : (memo.order.map fun d => (a.derived[d]?).map (·.name)).findIdx?
      (· == some name) = memo.order.findIdx? (a.isNamed name) := by
    rw [List.findIdx?_map]
    refine congrArg (List.findIdx? · memo.order) (funext fun d => ?_)
    rw [Function.comp, isNamed]
    cases a.derived[d]? <;> simp
  have hcolumns : (r.columns.map fun c => some c.name).findIdx? (· == some name) =
      r.columnNames.findIdx? (· == name) := by
    rw [Relation.columnNames, List.findIdx?_map, List.findIdx?_map]
    exact congrArg (List.findIdx? · r.columns) (funext fun c => by simp)
  rw [order_eq hnode, List.find?_eq_bind_findIdx?_getElem?, ← hcolumns, ← hnames, hhandles]

/-- A column is, or passes on through its ancestors, the declared column `c` of the table `t`. -/
inductive LeadsTo (a : Arena) : ColumnHandle → String → String → Prop
  | declared {owner place : Nat} {u : Table} {column : Column} (table : a.table owner = .ok u)
      (listed : u.columns[place]? = some column) : LeadsTo a (.declared owner place) u.name column.name
  | derived {d : Nat} {column : Derived} {handle : ColumnHandle} {t c : String}
      (stored : a.derived[d]? = some column) (ancestor : column.ancestor = .column handle)
      (rest : LeadsTo a handle t c) : LeadsTo a (.derived d) t c

theorem leadsTo_declared_iff {u : Table} (h : a.table u.id = .ok u) :
    a.LeadsTo (.declared u.id i) t c ↔ (Relation.table u).declared? i = some (t, c) := by
  rw [declared?_table, Option.map_eq_some_iff]
  constructor
  · rintro (⟨htable, hcolumn⟩ | _)
    obtain rfl := Except.ok.inj (h.symm.trans htable)
    exact ⟨_, hcolumn, rfl⟩
  · rintro ⟨column, hcolumn, heq⟩
    cases heq
    exact .declared h hcolumn

theorem leadsTo_derived_iff {column : Derived} (h : a.derived[d]? = some column) :
    a.LeadsTo (.derived d) t c ↔
      ∃ handle, column.ancestor = .column handle ∧ a.LeadsTo handle t c := by
  constructor
  · rintro (_ | ⟨hstored, hancestor, hrest⟩)
    obtain rfl := Option.some.inj (h.symm.trans hstored)
    exact ⟨_, hancestor, hrest⟩
  · rintro ⟨handle, hancestor, hrest⟩
    exact .derived h hancestor hrest

theorem leadsTo_column_iff {column : Derived} {handle : ColumnHandle}
    (h : a.derived[d]? = some column) (hancestor : column.ancestor = .column handle) :
    a.LeadsTo (.derived d) t c ↔ a.LeadsTo handle t c := by
  rw [leadsTo_derived_iff h, hancestor]
  exact ⟨fun ⟨_, heq, hrest⟩ => Expr.column.inj heq ▸ hrest, fun hrest => ⟨_, rfl, hrest⟩⟩

theorem encode_column {operands : List Relation} (h : (a.inputs operands)[i]? = some d) :
    a.encode operands (.column i) = .column (.derived d) := by
  rw [encode, Expr.map, h, Option.getD_some]

namespace Stores

/-- A column that is passed on leads where the column of the operands does. -/
theorem leadsTo_passThrough (h : Stores a b) (hr : r ∈ b.relations) (hnot : r.table? = none)
    (hcolumns : r.columns = passThrough (beside r.operands)) (hd : (a.order r.id)[i]? = some d) :
    ∃ d', (a.inputs r.operands)[i]? = some d' ∧
      ∀ t c, a.LeadsTo (.derived d) t c ↔ a.LeadsTo (.derived d') t c := by
  obtain ⟨memo, hnode, hholds⟩ := h.keeps r hr
  rw [order_eq hnode] at hd
  obtain ⟨column, hcolumn, hderived⟩ := hholds.exists_shown hd
  rw [hcolumns, passThrough, List.getElem?_mapIdx] at hcolumn
  obtain ⟨shown, hshown, rfl⟩ := Option.map_eq_some_iff.1 hcolumn
  obtain ⟨d', hd'⟩ := h.exists_input (h.pair hr hnot) (List.getElem?_eq_some_iff.1 hshown).1
  refine ⟨d', hd', fun t c => leadsTo_column_iff hderived ?_⟩
  cases r with
  | table t => cases hnot
  | _ => exact encode_column hd'

/-- Following ancestors finds the declared column that a tree reads at the place of the column. -/
theorem leadsTo_iff (h : Stores a b) (hr : r ∈ b.relations) (hd : (a.order r.id)[i]? = some d) :
    a.LeadsTo (.derived d) t c ↔ r.declared? i = some (t, c) := by
  induction r generalizing i d with
  | table u =>
    obtain ⟨memo, hnode, hholds⟩ := h.keeps _ hr
    rw [order_eq hnode] at hd
    obtain ⟨column, hcolumn, hderived⟩ := hholds.exists_shown hd
    rw [Relation.columns, List.getElem?_mapIdx] at hcolumn
    obtain ⟨_, -, rfl⟩ := Option.map_eq_some_iff.1 hcolumn
    rw [leadsTo_column_iff hderived rfl, leadsTo_declared_iff (h.table_eq hr)]
  | selection id operand condition ih =>
    obtain ⟨d', hd', hiff⟩ := h.leadsTo_passThrough hr rfl (congrArg _ beside_one.symm) hd
    exact (hiff t c).trans (ih (h.sound.selection_operand hr).1 (inputs_one (a := a) ▸ hd'))
  | projection id operand whole shown ih =>
    obtain ⟨memo, hnode, hholds⟩ := h.keeps _ hr
    rw [order_eq hnode] at hd
    obtain ⟨column, hcolumn, hderived⟩ := hholds.exists_shown hd
    have hsource := h.source_lt hr rfl (List.mem_of_getElem? hcolumn)
    have hcolumn : shown[i]? = some column := hcolumn
    obtain ⟨name, label, source⟩ := column
    cases source with
    | column j =>
      have hoperand := (h.sound.projection_operand hr).1
      obtain ⟨d', hd'⟩ := h.exists_input (.one hoperand) hsource
      rw [declared?_projection hcolumn rfl, ← ih hoperand (inputs_one (a := a) ▸ hd')]
      exact leadsTo_column_iff hderived (encode_column hd')
    | _ =>
      -- what is made of columns is none of them, so the ancestors end here
      have hnone : (Relation.projection id operand whole shown).physical? i = none := by
        rw [physical?, hcolumn]
      rw [leadsTo_derived_iff hderived, declared?, hnone]
      refine iff_of_false ?_ ?_
      · rintro ⟨handle, heq, -⟩
        cases heq
      · intro heq
        cases heq
  | join id kind left right condition ihl ihr =>
    obtain ⟨hleft, hright⟩ : left ∈ b.relations ∧ right ∈ b.relations :=
      ⟨(h.sound.join_left hr).1, (h.sound.join_right hr).1⟩
    obtain ⟨d', hd', hiff⟩ := h.leadsTo_passThrough hr rfl rfl hd
    have hlength := h.length_order hleft
    rw [operands, inputs_two] at hd'
    rw [hiff]
    by_cases hi : i < left.width
    · rw [List.getElem?_append_left (hlength ▸ hi)] at hd'
      rw [declared?_join_left hi, ihl hleft hd']
    · obtain ⟨j, rfl⟩ := Nat.exists_eq_add_of_le (Nat.not_lt.1 hi)
      rw [← hlength, List.getElem?_append_right (Nat.le_add_right _ _), Nat.add_sub_cancel_left] at hd'
      rw [declared?_join_right, ihr hright hd']

end Stores

/-- What is known of a relation that was built: its tree, its columns, and what a name finds. -/
theorem Reached.exists_stored (h : Reached a) (hn : n < a.nodes.length) :
    ∃ b r, Stores a b ∧ r ∈ b.relations ∧ a.relation n = .ok r ∧ a.columns n = .ok (a.order r.id) ∧
      ∀ name, a.find n name = .ok ((r.find? name).bind ((a.order r.id)[·]?)) := by
  obtain ⟨b, -, hstores⟩ := h.sound
  obtain ⟨r, hr, rfl⟩ := hstores.exists_mem hn
  exact ⟨b, r, hstores, hr, hstores.relation_eq hr, hstores.columns_eq hr, hstores.find_eq hr⟩

/-! ## The main statements -/

/-- A plain name stands for the first column of a relation that has it, and for none exactly if no
column has it.  That column shows, through whatever selections and joins there are, the first column of
the name of the leftmost leaf that has one, where a leaf is a table or a projection. -/
theorem find_plain_name (h : Reached a) (hn : n < a.nodes.length)
    (hname : isQualified name = false) :
    ∃ r columns, a.relation n = .ok r ∧ a.columns n = .ok columns ∧
      a.find n name = .ok (columns.find? (a.isNamed name)) ∧
      (a.find n name = .ok none ↔ ∀ d ∈ columns, ¬ a.isNamed name d) ∧
      a.find n name = .ok ((r.find? name).bind (columns[·]?)) ∧
      (r.find? name).map r.leafColumn = r.leaves.findSome? fun leaf =>
        (leaf.columnNames.findIdx? (· == name)).map (⟨leaf, ·⟩) := by
  obtain ⟨b, r, hstores, hr, hrelation, hcolumns, hfind⟩ := h.exists_stored hn
  have hfirst : a.find n name = .ok ((a.order r.id).find? (a.isNamed name)) := by
    rw [hfind, find?_plain hstores.sound hr hname, hstores.bind_columnNames hr]
  refine ⟨r, a.order r.id, hrelation, hcolumns, hfirst, ?_, hfind name,
    map_leafColumn_find? hstores.sound hr hname⟩
  rw [hfirst, Except.ok.injEq, List.find?_eq_none]

/-- Two tables beside each other, of which one column is passed on under another name, and a selection of
that. -/
def renamed : Arena :=
  let builds : List (Construction Nat) :=
    [.createTable "t" [("a", .integer), ("b", .string)],
      .createTable "u" [("a", .integer), ("c", .integer)],
      .join .inner 0 1 (.expr (.equal (.column "t__a") (.column "c"))),
      .project 2 [.expr (.aliased (.column "u__a") "x"), .name "b"],
      .select 3 (.expr (.equal (.column "x") (.literal (.integer 1))))]
  builds.foldl (fun a k => (k.run.on a).2) .empty

theorem renamed_reached : Reached renamed := by
  refine .build _ (.build _ (.build _ (.build _ (.build _ .empty ?_) ?_) ?_) ?_) ?_
  all_goals decide_cbv

/-- Beside each other the first table shadows the second, and behind the projection neither is seen. -/
theorem find_plain_name_renamed :
    renamed.find 2 "a" = .ok (some 4) ∧ renamed.find 4 "a" = .ok none ∧
      (∃ columns, renamed.columns 2 = .ok columns ∧
        renamed.find 2 "a" = .ok (columns.find? (renamed.isNamed "a"))) ∧
      ∃ columns, renamed.columns 4 = .ok columns ∧ ∀ d ∈ columns, ¬ renamed.isNamed "a" d := by
  have hplain : isQualified "a" = false := by decide_cbv
  have hjoin : renamed.find 2 "a" = .ok (some 4) := by cbv
  have hselection : renamed.find 4 "a" = .ok none := by cbv
  obtain ⟨-, columns, -, hcolumns, hfirst, -⟩ :=
    find_plain_name (n := 2) renamed_reached (by decide_cbv) hplain
  obtain ⟨-, columns', -, hcolumns', -, hnone, -⟩ :=
    find_plain_name (n := 4) renamed_reached (by decide_cbv) hplain
  exact ⟨hjoin, hselection, ⟨columns, hcolumns, hfirst⟩, columns', hcolumns', hnone.1 hselection⟩

/-- A qualified name stands for a column of the relation that leads to the declared column of the name.
If no table stands twice at the bottom of the relation, each of its columns that leads to a declared
column is what the qualified name of that column stands for, as long as the name can be taken apart
again. -/
theorem find_qualified_name (h : Reached a) (hn : n < a.nodes.length) :
    ∃ r columns, a.relation n = .ok r ∧ a.columns n = .ok columns ∧
      (∀ name t c d, split name = some (t, c) → a.find n name = .ok (some d) →
        d ∈ columns ∧ a.LeadsTo (.derived d) t c) ∧
      (r.bases.Nodup → ∀ d ∈ columns, ∀ t c, a.LeadsTo (.derived d) t c →
        split (qualify t c) = some (t, c) → a.find n (qualify t c) = .ok (some d)) := by
  obtain ⟨b, r, hstores, hr, hrelation, hcolumns, hfind⟩ := h.exists_stored hn
  refine ⟨r, a.order r.id, hrelation, hcolumns, fun name t c d hsplit hfound => ?_,
    fun honce d hd t c hleads hsplit => ?_⟩
  · rw [hfind, Except.ok.injEq] at hfound
    obtain ⟨i, hi, hd⟩ := Option.bind_eq_some_iff.1 hfound
    exact ⟨List.mem_of_getElem? hd,
      (hstores.leadsTo_iff hr hd).2 (find?_declared hstores.sound hr hsplit hi)⟩
  · obtain ⟨i, hi⟩ := List.getElem?_of_mem hd
    have hdeclared := (hstores.leadsTo_iff hr hi).1 hleads
    rw [hfind, find?_of_declared hstores.sound hr honce hsplit hdeclared, Option.bind_some, hi]

/-- The column `a` of the table `u` is found under its qualified name through the projection that renames
it. -/
theorem find_qualified_name_renamed :
    ∃ r columns, renamed.relation 4 = .ok r ∧ renamed.columns 4 = .ok columns ∧ r.bases.Nodup ∧
      10 ∈ columns ∧ renamed.LeadsTo (.derived 10) "u" "a" ∧
      renamed.find 4 (qualify "u" "a") = .ok (some 10) := by
  have hn : 4 < renamed.nodes.length := by decide_cbv
  obtain ⟨r, columns, hrelation, hcolumns, hsound, hcomplete⟩ := find_qualified_name renamed_reached hn
  have hsplit : split "u__a" = some ("u", "a") := by cbv
  obtain ⟨hmem, hleads⟩ := hsound "u__a" "u" "a" 10 hsplit (by cbv)
  have hnames : (renamed.relation 4).map (·.bases.map (·.name)) = .ok ["t", "u"] := by cbv
  rw [hrelation] at hnames
  have honce : r.bases.Nodup := by
    have hmap : r.bases.map (·.name) = ["t", "u"] := Except.ok.inj hnames
    refine .of_map (·.name) ?_
    rw [hmap]
    decide
  exact ⟨r, columns, hrelation, hcolumns, honce, hmem, hleads,
    hcomplete honce 10 hmem "u" "a" hleads hsplit⟩

end Arena

end RelationalAlgebra
