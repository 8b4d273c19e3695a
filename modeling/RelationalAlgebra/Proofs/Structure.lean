import RelationalAlgebra.Proofs.Building

/-!
# The shape of the relations of an algebra

What holds of every relation of a sound algebra, whatever was asked for to build it.

* **Identity.**  A relation is found in the algebra under its identity (`Sound.eq_of_id_eq`), and
  its operands are relations of the algebra with smaller identities (`Sound.operand`).
* **Tables.**  Table names differ (`Sound.table_eq_of_name_eq`), and so do the names of a table's
  columns (`Sound.table_columns_nodup`).
* **Places.**  A name stands for a place among the columns (`Sound.find?_lt`), so every expression
  reads columns that are there (`Sound.selection_condition`, `Sound.join_condition`,
  `Sound.projection_shown`).
-/

namespace RelationalAlgebra

open QualifiedName RelationalAlgebra.Relation

/-! ## Expressions and their column references -/

namespace Expr

variable {α β ε : Type}

/-- Every column reference has the property. -/
def All (P : α → Prop) : Expr α → Prop
  | .column reference => P reference
  | .literal _ => True
  | .aliased expr _ => expr.All P
  | .equal left right => left.All P ∧ right.All P
  | .aggregate _ argument => argument.All P

theorem All.mono {P Q : α → Prop} {e : Expr α} (h : e.All P) (hPQ : ∀ c, P c → Q c) : e.All Q := by
  induction e with
  | column reference => exact hPQ _ h
  | literal value => trivial
  | aliased expr label ih => exact ih h
  | equal left right ihl ihr => exact ⟨ihl h.1, ihr h.2⟩
  | aggregate function argument ih => exact ih h

/-- Every reference of a bound expression is what some name was bound to. -/
theorem all_of_bindNames {bind : α → Except ε β} {e : Expr α} {bound : Expr β}
    (h : e.bindNames bind = .ok bound) : bound.All fun b => ∃ name, bind name = .ok b := by
  induction e generalizing bound with
  | column reference =>
    obtain ⟨b, hb, rfl⟩ := map_ok_iff.1 h
    exact ⟨reference, hb⟩
  | literal value => cases h; trivial
  | aliased expr label ih =>
    obtain ⟨b, hb, rfl⟩ := map_ok_iff.1 h
    have hall := ih hb
    exact hall
  | equal left right ihl ihr =>
    obtain ⟨l, hl, h⟩ := bind_ok_iff.1 h
    obtain ⟨r, hr, h⟩ := bind_ok_iff.1 h
    cases h
    exact ⟨ihl hl, ihr hr⟩
  | aggregate function argument ih =>
    obtain ⟨b, hb, rfl⟩ := map_ok_iff.1 h
    have hall := ih hb
    exact hall

/-- What goes wrong when names are bound goes wrong for some name. -/
theorem exists_of_bindNames_error {bind : α → Except ε β} {e : Expr α} {fault : ε}
    (h : e.bindNames bind = .error fault) : ∃ name, bind name = .error fault := by
  induction e with
  | column reference => exact ⟨reference, map_error_iff.1 h⟩
  | literal value => cases h
  | aliased expr label ih => exact ih (map_error_iff.1 h)
  | equal left right ihl ihr =>
    rcases bind_error_iff.1 h with h | ⟨l, -, h⟩
    · exact ihl h
    · rcases bind_error_iff.1 h with h | ⟨r, -, h⟩
      · exact ihr h
      · cases h
  | aggregate function argument ih => exact ih (map_error_iff.1 h)

/-- Without its outermost alias an expression reads the same columns. -/
theorem All.stripAlias {P : α → Prop} {e : Expr α} (h : e.All P) : e.stripAlias.1.All P := by
  cases e <;> exact h

end Expr

/-! ## Widths -/

namespace Relation

theorem length_passThrough (columns : List OutputColumn) :
    (passThrough columns).length = columns.length := by
  simp [passThrough]

theorem width_table (t : Table) : (Relation.table t).width = t.columns.length := by
  simp [width, columns]

theorem width_selection (id : Nat) (operand : Relation) (condition : Expr Nat) :
    (Relation.selection id operand condition).width = operand.width := by
  simp [width, columns, length_passThrough]

theorem width_projection (id : Nat) (operand : Relation) (whole : Option Table)
    (shown : List OutputColumn) :
    (Relation.projection id operand whole shown).width = shown.length := rfl

theorem width_join {id : Nat} {kind : JoinKind} {left right : Relation} {condition : Expr Nat}
    (h : left.id ≠ right.id) :
    (Relation.join id kind left right condition).width = left.width + right.width := by
  simp [width, columns, length_passThrough, joined, h]

theorem width_join_self {id : Nat} {kind : JoinKind} {left right : Relation}
    {condition : Expr Nat} (h : left.id = right.id) :
    (Relation.join id kind left right condition).width = left.width := by
  simp [width, columns, length_passThrough, joined, h]

/-- A join shows no fewer columns than its left operand. -/
theorem width_left_le (id : Nat) (kind : JoinKind) (left right : Relation)
    (condition : Expr Nat) : left.width ≤ (Relation.join id kind left right condition).width := by
  by_cases h : left.id = right.id
  · exact Nat.le_of_eq (width_join_self h).symm
  · rw [width_join h]
    exact Nat.le_add_right _ _

/-! ## What names find -/

section

variable {id i : Nat} {operand left right : Relation} {condition : Expr Nat} {kind : JoinKind}
  {whole : Option Table} {shown : List OutputColumn} {name : String} {t : Table}

/-- What a name finds in a table is the column whose own name it is, without the qualifier. -/
theorem find?_table_some (h : (Relation.table t).find? name = some i) :
    ∃ own c, t.ownName? name = some own ∧ t.columns.findIdx? (·.name == own) = some i ∧
      t.columns[i]? = some c ∧ c.name = own := by
  obtain ⟨own, hown, hfound⟩ := Option.bind_eq_some_iff.1 h
  obtain ⟨hlt, hname, -⟩ := List.findIdx?_eq_some_iff_getElem.1 hfound
  exact ⟨own, _, hown, hfound, List.getElem?_eq_getElem hlt, beq_iff_eq.1 hname⟩

/-- What a qualified name finds in a projection shows what it finds in the operand, and what a
plain name finds has that name. -/
theorem find?_projection_some
    (h : (Relation.projection id operand whole shown).find? name = some i) :
    ∃ c, shown[i]? = some c ∧
      ((isQualified name = true ∧ ∃ j, operand.find? name = some j ∧ c.source = .column j) ∨
        isQualified name = false ∧ c.name = name) := by
  rw [find?] at h
  split at h
  · next hname =>
    split at h
    · next j hj =>
      obtain ⟨hlt, hsource, -⟩ := List.findIdx?_eq_some_iff_getElem.1 h
      exact ⟨_, List.getElem?_eq_getElem hlt, .inl ⟨hname, j, hj, beq_iff_eq.1 hsource⟩⟩
    · cases h
  · next hname =>
    obtain ⟨hlt, hshown, -⟩ := List.findIdx?_eq_some_iff_getElem.1 h
    exact ⟨_, List.getElem?_eq_getElem hlt, .inr ⟨by simpa using hname, beq_iff_eq.1 hshown⟩⟩

/-- A name finds a column of the left operand of a join, or one of the right operand if the left
one does not have the name. -/
theorem find?_join_some (h : (Relation.join id kind left right condition).find? name = some i) :
    left.find? name = some i ∨
      left.find? name = none ∧ ∃ j, right.find? name = some j ∧ i = left.width + j := by
  rw [find?] at h
  split at h
  · next j hj =>
    cases h
    exact .inl hj
  · next hnone =>
    obtain ⟨j, hj, rfl⟩ := Option.map_eq_some_iff.1 h
    exact .inr ⟨hnone, j, hj, rfl⟩

theorem findIn?_one (operand : Relation) (name : String) :
    findIn? [operand] name = operand.find? name := by
  rw [findIn?]
  split
  · next h => exact h.symm
  · next h => exact h.symm

/-- A name stands for one column among those of two operands and those of their join. -/
theorem findIn?_two (id : Nat) (kind : JoinKind) (condition : Expr Nat) (name : String) :
    findIn? [left, right] name = (Relation.join id kind left right condition).find? name := by
  rw [findIn?, findIn?_one, find?]

end

end Relation

/-! ## Identity -/

namespace Algebra

variable {a : Algebra} {r s : Relation}

/-- A relation that is built takes the number of relations for its identity. -/
theorem Built.id_eq (h : Built a r) : r.id = a.size := by
  cases h <;> rfl

/-- A relation stands in the algebra at its identity. -/
theorem Sound.id_eq (ha : a.Sound) {k : Nat} (h : a.relations[k]? = some r) : r.id = k := by
  have hlt : k < a.relations.length := (List.getElem?_eq_some_iff.1 h).1
  rw [(ha k r h).id_eq, size, List.length_take, Nat.min_eq_left (Nat.le_of_lt hlt)]

/-- Every relation was built from relations of smaller identity. -/
theorem Sound.built (ha : a.Sound) (hr : r ∈ a.relations) :
    Built ⟨a.relations.take r.id⟩ r := by
  obtain ⟨k, hk⟩ := List.getElem?_of_mem hr
  rw [ha.id_eq hk]
  exact ha k r hk

/-- Two relations of one identity are the same relation. -/
theorem Sound.eq_of_id_eq (ha : a.Sound) (hr : r ∈ a.relations) (hs : s ∈ a.relations)
    (h : r.id = s.id) : r = s := by
  obtain ⟨j, hj⟩ := List.getElem?_of_mem hr
  obtain ⟨k, hk⟩ := List.getElem?_of_mem hs
  have hjk : j = k := by rw [← ha.id_eq hj, ← ha.id_eq hk, h]
  rw [hjk, hk] at hj
  exact (Option.some.inj hj).symm

theorem Sound.id_lt_size (ha : a.Sound) (hr : r ∈ a.relations) : r.id < a.size := by
  obtain ⟨k, hk⟩ := List.getElem?_of_mem hr
  rw [ha.id_eq hk]
  exact (List.getElem?_eq_some_iff.1 hk).1

theorem Sound.mem_take (ha : a.Sound) {n : Nat} (h : s ∈ a.relations.take n) :
    s ∈ a.relations ∧ s.id < n := by
  obtain ⟨k, hk⟩ := List.getElem?_of_mem h
  have hkn : k < n := by
    have := (List.getElem?_eq_some_iff.1 hk).1
    rw [List.length_take] at this
    omega
  rw [List.getElem?_take_of_lt hkn] at hk
  exact ⟨List.mem_of_mem_take h, by rw [ha.id_eq hk]; exact hkn⟩

/-- The operands of a relation are relations of the algebra, built before it. -/
theorem Sound.operand (ha : a.Sound) (hr : r ∈ a.relations) (hs : s ∈ r.operands) :
    s ∈ a.relations ∧ s.id < r.id := by
  have hbuilt := ha.built hr
  generalize hn : r.id = n at hbuilt
  cases hbuilt with
  | table fresh => cases hs
  | selection operand_mem =>
    obtain rfl := List.mem_singleton.1 hs
    exact ha.mem_take operand_mem
  | whole operand_mem =>
    obtain rfl := List.mem_singleton.1 hs
    exact ha.mem_take operand_mem
  | columns operand_mem =>
    obtain rfl := List.mem_singleton.1 hs
    exact ha.mem_take operand_mem
  | join left_mem right_mem =>
    rcases List.mem_cons.1 hs with rfl | hs
    · exact ha.mem_take left_mem
    · obtain rfl := List.mem_singleton.1 hs
      exact ha.mem_take right_mem

theorem Sound.operand_mem (ha : a.Sound) (hr : r ∈ a.relations) (hs : s ∈ r.operands) :
    s ∈ a.relations := (ha.operand hr hs).1

/-! ### Operands by kind -/

section

variable {id : Nat} {operand left right : Relation} {condition : Expr Nat} {kind : JoinKind}
  {whole : Option Table} {shown : List OutputColumn}

theorem Sound.selection_operand (ha : a.Sound)
    (hr : Relation.selection id operand condition ∈ a.relations) :
    operand ∈ a.relations ∧ operand.id < id :=
  ha.operand hr (List.mem_singleton_self operand)

theorem Sound.projection_operand (ha : a.Sound)
    (hr : Relation.projection id operand whole shown ∈ a.relations) :
    operand ∈ a.relations ∧ operand.id < id :=
  ha.operand hr (List.mem_singleton_self operand)

theorem Sound.join_left (ha : a.Sound)
    (hr : Relation.join id kind left right condition ∈ a.relations) :
    left ∈ a.relations ∧ left.id < id :=
  ha.operand hr (List.mem_cons_self ..)

theorem Sound.join_right (ha : a.Sound)
    (hr : Relation.join id kind left right condition ∈ a.relations) :
    right ∈ a.relations ∧ right.id < id :=
  ha.operand hr (List.mem_cons_of_mem _ (List.mem_singleton_self right))

/-- The right operand of a join is no unit of its left operand. -/
theorem Sound.join_new (ha : a.Sound)
    (hr : Relation.join id kind left right condition ∈ a.relations) :
    ∀ unit ∈ left.joinUnits, unit.id ≠ right.id := by
  have hbuilt := ha.built hr
  generalize (Relation.join id kind left right condition).id = n at hbuilt
  cases hbuilt with
  | join left_mem right_mem new => exact new

/-- How a projection of a whole table was built. -/
theorem Sound.whole_built (ha : a.Sound) {t : Table}
    (hr : Relation.projection id operand (some t) shown ∈ a.relations) :
    operand.tableNamed? t.name = some t ∧
      wholeColumns operand ("projection of " ++ operand.describe) t = .ok shown := by
  have hbuilt := ha.built hr
  generalize (Relation.projection id operand (some t) shown).id = n at hbuilt
  cases hbuilt with
  | whole operand_mem found shown_eq => exact ⟨found, shown_eq⟩

/-- How a projection of columns was built. -/
theorem Sound.columns_built (ha : a.Sound)
    (hr : Relation.projection id operand none shown ∈ a.relations) :
    ∃ args, shownColumns operand ("projection of " ++ operand.describe) args = .ok shown := by
  have hbuilt := ha.built hr
  generalize (Relation.projection id operand none shown).id = n at hbuilt
  cases hbuilt with
  | @columns _ args _ operand_mem args_ne not_whole shown_eq => exact ⟨args, shown_eq⟩

/-- A join of a relation with itself has one operand. -/
theorem Sound.join_self (ha : a.Sound)
    (hr : Relation.join id kind left right condition ∈ a.relations) (h : left.id = right.id) :
    left = right :=
  ha.eq_of_id_eq (ha.join_left hr).1 (ha.join_right hr).1 h

end

/-! ## Tables -/

/-- Keys stay different when an item of another key is added. -/
theorem nodup_map_concat {α β : Type} {key : α → β} {l : List α} {x : α}
    (h : (l.map key).Nodup) (hnew : ∀ y ∈ l, key y ≠ key x) : ((l ++ [x]).map key).Nodup := by
  rw [List.map_append, List.map_singleton, List.nodup_append]
  refine ⟨h, by simp, ?_⟩
  intro k hk k' hk'
  obtain ⟨y, hy, rfl⟩ := List.mem_map.1 hk
  rw [List.mem_singleton.1 hk']
  exact hnew y hy

/-- If the keys are different, an item is the first one with its key. -/
theorem findIdx?_key {α β : Type} [BEq β] [LawfulBEq β] {key : α → β} {l : List α} {i : Nat}
    {x : α} (h : (l.map key).Nodup) (hx : l[i]? = some x) :
    l.findIdx? (key · == key x) = some i := by
  obtain ⟨hlt, rfl⟩ := List.getElem?_eq_some_iff.1 hx
  rw [List.findIdx?_eq_some_iff_getElem]
  refine ⟨hlt, by simp, fun j hj => ?_⟩
  rw [List.Nodup, List.pairwise_map, List.pairwise_iff_getElem] at h
  simpa using h j i (by omega) hlt hj

/-- A column that is declared comes last, unless there is one of its name. -/
theorem declareColumn_names (columns : List Column) (name : String) (type : ColumnType) :
    (declareColumn columns name type).map (·.name) =
      if name ∈ columns.map (·.name) then columns.map (·.name)
      else columns.map (·.name) ++ [name] := by
  have hany : columns.any (·.name == name) ↔ name ∈ columns.map (·.name) := by
    simp [List.any_eq_true]
  rw [declareColumn]
  by_cases hmem : name ∈ columns.map (·.name)
  · rw [if_pos (hany.2 hmem), if_pos hmem, List.map_map]
    refine List.map_congr_left fun c _ => ?_
    rw [Function.comp_apply]
    split <;> rfl
  · rw [if_neg (mt hany.1 hmem), if_neg hmem, List.map_append, List.map_singleton]

/-- A declared column changes no names, or adds one that is new. -/
theorem nodup_declareColumn {columns : List Column} (h : (columns.map (·.name)).Nodup)
    (name : String) (type : ColumnType) :
    ((declareColumn columns name type).map (·.name)).Nodup := by
  rw [declareColumn_names]
  split
  · exact h
  · next hnew =>
    refine List.nodup_append.2 ⟨h, by simp, fun other hother last hlast heq => hnew ?_⟩
    rw [← List.mem_singleton.1 hlast, ← heq]
    exact hother

/-- The names of a declared table's columns are pairwise different. -/
theorem nodup_declare (id : Nat) (name : String) (columns : List (String × ColumnType)) :
    ((Table.declare id name columns).columns.map (·.name)).Nodup := by
  have hnil : (([] : List Column).map (·.name)).Nodup := List.nodup_nil
  exact List.foldlRecOn (motive := fun done : List Column => (done.map (·.name)).Nodup) columns _
    hnil fun done h c _ => nodup_declareColumn h _ _

/-- The names of a table's columns are pairwise different. -/
theorem Sound.table_columns_nodup (ha : a.Sound) {t : Table}
    (ht : Relation.table t ∈ a.relations) : (t.columns.map (·.name)).Nodup := by
  have hbuilt := ha.built ht
  generalize (Relation.table t).id = n at hbuilt
  cases hbuilt with
  | table fresh => exact nodup_declare _ _ _

/-- A relation that is looked for as a table is a table of the algebra. -/
theorem table?_isSome_of_mem {t : Table} (ht : Relation.table t ∈ a.relations) :
    (a.table? t.name).isSome := by
  rw [table?, List.findSome?_isSome_iff]
  exact ⟨.table t, ht, by simp [Relation.table?]⟩

/-- A table was declared before every other table of its name. -/
theorem Sound.not_table_name_eq (ha : a.Sound) {t u : Table}
    (ht : Relation.table t ∈ a.relations) (hu : Relation.table u ∈ a.relations)
    (hlt : t.id < u.id) : t.name ≠ u.name := by
  intro hname
  have hbuilt := ha.built hu
  obtain ⟨k, hk⟩ := List.getElem?_of_mem ht
  have hkt : t.id = k := ha.id_eq hk
  have hbefore : Relation.table t ∈ a.relations.take u.id := by
    refine List.mem_of_getElem? (i := k) ?_
    rw [List.getElem?_take_of_lt (by omega)]
    exact hk
  have hsome := table?_isSome_of_mem (a := ⟨a.relations.take u.id⟩) hbefore
  generalize hn : (Relation.table u).id = n at hbuilt
  have hun : u.id = n := hn
  rw [hun] at hsome
  cases hbuilt with
  | table fresh =>
    rw [hname] at hsome
    simp [Table.declare, fresh] at hsome

/-- Tables of one name are one table. -/
theorem Sound.table_eq_of_name_eq (ha : a.Sound) {t u : Table}
    (ht : Relation.table t ∈ a.relations) (hu : Relation.table u ∈ a.relations)
    (h : t.name = u.name) : t = u := by
  rcases Nat.lt_trichotomy t.id u.id with hlt | heq | hlt
  · exact absurd h (ha.not_table_name_eq ht hu hlt)
  · exact Relation.table.inj (ha.eq_of_id_eq ht hu heq)
  · exact absurd h.symm (ha.not_table_name_eq hu ht hlt)

/-- The table found under a name is the one that has it. -/
theorem Sound.table?_eq_some_iff (ha : a.Sound) {name : String} {t : Table} :
    a.table? name = some t ↔ Relation.table t ∈ a.relations ∧ t.name = name := by
  constructor
  · exact mem_of_table?
  · rintro ⟨ht, rfl⟩
    obtain ⟨u, hu⟩ := Option.isSome_iff_exists.1 (table?_isSome_of_mem ht)
    obtain ⟨humem, huname⟩ := mem_of_table? hu
    rw [hu, ha.table_eq_of_name_eq humem ht huname]

/-- A table that can be reached from a relation is a table of the algebra. -/
theorem Sound.table_mem_of_tableNamed? (ha : a.Sound) (hr : r ∈ a.relations) {name : String}
    {t : Table} (h : r.tableNamed? name = some t) : Relation.table t ∈ a.relations := by
  induction r generalizing name with
  | table u =>
    simp only [tableNamed?] at h
    split at h
    · cases h; exact hr
    · cases h
  | selection id operand condition ih => exact ih (ha.selection_operand hr).1 h
  | projection id operand whole shown ih =>
    obtain ⟨rfl, -⟩ := Option.filter_eq_some_iff.1 h
    exact ih (ha.projection_operand hr).1 (ha.whole_built hr).1
  | join id kind left right condition ihl ihr =>
    simp only [tableNamed?] at h
    split at h
    · next hl => cases h; exact ihl (ha.join_left hr).1 hl
    · exact ihr (ha.join_right hr).1 h

/-! ## Places -/

/-- A name stands for one of the columns. -/
theorem Sound.find?_lt (ha : a.Sound) (hr : r ∈ a.relations) {name : String} {i : Nat}
    (h : r.find? name = some i) : i < r.width := by
  induction r generalizing i with
  | table t =>
    obtain ⟨own, c, -, -, hc, -⟩ := find?_table_some h
    rw [width_table]
    exact (List.getElem?_eq_some_iff.1 hc).1
  | selection id operand condition ih =>
    rw [width_selection]
    exact ih (ha.selection_operand hr).1 h
  | projection id operand whole shown ih =>
    obtain ⟨c, hc, -⟩ := find?_projection_some h
    rw [width_projection]
    exact (List.getElem?_eq_some_iff.1 hc).1
  | join id kind left right condition ihl ihr =>
    rcases find?_join_some h with hl | ⟨hnone, j, hj, rfl⟩
    · exact Nat.lt_of_lt_of_le (ihl (ha.join_left hr).1 hl) (width_left_le ..)
    · have hjlt := ihr (ha.join_right hr).1 hj
      have hne : left.id ≠ right.id := by
        intro hid
        rw [ha.join_self hr hid, hj] at hnone
        cases hnone
      rw [width_join hne]
      omega

/-- What a name finds among the columns of several operands, one of the operands has of the name. -/
theorem Sound.exists_of_findIn? (ha : a.Sound) {operands : List Relation}
    (hops : ∀ s ∈ operands, s ∈ a.relations) {name : String} {i : Nat}
    (h : findIn? operands name = some i) :
    ∃ s ∈ operands, ∃ j, s.find? name = some j ∧ locate operands i = some ⟨s, j⟩ := by
  induction operands generalizing i with
  | nil => cases h
  | cons s rest ih =>
    simp only [findIn?] at h
    split at h
    · next j hj =>
      cases h
      refine ⟨s, List.mem_cons_self .., _, hj, ?_⟩
      rw [locate, if_pos (ha.find?_lt (hops s (List.mem_cons_self ..)) hj)]
    · obtain ⟨j, hj, rfl⟩ := Option.map_eq_some_iff.1 h
      obtain ⟨u, hu, k, hk, hlocate⟩ := ih (fun u hu => hops u (List.mem_cons_of_mem _ hu)) hj
      refine ⟨u, List.mem_cons_of_mem _ hu, k, hk, ?_⟩
      rw [locate, if_neg (Nat.not_lt.2 (Nat.le_add_right _ _)), Nat.add_sub_cancel_left, hlocate]

/-- A name stands for one of the columns of the operands it is looked for in. -/
theorem Sound.locate_isSome (ha : a.Sound) {operands : List Relation}
    (hops : ∀ s ∈ operands, s ∈ a.relations) {name : String} {i : Nat}
    (h : findIn? operands name = some i) : (locate operands i).isSome := by
  obtain ⟨s, -, j, -, hlocate⟩ := ha.exists_of_findIn? hops h
  rw [hlocate]
  rfl

theorem lt_of_locate_one {s : Relation} {i : Nat} (h : (locate [s] i).isSome) : i < s.width := by
  rw [locate] at h
  split at h
  · next hlt => exact hlt
  · cases h

theorem lt_of_locate_two {s s' : Relation} {i : Nat} (h : (locate [s, s'] i).isSome) :
    i < s.width + s'.width := by
  rw [locate] at h
  split at h
  · omega
  · have hlt := lt_of_locate_one h
    omega

theorem bindColumn_ok_iff {operands : List Relation} {building name : String} {i : Nat} :
    bindColumn operands building name = .ok i ↔ findIn? operands name = some i := by
  unfold bindColumn
  split
  · next h => rw [h, Except.ok.injEq, Option.some.injEq]
  · next h => simp [h]

/-- What an expression is bound to: every column was found under some name. -/
theorem all_of_bind {operands : List Relation} {building : String} {e : Expr String}
    {bound : Expr Nat} (h : bind operands building e = .ok bound) :
    bound.All fun i => ∃ name, findIn? operands name = some i := by
  refine (Expr.all_of_bindNames h).mono ?_
  rintro i ⟨name, hname⟩
  exact ⟨name, bindColumn_ok_iff.1 hname⟩

/-- A bound expression reads columns that its operands have. -/
theorem Sound.all_of_bind (ha : a.Sound) (operands : List Relation)
    (hops : ∀ s ∈ operands, s ∈ a.relations) {building : String} {e : Expr String}
    {bound : Expr Nat} (h : bind operands building e = .ok bound) :
    bound.All fun i => (locate operands i).isSome := by
  refine (Algebra.all_of_bind h).mono ?_
  rintro i ⟨name, hname⟩
  exact ha.locate_isSome hops hname

section

variable {id : Nat} {operand left right : Relation} {condition : Expr Nat} {kind : JoinKind}
  {whole : Option Table} {shown : List OutputColumn}

/-- What a condition stands for is an equality. -/
theorem exists_of_equality {p : Predicate} {equality : Expr String}
    (h : p.equality = .ok equality) : ∃ x y, equality = .equal x y := by
  unfold Predicate.equality at h
  split at h <;> cases h
  · exact ⟨_, _, rfl⟩
  · exact ⟨_, _, rfl⟩

/-- The condition of a selection is an equality between columns of the operand. -/
theorem Sound.selection_bound (ha : a.Sound)
    (hr : Relation.selection id operand condition ∈ a.relations) :
    ∃ building x y, bind [operand] building (.equal x y) = .ok condition := by
  have hbuilt := ha.built hr
  generalize (Relation.selection id operand condition).id = n at hbuilt
  cases hbuilt with
  | selection operand_mem equality_eq bound_eq =>
    obtain ⟨x, y, rfl⟩ := exists_of_equality equality_eq
    exact ⟨_, x, y, bound_eq⟩

/-- The condition of a join is an equality between columns of the operands. -/
theorem Sound.join_bound (ha : a.Sound)
    (hr : Relation.join id kind left right condition ∈ a.relations) :
    ∃ building x y, bind [left, right] building (.equal x y) = .ok condition := by
  have hbuilt := ha.built hr
  generalize (Relation.join id kind left right condition).id = n at hbuilt
  cases hbuilt with
  | join left_mem right_mem new equality_eq bound_eq =>
    obtain ⟨x, y, rfl⟩ := exists_of_equality equality_eq
    exact ⟨_, x, y, bound_eq⟩

/-- An equality is bound to an equality. -/
theorem exists_of_bind_equal {operands : List Relation} {building : String} {x y : Expr String}
    {bound : Expr Nat} (h : bind operands building (.equal x y) = .ok bound) :
    ∃ x' y', bound = .equal x' y' := by
  obtain ⟨x', -, h⟩ := bind_ok_iff.1 h
  obtain ⟨y', -, h⟩ := bind_ok_iff.1 h
  cases h
  exact ⟨x', y', rfl⟩

/-- What is bound to one operand reads columns of it. -/
theorem Sound.all_lt_of_bind (ha : a.Sound) (hop : operand ∈ a.relations) {building : String}
    {e : Expr String} {bound : Expr Nat} (h : bind [operand] building e = .ok bound) :
    bound.All (· < operand.width) := by
  have hops : ∀ s ∈ [operand], s ∈ a.relations := by
    intro s hs
    obtain rfl := List.mem_singleton.1 hs
    exact hop
  exact (ha.all_of_bind [operand] hops h).mono fun i => lt_of_locate_one

theorem Sound.selection_condition (ha : a.Sound)
    (hr : Relation.selection id operand condition ∈ a.relations) :
    condition.All (· < operand.width) := by
  obtain ⟨building, x, y, hbound⟩ := ha.selection_bound hr
  exact ha.all_lt_of_bind (ha.selection_operand hr).1 hbound

theorem Sound.join_condition (ha : a.Sound)
    (hr : Relation.join id kind left right condition ∈ a.relations) :
    condition.All (· < left.width + right.width) := by
  have hl := (ha.join_left hr).1
  have hrt := (ha.join_right hr).1
  obtain ⟨building, x, y, hbound⟩ := ha.join_bound hr
  have hops : ∀ s ∈ [left, right], s ∈ a.relations := by
    intro s hs
    rcases List.mem_cons.1 hs with rfl | hs
    · exact hl
    · obtain rfl := List.mem_singleton.1 hs
      exact hrt
  exact (ha.all_of_bind [left, right] hops hbound).mono fun i => lt_of_locate_two

end

/-! ## The columns of projections -/

/-- What every step of a fold keeps holds at its end. -/
theorem foldlM_ok_induction {α β ε : Type} {f : β → α → Except ε β} {P : β → Prop} {l : List α}
    (step : ∀ b b', ∀ x ∈ l, P b → f b x = .ok b' → P b') {b b' : β} (hb : P b)
    (h : l.foldlM f b = .ok b') : P b' := by
  induction l generalizing b with
  | nil => cases h; exact hb
  | cons x rest ih =>
    rw [List.foldlM_cons] at h
    obtain ⟨c, hc, h⟩ := bind_ok_iff.1 h
    exact ih (fun b b' y hy => step b b' y (List.mem_cons_of_mem _ hy))
      (step b c x (List.mem_cons_self ..) hb hc) h

/-- What every step of a fold keeps, of the part of the list that it has been through, holds of the
whole list at its end. -/
theorem foldlM_ok_steps {α β ε : Type} {f : β → α → Except ε β} {P : List α → β → Prop}
    {l : List α} (step : ∀ done x b b', done ++ [x] <+: l → P done b → f b x = .ok b' →
      P (done ++ [x]) b') {b b' : β} (hb : P [] b) (h : l.foldlM f b = .ok b') : P l b' := by
  have hrest : ∀ rest done b, done ++ rest = l → P done b → rest.foldlM f b = .ok b' → P l b' := by
    intro rest
    induction rest with
    | nil =>
      intro done b hl hb h
      rw [List.append_nil] at hl
      cases h
      rw [← hl]
      exact hb
    | cons x rest ih =>
      intro done b hl hb h
      rw [List.foldlM_cons] at h
      obtain ⟨c, hc, h⟩ := bind_ok_iff.1 h
      have hl' : done ++ [x] ++ rest = l := by simpa using hl
      exact ih (done ++ [x]) c hl' (step done x b c ⟨rest, hl'⟩ hb hc) h
  exact hrest l [] b rfl hb h

/-- A shown column has the source and the label of its expression. -/
theorem outputColumn_ok {operand : Relation} {e : Expr Nat} {c : OutputColumn}
    (h : outputColumn operand e = .ok c) :
    c.source = e.stripAlias.1 ∧ c.label = e.stripAlias.2 ∧
      (e.stripAlias.2 <|> nameOf? operand e.stripAlias.1) = some c.name := by
  simp only [outputColumn] at h
  split at h
  · next name hname => cases h; exact ⟨rfl, rfl, hname⟩
  · cases h

/-- Showing an expression adds its column, or nothing if it is shown already. -/
theorem showOnce_ok {operand : Relation} {shown shown' : List OutputColumn} {e : Expr Nat}
    (h : showOnce operand shown e = .ok shown') :
    shown' = shown ∨ ∃ c, outputColumn operand e = .ok c ∧
      (∀ d ∈ shown, d.source ≠ c.source) ∧ shown' = shown ++ [c] := by
  unfold showOnce at h
  split at h
  · cases h; exact .inl rfl
  · next hnew =>
    cases hc : outputColumn operand e with
    | error e => rw [hc] at h; cases h
    | ok c =>
      rw [hc] at h
      cases h
      refine .inr ⟨c, rfl, ?_, rfl⟩
      intro d hd hsource
      refine hnew (List.any_eq_true.2 ⟨d, hd, ?_⟩)
      rw [hsource, (outputColumn_ok hc).1, beq_iff_eq]

theorem showNamed_ok {operand : Relation} {building : String} {shown shown' : List OutputColumn}
    {e : Expr Nat} (h : showNamed operand building shown e = .ok shown') :
    shown' = shown ∨ ∃ c, outputColumn operand e = .ok c ∧
      (∀ d ∈ shown, d.source ≠ c.source) ∧ (∀ d ∈ shown, d.name ≠ c.name) ∧
        shown' = shown ++ [c] := by
  unfold showNamed at h
  split at h
  · cases h; exact .inl rfl
  · next hnew =>
    obtain ⟨c, hc, h⟩ := bind_ok_iff.1 h
    split at h
    · cases h
    · next hname =>
      cases h
      refine .inr ⟨c, hc, ?_, ?_, rfl⟩
      · intro d hd hsource
        refine hnew (List.any_eq_true.2 ⟨d, hd, ?_⟩)
        rw [hsource, (outputColumn_ok hc).1, beq_iff_eq]
      · intro d hd heq
        exact hname (List.any_eq_true.2 ⟨d, hd, by simpa using heq⟩)

/-- What showing columns one by one keeps: they read what the operand has, and no source is shown
twice. -/
structure Shown (operand : Relation) (shown : List OutputColumn) : Prop where
  sources_lt : ∀ c ∈ shown, c.source.All (· < operand.width)
  sources_nodup : (shown.map (·.source)).Nodup

theorem shown_nil (operand : Relation) : Shown operand [] := ⟨by simp, by simp⟩

theorem Shown.append {operand : Relation} {shown : List OutputColumn} {c : OutputColumn}
    (h : Shown operand shown) (hlt : c.source.All (· < operand.width))
    (hnew : ∀ d ∈ shown, d.source ≠ c.source) : Shown operand (shown ++ [c]) := by
  constructor
  · intro d hd
    rcases List.mem_append.1 hd with hd | hd
    · exact h.sources_lt d hd
    · obtain rfl := List.mem_singleton.1 hd; exact hlt
  · exact nodup_map_concat h.sources_nodup hnew

theorem Sound.outputColumn_lt (ha : a.Sound) {operand : Relation} (hop : operand ∈ a.relations)
    {building : String} {e : Expr String} {bound : Expr Nat} {c : OutputColumn}
    (hbound : Algebra.bind [operand] building e = .ok bound)
    (hc : outputColumn operand bound = .ok c) : c.source.All (· < operand.width) := by
  rw [(outputColumn_ok hc).1]
  exact (ha.all_lt_of_bind hop hbound).stripAlias

theorem Sound.shown_wholeColumns (ha : a.Sound) {operand : Relation}
    (hop : operand ∈ a.relations) {building : String} {t : Table} {shown : List OutputColumn}
    (h : wholeColumns operand building t = .ok shown) : Shown operand shown := by
  refine foldlM_ok_induction ?_ (shown_nil operand) h
  intro before after e _ hbefore hstep
  obtain ⟨bound, hbound, hstep⟩ := bind_ok_iff.1 hstep
  rcases showOnce_ok hstep with rfl | ⟨c, hc, hnew, rfl⟩
  · exact hbefore
  · exact hbefore.append (ha.outputColumn_lt hop hbound hc) hnew

/-- Projected columns read what the operand has, and their names differ as well. -/
theorem Sound.shown_shownColumns (ha : a.Sound) {operand : Relation}
    (hop : operand ∈ a.relations) {building : String} {args : List ProjectArg}
    {shown : List OutputColumn} (h : shownColumns operand building args = .ok shown) :
    Shown operand shown ∧ (shown.map (·.name)).Nodup := by
  refine foldlM_ok_induction (P := fun shown => Shown operand shown ∧ (shown.map (·.name)).Nodup)
    ?_ ⟨shown_nil operand, by simp⟩ h
  rintro before after arg - ⟨hbefore, hnames⟩ hstep
  obtain ⟨e, he, hstep⟩ := bind_ok_iff.1 hstep
  obtain ⟨bound, hbound, hstep⟩ := bind_ok_iff.1 hstep
  rcases showNamed_ok hstep with rfl | ⟨c, hc, hnew, hname, rfl⟩
  · exact ⟨hbefore, hnames⟩
  · exact ⟨hbefore.append (ha.outputColumn_lt hop hbound hc) hnew, nodup_map_concat hnames hname⟩

/-- A reference to one of a table's columns is bound to what its qualified name finds. -/
theorem bind_qualified {operand : Relation} {building : String} {t : Table} {c : Column}
    {bound : Expr Nat}
    (h : Algebra.bind [operand] building (.aliased (.column (t.qualified c.name)) c.name) =
      .ok bound) :
    ∃ i, operand.find? (t.qualified c.name) = some i ∧ bound = .aliased (.column i) c.name := by
  obtain ⟨inner, hinner, rfl⟩ := map_ok_iff.1 h
  obtain ⟨i, hi, rfl⟩ := map_ok_iff.1 hinner
  rw [bindColumn_ok_iff, findIn?_one] at hi
  exact ⟨i, hi, rfl⟩

/-- The column of a bound reference to one of a table's columns has the name of that column. -/
theorem outputColumn_qualified {operand : Relation} {building : String} {t : Table} {c : Column}
    {bound : Expr Nat} {shown : OutputColumn}
    (hbound : Algebra.bind [operand] building (.aliased (.column (t.qualified c.name)) c.name) =
      .ok bound)
    (h : outputColumn operand bound = .ok shown) :
    ∃ i, operand.find? (t.qualified c.name) = some i ∧
      shown = ⟨c.name, some c.name, .column i⟩ := by
  obtain ⟨i, hi, rfl⟩ := bind_qualified hbound
  cases h
  exact ⟨i, hi, rfl⟩

/-- The columns of a whole table are shown one after the other. -/
theorem wholeColumns_eq (operand : Relation) (building : String) (t : Table) :
    wholeColumns operand building t = t.columns.foldlM (fun shown c => do
      showOnce operand shown (← Algebra.bind [operand] building
        (.aliased (.column (t.qualified c.name)) c.name))) [] :=
  List.foldlM_map ..

/-- The columns of a projection of a whole table have names of different columns of the table. -/
theorem nodup_names_wholeColumns {operand : Relation} {building : String} {t : Table}
    {shown : List OutputColumn} (ht : (t.columns.map (·.name)).Nodup)
    (h : wholeColumns operand building t = .ok shown) : (shown.map (·.name)).Nodup := by
  rw [wholeColumns_eq] at h
  refine ht.sublist (foldlM_ok_steps (P := fun done shown =>
    (shown.map (·.name)).Sublist (done.map (·.name))) ?_ (List.Sublist.refl _) h)
  intro done c before after _ hbefore hstep
  obtain ⟨bound, hbound, hstep⟩ := bind_ok_iff.1 hstep
  rw [List.map_append]
  rcases showOnce_ok hstep with rfl | ⟨d, hd, -, rfl⟩
  · exact hbefore.trans (List.sublist_append_left ..)
  · obtain ⟨i, -, rfl⟩ := outputColumn_qualified hbound hd
    rw [List.map_append]
    exact hbefore.append (List.Sublist.refl _)

section

variable {id : Nat} {operand : Relation} {whole : Option Table} {shown : List OutputColumn}

/-- The columns of a projection read columns of the operand, each source once. -/
theorem Sound.projection_shown (ha : a.Sound)
    (hr : Relation.projection id operand whole shown ∈ a.relations) : Shown operand shown := by
  have hop := (ha.projection_operand hr).1
  cases whole with
  | some t => exact ha.shown_wholeColumns hop (ha.whole_built hr).2
  | none =>
    obtain ⟨args, hshown⟩ := ha.columns_built hr
    exact (ha.shown_shownColumns hop hshown).1

/-- The names of a projection's columns are pairwise different. -/
theorem Sound.projection_names (ha : a.Sound)
    (hr : Relation.projection id operand whole shown ∈ a.relations) :
    (shown.map (·.name)).Nodup := by
  have hop := (ha.projection_operand hr).1
  cases whole with
  | some t =>
    obtain ⟨hfound, hshown⟩ := ha.whole_built hr
    have ht := ha.table_mem_of_tableNamed? hop hfound
    exact nodup_names_wholeColumns (ha.table_columns_nodup ht) hshown
  | none =>
    obtain ⟨args, hshown⟩ := ha.columns_built hr
    exact (ha.shown_shownColumns hop hshown).2

end

end Algebra

end RelationalAlgebra
