import RelationalAlgebra.Proofs.SplitNames
import RelationalAlgebra.Wire

/-!
# The declared column behind a name

A wire form names a column by the declared column it reads.  Read back, the qualified name of that
column has to find the very place that was written, past the names that the left operand of a join
hides and past the names that a projection changes.

* `find?_declared`: what a qualified name finds reads the column that the name says.
* `find?_qualified`: a place that some name finds is found by the qualified name of the declared
  column it reads.

The second statement needs that the qualified names of the declared columns can be taken apart
again (`Algebra.Separable`), and that every projection passes on a whole table, which holds of
every relation that has a wire form (`Relation.Sendable`).
-/

namespace RelationalAlgebra

open QualifiedName

/-! ## Names that can be taken apart -/

/-- The qualified name of every declared column can be taken apart into the table and the
column. -/
def Algebra.Separable (a : Algebra) : Prop :=
  ∀ t, Relation.table t ∈ a.relations → ∀ c ∈ t.columns,
    split (t.qualified c.name) = some (t.name, c.name)

/-- It depends on each table and each column of it alone whether they can be told apart. -/
theorem Algebra.separable_iff {a : Algebra} :
    a.Separable ↔
      ∀ t, Relation.table t ∈ a.relations → ∀ c ∈ t.columns, Recoverable t.name c.name := by
  simp only [Algebra.Separable, Table.qualified, split_eq_some_iff, true_and]

namespace Relation

/-- The names of the table and of the declared column that a column reads. -/
def declared? (r : Relation) (i : Nat) : Option (String × String) :=
  (r.physical? i).bind fun p => p.column?.map fun c => (p.table.name, c.name)

/-- The relation has a wire form. -/
def Sendable (r : Relation) : Prop := ∃ w, r.toWire = .ok w

variable {a : Algebra} {r operand left right : Relation} {id i : Nat} {kind : JoinKind}
  {condition : Expr Nat} {whole : Option Table} {shown : List OutputColumn}

/-! ## Relations with a wire form -/

theorem Sendable.selection (h : (Relation.selection id operand condition).Sendable) :
    operand.Sendable := by
  obtain ⟨w, h⟩ := h
  obtain ⟨wire, hwire, -⟩ := bind_ok_iff.1 h
  exact ⟨wire, hwire⟩

theorem Sendable.projection (h : (Relation.projection id operand whole shown).Sendable) :
    operand.Sendable ∧ ∃ t, whole = some t := by
  obtain ⟨w, h⟩ := h
  cases whole with
  | none => cases h
  | some t =>
    obtain ⟨wire, hwire, -⟩ := bind_ok_iff.1 h
    exact ⟨⟨wire, hwire⟩, t, rfl⟩

theorem Sendable.join (h : (Relation.join id kind left right condition).Sendable) :
    left.Sendable ∧ right.Sendable := by
  obtain ⟨w, h⟩ := h
  obtain ⟨leftWire, hleft, h⟩ := bind_ok_iff.1 h
  obtain ⟨rightWire, hright, -⟩ := bind_ok_iff.1 h
  exact ⟨⟨leftWire, hleft⟩, rightWire, hright⟩

/-! ## What a column reads -/

theorem declared?_table {t : Table} :
    (Relation.table t).declared? i = t.columns[i]?.map fun c => (t.name, c.name) := by
  unfold declared? physical?
  split
  · rfl
  · next h => rw [List.getElem?_eq_none (Nat.le_of_not_lt h)]; rfl

theorem declared?_projection {c : OutputColumn} {j : Nat} (hc : shown[i]? = some c)
    (hsource : c.source = .column j) :
    (Relation.projection id operand whole shown).declared? i = operand.declared? j := by
  obtain ⟨name, label, source⟩ := c
  cases hsource
  unfold declared?
  rw [physical?, hc]

theorem declared?_join_left (h : i < left.width) :
    (Relation.join id kind left right condition).declared? i = left.declared? i := by
  unfold declared?
  rw [physical?, if_pos h]

theorem declared?_join_right :
    (Relation.join id kind left right condition).declared? (left.width + i) =
      right.declared? i := by
  unfold declared?
  rw [physical?, if_neg (Nat.not_lt.2 (Nat.le_add_right _ _)), Nat.add_sub_cancel_left]

/-- A declared column that is read is a column of a table of the algebra. -/
theorem physical?_mem (ha : a.Sound) (hr : r ∈ a.relations) {p : Physical}
    (h : r.physical? i = some p) : Relation.table p.table ∈ a.relations := by
  induction r generalizing i with
  | table t =>
    rw [physical?] at h
    split at h
    · cases h; exact hr
    · cases h
  | selection id operand condition ih => exact ih (ha.selection_operand hr).1 h
  | projection id operand whole shown ih =>
    rw [physical?] at h
    split at h
    · exact ih (ha.projection_operand hr).1 h
    · cases h
  | join id kind left right condition ihl ihr =>
    rw [physical?] at h
    split at h
    · exact ihl (ha.join_left hr).1 h
    · exact ihr (ha.join_right hr).1 h

/-- What a column reads has a qualified name that can be taken apart. -/
theorem split_declared (ha : a.Sound) (hnames : a.Separable) (hr : r ∈ a.relations)
    {t c : String} (h : r.declared? i = some (t, c)) : split (qualify t c) = some (t, c) := by
  obtain ⟨p, hp, h⟩ := Option.bind_eq_some_iff.1 h
  obtain ⟨column, hcolumn, h⟩ := Option.map_eq_some_iff.1 h
  cases h
  exact hnames p.table (physical?_mem ha hr hp) column (List.mem_of_getElem? hcolumn)

/-! ## Projections of whole tables -/

/-- A column is found by its source. -/
theorem showing?_source (hnodup : (shown.map (·.source)).Nodup) {c : OutputColumn}
    (hc : shown[i]? = some c) : showing? shown c.source = some i :=
  Algebra.findIdx?_key hnodup hc

/-- The column shows what the qualified name of one of the table's columns stands for. -/
def ShowsOneOf (operand : Relation) (t : Table) (c : OutputColumn) : Prop :=
  ∃ column ∈ t.columns, ∃ j, operand.find? (t.qualified column.name) = some j ∧
    c = ⟨column.name, some column.name, .column j⟩

theorem showsOneOf_of_wholeColumns {building : String} {t : Table}
    (h : Algebra.wholeColumns operand building t = .ok shown) :
    ∀ c ∈ shown, ShowsOneOf operand t c := by
  refine Algebra.foldlM_ok_induction (P := fun shown => ∀ c ∈ shown, ShowsOneOf operand t c) ?_
    (List.forall_mem_nil _) h
  intro before after e he hbefore hstep
  obtain ⟨column, hcolumn, rfl⟩ := List.mem_map.1 he
  obtain ⟨bound, hbound, hstep⟩ := bind_ok_iff.1 hstep
  rcases Algebra.showOnce_ok hstep with rfl | ⟨d, hd, -, rfl⟩
  · exact hbefore
  · intro c hc
    rcases List.mem_append.1 hc with hc | hc
    · exact hbefore c hc
    · obtain rfl := List.mem_singleton.1 hc
      obtain ⟨j, hj, heq⟩ := Algebra.outputColumn_qualified hbound hd
      exact ⟨column, hcolumn, j, hj, heq⟩

/-! ## What a name finds -/

/-- What a qualified name finds reads the column of a table that the name stands for there. -/
theorem find?_ownName (ha : a.Sound) (hr : r ∈ a.relations) {name : String}
    (hname : isQualified name = true) (h : r.find? name = some i) :
    ∃ (t : Table) (own : String),
      t.ownName? name = some own ∧ r.declared? i = some (t.name, own) := by
  induction r generalizing i with
  | table t =>
    obtain ⟨own, column, hown, -, hcolumn, heq⟩ := find?_table_some h
    refine ⟨t, own, hown, ?_⟩
    rw [declared?_table, hcolumn, Option.map_some, heq]
  | selection id operand condition ih => exact ih (ha.selection_operand hr).1 h
  | projection id operand whole shown ih =>
    obtain ⟨shownColumn, hc, ⟨-, j, hj, hsource⟩ | ⟨hplain, -⟩⟩ := find?_projection_some h
    · rw [declared?_projection hc hsource]
      exact ih (ha.projection_operand hr).1 hj
    · rw [hname] at hplain
      cases hplain
  | join id kind left right condition ihl ihr =>
    rcases find?_join_some h with hj | ⟨-, j, hj, rfl⟩
    · rw [declared?_join_left (ha.find?_lt (ha.join_left hr).1 hj)]
      exact ihl (ha.join_left hr).1 hj
    · rw [declared?_join_right]
      exact ihr (ha.join_right hr).1 hj

/-- What a qualified name finds reads the column that the name says. -/
theorem find?_declared (ha : a.Sound) (hr : r ∈ a.relations) {name t c : String}
    (hsplit : split name = some (t, c)) (h : r.find? name = some i) :
    r.declared? i = some (t, c) := by
  obtain ⟨u, own, hown, hdeclared⟩ := find?_ownName ha hr (isQualified_of_split hsplit) h
  obtain ⟨rfl, rfl⟩ := (Table.ownName?_of_split hsplit).1 hown
  exact hdeclared

section

variable (ha : a.Sound) (hnames : a.Separable)

include ha hnames

/-- A column of a projection of a whole table reads the table's column of its name. -/
theorem declared?_whole {t : Table}
    (hr : Relation.projection id operand (some t) shown ∈ a.relations) {c : OutputColumn}
    (hc : shown[i]? = some c) :
    (Relation.projection id operand (some t) shown).declared? i = some (t.name, c.name) ∧
      ∃ j, operand.find? (qualify t.name c.name) = some j ∧ c.source = .column j := by
  have hop := (ha.projection_operand hr).1
  obtain ⟨hfound, hshown⟩ := ha.whole_built hr
  obtain ⟨column, hcolumn, j, hj, rfl⟩ :=
    showsOneOf_of_wholeColumns hshown c (List.mem_of_getElem? hc)
  have ht := ha.table_mem_of_tableNamed? hop hfound
  refine ⟨?_, j, hj, rfl⟩
  rw [declared?_projection hc rfl]
  exact find?_declared ha hop (hnames t ht column hcolumn) hj

/-- None of the columns that are shown so far reads another one of the table's columns than that of
its name, so the next one is shown as well. -/
theorem showOnce_qualified (hop : operand ∈ a.relations) {t : Table}
    (ht : Relation.table t ∈ a.relations) {building : String} {bound : Expr Nat} {c : Column}
    (hc : c ∈ t.columns)
    (hbound : Algebra.bind [operand] building (.aliased (.column (t.qualified c.name)) c.name) =
      .ok bound)
    (hshown : ∀ d ∈ shown, ∃ j, d.source = .column j ∧ operand.declared? j = some (t.name, d.name))
    (hfresh : c.name ∉ shown.map (·.name)) :
    ∃ j, operand.declared? j = some (t.name, c.name) ∧
      Algebra.showOnce operand shown bound =
        .ok (shown ++ [⟨c.name, some c.name, .column j⟩]) := by
  obtain ⟨j, hj, rfl⟩ := Algebra.bind_qualified hbound
  have hdeclared := find?_declared ha hop (hnames t ht c hc) hj
  refine ⟨j, hdeclared, ?_⟩
  have hnew : shown.any (·.source == .column j) = false := by
    rw [List.any_eq_false]
    intro d hd hsource
    obtain ⟨k, hk, hdeclared'⟩ := hshown d hd
    obtain rfl : k = j := Expr.column.inj (hk.symm.trans (by simpa using hsource))
    rw [hdeclared] at hdeclared'
    refine hfresh (List.mem_map.2 ⟨d, hd, ?_⟩)
    exact (Prod.mk.inj (Option.some.inj hdeclared')).2.symm
  rw [Algebra.showOnce, Expr.stripAlias, hnew]
  rfl

/-- A projection of a whole table shows every column of the table, in the order of the table. -/
theorem names_whole {t : Table}
    (hr : Relation.projection id operand (some t) shown ∈ a.relations) :
    shown.map (·.name) = t.columns.map (·.name) := by
  have hop := (ha.projection_operand hr).1
  obtain ⟨hfound, hwhole⟩ := ha.whole_built hr
  have ht := ha.table_mem_of_tableNamed? hop hfound
  rw [Algebra.wholeColumns_eq] at hwhole
  refine (Algebra.foldlM_ok_steps (P := fun done shown =>
    shown.map (·.name) = done.map (·.name) ∧
      ∀ d ∈ shown, ∃ j, d.source = .column j ∧ operand.declared? j = some (t.name, d.name))
    ?_ ⟨rfl, List.forall_mem_nil _⟩ hwhole).1
  rintro done c before after hstart ⟨hbefore, hreads⟩ hstep
  obtain ⟨bound, hbound, hstep⟩ := bind_ok_iff.1 hstep
  have hmem : c ∈ t.columns :=
    hstart.subset (List.mem_append_right _ (List.mem_singleton_self c))
  have hfresh : c.name ∉ before.map (·.name) := by
    have hnodup := (ha.table_columns_nodup ht).sublist (hstart.sublist.map (·.name))
    rw [List.map_append, List.nodup_append] at hnodup
    rw [hbefore]
    intro hdone
    exact hnodup.2.2 _ hdone _ (List.mem_singleton_self _) rfl
  obtain ⟨j, hj, hshow⟩ := showOnce_qualified ha hnames hop ht hmem hbound hreads hfresh
  cases hshow.symm.trans hstep
  refine ⟨by rw [List.map_append, List.map_append, hbefore]; rfl, fun d hd => ?_⟩
  rcases List.mem_append.1 hd with hd | hd
  · exact hreads d hd
  · obtain rfl := List.mem_singleton.1 hd
    exact ⟨j, rfl, hj⟩

/-- What a plain name finds reads a column of that name. -/
theorem find?_declared_of_plain (hr : r ∈ a.relations) (hsend : r.Sendable) {name : String}
    (hsplit : split name = none) (h : r.find? name = some i) :
    ∃ t, r.declared? i = some (t, name) := by
  induction r generalizing i with
  | table u =>
    obtain ⟨own, column, hown, -, hcolumn, hname⟩ := find?_table_some h
    rw [Table.ownName?, hsplit] at hown
    obtain rfl := Option.some.inj hown
    refine ⟨u.name, ?_⟩
    rw [declared?_table, hcolumn, Option.map_some, hname]
  | selection id operand condition ih =>
    exact ih (ha.selection_operand hr).1 hsend.selection h
  | projection id operand whole shown ih =>
    obtain ⟨hoperand, t, rfl⟩ := hsend.projection
    obtain ⟨shownColumn, hc, ⟨-, j, hj, hsource⟩ | ⟨-, hname⟩⟩ := find?_projection_some h
    · rw [declared?_projection hc hsource]
      exact ih (ha.projection_operand hr).1 hoperand hj
    · refine ⟨t.name, ?_⟩
      rw [(declared?_whole ha hnames hr hc).1, hname]
  | join id kind left right condition ihl ihr =>
    rcases find?_join_some h with hj | ⟨-, j, hj, rfl⟩
    · rw [declared?_join_left (ha.find?_lt (ha.join_left hr).1 hj)]
      exact ihl (ha.join_left hr).1 hsend.join.1 hj
    · rw [declared?_join_right]
      exact ihr (ha.join_right hr).1 hsend.join.2 hj

/-- A declared column that is found by its qualified name hides the columns of its plain name. -/
theorem find?_field_isSome (hr : r ∈ a.relations) (hsend : r.Sendable) {t c : String}
    (hsplit : split (qualify t c) = some (t, c)) (h : (r.find? (qualify t c)).isSome) :
    (r.find? c).isSome := by
  have hplain := isQualified_field hsplit
  induction r with
  | table u =>
    obtain ⟨i, h⟩ := Option.isSome_iff_exists.1 h
    obtain ⟨own, column, hown, hfound, -, -⟩ := find?_table_some h
    obtain ⟨rfl, rfl⟩ := (Table.ownName?_of_split hsplit).1 hown
    rw [find?, Table.position?, Table.ownName?_of_plain hplain, Option.bind_some, hfound]
    rfl
  | selection id operand condition ih =>
    exact ih (ha.selection_operand hr).1 hsend.selection h
  | projection id operand whole shown ih =>
    obtain ⟨hoperand, u, rfl⟩ := hsend.projection
    obtain ⟨i, h⟩ := Option.isSome_iff_exists.1 h
    have hdeclared := find?_declared ha hr hsplit h
    have hlt := ha.find?_lt hr h
    rw [width_projection] at hlt
    have hwhole := (declared?_whole ha hnames hr (List.getElem?_eq_getElem hlt)).1
    rw [hdeclared] at hwhole
    have hname := (Prod.mk.inj (Option.some.inj hwhole)).2
    rw [find?, if_neg (by simp [hplain]), List.findIdx?_isSome, List.any_eq_true]
    exact ⟨shown[i], List.getElem_mem hlt, by simp [hname]⟩
  | join id kind left right condition ihl ihr =>
    rw [find?] at h ⊢
    split at h
    · next j hj =>
      have hl := ihl (ha.join_left hr).1 hsend.join.1 (by rw [hj]; rfl)
      obtain ⟨k, hk⟩ := Option.isSome_iff_exists.1 hl
      rw [hk]
      rfl
    · have hr := ihr (ha.join_right hr).1 hsend.join.2 (by simpa using h)
      split
      · rfl
      · simpa using hr

/-- A name that one relation does not have and that finds a column of another one: the qualified
name of the column does not stand for a column of the first relation. -/
theorem find?_qualified_eq_none (hleft : left ∈ a.relations) (hright : right ∈ a.relations)
    (hsendl : left.Sendable) (hsendr : right.Sendable) {name t c : String}
    (hnone : left.find? name = none) (h : right.find? name = some i)
    (hdeclared : right.declared? i = some (t, c)) : left.find? (qualify t c) = none := by
  have hparts := split_declared ha hnames hright hdeclared
  cases hsplit : split name with
  | some parts =>
    obtain ⟨t', c'⟩ := parts
    have heq := find?_declared ha hright hsplit h
    rw [hdeclared] at heq
    cases heq
    rw [qualify_of_split hsplit, hnone]
  | none =>
    obtain ⟨t', heq⟩ := find?_declared_of_plain ha hnames hright hsendr hsplit h
    rw [hdeclared] at heq
    cases heq
    cases hfound : left.find? (qualify t name) with
    | none => rfl
    | some j =>
      have hsome := find?_field_isSome ha hnames hleft hsendl hparts (by rw [hfound]; rfl)
      rw [hnone] at hsome
      cases hsome

/-- A place that some name finds is found by the qualified name of the declared column it reads. -/
theorem find?_qualified (hr : r ∈ a.relations) (hsend : r.Sendable) {name t c : String}
    (h : r.find? name = some i) (hdeclared : r.declared? i = some (t, c)) :
    r.find? (qualify t c) = some i := by
  have hparts := split_declared ha hnames hr hdeclared
  induction r generalizing i with
  | table u =>
    obtain ⟨own, column, -, -, hcolumn, -⟩ := find?_table_some h
    rw [declared?_table, hcolumn, Option.map_some] at hdeclared
    cases hdeclared
    exact (Table.position?_eq_some_iff (ha.table_columns_nodup hr) hcolumn).2
      ((Table.ownName?_of_split hparts).2 ⟨rfl, rfl⟩)
  | selection id operand condition ih =>
    exact ih (ha.selection_operand hr).1 hsend.selection h hdeclared
  | projection id operand whole shown ih =>
    obtain ⟨hoperand, u, rfl⟩ := hsend.projection
    have hlt := ha.find?_lt hr h
    rw [width_projection] at hlt
    have hcolumn := List.getElem?_eq_getElem hlt
    obtain ⟨hwhole, j, hj, hsource⟩ := declared?_whole ha hnames hr hcolumn
    rw [hdeclared] at hwhole
    cases hwhole
    have hplace := showing?_source (ha.projection_shown hr).sources_nodup hcolumn
    rw [hsource] at hplace
    rw [find?, if_pos (isQualified_of_split hparts), hj]
    exact hplace
  | join id kind left right condition ihl ihr =>
    rw [find?]
    rcases find?_join_some h with hj | ⟨hnone, j, hj, rfl⟩
    · rw [declared?_join_left (ha.find?_lt (ha.join_left hr).1 hj)] at hdeclared
      rw [ihl (ha.join_left hr).1 hsend.join.1 hj hdeclared]
    · rw [declared?_join_right] at hdeclared
      rw [find?_qualified_eq_none ha hnames (ha.join_left hr).1 (ha.join_right hr).1
        hsend.join.1 hsend.join.2 hnone hj hdeclared,
        ihr (ha.join_right hr).1 hsend.join.2 hj hdeclared]
      rfl

end

/-! ## Conditions -/

/-- The names of the declared column that a column of several operands reads. -/
def declaredIn? (operands : List Relation) (i : Nat) : Option (String × String) :=
  (locate operands i).bind fun ref => ref.relation.declared? ref.place

/-- The qualified name of the declared column that a column of several operands reads stands for
the column. -/
def Found (operands : List Relation) (i : Nat) : Prop :=
  ∀ t c, declaredIn? operands i = some (t, c) → findIn? operands (qualify t c) = some i

theorem declared?_of_declaredIn?_one {names : String × String}
    (h : declaredIn? [operand] i = some names) : operand.declared? i = some names := by
  rw [declaredIn?, locate] at h
  split at h
  · exact h
  · cases h

theorem declared?_of_declaredIn?_two {names : String × String}
    (h : declaredIn? [left, right] i = some names) :
    (Relation.join id kind left right condition).declared? i = some names := by
  rw [declaredIn?, locate] at h
  split at h
  · next hlt =>
    rw [declared?_join_left hlt]
    exact h
  · next hge =>
    have hi : i = left.width + (i - left.width) := by omega
    rw [hi, declared?_join_right]
    exact declared?_of_declaredIn?_one h

section

variable (ha : a.Sound) (hnames : a.Separable)

include ha hnames

/-- The columns of a selection's condition are found by their qualified names. -/
theorem selection_found (hr : Relation.selection id operand condition ∈ a.relations)
    (hsend : (Relation.selection id operand condition).Sendable) :
    condition.All (Found [operand]) := by
  have hop := (ha.selection_operand hr).1
  obtain ⟨building, x, y, hbound⟩ := ha.selection_bound hr
  refine (Algebra.all_of_bind hbound).mono ?_
  rintro i ⟨name, hname⟩ t c hdeclared
  rw [findIn?_one] at hname ⊢
  exact find?_qualified ha hnames hop hsend.selection hname (declared?_of_declaredIn?_one hdeclared)

/-- The columns of a join's condition are found by their qualified names. -/
theorem join_found (hr : Relation.join id kind left right condition ∈ a.relations)
    (hsend : (Relation.join id kind left right condition).Sendable) :
    condition.All (Found [left, right]) := by
  obtain ⟨building, x, y, hbound⟩ := ha.join_bound hr
  refine (Algebra.all_of_bind hbound).mono ?_
  rintro i ⟨name, hname⟩ t c hdeclared
  rw [findIn?_two id kind condition] at hname ⊢
  exact find?_qualified ha hnames hr hsend hname (declared?_of_declaredIn?_two hdeclared)

end

end Relation

end RelationalAlgebra
