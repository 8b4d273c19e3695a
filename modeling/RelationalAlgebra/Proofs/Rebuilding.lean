import RelationalAlgebra.Proofs.Alike
import RelationalAlgebra.Proofs.Layout
import RelationalAlgebra.Proofs.Session

/-!
# Rebuilding a relation from its wire form

Wherever the same tables are declared, the wire form of a relation is read back, and what is built
is alike to the relation: `rebuilds`.

The proof is by recursion on the relation.  Each node of the tree is built anew, so its identity is
that of no relation there was before (`Rebuilt.fresh`); this is why the right operand of a join is
never mistaken for a unit of the left one, and why what is built holds no join that is joined to
itself.  Only a base table is not built anew.  If the right operand is one, it is no unit of the
left one because it was none when the relation was built in the first place.
-/

namespace RelationalAlgebra

open QualifiedName RelationalAlgebra.Relation
open List (Forall₂)

/-! ## Algebras with the same tables -/

/-- The same table names are declared, with the same columns in the same order. -/
def Algebra.SameTables (a b : Algebra) : Prop :=
  ∀ name, (b.table? name).map Table.header = (a.table? name).map Table.header

/-! ## Projections of whole tables -/

theorem Expr.bindNames_mono {α β ε ε' : Type} {bind : α → Except ε β} {bind' : α → Except ε' β}
    (hbind : ∀ name b, bind name = .ok b → bind' name = .ok b) {e : Expr α} {bound : Expr β}
    (h : e.bindNames bind = .ok bound) : e.bindNames bind' = .ok bound := by
  induction e generalizing bound with
  | column reference =>
    obtain ⟨b, hb, rfl⟩ := map_ok_iff.1 h
    exact map_ok_iff.2 ⟨b, hbind _ _ hb, rfl⟩
  | literal value => cases h; rfl
  | aliased expr label ih =>
    obtain ⟨inner, hinner, rfl⟩ := map_ok_iff.1 h
    exact map_ok_iff.2 ⟨inner, ih hinner, rfl⟩
  | equal left right ihl ihr =>
    obtain ⟨l, hl, h⟩ := bind_ok_iff.1 h
    obtain ⟨r, hr, h⟩ := bind_ok_iff.1 h
    cases h
    exact bind_ok_iff.2 ⟨l, ihl hl, bind_ok_iff.2 ⟨r, ihr hr, rfl⟩⟩
  | aggregate function argument ih =>
    obtain ⟨inner, hinner, rfl⟩ := map_ok_iff.1 h
    exact map_ok_iff.2 ⟨inner, ih hinner, rfl⟩

theorem foldlM_ok_mono {α β ε : Type} {f g : β → α → Except ε β}
    (step : ∀ b x b', f b x = .ok b' → g b x = .ok b') {l : List α} {b b' : β}
    (h : l.foldlM f b = .ok b') : l.foldlM g b = .ok b' := by
  induction l generalizing b with
  | nil => exact h
  | cons x rest ih =>
    rw [List.foldlM_cons] at h ⊢
    obtain ⟨c, hc, h⟩ := bind_ok_iff.1 h
    exact bind_ok_iff.2 ⟨c, step b x c hc, ih h⟩

namespace Algebra

variable {a b b' : Algebra} {r r' operand operand' left right : Relation} {t t' : Table}
  {shown : List OutputColumn} {w : Json} {depth : Nat}

theorem qualifiedColumns_of_header (h : t'.header = t.header) :
    t'.qualifiedColumns = t.qualifiedColumns := by
  unfold Table.qualifiedColumns Table.qualified
  rw [name_of_header h]
  exact map_name_of_header h fun c => Expr.aliased (.column (qualify t.name c)) c

theorem showOnce_of_alike (h : Alike operand operand') (shown : List OutputColumn)
    (e : Expr Nat) : showOnce operand' shown e = showOnce operand shown e := by
  have hname : nameOf? operand' = nameOf? operand := by
    funext source
    unfold nameOf?
    rw [h.interchangeable.columns_eq]
  unfold showOnce outputColumn
  rw [hname]

/-- A table that is projected out of an operand shows the same columns when it is projected out of
an operand alike. -/
theorem wholeColumns_of_alike (h : Alike operand operand') (header : t'.header = t.header)
    {building : String} (hshown : wholeColumns operand building t = .ok shown)
    (building' : String) : wholeColumns operand' building' t' = .ok shown := by
  unfold wholeColumns at hshown ⊢
  rw [qualifiedColumns_of_header header]
  refine foldlM_ok_mono ?_ hshown
  intro before e after hstep
  obtain ⟨bound, hbound, hstep⟩ := bind_ok_iff.1 hstep
  refine bind_ok_iff.2 ⟨bound, ?_, by rw [showOnce_of_alike h, hstep]⟩
  refine Expr.bindNames_mono (fun name i hname => ?_) hbound
  rw [bindColumn_ok_iff] at hname ⊢
  rwa [findIn?_of_alike (.cons h .nil)]

/-! ## What reading does -/

section

variable {operandWire leftWire rightWire predicate : Json} {name : String} {kind : JoinKind}

theorem ofWireWithin_table :
    ofWireWithin (depth + 1) (.ofFields [("type", .string "table"), ("name", .string name)]) =
      (do return .table (← wireTable name)) := rfl

theorem ofWireWithin_selection :
    ofWireWithin (depth + 1) (.ofFields [("type", .string "selection"), ("operand", operandWire),
      ("predicate", predicate)]) =
      (do
        let operand ← ofWireWithin depth operandWire
        let condition ← Wire.expr predicate
        select operand (.expr condition)) := rfl

theorem ofWireWithin_whole :
    ofWireWithin (depth + 1) (.ofFields [("type", .string "table_projection"),
      ("operand", operandWire), ("projected_table", .string name)]) =
      (do
        let operand ← ofWireWithin depth operandWire
        let t ← wireTable name
        project operand [.relation (.table t)]) := rfl

theorem ofWireWithin_join :
    ofWireWithin (depth + 1) (.ofFields [("type", .string kind.wireName),
      ("left_operand", leftWire), ("right_operand", rightWire), ("predicate", predicate)]) =
      (do
        let left ← ofWireWithin depth leftWire
        let right ← ofWireWithin depth rightWire
        let condition ← Wire.expr predicate
        join kind left right (.expr condition)) := by
  cases kind <;> rfl

end

theorem wireTable_ends {name : String} (h : b.table? name = some t) :
    Ends (wireTable name) b fun u s => u = t ∧ s = b := by
  refine Ends.get ?_
  rw [h]
  exact ends_pure ⟨rfl, rfl⟩

/-- A relation that is no table is not looked for among the tables. -/
theorem table?_add (h : r.table? = none) (name : String) :
    (b.add r).table? name = b.table? name := by
  simp [table?, add, List.findSome?_append, h]

/-- What was built of the wire form of a relation. -/
structure Rebuilt (r : Relation) (b : Algebra) (r' : Relation) (b' : Algebra) : Prop where
  alike : Alike r r'
  apart : r'.Apart
  fresh : (∃ t, r' = .table t) ∨ b.size ≤ r'.id
  grown : Grown b r' b'
  tables : ∀ name, b'.table? name = b.table? name

theorem Grown.size_le (h : Grown b r b') : b.size ≤ b'.size := h.keeps.length_le

/-- One more relation on top of what was rebuilt. -/
theorem Rebuilt.add {s : Relation} {c : Algebra} (hc : Grown b s c)
    (htables : ∀ name, c.table? name = b.table? name) (hbuilt : Built c r')
    (hnested : r'.table? = none) (halike : Alike r r') (hapart : r'.Apart) :
    Rebuilt r b r' (c.add r') where
  alike := halike
  apart := hapart
  fresh := .inr (by rw [hbuilt.id_eq]; exact hc.size_le)
  grown := hc.built ⟨hbuilt, rfl⟩
  tables name := by rw [table?_add hnested, htables]

theorem SameTables.of_tables (h : a.SameTables b)
    (htables : ∀ name, b'.table? name = b.table? name) : a.SameTables b' := by
  intro name
  rw [htables, h]

/-- The wire form of the relation is read back wherever the same tables are declared. -/
def Rebuilds (a : Algebra) (r : Relation) : Prop :=
  ∀ {w : Json} {b : Algebra} {depth : Nat}, r.toWire = .ok w → b.Sound → a.SameTables b →
    w.depth ≤ depth → Ends (ofWireWithin depth w) b (Rebuilt r b)

theorem Ends.lift_bind {σ ε α β : Type} {x : Except ε α} {v : α} {f : α → StateT σ (Except ε) β}
    {s : σ} {Q : β → σ → Prop} (hx : x = .ok v) (h : Ends (f v) s Q) :
    Ends (liftM x >>= f) s Q := by
  subst hx
  exact h

/-- A table of the one algebra has its counterpart in the other. -/
theorem SameTables.exists_table (ha : a.Sound) (h : a.SameTables b)
    (ht : Relation.table t ∈ a.relations) :
    ∃ t', b.table? t.name = some t' ∧ t'.header = t.header := by
  have hname := h t.name
  rw [ha.table?_eq_some_iff.2 ⟨ht, rfl⟩, Option.map_some, Option.map_eq_some_iff] at hname
  exact hname

section

variable {id : Nat} {kind : JoinKind} {condition : Expr Nat} {whole : Option Table}
  (ha : a.Sound)

include ha

theorem table_rebuilds (hr : Relation.table t ∈ a.relations) : a.Rebuilds (.table t) := by
  intro w b depth h hb htables hdepth
  cases h
  obtain ⟨t', ht', header⟩ := htables.exists_table ha hr
  cases depth with
  | zero => cases hdepth
  | succ depth =>
    rw [ofWireWithin_table]
    refine (wireTable_ends ht').bind ?_
    rintro _ _ ⟨rfl, rfl⟩
    exact ends_pure ⟨.table header, trivial, .inl ⟨_, rfl⟩,
      hb.grown_self (mem_of_table? ht').1, fun _ => rfl⟩

theorem selection_rebuilds (hr : Relation.selection id operand condition ∈ a.relations)
    (hfound : condition.All (Found [operand])) (hyears : condition.Literals Value.FourDigitYear)
    (hoperand : a.Rebuilds operand) : a.Rebuilds (.selection id operand condition) := by
  intro w b depth h hb htables hdepth
  obtain ⟨building, x, y, hbound⟩ := ha.selection_bound hr
  obtain ⟨x', y', rfl⟩ := exists_of_bind_equal hbound
  obtain ⟨operandWire, hwire, h⟩ := bind_ok_iff.1 h
  obtain ⟨predicate, hpredicate, h⟩ := bind_ok_iff.1 h
  obtain ⟨spelled, hspells, hread⟩ := exists_spelling hpredicate hyears
  cases h
  have hlt := Json.depth_lt_of_get? "operand" hdepth rfl
  cases depth with
  | zero => cases hdepth
  | succ depth =>
    rw [ofWireWithin_selection]
    refine (hoperand hwire hb htables (Nat.le_of_lt_succ hlt)).bind fun operand' c hc => ?_
    refine Ends.lift_bind (hread _ (Nat.le_refl _)) ?_
    have hbound' := hspells.bind_eq hfound (findIn?_of_alike (.cons hc.alike .nil))
      ("selection on " ++ operand'.describe)
    refine ends_of_run (select_ok_iff.2 ⟨spelled, _, hspells.equality, hbound', rfl, rfl⟩) ?_
    have hbuilt := Built.selection hc.grown.mem hspells.equality hbound'
    exact .add hc.grown hc.tables hbuilt rfl (.selection hc.alike) hc.apart

theorem whole_rebuilds (hr : Relation.projection id operand (some t) shown ∈ a.relations)
    (hoperand : a.Rebuilds operand) :
    a.Rebuilds (.projection id operand (some t) shown) := by
  intro w b depth h hb htables hdepth
  have hop := (ha.projection_operand hr).1
  obtain ⟨hfound, hshown⟩ := ha.whole_built hr
  obtain ⟨operandWire, hwire, h⟩ := bind_ok_iff.1 h
  cases h
  have hlt := Json.depth_lt_of_get? "operand" hdepth rfl
  cases depth with
  | zero => cases hdepth
  | succ depth =>
    rw [ofWireWithin_whole]
    refine (hoperand hwire hb htables (Nat.le_of_lt_succ hlt)).bind fun operand' c hc => ?_
    obtain ⟨u, hu, -⟩ := (htables.of_tables hc.tables).exists_table ha
      (ha.table_mem_of_tableNamed? hop hfound)
    refine (wireTable_ends hu).bind ?_
    rintro u _ ⟨rfl, rfl⟩
    -- the operand reaches a table of the name
    have hreach := hc.alike.tableNamed?_eq t.name
    rw [hfound, Option.map_some, Option.map_eq_some_iff] at hreach
    obtain ⟨t', ht', header⟩ := hreach
    have hwhole : projectedTable? operand' [.relation (.table u)] = some t' := by
      rw [← ht', ← (mem_of_table? hu).2]
      rfl
    have hshown' := wholeColumns_of_alike hc.alike header hshown
      ("projection of " ++ operand'.describe)
    refine ends_of_run
      (project_ok_iff.2 ⟨by simp, shown, rfl, by rw [hwhole]; exact hshown', rfl⟩) ?_
    rw [hwhole]
    have hbuilt := Built.whole hc.grown.mem (by rwa [name_of_header header]) hshown'
    exact .add hc.grown hc.tables hbuilt rfl (.whole hc.alike header) hc.apart

/-- The right operand is on the spine of the left one only if it was so before. -/
theorem Rebuilt.ne {left' right' : Relation} {c c' : Algebra} (hleft : left ∈ a.relations)
    (hright : right ∈ a.relations) (hnew : ∀ unit ∈ left.joinUnits, unit.id ≠ right.id)
    (hl : Rebuilt left b left' c) (hrt : Rebuilt right c right' c') :
    ∀ s ∈ left'.spine, s.id ≠ right'.id := by
  intro s hs hid
  obtain ⟨hmem, hle⟩ := hl.grown.sound.mem_of_mem_spine hl.grown.mem hs
  rcases hrt.fresh with ⟨t', rfl⟩ | hfresh
  · obtain rfl := hrt.grown.sound.eq_of_id_eq (hrt.grown.mono hmem) hrt.grown.mem hid
    have hunit : Relation.table t' ∈ left'.joinUnits := by
      refine mem_joinUnits_of_mem_spine hs fun hchain => ?_
      obtain ⟨_, _, _, _, _, heq⟩ := exists_join_of_mem_joinChain hchain
      cases heq
    obtain ⟨unit, hunit, halike⟩ := hl.alike.exists_unit hunit
    have hunitmem := (ha.mem_of_mem_spine hleft (List.mem_append_right _ hunit)).1
    have hright' := hrt.alike
    cases halike with
    | table header =>
      cases hright' with
      | table header' =>
        have hname := (name_of_header header).symm.trans (name_of_header header')
        obtain rfl := ha.table_eq_of_name_eq hunitmem hright hname
        exact hnew _ hunit rfl
  · have hlt := hl.grown.sound.id_lt_size hmem
    omega

theorem join_rebuilds (hr : Relation.join id kind left right condition ∈ a.relations)
    (hapart : right ∉ left.joinChain) (hfound : condition.All (Found [left, right]))
    (hyears : condition.Literals Value.FourDigitYear) (hleft : a.Rebuilds left)
    (hright : a.Rebuilds right) : a.Rebuilds (.join id kind left right condition) := by
  intro w b depth h hb htables hdepth
  have hne := Sql.ne_of_not_mem_joinChain ha hr hapart
  obtain ⟨building, x, y, hbound⟩ := ha.join_bound hr
  obtain ⟨x', y', rfl⟩ := exists_of_bind_equal hbound
  obtain ⟨leftWire, hleftWire, h⟩ := bind_ok_iff.1 h
  obtain ⟨rightWire, hrightWire, h⟩ := bind_ok_iff.1 h
  obtain ⟨predicate, hpredicate, h⟩ := bind_ok_iff.1 h
  obtain ⟨spelled, hspells, hread⟩ := exists_spelling hpredicate hyears
  cases h
  have hltl := Json.depth_lt_of_get? "left_operand" hdepth rfl
  have hltr := Json.depth_lt_of_get? "right_operand" hdepth rfl
  cases depth with
  | zero => cases hdepth
  | succ depth =>
    rw [ofWireWithin_join]
    refine (hleft hleftWire hb htables (Nat.le_of_lt_succ hltl)).bind fun left' c hc => ?_
    refine (hright hrightWire hc.grown.sound (htables.of_tables hc.tables)
      (Nat.le_of_lt_succ hltr)).bind fun right' c' hc' => ?_
    refine Ends.lift_bind (hread _ (Nat.le_refl _)) ?_
    have hbound' := hspells.bind_eq hfound
      (findIn?_of_alike (.cons hc.alike (.cons hc'.alike .nil)))
      ("join of " ++ left'.describe ++ " and " ++ right'.describe)
    have hspine := Rebuilt.ne ha (ha.join_left hr).1 (ha.join_right hr).1 (ha.join_new hr) hc hc'
    have hnew : ∀ unit ∈ left'.joinUnits, unit.id ≠ right'.id :=
      fun unit hunit => hspine unit (List.mem_append_right _ hunit)
    refine ends_of_run
      (join_ok_iff.2 ⟨hnew, spelled, _, hspells.equality, hbound', rfl, rfl⟩) ?_
    have hbuilt : Built c' (.join c'.size kind left' right' _) :=
      .join (hc'.grown.mono hc.grown.mem) hc'.grown.mem hnew hspells.equality hbound'
    refine .add (hc.grown.trans hc'.grown) (fun name => (hc'.tables name).trans (hc.tables name)) hbuilt rfl
      (.join hc.alike hc'.alike hne (hspine left' (mem_spine_self left')))
      ⟨hc.apart, hc'.apart, fun hmem => ?_⟩
    exact hspine right' (List.mem_append_left _ hmem) rfl

/-- The wire form of a relation is read back if the columns of its conditions are found by the
qualified names of the declared columns they read. -/
theorem rebuilds_of_found (hr : r ∈ a.relations) (hapart : r.Apart)
    (hyears : r.Conditions (Expr.Literals Value.FourDigitYear))
    (hfound : r.EachCondition fun operands condition => condition.All (Found operands)) :
    a.Rebuilds r := by
  induction r with
  | table t => exact table_rebuilds ha hr
  | selection id operand condition ih =>
    exact selection_rebuilds ha hr hfound.2 hyears.2
      (ih (ha.selection_operand hr).1 hapart hyears.1 hfound.1)
  | projection id operand whole shown ih =>
    cases whole with
    | none => intro w b depth h; cases h
    | some t =>
      exact whole_rebuilds ha hr (ih (ha.projection_operand hr).1 hapart hyears hfound)
  | join id kind left right condition ihl ihr =>
    exact join_rebuilds ha hr hapart.2.2 hfound.2.2 hyears.2.2
      (ihl (ha.join_left hr).1 hapart.1 hyears.1 hfound.1)
      (ihr (ha.join_right hr).1 hapart.2.1 hyears.2.1 hfound.2.1)

/-- Wherever the same tables are declared, the wire form of a relation is read back. -/
theorem rebuilds (hnames : a.Separable) (hr : r ∈ a.relations) (hapart : r.Apart)
    (hyears : r.Conditions (Expr.Literals Value.FourDigitYear)) : a.Rebuilds r := by
  intro w b depth h
  exact rebuilds_of_found ha hr hapart hyears (Sendable.found ha hnames hr ⟨w, h⟩) h

end

end Algebra

end RelationalAlgebra
