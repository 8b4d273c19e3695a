import Mathlib.Data.List.Forall2
import RelationalAlgebra.Proofs.Forms

/-!
# Names in relations of one form

Relations of one form need not show the same columns: a join of a relation with itself shows each
of its columns once, a join of two relations that are built alike shows them twice.  But a name
finds the first of two such columns, whatever the tree is, and so

* a name finds in relations of one form columns of one origin (`Sound.sameNames`),
* no two columns that names find have one origin (`Sound.distinct`),
* projections of one form show columns that correspond (`Sound.corresponds`).

From the first follows that one expression, bound twice, reads columns of the same origins, and
from the second that the same columns count as shown already when a projection is built twice.
-/

namespace RelationalAlgebra

open RelationalAlgebra.Relation
open List (Forall₂)

namespace Relation

/-! ## Relations of one form -/

/-- Two relations that one step has led to, from operands of the same forms. -/
inductive Parallel : Relation → Relation → Prop
  | table {t : Table} : Parallel (.table t) (.table t)
  | selection {id id' : Nat} {operand operand' : Relation} {condition condition' : Expr Nat}
      (operands : operand.form = operand'.form)
      (conditions : condition.map operand.origin = condition'.map operand'.origin) :
      Parallel (.selection id operand condition) (.selection id' operand' condition')
  | whole {id id' : Nat} {operand operand' : Relation} {t : Table}
      {shown shown' : List OutputColumn} (operands : operand.form = operand'.form) :
      Parallel (.projection id operand (some t) shown) (.projection id' operand' (some t) shown')
  | columns {id id' : Nat} {operand operand' : Relation} {shown shown' : List OutputColumn}
      (operands : operand.form = operand'.form)
      (columns : (shown.map fun c => (c.label, c.source.map operand.origin)) =
        shown'.map fun c => (c.label, c.source.map operand'.origin)) :
      Parallel (.projection id operand none shown) (.projection id' operand' none shown')
  | join {id id' : Nat} {kind : JoinKind} {left left' right right' : Relation}
      {condition condition' : Expr Nat} (lefts : left.form = left'.form)
      (rights : right.form = right'.form)
      (conditions : condition.map (Relation.join id kind left right condition).inputOrigin =
        condition'.map (Relation.join id' kind left' right' condition').inputOrigin) :
      Parallel (.join id kind left right condition) (.join id' kind left' right' condition')

/-- Some name stands for the column at a place. -/
def Named (r : Relation) (i : Nat) : Prop := ∃ name, r.find? name = some i

/-- A name finds columns of one origin in both relations, or in none. -/
def SameNames (r s : Relation) : Prop :=
  ∀ name, (r.find? name).map r.origin = (s.find? name).map s.origin

/-- No two columns that names find have one origin. -/
def Distinct (r : Relation) : Prop :=
  ∀ i j, r.Named i → r.Named j → r.origin i = r.origin j → i = j

/-- Two columns of projections that show the same under the same name. -/
structure Corresponds (operand operand' : Relation) (c d : OutputColumn) : Prop where
  name : c.name = d.name
  label : c.label = d.label
  source : c.source.map operand.origin = d.source.map operand'.origin
  named : c.source.All operand.Named
  named' : d.source.All operand'.Named

variable {r s operand operand' left right : Relation} {id i j : Nat} {kind : JoinKind}
  {condition : Expr Nat} {name : String} {c d : OutputColumn} {e e' : Expr Nat}

/-- Projections of one form project relations of one form. -/
theorem Parallel.operands {id' : Nat} {whole whole' : Option Table}
    {shown shown' : List OutputColumn}
    (h : Parallel (.projection id operand whole shown) (.projection id' operand' whole' shown')) :
    operand.form = operand'.form := by
  cases h with
  | whole operands => exact operands
  | columns operands => exact operands

/-- What a name finds in both relations has one origin. -/
theorem SameNames.origin_eq (h : SameNames r s) (hi : r.find? name = some i)
    (hj : s.find? name = some j) : r.origin i = s.origin j := by
  have heq := h name
  rw [hi, hj] at heq
  exact Option.some.inj heq

theorem SameNames.find?_eq_none (h : SameNames r s) (hnone : r.find? name = none) :
    s.find? name = none := by
  have heq := h name
  rw [hnone] at heq
  exact Option.map_eq_none_iff.1 heq.symm

theorem SameNames.symm (h : SameNames r s) : SameNames s r := fun name => (h name).symm

theorem SameNames.trans {t : Relation} (h : SameNames r s) (h' : SameNames s t) :
    SameNames r t := fun name => (h name).trans (h' name)

/-- Expressions over columns that names find are equal if their origins are. -/
theorem Distinct.eq_of_map_eq (h : Distinct r) (he : e.All r.Named) (he' : e'.All r.Named)
    (heq : e.map r.origin = e'.map r.origin) : e = e' :=
  Expr.eq_of_map_eq h he he' heq

/-- Columns that come from one place are shown by relations of one form, under one label. -/
theorem eq_of_origin_eq (hc : r.columns[i]? = some c) (hd : s.columns[j]? = some d)
    (h : r.origin i = s.origin j) :
    r.form = s.form ∧ c.label = d.label ∧
      c.source.map r.inputOrigin = d.source.map s.inputOrigin := by
  rw [origin_eq hc, origin_eq hd] at h
  exact Origin.shown.inj h

end Relation

namespace Algebra

variable {a : Algebra} {r s operand operand' left right : Relation} {id i j : Nat}
  {kind : JoinKind} {condition : Expr Nat} {name : String} {c d : OutputColumn}
  {whole : Option Table} {shown shown' : List OutputColumn}

/-! ## What is bound to one operand -/

/-- A bound expression reads columns that names find. -/
theorem named_of_bind {building : String} {e : Expr String} {bound : Expr Nat}
    (h : Algebra.bind [operand] building e = .ok bound) : bound.All operand.Named := by
  refine (all_of_bind h).mono ?_
  rintro i ⟨name, hname⟩
  exact ⟨name, (findIn?_one operand name).symm.trans hname⟩

/-- What holds of the columns of bound expressions holds of all columns of a projection. -/
theorem Sound.projection_induction (ha : a.Sound) {P : OutputColumn → Prop}
    (hr : Relation.projection id operand whole shown ∈ a.relations)
    (h : ∀ building e bound c, Algebra.bind [operand] building e = .ok bound →
      outputColumn operand bound = .ok c → P c) : ∀ c ∈ shown, P c := by
  have hstart : ∀ c ∈ ([] : List OutputColumn), P c := by simp
  have hstep : ∀ (before : List OutputColumn) (c : OutputColumn), (∀ d ∈ before, P d) → P c →
      ∀ d ∈ before ++ [c], P d := by
    intro before c hbefore hc d hd
    rcases List.mem_append.1 hd with hd | hd
    · exact hbefore d hd
    · rwa [List.mem_singleton.1 hd]
  cases whole with
  | some t =>
    refine foldlM_ok_induction (P := fun shown => ∀ c ∈ shown, P c) ?_ hstart (ha.whole_built hr).2
    intro before after e _ hbefore hrun
    obtain ⟨bound, hbound, hrun⟩ := bind_ok_iff.1 hrun
    rcases showOnce_ok hrun with rfl | ⟨c, hc, -, rfl⟩
    · exact hbefore
    · exact hstep before c hbefore (h _ _ bound c hbound hc)
  | none =>
    obtain ⟨args, hshown⟩ := ha.columns_built hr
    refine foldlM_ok_induction (P := fun shown => ∀ c ∈ shown, P c) ?_ hstart hshown
    intro before after arg _ hbefore hrun
    obtain ⟨e, -, hrun⟩ := bind_ok_iff.1 hrun
    obtain ⟨bound, hbound, hrun⟩ := bind_ok_iff.1 hrun
    rcases showNamed_ok hrun with rfl | ⟨c, hc, -, -, rfl⟩
    · exact hbefore
    · exact hstep before c hbefore (h _ _ bound c hbound hc)

/-- The columns of a projection show columns of the operand that names find. -/
theorem Sound.projection_named (ha : a.Sound)
    (hr : Relation.projection id operand whole shown ∈ a.relations) :
    ∀ c ∈ shown, c.source.All operand.Named := by
  refine ha.projection_induction hr fun building e bound c hbound hc => ?_
  rw [(outputColumn_ok hc).1]
  exact (named_of_bind hbound).stripAlias

/-- The name of a projected column is its label, or else the name of what it shows. -/
theorem Sound.projection_name (ha : a.Sound)
    (hr : Relation.projection id operand whole shown ∈ a.relations) :
    ∀ c ∈ shown, (c.label <|> nameOf? operand c.source) = some c.name := by
  refine ha.projection_induction hr fun building e bound c hbound hc => ?_
  obtain ⟨hsource, hlabel, hname⟩ := outputColumn_ok hc
  rw [hsource, hlabel, hname]

/-! ## Names of columns -/

/-- Relations of one form have been built alike. -/
theorem Sound.parallel (ha : a.Sound) (hr : r ∈ a.relations) (hs : s ∈ a.relations)
    (h : r.form = s.form) : Parallel r s := by
  cases r with
  | table t =>
    cases s with
    | table u =>
      obtain rfl := Relation.table.inj (ha.eq_of_id_eq hr hs (Form.table.inj h))
      exact .table
    | projection id' operand' whole' shown' => cases whole' <;> cases h
    | _ => cases h
  | selection id operand condition =>
    cases s with
    | selection id' operand' condition' =>
      obtain ⟨hoperand, hcondition⟩ := Form.selection.inj h
      exact .selection hoperand hcondition
    | projection id' operand' whole' shown' => cases whole' <;> cases h
    | _ => cases h
  | projection id operand whole shown =>
    cases s with
    | projection id' operand' whole' shown' =>
      cases whole with
      | some t =>
        cases whole' with
        | some t' =>
          obtain ⟨hoperand, hid⟩ := Form.whole.inj h
          have ht := ha.table_mem_of_tableNamed? (ha.projection_operand hr).1 (ha.whole_built hr).1
          have ht' := ha.table_mem_of_tableNamed? (ha.projection_operand hs).1
            (ha.whole_built hs).1
          obtain rfl := Relation.table.inj (ha.eq_of_id_eq ht ht' hid)
          exact .whole hoperand
        | none => cases h
      | none =>
        cases whole' with
        | some t' => cases h
        | none =>
          obtain ⟨hoperand, hcolumns⟩ := Form.columns.inj h
          exact .columns hoperand hcolumns
    | _ => cases whole <;> cases h
  | join id kind left right condition =>
    cases s with
    | join id' kind' left' right' condition' =>
      obtain ⟨rfl, hleft, hright, hcondition⟩ := Form.join.inj h
      exact .join hleft hright hcondition
    | projection id' operand' whole' shown' => cases whole' <;> cases h
    | _ => cases h

/-- A selection shows the columns of its operand. -/
theorem selection_passes (hc : (Relation.selection id operand condition).columns[i]? = some c) :
    ∃ d, operand.columns[i]? = some d ∧ c = ⟨d.name, none, .column i⟩ := by
  rw [columns, passThrough, List.getElem?_mapIdx] at hc
  obtain ⟨d, hd, rfl⟩ := Option.map_eq_some_iff.1 hc
  exact ⟨d, hd, rfl⟩

/-- A join shows columns of its operands. -/
theorem join_passes (hc : (Relation.join id kind left right condition).columns[i]? = some c) :
    ∃ operand ∈ [left, right], ∃ k d, operand.columns[k]? = some d ∧
      c = ⟨d.name, none, .column i⟩ ∧
      (Relation.join id kind left right condition).inputOrigin i = operand.origin k := by
  rw [columns, passThrough, List.getElem?_mapIdx] at hc
  obtain ⟨d, hd, rfl⟩ := Option.map_eq_some_iff.1 hc
  rw [inputOrigin]
  by_cases hlt : i < left.width
  · refine ⟨left, by simp, i, d, ?_, rfl, if_pos hlt⟩
    rw [joined] at hd
    split at hd
    · exact hd
    · rwa [List.getElem?_append_left hlt] at hd
  · refine ⟨right, by simp, i - left.width, d, ?_, rfl, if_neg hlt⟩
    rw [joined] at hd
    split at hd
    · exact absurd (List.getElem?_eq_some_iff.1 hd).1 hlt
    · rwa [List.getElem?_append_right (Nat.not_lt.1 hlt)] at hd

/-- The names of expressions are settled by where their columns come from. -/
theorem nameOf?_congr {e e' : Expr Nat} (he : e.All (· < operand.width))
    (he' : e'.All (· < operand'.width)) (heq : e.map operand.origin = e'.map operand'.origin)
    (h : ∀ {k l c d}, operand.columns[k]? = some c → operand'.columns[l]? = some d →
      operand.origin k = operand'.origin l → c.name = d.name) :
    nameOf? operand e = nameOf? operand' e' := by
  cases e with
  | column k =>
    cases e' with
    | column l =>
      have hk : operand.columns[k]? = some operand.columns[k] := List.getElem?_eq_getElem he
      have hl : operand'.columns[l]? = some operand'.columns[l] := List.getElem?_eq_getElem he'
      rw [nameOf?, nameOf?, hk, hl]
      exact congrArg some (h hk hl (Expr.column.inj heq))
    | _ => cases heq
  | literal value => cases e' <;> first | rfl | cases heq
  | aliased expr label =>
    cases e' with
    | aliased expr' label' => exact congrArg some (Expr.aliased.inj heq).2
    | _ => cases heq
  | equal x y => cases e' <;> first | rfl | cases heq
  | aggregate function argument =>
    cases e' with
    | aggregate function' argument' => rw [nameOf?, nameOf?, (Expr.aggregate.inj heq).1]
    | _ => cases heq

/-- The name of a column is settled by where it comes from. -/
theorem Sound.name_eq_of_origin_eq (ha : a.Sound) (hr : r ∈ a.relations) (hs : s ∈ a.relations)
    (hc : r.columns[i]? = some c) (hd : s.columns[j]? = some d) (h : r.origin i = s.origin j) :
    c.name = d.name := by
  induction r generalizing i j c d s with
  | table t =>
    obtain ⟨hform, -, hsource⟩ := eq_of_origin_eq hc hd h
    cases ha.parallel hr hs hform with
    | table =>
      rw [columns, List.getElem?_mapIdx] at hc hd
      obtain ⟨c', hc', rfl⟩ := Option.map_eq_some_iff.1 hc
      obtain ⟨d', hd', rfl⟩ := Option.map_eq_some_iff.1 hd
      obtain ⟨-, rfl⟩ := Origin.declared.inj (Expr.column.inj hsource)
      rw [hc', Option.some.injEq] at hd'
      rw [hd']
  | selection id operand condition ih =>
    obtain ⟨hform, -, hsource⟩ := eq_of_origin_eq hc hd h
    cases ha.parallel hr hs hform with
    | selection =>
      obtain ⟨c', hc', rfl⟩ := selection_passes hc
      obtain ⟨d', hd', rfl⟩ := selection_passes hd
      have hname := ih (ha.selection_operand hr).1 (ha.selection_operand hs).1 hc' hd'
        (Expr.column.inj hsource)
      exact hname
  | projection id operand whole shown ih =>
    obtain ⟨hform, hlabel, hsource⟩ := eq_of_origin_eq hc hd h
    cases s with
    | projection id' operand' whole' shown' =>
      have hc' := List.mem_of_getElem? hc
      have hd' := List.mem_of_getElem? hd
      have hname := ha.projection_name hr c hc'
      have hname' := ha.projection_name hs d hd'
      have hnames := nameOf?_congr ((ha.projection_shown hr).sources_lt c hc')
        ((ha.projection_shown hs).sources_lt d hd') hsource
        (ih (ha.projection_operand hr).1 (ha.projection_operand hs).1)
      rw [hlabel, hnames, hname'] at hname
      exact (Option.some.inj hname).symm
    | _ => cases ha.parallel hr hs hform
  | join id kind left right condition ihl ihr =>
    obtain ⟨hform, -, hsource⟩ := eq_of_origin_eq hc hd h
    cases ha.parallel hr hs hform with
    | join =>
      obtain ⟨operand, hop, k, c', hc', rfl, horigin⟩ := join_passes hc
      obtain ⟨operand', hop', l, d', hd', rfl, horigin'⟩ := join_passes hd
      have heq : operand.origin k = operand'.origin l := by
        rw [← horigin, ← horigin']
        exact Expr.column.inj hsource
      have hs' := ha.operand_mem hs hop'
      have hname : c'.name = d'.name := by
        rcases List.mem_pair.1 hop with rfl | rfl
        · exact ihl (ha.join_left hr).1 hs' hc' hd' heq
        · exact ihr (ha.join_right hr).1 hs' hc' hd' heq
      exact hname

/-! ## Building a projection twice -/

/-- Showing an expression adds its column, unless its source is shown already. -/
def Adds (operand : Relation) (e : Expr Nat) (shown shown' : List OutputColumn) : Prop :=
  if shown.any (·.source == e.stripAlias.1) then shown' = shown
  else ∃ c, outputColumn operand e = .ok c ∧ shown' = shown ++ [c]

theorem adds_of_showOnce {e : Expr Nat} (h : showOnce operand shown e = .ok shown') :
    Adds operand e shown shown' := by
  unfold showOnce at h
  unfold Adds
  split at h
  · next hany =>
    rw [if_pos hany]
    exact (Except.ok.inj h).symm
  · next hnew =>
    rw [if_neg hnew]
    obtain ⟨c, hc, rfl⟩ := map_ok_iff.1 h
    exact ⟨c, hc, rfl⟩

theorem adds_of_showNamed {building : String} {e : Expr Nat}
    (h : showNamed operand building shown e = .ok shown') : Adds operand e shown shown' := by
  unfold showNamed at h
  unfold Adds
  split at h
  · next hany =>
    rw [if_pos hany]
    exact (Except.ok.inj h).symm
  · next hnew =>
    rw [if_neg hnew]
    obtain ⟨c, hc, h⟩ := bind_ok_iff.1 h
    split at h
    · cases h
    · exact ⟨c, hc, (Except.ok.inj h).symm⟩

/-- In lists that are related item by item the first item that is looked for has one place. -/
theorem findIdx?_of_forall₂ {α β : Type} {R : α → β → Prop} {p : α → Bool} {q : β → Bool}
    {l : List α} {l' : List β} (h : Forall₂ R l l') (hpq : ∀ x y, R x y → p x = q y) :
    l.findIdx? p = l'.findIdx? q := by
  induction h with
  | nil => rfl
  | cons hxy _ ih => rw [List.findIdx?_cons, List.findIdx?_cons, hpq _ _ hxy, ih]

theorem any_of_forall₂ {α β : Type} {R : α → β → Prop} {p : α → Bool} {q : β → Bool}
    {l : List α} {l' : List β} (h : Forall₂ R l l') (hpq : ∀ x y, R x y → p x = q y) :
    l.any p = l'.any q := by
  rw [← List.findIdx?_isSome, ← List.findIdx?_isSome, findIdx?_of_forall₂ h hpq]

/-- Two runs over one list keep what each pair of steps keeps. -/
theorem foldlM_ok_related {α β γ ε ε' : Type} {f : β → α → Except ε β} {g : γ → α → Except ε' γ}
    {R : β → γ → Prop} {l : List α}
    (step : ∀ b c x b' c', R b c → f b x = .ok b' → g c x = .ok c' → R b' c') {b b' : β} {c c' : γ}
    (h : R b c) (hb : l.foldlM f b = .ok b') (hc : l.foldlM g c = .ok c') : R b' c' := by
  induction l generalizing b c with
  | nil =>
    cases hb
    cases hc
    exact h
  | cons x rest ih =>
    rw [List.foldlM_cons] at hb hc
    obtain ⟨b₁, hb₁, hb⟩ := bind_ok_iff.1 hb
    obtain ⟨c₁, hc₁, hc⟩ := bind_ok_iff.1 hc
    exact ih (step b c x b₁ c₁ h hb₁ hc₁) hb hc

theorem Sound.named_lt (ha : a.Sound) (hr : r ∈ a.relations) (h : r.Named i) : i < r.width := by
  obtain ⟨name, hname⟩ := h
  exact ha.find?_lt hr hname

/-- Without its outermost alias an expression over other columns is what it was over other
columns without its outermost alias. -/
theorem stripAlias_map {f : Nat → Origin} (e : Expr Nat) :
    (e.map f).stripAlias = (e.stripAlias.1.map f, e.stripAlias.2) := by
  cases e <;> rfl

section

variable (ha : a.Sound) (hop : operand ∈ a.relations) (hop' : operand' ∈ a.relations)
  (hnames : SameNames operand operand') (hd : Distinct operand) (hd' : Distinct operand')

include ha hop hop'

theorem corresponds_of_outputColumn {e e' : Expr Nat}
    (heq : e.map operand.origin = e'.map operand'.origin) (he : e.All operand.Named)
    (he' : e'.All operand'.Named) (hc : outputColumn operand e = .ok c)
    (hc' : outputColumn operand' e' = .ok d) : Corresponds operand operand' c d := by
  obtain ⟨hsource, hlabel, hname⟩ := outputColumn_ok hc
  obtain ⟨hsource', hlabel', hname'⟩ := outputColumn_ok hc'
  have hstrip := congrArg Expr.stripAlias heq
  rw [stripAlias_map, stripAlias_map, Prod.mk.injEq] at hstrip
  obtain ⟨hexpr, halias⟩ := hstrip
  have hnameOf := nameOf?_congr (he.stripAlias.mono fun _ => ha.named_lt hop)
    (he'.stripAlias.mono fun _ => ha.named_lt hop') hexpr (ha.name_eq_of_origin_eq hop hop')
  rw [halias, hnameOf, hname'] at hname
  exact
    { name := (Option.some.inj hname).symm
      label := by rw [hlabel, hlabel', halias]
      source := by rw [hsource, hsource', hexpr]
      named := by rw [hsource]; exact he.stripAlias
      named' := by rw [hsource']; exact he'.stripAlias }

include hd hd'

omit ha hop hop' in
/-- The same columns are shown already. -/
theorem source_eq_iff {e e' : Expr Nat} (h : Corresponds operand operand' c d)
    (heq : e.map operand.origin = e'.map operand'.origin) (he : e.All operand.Named)
    (he' : e'.All operand'.Named) : (c.source == e) = (d.source == e') := by
  rw [Bool.eq_iff_iff, beq_iff_eq, beq_iff_eq]
  constructor
  · intro hc
    exact hd'.eq_of_map_eq h.named' he' (by rw [← h.source, hc, heq])
  · intro hc
    exact hd.eq_of_map_eq h.named he (by rw [h.source, hc, heq])

theorem Adds.congr {e e' : Expr Nat} {before before' after after' : List OutputColumn}
    (heq : e.map operand.origin = e'.map operand'.origin) (he : e.All operand.Named)
    (he' : e'.All operand'.Named) (hbefore : Forall₂ (Corresponds operand operand') before before')
    (h : Adds operand e before after) (h' : Adds operand' e' before' after') :
    Forall₂ (Corresponds operand operand') after after' := by
  have hexpr : e.stripAlias.1.map operand.origin = e'.stripAlias.1.map operand'.origin := by
    have hstrip := congrArg Expr.stripAlias heq
    rw [stripAlias_map, stripAlias_map, Prod.mk.injEq] at hstrip
    exact hstrip.1
  have hany := any_of_forall₂ hbefore fun c d hcd =>
    source_eq_iff hd hd' hcd hexpr he.stripAlias he'.stripAlias
  unfold Adds at h h'
  rw [← hany] at h'
  split at h
  · next hshown =>
    rw [if_pos hshown] at h'
    rwa [h, h']
  · next hnew =>
    rw [if_neg hnew] at h'
    obtain ⟨c, hc, rfl⟩ := h
    obtain ⟨d, hd, rfl⟩ := h'
    exact List.rel_append hbefore
      (.cons (corresponds_of_outputColumn ha hop hop' heq he he' hc hd) .nil)

include hnames

omit ha hop hop' hd hd' in
theorem map_eq_of_bind {building building' : String} {e : Expr String} {bound bound' : Expr Nat}
    (h : Algebra.bind [operand] building e = .ok bound)
    (h' : Algebra.bind [operand'] building' e = .ok bound') :
    bound.map operand.origin = bound'.map operand'.origin := by
  refine Expr.map_eq_of_bindNames (fun name i j hi hj => ?_) h h'
  rw [bindColumn_ok_iff, findIn?_one] at hi hj
  exact hnames.origin_eq hi hj

/-- The columns of a whole table correspond. -/
theorem corresponds_wholeColumns {building building' : String} {t : Table}
    (h : wholeColumns operand building t = .ok shown)
    (h' : wholeColumns operand' building' t = .ok shown') :
    Forall₂ (Corresponds operand operand') shown shown' := by
  refine foldlM_ok_related ?_ .nil h h'
  intro before before' e after after' hbefore hrun hrun'
  obtain ⟨bound, hbound, hrun⟩ := bind_ok_iff.1 hrun
  obtain ⟨bound', hbound', hrun'⟩ := bind_ok_iff.1 hrun'
  exact Adds.congr ha hop hop' hd hd' (map_eq_of_bind hnames hbound hbound') (named_of_bind hbound)
    (named_of_bind hbound') hbefore (adds_of_showOnce hrun) (adds_of_showOnce hrun')

/-- The columns that the same arguments ask for correspond. -/
theorem corresponds_shownColumns {building building' : String} {args : List ProjectArg}
    (h : shownColumns operand building args = .ok shown)
    (h' : shownColumns operand' building' args = .ok shown') :
    Forall₂ (Corresponds operand operand') shown shown' := by
  refine foldlM_ok_related ?_ .nil h h'
  intro before before' arg after after' hbefore hrun hrun'
  obtain ⟨e, he, hrun⟩ := bind_ok_iff.1 hrun
  obtain ⟨bound, hbound, hrun⟩ := bind_ok_iff.1 hrun
  obtain ⟨e', he', hrun'⟩ := bind_ok_iff.1 hrun'
  cases he.symm.trans he'
  obtain ⟨bound', hbound', hrun'⟩ := bind_ok_iff.1 hrun'
  exact Adds.congr ha hop hop' hd hd' (map_eq_of_bind hnames hbound hbound') (named_of_bind hbound)
    (named_of_bind hbound') hbefore (adds_of_showNamed hrun) (adds_of_showNamed hrun')

end

/-! ## What names find -/

/-- Names settle the same in relations of the form of `r`. -/
structure Resolves (a : Algebra) (r : Relation) : Prop where
  sameNames : ∀ s ∈ a.relations, r.form = s.form → SameNames r s
  distinct : ∀ s ∈ a.relations, r.form = s.form → s.Distinct

/-- Among relations of that form names settle the same in any two. -/
theorem Resolves.sameNames_of {s' : Relation} (h : Resolves a r) (hs : s ∈ a.relations)
    (hs' : s' ∈ a.relations) (hform : r.form = s.form) (hform' : r.form = s'.form) :
    SameNames s s' :=
  (h.sameNames s hs hform).symm.trans (h.sameNames s' hs' hform')

/-- A relation that shows its operands' columns as they are finds what its operands find. -/
theorem sameNames_of_inputs (hform : r.form = s.form)
    (hr : ∀ i, r.origin i = .shown r.form none (.column (r.inputOrigin i)))
    (hs : ∀ i, s.origin i = .shown s.form none (.column (s.inputOrigin i)))
    (h : ∀ name, (r.find? name).map r.inputOrigin = (s.find? name).map s.inputOrigin) :
    SameNames r s := by
  intro name
  rw [funext hr, funext hs, hform]
  have hmap := congrArg (Option.map fun origin => Origin.shown s.form none (.column origin))
    (h name)
  rwa [Option.map_map, Option.map_map] at hmap

section

variable (ha : a.Sound)

include ha

theorem table_resolves {t : Table} (hr : Relation.table t ∈ a.relations) :
    Resolves a (.table t) := by
  refine ⟨fun s hs hform => ?_, fun s hs hform => ?_⟩
  · cases ha.parallel hr hs hform with
    | table => exact fun name => rfl
  · cases ha.parallel hr hs hform with
    | table =>
      intro i j _ _ h
      exact (Origin.declared.inj (Expr.column.inj (Origin.shown.inj h).2.2)).2

theorem selection_resolves (hr : Relation.selection id operand condition ∈ a.relations)
    (h : Resolves a operand) : Resolves a (.selection id operand condition) := by
  refine ⟨fun s hs hform => ?_, fun s hs hform => ?_⟩
  · cases ha.parallel hr hs hform with
    | @selection _ id' _ operand' _ condition' hoperand =>
      have hnames := h.sameNames operand' (ha.selection_operand hs).1 hoperand
      exact sameNames_of_inputs hform (fun _ => rfl) (fun _ => rfl) hnames
  · cases ha.parallel hr hs hform with
    | @selection _ id' _ operand' _ condition' hoperand =>
      intro i j hi hj heq
      exact h.distinct operand' (ha.selection_operand hs).1 hoperand i j hi hj
        (Expr.column.inj (Origin.shown.inj heq).2.2)

/-- The columns of projections of one form correspond. -/
theorem corresponds_of_form (hr : Relation.projection id operand whole shown ∈ a.relations)
    {id' : Nat} {whole' : Option Table}
    (hs : Relation.projection id' operand' whole' shown' ∈ a.relations)
    (hform : (Relation.projection id operand whole shown).form =
      (Relation.projection id' operand' whole' shown').form)
    (hnames : SameNames operand operand') (hd : Distinct operand) (hd' : Distinct operand') :
    Forall₂ (Corresponds operand operand') shown shown' := by
  have hop := (ha.projection_operand hr).1
  have hop' := (ha.projection_operand hs).1
  cases ha.parallel hr hs hform with
  | whole =>
    exact corresponds_wholeColumns ha hop hop' hnames hd hd' (ha.whole_built hr).2
      (ha.whole_built hs).2
  | columns operands columns =>
    rw [← List.forall₂_eq_eq_eq, List.forall₂_map_left_iff, List.forall₂_map_right_iff] at columns
    have hleft := (List.forall₂_and_left shown shown').2 ⟨fun c hc => hc, columns⟩
    have hboth := (List.forall₂_and_left shown' shown).2 ⟨fun d hd => hd, hleft.flip⟩
    refine hboth.flip.imp fun c d ⟨hd, hc, hcd⟩ => ?_
    obtain ⟨hlabel, hsource⟩ := Prod.mk.inj hcd
    have hnameOf := nameOf?_congr ((ha.projection_shown hr).sources_lt c hc)
      ((ha.projection_shown hs).sources_lt d hd) hsource (ha.name_eq_of_origin_eq hop hop')
    have hname := ha.projection_name hr c hc
    rw [hlabel, hnameOf, ha.projection_name hs d hd] at hname
    exact ⟨(Option.some.inj hname).symm, hlabel, hsource, ha.projection_named hr c hc,
      ha.projection_named hs d hd⟩

omit ha in
/-- The first columns that are looked for have one origin. -/
theorem map_origin_findIdx? {id' : Nat} {whole' : Option Table} {p q : OutputColumn → Bool}
    (hform : (Relation.projection id operand whole shown).form =
      (Relation.projection id' operand' whole' shown').form)
    (hshown : Forall₂ (Corresponds operand operand') shown shown')
    (hpq : ∀ c d, Corresponds operand operand' c d → p c = q d) :
    (shown.findIdx? p).map (Relation.projection id operand whole shown).origin =
      (shown'.findIdx? q).map (Relation.projection id' operand' whole' shown').origin := by
  have hplace := findIdx?_of_forall₂ hshown hpq
  cases hk : shown'.findIdx? q with
  | none =>
    rw [hplace, hk]
    rfl
  | some k =>
    have hlt' : k < shown'.length := (List.findIdx?_eq_some_iff_getElem.1 hk).1
    have hlt : k < shown.length := by rwa [hshown.length_eq]
    have hcd := hshown.get hlt hlt'
    have hc : (Relation.projection id operand whole shown).columns[k]? = some shown[k] :=
      List.getElem?_eq_getElem hlt
    have hd : (Relation.projection id' operand' whole' shown').columns[k]? = some shown'[k] :=
      List.getElem?_eq_getElem hlt'
    rw [hplace, hk, Option.map_some, Option.map_some, origin_eq hc, origin_eq hd, hform]
    congr 2
    · exact hcd.label
    · exact hcd.source

/-- Names settle the same in projections of one form if they do in the operands. -/
theorem projection_sameNames (hr : Relation.projection id operand whole shown ∈ a.relations)
    {id' : Nat} {whole' : Option Table}
    (hs : Relation.projection id' operand' whole' shown' ∈ a.relations)
    (hform : (Relation.projection id operand whole shown).form =
      (Relation.projection id' operand' whole' shown').form)
    (hnames : SameNames operand operand') (hd : Distinct operand) (hd' : Distinct operand') :
    SameNames (.projection id operand whole shown) (.projection id' operand' whole' shown') := by
  have hshown := corresponds_of_form ha hr hs hform hnames hd hd'
  intro name
  rw [find?, find?]
  by_cases hqualified : QualifiedName.isQualified name = true
  · rw [if_pos hqualified, if_pos hqualified]
    cases hi : operand.find? name with
    | none => rw [hnames.find?_eq_none hi]; rfl
    | some i =>
      cases hj : operand'.find? name with
      | none => rw [hnames.symm.find?_eq_none hj] at hi; cases hi
      | some j =>
        refine map_origin_findIdx? hform hshown fun c d hcd => ?_
        refine source_eq_iff hd hd' hcd ?_ ⟨name, hi⟩ ⟨name, hj⟩
        exact congrArg Expr.column (hnames.origin_eq hi hj)
  · rw [if_neg hqualified, if_neg hqualified]
    exact map_origin_findIdx? hform hshown fun c d hcd => by rw [hcd.name]

/-- A projection shows a source once, so its columns come from different places. -/
theorem projection_origin_inj (hr : Relation.projection id operand whole shown ∈ a.relations)
    (hd : operand.Distinct) (hi : i < shown.length) (hj : j < shown.length)
    (heq : (Relation.projection id operand whole shown).origin i =
      (Relation.projection id operand whole shown).origin j) : i = j := by
  have hci : (Relation.projection id operand whole shown).columns[i]? = some shown[i] :=
    List.getElem?_eq_getElem hi
  have hcj : (Relation.projection id operand whole shown).columns[j]? = some shown[j] :=
    List.getElem?_eq_getElem hj
  have hsame := hd.eq_of_map_eq (ha.projection_named hr _ (List.getElem_mem hi))
    (ha.projection_named hr _ (List.getElem_mem hj)) (eq_of_origin_eq hci hcj heq).2.2
  refine (List.getElem?_inj ?_ (ha.projection_shown hr).sources_nodup).1 ?_
  · simpa using hi
  · simpa [hi, hj] using hsame

theorem projection_distinct (hr : Relation.projection id operand whole shown ∈ a.relations)
    (hd : operand.Distinct) : (Relation.projection id operand whole shown).Distinct := by
  intro i j hi hj heq
  exact projection_origin_inj ha hr hd (ha.named_lt hr hi) (ha.named_lt hr hj) heq

theorem projection_resolves (hr : Relation.projection id operand whole shown ∈ a.relations)
    (h : Resolves a operand) : Resolves a (.projection id operand whole shown) := by
  refine ⟨fun s hs hform => ?_, fun s hs hform => ?_⟩
  · cases s with
    | projection id' operand' whole' shown' =>
      have hop' := (ha.projection_operand hs).1
      have hoperand := (ha.parallel hr hs hform).operands
      exact projection_sameNames ha hr hs hform (h.sameNames operand' hop' hoperand)
        (h.distinct operand (ha.projection_operand hr).1 rfl) (h.distinct operand' hop' hoperand)
    | _ => cases ha.parallel hr hs hform
  · cases s with
    | projection id' operand' whole' shown' =>
      have hoperand := (ha.parallel hr hs hform).operands
      exact projection_distinct ha hs (h.distinct operand' (ha.projection_operand hs).1 hoperand)
    | _ => cases ha.parallel hr hs hform

/-- What a name finds in a join is what it finds in the left operand, or else in the right one. -/
theorem map_inputOrigin_find?_join
    (hr : Relation.join id kind left right condition ∈ a.relations) (name : String) :
    ((Relation.join id kind left right condition).find? name).map
        (Relation.join id kind left right condition).inputOrigin =
      ((left.find? name).map left.origin <|> (right.find? name).map right.origin) := by
  rw [find?]
  cases hl : left.find? name with
  | some i =>
    have hlt := ha.find?_lt (ha.join_left hr).1 hl
    simp [inputOrigin_join_left hlt]
  | none =>
    cases hrt : right.find? name with
    | some j => simp [inputOrigin_join_right]
    | none => rfl

/-- What a name finds in joins of relations of the same forms comes from columns of one origin. -/
theorem map_inputOrigin_find? {id' : Nat} {kind' : JoinKind} {left' right' : Relation}
    {condition' : Expr Nat} (hr : Relation.join id kind left right condition ∈ a.relations)
    (hs : Relation.join id' kind' left' right' condition' ∈ a.relations)
    (hl : SameNames left left') (hrt : SameNames right right') (name : String) :
    ((Relation.join id kind left right condition).find? name).map
        (Relation.join id kind left right condition).inputOrigin =
      ((Relation.join id' kind' left' right' condition').find? name).map
        (Relation.join id' kind' left' right' condition').inputOrigin := by
  rw [map_inputOrigin_find?_join ha hr, map_inputOrigin_find?_join ha hs, hl name, hrt name]

/-- A name that finds a column of the right operand, past the left one, finds none that has the
origin of a column of the left operand. -/
theorem origin_ne_of_hidden (hr : Relation.join id kind left right condition ∈ a.relations)
    (hnames : left.form = right.form → SameNames left right) {name' : String}
    (hi : left.find? name' = some i) (hnone : left.find? name = none)
    (hj : right.find? name = some j) : left.origin i ≠ right.origin j := by
  intro heq
  have hc := List.getElem?_eq_getElem (ha.find?_lt (ha.join_left hr).1 hi)
  have hd := List.getElem?_eq_getElem (ha.find?_lt (ha.join_right hr).1 hj)
  rw [(hnames (eq_of_origin_eq hc hd heq).1).find?_eq_none hnone] at hj
  cases hj

/-- The columns of a join that names find come from different places. -/
theorem join_distinct (hr : Relation.join id kind left right condition ∈ a.relations)
    (hnames : left.form = right.form → SameNames left right) (hl : left.Distinct)
    (hrt : right.Distinct) : (Relation.join id kind left right condition).Distinct := by
  have hleft := (ha.join_left hr).1
  rintro i j ⟨name, hi⟩ ⟨name', hj⟩ heq
  rw [origin_join, origin_join, Origin.shown.injEq, Expr.column.injEq] at heq
  replace heq := heq.2.2
  rcases find?_join_some hi with hi | ⟨hnone, i', hi', rfl⟩
  · rw [inputOrigin_join_left (ha.find?_lt hleft hi)] at heq
    rcases find?_join_some hj with hj | ⟨hnone', j', hj', rfl⟩
    · rw [inputOrigin_join_left (ha.find?_lt hleft hj)] at heq
      exact hl i j ⟨name, hi⟩ ⟨name', hj⟩ heq
    · rw [inputOrigin_join_right] at heq
      exact (origin_ne_of_hidden ha hr hnames hi hnone' hj' heq).elim
  · rw [inputOrigin_join_right] at heq
    rcases find?_join_some hj with hj | ⟨hnone', j', hj', rfl⟩
    · rw [inputOrigin_join_left (ha.find?_lt hleft hj)] at heq
      exact (origin_ne_of_hidden ha hr hnames hj hnone hi' heq.symm).elim
    · rw [inputOrigin_join_right] at heq
      rw [hrt i' j' ⟨name, hi'⟩ ⟨name', hj'⟩ heq]

theorem join_resolves (hr : Relation.join id kind left right condition ∈ a.relations)
    (hl : Resolves a left) (hrt : Resolves a right) :
    Resolves a (.join id kind left right condition) := by
  refine ⟨fun s hs hform => ?_, fun s hs hform => ?_⟩
  · cases s with
    | join id' kind' left' right' condition' =>
      cases ha.parallel hr hs hform with
      | join lefts rights =>
        have hnames := hl.sameNames left' (ha.join_left hs).1 lefts
        have hnames' := hrt.sameNames right' (ha.join_right hs).1 rights
        exact sameNames_of_inputs hform (fun _ => rfl) (fun _ => rfl)
          (map_inputOrigin_find? ha hr hs hnames hnames')
    | projection id' operand' whole' shown' => cases ha.parallel hr hs hform
    | _ => cases ha.parallel hr hs hform
  · cases ha.parallel hr hs hform with
    | @join _ id' _ _ left' _ right' _ condition' lefts rights =>
      have hl' := (ha.join_left hs).1
      have hrt' := (ha.join_right hs).1
      exact join_distinct ha hs
        (fun hform' => hl.sameNames_of hl' hrt' lefts (lefts.trans hform'))
        (hl.distinct left' hl' lefts) (hrt.distinct right' hrt' rights)

theorem Sound.resolves (hr : r ∈ a.relations) : Resolves a r := by
  induction r with
  | table t => exact table_resolves ha hr
  | selection id operand condition ih =>
    exact selection_resolves ha hr (ih (ha.selection_operand hr).1)
  | projection id operand whole shown ih =>
    exact projection_resolves ha hr (ih (ha.projection_operand hr).1)
  | join id kind left right condition ihl ihr =>
    exact join_resolves ha hr (ihl (ha.join_left hr).1) (ihr (ha.join_right hr).1)

/-- A name finds columns of one origin in relations of one form. -/
theorem Sound.sameNames (hr : r ∈ a.relations) (hs : s ∈ a.relations) (h : r.form = s.form) :
    SameNames r s :=
  (ha.resolves hr).sameNames s hs h

/-- No two columns that names find have one origin. -/
theorem Sound.distinct (hr : r ∈ a.relations) : r.Distinct := (ha.resolves hr).distinct r hr rfl

end

end Algebra

end RelationalAlgebra
