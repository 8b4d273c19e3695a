import RelationalAlgebra.Proofs.Structure
import RelationalAlgebra.Relation.Equivalence

/-!
# The form of a relation

To compare two relations is to go down both trees side by side.  What is compared can be read off
each of them alone: the *form* of a relation is its tree without identities, in which every column
that is read is replaced by its *origin*, that is the form of the relation that shows it with its
label and its source.  So equivalence is equality of forms, and that it is an equivalence relation
needs no argument of its own.

* `Sound.equivalent_iff`: relations are equivalent exactly when their forms are equal.
* `Sound.sameColumn_iff`: columns are the same exactly when their origins are equal.
* `Sound.same_iff`: expressions are the same exactly when they are equal once every column is
  replaced by its origin.
-/

namespace RelationalAlgebra

open RelationalAlgebra.Relation

/-! ## Expressions over other columns -/

namespace Expr

variable {α β γ : Type}

/-- The expression with every column reference replaced. -/
def map (f : α → β) : Expr α → Expr β
  | .column reference => .column (f reference)
  | .literal value => .literal value
  | .aliased expr label => .aliased (expr.map f) label
  | .equal left right => .equal (left.map f) (right.map f)
  | .aggregate function argument => .aggregate function (argument.map f)

variable {f : α → γ} {g : β → γ} {P : α → Prop} {Q : β → Prop} {e : Expr α} {e' : Expr β}

/-- Expressions match when they become equal, if that is so for the columns they read. -/
theorem matchesBy_iff {same : α → β → Bool}
    (h : ∀ c, P c → ∀ d, Q d → (same c d = true ↔ f c = g d)) (he : e.All P) (he' : e'.All Q) :
    e.matchesBy same e' = true ↔ e.map f = e'.map g := by
  induction e generalizing e' with
  | column c =>
    cases e' with
    | column d => simpa [matchesBy, map] using h c he d he'
    | _ => simp [matchesBy, map]
  | literal value => cases e' <;> simp [matchesBy, map]
  | aliased expr label ih =>
    cases e' with
    | aliased expr' label' =>
      have hexpr := @ih expr' he he'
      simp [matchesBy, map, hexpr, and_comm]
    | _ => simp [matchesBy, map]
  | equal left right ihl ihr =>
    cases e' with
    | equal left' right' => simp [matchesBy, map, ihl he.1 he'.1, ihr he.2 he'.2]
    | _ => simp [matchesBy, map]
  | aggregate function argument ih =>
    cases e' with
    | aggregate function' argument' =>
      have hargument := @ih argument' he he'
      simp [matchesBy, map, hargument]
    | _ => simp [matchesBy, map]

/-- An expression becomes the same over other columns if its columns do. -/
theorem map_congr {f g : α → γ} {P : α → Prop} {e : Expr α} (he : e.All P)
    (h : ∀ c, P c → f c = g c) : e.map f = e.map g := by
  induction e with
  | column c => exact congrArg Expr.column (h c he)
  | literal value => rfl
  | aliased expr label ih => rw [map, map, ih he]
  | equal left right ihl ihr => rw [map, map, ihl he.1, ihr he.2]
  | aggregate function argument ih => rw [map, map, ih he]

theorem map_map {f : α → β} {g : β → γ} (e : Expr α) :
    (e.map f).map g = e.map fun c => g (f c) := by
  induction e with
  | column c => rfl
  | literal value => rfl
  | aliased expr label ih => rw [map, map, map, ih]
  | equal left right ihl ihr => rw [map, map, map, ihl, ihr]
  | aggregate function argument ih => rw [map, map, map, ih]

/-- Expressions that become equal are equal, if that is so for the columns they read. -/
theorem eq_of_map_eq {f : α → γ} {P : α → Prop} {e e' : Expr α}
    (h : ∀ c d, P c → P d → f c = f d → c = d) (he : e.All P) (he' : e'.All P)
    (heq : e.map f = e'.map f) : e = e' := by
  induction e generalizing e' with
  | column c =>
    cases e' with
    | column d => exact congrArg Expr.column (h c d he he' (Expr.column.inj heq))
    | _ => cases heq
  | literal value => cases e' <;> simp_all [map]
  | aliased expr label ih =>
    cases e' with
    | aliased expr' label' =>
      obtain ⟨hexpr, rfl⟩ := Expr.aliased.inj heq
      rw [@ih expr' he he' hexpr]
    | _ => cases heq
  | equal left right ihl ihr =>
    cases e' with
    | equal left' right' =>
      obtain ⟨hl, hr⟩ := Expr.equal.inj heq
      rw [ihl he.1 he'.1 hl, ihr he.2 he'.2 hr]
    | _ => cases heq
  | aggregate function argument ih =>
    cases e' with
    | aggregate function' argument' =>
      obtain ⟨rfl, hargument⟩ := Expr.aggregate.inj heq
      rw [@ih argument' he he' hargument]
    | _ => cases heq

/-- One expression, bound twice, becomes equal if that is so for what its names are bound to. -/
theorem map_eq_of_bindNames {ε : Type} {bind bind' : α → Except ε β} {f g : β → γ}
    (h : ∀ name c d, bind name = .ok c → bind' name = .ok d → f c = g d) {e : Expr α}
    {bound bound' : Expr β} (hbound : e.bindNames bind = .ok bound)
    (hbound' : e.bindNames bind' = .ok bound') : bound.map f = bound'.map g := by
  induction e generalizing bound bound' with
  | column name =>
    obtain ⟨c, hc, rfl⟩ := map_ok_iff.1 hbound
    obtain ⟨d, hd, rfl⟩ := map_ok_iff.1 hbound'
    exact congrArg Expr.column (h name c d hc hd)
  | literal value =>
    cases hbound
    cases hbound'
    rfl
  | aliased expr label ih =>
    obtain ⟨inner, hinner, rfl⟩ := map_ok_iff.1 hbound
    obtain ⟨inner', hinner', rfl⟩ := map_ok_iff.1 hbound'
    rw [map, map, ih hinner hinner']
  | equal left right ihl ihr =>
    obtain ⟨l, hl, hbound⟩ := bind_ok_iff.1 hbound
    obtain ⟨r, hr, hbound⟩ := bind_ok_iff.1 hbound
    obtain ⟨l', hl', hbound'⟩ := bind_ok_iff.1 hbound'
    obtain ⟨r', hr', hbound'⟩ := bind_ok_iff.1 hbound'
    cases hbound
    cases hbound'
    rw [map, map, ihl hl hl', ihr hr hr']
  | aggregate function argument ih =>
    obtain ⟨inner, hinner, rfl⟩ := map_ok_iff.1 hbound
    obtain ⟨inner', hinner', rfl⟩ := map_ok_iff.1 hbound'
    rw [map, map, ih hinner hinner']

end Expr

/-! ## Forms and origins -/

mutual

/-- What is left of a relation without identities. -/
inductive Form where
  | table (id : Nat)
  | selection (operand : Form) (condition : Expr Origin)
  | whole (operand : Form) (table : Nat)
  | columns (operand : Form) (shown : List (Option String × Expr Origin))
  | join (kind : JoinKind) (left right : Form) (condition : Expr Origin)

/-- Where a column comes from: it is declared, or it is shown by a relation. -/
inductive Origin where
  | declared (table place : Nat)
  | shown (relation : Form) (label : Option String) (source : Expr Origin)

end

namespace Relation

/-- The form of a relation with the origins of its columns. -/
structure Profile where
  form : Form
  /-- The origin of the column at a place. -/
  origin : Nat → Origin

/-- A column that shows one of the columns the relation reads. -/
def Profile.passing (form : Form) (input : Nat → Origin) : Profile :=
  ⟨form, fun i => .shown form none (.column (input i))⟩

/-- The form of a relation and the origins of its columns. -/
def profile : Relation → Profile
  | .table t => .passing (.table t.id) (.declared t.id)
  | .selection _ operand condition =>
    let input := operand.profile.origin
    .passing (.selection operand.profile.form (condition.map input)) input
  | .projection _ operand whole shown =>
    let input := operand.profile.origin
    let form := match whole with
      | some t => .whole operand.profile.form t.id
      | none => .columns operand.profile.form (shown.map fun c => (c.label, c.source.map input))
    { form
      origin := fun i =>
        match shown[i]? with
        | some c => .shown form c.label (c.source.map input)
        | none => .shown form none (.literal .null) }
  | .join _ kind left right condition =>
    let input := fun i =>
      if i < left.width then left.profile.origin i else right.profile.origin (i - left.width)
    .passing (.join kind left.profile.form right.profile.form (condition.map input)) input

/-- What is left of the relation without identities. -/
def form (r : Relation) : Form := r.profile.form

/-- The origin of a column of the relation. -/
def origin (r : Relation) (i : Nat) : Origin := r.profile.origin i

/-- The origin of a column that the expressions of the relation read. -/
def inputOrigin : Relation → Nat → Origin
  | .table t, i => .declared t.id i
  | .selection _ operand _, i => operand.origin i
  | .projection _ operand _ _, i => operand.origin i
  | .join _ _ left right _, i =>
    if i < left.width then left.origin i else right.origin (i - left.width)

/-- The number of columns that the expressions of the relation can read. -/
def inputWidth : Relation → Nat
  | .table t => t.columns.length
  | .selection _ operand _ => operand.width
  | .projection _ operand _ _ => operand.width
  | .join _ _ left right _ => left.width + right.width

section

variable {id i : Nat} {r operand left right : Relation} {condition : Expr Nat} {kind : JoinKind}
  {t : Table} {shown : List OutputColumn} {c : OutputColumn}

theorem form_selection : (Relation.selection id operand condition).form =
    .selection operand.form (condition.map operand.origin) := rfl

theorem form_whole :
    (Relation.projection id operand (some t) shown).form = .whole operand.form t.id := rfl

theorem form_columns : (Relation.projection id operand none shown).form =
    .columns operand.form (shown.map fun c => (c.label, c.source.map operand.origin)) := rfl

theorem form_join : (Relation.join id kind left right condition).form =
    .join kind left.form right.form
      (condition.map (Relation.join id kind left right condition).inputOrigin) := rfl

theorem origin_join : (Relation.join id kind left right condition).origin i =
    .shown (Relation.join id kind left right condition).form none
      (.column ((Relation.join id kind left right condition).inputOrigin i)) := rfl

theorem inputOrigin_join_left (h : i < left.width) :
    (Relation.join id kind left right condition).inputOrigin i = left.origin i := if_pos h

theorem inputOrigin_join_right : (Relation.join id kind left right condition).inputOrigin
    (left.width + i) = right.origin i := by
  rw [inputOrigin, if_neg (Nat.not_lt.2 (Nat.le_add_right _ _)), Nat.add_sub_cancel_left]

/-- The origin of a column says which relation shows it, under which label, from what. -/
theorem origin_eq (h : r.columns[i]? = some c) :
    r.origin i = .shown r.form c.label (c.source.map r.inputOrigin) := by
  cases r with
  | projection id operand whole shown =>
    have hc : shown[i]? = some c := h
    simp only [origin, profile, form, hc]
    rfl
  | table t =>
    obtain ⟨_, -, rfl⟩ := Option.map_eq_some_iff.1 (List.getElem?_mapIdx ▸ h)
    rfl
  | selection id operand condition =>
    obtain ⟨_, -, rfl⟩ := Option.map_eq_some_iff.1 (List.getElem?_mapIdx ▸ h)
    rfl
  | join id kind left right condition =>
    obtain ⟨_, -, rfl⟩ := Option.map_eq_some_iff.1 (List.getElem?_mapIdx ▸ h)
    rfl

/-- No column that a relation shows is a declared one. -/
theorem origin_ne_declared (r : Relation) (i table place : Nat) :
    r.origin i ≠ .declared table place := by
  cases r with
  | projection id operand whole shown =>
    simp only [origin, profile]
    split <;> exact Origin.noConfusion
  | table t => exact Origin.noConfusion
  | selection id operand condition => exact Origin.noConfusion
  | join id kind left right condition => exact Origin.noConfusion

end

end Relation

/-! ## The comparison compares forms -/

namespace Algebra

variable {a : Algebra} {r s operand left right : Relation} {i j id : Nat} {condition : Expr Nat}
  {kind : JoinKind} {whole : Option Table} {shown : List OutputColumn} {c : OutputColumn}

/-- What a column shows are columns that the relation reads. -/
theorem Sound.source_lt (ha : a.Sound) (hr : r ∈ a.relations) (hc : c ∈ r.columns) :
    c.source.All (· < r.inputWidth) := by
  cases r with
  | table t =>
    obtain ⟨i, hi, rfl⟩ := List.mem_mapIdx.1 hc
    exact hi
  | selection id operand condition =>
    obtain ⟨i, hi, rfl⟩ := List.mem_mapIdx.1 hc
    exact hi
  | projection id operand whole shown => exact (ha.projection_shown hr).sources_lt c hc
  | join id kind left right condition =>
    obtain ⟨i, hi, rfl⟩ := List.mem_mapIdx.1 hc
    refine Nat.lt_of_lt_of_le hi ?_
    rw [joined, inputWidth, width, width]
    split
    · exact Nat.le_add_right _ _
    · exact Nat.le_of_eq List.length_append

/-- Lists of columns show the same when they are equal once every column they read is replaced by
its origin. -/
theorem sameDerivations_iff (same : Comparison) {columns columns' : List OutputColumn}
    {f g : Nat → Origin} {P Q : Nat → Prop}
    (h : ∀ i, P i → ∀ j, Q j → (same.sameInput i s j = true ↔ f i = g j))
    (hall : ∀ c ∈ columns, c.source.All P) (hall' : ∀ c ∈ columns', c.source.All Q) :
    same.sameDerivations columns s columns' = true ↔
      (columns.map fun c => (c.label, c.source.map f)) =
        columns'.map fun c => (c.label, c.source.map g) := by
  induction columns generalizing columns' with
  | nil => cases columns' <;> simp [Comparison.sameDerivations]
  | cons c rest ih =>
    cases columns' with
    | nil => simp [Comparison.sameDerivations]
    | cons c' rest' =>
      rw [List.forall_mem_cons] at hall hall'
      have hsource := Expr.matchesBy_iff h hall.1 hall'.1
      have hrest := ih hall.2 hall'.2
      simp only [Comparison.sameDerivations, Comparison.sameDerivation, Bool.and_eq_true,
        beq_iff_eq, List.length_cons, List.zip_cons_cons, List.all_cons, List.map_cons,
        List.cons.injEq, Prod.mk.injEq, Nat.add_right_cancel_iff] at hrest ⊢
      rw [hsource, ← hrest]
      exact and_left_comm

/-- How a relation compares with others is settled by its form and the origins of the columns it
reads. -/
structure Decides (a : Algebra) (r : Relation) : Prop where
  equivalent : ∀ s ∈ a.relations, r.comparison.equivalent s = true ↔ r.form = s.form
  sameInput : ∀ s ∈ a.relations, ∀ i < r.inputWidth, ∀ j < s.inputWidth,
    r.comparison.sameInput i s j = true ↔ r.inputOrigin i = s.inputOrigin j

section

variable (ha : a.Sound)

include ha

theorem Decides.sameDerivation {d : OutputColumn} (h : Decides a r) (hr : r ∈ a.relations)
    (hs : s ∈ a.relations) (hc : c ∈ r.columns) (hd : d ∈ s.columns) :
    r.comparison.sameDerivation c s d = true ↔
      c.label = d.label ∧ c.source.map r.inputOrigin = d.source.map s.inputOrigin := by
  simp only [Comparison.sameDerivation, Bool.and_eq_true, beq_iff_eq]
  refine and_congr_right fun _ => ?_
  exact Expr.matchesBy_iff (h.sameInput s hs) (ha.source_lt hr hc)
    (ha.source_lt hs hd)

theorem Decides.sameColumn (h : Decides a r) (hr : r ∈ a.relations) (hs : s ∈ a.relations)
    (hi : i < r.width) (hj : j < s.width) :
    r.comparison.sameColumn r i s j = true ↔ r.origin i = s.origin j := by
  have hc : r.columns[i]? = some r.columns[i] := List.getElem?_eq_getElem hi
  have hd : s.columns[j]? = some s.columns[j] := List.getElem?_eq_getElem hj
  have hsame := h.sameDerivation ha hr hs (List.getElem_mem hi) (List.getElem_mem hj)
  simp only [Comparison.sameColumn, hc, hd, Bool.or_eq_true, Bool.and_eq_true, beq_iff_eq,
    h.equivalent s hs, hsame, origin_eq hc, origin_eq hd, Origin.shown.injEq, or_iff_right_iff_imp]
  -- the shortcut for one and the same column does no harm
  rintro ⟨hid, rfl⟩
  obtain rfl := ha.eq_of_id_eq hr hs hid
  exact ⟨rfl, rfl, rfl⟩

/-- A column that a derived relation reads is shown by an operand. -/
theorem Sound.exists_input (hs : s ∈ a.relations) (hj : j < s.inputWidth) (htable : s.table? = none) :
    ∃ operand k, s.input? j = some ⟨operand, k⟩ ∧ operand ∈ a.relations ∧ k < operand.width ∧
      s.inputOrigin j = operand.origin k := by
  cases s with
  | table t => cases htable
  | selection id operand condition =>
    exact ⟨operand, j, if_pos hj, (ha.selection_operand hs).1, hj, rfl⟩
  | projection id operand whole shown =>
    exact ⟨operand, j, if_pos hj, (ha.projection_operand hs).1, hj, rfl⟩
  | join id kind left right condition =>
    rw [inputWidth] at hj
    rw [input?, operands, locate, inputOrigin]
    by_cases hlt : j < left.width
    · rw [if_pos hlt, if_pos hlt]
      exact ⟨left, j, rfl, (ha.join_left hs).1, hlt, rfl⟩
    · have hright : j - left.width < right.width := by omega
      rw [if_neg hlt, if_neg hlt, locate, if_pos hright]
      exact ⟨right, _, rfl, (ha.join_right hs).1, hright, rfl⟩

theorem Decides.sameAsInput (h : Decides a operand) (hop : operand ∈ a.relations)
    (hs : s ∈ a.relations) (hi : i < operand.width) (hj : j < s.inputWidth) :
    operand.comparison.sameAsInput operand i s j = true ↔ operand.origin i = s.inputOrigin j := by
  unfold Comparison.sameAsInput
  cases htable : s.table? with
  | none =>
    obtain ⟨operand', k, hinput, hop', hk, horigin⟩ := ha.exists_input hs hj htable
    rw [hinput, horigin]
    exact h.sameColumn ha hop hop' hi hk
  | some t =>
    cases s with
    | table u => simp [input?, operands, locate, inputOrigin, origin_ne_declared]
    | _ => cases htable

/-- The shortcut for one and the same relation does no harm. -/
theorem Sound.or_equivalent_iff (hr : r ∈ a.relations) (hs : s ∈ a.relations) {same : Bool}
    (h : same = true ↔ r.form = s.form) : (r.id == s.id || same) = true ↔ r.form = s.form := by
  rw [Bool.or_eq_true, beq_iff_eq, h]
  apply or_iff_right_of_imp
  intro hid
  rw [ha.eq_of_id_eq hr hs hid]

theorem table_decides {t : Table} (hr : Relation.table t ∈ a.relations) :
    Decides a (.table t) where
  equivalent s hs := by
    simp only [comparison, beq_iff_eq]
    constructor
    · intro hid
      rw [ha.eq_of_id_eq hr hs hid]
    · intro hform
      cases s with
      | table u => exact Form.table.inj hform
      | projection id operand whole shown => cases whole <;> cases hform
      | _ => cases hform
  sameInput s hs i _ j hj := by
    cases htable : s.table? with
    | none =>
      obtain ⟨operand, k, -, -, -, horigin⟩ := ha.exists_input hs hj htable
      have hne := (origin_ne_declared operand k t.id i).symm
      rw [horigin]
      cases s with
      | table u => cases htable
      | _ => simp [comparison, inputOrigin, hne]
    | some u =>
      cases s with
      | table u => simp [comparison, inputOrigin]
      | _ => cases htable

/-- A column of an operand is compared with what another relation reads. -/
theorem selection_decides (hr : Relation.selection id operand condition ∈ a.relations)
    (h : Decides a operand) : Decides a (.selection id operand condition) := by
  have hinput : ∀ s ∈ a.relations, ∀ i < operand.width, ∀ j < s.inputWidth,
      operand.comparison.sameAsInput operand i s j = true ↔ operand.origin i = s.inputOrigin j :=
    fun s hs i hi j hj => h.sameAsInput ha (ha.selection_operand hr).1 hs hi hj
  refine ⟨fun s hs => ha.or_equivalent_iff hr hs ?_, hinput⟩
  cases s with
  | selection id' operand' condition' =>
    have hcondition := Expr.matchesBy_iff (hinput _ hs) (ha.selection_condition hr)
      (ha.selection_condition hs)
    rw [Bool.and_eq_true, h.equivalent operand' (ha.selection_operand hs).1, form_selection,
      form_selection, Form.selection.injEq]
    exact and_congr_right fun _ => hcondition
  | projection id' operand' whole' shown' => cases whole' <;> simp [form, profile, Profile.passing]
  | _ => simp [form, profile, Profile.passing]

theorem projection_decides (hr : Relation.projection id operand whole shown ∈ a.relations)
    (h : Decides a operand) : Decides a (.projection id operand whole shown) := by
  have hinput : ∀ s ∈ a.relations, ∀ i < operand.width, ∀ j < s.inputWidth,
      operand.comparison.sameAsInput operand i s j = true ↔ operand.origin i = s.inputOrigin j :=
    fun s hs i hi j hj => h.sameAsInput ha (ha.projection_operand hr).1 hs hi hj
  refine ⟨fun s hs => ha.or_equivalent_iff hr hs ?_, hinput⟩
  cases s with
  | projection id' operand' whole' shown' =>
    have hshown := sameDerivations_iff ⟨fun _ => false, operand.comparison.sameAsInput operand⟩
      (hinput _ hs) (ha.projection_shown hr).sources_lt (ha.projection_shown hs).sources_lt
    rw [Bool.and_eq_true, h.equivalent operand' (ha.projection_operand hs).1]
    cases whole with
    | some t =>
      cases whole' with
      | some t' => rw [form_whole, form_whole, Form.whole.injEq, beq_iff_eq]
      | none => simp [form, profile]
    | none =>
      cases whole' with
      | some t' => simp [form, profile]
      | none =>
        rw [form_columns, form_columns, Form.columns.injEq]
        exact and_congr_right fun _ => hshown
  | _ => cases whole <;> simp [form, profile, Profile.passing]

theorem join_decides (hr : Relation.join id kind left right condition ∈ a.relations)
    (hl : Decides a left) (hrt : Decides a right) :
    Decides a (.join id kind left right condition) := by
  have hinput : ∀ s ∈ a.relations, ∀ i < left.width + right.width, ∀ j < s.inputWidth,
      (Relation.join id kind left right condition).comparison.sameInput i s j = true ↔
        (Relation.join id kind left right condition).inputOrigin i = s.inputOrigin j := by
    intro s hs i hi j hj
    simp only [comparison, inputOrigin]
    split
    · next hlt => exact hl.sameAsInput ha (ha.join_left hr).1 hs hlt hj
    · next hge => exact hrt.sameAsInput ha (ha.join_right hr).1 hs (by omega) hj
  refine ⟨fun s hs => ha.or_equivalent_iff hr hs ?_, hinput⟩
  cases s with
  | join id' kind' left' right' condition' =>
    have hcondition := Expr.matchesBy_iff (hinput _ hs) (ha.join_condition hr)
      (ha.join_condition hs)
    rw [Bool.and_eq_true, Bool.and_eq_true, Bool.and_eq_true, beq_iff_eq,
      hl.equivalent left' (ha.join_left hs).1, hrt.equivalent right' (ha.join_right hs).1, form_join,
      form_join, Form.join.injEq, and_assoc, and_assoc]
    exact and_congr_right fun _ => and_congr_right fun _ => and_congr_right fun _ => hcondition
  | projection id' operand' whole' shown' => cases whole' <;> simp [form, profile, Profile.passing]
  | _ => simp [form, profile, Profile.passing]

theorem Sound.decides (hr : r ∈ a.relations) : Decides a r := by
  induction r with
  | table t => exact table_decides ha hr
  | selection id operand condition ih =>
    exact selection_decides ha hr (ih (ha.selection_operand hr).1)
  | projection id operand whole shown ih =>
    exact projection_decides ha hr (ih (ha.projection_operand hr).1)
  | join id kind left right condition ihl ihr =>
    exact join_decides ha hr (ihl (ha.join_left hr).1) (ihr (ha.join_right hr).1)

/-- Relations are equivalent exactly when their forms are equal. -/
theorem Sound.equivalent_iff (hr : r ∈ a.relations) (hs : s ∈ a.relations) :
    r.equivalent s = true ↔ r.form = s.form :=
  (ha.decides hr).equivalent s hs

/-- Columns are the same exactly when their origins are equal. -/
theorem Sound.sameColumn_iff (hr : r ∈ a.relations) (hs : s ∈ a.relations) (hi : i < r.width)
    (hj : j < s.width) : r.sameColumn i s j = true ↔ r.origin i = s.origin j :=
  (ha.decides hr).sameColumn ha hr hs hi hj

end

end Algebra

/-! ## Expressions over columns of relations -/

namespace BoundColumn

/-- The column is one of a table or of a relation of the algebra. -/
def Within (a : Algebra) : BoundColumn → Prop
  | .declared p => .table p.table ∈ a.relations ∧ p.place < p.table.columns.length
  | .shown c => c.relation ∈ a.relations ∧ c.place < c.relation.width

/-- Where the column comes from. -/
def origin : BoundColumn → Origin
  | .declared p => .declared p.table.id p.place
  | .shown c => c.relation.origin c.place

end BoundColumn

namespace Algebra

variable {a : Algebra} {c d : BoundColumn} {e f : Expr BoundColumn}

/-- Columns of tables and of relations are the same exactly when their origins are equal. -/
theorem Sound.boundColumn_same_iff (ha : a.Sound) (hc : c.Within a) (hd : d.Within a) :
    c.same d = true ↔ c.origin = d.origin := by
  cases c with
  | declared p =>
    cases d with
    | declared q => simp [BoundColumn.same, BoundColumn.origin]
    | shown d =>
      have hne := (origin_ne_declared d.relation d.place p.table.id p.place).symm
      simp [BoundColumn.same, BoundColumn.origin, hne]
  | shown c =>
    cases d with
    | declared q => simp [BoundColumn.same, BoundColumn.origin, origin_ne_declared]
    | shown d => exact ha.sameColumn_iff hc.1 hd.1 hc.2 hd.2

/-- Expressions are the same exactly when they are equal once every column is replaced by its
origin. -/
theorem Sound.same_iff (ha : a.Sound) (he : e.All (·.Within a)) (hf : f.All (·.Within a)) :
    e.same f = true ↔ e.map BoundColumn.origin = f.map BoundColumn.origin :=
  Expr.matchesBy_iff (fun _ hc _ hd => ha.boundColumn_same_iff hc hd) he hf

end Algebra

end RelationalAlgebra
