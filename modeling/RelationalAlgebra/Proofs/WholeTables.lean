import RelationalAlgebra.Proofs.AskedColumns
import RelationalAlgebra.Proofs.Finding
import RelationalAlgebra.Proofs.KeySearch

/-!
# Projections of a whole table

A projection of a whole table is found in two walks down the operand.  The table is reached from the left
and not through a projection of columns; each of its columns is then found by its qualified name, which
does go through projections of columns.  So a projection of columns that stands to the left of the table
that was reached can answer for some of the columns.

* The first walk ends at one place of the tree (`Relation.located?`), and it passes over the left operands
  of the joins where it turns right (`Relation.passedOver`).
* Each column is found, and reads the column of the table that it is named after (`exists_find?`), in some
  place of the tree (`Relation.occurrence?`).  That is the place of the first walk exactly if none of the
  relations passed over answers for the name (`occurrence?_eq_located?_iff`).

The main statement is `Arena.project_whole`.
-/

namespace RelationalAlgebra

open QualifiedName

namespace Relation

variable {a : Algebra} {r operand left right : Relation} {t : Table} {c : Column} {id i : Nat}
  {kind : JoinKind} {condition : Expr Nat} {whole : Option Table} {shown : List OutputColumn}
  {name : String}

/-! ## Places in a tree -/

/-- The way from a relation to one of its operands. -/
inductive Turn where
  /-- To the only operand. -/
  | down
  | left
  | right
  deriving DecidableEq, Repr

/-- What stands in a place of a tree. -/
def at? : Relation → List Turn → Option Relation
  | r, [] => some r
  | .selection _ operand _, .down :: path => operand.at? path
  | .projection _ operand _ _, .down :: path => operand.at? path
  | .join _ _ left _ _, .left :: path => left.at? path
  | .join _ _ _ right _, .right :: path => right.at? path
  | _, _ :: _ => none

/-- The place of the table that a column reads a declared column of. -/
def occurrence? : Relation → Nat → Option (List Turn)
  | .table t, i => if i < t.columns.length then some [] else none
  | .selection _ operand _, i => (operand.occurrence? i).map (.down :: ·)
  | .projection _ operand _ shown, i =>
    match shown[i]? with
    | some ⟨_, _, .column j⟩ => (operand.occurrence? j).map (.down :: ·)
    | _ => none
  | .join _ _ left right _, i =>
    if i < left.width then (left.occurrence? i).map (.left :: ·)
    else (right.occurrence? (i - left.width)).map (.right :: ·)

/-- The place of the table of a name that can be reached.  A projection that passes it on has it from its
operand. -/
def located? : Relation → String → Option (List Turn)
  | .table t, name => if t.name = name then some [] else none
  | .selection _ operand _, name => (operand.located? name).map (.down :: ·)
  | .projection _ operand whole _, name =>
    if (whole.filter (·.name == name)).isSome then (operand.located? name).map (.down :: ·) else none
  | .join _ _ left right _, name =>
    if (left.tableNamed? name).isSome then (left.located? name).map (.left :: ·)
    else (right.located? name).map (.right :: ·)

/-- The left operands of the joins where the way to the table of a name turns right. -/
def passedOver : Relation → String → List Relation
  | .table _, _ => []
  | .selection _ operand _, name => operand.passedOver name
  | .projection _ operand _ _, name => operand.passedOver name
  | .join _ _ left right _, name =>
    if (left.tableNamed? name).isSome then left.passedOver name else left :: right.passedOver name

theorem occurrence?_projection {d : OutputColumn} {j : Nat} (hd : shown[i]? = some d)
    (hsource : d.source = .column j) :
    (Relation.projection id operand whole shown).occurrence? i =
      (operand.occurrence? j).map (.down :: ·) := by
  obtain ⟨name, label, source⟩ := d
  cases hsource
  rw [occurrence?, hd]

theorem occurrence?_join_left (h : i < left.width) :
    (Relation.join id kind left right condition).occurrence? i =
      (left.occurrence? i).map (.left :: ·) := if_pos h

theorem occurrence?_join_right :
    (Relation.join id kind left right condition).occurrence? (left.width + i) =
      (right.occurrence? i).map (.right :: ·) := by
  rw [occurrence?, if_neg (Nat.not_lt.2 (Nat.le_add_right _ _)), Nat.add_sub_cancel_left]

/-- What a join reaches in its left operand it passes nothing over for. -/
theorem way_join_left (h : left.tableNamed? name = some t) :
    (Relation.join id kind left right condition).located? name =
        (left.located? name).map (.left :: ·) ∧
      (Relation.join id kind left right condition).passedOver name = left.passedOver name := by
  rw [located?, passedOver, h]
  exact ⟨rfl, rfl⟩

/-- A join passes its left operand over for what it reaches in the right one. -/
theorem way_join_right (h : left.tableNamed? name = none) :
    (Relation.join id kind left right condition).located? name =
        (right.located? name).map (.right :: ·) ∧
      (Relation.join id kind left right condition).passedOver name =
        left :: right.passedOver name := by
  rw [located?, passedOver, h]
  exact ⟨rfl, rfl⟩

/-- A column that reads a declared column reads it of the table in its place. -/
theorem at?_occurrence? {p : Physical} (h : r.physical? i = some p) :
    ∃ path, r.occurrence? i = some path ∧ r.at? path = some (.table p.table) := by
  induction r generalizing i with
  | table u =>
    rw [physical?] at h
    split at h
    · next hlt =>
      cases h
      exact ⟨[], if_pos hlt, rfl⟩
    · cases h
  | selection id operand condition ih =>
    obtain ⟨path, hpath, hat⟩ := ih h
    exact ⟨.down :: path, by rw [occurrence?, hpath, Option.map_some], hat⟩
  | projection id operand whole shown ih =>
    rw [physical?] at h
    split at h
    · next cname label j hshown =>
      obtain ⟨path, hpath, hat⟩ := ih h
      exact ⟨.down :: path, by rw [occurrence?_projection hshown rfl, hpath, Option.map_some], hat⟩
    · cases h
  | join id kind left right condition ihl ihr =>
    rw [physical?] at h
    split at h
    · next hlt =>
      obtain ⟨path, hpath, hat⟩ := ihl h
      exact ⟨.left :: path, by rw [occurrence?_join_left hlt, hpath, Option.map_some], hat⟩
    · next hge =>
      obtain ⟨path, hpath, hat⟩ := ihr h
      exact ⟨.right :: path, by rw [occurrence?, if_neg hge, hpath, Option.map_some], hat⟩

/-- Whatever a join reaches it reaches in its left operand, or in the right one if not in the left. -/
theorem tableNamed?_join_some (h : (Relation.join id kind left right condition).tableNamed? name = some t) :
    left.tableNamed? name = some t ∨ left.tableNamed? name = none ∧ right.tableNamed? name = some t := by
  rw [tableNamed?] at h
  split at h
  · next u hu => exact .inl (hu.trans h)
  · next hnone => exact .inr ⟨hnone, h⟩

/-- A projection reaches the table that it passes on. -/
theorem tableNamed?_projection_some
    (h : (Relation.projection id operand whole shown).tableNamed? name = some t) :
    whole = some t ∧ t.name = name := by
  rw [tableNamed?, Option.filter_eq_some_iff, beq_iff_eq] at h
  exact h

/-- The table that can be reached stands in its place. -/
theorem at?_located? (ha : a.Sound) (hr : r ∈ a.relations) (h : r.tableNamed? name = some t) :
    ∃ path, r.located? name = some path ∧ r.at? path = some (.table t) := by
  induction r with
  | table u =>
    rw [tableNamed?] at h
    split at h
    · next hname =>
      cases h
      exact ⟨[], if_pos hname, rfl⟩
    · cases h
  | selection id operand condition ih =>
    obtain ⟨path, hpath, hat⟩ := ih (ha.selection_operand hr).1 h
    exact ⟨.down :: path, by rw [located?, hpath, Option.map_some], hat⟩
  | projection id operand whole shown ih =>
    obtain ⟨rfl, rfl⟩ := tableNamed?_projection_some h
    obtain ⟨path, hpath, hat⟩ := ih (ha.projection_operand hr).1 (ha.whole_built hr).1
    exact ⟨.down :: path, by simp [located?, hpath], hat⟩
  | join id kind left right condition ihl ihr =>
    rcases tableNamed?_join_some h with hleft | ⟨hleft, hright⟩
    · obtain ⟨path, hpath, hat⟩ := ihl (ha.join_left hr).1 hleft
      exact ⟨.left :: path, by rw [(way_join_left hleft).1, hpath, Option.map_some], hat⟩
    · obtain ⟨path, hpath, hat⟩ := ihr (ha.join_right hr).1 hright
      exact ⟨.right :: path, by rw [(way_join_right hleft).1, hpath, Option.map_some], hat⟩

/-! ## The columns of a table that can be reached -/

section

variable (ha : a.Sound) (hnames : a.Separable)

include ha hnames

/-- A table has a column under its qualified name. -/
theorem exists_find?_table (ht : Relation.table t ∈ a.relations) (hc : c ∈ t.columns) :
    ∃ i, (Relation.table t).find? (t.qualified c.name) = some i ∧ t.columns[i]? = some c := by
  obtain ⟨i, hi⟩ := List.getElem?_of_mem hc
  exact ⟨i, (Table.position?_eq_some_iff (ha.table_columns_nodup ht) hi).2
    ((Table.ownName?_of_split (hnames t ht c hc)).2 ⟨rfl, rfl⟩), hi⟩

/-- A projection of a whole table shows each column of it under its own and its qualified name. -/
theorem exists_find?_whole (hr : Relation.projection id operand (some t) shown ∈ a.relations)
    (hc : c ∈ t.columns) :
    ∃ i d, (Relation.projection id operand (some t) shown).find? (t.qualified c.name) = some i ∧
      shown[i]? = some d ∧ d.name = c.name := by
  have ht := ha.table_mem_of_tableNamed? (ha.projection_operand hr).1 (ha.whole_built hr).1
  have hname : c.name ∈ shown.map (·.name) := by
    rw [names_whole ha hnames hr]
    exact List.mem_map_of_mem hc
  obtain ⟨d, hd, hdname⟩ := List.mem_map.1 hname
  obtain ⟨i, hi⟩ := List.getElem?_of_mem hd
  obtain ⟨-, j, hj, hsource⟩ := declared?_whole ha hnames hr hi
  have hplace := showing?_source (ha.projection_shown hr).sources_nodup hi
  rw [hdname] at hj
  refine ⟨i, d, ?_, hi, hdname⟩
  rw [hsource] at hplace
  rw [find?, if_pos (isQualified_of_split (hnames t ht c hc)), Table.qualified, hj]
  exact hplace

/-- The columns of a table that can be reached are found under their qualified names. -/
theorem exists_find? (hr : r ∈ a.relations) (h : r.tableNamed? t.name = some t) (hc : c ∈ t.columns) :
    ∃ i, r.find? (t.qualified c.name) = some i := by
  induction r with
  | table u =>
    rw [tableNamed?] at h
    split at h
    · cases h
      obtain ⟨i, hi, -⟩ := exists_find?_table ha hnames hr hc
      exact ⟨i, hi⟩
    · cases h
  | selection id operand condition ih => exact ih (ha.selection_operand hr).1 h
  | projection id operand whole shown ih =>
    obtain ⟨rfl, -⟩ := tableNamed?_projection_some h
    obtain ⟨i, -, hi, -⟩ := exists_find?_whole ha hnames hr hc
    exact ⟨i, hi⟩
  | join id kind left right condition ihl ihr =>
    rw [find?]
    cases hfound : left.find? (t.qualified c.name) with
    | some i => exact ⟨i, rfl⟩
    | none =>
      rcases tableNamed?_join_some h with hleft | ⟨-, hright⟩
      · obtain ⟨i, hi⟩ := ihl (ha.join_left hr).1 hleft
        rw [hfound] at hi
        cases hi
      · obtain ⟨i, hi⟩ := ihr (ha.join_right hr).1 hright
        exact ⟨left.width + i, by rw [hi, Option.map_some]⟩

/-- A column of a table that can be reached is found in the place of the table exactly if no relation
that was passed over on the way there answers for it. -/
theorem occurrence?_eq_located?_iff (hr : r ∈ a.relations) (h : r.tableNamed? t.name = some t)
    (hc : c ∈ t.columns) (hi : r.find? (t.qualified c.name) = some i) :
    r.occurrence? i = r.located? t.name ↔
      ∀ s ∈ r.passedOver t.name, s.find? (t.qualified c.name) = none := by
  have hmap : ∀ {turn : Turn} {x y : Option (List Turn)},
      x.map (turn :: ·) = y.map (turn :: ·) ↔ x = y :=
    (Option.map_injective (List.cons_injective)).eq_iff
  induction r generalizing i with
  | table u =>
    have hlt := ha.find?_lt hr hi
    rw [width_table] at hlt
    rw [tableNamed?] at h
    split at h
    · cases h
      simp [occurrence?, located?, passedOver, hlt]
    · cases h
  | selection id operand condition ih =>
    rw [occurrence?, located?, hmap]
    exact ih (ha.selection_operand hr).1 h hi
  | projection id operand whole shown ih =>
    obtain ⟨rfl, -⟩ := tableNamed?_projection_some h
    have hop := (ha.projection_operand hr).1
    have hreached := (ha.whole_built hr).1
    have hqualified := isQualified_of_split
      (hnames t (ha.table_mem_of_tableNamed? hop hreached) c hc)
    obtain ⟨d, hd, ⟨-, j, hj, hsource⟩ | ⟨hplain, -⟩⟩ := find?_projection_some hi
    · rw [occurrence?_projection hd hsource, located?, if_pos (by simp)]
      exact hmap.trans (ih hop hreached hj)
    · rw [hqualified] at hplain
      cases hplain
  | join id kind left right condition ihl ihr =>
    have hl := (ha.join_left hr).1
    have hrt := (ha.join_right hr).1
    rcases tableNamed?_join_some h with hleft | ⟨hleft, hright⟩
    · obtain ⟨j, hj⟩ := exists_find? ha hnames hl hleft hc
      rw [find?, hj] at hi
      cases hi
      rw [occurrence?_join_left (ha.find?_lt hl hj), (way_join_left hleft).1, (way_join_left hleft).2,
        hmap]
      exact ihl hl hleft hj
    · rw [(way_join_right hleft).1, (way_join_right hleft).2, List.forall_mem_cons]
      rcases find?_join_some hi with hj | ⟨hnone, j, hj, rfl⟩
      · -- the column is found on the left, and the table on the right
        obtain ⟨path, hpath, -⟩ := at?_located? ha hrt hright
        rw [occurrence?_join_left (ha.find?_lt hl hj), hpath, hj]
        refine iff_of_false (fun heq => ?_) (fun hall => Option.some_ne_none _ hall.1)
        obtain ⟨other, -, heq⟩ := Option.map_eq_some_iff.1 heq
        cases heq
      · rw [occurrence?_join_right]
        exact hmap.trans ((ihr hrt hright hj).trans (and_iff_right hnone).symm)

end

/-! ## Relations that are passed over -/

/-- A table that can be reached is one at the bottom. -/
theorem mem_bases_of_tableNamed? (ha : a.Sound) (hr : r ∈ a.relations)
    (h : r.tableNamed? name = some t) : t ∈ r.bases := by
  induction r generalizing name with
  | table u =>
    rw [tableNamed?] at h
    split at h
    · cases h
      exact List.mem_singleton_self _
    · cases h
  | selection id operand condition ih => exact ih (ha.selection_operand hr).1 h
  | projection id operand whole shown ih =>
    obtain ⟨rfl, -⟩ := tableNamed?_projection_some h
    exact ih (ha.projection_operand hr).1 (ha.whole_built hr).1
  | join id kind left right condition ihl ihr =>
    rcases tableNamed?_join_some h with hleft | ⟨-, hright⟩
    · exact List.mem_append_left _ (ihl (ha.join_left hr).1 hleft)
    · exact List.mem_append_right _ (ihr (ha.join_right hr).1 hright)

/-- A relation that is passed over does not reach the table, which stands to the right of all its
tables. -/
theorem mem_passedOver (ha : a.Sound) (hr : r ∈ a.relations) (h : r.tableNamed? name = some t)
    {s : Relation} (hs : s ∈ r.passedOver name) :
    s ∈ a.relations ∧ s.tableNamed? name = none ∧ (s.bases ++ [t]).Sublist r.bases := by
  induction r with
  | table u => cases hs
  | selection id operand condition ih => exact ih (ha.selection_operand hr).1 h hs
  | projection id operand whole shown ih =>
    obtain ⟨rfl, rfl⟩ := tableNamed?_projection_some h
    exact ih (ha.projection_operand hr).1 (ha.whole_built hr).1 hs
  | join id kind left right condition ihl ihr =>
    have hl := (ha.join_left hr).1
    have hrt := (ha.join_right hr).1
    rcases tableNamed?_join_some h with hleft | ⟨hleft, hright⟩
    · rw [(way_join_left hleft).2] at hs
      obtain ⟨hmem, hnone, hsublist⟩ := ihl hl hleft hs
      exact ⟨hmem, hnone, hsublist.trans (List.sublist_append_left ..)⟩
    · rw [(way_join_right hleft).2] at hs
      rcases List.mem_cons.1 hs with rfl | hs
      · refine ⟨hl, hleft, (List.Sublist.refl _).append ?_⟩
        exact List.singleton_sublist.2 (mem_bases_of_tableNamed? ha hrt hright)
      · obtain ⟨hmem, hnone, hsublist⟩ := ihr hrt hright hs
        exact ⟨hmem, hnone, hsublist.trans (List.sublist_append_right ..)⟩

/-- If a table stands once at the bottom, no relation that is passed over answers for it. -/
theorem find?_passedOver_of_nodup (ha : a.Sound) (hnames : a.Separable) (hr : r ∈ a.relations)
    (h : r.tableNamed? t.name = some t) (hc : c ∈ t.columns) (honce : r.bases.Nodup) :
    ∀ s ∈ r.passedOver t.name, s.find? (t.qualified c.name) = none := by
  intro s hs
  have ht := ha.table_mem_of_tableNamed? hr h
  obtain ⟨hmem, -, hsublist⟩ := mem_passedOver ha hr h hs
  cases hfound : s.find? (t.qualified c.name) with
  | none => rfl
  | some i =>
    obtain ⟨u, hu, hname⟩ :=
      exists_base_of_declared? (find?_declared ha hmem (hnames t ht c hc) hfound)
    obtain rfl := ha.table_eq_of_name_eq (mem_of_mem_bases ha hmem hu) ht hname
    have hdisjoint := (List.nodup_append'.1 (honce.sublist hsublist)).2.2
    exact (hdisjoint hu (List.mem_singleton_self _)).elim

/-- A relation without projections of columns that does not reach a table does not answer for it. -/
theorem find?_eq_none_of_leaves (ha : a.Sound) (hnames : a.Separable) (hr : r ∈ a.relations)
    (ht : Relation.table t ∈ a.relations) (hc : c ∈ t.columns) (h : r.tableNamed? t.name = none)
    (hleaves : ∀ leaf ∈ r.leaves, leaf.leafTable?.isSome) : r.find? (t.qualified c.name) = none := by
  have hsplit := hnames t ht c hc
  induction r with
  | table u =>
    cases hfound : (Relation.table u).find? (t.qualified c.name) with
    | none => rfl
    | some i =>
      have hdeclared := find?_declared ha hr hsplit hfound
      rw [declared?_table, Option.map_eq_some_iff] at hdeclared
      obtain ⟨_, -, heq⟩ := hdeclared
      rw [tableNamed?, if_pos (congrArg Prod.fst heq)] at h
      cases h
  | selection id operand condition ih => exact ih (ha.selection_operand hr).1 h hleaves
  | projection id operand whole shown ih =>
    cases whole with
    | none =>
      have hsome := hleaves _ (List.mem_singleton_self _)
      cases hsome
    | some u =>
      cases hfound : (Relation.projection id operand (some u) shown).find? (t.qualified c.name) with
      | none => rfl
      | some i =>
        have hlt := ha.find?_lt hr hfound
        have hdeclared := find?_declared ha hr hsplit hfound
        rw [(declared?_whole ha hnames hr (List.getElem?_eq_getElem hlt)).1] at hdeclared
        have hname : u.name = t.name := congrArg Prod.fst (Option.some.inj hdeclared)
        rw [tableNamed?, Option.filter_eq_none_iff] at h
        exact absurd (beq_iff_eq.2 hname) (h u rfl)
  | join id kind left right condition ihl ihr =>
    rw [leaves, List.forall_mem_append] at hleaves
    rw [tableNamed?] at h
    split at h
    · cases h
    · next hleft =>
      rw [find?, ihl (ha.join_left hr).1 hleft hleaves.1, ihr (ha.join_right hr).1 h hleaves.2]
      rfl

/-- No relation that is passed over answers for the table if none has a projection of columns among its
leaves, or if no table stands twice at the bottom. -/
theorem find?_passedOver_eq_none (ha : a.Sound) (hnames : a.Separable) (hr : r ∈ a.relations)
    (h : r.tableNamed? t.name = some t) (hc : c ∈ t.columns)
    (hclear : (∀ s ∈ r.passedOver t.name, ∀ leaf ∈ s.leaves, leaf.leafTable?.isSome) ∨ r.bases.Nodup) :
    ∀ s ∈ r.passedOver t.name, s.find? (t.qualified c.name) = none := by
  rcases hclear with hleaves | honce
  · intro s hs
    obtain ⟨hmem, hnone, -⟩ := mem_passedOver ha hr h hs
    have ht := ha.table_mem_of_tableNamed? hr h
    exact find?_eq_none_of_leaves ha hnames hmem ht hc hnone (hleaves s hs)
  · exact find?_passedOver_of_nodup ha hnames hr h hc honce

end Relation

namespace Algebra

open RelationalAlgebra.Relation

variable {a : Algebra} {operand : Relation} {t : Table}

/-! ## The projection -/

/-- A fold succeeds if every step does, from what the steps before it have kept. -/
theorem foldlM_ok_of_steps {α β ε : Type} {f : β → α → Except ε β} {P : List α → β → Prop}
    {l : List α}
    (step : ∀ done x b, done ++ [x] <+: l → P done b → ∃ b', f b x = .ok b' ∧ P (done ++ [x]) b')
    {b : β} (hb : P [] b) : ∃ b', l.foldlM f b = .ok b' ∧ P l b' := by
  have hrest : ∀ rest done b, done ++ rest = l → P done b →
      ∃ b', rest.foldlM f b = .ok b' ∧ P l b' := by
    intro rest
    induction rest with
    | nil =>
      intro done b hl hb
      rw [List.append_nil] at hl
      exact ⟨b, rfl, hl ▸ hb⟩
    | cons x rest ih =>
      intro done b hl hb
      have hl' : done ++ [x] ++ rest = l := by simpa using hl
      obtain ⟨b', hstep, hb'⟩ := step done x b ⟨rest, hl'⟩ hb
      obtain ⟨b'', hfold, hb''⟩ := ih (done ++ [x]) b' hl' hb'
      exact ⟨b'', by rw [List.foldlM_cons, hstep]; exact hfold, hb''⟩
  exact hrest l [] b rfl hb

/-- The column that shows one of a table's columns. -/
def wholeColumn (operand : Relation) (t : Table) (c : Column) : OutputColumn :=
  ⟨c.name, some c.name, .column ((operand.find? (t.qualified c.name)).getD 0)⟩

/-- A projection of a whole table that can be reached shows what the qualified names of its columns
find. -/
theorem wholeColumns_eq_ok (ha : a.Sound) (hnames : a.Separable) (hop : operand ∈ a.relations)
    (h : operand.tableNamed? t.name = some t) (building : String) :
    wholeColumns operand building t = .ok (t.columns.map (wholeColumn operand t)) := by
  have ht := ha.table_mem_of_tableNamed? hop h
  have hstep : ∀ done c shown, done ++ [c] <+: t.columns → shown = done.map (wholeColumn operand t) →
      ∃ shown', (do
        showOnce operand shown (← Algebra.bind [operand] building
          (.aliased (.column (t.qualified c.name)) c.name))) = .ok shown' ∧
        shown' = (done ++ [c]).map (wholeColumn operand t) := by
    rintro done c _ hstart rfl
    have hmem : ∀ d ∈ done ++ [c], d ∈ t.columns := fun d hd => hstart.subset hd
    have hc := hmem c (List.mem_append_right _ (List.mem_singleton_self c))
    obtain ⟨i, hi⟩ := exists_find? ha hnames hop h hc
    have hbound : Algebra.bind [operand] building (.aliased (.column (t.qualified c.name)) c.name) =
        .ok (.aliased (.column i) c.name) := by
      have hcolumn : bindColumn [operand] building (t.qualified c.name) = .ok i := by
        rw [bindColumn_ok_iff, findIn?_one, hi]
      rw [Algebra.bind, Expr.bindNames, Expr.bindNames, hcolumn]
      rfl
    have hreads : ∀ d ∈ done.map (wholeColumn operand t),
        ∃ j, d.source = .column j ∧ operand.declared? j = some (t.name, d.name) := by
      intro d hd
      obtain ⟨c', hc', rfl⟩ := List.mem_map.1 hd
      have hc't := hmem c' (List.mem_append_left _ hc')
      obtain ⟨j, hj⟩ := exists_find? ha hnames hop h hc't
      refine ⟨j, by rw [wholeColumn, hj, Option.getD_some], ?_⟩
      exact find?_declared ha hop (hnames t ht c' hc't) hj
    have hfresh : c.name ∉ (done.map (wholeColumn operand t)).map (·.name) := by
      have hnodup := (ha.table_columns_nodup ht).sublist (hstart.sublist.map (·.name))
      rw [List.map_append, List.nodup_append] at hnodup
      rw [List.map_map]
      exact fun hdone => hnodup.2.2 _ hdone _ (List.mem_singleton_self _) rfl
    obtain ⟨j, -, hshow⟩ := showOnce_qualified ha hnames hop ht hc hbound hreads hfresh
    rw [hbound]
    refine ⟨_, hshow, ?_⟩
    rcases showOnce_ok hshow with heq | ⟨d, hd, -, heq⟩
    · simp at heq
    · cases hd
      rw [heq, List.map_append, List.map_singleton, wholeColumn, hi]
      rfl
  rw [wholeColumns_eq]
  obtain ⟨shown, hshown, rfl⟩ := foldlM_ok_of_steps hstep rfl
  exact hshown

end Algebra

namespace Arena

open RelationalAlgebra.Relation

variable {a a' : Arena} {b : Algebra} {r : Relation} {t : Table} {n j whole : Nat} {name : String}

/-- The declared tables. -/
def declaredTables (a : Arena) : List Table :=
  a.nodes.filterMap fun node =>
    match node.operator with
    | .table t => some t
    | .selection .. => none
    | .projection .. => none
    | .join .. => none

/-- The qualified name of every declared column can be taken apart into the table and the column. -/
def Separable (a : Arena) : Prop :=
  ∀ t ∈ a.declaredTables, ∀ c ∈ t.columns, split (t.qualified c.name) = some (t.name, c.name)

instance (a : Arena) : Decidable a.Separable :=
  inferInstanceAs (Decidable (∀ t ∈ a.declaredTables, ∀ c ∈ t.columns, _))

theorem Stores.separable (h : Stores a b) (hnames : a.Separable) : b.Separable := by
  intro t ht
  obtain ⟨memo, hnode, -⟩ := h.keeps _ ht
  exact hnames t (List.mem_filterMap.2 ⟨_, List.mem_of_getElem? hnode, rfl⟩)

/-- The column passes on a column of the relation `n`, whose tree is `r`, that reads the table in a place
of the tree. -/
def ComesFrom (a : Arena) (n : Nat) (r : Relation) (path : List Turn) (c : Derived) : Prop :=
  ∃ d i columns, c.ancestor = .column (.derived d) ∧ a.columns n = .ok columns ∧
    columns[i]? = some d ∧ r.occurrence? i = some path

/-- A column of the operand comes from one place. -/
theorem Stores.comesFrom_iff (h : Stores a b) (hr : r ∈ b.relations) {path : List Turn} {c : Derived}
    {d i : Nat} (hancestor : c.ancestor = .column (.derived d)) (hd : (a.order r.id)[i]? = some d) :
    a.ComesFrom r.id r path c ↔ r.occurrence? i = some path := by
  constructor
  · rintro ⟨d', i', columns, hancestor', hcolumns, hd', hpath⟩
    obtain rfl := Except.ok.inj ((h.columns_eq hr).symm.trans hcolumns)
    rw [hancestor] at hancestor'
    cases hancestor'
    obtain rfl : i' = i := (List.getElem?_inj (List.getElem?_eq_some_iff.1 hd').1
      (h.nodup_order hr)).1 (hd'.trans hd.symm)
    exact hpath
  · intro hpath
    exact ⟨d, i, _, hancestor, h.columns_eq hr, hd, hpath⟩

/-- A projection of a table that can be reached succeeds. -/
theorem Stores.exists_whole (h : Stores a b) (hnames : b.Separable) (hr : r ∈ b.relations)
    {arg : Arg Nat} {read : Algebra.ProjectArg} (hread : arg.read a.relation = .ok read)
    (hwhole : Algebra.projectedTable? r [read] = some t) (hreached : r.tableNamed? t.name = some t) :
    ∃ a' memo, (project r.id [arg]).on a = (.ok b.size, a') ∧
      a'.node b.size = .ok ⟨.projection r.id (some t.id) [], memo⟩ ∧
      Holds a' b.size (a.encode [r]) memo (t.columns.map (Algebra.wholeColumn r t)) := by
  set p := Relation.projection b.size r (some t) (t.columns.map (Algebra.wholeColumn r t))
  have hrun : (Algebra.project r [read]).run b = .ok (p, b.add p) := by
    rw [Algebra.run_project, if_neg (by simp), hwhole]
    simp only []
    rw [Algebra.wholeColumns_eq_ok h.sound hnames hr hreached]
    rfl
  have hreads : [arg].mapM (·.read a.relation) = .ok [read] := by
    rw [List.mapM_cons, hread]
    rfl
  have hfollows := project_follows h hr hreads
  rw [hrun] at hfollows
  obtain ⟨j, a', hproject, rfl, hstores'⟩ := hfollows
  obtain ⟨-, memo, hnode, hholds⟩ := hstores'.exists_added
  refine ⟨a', memo, hproject, hnode, ?_⟩
  rw [← (keeping_project r.id [arg]).encode_eq hproject h (by simpa using hr)]
  exact hholds

/-- What is stored of a column of a projection of a whole table. -/
theorem Stores.exists_wholeColumn (h : Stores a b) (hnames : b.Separable) (hr : r ∈ b.relations)
    (hreached : r.tableNamed? t.name = some t) {c : Column} (hc : c ∈ t.columns) :
    ∃ i d, r.find? (t.qualified c.name) = some i ∧ (a.order r.id)[i]? = some d ∧
      a.encode [r] (Algebra.wholeColumn r t c).source = .column (.derived d) ∧
      r.declared? i = some (t.name, c.name) := by
  obtain ⟨i, hi⟩ := exists_find? h.sound hnames hr hreached hc
  obtain ⟨d, -, hd, -⟩ := h.exists_derived hr (h.sound.find?_lt hr hi)
  refine ⟨i, d, hi, hd, ?_, ?_⟩
  · rw [Algebra.wholeColumn, hi]
    exact encode_column (inputs_one (a := a) ▸ hd)
  · have ht := h.sound.table_mem_of_tableNamed? hr hreached
    exact find?_declared h.sound hr (hnames t ht c hc) hi

/-- Where a column of a projection of a whole table comes from. -/
theorem Stores.wholeColumn_comesFrom (h : Stores a b) (hnames : b.Separable) (hr : r ∈ b.relations)
    (hreached : r.tableNamed? t.name = some t) {path : List Turn} (hpath : r.located? t.name = some path)
    {c : Column} (hc : c ∈ t.columns) {stored : Derived}
    (hstored : stored.ancestor = a.encode [r] (Algebra.wholeColumn r t c).source) :
    (∃ at', a.ComesFrom r.id r at' stored ∧ r.at? at' = some (.table t)) ∧
      (∃ d, stored.ancestor = .column (.derived d) ∧ a.LeadsTo (.derived d) t.name c.name) ∧
      (a.ComesFrom r.id r path stored ↔
        ∀ s ∈ r.passedOver t.name, s.find? (qualify t.name c.name) = none) := by
  obtain ⟨i, d, hi, hd, hencode, hdeclared⟩ := h.exists_wholeColumn hnames hr hreached hc
  have hancestor := hstored.trans hencode
  refine ⟨?_, ⟨d, hancestor, (h.leadsTo_iff hr hd).2 hdeclared⟩, ?_⟩
  · obtain ⟨p, hp, hpnames⟩ := Option.bind_eq_some_iff.1 hdeclared
    obtain ⟨place, hplace, hstands⟩ := at?_occurrence? hp
    have hpt : p.table = t := by
      obtain ⟨column, -, heq⟩ := Option.map_eq_some_iff.1 hpnames
      exact h.sound.table_eq_of_name_eq (physical?_mem h.sound hr hp)
        (h.sound.table_mem_of_tableNamed? hr hreached) (congrArg Prod.fst heq)
    exact ⟨place, (h.comesFrom_iff hr hancestor hd).2 hplace, hpt ▸ hstands⟩
  · rw [h.comesFrom_iff hr hancestor hd, ← hpath]
    exact occurrence?_eq_located?_iff h.sound hnames hr hreached hc hi

/-- A projection of a table that can be reached succeeds.  Its columns are those of the table, in their
order and under their names, and each passes on a column of the operand that leads to the declared column
of the name.  It comes from the place of the table that was reached exactly if no relation passed over on
the way there answers for its qualified name.  That is so for every column if no relation that was passed
over has a projection of columns among its leaves, and also if no table stands twice at the bottom. -/
theorem project_whole (h : Reached a) (hnames : a.Separable) (hn : n < a.nodes.length) {arg : Arg Nat}
    {read : Algebra.ProjectArg} (hread : arg.read a.relation = .ok read)
    (hname : read.tableName? = some name) (hreach : a.reach n name = .ok (some whole)) :
    ∃ r t path j a' memo columns,
      a.relation n = .ok r ∧ a.table whole = .ok t ∧ t.name = name ∧
      r.located? name = some path ∧ r.at? path = some (.table t) ∧
      (project n [arg]).on a = (.ok j, a') ∧
      a'.node j = .ok ⟨.projection n (some whole) [], memo⟩ ∧
      memo.order.mapM a'.column = .ok columns ∧
      columns.map (·.name) = t.columns.map (·.name) ∧
      (∀ c ∈ columns, c.owner = j ∧ (∃ at', a.ComesFrom n r at' c ∧ r.at? at' = some (.table t)) ∧
        (∃ d, c.ancestor = .column (.derived d) ∧ a.LeadsTo (.derived d) name c.name) ∧
        (a.ComesFrom n r path c ↔ ∀ s ∈ r.passedOver name, s.find? (qualify name c.name) = none)) ∧
      ((∀ s ∈ r.passedOver name, ∀ leaf ∈ s.leaves, leaf.leafTable?.isSome) ∨ r.bases.Nodup →
        ∀ c ∈ columns, a.ComesFrom n r path c) := by
  obtain ⟨b, -, hstores⟩ := h.sound
  obtain ⟨r, hr, rfl⟩ := hstores.exists_mem hn
  have ha := hstores.sound
  have hnames := hstores.separable hnames
  rw [hstores.reach_eq hr, Except.ok.injEq, Option.map_eq_some_iff] at hreach
  obtain ⟨t, hreached, rfl⟩ := hreach
  obtain rfl := name_of_tableNamed? hreached
  have ht := ha.table_mem_of_tableNamed? hr hreached
  obtain ⟨path, hpath, hat⟩ := at?_located? ha hr hreached
  have hwhole : Algebra.projectedTable? r [read] = some t := by
    rw [Algebra.projectedTable?, hname, Option.bind_some, hreached]
  obtain ⟨a', memo, hproject, hnode, hholds⟩ := hstores.exists_whole hnames hr hread hwhole hreached
  refine ⟨r, t, path, b.size, a', memo, _, hstores.relation_eq hr, hstores.table_eq ht, rfl, hpath, hat,
    hproject, hnode, hholds.mapM_column, ?_, ?_, ?_⟩
  · rw [List.map_map, List.map_map]
    rfl
  · rw [List.map_map, List.forall_mem_map]
    intro c hc
    exact ⟨rfl, hstores.wholeColumn_comesFrom hnames hr hreached hpath hc rfl⟩
  · intro hclear
    rw [List.map_map, List.forall_mem_map]
    intro c hc
    exact (hstores.wholeColumn_comesFrom hnames hr hreached hpath hc rfl).2.2.2
      (find?_passedOver_eq_none ha hnames hr hreached hc hclear)

/-- A table beside a projection of one of its columns, which is passed over on the way to the table. -/
def keyed : Arena :=
  let builds : List (Construction Nat) :=
    [.createTable "blogs" [("id", .integer), ("title", .string)],
      .project 0 [.expr (.aliased (.column "id") "key")],
      .join .inner 1 0 (.expr (.equal (.column "key") (.column "title")))]
  builds.foldl (fun a k => (k.run.on a).2) .empty

theorem keyed_reached : Reached keyed := by
  refine .build _ (.build _ (.build _ .empty ?_) ?_) ?_
  all_goals decide_cbv

/-- The table as it is stored. -/
def keyedTable : Table := ⟨0, "blogs", [⟨"id", .integer⟩, ⟨"title", .string⟩]⟩

/-- The projection as a tree. -/
def keyedProjection : Relation := .projection 1 (.table keyedTable) none [⟨"key", some "key", .column 0⟩]

/-- The projection of the table has the column `id` from beside the table that was reached, and the column
`title` from the table itself. -/
theorem project_whole_keyed :
    ∃ r path j a' memo columns, keyed.relation 2 = .ok r ∧ r.located? "blogs" = some path ∧
      (project 2 [.record "blogs"]).on keyed = (.ok j, a') ∧
      a'.node j = .ok ⟨.projection 2 (some 0) [], memo⟩ ∧
      memo.order.mapM a'.column = .ok columns ∧ columns.map (·.name) = ["id", "title"] ∧
      ∀ c ∈ columns, keyed.ComesFrom 2 r path c ↔ c.name = "title" := by
  have hvalue : (fun a : Arena => (decide (2 < a.nodes.length), decide a.Separable,
      a.reach 2 "blogs", a.table 0, a.relation 2)) keyed = (true, true, .ok (some 0), .ok keyedTable,
        .ok (.join 2 .inner keyedProjection (.table keyedTable) (.equal (.column 0) (.column 2)))) := by cbv
  simp only [Prod.mk.injEq, decide_eq_true_eq] at hvalue
  obtain ⟨hn, hseparable, hreach, hblogs, htree⟩ := hvalue
  have hread : (Arg.record "blogs" : Arg Nat).read keyed.relation = .ok (.record "blogs") := rfl
  obtain ⟨r, t, path, j, a', memo, columns, hrelation, htable, -, hpath, -, hproject, hnode, hcolumns,
    hnames, hall, -⟩ :=
    project_whole keyed_reached hseparable hn hread rfl hreach
  obtain rfl := Except.ok.inj (hblogs.symm.trans htable)
  obtain rfl := Except.ok.inj (htree.symm.trans hrelation)
  refine ⟨_, path, j, a', memo, columns, htree, hpath, hproject, hnode, hcolumns, hnames, ?_⟩
  have hover : (Relation.join 2 .inner keyedProjection (.table keyedTable)
      (.equal (.column 0) (.column 2))).passedOver "blogs" = [keyedProjection] := (way_join_right rfl).2
  have hid : keyedProjection.find? (qualify "blogs" "id") = some 0 := by cbv
  have htitle : keyedProjection.find? (qualify "blogs" "title") = none := by cbv
  intro c hc
  have hname : c.name = "id" ∨ c.name = "title" := by
    have hmem : c.name ∈ columns.map (·.name) := List.mem_map_of_mem hc
    rw [hnames] at hmem
    simpa [keyedTable] using hmem
  rw [(hall c hc).2.2.2, hover, List.forall_mem_singleton]
  rcases hname with hname | hname
  · simp [hname, hid]
  · simp [hname, htitle]

end Arena

end RelationalAlgebra
