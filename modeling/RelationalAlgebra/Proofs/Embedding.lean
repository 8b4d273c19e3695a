import RelationalAlgebra.Proofs.Rebuilding
import RelationalAlgebra.Proofs.Renaming

/-!
# One algebra within another

An algebra may hold the relations of another one under other identities, between relations of its own
(`Algebra.Embeds`).  An operation comes in both to the same: what it builds in the larger one is what
it builds in the smaller one, under other identities (`Embeds.run_select` and its companions).

The larger one may also grow alone, by relations that are no tables (`Algebra.Derives`).  It still holds
the smaller one, and only what is built next is moved (`Embeds.shift`).
-/

namespace RelationalAlgebra

open RelationalAlgebra.Relation

namespace Algebra

/-- The base tables in the order of their declaration. -/
def tables (b : Algebra) : List Table := b.relations.filterMap (·.table?)

/-- Another algebra comes from this one by adding relations that are no tables. -/
inductive Derives (b : Algebra) : Algebra → Prop
  | refl : Derives b b
  | add {c : Algebra} {r : Relation} (derives : Derives b c) (built : Built c r)
      (derived : r.table? = none) : Derives b (c.add r)

/-- One algebra has in another one the same relations under other identities, and the next relations
will stand in both under identities that correspond.  Both have the same tables. -/
structure Embeds (f : Nat → Nat) (c b : Algebra) : Prop where
  injective : f.Injective
  next : ∀ k, f (c.size + k) = b.size + k
  keeps : ∀ r ∈ c.relations, r.rename f ∈ b.relations
  tables : b.tables = c.tables.map (·.rename f)

variable {b c d : Algebra} {f g : Nat → Nat} {r : Relation}

theorem table?_eq_find? (b : Algebra) (name : String) :
    b.table? name = b.tables.find? (·.name == name) := by
  rw [tables, table?]
  induction b.relations with
  | nil => rfl
  | cons r rest ih =>
    rw [List.findSome?_cons, List.filterMap_cons, ih]
    cases r.table? with
    | none => rfl
    | some t =>
      rw [Option.filter_some, List.find?_cons]
      cases t.name == name <;> rfl

theorem tables_add (b : Algebra) (r : Relation) :
    (b.add r).tables = b.tables ++ r.table?.toList := by
  rw [tables, add, List.filterMap_append]
  cases r <;> rfl

theorem Derives.trans (h : Derives b c) (h' : Derives c d) : Derives b d := by
  induction h' with
  | refl => exact h
  | add _ built derived ih => exact ih.add built derived

theorem Derives.keeps (h : Derives b c) : b.relations <+: c.relations := by
  induction h with
  | refl => exact List.prefix_rfl
  | add _ _ _ ih => exact ih.trans (List.prefix_append ..)

theorem Derives.size_le (h : Derives b c) : b.size ≤ c.size := h.keeps.length_le

theorem Derives.tables_eq (h : Derives b c) : c.tables = b.tables := by
  induction h with
  | refl => rfl
  | add _ _ derived ih => rw [tables_add, derived, ih, Option.toList_none, List.append_nil]

/-- Every relation of a sound algebra stands at its identity. -/
theorem Sound.exists_of_lt (hb : b.Sound) {n : Nat} (hn : n < b.size) :
    ∃ r ∈ b.relations, r.id = n := by
  have hget : b.relations[n]? = some b.relations[n] := List.getElem?_eq_getElem hn
  exact ⟨_, List.getElem_mem hn, hb.id_eq hget⟩

/-- The last relation of a sound algebra was built from the others. -/
theorem Sound.built_last (h : (b.add r).Sound) : Built b r := by
  have hlast : (b.add r).relations[b.relations.length]? = some r := by simp [Algebra.add]
  have hbuilt := h _ r hlast
  rwa [Algebra.add, List.take_left] at hbuilt

/-- The algebra after an operation that succeeds. -/
theorem Reachable.after {α : Type} {build : Build α} {x : α} (h : (b.after build).Reachable)
    (hrun : build.run b = .ok (x, c)) : c.Reachable := by
  rwa [Algebra.after, hrun] at h

/-- What can be built can be asked for. -/
theorem Reachable.add (hb : b.Reachable) (hr : Built b r) : (b.add r).Reachable := by
  cases hr with
  | @table name columns fresh =>
    have hstep := hb.step (.createTable name columns) (by simp [Operation.operands])
    have hrun : (createTable name columns).run b = .ok (_, b.add _) :=
      createTable_ok_iff.2 ⟨fresh, rfl, rfl⟩
    exact Reachable.after hstep hrun
  | @selection operand condition equality bound operand_mem equality_eq bound_eq =>
    have hstep := hb.step (.select operand condition)
      (by simpa [Operation.operands] using operand_mem)
    have hrun : (select operand condition).run b = .ok (_, b.add _) :=
      select_ok_iff.2 ⟨equality, bound, equality_eq, bound_eq, rfl, rfl⟩
    exact Reachable.after hstep hrun
  | @whole operand t shown operand_mem found shown_eq =>
    have hstep := hb.step (.project operand [.relation (.table t)])
      (by simpa [Operation.operands] using operand_mem)
    have hwhole : projectedTable? operand [.relation (.table t)] = some t := found
    have hrun : (project operand [.relation (.table t)]).run b =
        .ok (.projection b.size operand (some t) shown, b.add _) :=
      project_ok_iff.2 ⟨by simp, shown, by rw [hwhole], by rw [hwhole]; exact shown_eq, rfl⟩
    exact Reachable.after hstep hrun
  | @columns operand args shown operand_mem args_ne not_whole shown_eq =>
    have hstep := hb.step (.project operand args)
      (by simpa [Operation.operands] using operand_mem)
    have hrun : (project operand args).run b =
        .ok (.projection b.size operand none shown, b.add _) :=
      project_ok_iff.2 ⟨args_ne, shown, by rw [not_whole], by rw [not_whole]; exact shown_eq, rfl⟩
    exact Reachable.after hstep hrun
  | @join kind left right condition equality bound left_mem right_mem new equality_eq bound_eq =>
    have hstep := hb.step (.join kind left right condition)
      (by simpa [Operation.operands] using And.intro left_mem right_mem)
    have hrun : (join kind left right condition).run b = .ok (_, b.add _) :=
      join_ok_iff.2 ⟨new, equality, bound, equality_eq, bound_eq, rfl, rfl⟩
    exact Reachable.after hstep hrun

theorem Reachable.derives (hb : b.Reachable) (h : Derives b c) : c.Reachable := by
  induction h with
  | refl => exact hb
  | add _ built _ ih => exact ih.add built

/-! ## Embeddings -/

/-- A relation is renamed alike by what agrees on the identities there are. -/
theorem Sound.rename_congr (hc : c.Sound) (h : ∀ n < c.size, g n = f n) (hr : r ∈ c.relations) :
    r.rename g = r.rename f := by
  induction r with
  | table t =>
    have ht := h t.id (hc.id_lt_size hr)
    rw [Relation.rename, Relation.rename, Table.rename, Table.rename, ht]
  | selection id operand condition ih =>
    rw [Relation.rename, Relation.rename, h id (hc.id_lt_size hr), ih (hc.selection_operand hr).1]
  | projection id operand whole shown ih =>
    have hop := (hc.projection_operand hr).1
    have hwhole : whole.map (·.rename g) = whole.map (·.rename f) := by
      cases whole with
      | none => rfl
      | some t =>
        have ht := hc.id_lt_size (hc.table_mem_of_tableNamed? hop (hc.whole_built hr).1)
        rw [Option.map_some, Option.map_some, Table.rename, Table.rename, h t.id ht]
    rw [Relation.rename, Relation.rename, h id (hc.id_lt_size hr), ih hop, hwhole]
  | join id kind left right condition ihl ihr =>
    rw [Relation.rename, Relation.rename, h id (hc.id_lt_size hr), ihl (hc.join_left hr).1,
      ihr (hc.join_right hr).1]

theorem rename_self (r : Relation) : r.rename (fun n => n) = r := by
  induction r with
  | table t => rfl
  | selection id operand condition ih => rw [Relation.rename, ih]
  | projection id operand whole shown ih =>
    rw [Relation.rename, ih]
    cases whole <;> rfl
  | join id kind left right condition ihl ihr => rw [Relation.rename, ihl, ihr]

/-- An algebra embeds into itself. -/
theorem embeds_self (b : Algebra) : Embeds (fun n => n) b b := by
  refine ⟨fun _ _ h => h, fun _ => rfl, ?_, ?_⟩
  · intro r hr
    rwa [rename_self]
  · exact (List.map_id b.tables).symm

theorem Embeds.table? (h : Embeds f c b) (name : String) :
    b.table? name = (c.table? name).map (·.rename f) := by
  rw [table?_eq_find?, table?_eq_find?, h.tables, List.find?_map]
  rfl

/-- The next relations correspond. -/
theorem Embeds.add (h : Embeds f c b) (r : Relation) : Embeds f (c.add r) (b.add (r.rename f)) := by
  refine ⟨h.injective, ?_, ?_, ?_⟩
  · intro k
    have hnext := h.next (1 + k)
    simp only [size, Algebra.add, List.length_append, List.length_singleton, Nat.add_assoc]
      at hnext ⊢
    exact hnext
  · intro s hs
    rcases List.mem_append.1 hs with hs | hs
    · exact List.mem_append_left _ (h.keeps s hs)
    · rw [List.mem_singleton.1 hs]
      exact List.mem_append_right _ (List.mem_singleton_self _)
  · rw [tables_add, tables_add, h.tables, List.map_append, Relation.table?_rename]
    cases r.table? <;> rfl

/-- When the larger algebra alone grows, the identities of what is built next are moved. -/
theorem Embeds.shift {b' : Algebra} (h : Embeds f c b) (hc : c.Sound) (hb : b.Sound)
    (hgrows : Derives b b') : ∃ g, Embeds g c b' ∧ ∀ n < c.size, g n = f n := by
  have hbelow : ∀ n < c.size, f n < b'.size := by
    intro n hn
    obtain ⟨r, hr, rfl⟩ := hc.exists_of_lt hn
    have hlt := hb.id_lt_size (h.keeps r hr)
    rw [Relation.id_rename] at hlt
    exact Nat.lt_of_lt_of_le hlt hgrows.size_le
  let g := fun n => if n < c.size then f n else b'.size + (n - c.size)
  have hsame : ∀ n < c.size, g n = f n := fun n hn => if_pos hn
  refine ⟨g, ⟨?_, ?_, ?_, ?_⟩, hsame⟩
  · intro m n hmn
    by_cases hm : m < c.size
    · by_cases hn : n < c.size
      · rw [hsame m hm, hsame n hn] at hmn
        exact h.injective hmn
      · have hlt := hbelow m hm
        simp only [g, if_pos hm, if_neg hn] at hmn
        omega
    · by_cases hn : n < c.size
      · have hlt := hbelow n hn
        simp only [g, if_neg hm, if_pos hn] at hmn
        omega
      · simp only [g, if_neg hm, if_neg hn] at hmn
        omega
  · intro k
    simp only [g, if_neg (Nat.not_lt.2 (Nat.le_add_right c.size k)), Nat.add_sub_cancel_left]
  · intro r hr
    rw [hc.rename_congr hsame hr]
    exact hgrows.keeps.subset (h.keeps r hr)
  · rw [hgrows.tables_eq, h.tables]
    refine List.map_congr_left fun t ht => ?_
    obtain ⟨r, hr, htable⟩ := List.mem_filterMap.1 ht
    have hlt := hc.id_lt_size hr
    cases r with
    | table u =>
      obtain rfl := Option.some.inj htable
      rw [Table.rename, Table.rename, hsame u.id hlt]
    | selection => cases htable
    | projection => cases htable
    | join => cases htable

/-! ## Operations in both -/

section

variable {operand left right : Relation}

theorem Embeds.next_eq (h : Embeds f c b) : f c.size = b.size := h.next 0

/-- A computation that adds one relation, which is no table, or fails. -/
def AddsOne (c : Algebra) (y : Except Error (Relation × Algebra)) : Prop :=
  ∀ p, y = .ok p → Built c p.1 ∧ p.1.table? = none ∧ p.2 = c.add p.1

theorem addsOne_select (hop : operand ∈ c.relations) (condition : Predicate) :
    AddsOne c ((select operand condition).run c) := by
  intro p hp
  obtain ⟨hbuilt, hadd⟩ := built_of_select hop hp
  obtain ⟨_, _, -, -, hselection, -⟩ := select_ok_iff.1 hp
  exact ⟨hbuilt, by rw [hselection]; rfl, hadd⟩

theorem addsOne_project (hop : operand ∈ c.relations) (args : List ProjectArg) :
    AddsOne c ((project operand args).run c) := by
  intro p hp
  obtain ⟨hbuilt, hadd⟩ := built_of_project hop hp
  obtain ⟨-, _, hprojection, -⟩ := project_ok_iff.1 hp
  exact ⟨hbuilt, by rw [hprojection]; rfl, hadd⟩

theorem addsOne_join (hl : left ∈ c.relations) (hr : right ∈ c.relations) (kind : JoinKind)
    (condition : Predicate) : AddsOne c ((join kind left right condition).run c) := by
  intro p hp
  obtain ⟨hbuilt, hadd⟩ := built_of_join hl hr hp
  obtain ⟨-, _, _, -, -, hjoin, -⟩ := join_ok_iff.1 hp
  exact ⟨hbuilt, by rw [hjoin]; rfl, hadd⟩

theorem addsOne_joinInferred (hl : left ∈ c.relations) (hr : right ∈ c.relations) (kind : JoinKind) :
    AddsOne c ((joinInferred kind left right).run c) := by
  intro p hp
  rw [joinInferred, run_lift_bind] at hp
  obtain ⟨condition, -, hp⟩ := bind_ok_iff.1 hp
  exact addsOne_join hl hr kind condition p hp

/-- What an operation comes to that adds one relation, under other identities. -/
def renamed (f : Nat → Nat) (b : Algebra) (y : Except Error (Relation × Algebra)) :
    Except Error (Relation × Algebra) :=
  y.map fun p => (p.1.rename f, b.add (p.1.rename f))

theorem renamed_bind {α : Type} (x : Except Error α) (y : α → Except Error (Relation × Algebra)) :
    renamed f b (x >>= y) = x >>= fun v => renamed f b (y v) := by
  cases x <;> rfl

theorem renamed_ok {r' : Relation} (h : r' = r.rename f) :
    .ok (r', b.add r') = renamed f b (.ok (r, c.add r)) := by
  rw [h]
  rfl

theorem Embeds.run_select (h : Embeds f c b) (operand : Relation) (condition : Predicate) :
    (select (operand.rename f) condition).run b =
      renamed f b ((select operand condition).run c) := by
  have hbind := bind_rename h.injective [operand]
  rw [List.map_singleton] at hbind
  rw [Algebra.run_select, Algebra.run_select, describe_rename]
  simp only [renamed_bind, hbind]
  refine bind_congr fun equality => bind_congr fun bound => renamed_ok ?_
  rw [Relation.rename, h.next_eq]

theorem Embeds.run_project (h : Embeds f c b) (operand : Relation) (args : List ProjectArg) :
    (project (operand.rename f) (args.map (·.rename f))).run b =
      renamed f b ((project operand args).run c) := by
  rw [Algebra.run_project, Algebra.run_project, describe_rename, projectedTable?_rename,
    List.isEmpty_map]
  by_cases hempty : args.isEmpty = true
  · rw [if_pos hempty, if_pos hempty]
    rfl
  · rw [if_neg hempty, if_neg hempty]
    cases projectedTable? operand args with
    | some t =>
      simp only [Option.map_some, wholeColumns_rename h.injective, renamed_bind]
      refine bind_congr fun shown => renamed_ok ?_
      rw [Relation.rename, h.next_eq]
      rfl
    | none =>
      simp only [Option.map_none, shownColumns_rename h.injective, renamed_bind]
      refine bind_congr fun shown => renamed_ok ?_
      rw [Relation.rename, h.next_eq]
      rfl

theorem Embeds.run_join (h : Embeds f c b) (kind : JoinKind) (left right : Relation)
    (condition : Predicate) : (join kind (left.rename f) (right.rename f) condition).run b =
      renamed f b ((join kind left right condition).run c) := by
  have hbind := bind_rename h.injective [left, right]
  rw [List.map_cons, List.map_singleton] at hbind
  have hrepeated : (left.rename f).joinUnits.any (·.id == (right.rename f).id) =
      left.joinUnits.any (·.id == right.id) := by
    rw [joinUnits_rename, List.any_map]
    refine congrArg left.joinUnits.any (funext fun unit => ?_)
    simp only [Function.comp_apply, id_rename, h.injective.beq_eq]
  rw [Algebra.run_join, Algebra.run_join, hrepeated, describe_rename, describe_rename]
  split
  · rfl
  · simp only [renamed_bind, hbind]
    refine bind_congr fun equality => bind_congr fun bound => renamed_ok ?_
    rw [Relation.rename, h.next_eq]

theorem Embeds.run_joinInferred (h : Embeds f c b) (kind : JoinKind) (left right : Relation) :
    (joinInferred kind (left.rename f) (right.rename f)).run b =
      renamed f b ((joinInferred kind left right).run c) := by
  rw [joinInferred, joinInferred, run_lift_bind, run_lift_bind,
    inferCondition_rename h.injective, renamed_bind]
  exact bind_congr fun condition => h.run_join kind left right condition

/-- A table is declared in both or in neither. -/
theorem Embeds.run_createTable (h : Embeds f c b) (name : String)
    (columns : List (String × ColumnType)) :
    (createTable name columns).run b =
      ((createTable name columns).run c).map fun p =>
        (p.1.rename f, b.add (.table (p.1.rename f))) := by
  have htable : Table.declare b.size name columns =
      (Table.declare c.size name columns).rename f := by
    rw [← h.next_eq]
    rfl
  rw [Algebra.run_createTable, Algebra.run_createTable, h.table?, Option.isSome_map, htable]
  split <;> rfl

end

end Algebra

end RelationalAlgebra
