import RelationalAlgebra.Proofs.Structure
import RelationalAlgebra.Sql.Compile

/-!
# The layout of a compiled query

What the query of a relation looks like, said by rules on the tree and without the state of a query
being built.

* `Compiles` is a relation as a whole query: which `FROM` clause, conditions and select list it
  has, and how each column of the relation is written in it.
* `Lays` is a relation as the left operand of a join: a chain of joins is laid out as units from
  left to right.
* `Stands` is a relation as one unit: a base table under its own name, or a subquery under the
  next label.

The joins down the left of a relation share one `FROM` clause (`Relation.joinChain`).  A column of
one of them is either shown by a unit or is a column of one of the join's operands: `Reads`.
-/

namespace RelationalAlgebra

/-! ## Chains of joins -/

namespace Relation

/-- The joins down the left, which share a `FROM` clause. -/
def joinChain : Relation → List Relation
  | .join id kind left right condition =>
    .join id kind left right condition :: left.joinChain
  | _ => []

/-- No join is the right operand of a join whose left chain contains it. -/
def Apart : Relation → Prop
  | .table _ => True
  | .selection _ operand _ => operand.Apart
  | .projection _ operand _ _ => operand.Apart
  | .join _ _ left right _ => left.Apart ∧ right.Apart ∧ right ∉ left.joinChain

/-- The relations that a `FROM` clause speaks of: the joins of the chain and the units. -/
def spine (r : Relation) : List Relation := r.joinChain ++ r.joinUnits

variable {r s left right : Relation} {id : Nat} {kind : JoinKind} {condition : Expr Nat}

/-- Induction over chains of joins, where everything but a join is a leaf. -/
@[elab_as_elim]
theorem chainInduction {motive : Relation → Prop} (leaf : ∀ r, r.joinChain = [] → motive r)
    (join : ∀ id kind left right condition, motive left → motive right →
      motive (.join id kind left right condition)) (r : Relation) : motive r := by
  induction r with
  | table t => exact leaf _ rfl
  | selection id operand condition => exact leaf _ rfl
  | projection id operand whole shown => exact leaf _ rfl
  | join id kind left right condition ihl ihr => exact join _ _ _ _ _ ihl ihr

theorem joinUnits_of_joinChain_nil (h : r.joinChain = []) : r.joinUnits = [r] := by
  cases r with
  | table t => rfl
  | selection id operand condition => rfl
  | projection id operand whole shown => rfl
  | join id kind left right condition => cases h

theorem spine_of_joinChain_nil (h : r.joinChain = []) : r.spine = [r] := by
  rw [spine, h, joinUnits_of_joinChain_nil h, List.nil_append]

theorem mem_spine_self (r : Relation) : r ∈ r.spine := by
  induction r using chainInduction with
  | leaf r hleaf =>
    rw [spine_of_joinChain_nil hleaf]
    exact List.mem_singleton_self r
  | join id kind left right condition => exact List.mem_cons_self ..

theorem spine_join :
    (Relation.join id kind left right condition).spine =
      .join id kind left right condition :: (left.joinChain ++ (left.joinUnits ++ [right])) := rfl

/-- The spine of a join is the join, the spine of its left operand, and its right operand. -/
theorem mem_spine_join :
    s ∈ (Relation.join id kind left right condition).spine ↔
      s = .join id kind left right condition ∨ s ∈ left.spine ∨ s = right := by
  rw [spine_join]
  simp [spine, or_assoc]

/-- The operands of a join of the chain are on the spine. -/
theorem operands_mem_spine (h : Relation.join id kind left right condition ∈ r.joinChain) :
    left ∈ r.spine ∧ right ∈ r.joinUnits := by
  induction r using chainInduction with
  | leaf r hleaf =>
    rw [hleaf] at h
    cases h
  | join id' kind' left' right' condition' ihl ihr =>
    rcases List.mem_cons.1 h with heq | h
    · cases heq
      exact ⟨mem_spine_join.2 (.inr (.inl (mem_spine_self _))),
        List.mem_append_right _ (List.mem_singleton_self _)⟩
    · obtain ⟨hl, hr⟩ := ihl h
      exact ⟨mem_spine_join.2 (.inr (.inl hl)), List.mem_append_left _ hr⟩

/-- What is on the spine and is no join of the chain is a unit. -/
theorem mem_joinUnits_of_mem_spine (h : s ∈ r.spine) (hs : s ∉ r.joinChain) : s ∈ r.joinUnits := by
  rcases List.mem_append.1 h with h | h
  · exact absurd h hs
  · exact h

/-- Only joins are in a chain. -/
theorem exists_join_of_mem_joinChain (h : s ∈ r.joinChain) :
    ∃ id kind left right condition, s = .join id kind left right condition := by
  induction r using chainInduction with
  | leaf r hleaf =>
    rw [hleaf] at h
    cases h
  | join id kind left right condition ihl ihr =>
    rcases List.mem_cons.1 h with rfl | h
    · exact ⟨id, kind, left, right, condition, rfl⟩
    · exact ihl h

end Relation

namespace Algebra

variable {a : Algebra} {r s : Relation}

open RelationalAlgebra.Relation

/-- The spine of a relation of the algebra is in the algebra, and no part of it is younger than the
relation. -/
theorem Sound.mem_of_mem_spine (ha : a.Sound) (hr : r ∈ a.relations) (hs : s ∈ r.spine) :
    s ∈ a.relations ∧ s.id ≤ r.id := by
  induction r using chainInduction with
  | leaf r hleaf =>
    rw [spine_of_joinChain_nil hleaf] at hs
    obtain rfl := List.mem_singleton.1 hs
    exact ⟨hr, Nat.le_refl _⟩
  | join id kind left right condition ihl ihr =>
    rcases mem_spine_join.1 hs with rfl | hs | rfl
    · exact ⟨hr, Nat.le_refl _⟩
    · obtain ⟨hl, hlt⟩ := ha.join_left hr
      obtain ⟨hmem, hle⟩ := ihl hl hs
      exact ⟨hmem, Nat.le_trans hle (Nat.le_of_lt hlt)⟩
    · obtain ⟨hmem, hlt⟩ := ha.join_right hr
      exact ⟨hmem, Nat.le_of_lt hlt⟩

/-- The units of a chain of joins are pairwise different relations. -/
theorem Sound.joinUnits_nodup (ha : a.Sound) (hr : r ∈ a.relations) :
    (r.joinUnits.map (·.id)).Nodup := by
  induction r using chainInduction with
  | leaf r hleaf => simp [joinUnits_of_joinChain_nil hleaf]
  | join id kind left right condition ihl ihr =>
    exact nodup_map_concat (ihl (ha.join_left hr).1) (ha.join_new hr)

/-- A join is younger than the units of its own `FROM` clause. -/
theorem Sound.joinUnits_id_lt (ha : a.Sound) {id : Nat} {kind : JoinKind} {left right : Relation}
    {condition : Expr Nat} (hr : Relation.join id kind left right condition ∈ a.relations)
    (hs : s ∈ (Relation.join id kind left right condition).joinUnits) : s.id < id := by
  rcases List.mem_append.1 hs with hs | hs
  · obtain ⟨hl, hlt⟩ := ha.join_left hr
    have hle := (ha.mem_of_mem_spine hl (List.mem_append_right _ hs)).2
    omega
  · obtain rfl := List.mem_singleton.1 hs
    exact (ha.join_right hr).2

end Algebra

namespace Sql

open RelationalAlgebra.Relation

/-! ## Parts of the rules -/

/-- How far the labels and placeholders of a query are numbered. -/
structure Numbering where
  subqueries : Nat
  placeholders : Placeholders

/-- How a unit shows a column of its relation. -/
def FromUnit.column? : FromUnit → Nat → Option SqlExpr
  | .table t, i => t.columns[i]?.map fun c => .column ⟨.table t.name, c.name⟩
  | .subquery _ label exposed _, i =>
    exposed[i]?.join.map fun name => .column ⟨.subquery label, name⟩

/-- The name under which a query shows an expression: that of the first entry with it, or its bare
name if everything is shown. -/
def Query.nameOf? (q : Query) (e : SqlExpr) : Option String :=
  match q.entries with
  | some entries => (entries.find? (·.expr == e)).map (·.name)
  | none => e.bareName?

/-- An expression whose columns are written by `reads` and whose literals take the next
placeholders, from left to right. -/
inductive Fills (reads : Nat → SqlExpr → Prop) :
    Expr Nat → Placeholders → SqlExpr → Placeholders → Prop
  | column {i : Nat} {e : SqlExpr} {p : Placeholders} (read : reads i e) :
      Fills reads (.column i) p e p
  | literal {value : Value} {p : Placeholders} :
      Fills reads (.literal value) p (.placeholder (p.add value).1) (p.add value).2
  | aliased {expr : Expr Nat} {label : String} {p p' : Placeholders} {e : SqlExpr}
      (fills : Fills reads expr p e p') : Fills reads (.aliased expr label) p e p'
  | equal {left right : Expr Nat} {p p' p'' : Placeholders} {l r : SqlExpr}
      (fills_left : Fills reads left p l p') (fills_right : Fills reads right p' r p'') :
      Fills reads (.equal left right) p (.equal l r) p''
  | aggregate {function : Aggregate} {argument : Expr Nat} {p p' : Placeholders} {e : SqlExpr}
      (fills : Fills reads argument p e p') :
      Fills reads (.aggregate function argument) p (.aggregate function e) p'

/-- The select list of a projection. -/
inductive FillsAll (reads : Nat → SqlExpr → Prop) :
    List OutputColumn → Placeholders → List SelectEntry → Placeholders → Prop
  | nil {p : Placeholders} : FillsAll reads [] p [] p
  | cons {c : OutputColumn} {shown : List OutputColumn} {e : SqlExpr}
      {entries : List SelectEntry} {p p' p'' : Placeholders} (head : Fills reads c.source p e p')
      (tail : FillsAll reads shown p' entries p'') :
      FillsAll reads (c :: shown) p (⟨c.name, e⟩ :: entries) p''

/-- How a column of the spine of a chain of joins is written: as a unit shows it, or as a column
of an operand of a join of the chain. -/
inductive Reads (chain : List Relation) (units : List FromUnit) : Relation → Nat → SqlExpr → Prop
  | unit {u : FromUnit} {r : Relation} {i : Nat} {e : SqlExpr} (mem : u ∈ units)
      (stands : u.relation = r) (shows : u.column? i = some e) : Reads chain units r i e
  | left {id : Nat} {kind : JoinKind} {left right : Relation} {condition : Expr Nat} {i : Nat}
      {e : SqlExpr} (mem : .join id kind left right condition ∈ chain) (lt : i < left.width)
      (reads : Reads chain units left i e) :
      Reads chain units (.join id kind left right condition) i e
  | right {id : Nat} {kind : JoinKind} {left right : Relation} {condition : Expr Nat} {i : Nat}
      {e : SqlExpr} (mem : .join id kind left right condition ∈ chain) (ge : left.width ≤ i)
      (reads : Reads chain units right (i - left.width) e) :
      Reads chain units (.join id kind left right condition) i e

/-- What is remembered of how columns are written. -/
abbrev Memo := ColumnKey → Option SqlExpr

/-- One step of `Reads`, where the column of the operand is remembered. -/
inductive Justified (chain : List Relation) (units : List FromUnit) (memo : Memo) :
    Relation → Nat → SqlExpr → Prop
  | unit {u : FromUnit} {r : Relation} {i : Nat} {e : SqlExpr} (mem : u ∈ units)
      (stands : u.relation = r) (shows : u.column? i = some e) : Justified chain units memo r i e
  | left {id : Nat} {kind : JoinKind} {left right : Relation} {condition : Expr Nat} {i : Nat}
      {e : SqlExpr} (mem : .join id kind left right condition ∈ chain) (lt : i < left.width)
      (noted : memo (left.id, i) = some e) :
      Justified chain units memo (.join id kind left right condition) i e
  | right {id : Nat} {kind : JoinKind} {left right : Relation} {condition : Expr Nat} {i : Nat}
      {e : SqlExpr} (mem : .join id kind left right condition ∈ chain) (ge : left.width ≤ i)
      (noted : memo (right.id, i - left.width) = some e) :
      Justified chain units memo (.join id kind left right condition) i e

/-- Whatever is remembered is a column of the spine, and is remembered for a reason. -/
def Faithful (chain : List Relation) (units : List FromUnit) (memo : Memo) : Prop :=
  ∀ key e, memo key = some e →
    ∃ s ∈ chain ++ units.map (·.relation), s.id = key.1 ∧ Justified chain units memo s key.2 e

/-- What a projection leaves behind beside its select list. -/
def Query.reshape (q : Query) : Option Table → Query
  | some t =>
    { q with
      projected := q.units.findIdx? (·.relation.id == t.id)
      shape := some (.table t) }
  | none => { q with shape := some .entries }

/-- The select list of a join: columns under their qualified names. -/
def qualifiedEntries (shown : List OutputColumn) (columns : List SqlExpr) : List SelectEntry :=
  List.zipWith (fun c e => ⟨e.qualifiedName?.getD c.name, e⟩) shown columns

/-! ## The rules -/

mutual

/-- The query of a relation, with how its columns are written in the query.  `root` is the relation
the query is built for. -/
inductive Compiles :
    (root : Relation) → Relation → Numbering → Query → List SqlExpr → Numbering → Prop
  | table {root : Relation} {t : Table} {n : Numbering} :
      Compiles root (.table t) n ⟨root, none, some (.unit 0), [], [.table t], none, none⟩
        (t.columns.map fun c => .column ⟨.table t.name, c.name⟩) n
  | selection {root : Relation} {id : Nat} {operand : Relation} {condition : Expr Nat}
      {n : Numbering} {q : Query} {columns : List SqlExpr} {k : Nat} {p p' : Placeholders}
      {e : SqlExpr} (compiles : Compiles root operand n q columns ⟨k, p⟩)
      (fills : Fills (fun i e => columns[i]? = some e) condition p e p') :
      Compiles root (.selection id operand condition) n
        { q with conditions := q.conditions ++ [e] } columns ⟨k, p'⟩
  | projection {root : Relation} {id : Nat} {operand : Relation} {whole : Option Table}
      {shown : List OutputColumn} {n : Numbering} {q : Query} {columns : List SqlExpr} {k : Nat}
      {p p' : Placeholders} {entries : List SelectEntry}
      (compiles : Compiles root operand n q columns ⟨k, p⟩)
      (fills : FillsAll (fun i e => columns[i]? = some e) shown p entries p') :
      Compiles root (.projection id operand whole shown) n
        (Query.reshape { q with entries := some entries } whole) (entries.map (·.expr)) ⟨k, p'⟩
  | join {root : Relation} {id : Nat} {kind : JoinKind} {left right : Relation}
      {condition : Expr Nat} {n n' : Numbering} {source : Source} {units : List FromUnit}
      {memo : Memo} {columns : List SqlExpr}
      (lays : Lays (.join id kind left right condition) n source units n')
      (faithful : Faithful (Relation.join id kind left right condition).joinChain units memo)
      (width : columns.length = (Relation.join id kind left right condition).width)
      (noted : ∀ i e, columns[i]? = some e → memo (id, i) = some e) :
      Compiles root (.join id kind left right condition) n
        ⟨root,
          some (qualifiedEntries (Relation.join id kind left right condition).columns columns),
          some source, [], units, none, none⟩ columns n'

/-- The `FROM` clause of a relation that is the left operand of a join. -/
inductive Lays : Relation → Numbering → Source → List FromUnit → Numbering → Prop
  | leaf {r : Relation} {n n' : Numbering} {u : FromUnit} (leaf : r.joinChain = [])
      (stands : Stands r n u n') : Lays r n (.unit 0) [u] n'
  | join {id : Nat} {kind : JoinKind} {left right : Relation} {condition : Expr Nat}
      {n n' : Numbering} {source : Source} {units : List FromUnit} {u : FromUnit} {k : Nat}
      {p p' : Placeholders} {e : SqlExpr} (lays : Lays left n source units n')
      (stands : Stands right n' u ⟨k, p⟩)
      (fills : Fills
        (Reads (Relation.join id kind left right condition).joinChain (units ++ [u])
          (.join id kind left right condition)) condition p e p') :
      Lays (.join id kind left right condition) n (.join kind source units.length e)
        (units ++ [u]) ⟨k, p'⟩

/-- A relation as a unit of a `FROM` clause. -/
inductive Stands : Relation → Numbering → FromUnit → Numbering → Prop
  | table {t : Table} {n : Numbering} : Stands (.table t) n (.table t) n
  | subquery {r : Relation} {n n' : Numbering} {q : Query} {columns : List SqlExpr}
      (nested : r.table? = none)
      (compiles : Compiles r r ⟨n.subqueries + 1, n.placeholders⟩ q columns n') :
      Stands r n
        (.subquery r ("t" ++ toString (n.subqueries + 1)) (columns.map q.nameOf?) q) n'

end

/-! ## First facts -/

variable {reads reads' : Nat → SqlExpr → Prop} {p p' : Placeholders} {n n' : Numbering}
  {q : Query} {columns : List SqlExpr} {root r s : Relation} {chain chain' : List Relation}
  {units units' : List FromUnit} {source : Source} {u : FromUnit} {memo : Memo} {i : Nat}
  {e : SqlExpr}

/-- An alias is not written. -/
theorem Fills.unaliased {expr : Expr Nat} (h : Fills reads expr p e p') :
    Fills reads expr.unaliased p e p' := by
  induction h with
  | column read => exact .column read
  | literal => exact .literal
  | aliased _ ih => exact ih
  | equal _ _ ihl ihr => exact .equal ihl ihr
  | aggregate _ ih => exact .aggregate ih

/-- A select list can be written up to its last entry, and then the last entry. -/
theorem FillsAll.concat {shown : List OutputColumn} {entries : List SelectEntry}
    {p'' : Placeholders} {c : OutputColumn} (h : FillsAll reads shown p entries p')
    (hlast : Fills reads c.source p' e p'') :
    FillsAll reads (shown ++ [c]) p (entries ++ [⟨c.name, e⟩]) p'' := by
  induction h with
  | nil => exact .cons hlast .nil
  | cons head _ ih => exact .cons head (ih hlast)

/-- A projection shows its columns under their names. -/
theorem FillsAll.names {shown : List OutputColumn} {entries : List SelectEntry}
    (h : FillsAll reads shown p entries p') : entries.map (·.name) = shown.map (·.name) := by
  induction h with
  | nil => rfl
  | cons head tail ih => rw [List.map_cons, List.map_cons, ih]

theorem FillsAll.length {shown : List OutputColumn} {entries : List SelectEntry}
    (h : FillsAll reads shown p entries p') : entries.length = shown.length := by
  have hlength := congrArg List.length h.names
  rwa [List.length_map, List.length_map] at hlength

/-- Each entry of a select list writes the source of its column. -/
theorem FillsAll.exists_fills {shown : List OutputColumn} {entries : List SelectEntry}
    {c : OutputColumn} {entry : SelectEntry} (h : FillsAll reads shown p entries p')
    (hc : shown[i]? = some c) (hentry : entries[i]? = some entry) :
    ∃ p₁ p₂, Fills reads c.source p₁ entry.expr p₂ := by
  induction h generalizing i with
  | nil => cases hc
  | @cons _ _ _ _ p p' _ head tail ih =>
    cases i with
    | zero =>
      cases hc
      cases hentry
      exact ⟨p, p', head⟩
    | succ i => exact ih hc hentry

theorem Justified.mono {memo' : Memo} (h : Justified chain units memo r i e)
    (hchain : ∀ s ∈ chain, s ∈ chain') (hunits : ∀ u ∈ units, u ∈ units')
    (hmemo : ∀ key e, memo key = some e → memo' key = some e) :
    Justified chain' units' memo' r i e := by
  cases h with
  | unit mem stands shows => exact .unit (hunits _ mem) stands shows
  | left mem lt noted => exact .left (hchain _ mem) lt (hmemo _ _ noted)
  | right mem ge noted => exact .right (hchain _ mem) ge (hmemo _ _ noted)

theorem Faithful.mono (h : Faithful chain units memo) (hchain : ∀ s ∈ chain, s ∈ chain')
    (hunits : ∀ u ∈ units, u ∈ units') : Faithful chain' units' memo := by
  intro key e hnoted
  obtain ⟨s, hs, hid, hjust⟩ := h key e hnoted
  refine ⟨s, ?_, hid, hjust.mono hchain hunits fun _ _ h => h⟩
  rcases List.mem_append.1 hs with hs | hs
  · exact List.mem_append_left _ (hchain s hs)
  · obtain ⟨u, hu, rfl⟩ := List.mem_map.1 hs
    exact List.mem_append_right _ (List.mem_map.2 ⟨u, hunits u hu, rfl⟩)

@[simp] theorem Query.reshape_entries (q : Query) (whole : Option Table) :
    (q.reshape whole).entries = q.entries := by
  cases whole <;> rfl

@[simp] theorem Query.reshape_source (q : Query) (whole : Option Table) :
    (q.reshape whole).source = q.source := by
  cases whole <;> rfl

@[simp] theorem Query.reshape_conditions (q : Query) (whole : Option Table) :
    (q.reshape whole).conditions = q.conditions := by
  cases whole <;> rfl

@[simp] theorem Query.reshape_units (q : Query) (whole : Option Table) :
    (q.reshape whole).units = q.units := by
  cases whole <;> rfl

theorem map_expr_qualifiedEntries {shown : List OutputColumn}
    (h : columns.length = shown.length) :
    (qualifiedEntries shown columns).map (·.expr) = columns := by
  rw [qualifiedEntries, List.map_zipWith]
  induction columns generalizing shown with
  | nil => simp
  | cons e rest ih =>
    cases shown with
    | nil => cases h
    | cons c shown => rw [List.zipWith_cons_cons, ih (Nat.succ.inj h)]

theorem mem_qualifiedEntries {shown : List OutputColumn} {entry : SelectEntry}
    (h : entry ∈ qualifiedEntries shown columns) :
    ∃ c ∈ shown, entry.expr ∈ columns ∧ entry.name = entry.expr.qualifiedName?.getD c.name := by
  obtain ⟨i, hi⟩ := List.getElem?_of_mem h
  rw [qualifiedEntries, List.getElem?_zipWith] at hi
  split at hi
  · next c e hc he =>
    cases hi
    exact ⟨c, List.mem_of_getElem? hc, List.mem_of_getElem? he, rfl⟩
  · cases hi

/-- Each column of a relation is written in its query. -/
theorem Compiles.length (h : Compiles root r n q columns n') : columns.length = r.width := by
  induction r generalizing q columns n' with
  | table t =>
    cases h with
    | table => rw [List.length_map, width_table]
  | selection id operand condition ih =>
    cases h with
    | selection compiles fills => rw [width_selection, ih compiles]
  | projection id operand whole shown ih =>
    cases h with
    | projection compiles fills => rw [List.length_map, fills.length, width_projection]
  | join id kind left right condition ihl ihr =>
    cases h with
    | join lays faithful width noted => exact width

/-- A query has a name for each of its columns. -/
theorem Compiles.nameOf?_isSome (h : Compiles root r n q columns n') (he : e ∈ columns) :
    (q.nameOf? e).isSome := by
  induction r generalizing q columns n' with
  | table t =>
    cases h with
    | table =>
      obtain ⟨c, -, rfl⟩ := List.mem_map.1 he
      rfl
  | selection id operand condition ih =>
    cases h with
    | selection compiles fills =>
      have hoperand := ih compiles he
      exact hoperand
  | projection id operand whole shown ih =>
    cases h with
    | projection compiles fills =>
      obtain ⟨entry, hentry, rfl⟩ := List.mem_map.1 he
      simp only [Query.nameOf?, Query.reshape_entries, Option.isSome_map, List.find?_isSome]
      exact ⟨entry, hentry, by simp⟩
  | join id kind left right condition ihl ihr =>
    cases h with
    | join lays faithful width noted =>
      rw [← map_expr_qualifiedEntries width] at he
      obtain ⟨entry, hentry, rfl⟩ := List.mem_map.1 he
      simp only [Query.nameOf?, Option.isSome_map, List.find?_isSome]
      exact ⟨entry, hentry, by simp⟩

theorem Stands.relation_eq (h : Stands r n u n') : u.relation = r := by
  cases h with
  | table => rfl
  | subquery nested compiles => rfl

/-- A unit shows each column of its relation. -/
theorem Stands.column?_isSome (h : Stands r n u n') (hi : i < r.width) :
    (u.column? i).isSome := by
  cases h with
  | @table t =>
    rw [width_table] at hi
    simp [FromUnit.column?, hi]
  | subquery nested compiles =>
    rw [← compiles.length] at hi
    have hname := compiles.nameOf?_isSome (List.getElem_mem hi)
    simp [FromUnit.column?, hi, hname]

/-- A unit shows columns as references to itself. -/
theorem FromUnit.exists_name_of_column? (h : u.column? i = some e) :
    ∃ name, e = .column ⟨u.qualifier, name⟩ := by
  cases u with
  | table t =>
    obtain ⟨c, -, rfl⟩ := Option.map_eq_some_iff.1 h
    exact ⟨c.name, rfl⟩
  | subquery relation label exposed query =>
    obtain ⟨name, -, rfl⟩ := Option.map_eq_some_iff.1 h
    exact ⟨name, rfl⟩

/-- A column that is read is a reference to some unit. -/
theorem Reads.exists_unit (h : Reads chain units r i e) :
    ∃ u ∈ units, ∃ j, u.column? j = some e := by
  induction h with
  | @unit u r i e mem stands shows => exact ⟨u, mem, i, shows⟩
  | left mem lt _ ih => exact ih
  | right mem ge _ ih => exact ih

/-- What is no join is read from its only unit. -/
theorem Reads.of_leaf (h : Reads [] [u] r i e) : u.column? i = some e := by
  cases h with
  | unit mem stands shows =>
    obtain rfl := List.mem_singleton.1 mem
    exact shows
  | left mem => cases mem
  | right mem => cases mem

/-- Induction over a `FROM` clause, one joined unit after the other. -/
@[elab_as_elim]
theorem Lays.chainInduction {motive : ∀ {r n source units n'}, Lays r n source units n' → Prop}
    (leaf : ∀ {r n u n'} (leaf : r.joinChain = []) (stands : Stands r n u n'),
      motive (.leaf leaf stands))
    (join : ∀ {id kind left right condition n n' source units u k p p' e}
      (lays : Lays left n source units n') (stands : Stands right n' u ⟨k, p⟩)
      (fills : Fills
        (Reads (Relation.join id kind left right condition).joinChain (units ++ [u])
          (.join id kind left right condition)) condition p e p'),
      motive lays →
        motive (@Lays.join id kind left right condition n n' source units u k p p' e lays stands
          fills))
    {r : Relation} {n : Numbering} {source : Source} {units : List FromUnit} {n' : Numbering}
    (h : Lays r n source units n') : motive h := by
  induction r using Relation.chainInduction generalizing source units n' with
  | leaf r hleaf =>
    cases h with
    | leaf _ stands => exact leaf hleaf stands
    | join => cases hleaf
  | join id kind left right condition ihl ihr =>
    cases h with
    | leaf hleaf => cases hleaf
    | join lays stands fills => exact join lays stands fills (ihl lays)

/-- The units of a `FROM` clause are those of the chain of joins. -/
theorem Lays.relations (h : Lays r n source units n') :
    units.map (·.relation) = r.joinUnits := by
  induction h using Lays.chainInduction with
  | leaf hleaf stands =>
    rw [joinUnits_of_joinChain_nil hleaf, List.map_singleton, stands.relation_eq]
  | join lays stands fills ih =>
    rw [List.map_append, List.map_singleton, ih, stands.relation_eq]
    rfl

/-- The `FROM` clause names the units in their order. -/
theorem Lays.source_units (h : Lays r n source units n') :
    source.units = List.range units.length := by
  induction h using Lays.chainInduction with
  | leaf => rfl
  | join lays stands fills ih =>
    rw [Source.units, ih, List.length_append, List.length_singleton, List.range_succ]

/-- What is remembered of a relation is remembered for a reason. -/
theorem Faithful.justified {a : Algebra} (ha : a.Sound) (h : Faithful chain units memo)
    (hmem : ∀ s ∈ chain ++ units.map (·.relation), s ∈ a.relations) (hr : r ∈ a.relations)
    (hnoted : memo (r.id, i) = some e) : Justified chain units memo r i e := by
  obtain ⟨s, hs, hid, hjust⟩ := h _ _ hnoted
  obtain rfl := ha.eq_of_id_eq (hmem s hs) hr hid
  exact hjust

/-- What is remembered faithfully is how the column is written. -/
theorem Faithful.to_reads {a : Algebra} (ha : a.Sound) (h : Faithful chain units memo)
    (hmem : ∀ s ∈ chain ++ units.map (·.relation), s ∈ a.relations) (hr : r ∈ a.relations)
    (hnoted : memo (r.id, i) = some e) : Reads chain units r i e := by
  induction r using chainInduction generalizing i with
  | leaf r hleaf =>
    cases h.justified ha hmem hr hnoted with
    | unit mem stands shows => exact .unit mem stands shows
    | left => cases hleaf
    | right => cases hleaf
  | join id kind left right condition ihl ihr =>
    cases h.justified ha hmem hr hnoted with
    | unit mem stands shows => exact .unit mem stands shows
    | left mem lt noted => exact .left mem lt (ihl (ha.join_left hr).1 noted)
    | right mem ge noted => exact .right mem ge (ihr (ha.join_right hr).1 noted)

/-- A `FROM` clause speaks of relations of the algebra. -/
theorem Lays.mem_spine {a : Algebra} (ha : a.Sound) (hr : r ∈ a.relations)
    (h : Lays r n source units n') (hs : s ∈ r.joinChain ++ units.map (·.relation)) :
    s ∈ a.relations := by
  rw [h.relations] at hs
  exact (ha.mem_of_mem_spine hr hs).1

/-- The query of a join: its `FROM` clause, and a select list of columns that are written as the
`FROM` clause has it. -/
theorem Compiles.join_cases {a : Algebra} (ha : a.Sound) {id : Nat} {kind : JoinKind}
    {left right : Relation} {condition : Expr Nat}
    (hr : Relation.join id kind left right condition ∈ a.relations)
    (h : Compiles root (.join id kind left right condition) n q columns n') :
    ∃ source units, Lays (.join id kind left right condition) n source units n' ∧
      q = ⟨root, some (qualifiedEntries (Relation.join id kind left right condition).columns
        columns), some source, [], units, none, none⟩ ∧
      ∀ i e, columns[i]? = some e →
        Reads (Relation.join id kind left right condition).joinChain units
          (.join id kind left right condition) i e := by
  cases h with
  | join lays faithful width noted =>
    refine ⟨_, _, lays, rfl, fun i e he => ?_⟩
    exact faithful.to_reads ha (fun _ hs => lays.mem_spine ha hr hs) hr (noted i e he)

/-- A query without a select list shows one table. -/
theorem Compiles.entries_none {a : Algebra} (hr : r ∈ a.relations) (ha : a.Sound)
    (h : Compiles root r n q columns n') (hentries : q.entries = none) :
    ∃ t, Relation.table t ∈ a.relations ∧ q.source = some (.unit 0) ∧ q.units = [.table t] ∧
      columns = t.columns.map fun c => .column ⟨.table t.name, c.name⟩ := by
  induction r generalizing q columns n' with
  | table t => cases h with | table => exact ⟨t, hr, rfl, rfl, rfl⟩
  | selection id operand condition ih =>
    cases h with
    | selection compiles fills =>
      have hoperand := ih (ha.selection_operand hr).1 compiles hentries
      exact hoperand
  | projection id operand whole shown ih =>
    cases h with
    | projection compiles fills =>
      rw [Query.reshape_entries] at hentries
      cases hentries
  | join id kind left right condition ihl ihr => cases h with | join => cases hentries

/-- A select list shows the columns of the relation. -/
theorem Compiles.entries_some {entries : List SelectEntry} (h : Compiles root r n q columns n')
    (hentries : q.entries = some entries) : entries.map (·.expr) = columns := by
  induction r generalizing q columns n' with
  | table t => cases h with | table => cases hentries
  | selection id operand condition ih =>
    cases h with | selection compiles fills => exact ih compiles hentries
  | projection id operand whole shown ih =>
    cases h with
    | projection compiles fills =>
      rw [Query.reshape_entries, Option.some.injEq] at hentries
      rw [hentries]
  | join id kind left right condition ihl ihr =>
    have hlength := h.length
    cases h with
    | join =>
      cases hentries
      exact map_expr_qualifiedEntries hlength

/-! ## Joins whose right operand is no join of the left chain -/

section

variable {a : Algebra} {id : Nat} {kind : JoinKind} {left right : Relation}
  {condition : Expr Nat}

/-- Only a join can be joined to itself. -/
theorem ne_of_not_mem_joinChain (ha : a.Sound)
    (hr : Relation.join id kind left right condition ∈ a.relations)
    (hright : right ∉ left.joinChain) : left.id ≠ right.id := by
  intro hid
  obtain rfl := ha.join_self hr hid
  exact ha.join_new hr left (mem_joinUnits_of_mem_spine (mem_spine_self left) hright) rfl

/-- A column of the left chain is written as if the right operand were not there. -/
theorem Reads.of_left (ha : a.Sound)
    (hr : Relation.join id kind left right condition ∈ a.relations)
    (hright : right ∉ left.joinChain) (hu : u.relation = right)
    (h : Reads (Relation.join id kind left right condition).joinChain (units ++ [u]) s i e)
    (hs : s ∈ left.spine) : Reads left.joinChain units s i e := by
  obtain ⟨hl, hlt⟩ := ha.join_left hr
  have hchain : ∀ {s : Relation}, s ∈ left.spine →
      s ∈ (Relation.join id kind left right condition).joinChain → s ∈ left.joinChain := by
    intro s hs hmem
    rcases List.mem_cons.1 hmem with rfl | hmem
    · exact absurd (ha.mem_of_mem_spine hl hs).2 (Nat.not_le.2 hlt)
    · exact hmem
  induction h with
  | unit mem stands shows =>
    rcases List.mem_append.1 mem with mem | mem
    · exact .unit mem stands shows
    · rw [List.mem_singleton.1 mem, hu] at stands
      rw [← stands] at hs
      exact absurd rfl (ha.join_new hr right (mem_joinUnits_of_mem_spine hs hright))
  | left mem lt _ ih =>
    have hmem := hchain hs mem
    exact .left hmem lt (ih (operands_mem_spine hmem).1)
  | right mem ge _ ih =>
    have hmem := hchain hs mem
    exact .right hmem ge (ih (List.mem_append_right _ (operands_mem_spine hmem).2))

/-- A column of the right operand is shown by its unit. -/
theorem Reads.of_right (ha : a.Sound)
    (hr : Relation.join id kind left right condition ∈ a.relations)
    (hright : right ∉ left.joinChain) (hunits : units.map (·.relation) = left.joinUnits)
    (h : Reads (Relation.join id kind left right condition).joinChain (units ++ [u]) right i e) :
    u.column? i = some e := by
  have hchain : right ∉ (Relation.join id kind left right condition).joinChain := by
    intro hmem
    rcases List.mem_cons.1 hmem with heq | hmem
    · have hlt := (ha.join_right hr).2
      rw [heq] at hlt
      exact Nat.lt_irrefl _ hlt
    · exact hright hmem
  cases h with
  | unit mem stands shows =>
    rcases List.mem_append.1 mem with mem | mem
    · refine absurd rfl (ha.join_new hr right ?_)
      rw [← hunits, ← stands]
      exact List.mem_map_of_mem mem
    · rw [← List.mem_singleton.1 mem]
      exact shows
  | left mem lt reads => exact absurd mem hchain
  | right mem ge reads => exact absurd mem hchain

/-- A column of such a join is a column of the left chain or is shown by the unit on the right. -/
theorem Reads.join_cases (ha : a.Sound)
    (hr : Relation.join id kind left right condition ∈ a.relations)
    (hright : right ∉ left.joinChain) (hunits : units.map (·.relation) = left.joinUnits)
    (hu : u.relation = right)
    (h : Reads (Relation.join id kind left right condition).joinChain (units ++ [u])
      (.join id kind left right condition) i e) :
    (i < left.width ∧ Reads left.joinChain units left i e) ∨
      (left.width ≤ i ∧ u.column? (i - left.width) = some e) := by
  cases h with
  | unit mem stands shows =>
    have hall : (units ++ [u]).map (·.relation) =
        (Relation.join id kind left right condition).joinUnits := by
      rw [List.map_append, hunits, List.map_singleton, hu]
      rfl
    have hmem := hall ▸ List.mem_map_of_mem mem
    rw [stands] at hmem
    exact absurd (ha.joinUnits_id_lt hr hmem) (Nat.lt_irrefl id)
  | left mem lt reads =>
    exact .inl ⟨lt, reads.of_left ha hr hright hu (mem_spine_self left)⟩
  | right mem ge reads => exact .inr ⟨ge, reads.of_right ha hr hright hunits⟩

end

end Sql

end RelationalAlgebra
