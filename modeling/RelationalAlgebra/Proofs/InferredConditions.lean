import RelationalAlgebra.Proofs.WholeTables

/-!
# The condition of a join by a key

The search for a key knows the two columns that it has found: the `id` of a table of one operand, and a
column of the other one that refers to it.  The join is given their names, and looks these up in the left
operand before the right one.

* If qualified names can be taken apart, the `id` of the operand that was searched is found under its
  qualified name (`exists_tableNamed?_key`): what stands to the left of its table there is tables without a
  key and projections of them.
* The name of the other column may find another column, and if the operand to be searched was the right
  one, the name of the `id` may find one in the left operand.

So the condition relates the two columns that were found exactly if the left operand does not answer for
what was found on the right, and each operand finds its own column again.  That is so if no table stands
twice at the bottom of the operands and the column that refers to the key reads a declared one.  The main
statement is `Arena.joinInferred_condition`.
-/

namespace RelationalAlgebra

open QualifiedName

/-! ## The key of a table -/

/-- A table with a key has a column `id`, and the key names it with the first column that refers to the
table. -/
theorem Table.inferKey_eq_some {t : Table} {referrers : Referrers} {pair : KeyPair}
    (h : t.inferKey referrers = some pair) :
    (∃ c ∈ t.columns, c.name = "id") ∧
      ∃ found, referrers.find? (·.1 == t.foreignKey) = some found ∧
        pair = ⟨t.qualified "id", found.2⟩ := by
  unfold Table.inferKey at h
  split at h
  · next hid =>
    obtain ⟨found, hfound, rfl⟩ := Option.map_eq_some_iff.1 h
    obtain ⟨c, hc⟩ := Option.isSome_iff_exists.1 hid
    obtain ⟨i, hi, hc⟩ := Option.bind_eq_some_iff.1 hc
    have hfind : (Relation.table t).find? "id" = some i := hi
    obtain ⟨own, c', hown, -, hc', rfl⟩ := Relation.find?_table_some hfind
    have hplain : t.ownName? "id" = some "id" := Table.ownName?_of_plain (by decide)
    exact ⟨⟨c', List.mem_of_getElem? hc', Option.some.inj (hown.symm.trans hplain)⟩, found, hfound, rfl⟩
  · cases h

namespace Relation

variable {a : Algebra} {r other left right : Relation} {t : Table} {id i : Nat}
  {referrers : Referrers} {pair : KeyPair} {name : String}

/-- The name of a column for a search: that of the declared column it reads, else its own. -/
theorem qualifiedColumnName_eq (r : Relation) (i : Nat) (c : OutputColumn) :
    r.qualifiedColumnName i c = ((r.declared? i).map fun p => qualify p.1 p.2).getD c.name := by
  unfold qualifiedColumnName declared?
  cases r.physical? i with
  | none => rfl
  | some p =>
    rw [Option.bind_some, Option.bind_some]
    cases p.column? <;> rfl

/-- The first referrer of a name is the first column that has it. -/
theorem exists_of_find?_referrers {found : String × String}
    (h : r.referrers.find? (·.1 == name) = some found) :
    ∃ i c, r.columnNames.findIdx? (· == name) = some i ∧ r.columns[i]? = some c ∧ c.name = name ∧
      found.2 = r.qualifiedColumnName i c := by
  rw [List.find?_eq_bind_findIdx?_getElem?] at h
  obtain ⟨i, hi, hfound⟩ := Option.bind_eq_some_iff.1 h
  rw [referrers, List.getElem?_mapIdx] at hfound
  obtain ⟨c, hc, rfl⟩ := Option.map_eq_some_iff.1 hfound
  have hnames : r.referrers.map (·.1) = r.columnNames := by
    apply List.ext_getElem <;> simp [referrers, columnNames]
  have hplace : r.columnNames.findIdx? (· == name) = some i := by
    rw [← hnames, List.findIdx?_map]
    exact hi
  obtain ⟨hlt, hname, -⟩ := List.findIdx?_eq_some_iff_getElem.1 hplace
  refine ⟨i, c, hplace, hc, ?_, rfl⟩
  have hget : r.columnNames[i]? = some c.name := by rw [columnNames, List.getElem?_map, hc]; rfl
  rw [List.getElem?_eq_getElem hlt] at hget
  rw [← Option.some.inj hget]
  exact beq_iff_eq.1 hname

/-! ## The table of a key -/

/-- A leaf is a table or a projection. -/
theorem leaf_cases {leaf : Relation} (h : leaf ∈ r.leaves) :
    (∃ t, leaf = .table t) ∨ ∃ id operand whole shown, leaf = .projection id operand whole shown := by
  induction r with
  | table t => exact .inl ⟨t, List.mem_singleton.1 h⟩
  | selection id operand condition ih => exact ih h
  | projection id operand whole shown => exact .inr ⟨_, _, _, _, List.mem_singleton.1 h⟩
  | join id kind left right condition ihl ihr => exact (List.mem_append.1 h).elim ihl ihr

/-- A table that can be reached is that of a leaf. -/
theorem exists_leaf_of_tableNamed? (h : r.tableNamed? name = some t) :
    ∃ leaf ∈ r.leaves, leaf.leafTable? = some t := by
  induction r with
  | table u =>
    rw [tableNamed?] at h
    split at h
    · cases h
      exact ⟨_, List.mem_singleton_self _, rfl⟩
    · cases h
  | selection id operand condition ih => exact ih h
  | projection id operand whole shown =>
    exact ⟨_, List.mem_singleton_self _, (tableNamed?_projection_some h).1⟩
  | join id kind left right condition ihl ihr =>
    rcases tableNamed?_join_some h with hleft | ⟨-, hright⟩
    · obtain ⟨leaf, hleaf, hleafTable⟩ := ihl hleft
      exact ⟨leaf, List.mem_append_left _ hleaf, hleafTable⟩
    · obtain ⟨leaf, hleaf, hleafTable⟩ := ihr hright
      exact ⟨leaf, List.mem_append_right _ hleaf, hleafTable⟩

/-- A search that comes to nothing finds tables without a key at all leaves. -/
theorem leaves_of_inferKeyFrom_none (h : inferKeyFrom referrers r = .ok none) :
    ∀ leaf ∈ r.leaves, ∃ t, leaf.leafTable? = some t ∧ t.inferKey referrers = none := by
  rw [inferKeyFrom_eq] at h
  have hsilent : r.leaves.findSome? (keyOf? referrers) = none := by
    cases hsaid : r.leaves.findSome? (keyOf? referrers) with
    | none => rfl
    | some said =>
      rw [hsaid] at h
      cases said <;> cases h
  rw [List.findSome?_eq_none_iff] at hsilent
  intro leaf hleaf
  have hnone := hsilent leaf hleaf
  rcases leaf_cases hleaf with ⟨t, rfl⟩ | ⟨id, operand, whole, shown, rfl⟩
  · exact ⟨t, rfl, by simpa [keyOf?] using hnone⟩
  · cases whole with
    | none => cases hnone
    | some t => exact ⟨t, rfl, by simpa [keyOf?] using hnone⟩

/-- A relation in which a search comes to nothing does not reach a table with a key. -/
theorem tableNamed?_key_eq_none (ha : a.Sound) (hr : r ∈ a.relations)
    (ht : Relation.table t ∈ a.relations) (hkey : (t.inferKey referrers).isSome)
    (h : inferKeyFrom referrers r = .ok none) : r.tableNamed? t.name = none := by
  cases hreached : r.tableNamed? t.name with
  | none => rfl
  | some u =>
    obtain ⟨leaf, hleaf, hleafTable⟩ := exists_leaf_of_tableNamed? hreached
    obtain ⟨u', hu', hnone⟩ := leaves_of_inferKeyFrom_none h leaf hleaf
    obtain rfl := Option.some.inj (hleafTable.symm.trans hu')
    obtain rfl := ha.table_eq_of_name_eq (ha.table_mem_of_tableNamed? hr hreached) ht
      (name_of_tableNamed? hreached)
    rw [hnone] at hkey
    cases hkey

/-- A relation in which a search comes to nothing does not answer for the columns of a table with a
key. -/
theorem find?_key_eq_none (ha : a.Sound) (hnames : a.Separable) (hr : r ∈ a.relations)
    (ht : Relation.table t ∈ a.relations) {c : Column} (hc : c ∈ t.columns)
    (hkey : (t.inferKey referrers).isSome) (h : inferKeyFrom referrers r = .ok none) :
    r.find? (t.qualified c.name) = none := by
  refine find?_eq_none_of_leaves ha hnames hr ht hc (tableNamed?_key_eq_none ha hr ht hkey h)
    fun leaf hleaf => ?_
  obtain ⟨u, hu, -⟩ := leaves_of_inferKeyFrom_none h leaf hleaf
  rw [hu]
  rfl

/-- A search finds the key of a table that the relation reaches.  If qualified names can be taken apart,
the relation finds the `id` of the table under its qualified name, as a column of the name `id`. -/
theorem exists_tableNamed?_key (ha : a.Sound) (hr : r ∈ a.relations)
    (h : inferKeyFrom referrers r = .ok (some pair)) :
    ∃ t, r.tableNamed? t.name = some t ∧ t.inferKey referrers = some pair ∧
      (a.Separable → ∃ i, r.find? (t.qualified "id") = some i ∧ r.columnNames[i]? = some "id") := by
  induction r with
  | table t =>
    have hkey : t.inferKey referrers = some pair := Except.ok.inj h
    obtain ⟨⟨c, hc, hid⟩, -⟩ := Table.inferKey_eq_some hkey
    refine ⟨t, if_pos rfl, hkey, fun hnames => ?_⟩
    obtain ⟨i, hi, hget⟩ := exists_find?_table ha hnames hr hc
    refine ⟨i, hid ▸ hi, ?_⟩
    rw [columnNames_table, List.getElem?_map, hget, Option.map_some, hid]
  | selection id operand condition ih =>
    rw [columnNames_selection]
    exact ih (ha.selection_operand hr).1 h
  | projection id operand whole shown ih =>
    cases whole with
    | none => cases h
    | some t =>
      have hkey : t.inferKey referrers = some pair := Except.ok.inj h
      obtain ⟨⟨c, hc, hid⟩, -⟩ := Table.inferKey_eq_some hkey
      refine ⟨t, by simp [tableNamed?], hkey, fun hnames => ?_⟩
      obtain ⟨i, d, hi, hget, hname⟩ := exists_find?_whole ha hnames hr hc
      refine ⟨i, hid ▸ hi, ?_⟩
      change (shown.map (·.name))[i]? = _
      rw [List.getElem?_map, hget, Option.map_some, hname, hid]
  | join id kind left right condition ihl ihr =>
    have hl := (ha.join_left hr).1
    have hrt := (ha.join_right hr).1
    obtain ⟨found, hfound, h⟩ := bind_ok_iff.1 h
    cases found with
    | some pair' =>
      cases h
      obtain ⟨t, hreached, hkey, hfinds⟩ := ihl hl hfound
      refine ⟨t, by rw [tableNamed?, hreached], hkey, fun hnames => ?_⟩
      obtain ⟨i, hi, hname⟩ := hfinds hnames
      refine ⟨i, by rw [find?, hi], ?_⟩
      by_cases hself : left.id = right.id
      · rw [columnNames_join_self hself, hname]
      · rw [columnNames_join hself,
          List.getElem?_append_left (List.getElem?_eq_some_iff.1 hname).1, hname]
    | none =>
      have h : inferKeyFrom referrers right = .ok (some pair) := h
      have hself : left.id ≠ right.id := by
        intro hself
        obtain rfl := ha.join_self hr hself
        rw [h] at hfound
        cases hfound
      obtain ⟨t, hreached, hkey, hfinds⟩ := ihr hrt h
      have ht := ha.table_mem_of_tableNamed? hrt hreached
      have hsome : (t.inferKey referrers).isSome := by rw [hkey]; rfl
      have hunreached := tableNamed?_key_eq_none ha hl ht hsome hfound
      refine ⟨t, by rw [tableNamed?, hunreached, hreached], hkey, fun hnames => ?_⟩
      obtain ⟨i, hi, hname⟩ := hfinds hnames
      obtain ⟨⟨c, hc, hid⟩, -⟩ := Table.inferKey_eq_some hkey
      have hsilent := find?_key_eq_none ha hnames hl ht hc hsome hfound
      rw [hid] at hsilent
      have hwidth : left.columnNames.length = left.width := List.length_map ..
      refine ⟨left.width + i, by rw [find?, hsilent, hi, Option.map_some], ?_⟩
      rw [columnNames_join hself, ← hwidth, List.getElem?_append_right (Nat.le_add_right _ _),
        Nat.add_sub_cancel_left, hname]

/-- The table of the key that a search finds stands at the bottom of the relation.  If qualified names can
be taken apart, what the relation finds under the name of the key reads the `id` of the table. -/
theorem exists_bases_key (ha : a.Sound) (hr : r ∈ a.relations)
    (h : inferKeyFrom referrers r = .ok (some pair)) :
    ∃ t ∈ r.bases, t.inferKey referrers = some pair ∧
      (a.Separable → ∃ i, r.find? (t.qualified "id") = some i ∧ r.columnNames[i]? = some "id" ∧
        r.declared? i = some (t.name, "id")) := by
  obtain ⟨t, hreached, hkey, hfinds⟩ := exists_tableNamed?_key ha hr h
  refine ⟨t, mem_bases_of_tableNamed? ha hr hreached, hkey, fun hnames => ?_⟩
  obtain ⟨i, hi, hname⟩ := hfinds hnames
  obtain ⟨⟨c, hc, hid⟩, -⟩ := Table.inferKey_eq_some hkey
  have ht := ha.table_mem_of_tableNamed? hr hreached
  exact ⟨i, hi, hname, find?_declared ha hr (hid ▸ hnames t ht c hc) hi⟩

/-! ## The condition -/

/-- The condition compares a key of the left operand with what refers to it, or, if there is none, what
refers to a key of the right operand with that key. -/
theorem inferCondition_eq_ok {p : Predicate} (h : left.inferCondition right = .ok p) :
    (∃ pair, left.inferKey right = .ok (some pair) ∧
        p = .expr (.equal (.column pair.own) (.column pair.foreign))) ∨
      left.inferKey right = .ok none ∧ ∃ pair, right.inferKey left = .ok (some pair) ∧
        p = .expr (.equal (.column pair.foreign) (.column pair.own)) := by
  obtain ⟨found, hleft, h⟩ := bind_ok_iff.1 h
  cases found with
  | some pair =>
    cases h
    exact .inl ⟨pair, hleft, rfl⟩
  | none =>
    obtain ⟨found, hright, h⟩ := bind_ok_iff.1 h
    cases found with
    | some pair =>
      cases h
      exact .inr ⟨hleft, pair, hright, rfl⟩
    | none => cases h

end Relation

/-- A comparison of two names is bound to a comparison of what they stand for. -/
theorem Algebra.bind_names {operands : List Relation} {building x y : String} {bound : Expr Nat}
    (h : Algebra.bind operands building (.equal (.column x) (.column y)) = .ok bound) :
    ∃ i k, bound = .equal (.column i) (.column k) ∧ Relation.findIn? operands x = some i ∧
      Relation.findIn? operands y = some k := by
  obtain ⟨x', hx, h⟩ := bind_ok_iff.1 h
  obtain ⟨y', hy, h⟩ := bind_ok_iff.1 h
  cases h
  obtain ⟨i, hi, rfl⟩ := map_ok_iff.1 hx
  obtain ⟨k, hk, rfl⟩ := map_ok_iff.1 hy
  exact ⟨i, k, rfl, bindColumn_ok_iff.1 hi, bindColumn_ok_iff.1 hk⟩

namespace Arena

open RelationalAlgebra.Relation

variable {a a' : Arena} {b : Algebra} {l r k o : Relation} {t : Table} {kind : JoinKind}
  {i j m n d x : Nat} {name : String}

/-! ## What a search finds in an arena -/

/-- A column of the relation that has the name `id` and leads to the `id` of the table. -/
def IsKey (a : Arena) (n : Nat) (t : Table) (d : Nat) : Prop :=
  ∃ columns, a.columns n = .ok columns ∧ d ∈ columns ∧ a.isNamed "id" d = true ∧
    a.LeadsTo (.derived d) t.name "id"

/-- The first column of the relation whose name refers to the table. -/
def IsReferrer (a : Arena) (n : Nat) (t : Table) (d : Nat) : Prop :=
  ∃ columns, a.columns n = .ok columns ∧ columns.find? (a.isNamed t.foreignKey) = some d

/-- The name that a search gives to a column: the qualified name of the declared column that it leads to,
or its own if it leads to none. -/
def Called (a : Arena) (d : Nat) (name : String) : Prop :=
  (∀ t c, a.LeadsTo (.derived d) t c → name = qualify t c) ∧
    ((∀ t c, ¬ a.LeadsTo (.derived d) t c) → a.isNamed name d = true)

/-- A search of the relation `k` finds the key of a table in it, and the column `d` of the relation `o`
that refers to the table, to which it gives a name. -/
structure KeyFound (a : Arena) (k o : Nat) (t : Table) (d : Nat) (name : String) : Prop where
  searched : ∃ searched other, a.relation k = .ok searched ∧ a.relation o = .ok other ∧
    t ∈ searched.bases ∧ searched.inferKey other = .ok (some ⟨t.qualified "id", name⟩)
  referrer : a.IsReferrer o t d
  called : a.Called d name

/-- What a name is bound to where two relations are joined: what it finds in the left one, or in the right
one if it finds nothing in the left one. -/
def BoundTo (a : Arena) (m n : Nat) (name : String) (d : Nat) : Prop :=
  a.find m name = .ok (some d) ∨ a.find m name = .ok none ∧ a.find n name = .ok (some d)

namespace Stores

theorem isNamed_iff (h : Stores a b) (hr : r ∈ b.relations) (hd : (a.order r.id)[i]? = some d) :
    a.isNamed name d = true ↔ r.columnNames[i]? = some name := by
  have hi : i < r.width := by
    rw [← h.length_order hr]
    exact (List.getElem?_eq_some_iff.1 hd).1
  obtain ⟨d', c, hd', hc, hderived⟩ := h.exists_derived hr hi
  obtain rfl := Option.some.inj (hd.symm.trans hd')
  rw [isNamed, hderived, Relation.columnNames, List.getElem?_map, hc]
  simp

theorem called (h : Stores a b) (hr : r ∈ b.relations) (hd : (a.order r.id)[i]? = some d)
    {c : OutputColumn} (hc : r.columns[i]? = some c) : a.Called d (r.qualifiedColumnName i c) := by
  rw [qualifiedColumnName_eq]
  refine ⟨fun t c' hleads => ?_, fun hnone => ?_⟩
  · rw [(h.leadsTo_iff hr hd).1 hleads]
    rfl
  · cases hdeclared : r.declared? i with
    | some p => exact (hnone p.1 p.2 ((h.leadsTo_iff hr hd).2 hdeclared)).elim
    | none =>
      rw [h.isNamed_iff hr hd, Relation.columnNames, List.getElem?_map, hc]
      rfl

/-- What a search finds in the trees is stored. -/
theorem exists_keyFound (h : Stores a b) (hk : k ∈ b.relations) (ho : o ∈ b.relations) {pair : KeyPair}
    (hkey : k.inferKey o = .ok (some pair)) :
    ∃ t d, a.KeyFound k.id o.id t d pair.foreign ∧ pair.own = t.qualified "id" ∧ d ∈ a.order o.id ∧
      (b.Separable → ∃ key, a.find k.id (t.qualified "id") = .ok (some key) ∧ a.IsKey k.id t key) := by
  obtain ⟨t, hbase, htable, hfinds⟩ := exists_bases_key h.sound hk hkey
  obtain ⟨-, found, hfound, rfl⟩ := Table.inferKey_eq_some htable
  obtain ⟨p, c, hplace, hc, hcname, hqualified⟩ := exists_of_find?_referrers hfound
  obtain ⟨d, -, hd, -⟩ := h.exists_derived ho (i := p) (List.getElem?_eq_some_iff.1 hc).1
  refine ⟨t, d, ⟨?_, ?_, ?_⟩, rfl, List.mem_of_getElem? hd, fun hnames => ?_⟩
  · exact ⟨k, o, h.relation_eq hk, h.relation_eq ho, hbase, hkey⟩
  · refine ⟨_, h.columns_eq ho, ?_⟩
    rw [← h.bind_columnNames ho, hplace, Option.bind_some, hd]
  · rw [hqualified]
    exact h.called ho hd hc
  · obtain ⟨i, hi, hname, hdeclared⟩ := hfinds hnames
    obtain ⟨key, -, hat, -⟩ := h.exists_derived hk (h.sound.find?_lt hk hi)
    refine ⟨key, by rw [h.find_eq hk, hi, Option.bind_some, hat], _, h.columns_eq hk,
      List.mem_of_getElem? hat, (h.isNamed_iff hk hat).2 hname, (h.leadsTo_iff hk hat).2 hdeclared⟩

/-! ## Where names land -/

/-- What a name finds in a relation is a column of it. -/
theorem mem_order_of_find (h : Stores a b) (hr : r ∈ b.relations)
    (hfound : a.find r.id name = .ok (some d)) : d ∈ a.order r.id := by
  rw [h.find_eq hr, Except.ok.injEq] at hfound
  obtain ⟨i, -, hi⟩ := Option.bind_eq_some_iff.1 hfound
  exact List.mem_of_getElem? hi

/-- Two relations that share a column are one. -/
theorem eq_of_mem_order (h : Stores a b) (hl : l ∈ b.relations) (hr : r ∈ b.relations)
    (hdl : d ∈ a.order l.id) (hdr : d ∈ a.order r.id) : l.id = r.id := by
  by_contra hne
  exact h.disjoint_order hl hr hne hdl hdr

/-- A name is bound to the column of the place that it is bound to in the trees. -/
theorem exists_boundTo (h : Stores a b) (hl : l ∈ b.relations) (hr : r ∈ b.relations)
    (hi : findIn? [l, r] name = some i) :
    ∃ d, (a.inputs [l, r])[i]? = some d ∧ a.BoundTo l.id r.id name d := by
  simp only [BoundTo]
  rw [inputs_two, h.find_eq hl, h.find_eq hr]
  rw [findIn?_two 0 .inner (.literal .null)] at hi
  have hlength := h.length_order hl
  rcases find?_join_some hi with hleft | ⟨hleft, p, hright, rfl⟩
  · have hlt := h.sound.find?_lt hl hleft
    obtain ⟨d, -, hd, -⟩ := h.exists_derived hl hlt
    refine ⟨d, ?_, .inl (by rw [hleft, Option.bind_some, hd])⟩
    rw [List.getElem?_append_left (hlength ▸ hlt), hd]
  · obtain ⟨d, -, hd, -⟩ := h.exists_derived hr (h.sound.find?_lt hr hright)
    refine ⟨d, ?_, .inr ⟨by rw [hleft]; rfl, by rw [hright, Option.bind_some, hd]⟩⟩
    rw [← hlength, List.getElem?_append_right (Nat.le_add_right _ _), Nat.add_sub_cancel_left, hd]

section

variable (h : Stores a b) (hl : l ∈ b.relations) (hr : r ∈ b.relations)
  (hx : a.BoundTo l.id r.id name x)

include h hl hr hx

/-- A name is bound to a column of the left operand if it finds the column there. -/
theorem lands_left_iff (hd : d ∈ a.order l.id) : x = d ↔ a.find l.id name = .ok (some d) := by
  rcases hx with hfound | ⟨hnone, hfound⟩
  · rw [hfound, Except.ok.injEq, Option.some.injEq]
  · rw [hnone]
    refine iff_of_false ?_ (fun heq => nomatch heq)
    rintro rfl
    rw [h.eq_of_mem_order hl hr hd (h.mem_order_of_find hr hfound), hfound] at hnone
    cases hnone

/-- A name is bound to a column of the right operand if it finds the column there and nothing in another
left operand. -/
theorem lands_right_iff (hd : d ∈ a.order r.id) :
    x = d ↔ (l.id = r.id ∨ a.find l.id name = .ok none) ∧ a.find r.id name = .ok (some d) := by
  rcases hx with hfound | ⟨hnone, hfound⟩
  · rw [hfound]
    constructor
    · rintro rfl
      have hsame := h.eq_of_mem_order hl hr (h.mem_order_of_find hl hfound) hd
      exact ⟨.inl hsame, hsame ▸ hfound⟩
    · rintro ⟨hsame | hnone, hright⟩
      · rw [← hsame, hfound] at hright
        exact Option.some.inj (Except.ok.inj hright)
      · cases hnone
  · simp [hnone, hfound]

end

/-- If no table stands twice at the bottom of a relation, it finds the column that refers to a key again,
as long as that reads a declared column. -/
theorem find_called (h : Stores a b) (hnames : b.Separable) (hr : r ∈ b.relations)
    (honce : r.bases.Nodup) (hd : d ∈ a.order r.id) {u c : String} (hleads : a.LeadsTo (.derived d) u c) :
    a.find r.id (qualify u c) = .ok (some d) := by
  obtain ⟨p, hp⟩ := List.getElem?_of_mem hd
  have hdeclared := (h.leadsTo_iff hr hp).1 hleads
  have hsplit := split_declared h.sound hnames hr hdeclared
  rw [h.find_eq hr, find?_of_declared h.sound hr honce hsplit hdeclared, Option.bind_some, hp]

/-- If no table stands at the bottom of both operands, the left one does not answer for what the right one
reads. -/
theorem find_left_eq_none (h : Stores a b) (hnames : b.Separable) (hl : l ∈ b.relations)
    (hr : r ∈ b.relations) (hdisjoint : l.bases.Disjoint r.bases) (hd : d ∈ a.order r.id) {u c : String}
    (hleads : a.LeadsTo (.derived d) u c) : a.find l.id (qualify u c) = .ok none := by
  obtain ⟨p, hp⟩ := List.getElem?_of_mem hd
  have hdeclared := (h.leadsTo_iff hr hp).1 hleads
  have hsplit := split_declared h.sound hnames hr hdeclared
  rw [h.find_eq hl, find?_left_eq_none h.sound hl hr hdisjoint hsplit hdeclared]
  rfl

/-- The left operand of a join by a key has the key: it is what its name is bound to if qualified names can
be taken apart.  The column that refers to it is found again exactly if nothing on the left answers for its
name. -/
theorem key_left (h : Stores a b) (hl : l ∈ b.relations) (hr : r ∈ b.relations) {pair : KeyPair}
    (hkey : l.inferKey r = .ok (some pair)) {y : Nat} (hx : a.BoundTo l.id r.id pair.own x)
    (hy : a.BoundTo l.id r.id pair.foreign y) :
    ∃ t d, a.KeyFound l.id r.id t d pair.foreign ∧ a.BoundTo l.id r.id (t.qualified "id") x ∧
      (y = d ↔ (l.id = r.id ∨ a.find l.id pair.foreign = .ok none) ∧
        a.find r.id pair.foreign = .ok (some d)) ∧
      (b.Separable → a.IsKey l.id t x ∧
        (l.bases.Disjoint r.bases → r.bases.Nodup → (∃ u c, a.LeadsTo (.derived d) u c) → y = d)) := by
  obtain ⟨t, d, hfound, hname, hd, hfinds⟩ := h.exists_keyFound hl hr hkey
  rw [hname] at hx
  have hiff := h.lands_right_iff hl hr hy hd
  refine ⟨t, d, hfound, hx, hiff, fun hnames => ⟨?_, ?_⟩⟩
  · obtain ⟨key, hown, hiskey⟩ := hfinds hnames
    rcases hx with hx | ⟨hx, -⟩
    · obtain rfl := Option.some.inj (Except.ok.inj (hx.symm.trans hown))
      exact hiskey
    · rw [hown] at hx
      cases hx
  · rintro hdisjoint honce ⟨u, c, hleads⟩
    rw [hiff, hfound.called.1 u c hleads]
    exact ⟨.inr (h.find_left_eq_none hnames hl hr hdisjoint hd hleads),
      h.find_called hnames hr honce hd hleads⟩

/-- The right operand of a join by a key has the key, and the left one has none.  The column that refers to
it is what its name is bound to exactly if the left operand finds it again; if qualified names can be taken
apart, the key is so exactly if nothing on the left answers for its name. -/
theorem key_right (h : Stores a b) (hl : l ∈ b.relations) (hr : r ∈ b.relations) {pair : KeyPair}
    (hnone : l.inferKey r = .ok none) (hkey : r.inferKey l = .ok (some pair)) {y : Nat}
    (hx : a.BoundTo l.id r.id pair.foreign x) (hy : a.BoundTo l.id r.id pair.own y) :
    ∃ t d, a.KeyFound r.id l.id t d pair.foreign ∧ a.BoundTo l.id r.id (t.qualified "id") y ∧
      (x = d ↔ a.find l.id pair.foreign = .ok (some d)) ∧
      (b.Separable → (a.IsKey r.id t y ↔ a.find l.id (t.qualified "id") = .ok none) ∧
        (l.bases.Disjoint r.bases → a.IsKey r.id t y) ∧
        (l.bases.Nodup → (∃ u c, a.LeadsTo (.derived d) u c) → x = d)) := by
  obtain ⟨t, d, hfound, hname, hd, hfinds⟩ := h.exists_keyFound hr hl hkey
  rw [hname] at hy
  have hiff := h.lands_left_iff hl hr hx hd
  refine ⟨t, d, hfound, hy, hiff, fun hnames => ?_⟩
  obtain ⟨key, hown, hiskey⟩ := hfinds hnames
  have hkeyiff : a.IsKey r.id t y ↔ a.find l.id (t.qualified "id") = .ok none := by
    rcases hy with hy | ⟨hy, hy'⟩
    · rw [hy]
      refine iff_of_false ?_ (fun heq => nomatch heq)
      rintro ⟨columns, hcolumns, hmem, -⟩
      obtain rfl := Except.ok.inj ((h.columns_eq hr).symm.trans hcolumns)
      -- the operands are two, since only one of them has a key
      obtain rfl := h.sound.eq_of_id_eq hl hr
        (h.eq_of_mem_order hl hr (h.mem_order_of_find hl hy) hmem)
      rw [hnone] at hkey
      cases hkey
    · obtain rfl := Option.some.inj (Except.ok.inj (hown.symm.trans hy'))
      exact iff_of_true hiskey hy
  refine ⟨hkeyiff, fun hdisjoint => ?_, ?_⟩
  · obtain ⟨columns, hcolumns, hmem, -, hleads⟩ := hiskey
    obtain rfl := Except.ok.inj ((h.columns_eq hr).symm.trans hcolumns)
    exact hkeyiff.2 (h.find_left_eq_none hnames hl hr hdisjoint hmem hleads)
  · rintro honce ⟨u, c, hleads⟩
    rw [hiff, hfound.called.1 u c hleads]
    exact h.find_called hnames hl honce hd hleads

/-- What a join by a key that succeeds has built. -/
theorem exists_of_joinInferred (h : Stores a b)
    (hjoin : (joinInferred kind m n).on a = (.ok j, a')) :
    ∃ l ∈ b.relations, ∃ r ∈ b.relations, l.id = m ∧ r.id = n ∧ ∃ p equality bound memo,
      l.inferCondition r = .ok p ∧ p.equality = .ok equality ∧
      Algebra.bind [l, r] ("join of " ++ l.describe ++ " and " ++ r.describe) equality = .ok bound ∧
      a'.node j = .ok ⟨.join kind m n (a.encode [l, r] bound), memo⟩ := by
  obtain ⟨l, hl, rfl⟩ := h.exists_mem (lt_of_look_relation hjoin)
  have hleft : (look (·.relation l.id)).on a = (.ok l, a) := congrArg (·, a) (h.relation_eq hl)
  have hrest := hjoin
  rw [joinInferred, on_bind_ok hleft] at hrest
  obtain ⟨r, hr, rfl⟩ := h.exists_mem (lt_of_look_relation hrest)
  obtain ⟨built, b', hrun, rfl, hstores⟩ := (joinInferred_follows h hl hr kind).exists_of_ok hjoin
  unfold Algebra.joinInferred at hrun
  rw [run_lift_bind] at hrun
  obtain ⟨p, hcondition, hrun⟩ := bind_ok_iff.1 hrun
  obtain ⟨-, equality, bound, hequality, hbound, rfl, rfl⟩ := Algebra.join_ok_iff.1 hrun
  obtain ⟨-, memo, hnode, -⟩ := hstores.exists_added
  refine ⟨l, hl, r, hr, rfl, rfl, p, equality, bound, memo, hcondition, hequality, hbound, ?_⟩
  rw [← (keeping_joinInferred kind l.id r.id).encode_eq hjoin h (by simp [hl, hr])]
  exact hnode

end Stores

/-- The condition of a join by a key is the equality of two columns, which the names of the key and of the
column that refers to it are bound to.  If the search finds a key of the left operand, the second column is
the one that refers to it exactly if the right operand finds that column under its name and the left one,
if it is another one, finds none.  If the search finds a key of the right operand, the first column is the
one that refers to it exactly if the left operand finds it under its name.

If qualified names can be taken apart, a key of the left operand is the first column, and a key of the right
operand is the second one exactly if the left operand does not answer for its name.  Then all is as it was
found if no table stands twice at the bottom of the operands and the column that refers to the key leads to
a declared one. -/
theorem joinInferred_condition (h : Reached a) (hjoin : (joinInferred kind m n).on a = (.ok j, a')) :
    ∃ x y memo t d name l r,
      a'.node j =
        .ok ⟨.join kind m n (.equal (.column (.derived x)) (.column (.derived y))), memo⟩ ∧
      a.relation m = .ok l ∧ a.relation n = .ok r ∧
      ((a.KeyFound m n t d name ∧ a.BoundTo m n (t.qualified "id") x ∧ a.BoundTo m n name y ∧
          (y = d ↔ (m = n ∨ a.find m name = .ok none) ∧ a.find n name = .ok (some d)) ∧
          (a.Separable → a.IsKey m t x ∧
            (l.bases.Disjoint r.bases → r.bases.Nodup → (∃ u c, a.LeadsTo (.derived d) u c) → y = d))) ∨
        (l.inferKey r = .ok none ∧ a.KeyFound n m t d name ∧ a.BoundTo m n name x ∧
          a.BoundTo m n (t.qualified "id") y ∧ (x = d ↔ a.find m name = .ok (some d)) ∧
          (a.Separable → (a.IsKey n t y ↔ a.find m (t.qualified "id") = .ok none) ∧
            (l.bases.Disjoint r.bases → a.IsKey n t y) ∧
            (l.bases.Nodup → (∃ u c, a.LeadsTo (.derived d) u c) → x = d)))) := by
  obtain ⟨b, -, hstores⟩ := h.sound
  obtain ⟨l, hl, r, hr, rfl, rfl, p, equality, bound, memo, hcondition, hequality, hbound, hnode⟩ :=
    hstores.exists_of_joinInferred hjoin
  have hl' := hstores.relation_eq hl
  have hr' := hstores.relation_eq hr
  have hsides : ∀ {u v : String}, equality = .equal (.column u) (.column v) →
      ∃ x y, a'.node j =
          .ok ⟨.join kind l.id r.id (.equal (.column (.derived x)) (.column (.derived y))), memo⟩ ∧
        a.BoundTo l.id r.id u x ∧ a.BoundTo l.id r.id v y := by
    rintro u v rfl
    obtain ⟨i, k, rfl, hi, hk⟩ := Algebra.bind_names hbound
    obtain ⟨x, hxi, hx⟩ := hstores.exists_boundTo hl hr hi
    obtain ⟨y, hyk, hy⟩ := hstores.exists_boundTo hl hr hk
    refine ⟨x, y, ?_, hx, hy⟩
    rw [hnode, ← encode_column hxi, ← encode_column hyk]
    rfl
  rcases inferCondition_eq_ok hcondition with ⟨pair, hkey, rfl⟩ | ⟨hnone, pair, hkey, rfl⟩
  · obtain ⟨x, y, hnode, hx, hy⟩ := hsides (Except.ok.inj hequality).symm
    obtain ⟨t, d, hfound, hown, hiff, hnames⟩ := hstores.key_left hl hr hkey hx hy
    exact ⟨x, y, memo, t, d, pair.foreign, l, r, hnode, hl', hr',
      .inl ⟨hfound, hown, hy, hiff, fun hseparable => hnames (hstores.separable hseparable)⟩⟩
  · obtain ⟨x, y, hnode, hx, hy⟩ := hsides (Except.ok.inj hequality).symm
    obtain ⟨t, d, hfound, hown, hiff, hnames⟩ := hstores.key_right hl hr hnone hkey hx hy
    exact ⟨x, y, memo, t, d, pair.foreign, l, r, hnode, hl', hr',
      .inr ⟨hnone, hfound, hx, hown, hiff, fun hseparable => hnames (hstores.separable hseparable)⟩⟩

/-- Two tables, the one joined to the other that refers to it, and a selection of the one that refers. -/
def crossed : Arena :=
  let builds : List (Construction Nat) :=
    [.createTable "blogs" [("id", .integer)],
      .createTable "posts" [("id", .integer), ("blog_id", .integer)],
      .join .inner 0 1 (.expr (.equal (.column "blogs__id") (.column "blog_id"))),
      .select 1 (.expr (.equal (.column "id") (.literal (.integer 1))))]
  builds.foldl (fun a k => (k.run.on a).2) .empty

theorem crossed_reached : Reached crossed := by
  refine .build _ (.build _ (.build _ (.build _ .empty ?_) ?_) ?_) ?_
  all_goals decide_cbv

/-- The key is found on the left and the column that refers to it on the right, but the name of that column
stands for a column of the left operand. -/
theorem joinInferred_condition_crossed :
    ∃ x y memo t d, ((joinInferred .inner 2 3).on crossed).2.node 4 =
        .ok ⟨.join .inner 2 3 (.equal (.column (.derived x)) (.column (.derived y))), memo⟩ ∧
      crossed.KeyFound 2 3 t d "posts__blog_id" ∧ crossed.IsKey 2 t x ∧ y ≠ d := by
  have hvalue : (fun a : Arena => (((joinInferred .inner 2 3).on a).1, decide a.Separable,
      a.find 2 "posts__blog_id", (do
        let l ← a.relation 2
        let r ← a.relation 3
        return (l.inferKey r).toOption))) crossed = (.ok 4, true, .ok (some 5),
          .ok (some (some ⟨"blogs__id", "posts__blog_id"⟩))) := by cbv
  simp only [Prod.mk.injEq, decide_eq_true_eq] at hvalue
  obtain ⟨hjoin, hseparable, hfind, hsearch⟩ := hvalue
  obtain ⟨x, y, memo, t, d, name, l, r, hnode, hl, hr, hcase⟩ :=
    joinInferred_condition crossed_reached (Prod.ext hjoin rfl)
  simp only [hl, hr, bind, Except.bind, pure, Except.pure, Except.ok.injEq] at hsearch
  rcases hcase with ⟨hfound, -, -, hiff, hnames⟩ | ⟨hnone, -⟩
  · obtain ⟨l', r', hl', hr', -, hkey⟩ := hfound.searched
    obtain rfl := Except.ok.inj (hl.symm.trans hl')
    obtain rfl := Except.ok.inj (hr.symm.trans hr')
    rw [hkey] at hsearch
    obtain rfl : name = "posts__blog_id" :=
      congrArg KeyPair.foreign (Option.some.inj (Option.some.inj hsearch))
    refine ⟨x, y, memo, t, d, hnode, hfound, (hnames hseparable).1, ?_⟩
    rw [Ne, hiff, hfind]
    simp
  · rw [hnone] at hsearch
    cases hsearch

end Arena

end RelationalAlgebra
