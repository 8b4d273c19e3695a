import Mathlib.Data.List.Nodup
import RelationalAlgebra.Proofs.Compiling
import RelationalAlgebra.Proofs.Numbering
import RelationalAlgebra.Proofs.Session

/-!
# The two sides of a join

A join shows the columns of its left operand and then those of its right operand, and in the
compiled query every entry should refer to a unit of the side that its column comes from:
`SidesApart`.

The check for repeated operands compares the right operand with the units of the left one, and a
join of the left chain is none of these.  So the sides are kept apart unless the right operand is
a join of the left chain, and then they are not: `join_sides`.
-/

namespace RelationalAlgebra.Sql

open RelationalAlgebra.Relation

/-! ## The property -/

/-- The expression is a column, there is a unit of its qualifier, and every such unit stands for a
relation with the property. -/
def RefersTo (units : List FromUnit) (P : Relation → Prop) (e : SqlExpr) : Prop :=
  ∃ c, e = .column c ∧ (∃ u ∈ units, u.qualifier = c.qualifier) ∧
    ∀ u ∈ units, u.qualifier = c.qualifier → P u.relation

/-- The columns of a join are those of both operands, and in the compiled query those of the left
refer to units of its chain of joins and those of the right to the unit built for it. -/
structure SidesApart (left right joined : Relation) : Prop where
  columns : joined.columns = passThrough (left.columns ++ right.columns)
  inputs : ∀ i, i < joined.width → joined.input? i =
    if i < left.width then some ⟨left, i⟩ else some ⟨right, i - left.width⟩
  entries : ∃ c list, compile joined = .ok c ∧ c.query.entries = some list ∧
    list.length = joined.width ∧ ∀ i entry, list[i]? = some entry →
      (i < left.width → RefersTo c.query.units (· ∈ left.joinUnits) entry.expr) ∧
      (left.width ≤ i → RefersTo c.query.units (· = right) entry.expr)

section

variable {a a' : Algebra} {r s left right joined root : Relation} {i : Nat} {e : SqlExpr}
  {chain : List Relation} {units : List FromUnit} {memo : Memo} {n n' : Numbering}
  {source : Source} {id : Nat} {kind : JoinKind} {condition : Expr Nat} {u : FromUnit}
  {p : Predicate}

/-- A unit with a qualifier of its own is all that a reference to it can mean. -/
theorem refersTo_of_column? {P : Relation → Prop} (hnodup : (units.map (·.qualifier)).Nodup)
    (hu : u ∈ units) (he : u.column? i = some e) (hP : P u.relation) : RefersTo units P e := by
  obtain ⟨name, rfl⟩ := FromUnit.exists_name_of_column? he
  refine ⟨_, rfl, ⟨u, hu, rfl⟩, fun v hv hqualifier => ?_⟩
  rw [List.inj_on_of_nodup_map hnodup hv hu hqualifier]
  exact hP

/-! ## Sides that are kept apart -/

/-- A column of a join is a column of one of its operands. -/
theorem input?_join (hi : i < left.width + right.width) :
    (Relation.join id kind left right condition).input? i =
      if i < left.width then some ⟨left, i⟩ else some ⟨right, i - left.width⟩ := by
  rw [input?, operands, locate]
  split
  · rfl
  · rw [locate, if_pos (by omega)]

theorem sidesApart_of_not_mem (ha : a.Sound)
    (hr : Relation.join id kind left right condition ∈ a.relations)
    (hright : right ∉ left.joinChain) :
    SidesApart left right (.join id kind left right condition) := by
  have hid := ne_of_not_mem_joinChain ha hr hright
  have hwidth : (Relation.join id kind left right condition).width = left.width + right.width :=
    width_join hid
  refine ⟨?_, fun i hi => input?_join (hwidth ▸ hi), ?_⟩
  · rw [columns, joined, if_neg hid]
  · obtain ⟨c, columns, k, hcompile, hrules⟩ := exists_compiles ha hr
    have hlength := hrules.length
    have hexprs := map_expr_qualifiedEntries hlength
    obtain ⟨source, units, lays, hquery, hreads⟩ := hrules.join_cases ha hr
    have hnodup := lays.qualifiers_nodup ha hr
    refine ⟨c, _, hcompile, by rw [hquery], ?_, fun i entry hentry => ?_⟩
    · rw [← hlength, ← congrArg List.length hexprs, List.length_map]
    have hcolumn : columns[i]? = some entry.expr := by
      rw [← hexprs, List.getElem?_map, hentry]
      rfl
    have hread := hreads i _ hcolumn
    rw [hquery]
    cases lays with
    | leaf leaf => cases leaf
    | @join _ _ _ _ _ _ _ _ units u _ _ _ _ lays stands fills =>
      rcases hread.join_cases ha hr hright lays.relations stands.relation_eq with
        ⟨hlt, hleft⟩ | ⟨hge, hshown⟩
      · obtain ⟨v, hv, j, hj⟩ := hleft.exists_unit
        have hunit : v.relation ∈ left.joinUnits := by
          rw [← lays.relations]
          exact List.mem_map_of_mem hv
        exact ⟨fun _ => refersTo_of_column? hnodup (List.mem_append_left _ hv) hj hunit,
          fun hge => absurd hlt (Nat.not_lt.2 hge)⟩
      · exact ⟨fun hlt => absurd hlt (Nat.not_lt.2 hge), fun _ => refersTo_of_column? hnodup
          (List.mem_append_right _ (List.mem_singleton_self u)) hshown stands.relation_eq⟩

/-! ## Sides that are mixed -/

/-- No join of a chain that is kept apart is a unit of it. -/
theorem not_mem_joinUnits_of_apart (ha : a.Sound) (hr : r ∈ a.relations) (hapart : r.Apart)
    (hs : s ∈ r.joinChain) : s ∉ r.joinUnits := by
  induction r using chainInduction with
  | leaf r hleaf =>
    rw [hleaf] at hs
    cases hs
  | join id kind left right condition ihl ihr =>
    obtain ⟨hleft, -, hright⟩ := hapart
    rcases List.mem_cons.1 hs with rfl | hs
    · intro hmem
      exact Nat.lt_irrefl id (ha.joinUnits_id_lt hr hmem)
    · intro hmem
      rcases List.mem_append.1 hmem with hmem | hmem
      · exact ihl (ha.join_left hr).1 hleft hs hmem
      · rw [List.mem_singleton.1 hmem] at hs
        exact hright hs

theorem width_le_of_mem_joinChain (hs : s ∈ r.joinChain) : s.width ≤ r.width := by
  induction r using chainInduction with
  | leaf r hleaf =>
    rw [hleaf] at hs
    cases hs
  | join id kind left right condition ihl ihr =>
    rcases List.mem_cons.1 hs with rfl | hs
    · exact Nat.le_refl _
    · exact Nat.le_trans (ihl hs) (width_left_le ..)

/-- A column that is remembered of the top of a chain is remembered of each of its joins, as long
as none on the way is a unit. -/
theorem memo_of_mem_joinChain (ha : a.Sound) (hfaithful : Faithful chain units memo)
    (hspine : ∀ s ∈ chain ++ units.map (·.relation), s ∈ a.relations) (hr : r ∈ a.relations)
    (hs : s ∈ r.joinChain) (hunits : ∀ t ∈ r.joinChain, t ≠ s → t ∉ units.map (·.relation))
    (hi : i < s.width) (hnoted : memo (r.id, i) = some e) : memo (s.id, i) = some e := by
  induction r using chainInduction with
  | leaf r hleaf =>
    rw [hleaf] at hs
    cases hs
  | join id kind left right condition ihl ihr =>
    rcases List.mem_cons.1 hs with rfl | hs
    · exact hnoted
    · obtain ⟨hl, hlt⟩ := ha.join_left hr
      have hne : Relation.join id kind left right condition ≠ s := by
        rintro rfl
        have hle := (ha.mem_of_mem_spine hl (List.mem_append_left _ hs)).2
        exact absurd hle (Nat.not_le.2 hlt)
      cases hfaithful.justified ha hspine hr hnoted with
      | unit mem stands shows =>
        refine absurd ?_ (hunits _ (List.mem_cons_self ..) hne)
        rw [← stands]
        exact List.mem_map_of_mem mem
      | left mem lt noted =>
        exact ihl hl hs (fun t ht => hunits t (List.mem_cons_of_mem _ ht)) noted
      | right mem ge noted =>
        exact absurd (Nat.lt_of_lt_of_le hi (width_le_of_mem_joinChain hs)) (Nat.not_lt.2 ge)

/-- The columns of a right operand that is a join of the left chain stand on both sides, and are
written in one way. -/
theorem Compiles.getElem?_of_mem_joinChain {n n' : Numbering} {q : Query}
    {columns : List SqlExpr} (ha : a.Sound)
    (hr : Relation.join id kind left right condition ∈ a.relations) (hid : left.id ≠ right.id)
    (hapart : left.Apart) (hright : right ∈ left.joinChain) (hi : i < right.width)
    (h : Compiles root (.join id kind left right condition) n q columns n') :
    columns[i]? = columns[left.width + i]? := by
  obtain ⟨hl, hllt⟩ := ha.join_left hr
  have hle := width_le_of_mem_joinChain hright
  have hlength := h.length
  rw [width_join hid] at hlength
  cases h with
  | @join _ _ _ _ _ _ _ _ source units memo columns lays faithful width noted =>
    have hspine : ∀ s ∈ (Relation.join id kind left right condition).joinChain ++
        units.map (·.relation), s ∈ a.relations := fun s hs => lays.mem_spine ha hr hs
    have hself : Relation.join id kind left right condition ∉ units.map (·.relation) := by
      rw [lays.relations]
      intro hmem
      exact Nat.lt_irrefl id (ha.joinUnits_id_lt hr hmem)
    have hchain : ∀ t ∈ left.joinChain, t ≠ right → t ∉ units.map (·.relation) := by
      rw [lays.relations]
      intro t ht hne hmem
      rcases List.mem_append.1 hmem with hmem | hmem
      · exact not_mem_joinUnits_of_apart ha hl hapart ht hmem
      · exact hne (List.mem_singleton.1 hmem)
    have hfirst : columns[i]? = some columns[i] := List.getElem?_eq_getElem (by omega)
    have hsecond : columns[left.width + i]? = some columns[left.width + i] :=
      List.getElem?_eq_getElem (by omega)
    have hmemo : memo (right.id, i) = some columns[i] := by
      cases faithful.justified ha hspine hr (noted _ _ hfirst) with
      | unit mem stands shows =>
        exact absurd (stands ▸ List.mem_map_of_mem mem) hself
      | left mem lt noted =>
        exact memo_of_mem_joinChain ha faithful hspine hl hright hchain hi noted
      | right mem ge noted => omega
    have hmemo' : memo (right.id, i) = some columns[left.width + i] := by
      cases faithful.justified ha hspine hr (noted _ _ hsecond) with
      | unit mem stands shows =>
        exact absurd (stands ▸ List.mem_map_of_mem mem) hself
      | left mem lt noted => omega
      | right mem ge noted => rwa [Nat.add_sub_cancel_left] at noted
    rw [hfirst, hsecond, ← hmemo, ← hmemo']

theorem not_sidesApart_of_mem (ha : a.Sound)
    (hr : Relation.join id kind left right condition ∈ a.relations) (hapart : left.Apart)
    (hwidth : 0 < right.width) (hright : right ∈ left.joinChain) :
    ¬ SidesApart left right (.join id kind left right condition) := by
  rintro ⟨hcolumns, -, c, list, hcompile, hentries, hlength, hsides⟩
  -- a relation joined to itself shows its columns once
  have hid : left.id ≠ right.id := by
    intro hid
    rw [Relation.columns, joined, if_pos hid] at hcolumns
    have hlengths := congrArg List.length hcolumns
    simp only [length_passThrough, List.length_append] at hlengths
    unfold width at hwidth
    omega
  obtain ⟨c', columns, k, hcompile', hrules⟩ := exists_compiles ha hr
  obtain rfl : c' = c := by
    rw [hcompile'] at hcompile
    exact Except.ok.inj hcompile
  have hsame := hrules.getElem?_of_mem_joinChain ha hr hid hapart hright hwidth
  obtain ⟨source, units, lays, hquery, hreads⟩ := hrules.join_cases ha hr
  have hexprs : list.map (·.expr) = columns := by
    rw [hquery] at hentries
    rw [← Option.some.inj hentries]
    exact map_expr_qualifiedEntries hrules.length
  have hle := width_le_of_mem_joinChain hright
  rw [width_join hid] at hlength
  have hzero := List.getElem?_eq_getElem (l := list) (i := 0) (by omega)
  have hwide := List.getElem?_eq_getElem (l := list) (i := left.width) (by omega)
  obtain ⟨e, he, ⟨u, hu, hqualifier⟩, hleft⟩ := (hsides _ _ hzero).1 (by omega)
  obtain ⟨e', he', -, hright'⟩ := (hsides _ _ hwide).2 (Nat.le_refl _)
  have heq : e = e' := by
    rw [Nat.add_zero, ← hexprs, List.getElem?_map, List.getElem?_map, hzero, hwide,
      Option.map_some, Option.map_some, he, he'] at hsame
    exact SqlExpr.column.inj (Option.some.inj hsame)
  have hunit := hleft u hu hqualifier
  rw [hright' u hu (hqualifier.trans (by rw [heq]))] at hunit
  exact ha.join_new hr right hunit rfl

/-! ## Operands that are rejected -/

theorem Predicate.equality_ne_rejected (p : Predicate) {description : String} :
    p.equality ≠ .error (.repeatedJoinOperand description) := by
  intro h
  unfold Predicate.equality at h
  split at h <;> cases h

/-- A join is rejected for a repeated operand only if the right operand is a unit of the left. -/
theorem exists_unit_of_rejected {description : String}
    (h : (Algebra.join kind left right p).run a = .error (.repeatedJoinOperand description)) :
    ∃ unit ∈ left.joinUnits, unit.id = right.id := by
  by_cases hrepeated : left.joinUnits.any (·.id == right.id) = true
  · obtain ⟨unit, hmem, hid⟩ := List.any_eq_true.1 hrepeated
    exact ⟨unit, hmem, by simpa using hid⟩
  · exfalso
    rw [Algebra.join, if_neg hrepeated] at h
    rcases run_bind_error_iff.1 h with h | ⟨equality, t, -, h⟩
    · exact Predicate.equality_ne_rejected p (run_lift_error_iff.1 h)
    · rcases run_bind_error_iff.1 h with h | ⟨bound, t, -, h⟩
      · obtain ⟨name, hname⟩ := Expr.exists_of_bindNames_error (run_lift_error_iff.1 h)
        unfold Algebra.bindColumn at hname
        split at hname
        · cases hname
        · cases hname
      · exact Algebra.push_ne_error h

/-- A relation that is joined to itself is rejected for that, unless it is a join. -/
theorem join_self_rejected_iff (ha : a.Sound) (hr : r ∈ a.relations) (kind : JoinKind)
    (condition : Predicate) :
    (Algebra.join kind r r condition).run a = .error (.repeatedJoinOperand r.describe) ↔
      r.joinChain = [] := by
  constructor
  · intro herror
    cases r with
    | table t => rfl
    | selection id operand condition => rfl
    | projection id operand whole shown => rfl
    | join id kind' left right bound =>
      obtain ⟨unit, hmem, hid⟩ := exists_unit_of_rejected herror
      have hlt := ha.joinUnits_id_lt hr hmem
      rw [hid] at hlt
      exact absurd hlt (Nat.lt_irrefl id)
  · intro hleaf
    rw [Algebra.join, joinUnits_of_joinChain_nil hleaf, if_pos (by simp)]
    rfl

/-! ## The main statement -/

/-- The sides of a join are kept apart unless the right operand is a join of the left chain, and
then they are mixed.  In particular a relation can be joined to itself if it is a join. -/
theorem join_sides (ha : a.Reachable) (hleft : left ∈ a.relations) (hright : right ∈ a.relations)
    (kind : JoinKind) (condition : Predicate) :
    ((Algebra.join kind right right condition).run a =
        .error (.repeatedJoinOperand right.describe) ↔ right.joinChain = []) ∧
      ∀ joined a', (Algebra.join kind left right condition).run a = .ok (joined, a') →
        (right ∉ left.joinChain → SidesApart left right joined) ∧
          (left.Apart → 0 < right.width → right ∈ left.joinChain →
            ¬ SidesApart left right joined) := by
  refine ⟨join_self_rejected_iff ha.sound hright kind condition, fun joined a' hrun => ?_⟩
  obtain ⟨hbuilt, rfl⟩ := Algebra.built_of_join hleft hright hrun
  obtain ⟨-, equality, bound, -, -, rfl, -⟩ := Algebra.join_ok_iff.1 hrun
  have hgrown := hbuilt.grown ha.sound
  exact ⟨sidesApart_of_not_mem hgrown.sound hgrown.mem,
    fun hapart hwidth hmem => not_sidesApart_of_mem hgrown.sound hgrown.mem hapart hwidth hmem⟩

open RelationalAlgebra.Sample in
/-- A table beside a join is kept apart from it, and the join itself is not. -/
theorem join_sides_firstPosts :
    (∃ joined a', (Algebra.join .inner firstPosts (.table blogs)
        (.pairs [("posts__id", .column "id")])).run algebra = .ok (joined, a') ∧
      SidesApart firstPosts (.table blogs) joined) ∧
    ∃ joined a', (Algebra.join .inner firstPosts firstPosts
        (.pairs [("posts__id", .column "id")])).run algebra = .ok (joined, a') ∧
      ¬ SidesApart firstPosts firstPosts joined := by
  constructor
  · have hsides := (join_sides reachable (show firstPosts ∈ algebra.relations by decide)
      (show .table blogs ∈ algebra.relations by decide) .inner
      (.pairs [("posts__id", .column "id")])).2 _ _ rfl
    exact ⟨_, _, rfl, hsides.1 (by decide)⟩
  · have hsides := (join_sides reachable (show firstPosts ∈ algebra.relations by decide)
      (show firstPosts ∈ algebra.relations by decide) .inner
      (.pairs [("posts__id", .column "id")])).2 _ _ rfl
    exact ⟨_, _, rfl, hsides.2 ⟨trivial, trivial, by decide⟩ (by decide) (by decide)⟩

end

end RelationalAlgebra.Sql
