import RelationalAlgebra.Proofs.Congruence

/-!
# Twin columns

The columns of a relation are told apart by their places.  Whether they can be told apart by where
they come from is another question, since two relations that are built alike at different times are
two relations for a join: it shows the columns of both, and a column of the one has the same origin
as that column of the other.  Such columns are *twins*.

A selection shows the twins of its operand, and a join those of its operands.  A projection shows no
twins, since it shows what names find, and that has different origins (`Sound.distinct`).  So twins
come about in one way only (`Sound.origin_eq_iff_twins`): `ShowsTwins` says of a relation that it
shows, through selections and joins, a join of two relations that are built alike.

The main statement is `Reachable.columns_separate`: sameness separates the columns of a relation
exactly if it shows no twins.
-/

namespace RelationalAlgebra

open RelationalAlgebra.Relation

namespace Relation

/-! ## Twins -/

/-- Whether two columns, the first before the second, are the same column of the two sides of one
join. -/
def Twins : Relation → Nat → Nat → Prop
  | .table _, _, _ => False
  | .selection _ operand _, i, j => operand.Twins i j
  | .projection .., _, _ => False
  | .join _ _ left right _, i, j =>
    if j < left.width then left.Twins i j
    else if i < left.width then left.sameColumn i right (j - left.width) = true
    else right.Twins (i - left.width) (j - left.width)

/-- Whether the relation shows, through selections and joins, a join of two relations that are built
alike and have columns. -/
def ShowsTwins : Relation → Prop
  | .table _ => False
  | .selection _ operand _ => operand.ShowsTwins
  | .projection .. => False
  | .join _ _ left right _ =>
    left.ShowsTwins ∨ left.id ≠ right.id ∧
      (right.ShowsTwins ∨ left.equivalent right = true ∧ 0 < left.width)

variable {id i j : Nat} {kind : JoinKind} {operand left right : Relation} {condition : Expr Nat}

theorem twins_join_left (hj : j < left.width) :
    (Relation.join id kind left right condition).Twins i j ↔ left.Twins i j := by
  rw [Twins, if_pos hj]

theorem twins_join_across (hi : i < left.width) :
    (Relation.join id kind left right condition).Twins i (left.width + j) ↔
      left.sameColumn i right j = true := by
  rw [Twins, if_neg (by omega), if_pos hi, Nat.add_sub_cancel_left]

theorem twins_join_right :
    (Relation.join id kind left right condition).Twins (left.width + i) (left.width + j) ↔
      right.Twins i j := by
  rw [Twins, if_neg (by omega), if_neg (by omega), Nat.add_sub_cancel_left,
    Nat.add_sub_cancel_left]

/-! ## Origins -/

theorem origin_selection_inj :
    (Relation.selection id operand condition).origin i =
        (Relation.selection id operand condition).origin j ↔
      operand.origin i = operand.origin j := by
  show Origin.shown _ none (.column (operand.origin i)) =
    Origin.shown _ none (.column (operand.origin j)) ↔ _
  simp

theorem origin_join_inj :
    (Relation.join id kind left right condition).origin i =
        (Relation.join id kind left right condition).origin j ↔
      (Relation.join id kind left right condition).inputOrigin i =
        (Relation.join id kind left right condition).inputOrigin j := by
  simp [origin_join]

/-- The first column of a join is the first one of the left operand, if there is one. -/
theorem inputOrigin_join_zero :
    (Relation.join id kind left right condition).inputOrigin 0 =
      if 0 < left.width then left.origin 0 else right.origin 0 := by
  rw [inputOrigin, Nat.zero_sub]

end Relation

namespace Algebra

variable {a : Algebra} {r s operand left right : Relation} {id i j : Nat} {kind : JoinKind}
  {condition : Expr Nat} {whole : Option Table} {shown : List OutputColumn}

section

variable (ha : a.Sound)

include ha

/-- A join shows columns exactly if one of its operands does, also if it is joined to itself. -/
theorem Sound.width_join_pos (hr : Relation.join id kind left right condition ∈ a.relations) :
    0 < (Relation.join id kind left right condition).width ↔ 0 < left.width ∨ 0 < right.width := by
  by_cases hid : left.id = right.id
  · have hsame := ha.eq_of_id_eq (ha.join_left hr).1 (ha.join_right hr).1 hid
    rw [width_join_self hid, hsame, or_self]
  · rw [width_join hid]
    omega

/-- Relations of one form need not show the same columns, but they show the same first column. -/
theorem Sound.first_eq (hr : r ∈ a.relations) (hs : s ∈ a.relations) (h : r.form = s.form) :
    (0 < r.width ↔ 0 < s.width) ∧ (0 < r.width → r.origin 0 = s.origin 0) := by
  induction r generalizing s with
  | table t =>
    cases ha.parallel hr hs h with
    | table => exact ⟨Iff.rfl, fun _ => rfl⟩
  | selection id operand condition ih =>
    cases ha.parallel hr hs h with
    | @selection _ id' _ operand' _ condition' operands =>
      obtain ⟨hpos, hfirst⟩ := ih (ha.selection_operand hr).1 (ha.selection_operand hs).1 operands
      rw [width_selection, width_selection]
      refine ⟨hpos, fun hwidth => ?_⟩
      show Origin.shown _ none (.column (operand.origin 0)) =
        Origin.shown _ none (.column (operand'.origin 0))
      rw [hfirst hwidth]
      exact congrArg (Origin.shown · none _) h
  | projection id operand whole shown ih =>
    cases s with
    | projection id' operand' whole' shown' =>
      have hop := (ha.projection_operand hr).1
      have hop' := (ha.projection_operand hs).1
      have hnames := ha.sameNames hop hop' (ha.parallel hr hs h).operands
      have hshown := corresponds_of_form ha hr hs h hnames (ha.distinct hop) (ha.distinct hop')
      rw [width_projection, width_projection, hshown.length_eq]
      refine ⟨Iff.rfl, fun hwidth => ?_⟩
      have hfirst := map_origin_findIdx? (p := fun _ => true) (q := fun _ => true) h hshown
        fun _ _ _ => rfl
      cases hshown with
      | nil => exact absurd hwidth (Nat.lt_irrefl 0)
      | cons => exact Option.some.inj hfirst
    | _ => cases ha.parallel hr hs h
  | join id kind left right condition ihl ihr =>
    cases ha.parallel hr hs h with
    | @join _ id' _ _ left' _ right' _ condition' lefts rights =>
      obtain ⟨hposl, hfirstl⟩ := ihl (ha.join_left hr).1 (ha.join_left hs).1 lefts
      obtain ⟨hposr, hfirstr⟩ := ihr (ha.join_right hr).1 (ha.join_right hs).1 rights
      rw [ha.width_join_pos hr, ha.width_join_pos hs, hposl, hposr]
      refine ⟨Iff.rfl, fun hwidth => ?_⟩
      rw [origin_join, origin_join, h, inputOrigin_join_zero, inputOrigin_join_zero]
      by_cases hleft : 0 < left.width
      · rw [if_pos hleft, if_pos (hposl.1 hleft), hfirstl hleft]
      · have hright : 0 < right.width := hposr.2 (hwidth.resolve_left (mt hposl.2 hleft))
        rw [if_neg hleft, if_neg (mt hposl.2 hleft), hfirstr hright]

/-- Columns of one join have one origin exactly if they are twins, given that for its operands. -/
theorem Sound.join_origin_eq_iff_twins
    (hr : Relation.join id kind left right condition ∈ a.relations)
    (ihl : ∀ {i j}, i < j → j < left.width → (left.origin i = left.origin j ↔ left.Twins i j))
    (ihr : ∀ {i j}, i < j → j < right.width → (right.origin i = right.origin j ↔ right.Twins i j))
    (hij : i < j) (hj : j < (Relation.join id kind left right condition).width) :
    (Relation.join id kind left right condition).origin i =
        (Relation.join id kind left right condition).origin j ↔
      (Relation.join id kind left right condition).Twins i j := by
  rw [origin_join_inj]
  by_cases hjl : j < left.width
  · rw [inputOrigin_join_left (Nat.lt_trans hij hjl), inputOrigin_join_left hjl,
      twins_join_left hjl]
    exact ihl hij hjl
  · have hid : left.id ≠ right.id := fun hid => hjl (width_join_self hid ▸ hj)
    rw [width_join hid] at hj
    obtain ⟨k, rfl⟩ := Nat.exists_eq_add_of_le (Nat.not_lt.1 hjl)
    have hk : k < right.width := by omega
    by_cases hil : i < left.width
    · rw [inputOrigin_join_left hil, inputOrigin_join_right, twins_join_across hil]
      exact (ha.sameColumn_iff (ha.join_left hr).1 (ha.join_right hr).1 hil hk).symm
    · obtain ⟨l, rfl⟩ := Nat.exists_eq_add_of_le (Nat.not_lt.1 hil)
      rw [inputOrigin_join_right, inputOrigin_join_right, twins_join_right]
      exact ihr (by omega) hk

/-- Two columns of a relation have one origin exactly if they are twins. -/
theorem Sound.origin_eq_iff_twins (hr : r ∈ a.relations) (hij : i < j) (hj : j < r.width) :
    r.origin i = r.origin j ↔ r.Twins i j := by
  induction r generalizing i j with
  | table t =>
    rw [Twins, iff_false]
    intro h
    have hplaces := Origin.declared.inj (Expr.column.inj (Origin.shown.inj h).2.2)
    exact Nat.ne_of_lt hij hplaces.2
  | selection id operand condition ih =>
    rw [origin_selection_inj, Twins]
    rw [width_selection] at hj
    exact ih (ha.selection_operand hr).1 hij hj
  | projection id operand whole shown =>
    rw [Twins, iff_false]
    intro h
    have hdistinct := ha.distinct (ha.projection_operand hr).1
    have hplaces := projection_origin_inj ha hr hdistinct (Nat.lt_trans hij hj) hj h
    exact Nat.ne_of_lt hij hplaces
  | join id kind left right condition ihl ihr =>
    exact ha.join_origin_eq_iff_twins hr (ihl (ha.join_left hr).1) (ihr (ha.join_right hr).1) hij hj

/-! ## Where twins come from -/

/-- The columns of two relations are the same only if these are built alike. -/
theorem Sound.equivalent_of_sameColumn (hr : r ∈ a.relations) (hs : s ∈ a.relations)
    (hi : i < r.width) (hj : j < s.width) (h : r.sameColumn i s j = true) :
    r.equivalent s = true := by
  have horigin := (ha.sameColumn_iff hr hs hi hj).1 h
  have hform := eq_of_origin_eq (List.getElem?_eq_getElem hi) (List.getElem?_eq_getElem hj) horigin
  exact (ha.equivalent_iff hr hs).2 hform.1

/-- Of two relations that are built alike the first columns are the same. -/
theorem Sound.first_sameColumn (hr : r ∈ a.relations) (hs : s ∈ a.relations)
    (h : r.equivalent s = true) (hpos : 0 < r.width) :
    0 < s.width ∧ r.sameColumn 0 s 0 = true := by
  obtain ⟨hwidth, hfirst⟩ := ha.first_eq hr hs ((ha.equivalent_iff hr hs).1 h)
  exact ⟨hwidth.1 hpos, (ha.sameColumn_iff hr hs hpos (hwidth.1 hpos)).2 (hfirst hpos)⟩

/-- A relation with twins shows a join of relations that are built alike. -/
theorem Sound.showsTwins_of_twins (hr : r ∈ a.relations) (hij : i < j) (hj : j < r.width)
    (h : r.Twins i j) : r.ShowsTwins := by
  induction r generalizing i j with
  | table t => exact h
  | selection id operand condition ih =>
    rw [width_selection] at hj
    exact ih (ha.selection_operand hr).1 hij hj h
  | projection id operand whole shown => exact h
  | join id kind left right condition ihl ihr =>
    rw [ShowsTwins]
    by_cases hjl : j < left.width
    · exact .inl (ihl (ha.join_left hr).1 hij hjl ((twins_join_left hjl).1 h))
    · have hid : left.id ≠ right.id := fun hid => hjl (width_join_self hid ▸ hj)
      rw [width_join hid] at hj
      obtain ⟨k, rfl⟩ := Nat.exists_eq_add_of_le (Nat.not_lt.1 hjl)
      have hk : k < right.width := by omega
      by_cases hil : i < left.width
      · have hsame := (twins_join_across hil).1 h
        have halike := ha.equivalent_of_sameColumn (ha.join_left hr).1 (ha.join_right hr).1 hil hk
          hsame
        exact .inr ⟨hid, .inr ⟨halike, by omega⟩⟩
      · obtain ⟨l, rfl⟩ := Nat.exists_eq_add_of_le (Nat.not_lt.1 hil)
        exact .inr ⟨hid, .inl (ihr (ha.join_right hr).1 (by omega) hk (twins_join_right.1 h))⟩

/-- A join of relations that are built alike has twins, and they are shown as far as selections and
joins show it. -/
theorem Sound.exists_twins (hr : r ∈ a.relations) (h : r.ShowsTwins) :
    ∃ i j, i < j ∧ j < r.width ∧ r.Twins i j := by
  induction r with
  | table t => cases h
  | selection id operand condition ih =>
    rw [width_selection]
    exact ih (ha.selection_operand hr).1 h
  | projection id operand whole shown => cases h
  | join id kind left right condition ihl ihr =>
    rcases h with hleft | ⟨hid, hright | ⟨halike, hpos⟩⟩
    · obtain ⟨i, j, hij, hj, htwins⟩ := ihl (ha.join_left hr).1 hleft
      refine ⟨i, j, hij, Nat.lt_of_lt_of_le hj (width_left_le ..), ?_⟩
      exact (twins_join_left hj).2 htwins
    · obtain ⟨i, j, hij, hj, htwins⟩ := ihr (ha.join_right hr).1 hright
      refine ⟨left.width + i, left.width + j, by omega, ?_, twins_join_right.2 htwins⟩
      rw [width_join hid]
      omega
    · obtain ⟨hpos', hsame⟩ := ha.first_sameColumn (ha.join_left hr).1 (ha.join_right hr).1 halike
        hpos
      refine ⟨0, left.width + 0, by omega, ?_, (twins_join_across hpos).2 hsame⟩
      rw [width_join hid]
      omega

end

/-! ## The main statement -/

/-- In a relation that a session built, sameness separates the columns from each other, unless the
relation shows, through selections and joins, a join of two relations that are built alike.  Two
different columns are the same if and only if they are twins. -/
theorem Reachable.columns_separate (ha : a.Reachable) (hr : r ∈ a.relations) :
    ((∀ i < r.width, ∀ j < r.width,
        (Expr.same (.column (.shown ⟨r, i⟩)) (.column (.shown ⟨r, j⟩)) = true ↔ i = j)) ↔
      ¬ r.ShowsTwins) ∧
    ∀ i j, i < j → j < r.width →
      (Expr.same (.column (.shown ⟨r, i⟩)) (.column (.shown ⟨r, j⟩)) = true ↔ r.Twins i j) := by
  have hsound := ha.sound
  have horigin : ∀ i < r.width, ∀ j < r.width,
      (Expr.same (.column (.shown ⟨r, i⟩)) (.column (.shown ⟨r, j⟩)) = true ↔
        r.origin i = r.origin j) :=
    fun i hi j hj => hsound.sameColumn_iff hr hr hi hj
  refine ⟨⟨fun hseparate hshows => ?_, fun hnone i hi j hj => ?_⟩, fun i j hij hj => ?_⟩
  · obtain ⟨i, j, hij, hj, htwins⟩ := hsound.exists_twins hr hshows
    have hi := Nat.lt_trans hij hj
    have hsame := (horigin i hi j hj).2 ((hsound.origin_eq_iff_twins hr hij hj).2 htwins)
    exact Nat.ne_of_lt hij ((hseparate i hi j hj).1 hsame)
  · rw [horigin i hi j hj]
    refine ⟨fun h => ?_, fun h => h ▸ rfl⟩
    rcases Nat.lt_trichotomy i j with hij | heq | hji
    · have htwins := (hsound.origin_eq_iff_twins hr hij hj).1 h
      exact absurd (hsound.showsTwins_of_twins hr hij hj htwins) hnone
    · exact heq
    · have htwins := (hsound.origin_eq_iff_twins hr hji hi).1 h.symm
      exact absurd (hsound.showsTwins_of_twins hr hji hi htwins) hnone
  · rw [horigin i (Nat.lt_trans hij hj) j hj]
    exact hsound.origin_eq_iff_twins hr hij hj

end Algebra

/-! ## A relation beside one that is built alike -/

namespace Sample

/-- The first blog, beside the same blog selected once more. -/
def firstTwice : Relation := .join 6 .inner first again (.equal (.column 0) (.column 0))

/-- The session after that. -/
def mirrored : Algebra := ⟨twice.relations ++ [firstTwice]⟩

theorem reachable_mirrored : mirrored.Reachable := by
  refine .step (a := twice)
    (.join .inner first again (.pairs [("blogs__id", .column "blogs__id")])) reachable_twice ?_
  decide

/-- The blog with its posts shows no twins, and the blog beside itself nothing else. -/
theorem columns_separate_mirrored :
    ¬ firstPosts.ShowsTwins ∧
    (∀ i < firstPosts.width, ∀ j < firstPosts.width,
      (Expr.same (.column (.shown ⟨firstPosts, i⟩)) (.column (.shown ⟨firstPosts, j⟩)) = true ↔
        i = j)) ∧
    firstTwice.ShowsTwins ∧ firstTwice.Twins 0 1 := by
  have hfirst := Algebra.Reachable.columns_separate reachable_mirrored
    (show firstPosts ∈ mirrored.relations by decide)
  have hbeside := Algebra.Reachable.columns_separate reachable_mirrored
    (show firstTwice ∈ mirrored.relations by decide)
  have hnone : ¬ firstPosts.ShowsTwins := by
    rintro (h | ⟨-, h | ⟨h, -⟩⟩)
    · exact h
    · exact h
    · revert h
      decide
  have htwins : firstTwice.Twins 0 1 :=
    (hbeside.2 0 1 Nat.zero_lt_one (by decide)).1 (by decide)
  refine ⟨hnone, hfirst.1.2 hnone, ?_, htwins⟩
  by_contra hshows
  have hsame := (hbeside.1.2 hshows 0 (by decide) 1 (by decide)).1 (by decide)
  cases hsame

/-- Sameness does not separate the two columns of the blog beside itself. -/
theorem columns_same_beside :
    mirrored.Reachable ∧ firstTwice ∈ mirrored.relations ∧
    ¬ ∀ i < firstTwice.width, ∀ j < firstTwice.width, i ≠ j →
      Expr.same (.column (.shown ⟨firstTwice, i⟩)) (.column (.shown ⟨firstTwice, j⟩)) = false := by
  refine ⟨reachable_mirrored, by decide, fun hseparate => ?_⟩
  have hsame := hseparate 0 (by decide) 1 (by decide) Nat.zero_ne_one
  revert hsame
  decide

end Sample

end RelationalAlgebra
