import RelationalAlgebra.Proofs.Decoding
import RelationalAlgebra.Proofs.Equivalence

/-!
# Writing again what was read

A relation that was read from any wire form is written again, in a form of its own: instants in
universal time, columns under the names of the declared columns they read.  `ofWire_stable_iff`
says when this form is a fixed point, that is when it is read as an equivalent relation that is
written in the same way.  It is if the relation is `Restorable`:

* every instant in its conditions is of a year with four digits.  An instant that is read with an
  offset may be of another year in universal time, and is then written with a sign in front of the
  year, which is not read (`scalar_fourDigitYear`);
* the qualified name of every declared column that its conditions read comes apart as it was put
  together.  A column whose name is written otherwise is not found under it
  (`separated_of_read`).

There is no other obstacle: the nesting, the aliases and the joins of what was read are as a wire
form can say (`Relation.Decoded`).  Where the names of all declared columns come apart, only the
instants matter (`restorable_iff`).
-/

namespace RelationalAlgebra

open QualifiedName RelationalAlgebra.Relation RelationalAlgebra.Algebra

namespace Relation

variable {a b b' : Algebra} {r r' : Relation} {operands operands' : List Relation}
  {e e' : Expr Nat} {spelled : Expr String} {building : String} {w : Json} {depth : Nat}

/-- Instants are of years with four digits, and declared columns have names that come apart. -/
structure Restorable (r : Relation) : Prop where
  years : r.Conditions (Expr.Literals Value.FourDigitYear)
  columns : r.EachCondition fun operands condition => condition.All (Separated operands)

/-- Where the names of all declared columns come apart, only the instants matter. -/
theorem restorable_iff (ha : a.Sound) (hnames : a.Separable) (hr : r ∈ a.relations) :
    r.Restorable ↔ r.Conditions (Expr.Literals Value.FourDigitYear) := by
  refine ⟨Restorable.years, fun hyears => ⟨hyears, ?_⟩⟩
  clear hyears
  induction r with
  | table t => trivial
  | selection id operand condition ih =>
    have hop := (ha.selection_operand hr).1
    refine ⟨ih hop, (ha.selection_condition hr).mono fun i _ t c hdeclared => ?_⟩
    exact split_declared ha hnames hop (declared?_of_declaredIn?_one hdeclared)
  | projection id operand whole shown ih => exact ih (ha.projection_operand hr).1
  | join id kind left right condition ihl ihr =>
    refine ⟨ihl (ha.join_left hr).1, ihr (ha.join_right hr).1,
      (ha.join_condition hr).mono fun i _ t c hdeclared => ?_⟩
    exact split_declared ha hnames hr (declared?_of_declaredIn?_two hdeclared)

/-! ## What can be read again -/

/-- The columns of every condition are found by the names they are written under. -/
theorem Decoded.found (h : r.Decoded) (ha : a.Sound) (hr : r ∈ a.relations)
    (hcolumns : r.EachCondition fun operands condition => condition.All (Separated operands)) :
    r.EachCondition fun operands condition => condition.All (Found operands) := by
  induction r with
  | table t => trivial
  | selection id operand condition ih =>
    have hop := (ha.selection_operand hr).1
    have hops := List.forall_mem_singleton.2 hop
    exact ⟨ih h.1 hop hcolumns.1,
      h.2.all_of hcolumns.2 fun i hq hs => (found_iff_separated ha hops hq).2 hs⟩
  | projection id operand whole shown ih => exact ih h.1 (ha.projection_operand hr).1 hcolumns
  | join id kind left right condition ihl ihr =>
    have hleft := (ha.join_left hr).1
    have hright := (ha.join_right hr).1
    have hops := List.forall_mem_cons.2 ⟨hleft, List.forall_mem_singleton.2 hright⟩
    exact ⟨ihl h.1 hleft hcolumns.1, ihr h.2.1 hright hcolumns.2.1,
      h.2.2.2.all_of hcolumns.2.2 fun i hq hs => (found_iff_separated ha hops hq).2 hs⟩

/-! ## What was read again -/

/-- Of the literals that are read back, the instants are of years with four digits. -/
theorem scalar_fourDigitYear {value value' : Value} (h : Wire.scalar value.toWire = .ok value') :
    value.FourDigitYear := by
  cases value with
  | timestamp t =>
    obtain ⟨text, htext, h⟩ := bind_ok_iff.1 h
    obtain rfl : t.toText = text := Except.ok.inj htext
    split at h
    · next t' hread => exact Instant.fourDigits_of_read hread
    · cases h
  | _ => trivial

/-- A column that is read back and written in the same way has a name that comes apart. -/
theorem separated_of_read {i i' : Nat} {t c : String} (hb : b.Sound)
    (hops' : ∀ s ∈ operands', s ∈ b.relations) (hdeclared : declaredIn? operands i = some (t, c))
    (hfind : findIn? operands' (qualify t c) = some i')
    (hwrite : columnToWire operands' i' = .ok
      (.ofFields [("type", .string "column"), ("table", .string t), ("name", .string c)])) :
    Separated operands i := by
  obtain ⟨t', c', hdeclared', heq⟩ := columnToWire_ok hwrite
  obtain rfl : t = t' := Json.string.inj (Option.some.inj (congrArg (Json.get? "table") heq))
  obtain rfl : c = c' := Json.string.inj (Option.some.inj (congrArg (Json.get? "name") heq))
  have hsplit := split_of_found hb hops' hdeclared' hfind
  intro t' c' h
  rw [hdeclared] at h
  cases h
  exact hsplit

/-- A condition that is read back and written in the same way. -/
theorem expr_of_read (hb : b.Sound) (hops' : ∀ s ∈ operands', s ∈ b.relations)
    (hwrite : exprToWire operands e = .ok w) (hread : Wire.exprWithin depth w = .ok spelled)
    (hbind : Algebra.bind operands' building spelled = .ok e')
    (hwrite' : exprToWire operands' e' = .ok w) :
    e.Literals Value.FourDigitYear ∧ e.All (Separated operands) := by
  induction e generalizing w depth spelled e' with
  | column i =>
    obtain ⟨t, c, hdeclared, rfl⟩ := columnToWire_ok hwrite
    cases depth with
    | zero => cases hread
    | succ depth =>
      obtain rfl : .column (qualify t c) = spelled := Except.ok.inj hread
      obtain ⟨i', hi', rfl⟩ := map_ok_iff.1 hbind
      exact ⟨trivial,
        separated_of_read hb hops' hdeclared (Algebra.bindColumn_ok_iff.1 hi') hwrite'⟩
  | literal value =>
    cases hwrite
    cases depth with
    | zero => cases hread
    | succ depth =>
      rw [Wire.exprWithin_literal] at hread
      obtain ⟨value', hvalue, -⟩ := bind_ok_iff.1 hread
      exact ⟨scalar_fourDigitYear hvalue, trivial⟩
  | aliased expr label ih => exact ih hwrite hread hbind hwrite'
  | equal left right ihl ihr =>
    obtain ⟨l, hl, hwrite⟩ := bind_ok_iff.1 hwrite
    obtain ⟨r, hr, hwrite⟩ := bind_ok_iff.1 hwrite
    cases hwrite
    cases depth with
    | zero => cases hread
    | succ depth =>
      rw [Wire.exprWithin_equal] at hread
      obtain ⟨x, hx, hread⟩ := bind_ok_iff.1 hread
      obtain ⟨y, hy, hread⟩ := bind_ok_iff.1 hread
      cases hread
      obtain ⟨x', hx', hbind⟩ := bind_ok_iff.1 hbind
      obtain ⟨y', hy', hbind⟩ := bind_ok_iff.1 hbind
      cases hbind
      obtain ⟨l', hl', hwrite'⟩ := bind_ok_iff.1 hwrite'
      obtain ⟨r', hr', hwrite'⟩ := bind_ok_iff.1 hwrite'
      have heq := Except.ok.inj hwrite'
      obtain rfl : l' = l := Option.some.inj (congrArg (Json.get? "left_operand") heq)
      obtain rfl : r' = r := Option.some.inj (congrArg (Json.get? "right_operand") heq)
      have hleft := ihl hl hx hx' hl'
      have hright := ihr hr hy hy' hr'
      exact ⟨⟨hleft.1, hright.1⟩, hleft.2, hright.2⟩
  | aggregate function argument ih => cases hwrite

/-- A selection that is read back and written in the same way: so is its operand, and its
condition. -/
theorem selection_of_read {wire predicate : Json}
    (hread : (ofWireWithin depth (.ofFields [("type", .string "selection"), ("operand", wire),
      ("predicate", predicate)])).run b = .ok (r', b'))
    (hwrite' : r'.toWire = .ok (.ofFields [("type", .string "selection"), ("operand", wire),
      ("predicate", predicate)])) :
    ∃ depth' operand' c spelled building bound,
      (ofWireWithin depth' wire).run b = .ok (operand', c) ∧ operand'.toWire = .ok wire ∧
      Wire.expr predicate = .ok spelled ∧ Algebra.bind [operand'] building spelled = .ok bound ∧
      exprToWire [operand'] bound = .ok predicate := by
  cases depth with
  | zero => exact (run_throw_ok_iff.1 hread).elim
  | succ depth =>
    simp only [ofWireWithin_selection, run_bind_ok_iff, run_lift_ok_iff] at hread
    obtain ⟨operand', c, hread, spelled, _, ⟨hspelled, rfl⟩, hselect⟩ := hread
    obtain ⟨equality, bound, hequality, hbound, rfl, -⟩ := select_ok_iff.1 hselect
    obtain rfl := eq_of_equality hequality
    obtain ⟨wire', hoperand', hwrite'⟩ := bind_ok_iff.1 hwrite'
    obtain ⟨predicate', hcondition', hwrite'⟩ := bind_ok_iff.1 hwrite'
    have heq := Except.ok.inj hwrite'
    obtain rfl : wire' = wire := Option.some.inj (congrArg (Json.get? "operand") heq)
    obtain rfl : predicate' = predicate := Option.some.inj (congrArg (Json.get? "predicate") heq)
    exact ⟨depth, operand', _, spelled, _, bound, hread, hoperand', hspelled, hbound, hcondition'⟩

/-- A projection of a whole table that is read back and written in the same way: so is its
operand. -/
theorem whole_of_read {wire : Json} {name : String}
    (hread : (ofWireWithin depth (.ofFields [("type", .string "table_projection"),
      ("operand", wire), ("projected_table", .string name)])).run b = .ok (r', b'))
    (hwrite' : r'.toWire = .ok (.ofFields [("type", .string "table_projection"),
      ("operand", wire), ("projected_table", .string name)])) :
    ∃ depth' operand' c, (ofWireWithin depth' wire).run b = .ok (operand', c) ∧
      operand'.toWire = .ok wire := by
  cases depth with
  | zero => exact (run_throw_ok_iff.1 hread).elim
  | succ depth =>
    simp only [ofWireWithin_whole, run_bind_ok_iff] at hread
    obtain ⟨operand', c, hread, u, _, -, hproject⟩ := hread
    obtain ⟨-, shown, rfl, -, -⟩ := project_ok_iff.1 hproject
    obtain ⟨-, t, hwhole⟩ := Sendable.projection ⟨_, hwrite'⟩
    rw [hwhole] at hwrite'
    obtain ⟨wire', hoperand', hwrite'⟩ := bind_ok_iff.1 hwrite'
    have heq := Except.ok.inj hwrite'
    obtain rfl : wire' = wire := Option.some.inj (congrArg (Json.get? "operand") heq)
    exact ⟨depth, operand', c, hread, hoperand'⟩

/-- A join that is read back and written in the same way: so are its operands, and its
condition. -/
theorem join_of_read {kind : JoinKind} {leftWire rightWire predicate : Json}
    (hread : (ofWireWithin depth (.ofFields [("type", .string kind.wireName),
      ("left_operand", leftWire), ("right_operand", rightWire),
      ("predicate", predicate)])).run b = .ok (r', b'))
    (hwrite' : r'.toWire = .ok (.ofFields [("type", .string kind.wireName),
      ("left_operand", leftWire), ("right_operand", rightWire), ("predicate", predicate)])) :
    ∃ depth' left' c right' d spelled building bound,
      (ofWireWithin depth' leftWire).run b = .ok (left', c) ∧ left'.toWire = .ok leftWire ∧
      (ofWireWithin depth' rightWire).run c = .ok (right', d) ∧ right'.toWire = .ok rightWire ∧
      Wire.expr predicate = .ok spelled ∧
      Algebra.bind [left', right'] building spelled = .ok bound ∧
      exprToWire [left', right'] bound = .ok predicate := by
  cases depth with
  | zero => exact (run_throw_ok_iff.1 hread).elim
  | succ depth =>
    simp only [ofWireWithin_join, run_bind_ok_iff, run_lift_ok_iff] at hread
    obtain ⟨left', c, hleft, right', d, hright, spelled, _, ⟨hspelled, rfl⟩, hjoin⟩ := hread
    obtain ⟨-, equality, bound, hequality, hbound, rfl, -⟩ := join_ok_iff.1 hjoin
    obtain rfl := eq_of_equality hequality
    obtain ⟨leftWire', hleft', hwrite'⟩ := bind_ok_iff.1 hwrite'
    obtain ⟨rightWire', hright', hwrite'⟩ := bind_ok_iff.1 hwrite'
    obtain ⟨predicate', hcondition', hwrite'⟩ := bind_ok_iff.1 hwrite'
    have heq := Except.ok.inj hwrite'
    obtain rfl : leftWire' = leftWire :=
      Option.some.inj (congrArg (Json.get? "left_operand") heq)
    obtain rfl : rightWire' = rightWire :=
      Option.some.inj (congrArg (Json.get? "right_operand") heq)
    obtain rfl : predicate' = predicate := Option.some.inj (congrArg (Json.get? "predicate") heq)
    exact ⟨depth, left', c, right', _, spelled, _, bound, hleft, hleft', hright, hright',
      hspelled, hbound, hcondition'⟩

/-- If what is written of a relation is read back as a relation that is written in the same way,
then the relation is restorable. -/
theorem restorable_of_read (hb : b.Sound) (hwrite : r.toWire = .ok w)
    (hread : (ofWireWithin depth w).run b = .ok (r', b')) (hwrite' : r'.toWire = .ok w) :
    r.Restorable := by
  induction r generalizing w depth b r' b' with
  | table t => exact ⟨trivial, trivial⟩
  | selection id operand condition ih =>
    obtain ⟨wire, hoperand, hwrite⟩ := bind_ok_iff.1 hwrite
    obtain ⟨predicate, hcondition, hwrite⟩ := bind_ok_iff.1 hwrite
    cases hwrite
    obtain ⟨_, operand', c, spelled, _, bound, hread, hoperand', hspelled, hbound, hcondition'⟩ :=
      selection_of_read hread hwrite'
    have hop := ih hb hoperand hread hoperand'
    have hgrown := grown_of_ofWireWithin hb hread
    have hexpr := expr_of_read hgrown.sound (List.forall_mem_singleton.2 hgrown.mem) hcondition
      hspelled hbound hcondition'
    exact ⟨⟨hop.years, hexpr.1⟩, hop.columns, hexpr.2⟩
  | projection id operand whole shown ih =>
    cases whole with
    | none => cases hwrite
    | some t =>
      obtain ⟨wire, hoperand, hwrite⟩ := bind_ok_iff.1 hwrite
      cases hwrite
      obtain ⟨_, operand', c, hread, hoperand'⟩ := whole_of_read hread hwrite'
      have hop := ih hb hoperand hread hoperand'
      exact ⟨hop.years, hop.columns⟩
  | join id kind left right condition ihl ihr =>
    obtain ⟨leftWire, hleft, hwrite⟩ := bind_ok_iff.1 hwrite
    obtain ⟨rightWire, hright, hwrite⟩ := bind_ok_iff.1 hwrite
    obtain ⟨predicate, hcondition, hwrite⟩ := bind_ok_iff.1 hwrite
    cases hwrite
    obtain ⟨_, left', c, right', d, spelled, _, bound, hreadl, hleft', hreadr, hright', hspelled,
      hbound, hcondition'⟩ := join_of_read hread hwrite'
    have hl := grown_of_ofWireWithin hb hreadl
    have hr := grown_of_ofWireWithin hl.sound hreadr
    have hopl := ihl hb hleft hreadl hleft'
    have hopr := ihr hl.sound hright hreadr hright'
    have hops := List.forall_mem_cons.2 ⟨hr.mono hl.mem, List.forall_mem_singleton.2 hr.mem⟩
    have hexpr := expr_of_read hr.sound hops hcondition hspelled hbound hcondition'
    exact ⟨⟨hopl.years, hopr.years, hexpr.1⟩, hopl.columns, hopr.columns, hexpr.2⟩

end Relation

/-! ## Two instants -/

namespace Offset

/-- A table of posts with their dates. -/
def posts : Table := ⟨0, "posts", [⟨"id", .integer⟩, ⟨"published_at", .datetime⟩]⟩

/-- The table alone. -/
def algebra : Algebra := ⟨[.table posts]⟩

theorem reachable : algebra.Reachable := by
  refine .step (.createTable "posts" [("id", .integer), ("published_at", .datetime)]) .empty ?_
  decide

/-- The first half hour of a year. -/
def newYear (year : Int) : Instant where
  date := ⟨year, 1, 1, by simp [daysInMonth]⟩
  hour := 0
  minute := 30
  second := 0
  nanosecond := 0
  hour_lt := by decide
  minute_lt := by decide
  second_le := by decide
  nanosecond_lt := by decide

/-- The posts of the first half hour of a year. -/
def published (year : Int) : Relation :=
  .selection 1 (.table posts) (.equal (.column 1) (.literal (.timestamp (newYear year))))

/-- The wire form of the posts of a time. -/
def wire (time : String) : Json :=
  .ofFields [("type", .string "selection"),
    ("operand", .ofFields [("type", .string "table"), ("name", .string "posts")]),
    ("predicate", .ofFields [("type", .string "eq"),
      ("left_operand", .ofFields
        [("type", .string "column"), ("table", .string "posts"), ("name", .string "published_at")]),
      ("right_operand", .ofFields
        [("type", .string "scalar"), ("kind", .string "timestamp"), ("value", .string time)])])]

/-- A time of the last day of a year, an hour behind. -/
theorem read_wire :
    (Algebra.ofWire (wire "2023-12-31T23:30:00-01:00")).run algebra =
        .ok (published 2024, algebra.add (published 2024)) ∧
      (Algebra.ofWire (wire "9999-12-31T23:30:00-01:00")).run algebra =
        .ok (published 10000, algebra.add (published 10000)) := by
  decide +kernel

end Offset

/-! ## What is stable -/

namespace Algebra

variable {a b : Algebra} {r : Relation} {j : Json}

/-- What was read is written again.  The form it is written in is read as an equivalent relation
that is written in the same way if and only if its instants are of years with four digits and the
names of its columns come apart. -/
theorem ofWire_stable_iff (h : a.Reachable) (hread : (ofWire j).run a = .ok (r, b)) :
    ∃ w, r.toWire = .ok w ∧
      ((∃ r' b', (ofWire w).run b = .ok (r', b') ∧ r.equivalent r' = true ∧ r'.toWire = .ok w) ↔
        r.Restorable) := by
  have hdecodes := decodes_of_ofWireWithin hread
  have hdecoded := hdecodes.decoded h.sound
  obtain ⟨hb, -, hr⟩ := hdecodes.grown h.sound
  obtain ⟨w, hwrite⟩ := hdecoded.sendable hb hr
  refine ⟨w, hwrite, ?_, fun hrestorable => ?_⟩
  · rintro ⟨r', b', hagain, -, hwrite'⟩
    exact restorable_of_read hb hwrite hagain hwrite'
  · have hfound := hdecoded.found hb hr hrestorable.columns
    obtain ⟨r', b', hagain, hbuilt⟩ := rebuilds_of_found hb hr hdecoded.apart hrestorable.years
      hfound hwrite hb (fun _ => rfl) (Nat.le_refl _)
    refine ⟨r', b', hagain, ?_, hbuilt.alike.toWire_eq.trans hwrite⟩
    exact equivalent_of_alike hbuilt.grown.sound hbuilt.alike (hbuilt.grown.mono hr)
      hbuilt.grown.mem hdecoded.aliasFree

open Offset in
/-- Half an hour before the end of 2023, an hour behind, is of 2024, and what was read of it is
stable.  Half an hour before the end of 9999 is of the year 10000, and is not read again. -/
theorem ofWire_stable_iff_published :
    (∃ w, (published 2024).toWire = .ok w ∧
      ∃ r' b', (ofWire w).run (algebra.add (published 2024)) = .ok (r', b') ∧
        (published 2024).equivalent r' = true ∧ r'.toWire = .ok w) ∧
    ∃ w, (published 10000).toWire = .ok w ∧
      ¬ ∃ r' b', (ofWire w).run (algebra.add (published 10000)) = .ok (r', b') ∧
        (published 10000).equivalent r' = true ∧ r'.toWire = .ok w := by
  constructor
  · obtain ⟨w, hwrite, hstable⟩ := ofWire_stable_iff Offset.reachable read_wire.1
    have hyear : (0 : Int) ≤ 2024 ∧ (2024 : Int) ≤ 9999 := by decide
    refine ⟨w, hwrite, hstable.2 ⟨⟨trivial, trivial, hyear⟩, trivial, ?_, trivial⟩⟩
    intro t c h
    cases h
    decide
  · obtain ⟨w, hwrite, hstable⟩ := ofWire_stable_iff Offset.reachable read_wire.2
    refine ⟨w, hwrite, fun h => ?_⟩
    have hyear := (hstable.1 h).years.2.2.2
    exact absurd hyear (by decide)

end Algebra

end RelationalAlgebra
