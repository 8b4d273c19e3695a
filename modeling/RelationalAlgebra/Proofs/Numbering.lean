import RelationalAlgebra.Proofs.Layout

/-!
# Labels and placeholders are numbered upwards

A query takes its labels and placeholders from where the numbering stands and never gives one out
twice.

* `Compiles.upto`, `Lays.upto` and `Stands.upto`: the numbering goes on from where it was.
* `Lays.qualifiers_nodup`: the units of a `FROM` clause have different qualifiers, so a reference is
  to one of them.
-/

namespace RelationalAlgebra.Sql

variable {a : Algebra} {root r : Relation} {n m n' : Numbering} {q : Query}
  {columns : List SqlExpr} {source : Source} {units : List FromUnit} {u : FromUnit}
  {reads : Nat → SqlExpr → Prop} {p p' : Placeholders} {e : SqlExpr}

/-! ## Numbers as text -/

theorem toString_inj {j k : Nat} (h : toString j = toString k) : j = k := by
  have hdigits : Nat.toDigits 10 j = Nat.toDigits 10 k := by
    rw [← Nat.toList_repr, ← Nat.toList_repr]
    exact congrArg String.toList h
  rw [← Nat.ofDigitChars_ten_toDigits (n := j), hdigits, Nat.ofDigitChars_ten_toDigits]

theorem append_inj_right {x y z : String} (h : x ++ y = x ++ z) : y = z := by
  have hlist := congrArg String.toList h
  rw [String.toList_append, String.toList_append, List.append_cancel_left_eq] at hlist
  exact String.toList_inj.1 hlist

/-- A key is looked up by its value if it has no other one. -/
theorem lookup_of_mem {β : Type} {list : List (String × β)} {key : String} {value : β}
    (hmem : (key, value) ∈ list) (hsame : ∀ other, (key, other) ∈ list → other = value) :
    list.lookup key = some value := by
  cases hlookup : list.lookup key with
  | none =>
    rw [List.lookup_eq_none_iff] at hlookup
    exact absurd (hlookup _ hmem) (by simp)
  | some other =>
    obtain ⟨before, after, rfl, -⟩ := List.lookup_eq_some_iff.1 hlookup
    rw [hsame other (List.mem_append_right _ (List.mem_cons_self ..))]

/-! ## Placeholders -/

namespace Placeholders

/-- Placeholders that come from others by giving out more names. -/
inductive Extends (p : Placeholders) : Placeholders → Prop
  | refl : Extends p p
  | add {p' : Placeholders} {value : Value} (extends' : Extends p p') :
      Extends p (p'.add value).2

theorem Extends.trans {p p' p'' : Placeholders} (h : Extends p p') (h' : Extends p' p'') :
    Extends p p'' := by
  induction h' with
  | refl => exact h
  | add _ ih => exact .add ih

/-- What was given out stays. -/
theorem Extends.getElem? {p p' : Placeholders} {i : Nat} {entry : String × Value}
    (h : Extends p p') (hentry : p.entries[i]? = some entry) : p'.entries[i]? = some entry := by
  induction h with
  | refl => exact hentry
  | add _ ih =>
    rw [Placeholders.add, List.getElem?_append_left (List.getElem?_eq_some_iff.1 ih).1]
    exact ih

/-- The names are those of the numbers from 1 on. -/
def Numbered (p : Placeholders) : Prop :=
  ∀ i entry, p.entries[i]? = some entry → entry.1 = nameOf (i + 1)

theorem numbered_empty : empty.Numbered := by
  intro i entry h
  cases h

theorem Extends.numbered {p p' : Placeholders} (h : Extends p p') (hp : p.Numbered) :
    p'.Numbered := by
  induction h with
  | refl => exact hp
  | @add p' value _ ih =>
    intro i entry hentry
    rcases Nat.lt_or_ge i p'.entries.length with hi | hi
    · rw [Placeholders.add, List.getElem?_append_left hi] at hentry
      exact ih i entry hentry
    · rw [Placeholders.add, List.getElem?_append_right hi, List.getElem?_singleton] at hentry
      split at hentry
      · next hzero =>
        cases hentry
        have hlength : i = p'.entries.length := by omega
        rw [hlength]
      · cases hentry

theorem nameOf_inj {j k : Nat} (h : nameOf j = nameOf k) : j = k :=
  toString_inj (append_inj_right h)

/-- A name that was given out is found with its value. -/
theorem Numbered.get?_eq {p : Placeholders} (hp : p.Numbered) {i : Nat} {name : String}
    {value : Value} (h : p.entries[i]? = some (name, value)) : p.get? name = some value := by
  refine lookup_of_mem (List.mem_of_getElem? h) fun other hother => ?_
  obtain ⟨j, hj⟩ := List.getElem?_of_mem hother
  have hnameI : name = nameOf (i + 1) := hp i _ h
  have hnameJ : name = nameOf (j + 1) := hp j _ hj
  rw [hnameI] at hnameJ
  rw [← Nat.succ.inj (nameOf_inj hnameJ), h] at hj
  exact (Prod.mk.inj (Option.some.inj hj)).2.symm

end Placeholders

/-! ## Numbering goes on -/

/-- A numbering that goes on from another one. -/
structure Numbering.Upto (n n' : Numbering) : Prop where
  subqueries : n.subqueries ≤ n'.subqueries
  placeholders : n.placeholders.Extends n'.placeholders

theorem Numbering.Upto.rfl : n.Upto n := ⟨Nat.le_refl _, .refl⟩

theorem Numbering.Upto.trans (h : n.Upto m) (h' : m.Upto n') : n.Upto n' :=
  ⟨Nat.le_trans h.subqueries h'.subqueries, h.placeholders.trans h'.placeholders⟩

theorem Fills.extends {expr : Expr Nat} (h : Fills reads expr p e p') : p.Extends p' := by
  induction h with
  | column read => exact .refl
  | literal => exact .add .refl
  | aliased _ ih => exact ih
  | equal _ _ ihl ihr => exact ihl.trans ihr
  | aggregate _ ih => exact ih

theorem FillsAll.extends {shown : List OutputColumn} {entries : List SelectEntry}
    (h : FillsAll reads shown p entries p') : p.Extends p' := by
  induction h with
  | nil => exact .refl
  | cons head tail ih => exact head.extends.trans ih

/-- More placeholders go on from fewer. -/
theorem Numbering.Upto.fill {k : Nat} (h : n.Upto ⟨k, p⟩) (hp : p.Extends p') :
    n.Upto ⟨k, p'⟩ := ⟨h.subqueries, h.placeholders.trans hp⟩

theorem Stands.upto_of (h : Stands r n u n')
    (hwhole : ∀ {root n q columns n'}, Compiles root r n q columns n' → n.Upto n') :
    n.Upto n' := by
  cases h with
  | table => exact .rfl
  | subquery nested compiles =>
    have hinner := hwhole compiles
    exact ⟨Nat.le_of_succ_le hinner.subqueries, hinner.placeholders⟩

theorem Lays.upto_of_leaf (h : Lays r n source units n') (hleaf : r.joinChain = [])
    (hwhole : ∀ {root n q columns n'}, Compiles root r n q columns n' → n.Upto n') :
    n.Upto n' := by
  cases h with
  | leaf _ stands => exact stands.upto_of hwhole
  | join => cases hleaf

theorem upto (r : Relation) :
    (∀ {root n q columns n'}, Compiles root r n q columns n' → n.Upto n') ∧
      ∀ {n source units n'}, Lays r n source units n' → n.Upto n' := by
  induction r with
  | table t =>
    have hwhole : ∀ {root n q columns n'}, Compiles root (.table t) n q columns n' →
        n.Upto n' := by
      intro root n q columns n' h
      cases h with
      | table => exact .rfl
    exact ⟨hwhole, fun h => h.upto_of_leaf rfl hwhole⟩
  | selection id operand condition ih =>
    have hwhole : ∀ {root n q columns n'},
        Compiles root (.selection id operand condition) n q columns n' → n.Upto n' := by
      intro root n q columns n' h
      cases h with
      | selection compiles fills => exact (ih.1 compiles).fill fills.extends
    exact ⟨hwhole, fun h => h.upto_of_leaf rfl hwhole⟩
  | projection id operand whole shown ih =>
    have hwhole : ∀ {root n q columns n'},
        Compiles root (.projection id operand whole shown) n q columns n' → n.Upto n' := by
      intro root n q columns n' h
      cases h with
      | projection compiles fills => exact (ih.1 compiles).fill fills.extends
    exact ⟨hwhole, fun h => h.upto_of_leaf rfl hwhole⟩
  | join id kind left right condition ihl ihr =>
    have hoperand : ∀ {n source units n'},
        Lays (.join id kind left right condition) n source units n' → n.Upto n' := by
      intro n source units n' h
      cases h with
      | leaf leaf => cases leaf
      | join lays stands fills =>
        exact ((ihl.2 lays).trans (stands.upto_of ihr.1)).fill fills.extends
    refine ⟨?_, hoperand⟩
    intro root n q columns n' h
    cases h with
    | join lays => exact hoperand lays

theorem Compiles.upto (h : Compiles root r n q columns n') : n.Upto n' := (Sql.upto r).1 h

theorem Lays.upto (h : Lays r n source units n') : n.Upto n' := (Sql.upto r).2 h

theorem Stands.upto (h : Stands r n u n') : n.Upto n' := h.upto_of (Sql.upto r).1

/-! ## Qualifiers -/

/-- The alias of the subquery number `k`. -/
def labelOf (k : Nat) : String := "t" ++ toString k

theorem labelOf_inj {j k : Nat} (h : labelOf j = labelOf k) : j = k :=
  toString_inj (append_inj_right h)

/-- A unit that is no base table has a label that was given out since `n`. -/
def Labelled (n n' : Numbering) (u : FromUnit) : Prop :=
  (∃ t, u = .table t) ∨
    ∃ k, n.subqueries < k ∧ k ≤ n'.subqueries ∧ u.qualifier = .subquery (labelOf k)

theorem Labelled.mono {n₀ n₁ : Numbering} (h : Labelled n m u) (hn : n₀.Upto n)
    (hm : m.Upto n₁) : Labelled n₀ n₁ u := by
  refine h.imp_right ?_
  rintro ⟨k, hlt, hle, hlabel⟩
  exact ⟨k, Nat.lt_of_le_of_lt hn.subqueries hlt, Nat.le_trans hle hm.subqueries, hlabel⟩

theorem Stands.labelled (h : Stands r n u n') : Labelled n n' u := by
  cases h with
  | table => exact .inl ⟨_, rfl⟩
  | subquery nested compiles =>
    exact .inr ⟨_, Nat.lt_succ_self _, compiles.upto.subqueries, rfl⟩

theorem Lays.labelled (h : Lays r n source units n') : ∀ u ∈ units, Labelled n n' u := by
  induction h using Lays.chainInduction with
  | leaf hleaf stands =>
    intro u hu
    obtain rfl := List.mem_singleton.1 hu
    exact stands.labelled
  | join lays stands fills ih =>
    intro u hu
    rcases List.mem_append.1 hu with hu | hu
    · exact (ih u hu).mono .rfl (stands.upto.fill fills.extends)
    · obtain rfl := List.mem_singleton.1 hu
      exact stands.labelled.mono lays.upto (Numbering.Upto.rfl.fill fills.extends)

/-- A unit that is joined has another qualifier than the units on its left. -/
theorem Stands.qualifier_ne (ha : a.Sound) {left right : Relation} {v : FromUnit}
    (hleft : left ∈ a.relations) (hright : right ∈ a.relations)
    (hnew : ∀ unit ∈ left.joinUnits, unit.id ≠ right.id) (lays : Lays left n source units m)
    (stands : Stands right m u n') (hv : v ∈ units) : v.qualifier ≠ u.qualifier := by
  have hunit : v.relation ∈ left.joinUnits := by
    rw [← lays.relations]
    exact List.mem_map_of_mem hv
  intro hqualifier
  cases stands with
  | @table t =>
    -- two tables of one name are one table, and it would be joined again
    rcases lays.labelled v hv with ⟨t', rfl⟩ | ⟨k, -, -, hlabel⟩
    · have ht' := (ha.mem_of_mem_spine hleft (List.mem_append_right _ hunit)).1
      obtain rfl := ha.table_eq_of_name_eq ht' hright (Qualifier.table.inj hqualifier)
      exact hnew _ hunit rfl
    · rw [hlabel] at hqualifier
      cases hqualifier
  | subquery nested compiles =>
    rcases lays.labelled v hv with ⟨t', rfl⟩ | ⟨k, -, hle, hlabel⟩
    · cases hqualifier
    · rw [hlabel] at hqualifier
      have hk := labelOf_inj (Qualifier.subquery.inj hqualifier)
      omega

/-- The units of a `FROM` clause have different qualifiers. -/
theorem Lays.qualifiers_nodup (ha : a.Sound) (hr : r ∈ a.relations)
    (h : Lays r n source units n') : (units.map (·.qualifier)).Nodup := by
  induction h using Lays.chainInduction with
  | leaf hleaf stands => simp
  | join lays stands fills ih =>
    have hleft := (ha.join_left hr).1
    refine Algebra.nodup_map_concat (ih hleft) fun v hv => ?_
    exact stands.qualifier_ne ha hleft (ha.join_right hr).1 (ha.join_new hr) lays hv

end RelationalAlgebra.Sql
