import RelationalAlgebra.Proofs.Structure

/-!
# Names that come apart again

A qualified name is taken apart at its last delimiter, which need not be the one that it was put
together with: underscores at the start of the field move the delimiter to the right, and a
delimiter within the field comes after it.  Underscores of the qualifier do no harm.

* `splitLast_eq_some_iff`: a text is split where no delimiter begins any further to the right, not
  even with the second half of the one it is split at.
* `Recoverable` says this of a qualifier and a field, neither of which may be empty; and these are
  the parts that a name is taken apart into (`split_eq_some_iff`).
* `position?_eq_some_iff`: a name stands for a column of a table if it comes down to the column's
  own name.

The main statement is `split_inverts_qualify`.
-/

namespace RelationalAlgebra

namespace QualifiedName

variable {text before after : List Char} {name qualifier field : String}

/-! ## Where a delimiter stands -/

theorem isDelimited_of_cons {c : Char} (h : isDelimited (c :: text) = false) :
    isDelimited text = false := by
  unfold isDelimited at h
  split at h
  · cases h
  · next heq => cases heq; exact h
  · next heq => cases heq

/-- A text contains a delimiter exactly if that is a piece of it. -/
theorem isDelimited_iff : isDelimited text ↔ delimiter.toList <:+: text := by
  have hdelimiter : delimiter.toList = ['_', '_'] := by simp [delimiter]
  rw [hdelimiter]
  fun_induction isDelimited text with
  | case1 rest => exact ⟨fun _ => ⟨[], rest, rfl⟩, fun _ => rfl⟩
  | case2 c rest hc ih =>
    refine ih.trans ?_
    rw [List.infix_cons_iff]
    refine ⟨.inr, fun h => ?_⟩
    rcases h with ⟨behind, hbehind⟩ | h
    · obtain ⟨rfl, rfl⟩ := List.cons.inj hbehind
      exact absurd rfl (hc behind rfl)
    · exact h
  | case3 => simp

theorem isDelimited_append (before after : List Char) :
    isDelimited (before ++ '_' :: '_' :: after) := by
  rw [isDelimited_iff]
  exact ⟨before, after, by simp [delimiter]⟩

/-- With half a delimiter in front of it a text contains one as before, or starts with the other
half. -/
theorem isDelimited_half_cons :
    isDelimited ('_' :: text) = false ↔ isDelimited text = false ∧ ¬ ['_'] <+: text := by
  cases text with
  | nil => decide
  | cons c rest =>
    by_cases hc : '_' = c
    · subst hc
      simp [isDelimited]
    · have hskip : isDelimited ('_' :: c :: rest) = isDelimited (c :: rest) := by
        rw [isDelimited.eq_2]
        rintro behind - heq
        exact hc (List.cons.inj heq).1.symm
      simp [hskip, List.cons_prefix_cons, hc]

/-! ## The last delimiter -/

/-- No delimiter begins behind the start of the last one. -/
theorem isDelimited_of_splitLast (h : splitLast text = some (before, after)) :
    isDelimited ('_' :: after) = false := by
  induction text generalizing before with
  | nil => cases h
  | cons c rest ih =>
    unfold splitLast at h
    split at h
    · next hrest => cases h; exact ih hrest
    · next hrest =>
      split at h
      · next tail =>
        cases h
        rw [← splitLast_isSome, hrest]
        rfl
      · cases h

/-- A delimiter behind whose start none begins is the last one. -/
theorem splitLast_append (before : List Char) (h : isDelimited ('_' :: after) = false) :
    splitLast (before ++ '_' :: '_' :: after) = some (before, after) := by
  induction before with
  | nil =>
    have hnone : splitLast ('_' :: after) = none := by
      rw [← Option.not_isSome_iff_eq_none, splitLast_isSome, h]
      decide
    rw [List.nil_append, splitLast, hnone]
  | cons c rest ih =>
    rw [List.cons_append]
    unfold splitLast
    rw [ih]

theorem splitLast_eq_some_iff :
    splitLast text = some (before, after) ↔
      text = before ++ '_' :: '_' :: after ∧ isDelimited ('_' :: after) = false := by
  constructor
  · exact fun h => ⟨eq_of_splitLast h, isDelimited_of_splitLast h⟩
  · rintro ⟨rfl, h⟩
    exact splitLast_append before h

/-! ## Names put together -/

theorem toList_qualify (qualifier field : String) :
    (qualify qualifier field).toList = qualifier.toList ++ '_' :: '_' :: field.toList := by
  simp [qualify, delimiter]

/-- A name that is put together is a qualified name. -/
theorem isQualified_qualify (qualifier field : String) : isQualified (qualify qualifier field) := by
  rw [isQualified, toList_qualify]
  exact isDelimited_append _ _

/-- A name that is put together is longer than its field. -/
theorem qualify_ne (qualifier field : String) : qualify qualifier field ≠ field := by
  intro h
  have hlength := congrArg String.length h
  simp only [qualify, delimiter, String.length_append] at hlength
  have htwo : "__".length = 2 := by decide
  omega

/-! ## Names taken apart -/

/-- A qualifier and a field that their qualified name gives back. -/
structure Recoverable (qualifier field : String) : Prop where
  qualifier_nonempty : qualifier ≠ ""
  field_nonempty : field ≠ ""
  /-- No delimiter stands in the field. -/
  undelimited : ¬ delimiter.toList <:+: field.toList
  /-- The field does not start with half a delimiter: with the half in front of it that is one. -/
  start : ¬ ['_'] <+: field.toList

theorem recoverable_iff :
    Recoverable qualifier field ↔
      qualifier ≠ "" ∧ field ≠ "" ∧ isDelimited ('_' :: field.toList) = false := by
  rw [isDelimited_half_cons, ← Bool.not_eq_true, isDelimited_iff]
  constructor
  · rintro ⟨hqualifier, hfield, hundelimited, hstart⟩
    exact ⟨hqualifier, hfield, hundelimited, hstart⟩
  · rintro ⟨hqualifier, hfield, hundelimited, hstart⟩
    exact ⟨hqualifier, hfield, hundelimited, hstart⟩

instance : Decidable (Recoverable qualifier field) := decidable_of_iff _ recoverable_iff.symm

/-- A name is taken apart into those parts among the ones it can be put together from that are
recoverable. -/
theorem split_eq_some_iff :
    split name = some (qualifier, field) ↔
      name = qualify qualifier field ∧ Recoverable qualifier field := by
  rw [recoverable_iff]
  constructor
  · intro h
    refine ⟨(qualify_of_split h).symm, ?_⟩
    unfold split at h
    split at h
    · next q f hsplit =>
      split at h
      · cases h
      · next hparts =>
        have hnonempty : q ≠ [] ∧ f ≠ [] := by simpa using hparts
        obtain ⟨rfl, rfl⟩ := Prod.mk.inj (Option.some.inj h)
        rw [String.toList_ofList]
        exact ⟨by simpa using hnonempty.1, by simpa using hnonempty.2,
          (splitLast_eq_some_iff.1 hsplit).2⟩
    · cases h
  · rintro ⟨rfl, hq, hf, hbehind⟩
    rw [split, splitLast_eq_some_iff.2 ⟨toList_qualify qualifier field, hbehind⟩]
    simp [hq, hf]

/-- The field of a qualified name is a plain name. -/
theorem isQualified_field (h : split name = some (qualifier, field)) : isQualified field = false :=
  isDelimited_of_cons (recoverable_iff.1 (split_eq_some_iff.1 h).2).2.2

/-- What can be taken apart is a qualified name. -/
theorem isQualified_of_split {parts : String × String} (h : split name = some parts) :
    isQualified name := by
  obtain ⟨qualifier, field⟩ := parts
  rw [← qualify_of_split h]
  exact isQualified_qualify qualifier field

/-- A plain name cannot be taken apart. -/
theorem split_of_plain (h : isQualified name = false) : split name = none := by
  cases hsplit : split name with
  | none => rfl
  | some parts =>
    rw [isQualified_of_split hsplit] at h
    cases h

end QualifiedName

open QualifiedName

/-! ## Columns of a table -/

namespace Table

variable {t : Table} {name : String} {i : Nat} {c : Column}

theorem ownName?_of_plain (h : isQualified name = false) : t.ownName? name = some name := by
  rw [ownName?, split_of_plain h]

theorem ownName?_of_split {qualifier field own : String}
    (h : split name = some (qualifier, field)) :
    t.ownName? name = some own ↔ qualifier = t.name ∧ field = own := by
  rw [ownName?, h]
  simp only [Option.ite_none_right_eq_some, Option.some.injEq]

/-- A name stands for a column if it comes down to the column's own name. -/
theorem position?_eq_some_iff (hnodup : (t.columns.map (·.name)).Nodup)
    (hc : t.columns[i]? = some c) :
    t.position? name = some i ↔ t.ownName? name = some c.name := by
  constructor
  · intro h
    obtain ⟨own, c', hown, -, hc', rfl⟩ := Relation.find?_table_some h
    rw [hown, Option.some.inj (hc.symm.trans hc')]
  · intro h
    rw [position?, h, Option.bind_some]
    exact Algebra.findIdx?_key hnodup hc

/-- A column's name with the table's in front of it comes down to the column exactly if the two come
apart again: a name that does not come apart comes down to itself, and that is longer. -/
theorem ownName?_qualify {column : String} :
    t.ownName? (qualify t.name column) = some column ↔ Recoverable t.name column := by
  constructor
  · intro h
    cases hsplit : split (qualify t.name column) with
    | some parts =>
      obtain ⟨qualifier, field⟩ := parts
      obtain ⟨rfl, rfl⟩ := (ownName?_of_split hsplit).1 h
      exact (split_eq_some_iff.1 hsplit).2
    | none =>
      rw [ownName?, hsplit] at h
      exact absurd (Option.some.inj h) (qualify_ne _ _)
  · intro h
    exact (ownName?_of_split (split_eq_some_iff.2 ⟨rfl, h⟩)).2 ⟨rfl, rfl⟩

end Table

/-! ## The main statement -/

namespace QualifiedName

/-- A qualified name gives back a qualifier and a field exactly if these are recoverable.  What a
name is taken apart into is recoverable and puts the name together.  And a declared column is found
at its place by the qualified name of its table and itself exactly if these two are recoverable. -/
theorem split_inverts_qualify :
    (∀ qualifier field, split (qualify qualifier field) = some (qualifier, field) ↔
      Recoverable qualifier field) ∧
    (∀ name qualifier field, split name = some (qualifier, field) →
      qualify qualifier field = name ∧ Recoverable qualifier field) ∧
    ∀ id name columns i c, (Table.declare id name columns).columns[i]? = some c →
      ((Table.declare id name columns).position? (qualify name c.name) = some i ↔
        Recoverable name c.name) := by
  refine ⟨fun qualifier field => ?_, fun name qualifier field h => ?_,
    fun id name columns i c hc => ?_⟩
  · rw [split_eq_some_iff, and_iff_right rfl]
  · obtain ⟨rfl, hrecoverable⟩ := split_eq_some_iff.1 h
    exact ⟨rfl, hrecoverable⟩
  · rw [Table.position?_eq_some_iff (Algebra.nodup_declare id name columns) hc]
    exact Table.ownName?_qualify

/-- A table whose name ends in half a delimiter, with columns that start with one and contain one. -/
def halves : Table :=
  .declare 0 "t_" [("id", .integer), ("_id", .integer), ("a__b", .string)]

/-- Only the first of the columns is found by its qualified name, since those of the others are
taken apart elsewhere. -/
theorem split_inverts_qualify_halves :
    qualify "t_" "id" = "t___id" ∧ split "t___id" = some ("t_", "id") ∧
    halves.columns[0]? = some ⟨"id", .integer⟩ ∧ halves.position? "t___id" = some 0 ∧
    halves.columns[1]? = some ⟨"_id", .integer⟩ ∧ split "t____id" = some ("t__", "id") ∧
    halves.position? "t____id" ≠ some 1 ∧
    halves.columns[2]? = some ⟨"a__b", .string⟩ ∧ split "t___a__b" = some ("t___a", "b") ∧
    halves.position? "t___a__b" ≠ some 2 := by
  obtain ⟨hsplit, hparts, hplace⟩ := split_inverts_qualify
  have hid : split "t___id" = some ("t_", "id") := (hsplit "t_" "id").2 (by decide +kernel)
  obtain ⟨hqualify, hrecoverable⟩ := hparts _ _ _ hid
  have hother : ¬ Recoverable "t_" "_id" := by decide +kernel
  have hlast : ¬ Recoverable "t_" "a__b" := by decide +kernel
  have hplaces := hplace 0 "t_" [("id", .integer), ("_id", .integer), ("a__b", .string)]
  exact ⟨hqualify, hid, rfl, (hplaces 0 ⟨"id", .integer⟩ rfl).2 hrecoverable,
    rfl, by decide +kernel, mt (hplaces 1 ⟨"_id", .integer⟩ rfl).1 hother,
    rfl, by decide +kernel, mt (hplaces 2 ⟨"a__b", .string⟩ rfl).1 hlast⟩

end QualifiedName

end RelationalAlgebra
