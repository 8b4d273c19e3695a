import Mathlib.Data.List.Nodup
import RelationalAlgebra.Proofs.Numbering
import RelationalAlgebra.Proofs.Session
import RelationalAlgebra.Proofs.SplitNames

/-!
# Names tell columns apart

In the select list of a join a column stands under its qualified name, and a subquery around it is
asked for the column by that name alone.  So the names must tell the columns apart, and that needs
table names that can be told from each other and from labels when they stand before a delimiter:
`Algebra.PlainTables`.

* `qualify_inj`: a qualified name gives back its qualifier and its field.
* `Lays.names_nodup`: the units of a `FROM` clause have different names.
* `Compiles.expr_eq_of_name_eq`: in a select list, entries of one name show one expression.
-/

namespace RelationalAlgebra

open QualifiedName

/-! ## Qualified names -/

namespace QualifiedName

/-- A text without a delimiter that does not end in half of one has none with half of one behind
it. -/
theorem isDelimited_append_half {text : List Char} (h : isDelimited text = false)
    (hlast : text.getLast? ≠ some '_') : isDelimited (text ++ ['_']) = false := by
  induction text with
  | nil => rfl
  | cons c rest ih =>
    cases rest with
    | nil =>
      rw [List.getLast?_singleton] at hlast
      rw [List.singleton_append]
      unfold isDelimited
      split
      · next heq => cases heq; exact absurd rfl hlast
      · next heq => cases heq; rfl
      · rfl
    | cons d rest =>
      rw [List.getLast?_cons_cons] at hlast
      have hrest := ih (isDelimited_of_cons h) hlast
      rw [List.cons_append]
      unfold isDelimited at h ⊢
      split at h
      · cases h
      · next hne heq =>
        cases heq
        split
        · next heq' => cases heq'; exact absurd rfl (hne _ rfl)
        · next heq' => cases heq'; exact hrest
        · rfl
      · next heq => cases heq

/-- A text that starts with a delimiter does not start with a text that keeps clear of one. -/
theorem delimiter_ne_append {c : Char} {text rest behind : List Char}
    (h : isDelimited (c :: text ++ ['_']) = false) :
    '_' :: '_' :: rest ≠ c :: text ++ '_' :: '_' :: behind := by
  intro heq
  rw [List.cons_append, List.cons.injEq] at heq
  obtain ⟨rfl, heq⟩ := heq
  cases text with
  | nil => cases h
  | cons d text =>
    rw [List.cons_append, List.cons.injEq] at heq
    obtain ⟨rfl, -⟩ := heq
    cases h

/-- The first delimiter stands where a qualifier that keeps clear of one ends. -/
theorem append_delimiter_inj {q q' field field' : List Char}
    (hq : isDelimited (q ++ ['_']) = false) (hq' : isDelimited (q' ++ ['_']) = false)
    (h : q ++ '_' :: '_' :: field = q' ++ '_' :: '_' :: field') : q = q' ∧ field = field' := by
  induction q generalizing q' with
  | nil =>
    cases q' with
    | nil => cases h; exact ⟨rfl, rfl⟩
    | cons c q' => exact absurd h (delimiter_ne_append hq')
  | cons c q ih =>
    cases q' with
    | nil => exact absurd h.symm (delimiter_ne_append hq)
    | cons c' q' =>
      rw [List.cons_append, List.cons_append, List.cons.injEq] at h
      obtain ⟨hq'', hfield⟩ := ih (isDelimited_of_cons hq) (isDelimited_of_cons hq') h.2
      exact ⟨by rw [h.1, hq''], hfield⟩

/-- A qualifier that keeps clear of a delimiter: it holds none and does not end in half of one. -/
structure PlainQualifier (name : String) : Prop where
  unqualified : isQualified name = false
  last : name.toList.getLast? ≠ some '_'

/-- A qualified name gives back its qualifier and its field. -/
theorem qualify_inj {q q' field field' : String} (hq : PlainQualifier q) (hq' : PlainQualifier q')
    (h : qualify q field = qualify q' field') : q = q' ∧ field = field' := by
  have hlist := congrArg String.toList h
  rw [toList_qualify, toList_qualify] at hlist
  obtain ⟨hqlist, hfield⟩ := append_delimiter_inj
    (isDelimited_append_half hq.unqualified hq.last)
    (isDelimited_append_half hq'.unqualified hq'.last) hlist
  exact ⟨String.toList_inj.1 hqlist, String.toList_inj.1 hfield⟩

/-- A field that keeps clear of a delimiter: it is not empty, holds none and does not start with half
of one. -/
structure PlainField (name : String) : Prop where
  nonempty : name ≠ ""
  unqualified : isQualified name = false
  first : name.toList.head? ≠ some '_'

/-- A field that keeps clear of a delimiter comes apart again from any qualifier. -/
theorem PlainField.recoverable {qualifier field : String} (hf : PlainField field)
    (hq : qualifier ≠ "") : Recoverable qualifier field := by
  have hstart : ¬ ['_'] <+: field.toList := by
    rintro ⟨rest, hrest⟩
    rw [List.singleton_append] at hrest
    exact hf.first (by rw [← hrest, List.head?_cons])
  exact recoverable_iff.2 ⟨hq, hf.nonempty, isDelimited_half_cons.2 ⟨hf.unqualified, hstart⟩⟩

end QualifiedName

namespace Sql

theorem isDelimited_of_digits {digits : List Char} (h : ∀ c ∈ digits, c.isDigit) :
    isDelimited digits = false := by
  induction digits with
  | nil => rfl
  | cons c rest ih =>
    have hrest := ih fun c hc => h c (List.mem_cons_of_mem _ hc)
    unfold isDelimited
    split
    · next heq =>
      cases heq
      exact absurd (h '_' (List.mem_cons_self ..)) (by decide)
    · next heq => cases heq; exact hrest
    · rfl

/-- Labels keep clear of delimiters. -/
theorem plainQualifier_labelOf (k : Nat) : PlainQualifier (labelOf k) := by
  have hlist : (labelOf k).toList = 't' :: Nat.toDigits 10 k := by
    rw [labelOf, String.toList_append]
    exact congrArg ('t' :: ·) Nat.toList_repr
  have hdigits : ∀ c ∈ Nat.toDigits 10 k, c.isDigit :=
    fun c hc => Nat.isDigit_of_mem_toDigits (by decide) (by decide) hc
  constructor
  · rw [isQualified, hlist]
    unfold isDelimited
    split
    · next heq => cases heq
    · next heq => cases heq; exact isDelimited_of_digits hdigits
    · rfl
  · rw [hlist]
    intro hlast
    rcases List.mem_cons.1 (List.mem_of_getLast? hlast) with heq | hmem
    · cases heq
    · exact absurd (hdigits '_' hmem) (by decide)

end Sql

/-! ## Tables -/

/-- The names of the tables keep clear of delimiters and are no labels. -/
structure Algebra.PlainTables (a : Algebra) : Prop where
  plain : ∀ t, Relation.table t ∈ a.relations → PlainQualifier t.name
  no_label : ∀ t, Relation.table t ∈ a.relations → ∀ k, t.name ≠ Sql.labelOf k

/-- The names of the tables and of their columns keep clear of delimiters. -/
structure Algebra.PlainNames (a : Algebra) : Prop extends a.PlainTables where
  table_nonempty : ∀ t, Relation.table t ∈ a.relations → t.name ≠ ""
  column : ∀ t, Relation.table t ∈ a.relations → ∀ c ∈ t.columns, PlainField c.name

/-- The tables of the short session have plain names. -/
theorem Sample.plainTables : algebra.PlainTables := by
  constructor
  · intro t ht
    rcases table_cases ht with rfl | rfl
    · exact ⟨by decide, by decide⟩
    · exact ⟨by decide, by decide⟩
  · intro t ht k hname
    have hhead : t.name.toList.head? = some 't' := by
      rw [hname, Sql.labelOf, String.toList_append]
      rfl
    rcases table_cases ht with rfl | rfl
    · exact absurd hhead (by decide)
    · exact absurd hhead (by decide)

theorem Sample.plainField_id : PlainField "id" := ⟨by decide, by decide, by decide⟩

/-- All names of the short session are plain. -/
theorem Sample.plainNames : algebra.PlainNames where
  toPlainTables := plainTables
  table_nonempty t ht := by
    rcases table_cases ht with rfl | rfl
    · decide
    · decide
  column t ht c hc := by
    rcases table_cases ht with rfl | rfl
    · obtain rfl := List.mem_singleton.1 hc
      exact plainField_id
    · rcases List.mem_pair.1 hc with rfl | rfl
      · exact plainField_id
      · exact ⟨by decide, by decide, by decide⟩

namespace Sql

open RelationalAlgebra.Relation

variable {a : Algebra} {root r : Relation} {n n' : Numbering} {q : Query}
  {columns : List SqlExpr} {source : Source} {units : List FromUnit} {u v : FromUnit}
  {i : Nat} {e : SqlExpr} {chain : List Relation}

/-- A unit stands for a relation of the algebra. -/
theorem Lays.unit_mem (ha : a.Sound) (hr : r ∈ a.relations) (h : Lays r n source units n')
    (hu : u ∈ units) : u.relation ∈ a.relations :=
  h.mem_spine ha hr (List.mem_append_right _ (List.mem_map_of_mem hu))

theorem Lays.plainQualifier (ha : a.Sound) (hplain : a.PlainTables) (hr : r ∈ a.relations)
    (h : Lays r n source units n') (hu : u ∈ units) : PlainQualifier u.qualifier.name := by
  rcases h.labelled u hu with ⟨t, rfl⟩ | ⟨k, -, -, hlabel⟩
  · exact hplain.plain t (h.unit_mem ha hr hu)
  · rw [hlabel]
    exact plainQualifier_labelOf k

/-- Units of one name have one qualifier. -/
theorem Lays.qualifier_eq_of_name_eq (ha : a.Sound) (hplain : a.PlainTables)
    (hr : r ∈ a.relations) (h : Lays r n source units n') (hu : u ∈ units) (hv : v ∈ units)
    (hname : u.qualifier.name = v.qualifier.name) : u.qualifier = v.qualifier := by
  rcases h.labelled u hu with ⟨t, rfl⟩ | ⟨k, -, -, hlabel⟩
  · rcases h.labelled v hv with ⟨t', rfl⟩ | ⟨k', -, -, hlabel'⟩
    · exact congrArg Qualifier.table hname
    · rw [hlabel'] at hname
      exact absurd hname (hplain.no_label t (h.unit_mem ha hr hu) k')
  · rcases h.labelled v hv with ⟨t', rfl⟩ | ⟨k', -, -, hlabel'⟩
    · rw [hlabel] at hname
      exact absurd hname.symm (hplain.no_label t' (h.unit_mem ha hr hv) k)
    · rw [hlabel, hlabel'] at hname ⊢
      exact congrArg Qualifier.subquery hname

/-- The units of a `FROM` clause have different names. -/
theorem Lays.names_nodup (ha : a.Sound) (hplain : a.PlainTables) (hr : r ∈ a.relations)
    (h : Lays r n source units n') : (units.map (·.qualifier.name)).Nodup := by
  have hnodup := h.qualifiers_nodup ha hr
  rw [List.Nodup, List.pairwise_map] at hnodup ⊢
  refine hnodup.imp_of_mem ?_
  intro u v hu hv hne hname
  exact hne (h.qualifier_eq_of_name_eq ha hplain hr hu hv hname)

/-! ## Select lists -/

/-- In a select list, entries of one name show one expression. -/
theorem Compiles.expr_eq_of_name_eq (ha : a.Sound) (hplain : a.PlainTables)
    (hr : r ∈ a.relations) (h : Compiles root r n q columns n') {entries : List SelectEntry}
    (hentries : q.entries = some entries) {entry other : SelectEntry} (hentry : entry ∈ entries)
    (hother : other ∈ entries) (hname : entry.name = other.name) : entry.expr = other.expr := by
  induction r generalizing q columns n' with
  | table t =>
    cases h with
    | table => cases hentries
  | selection id operand condition ih =>
    cases h with
    | selection compiles fills => exact ih (ha.selection_operand hr).1 compiles hentries
  | projection id operand whole shown ih =>
    cases h with
    | @projection _ _ _ _ _ _ _ _ _ _ _ entries' compiles fills =>
      have hnames := ha.projection_names hr
      rw [← fills.names] at hnames
      rw [Query.reshape_entries, Option.some.injEq] at hentries
      rw [hentries] at hnames
      have hinj := List.inj_on_of_nodup_map hnames hentry hother hname
      rw [hinj]
  | join id kind left right condition ihl ihr =>
    obtain ⟨source, units, lays, rfl, hreads⟩ := h.join_cases ha hr
    have hshown : ∀ entry ∈ entries, ∃ u ∈ units, ∃ name,
        entry.expr = .column ⟨u.qualifier, name⟩ ∧ entry.name = qualify u.qualifier.name name := by
      intro entry hentry
      rw [← Option.some.inj hentries] at hentry
      obtain ⟨c, -, hcolumn, hname⟩ := mem_qualifiedEntries hentry
      obtain ⟨i, hi⟩ := List.getElem?_of_mem hcolumn
      obtain ⟨u, hu, j, hj⟩ := (hreads i _ hi).exists_unit
      obtain ⟨name, hexpr⟩ := FromUnit.exists_name_of_column? hj
      refine ⟨u, hu, name, hexpr, ?_⟩
      rw [hname, hexpr]
      rfl
    obtain ⟨u, hu, name, hexpr, hqualified⟩ := hshown entry hentry
    obtain ⟨v, hv, name', hexpr', hqualified'⟩ := hshown other hother
    rw [hqualified, hqualified'] at hname
    obtain ⟨hunit, rfl⟩ := qualify_inj (lays.plainQualifier ha hplain hr hu)
      (lays.plainQualifier ha hplain hr hv) hname
    rw [hexpr, hexpr', lays.qualifier_eq_of_name_eq ha hplain hr hu hv hunit]

end Sql

end RelationalAlgebra
