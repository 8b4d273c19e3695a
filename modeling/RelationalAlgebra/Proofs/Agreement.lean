import RelationalAlgebra.Proofs.Alike
import RelationalAlgebra.Proofs.Compiling

/-!
# Interchangeable relations compile to the same text

The rules of the layout speak of identities only to say which unit shows a column.  As long as no
join is joined to itself, that is settled by the place in the tree, so two relations that are
interchangeable are laid out in the same way: `agrees`.

The main statement is `sql_of_interchangeable`: same text, same placeholders.
-/

namespace RelationalAlgebra.Sql

open RelationalAlgebra.Relation
open List (Forall₂)

variable {a b : Algebra} {r r' root root' left left' right right' operand operand' : Relation}
  {n n₁ n₂ : Numbering} {q q' : Query} {columns columns' : List SqlExpr} {source source' : Source}
  {units units' : List FromUnit} {u u' : FromUnit} {reads reads' : Nat → SqlExpr → Prop}
  {p p₁ p₂ : Placeholders} {expr : Expr Nat} {e e' : SqlExpr}

/-! ## Expressions -/

/-- An expression is written in one way if its columns are. -/
theorem Fills.eq (h : Fills reads expr p e p₁) (h' : Fills reads' expr p e' p₂)
    (hreads : ∀ i e e', reads i e → reads' i e' → e' = e) : e' = e ∧ p₂ = p₁ := by
  induction h generalizing e' p₂ with
  | column read => cases h' with | column read' => exact ⟨hreads _ _ _ read read', rfl⟩
  | literal => cases h' with | literal => exact ⟨rfl, rfl⟩
  | aliased _ ih => cases h' with | aliased fills => exact ih fills
  | equal _ _ ihl ihr =>
    cases h' with
    | equal fills_left fills_right =>
      obtain ⟨rfl, rfl⟩ := ihl fills_left
      obtain ⟨rfl, rfl⟩ := ihr fills_right
      exact ⟨rfl, rfl⟩
  | aggregate _ ih =>
    cases h' with
    | aggregate fills =>
      obtain ⟨rfl, rfl⟩ := ih fills
      exact ⟨rfl, rfl⟩

/-- Expressions that differ in aliases only are written in one way. -/
theorem Fills.eq_of_unaliased {expr' : Expr Nat} (h : Fills reads expr p e p₁)
    (h' : Fills reads' expr' p e' p₂) (hexpr : expr'.unaliased = expr.unaliased)
    (hreads : ∀ i e e', reads i e → reads' i e' → e' = e) : e' = e ∧ p₂ = p₁ := by
  have hfills := h'.unaliased
  rw [hexpr] at hfills
  exact h.unaliased.eq hfills hreads

theorem FillsAll.eq {shown : List OutputColumn} {entries entries' : List SelectEntry}
    (h : FillsAll reads shown p entries p₁) (h' : FillsAll reads' shown p entries' p₂)
    (hreads : ∀ i e e', reads i e → reads' i e' → e' = e) : entries' = entries ∧ p₂ = p₁ := by
  induction h generalizing entries' p₂ with
  | nil => cases h' with | nil => exact ⟨rfl, rfl⟩
  | cons head _ ih =>
    cases h' with
    | cons head' tail' =>
      obtain ⟨rfl, rfl⟩ := head.eq head' hreads
      obtain ⟨rfl, rfl⟩ := ih tail'
      exact ⟨rfl, rfl⟩

/-- One list of columns is read in one way. -/
theorem getElem?_functional (i : Nat) (e e' : SqlExpr) (h : columns[i]? = some e)
    (h' : columns[i]? = some e') : e' = e := by
  rw [h] at h'
  exact (Option.some.inj h').symm

/-! ## Queries and units -/

/-- Units that are written in the same way and show columns in the same way. -/
structure FromUnit.Same (u u' : FromUnit) : Prop where
  fragments : u'.fragments = u.fragments
  column? : ∀ i, u'.column? i = u.column? i

/-- Queries that are written in the same way. -/
structure Query.Same (q q' : Query) : Prop where
  entries : q'.entries = q.entries
  source : q'.source = q.source
  conditions : q'.conditions = q.conditions
  units : unitFragments q'.units = unitFragments q.units

theorem Query.Same.fragments (h : q.Same q') : queryOfFragments q' = queryOfFragments q := by
  obtain ⟨_, _, _, _, _, _, _⟩ := q
  obtain ⟨_, _, _, _, _, _, _⟩ := q'
  obtain ⟨rfl, rfl, rfl, hunits⟩ := h
  rw [queryOfFragments, queryOfFragments, hunits]

theorem Query.Same.nameOf? (h : q.Same q') : q'.nameOf? = q.nameOf? := by
  funext e
  rw [Query.nameOf?, Query.nameOf?, h.entries]

theorem unitFragments_of_same (h : Forall₂ FromUnit.Same units units') :
    unitFragments units' = unitFragments units := by
  induction h with
  | nil => rfl
  | cons same _ ih => rw [unitFragments, unitFragments, same.fragments, ih]

theorem table_same {t t' : Table} (header : t'.header = t.header) :
    FromUnit.Same (.table t) (.table t') where
  fragments := by rw [FromUnit.fragments, FromUnit.fragments, name_of_header header]
  column? i := by
    rw [FromUnit.column?, FromUnit.column?, name_of_header header]
    exact getElem?_of_header header (fun c => SqlExpr.column ⟨.table t.name, c⟩) i

/-! ## The layouts agree -/

/-- However the two relations are laid out from the same numbering, they are laid out in the same
way. -/
structure Agrees (r r' : Relation) : Prop where
  whole : ∀ {root root' n q columns n₁ q' columns' n₂}, Compiles root r n q columns n₁ →
    Compiles root' r' n q' columns' n₂ → q.Same q' ∧ columns' = columns ∧ n₂ = n₁
  operand : ∀ {n source units n₁ source' units' n₂}, Lays r n source units n₁ →
    Lays r' n source' units' n₂ → source' = source ∧ Forall₂ FromUnit.Same units units' ∧
      n₂ = n₁ ∧ ∀ i e e', Reads r.joinChain units r i e → Reads r'.joinChain units' r' i e' → e' = e

section

variable (hswap : Interchangeable r r')
  (hwhole : ∀ {root root' n q columns n₁ q' columns' n₂}, Compiles root r n q columns n₁ →
    Compiles root' r' n q' columns' n₂ → q.Same q' ∧ columns' = columns ∧ n₂ = n₁)

include hswap hwhole

/-- As units the relations agree if they do as whole queries. -/
theorem Stands.agree (h : Stands r n u n₁) (h' : Stands r' n u' n₂) : u.Same u' ∧ n₂ = n₁ := by
  cases h with
  | table =>
    cases hswap with
    | table header =>
      cases h' with
      | table => exact ⟨table_same header, rfl⟩
      | subquery nested => cases nested
  | subquery nested compiles =>
    cases h' with
    | table => cases hswap with | table => cases nested
    | subquery nested' compiles' =>
      obtain ⟨hsame, rfl, rfl⟩ := hwhole compiles compiles'
      refine ⟨⟨?_, fun i => ?_⟩, rfl⟩
      · rw [FromUnit.fragments, FromUnit.fragments, hsame.fragments]
      · rw [FromUnit.column?, FromUnit.column?, hsame.nameOf?]

theorem agrees_of_leaf (hleaf : r.joinChain = []) (hleaf' : r'.joinChain = []) :
    Agrees r r' where
  whole := hwhole
  operand h h' := by
    cases h with
    | join => cases hleaf
    | leaf _ stands =>
      cases h' with
      | join => cases hleaf'
      | leaf _ stands' =>
        obtain ⟨hsame, rfl⟩ := stands.agree hswap hwhole stands'
        refine ⟨rfl, .cons hsame .nil, rfl, fun i e e' hread hread' => ?_⟩
        rw [hleaf] at hread
        rw [hleaf'] at hread'
        have heq := hread'.of_leaf
        rw [hsame.column?, hread.of_leaf] at heq
        exact (Option.some.inj heq).symm

end

theorem table_agrees {t t' : Table} (header : t'.header = t.header) :
    Agrees (.table t) (.table t') := by
  refine agrees_of_leaf (.table header) ?_ rfl rfl
  intro root root' n q columns n₁ q' columns' n₂ h h'
  cases h with
  | table =>
    cases h' with
    | table =>
      refine ⟨⟨rfl, rfl, rfl, ?_⟩, ?_, rfl⟩
      · exact unitFragments_of_same (.cons (table_same header) .nil)
      · rw [name_of_header header]
        exact map_name_of_header header fun c => SqlExpr.column ⟨.table t.name, c⟩

theorem selection_agrees {id id' : Nat} {condition condition' : Expr Nat}
    (hswap : Interchangeable operand operand')
    (hconditions : condition'.unaliased = condition.unaliased)
    (hoperand : Agrees operand operand') :
    Agrees (.selection id operand condition) (.selection id' operand' condition') := by
  refine agrees_of_leaf (.selection hswap hconditions) ?_ rfl rfl
  intro root root' n q columns n₁ q' columns' n₂ h h'
  cases h with
  | selection compiles fills =>
    cases h' with
    | selection compiles' fills' =>
      obtain ⟨hsame, rfl, hn⟩ := hoperand.whole compiles compiles'
      cases hn
      obtain ⟨rfl, rfl⟩ := fills.eq_of_unaliased fills' hconditions getElem?_functional
      exact ⟨⟨hsame.entries, hsame.source, by rw [hsame.conditions], hsame.units⟩, rfl, rfl⟩

theorem projection_agrees {id id' : Nat} {whole whole' : Option Table}
    {shown : List OutputColumn} (hswap : Interchangeable operand operand')
    (headers : whole'.map Table.header = whole.map Table.header)
    (hoperand : Agrees operand operand') :
    Agrees (.projection id operand whole shown) (.projection id' operand' whole' shown) := by
  refine agrees_of_leaf (.projection hswap headers) ?_ rfl rfl
  intro root root' n q columns n₁ q' columns' n₂ h h'
  cases h with
  | projection compiles fills =>
    cases h' with
    | projection compiles' fills' =>
      obtain ⟨hsame, rfl, hn⟩ := hoperand.whole compiles compiles'
      cases hn
      obtain ⟨rfl, rfl⟩ := fills.eq fills' getElem?_functional
      refine ⟨⟨?_, ?_, ?_, ?_⟩, rfl, rfl⟩
      · simp
      · simpa using hsame.source
      · simpa using hsame.conditions
      · simpa using hsame.units

section

variable {id id' : Nat} {kind : JoinKind} {condition condition' : Expr Nat} (ha : a.Sound)
  (hb : b.Sound)

include ha hb

/-- A column of a join is read in one way if the columns of its operands are. -/
theorem reads_agree {n' m m' : Numbering} (hswap : Interchangeable left left')
    (hr : Relation.join id kind left right condition ∈ a.relations)
    (hr' : Relation.join id' kind left' right' condition' ∈ b.relations)
    (hright : right ∉ left.joinChain) (hright' : right' ∉ left'.joinChain)
    (lays : Lays left n source units n₁) (lays' : Lays left' n' source' units' n₂)
    (stands : Stands right n₁ u m) (stands' : Stands right' n₂ u' m')
    (hreads : ∀ i e e', Reads left.joinChain units left i e →
      Reads left'.joinChain units' left' i e' → e' = e) (hunit : u.Same u') (i : Nat)
    (e e' : SqlExpr)
    (h : Reads (Relation.join id kind left right condition).joinChain (units ++ [u])
      (.join id kind left right condition) i e)
    (h' : Reads (Relation.join id' kind left' right' condition').joinChain (units' ++ [u'])
      (.join id' kind left' right' condition') i e') : e' = e := by
  have hcases := h.join_cases ha hr hright lays.relations stands.relation_eq
  have hcases' := h'.join_cases hb hr' hright' lays'.relations stands'.relation_eq
  rw [hswap.width_eq] at hcases'
  rcases hcases with ⟨hlt, hread⟩ | ⟨hge, hread⟩
  · rcases hcases' with ⟨-, hread'⟩ | ⟨hge, -⟩
    · exact hreads i e e' hread hread'
    · omega
  · rcases hcases' with ⟨hlt, -⟩ | ⟨-, hread'⟩
    · omega
    · rw [hunit.column?, hread] at hread'
      exact (Option.some.inj hread').symm

section

variable (hswap : Interchangeable left left') (hswap' : Interchangeable right right')
  (hr : Relation.join id kind left right condition ∈ a.relations)
  (hr' : Relation.join id' kind left' right' condition' ∈ b.relations)
  (hright : right ∉ left.joinChain) (hright' : right' ∉ left'.joinChain)
  (hconditions : condition'.unaliased = condition.unaliased) (hl : Agrees left left')
  (hrt : Agrees right right')

include hswap hswap' hr hr' hright hright' hconditions hl hrt

theorem join_operand_agrees (h : Lays (.join id kind left right condition) n source units n₁)
    (h' : Lays (.join id' kind left' right' condition') n source' units' n₂) :
    source' = source ∧ Forall₂ FromUnit.Same units units' ∧ n₂ = n₁ ∧ ∀ i e e',
      Reads (Relation.join id kind left right condition).joinChain units
        (.join id kind left right condition) i e →
      Reads (Relation.join id' kind left' right' condition').joinChain units'
        (.join id' kind left' right' condition') i e' → e' = e := by
  cases h with
  | leaf leaf => cases leaf
  | join lays stands fills =>
    cases h' with
    | leaf leaf => cases leaf
    | join lays' stands' fills' =>
      obtain ⟨rfl, hunits, rfl, hreads⟩ := hl.operand lays lays'
      obtain ⟨hunit, hn⟩ := stands.agree hswap' hrt.whole stands'
      cases hn
      have hjoin := reads_agree ha hb hswap hr hr' hright hright' lays lays' stands stands'
        hreads hunit
      obtain ⟨rfl, rfl⟩ := fills.eq_of_unaliased fills' hconditions hjoin
      refine ⟨by rw [hunits.length_eq], ?_, rfl, hjoin⟩
      exact List.rel_append hunits (.cons hunit .nil)

theorem join_agrees : Agrees (.join id kind left right condition)
    (.join id' kind left' right' condition') := by
  refine ⟨?_, join_operand_agrees ha hb hswap hswap' hr hr' hright hright' hconditions hl hrt⟩
  intro root root' n q columns n₁ q' columns' n₂ h h'
  have hlength := h.length
  have hlength' := h'.length
  have hjoins : Interchangeable (.join id kind left right condition)
      (.join id' kind left' right' condition') :=
    .join hswap hswap' hconditions (ne_of_not_mem_joinChain ha hr hright)
      (ne_of_not_mem_joinChain hb hr' hright')
  obtain ⟨source, units, lays, rfl, hreads⟩ := h.join_cases ha hr
  obtain ⟨source', units', lays', rfl, hreads'⟩ := h'.join_cases hb hr'
  obtain ⟨rfl, hunits, rfl, hsame⟩ :=
    join_operand_agrees ha hb hswap hswap' hr hr' hright hright' hconditions hl hrt lays lays'
  rw [hjoins.width_eq, ← hlength] at hlength'
  have hcolumns : columns' = columns := by
    refine List.ext_getElem hlength' fun i hi' hi => ?_
    exact hsame i _ _ (hreads i _ (List.getElem?_eq_getElem hi))
      (hreads' i _ (List.getElem?_eq_getElem hi'))
  refine ⟨⟨?_, rfl, rfl, unitFragments_of_same hunits⟩, hcolumns, rfl⟩
  rw [hjoins.columns_eq, hcolumns]

end

theorem agrees (hswap : Interchangeable r r') (hr : r ∈ a.relations) (hr' : r' ∈ b.relations)
    (hapart : r.Apart) (hapart' : r'.Apart) : Agrees r r' := by
  induction hswap with
  | table header => exact table_agrees header
  | selection operands conditions ih =>
    exact selection_agrees operands conditions (ih (ha.selection_operand hr).1
      (hb.selection_operand hr').1 hapart hapart')
  | projection operands headers ih =>
    exact projection_agrees operands headers (ih (ha.projection_operand hr).1
      (hb.projection_operand hr').1 hapart hapart')
  | join lefts rights conditions _ _ ihl ihr =>
    exact join_agrees ha hb lefts rights hr hr' hapart.2.2 hapart'.2.2 conditions
      (ihl (ha.join_left hr).1 (hb.join_left hr').1 hapart.1 hapart'.1)
      (ihr (ha.join_right hr).1 (hb.join_right hr').1 hapart.2.1 hapart'.2.1)

/-- Interchangeable relations compile to the same text with the same placeholders. -/
theorem sql_of_interchangeable (hswap : Interchangeable r r') (hr : r ∈ a.relations)
    (hr' : r' ∈ b.relations) (hapart : r.Apart) (hapart' : r'.Apart) :
    ∃ c c', compile r = .ok c ∧ compile r' = .ok c' ∧ c'.sql = c.sql ∧
      c'.placeholders = c.placeholders := by
  obtain ⟨c, columns, k, hcompile, hrules⟩ := exists_compiles ha hr
  obtain ⟨c', columns', k', hcompile', hrules'⟩ := exists_compiles hb hr'
  obtain ⟨hsame, -, hn⟩ := (agrees ha hb hswap hr hr' hapart hapart').whole hrules hrules'
  refine ⟨c, c', hcompile, hcompile', ?_, (Numbering.mk.inj hn).2⟩
  exact congrArg spell hsame.fragments

/-- Relations that are alike compile to the same text with the same placeholders. -/
theorem sql_of_alike (halike : Alike r r') (hr : r ∈ a.relations) (hr' : r' ∈ b.relations)
    (hapart : r.Apart) (hapart' : r'.Apart) :
    ∃ c c', compile r = .ok c ∧ compile r' = .ok c' ∧ c'.sql = c.sql ∧
      c'.placeholders = c.placeholders :=
  sql_of_interchangeable ha hb halike.interchangeable hr hr' hapart hapart'

end

end RelationalAlgebra.Sql
