import RelationalAlgebra.Proofs.Enumeration
import RelationalAlgebra.Proofs.RenamedQueries

/-!
# A `FROM` clause lists the units of its joins

The units of a join are listed twice: `Relation.joinUnits` lists them when the join is built, to see that
its right operand is none of those to the left, and the compiler lists them again when it makes the `FROM`
clause, where a relation that is there already would be left out (`unitOf`).  Because of the first the
second never happens: the relations of the units are pairwise different, so each has its own place, and
the text of the clause has one stretch for each of them.

The main statement is `compile_units`.  It speaks of the query and of each subquery, whatever selections
and projections there are above the join (`Relation.core`).
-/

namespace RelationalAlgebra

/-- The kinds of the joins down the left, the innermost first. -/
def Relation.joinKinds : Relation → List JoinKind
  | .join _ kind left _ _ => left.joinKinds ++ [kind]
  | _ => []

theorem Relation.joinKinds_of_joinChain_nil {r : Relation} (h : r.joinChain = []) :
    r.joinKinds = [] := by
  cases r with
  | join id kind left right condition => cases h
  | _ => rfl

namespace Sql

open RelationalAlgebra.Relation

/-! ## The text of a clause -/

/-- The spelling of a unit. -/
def FromUnit.text (u : FromUnit) : String := spell u.fragments

/-- The spelling of a unit that is joined to those before it. -/
def FromUnit.joinedText (u : FromUnit) (kind : JoinKind) (condition : SqlExpr) : String :=
  " " ++ kind.sqlName ++ " " ++ u.text ++ " ON " ++ condition.text

/-- The spelling of the units that are joined to the first one, from left to right. -/
def joinsText (rest : List FromUnit) (kinds : List JoinKind) (conditions : List SqlExpr) : String :=
  String.join ((rest.zip (kinds.zip conditions)).map fun (u, kind, e) => u.joinedText kind e)

/-- The spelling of the conditions on the rows. -/
def whereText (conditions : List SqlExpr) : String :=
  if conditions.isEmpty then ""
  else " WHERE " ++ spell (separated " AND " (conditions.map (·.fragments)))

theorem spell_append (xs ys : List Fragment) : spell (xs ++ ys) = spell xs ++ spell ys := by
  rw [spell, List.map_append, String.join_append]
  rfl

theorem spell_words (text : String) (rest : List Fragment) :
    spell (.words text :: rest) = text ++ spell rest := by
  rw [spell, List.map_cons, String.join_cons]
  rfl

theorem joinsText_concat {rest : List FromUnit} {kinds : List JoinKind} {conditions : List SqlExpr}
    (hkinds : kinds.length = rest.length) (hconditions : conditions.length = rest.length)
    (u : FromUnit) (kind : JoinKind) (e : SqlExpr) :
    joinsText (rest ++ [u]) (kinds ++ [kind]) (conditions ++ [e]) =
      joinsText rest kinds conditions ++ u.joinedText kind e := by
  have hsteps : (kinds.zip conditions).length = rest.length := by
    rw [List.length_zip, hkinds, hconditions, Nat.min_self]
  rw [joinsText, List.zip_append (hkinds.trans hconditions.symm), List.zip_append hsteps.symm,
    List.map_append, String.join_append]
  simp [joinsText]

/-- Places that are there are the same in a longer list. -/
theorem Source.fragments_append {source : Source} {units : List (List Fragment)}
    (h : ∀ k ∈ source.units, k < units.length) (more : List (List Fragment)) :
    source.fragments (units ++ more) = source.fragments units := by
  induction source with
  | unit place =>
    rw [fragments, fragments, List.getElem?_append_left (h place (List.mem_singleton_self _))]
  | join kind left right condition ih =>
    have hright : right < units.length :=
      h right (List.mem_append_right _ (List.mem_singleton_self _))
    rw [fragments, fragments, ih fun k hk => h k (List.mem_append_left _ hk),
      List.getElem?_append_left hright]

variable {a : Algebra} {root r : Relation} {n n' : Numbering} {q : Query} {columns : List SqlExpr}
  {source : Source} {units : List FromUnit}

/-- A joined unit comes behind what was there: it is the last one, and the places before it are left. -/
theorem Lays.fragments_join (h : Lays r n source units n') (kind : JoinKind) (u : FromUnit)
    (e : SqlExpr) :
    (Source.join kind source units.length e).fragments (unitFragments (units ++ [u])) =
      source.fragments (unitFragments units) ++ .words (" " ++ kind.sqlName ++ " ") ::
        u.fragments ++ .words " ON " :: e.fragments := by
  have hplaces : ∀ k ∈ source.units, k < (units.map (·.fragments)).length := by
    rw [h.source_units, List.length_map]
    exact fun k hk => List.mem_range.1 hk
  have hlast : ((units ++ [u]).map (·.fragments))[units.length]?.getD [] = u.fragments := by simp
  rw [unitFragments_eq_map, unitFragments_eq_map, Source.fragments, hlast, List.map_append,
    Source.fragments_append hplaces]

/-- The text of a `FROM` clause is that of the first unit, and then that of each joined one. -/
theorem Lays.text (h : Lays r n source units n') :
    ∃ first rest, units = first :: rest ∧ r.joinKinds.length = rest.length ∧
      source.conditions.length = rest.length ∧
      spell (source.fragments (unitFragments units)) =
        first.text ++ joinsText rest r.joinKinds source.conditions := by
  induction h using Lays.chainInduction with
  | @leaf r n u n' hleaf stands =>
    refine ⟨u, [], rfl, ?_, rfl, ?_⟩
    · rw [joinKinds_of_joinChain_nil hleaf]
      rfl
    · rw [unitFragments_eq_map, Source.fragments]
      exact (String.append_empty ..).symm
  | @join id kind left right condition n n' source units u k p p' e lays stands fills ih =>
    obtain ⟨first, rest, rfl, hkinds, hconditions, htext⟩ := ih
    refine ⟨first, rest ++ [u], rfl, ?_, ?_, ?_⟩
    · rw [joinKinds, List.length_append, List.length_append, hkinds]
      rfl
    · rw [Source.conditions, List.length_append, List.length_append, hconditions]
      rfl
    · rw [lays.fragments_join, joinKinds, Source.conditions,
        joinsText_concat hkinds hconditions, ← String.append_assoc, ← htext]
      simp only [List.cons_append, List.append_assoc, spell_append, spell_words,
        FromUnit.joinedText, FromUnit.text, SqlExpr.text, String.append_assoc]

/-! ## The units of a query -/

/-- The `FROM` clause of the query is that of the chain of joins. -/
structure Query.ListsUnits (q : Query) (r : Relation) : Prop where
  /-- The units stand for the relations of the joins, which are different. -/
  relations : q.units.map (·.relation) = r.joinUnits
  nodup : (r.joinUnits.map (·.id)).Nodup
  /-- The place of a unit is what its relation is found at. -/
  place : ∀ (k : Nat) (u : FromUnit), q.units[k]? = some u →
    q.units.findIdx? (·.relation.id == u.relation.id) = some k
  /-- The clause names each unit once, in their order, and so does the text. -/
  named : ∃ source first rest, q.source = some source ∧
    source.units.map (fun k => (q.units[k]?).map (·.relation)) = r.joinUnits.map some ∧
    q.units = first :: rest ∧ r.joinKinds.length = rest.length ∧
    source.conditions.length = rest.length ∧
    q.sql = "SELECT " ++ spell (selectFragments q.entries) ++ " FROM " ++
      (first.text ++ joinsText rest r.joinKinds source.conditions) ++ whereText q.conditions

/-- The text of a query, clause by clause. -/
theorem Query.sql_eq (h : q.source = some source) :
    q.sql = "SELECT " ++ spell (selectFragments q.entries) ++ " FROM " ++
      spell (source.fragments (unitFragments q.units)) ++ whereText q.conditions := by
  obtain ⟨relation, entries, source', conditions, units, shape, projected⟩ := q
  obtain rfl : source' = some source := h
  rw [Query.sql, Query.fragments, queryOfFragments]
  cases conditions with
  | nil => simp [queryFragments, spell_append, spell_words, whereText, String.append_assoc]
  | cons e rest =>
    simp [queryFragments, spell_append, spell_words, whereText, String.append_assoc]

theorem Compiles.listsUnits (ha : a.Sound) (hr : r ∈ a.relations)
    (h : Compiles root r n q columns n') : q.ListsUnits r.core := by
  obtain ⟨source, m, hsource, lays, -⟩ := h.exists_core
  have hrelations := lays.relations
  have hnodup := ha.joinUnits_nodup (core_of_inherited (inherited_mem ha) hr)
  obtain ⟨first, rest, hunits, hkinds, hconditions, htext⟩ := lays.text
  refine ⟨hrelations, hnodup, fun k u hu => ?_, source, first, rest, hsource, ?_, hunits, hkinds,
    hconditions, ?_⟩
  · rw [← hrelations, List.map_map] at hnodup
    exact Algebra.findIdx?_key hnodup hu
  · rw [lays.source_units, ← hrelations, List.map_map]
    refine List.ext_getElem (by simp) fun k hk hk' => ?_
    have hlt : k < q.units.length := by simpa using hk'
    simp [hlt]
  · rw [Query.sql_eq hsource, htext]

/-- A relation that a session built compiles to a query whose `FROM` clause, and that of each of its
subqueries, lists the units of the joins of its relation: each relation once, at the place it has from
left to right, and with its text at that place. -/
theorem compile_units (h : a.Reachable) (hr : r ∈ a.relations) :
    ∃ c, compile r = .ok c ∧ c.query.relation = r ∧
      ∀ s, Within c.query s → s.ListsUnits s.relation.core := by
  have ha := h.sound
  obtain ⟨c, columns, k, hcompile, hrules⟩ := exists_compiles ha hr
  refine ⟨c, hcompile, hrules.relation_eq, fun s hs => ?_⟩
  obtain ⟨r', hr', n₁, columns', n₂, -, hrules', -⟩ :=
    hrules.of_within_upto (inherited_mem ha) hr hs
  rw [hrules'.relation_eq]
  exact hrules'.listsUnits ha hr'

/-- The first blog with its posts: a subquery and a table. -/
theorem compile_units_firstPosts :
    ∃ c, compile Sample.firstPosts = .ok c ∧ c.query.ListsUnits Sample.firstPosts ∧
      c.query.units.map (·.relation) = [Sample.first, .table Sample.posts] := by
  obtain ⟨c, hcompile, hrelation, hunits⟩ := compile_units Sample.reachable
    (show Sample.firstPosts ∈ Sample.algebra.relations by decide)
  have hlists := hunits _ .self
  rw [hrelation] at hlists
  exact ⟨c, hcompile, hlists, hlists.relations⟩

end Sql

end RelationalAlgebra
