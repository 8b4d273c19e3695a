import RelationalAlgebra.Proofs.FromClause
import RelationalAlgebra.Proofs.Respelling
import RelationalAlgebra.Proofs.WrittenLiterals

/-!
# The placeholders of a text and the values beside it

The text of a query asks for values by name, and the values travel beside it.  `placeholdersIn` finds the
names in a text without knowing what pieces it was put together from; by `Legible.placeholdersFrom` it
finds the placeholders of the pieces, which by `asking` are those of the literals that are written.

So the text asks for nothing that it does not get (`compile_binding`).  It may get more than it asks for:
the literal of a column that a second projection leaves out has a value and stands nowhere.
-/

namespace RelationalAlgebra.Sql

open RelationalAlgebra.Relation
open Placeholders (nameOf)

/-! ## The placeholders of a text -/

/-- The name of the placeholder that a colon before the text starts: the letter v and all the digits
behind it. -/
def nameBehind? : List Char → Option String
  | 'v' :: rest =>
    match rest.takeWhile Char.isDigit with
    | [] => none
    | digits => some (String.ofList ('v' :: digits))
  | _ => none

/-- The names of the placeholders from a place on.  `quoted` says whether the place is between double
quotes. -/
def placeholdersFrom : (quoted : Bool) → List Char → List String
  | _, [] => []
  | quoted, c :: rest =>
    if c == '"' then placeholdersFrom (!quoted) rest
    else if quoted || c != ':' then placeholdersFrom quoted rest
    else (nameBehind? rest).toList ++ placeholdersFrom quoted rest

/-- The names of the placeholders of a text, in the order of their occurrence.  Between double quotes
nothing is a placeholder. -/
def placeholdersIn (text : String) : List String := placeholdersFrom false text.toList

variable {p : Placeholders} {xs rest : List Char} {fragments : List Fragment}

theorem placeholdersFrom_quoted (name rest : List Char) :
    placeholdersFrom true (doubleQuotes name ++ '"' :: rest) = placeholdersFrom false rest := by
  induction name with
  | nil => simp [doubleQuotes, placeholdersFrom]
  | cons c name ih =>
    rw [doubleQuotes]
    split
    · simp [placeholdersFrom, ih]
    · next hquote => simp_all [placeholdersFrom]

/-- Text without placeholders is passed over. -/
theorem Inert.placeholdersFrom (h : Inert xs) (rest : List Char) :
    placeholdersFrom false (xs ++ rest) = placeholdersFrom false rest := by
  induction h with
  | nil => rfl
  | cons quote colon _ ih =>
    rw [List.cons_append, Sql.placeholdersFrom, ih]
    simp [quote, colon]
  | quoted name _ ih =>
    rw [List.append_assoc]
    simp [Sql.quoted, Sql.placeholdersFrom, placeholdersFrom_quoted, ih]

theorem nameBehind?_nameOf (n : Nat) (hrest : ∀ c ∈ rest.head?, ¬ c.isDigit) :
    nameBehind? ((nameOf n).toList ++ rest) = some (nameOf n) := by
  rw [toList_nameOf, List.cons_append, nameBehind?, takeWhile_toDigits n hrest]
  split
  · next hnil => exact absurd hnil Nat.toDigits_ne_nil
  · rw [ofList_toDigits]

/-- The name of a placeholder holds neither quotes nor colons. -/
theorem inert_nameOf (n : Nat) : Inert (nameOf n).toList := by
  rw [toList_nameOf]
  refine .cons (by decide) (by decide) (inert_of_forall fun c hc => ?_)
  have hdigit : c.isDigit := Nat.isDigit_of_mem_toDigits (by decide) (by decide) hc
  exact ⟨fun heq => by simp [heq] at hdigit, fun heq => by simp [heq] at hdigit⟩

/-- The placeholders that are found in a text are those of its pieces. -/
theorem Legible.placeholdersFrom (h : Legible p fragments) :
    placeholdersFrom false (spell fragments).toList = placeholderNames fragments := by
  induction h with
  | nil => rfl
  | words clear _ ih =>
    rw [toList_spell_cons, Fragment.text, clear.inert.placeholdersFrom, ih]
    rfl
  | @identifier name _ _ ih =>
    rw [toList_spell_cons, Fragment.text, (inert_escape name).placeholdersFrom, ih]
    rfl
  | @placeholder n value rest known halts legible ih =>
    have hname := nameBehind?_nameOf n (legible.no_digit halts)
    rw [toList_spell_cons, Fragment.text, String.toList_append, placeholderNames, ← ih]
    change Sql.placeholdersFrom false (':' :: ((nameOf n).toList ++ _)) = _
    rw [Sql.placeholdersFrom, hname, (inert_nameOf n).placeholdersFrom]
    rfl

/-! ## The placeholders of a query -/

/-- The names of the placeholders of an expression. -/
def SqlExpr.names (e : SqlExpr) : List String := placeholderNames e.fragments

theorem placeholderNames_append (xs ys : List Fragment) :
    placeholderNames (xs ++ ys) = placeholderNames xs ++ placeholderNames ys := by
  induction xs with
  | nil => rfl
  | cons x xs ih => cases x <;> simp [placeholderNames, ih]

theorem placeholderNames_separated (separator : String) (items : List (List Fragment)) :
    placeholderNames (separated separator items) = items.flatMap placeholderNames := by
  induction items with
  | nil => rfl
  | cons item rest ih =>
    cases rest with
    | nil => simp [separated]
    | cons next rest =>
      rw [List.flatMap_cons, ← ih]
      exact placeholderNames_append item (.words separator :: separated separator (next :: rest))

theorem SqlExpr.names_equal (left right : SqlExpr) :
    (SqlExpr.equal left right).names = left.names ++ right.names := by
  rw [names, fragments, placeholderNames_append]
  rfl

theorem SqlExpr.names_aggregate (function : Aggregate) (argument : SqlExpr) :
    (SqlExpr.aggregate function argument).names = argument.names := by
  rw [names, fragments, List.cons_append, placeholderNames, placeholderNames_append]
  exact List.append_nil _

theorem placeholderNames_entry (entry : SelectEntry) :
    placeholderNames entry.fragments = entry.expr.names := by
  rw [SelectEntry.fragments, placeholderNames_append]
  exact List.append_nil _

theorem placeholderNames_selectFragments (entries : Option (List SelectEntry)) :
    placeholderNames (selectFragments entries) = (entries.getD []).flatMap (·.expr.names) := by
  match entries with
  | none => rfl
  | some [] => rfl
  | some (entry :: rest) =>
    rw [selectFragments, placeholderNames_separated, List.flatMap_map]
    exact congrArg (List.flatMap · (entry :: rest)) (funext placeholderNames_entry)

/-- The placeholders of a query stand in its select list, its `FROM` clause and its conditions. -/
theorem Query.placeholderNames_fragments {q : Query} {source : Source} (h : q.source = some source) :
    placeholderNames (Query.fragments q) =
      (q.entries.getD []).flatMap (·.expr.names) ++
        placeholderNames (source.fragments (unitFragments q.units)) ++
          q.conditions.flatMap (·.names) := by
  obtain ⟨relation, entries, source', conditions, units, shape, projected⟩ := q
  obtain rfl : source' = some source := h
  rw [Query.fragments, queryOfFragments]
  cases conditions with
  | nil =>
    simp [queryFragments, placeholderNames, placeholderNames_append,
      placeholderNames_selectFragments]
  | cons e rest =>
    simp [queryFragments, placeholderNames, placeholderNames_append,
      placeholderNames_selectFragments, placeholderNames_separated, List.flatMap_map, SqlExpr.names]

/-! ## What is written of a relation -/

variable {a : Algebra} {root r : Relation} {n n' : Numbering} {q : Query} {columns : List SqlExpr}
  {source : Source} {units : List FromUnit} {u : FromUnit} {reads : Nat → SqlExpr → Prop}
  {p' : Placeholders} {e : SqlExpr} {expr : Expr Nat} {content : Nat → List Nat} {i : Nat}
  {w : Written}

theorem Placeholders.length_addAll (p : Placeholders) (values : List Value) :
    (p.addAll values).entries.length = p.entries.length + values.length := by
  rw [Placeholders.entries_addAll, List.length_append, List.length_mapIdx]

/-- In an expression stand its own literals and those of the columns that it reads. -/
theorem Fills.names_eq (h : Fills reads expr p e p')
    (hreads : ∀ i e, reads i e → e.names = (content i).map nameOf) :
    e.names = (expr.written content p.entries.length).map nameOf := by
  induction h with
  | column read => exact hreads _ _ read
  | literal => rfl
  | aliased _ ih => exact ih
  | equal left right ihl ihr =>
    rw [SqlExpr.names_equal, ihl, ihr, left.eq_addAll, Placeholders.length_addAll, Expr.written,
      List.map_append]
  | aggregate _ ih =>
    rw [SqlExpr.names_aggregate, ih]
    rfl

theorem FillsAll.names_eq {shown : List OutputColumn} {entries : List SelectEntry}
    (h : FillsAll reads shown p entries p')
    (hreads : ∀ i e, reads i e → e.names = (content i).map nameOf) :
    (entries.map (·.expr)).map (·.names) =
      (writtenShown content shown p.entries.length).map (·.map nameOf) := by
  induction h with
  | nil => rfl
  | cons head tail ih =>
    rw [List.map_cons, List.map_cons, ih, head.names_eq hreads, head.eq_addAll,
      Placeholders.length_addAll, writtenShown, List.map_cons]

/-- The placeholders of a query, by the clause that they stand in. -/
structure Query.Asks (q : Query) (columns : List SqlExpr) (w : Written) : Prop where
  columns : columns.map (·.names) = w.columns.map (·.map nameOf)
  source : ∃ source, q.source = some source ∧
    placeholderNames (source.fragments (unitFragments q.units)) = w.source.map nameOf
  filters : q.conditions.flatMap (·.names) = w.filters.map nameOf

theorem Query.Asks.column (h : q.Asks columns w) (hi : columns[i]? = some e) :
    e.names = (w.column i).map nameOf := by
  have hnames := congrArg (·[i]?) h.columns
  simp only [List.getElem?_map, hi, Option.map_some] at hnames
  obtain ⟨numbers, hnumbers, heq⟩ := Option.map_eq_some_iff.1 hnames.symm
  rw [Written.column, hnumbers, Option.getD_some, heq]

/-- A query without a select list shows columns as they are declared, where no literal stands. -/
theorem Compiles.names_entries (ha : a.Sound) (hr : r ∈ a.relations)
    (h : Compiles root r n q columns n') :
    (q.entries.getD []).flatMap (·.expr.names) = (columns.map (·.names)).flatten := by
  cases hentries : q.entries with
  | some entries =>
    rw [← h.entries_some hentries, List.map_map, ← List.flatMap_def]
    rfl
  | none =>
    obtain ⟨t, -, -, -, rfl⟩ := h.entries_none hr ha hentries
    rw [List.map_map]
    induction t.columns with
    | nil => rfl
    | cons c rest ih => exact ih

/-- What a query asks for, in the order of its text. -/
theorem Query.Asks.names_eq (h : q.Asks columns w) (ha : a.Sound) (hr : r ∈ a.relations)
    (hrules : Compiles root r n q columns n') :
    placeholderNames (Query.fragments q) = w.text.map nameOf := by
  obtain ⟨source, hsource, hnames⟩ := h.source
  rw [Query.placeholderNames_fragments hsource, hrules.names_entries ha hr, h.columns, hnames,
    h.filters, Written.text, List.map_append, List.map_append, List.map_flatten]

/-- A column of a join is written as a reference. -/
theorem Reads.names_eq {chain : List Relation} (h : Reads chain units r i e) : e.names = [] := by
  obtain ⟨u, -, j, hj⟩ := h.exists_unit
  obtain ⟨name, rfl⟩ := FromUnit.exists_name_of_column? hj
  rfl

/-- The placeholders in the query of a relation are those of the literals that are written, and so are
those in the `FROM` clause of the relation as the left operand of a join. -/
structure Asking (r : Relation) : Prop where
  whole : ∀ {root n q columns n'}, Compiles root r n q columns n' →
    q.Asks columns (r.written n.placeholders.entries.length)
  operand : ∀ {n source units n'}, Lays r n source units n' →
    placeholderNames (source.fragments (unitFragments units)) =
      (r.written n.placeholders.entries.length).text.map nameOf

/-- A unit asks for what its relation does as a whole query. -/
theorem Stands.names_of (ha : a.Sound) (hr : r ∈ a.relations) (h : Stands r n u n')
    (hwhole : ∀ {root n q columns n'}, Compiles root r n q columns n' →
      q.Asks columns (r.written n.placeholders.entries.length)) :
    placeholderNames u.fragments = (r.written n.placeholders.entries.length).text.map nameOf := by
  cases h with
  | @table t =>
    rw [text_written_table]
    rfl
  | @subquery _ _ _ q columns nested compiles =>
    have hnames := (hwhole compiles).names_eq ha hr compiles
    rw [FromUnit.fragments, List.cons_append, placeholderNames, placeholderNames_append]
    exact (List.append_nil _).trans hnames

/-- What is no join is a unit wherever it is not the whole query. -/
theorem asking_of_leaf (ha : a.Sound) (hr : r ∈ a.relations) (hleaf : r.joinChain = [])
    (hwhole : ∀ {root n q columns n'}, Compiles root r n q columns n' →
      q.Asks columns (r.written n.placeholders.entries.length)) : Asking r where
  whole := hwhole
  operand h := by
    cases h with
    | leaf _ stands => exact stands.names_of ha hr hwhole
    | join => cases hleaf

section

variable {id : Nat} {kind : JoinKind} {operand left right : Relation} {condition : Expr Nat}
  {whole : Option Table} {shown : List OutputColumn}

theorem table_asking (ha : a.Sound) {t : Table} (hr : Relation.table t ∈ a.relations) :
    Asking (.table t) := by
  refine asking_of_leaf ha hr rfl fun h => ?_
  cases h with
  | table =>
    refine ⟨?_, ⟨_, rfl, rfl⟩, rfl⟩
    rw [List.map_map, written, List.map_map]
    rfl

/-- The literals of the operand come before those of the relation. -/
theorem Compiles.length_placeholders {k : Nat} (h : Compiles root r n q columns ⟨k, p⟩) :
    p.entries.length = n.placeholders.entries.length + r.literals.length := by
  have hgiven : p = n.placeholders.addAll r.literals := h.gives.placeholders
  rw [hgiven, Placeholders.length_addAll]

theorem selection_asking (ha : a.Sound)
    (hr : Relation.selection id operand condition ∈ a.relations) (h : Asking operand) :
    Asking (.selection id operand condition) := by
  refine asking_of_leaf ha hr rfl fun hrules => ?_
  cases hrules with
  | selection compiles fills =>
    have hoperand := h.whole compiles
    refine ⟨hoperand.columns, hoperand.source, ?_⟩
    rw [List.flatMap_append, hoperand.filters, List.flatMap_singleton,
      fills.names_eq fun i e he => hoperand.column he, compiles.length_placeholders, written,
      List.map_append]

theorem projection_asking (ha : a.Sound)
    (hr : Relation.projection id operand whole shown ∈ a.relations) (h : Asking operand) :
    Asking (.projection id operand whole shown) := by
  refine asking_of_leaf ha hr rfl fun hrules => ?_
  cases hrules with
  | projection compiles fills =>
    have hoperand := h.whole compiles
    refine ⟨?_, ?_, ?_⟩
    · rw [fills.names_eq fun i e he => hoperand.column he, compiles.length_placeholders, written]
    · rw [Query.reshape_source, Query.reshape_units]
      exact hoperand.source
    · rw [Query.reshape_conditions]
      exact hoperand.filters

/-- In the `FROM` clause of a join the literals of the left operand come first, then those of the right
one and those of the condition. -/
theorem join_names (ha : a.Sound) (hr : Relation.join id kind left right condition ∈ a.relations)
    (hleft : Asking left) (hright : Asking right)
    (h : Lays (.join id kind left right condition) n source units n') :
    placeholderNames (source.fragments (unitFragments units)) =
      ((Relation.join id kind left right condition).written
        n.placeholders.entries.length).source.map nameOf := by
  cases h with
  | leaf leaf => cases leaf
  | @join _ _ _ _ _ _ n' source units u k p p' e lays stands fills =>
    have hmiddle : n'.placeholders = n.placeholders.addAll left.literals :=
      ((gives left).2 lays).placeholders
    have hbefore : p = n'.placeholders.addAll right.literals :=
      (stands.gives_of (gives right).1).placeholders
    have hunit := stands.names_of ha (ha.join_right hr).1 hright.whole
    have hcondition : e.names = (condition.written (fun _ => []) p.entries.length).map nameOf :=
      fills.names_eq fun i e he => he.names_eq
    rw [lays.fragments_join, List.append_assoc, placeholderNames_append, hleft.operand lays,
      List.cons_append, placeholderNames, placeholderNames_append, hunit, placeholderNames]
    change _ ++ (_ ++ e.names) = _
    rw [hcondition, hbefore, Placeholders.length_addAll, hmiddle, Placeholders.length_addAll,
      written, List.map_append, List.map_append, List.append_assoc]

theorem join_asking (ha : a.Sound) (hr : Relation.join id kind left right condition ∈ a.relations)
    (hleft : Asking left) (hright : Asking right) :
    Asking (.join id kind left right condition) where
  whole h := by
    have hlength := h.length
    obtain ⟨source, units, lays, rfl, hreads⟩ := h.join_cases ha hr
    refine ⟨?_, ⟨source, rfl, join_names ha hr hleft hright lays⟩, rfl⟩
    rw [written, List.map_replicate, List.eq_replicate_iff, List.length_map]
    refine ⟨hlength, fun names hnames => ?_⟩
    obtain ⟨e, he, rfl⟩ := List.mem_map.1 hnames
    obtain ⟨i, hi⟩ := List.getElem?_of_mem he
    exact (hreads i e hi).names_eq
  operand h := by rw [join_names ha hr hleft hright h, text_written_join]

end

/-- Every relation asks for the literals that are written of it. -/
theorem asking (ha : a.Sound) (hr : r ∈ a.relations) : Asking r := by
  induction r with
  | table t => exact table_asking ha hr
  | selection id operand condition ih =>
    exact selection_asking ha hr (ih (ha.selection_operand hr).1)
  | projection id operand whole shown ih =>
    exact projection_asking ha hr (ih (ha.projection_operand hr).1)
  | join id kind left right condition ihl ihr =>
    exact join_asking ha hr (ihl (ha.join_left hr).1) (ihr (ha.join_right hr).1)

/-! ## A column with a literal that a second projection leaves out -/

namespace LeftOut

open Sample (blogs)

/-- The number five beside the column of the blogs. -/
def numbered : Relation :=
  .projection 1 (.table blogs) none
    [⟨"five", some "five", .literal (.integer 5)⟩, ⟨"id", none, .column 0⟩]

/-- The column of the blogs alone. -/
def plain : Relation := .projection 2 numbered none [⟨"id", none, .column 1⟩]

/-- The relations of the session. -/
def algebra : Algebra := ⟨[.table blogs, numbered, plain]⟩

theorem reachable : algebra.Reachable := by
  refine .step (a := ⟨[.table blogs, numbered]⟩) (.project numbered [.expr (.column "id")])
    (.step (a := ⟨[.table blogs]⟩)
      (.project (.table blogs)
        [.expr (.aliased (.literal (.integer 5)) "five"), .expr (.column "id")])
      (.step (.createTable "blogs" [("id", .integer)]) .empty ?_) ?_) ?_
  all_goals decide

end LeftOut

/-! ## The main statement -/

/-- The names of the placeholders that have values. -/
def Placeholders.names (p : Placeholders) : List String := p.entries.map (·.1)

/-- A relation that a session built compiles to a text that asks for the values of the literals that are
written, in their order, and gets one value for each literal.  What it asks for it gets.  It asks for all
that it gets exactly if each column with a literal is shown or is read by what is written, and always does
if no query has two projections. -/
theorem compile_binding (h : a.Reachable) (hr : r ∈ a.relations) :
    ∃ c, compile r = .ok c ∧
      placeholdersIn c.sql = (r.written 0).text.map nameOf ∧
      c.placeholders.names = (r.numbers 0).map nameOf ∧
      (∀ name ∈ placeholdersIn c.sql, name ∈ c.placeholders.names) ∧
      ((∀ name ∈ c.placeholders.names, name ∈ placeholdersIn c.sql) ↔
        r.KeepsLiterals fun _ => True) ∧
      (r.ProjectsOnce → ∀ name ∈ c.placeholders.names, name ∈ placeholdersIn c.sql) := by
  have ha := h.sound
  obtain ⟨c, columns, k, hcompile, hrules⟩ := exists_compiles ha hr
  have htext : placeholdersIn c.sql = (r.written 0).text.map nameOf :=
    (hrules.legible ha hr).placeholdersFrom.trans
      (((asking ha hr).whole hrules).names_eq ha hr hrules)
  have hplaceholders : c.placeholders = Placeholders.empty.addAll r.literals :=
    hrules.gives.placeholders
  have hnames : c.placeholders.names = (r.numbers 0).map nameOf := by
    rw [hplaceholders, Placeholders.names, Placeholders.entries_addAll]
    refine List.ext_getElem (by simp [numbers, Placeholders.empty]) fun i hi hi' => ?_
    simp [numbers, Placeholders.empty, Nat.add_comm]
  have hall : (∀ name ∈ c.placeholders.names, name ∈ placeholdersIn c.sql) ↔
      r.KeepsLiterals fun _ => True := by
    rw [hnames, htext, ← forall_on_iff 0, List.forall_mem_map]
    refine forall₂_congr fun k _ => ?_
    rw [List.mem_map_of_injective fun _ _ => Placeholders.nameOf_inj, Written.mem_text]
  refine ⟨c, hcompile, htext, hnames, fun name hname => ?_, hall, fun honce => ?_⟩
  · rw [htext] at hname
    obtain ⟨k, hk, rfl⟩ := List.mem_map.1 hname
    rw [hnames]
    exact List.mem_map_of_mem (mem_numbers_of_on (Written.mem_text.1 hk))
  · exact hall.2 (honce.keepsLiterals fun _ _ => trivial)

/-- The number five has a value under `v1`, and the text does not ask for it. -/
theorem compile_binding_leftOut :
    ∃ c, compile LeftOut.plain = .ok c ∧ c.sql = "SELECT blogs.id AS id FROM blogs" ∧
      placeholdersIn c.sql = [] ∧ c.placeholders.names = ["v1"] ∧
      ¬ LeftOut.plain.KeepsLiterals fun _ => True := by
  obtain ⟨c, hcompile, htext, hnames, -, hall, -⟩ := compile_binding LeftOut.reachable
    (show LeftOut.plain ∈ LeftOut.algebra.relations by decide)
  have htext : placeholdersIn c.sql = [] := htext.trans (by decide)
  have hnames : c.placeholders.names = ["v1"] := hnames.trans (by decide)
  have hrun : (compile LeftOut.plain).map (·.sql) = .ok "SELECT blogs.id AS id FROM blogs" := by
    decide +kernel
  rw [hcompile] at hrun
  refine ⟨c, hcompile, Except.ok.inj hrun, htext, hnames, fun hkeeps => ?_⟩
  have hmem := hall.2 hkeeps "v1" (by rw [hnames]; exact List.mem_singleton_self _)
  rw [htext] at hmem
  cases hmem

end RelationalAlgebra.Sql
