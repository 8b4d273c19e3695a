import Mathlib.Data.Option.Basic
import RelationalAlgebra.Proofs.Enumeration
import RelationalAlgebra.Proofs.RenamedQueries

/-!
# Respelling finds the placeholders

`Placeholders.respell` goes over a finished text character by character.  The pieces the text was
put together from say what it should find there: `Style.write` spells the pieces with the
placeholders in another style, each numbered by its place among them.  The main statement is
`compile_respell`: both agree on the text of every relation.

* A piece that holds no placeholder is passed over as it stands (`Inert`).  Words hold neither
  quotes nor colons, and so does a name that is written as it is; a name that is not is between
  quotes, and the quotes within it are doubled, so that the scan is outside of quotes behind it
  (`inert_escape`).
* A placeholder is the letter v and digits, and ends where the digits end.  So no digit may follow:
  behind a placeholder come words or the end (`Halts`), and no words start with a digit.
* `Legible` says both of a list of pieces, and `Query.legible` that every query consists of such
  pieces.
-/

namespace RelationalAlgebra.Sql

open Placeholders (Style nameOf)

variable {p : Placeholders} {style : Style} {bound : Nat} {xs ys : List Char}
  {fragments fragments' : List Fragment} {q : Query}

/-! ## The pieces in another style -/

/-- The pieces in a style, where `bound` placeholders stand before.  A placeholder is a colon and its
name, a question mark, or a dollar sign and its number among the placeholders. -/
def Placeholders.Style.write (style : Style) : (bound : Nat) → List Fragment → List Char
  | _, [] => []
  | bound, .words text :: rest => text.toList ++ style.write bound rest
  | bound, .identifier name :: rest => (escape name).toList ++ style.write bound rest
  | bound, .placeholder name :: rest =>
    (match style with
      | .named => ":" ++ name
      | .question => "?"
      | .dollar => "$" ++ toString (bound + 1)).toList ++ style.write (bound + 1) rest

/-- The names of the placeholders, in the order of the text. -/
def placeholderNames : List Fragment → List String
  | [] => []
  | .words _ :: rest => placeholderNames rest
  | .identifier _ :: rest => placeholderNames rest
  | .placeholder name :: rest => name :: placeholderNames rest

theorem toList_spell_cons (fragment : Fragment) (rest : List Fragment) :
    (spell (fragment :: rest)).toList = fragment.text.toList ++ (spell rest).toList := by
  rw [spell, spell, List.map_cons, String.toList_join, String.toList_join, List.flatMap_cons]

/-- Respelling puts in for a placeholder what is to be written for it. -/
theorem write_placeholder (style : Style) (bound : Nat) (name : String) (rest : List Fragment) :
    style.write bound (.placeholder name :: rest) =
      style.spell name.toList (bound + 1) ++ style.write (bound + 1) rest := by
  cases style with
  | named =>
    rw [Style.write, String.toList_append]
    rfl
  | question =>
    rw [Style.write]
    rfl
  | dollar =>
    rw [Style.write, String.toList_append]
    rfl

/-- By name the pieces are spelled as they are. -/
theorem write_named (bound : Nat) (fragments : List Fragment) :
    Style.named.write bound fragments = (spell fragments).toList := by
  induction fragments generalizing bound with
  | nil => rfl
  | cons fragment rest ih =>
    rw [toList_spell_cons]
    cases fragment with
    | words text => rw [Style.write, ih, Fragment.text]
    | identifier name => rw [Style.write, ih, Fragment.text]
    | placeholder name =>
      rw [Style.write, ih, Fragment.text]

/-! ## Text without placeholders -/

/-- Text in which nothing is a placeholder: characters that are neither quotes nor colons, and names
between quotes. -/
inductive Inert : List Char → Prop
  | nil : Inert []
  | cons {c : Char} {rest : List Char} (quote : c ≠ '"') (colon : c ≠ ':') (inert : Inert rest) :
      Inert (c :: rest)
  | quoted (name : List Char) {rest : List Char} (inert : Inert rest) : Inert (quoted name ++ rest)

theorem Inert.append (h : Inert xs) (h' : Inert ys) : Inert (xs ++ ys) := by
  induction h with
  | nil => exact h'
  | cons quote colon _ ih => exact .cons quote colon ih
  | quoted name _ ih =>
    rw [List.append_assoc]
    exact .quoted name ih

theorem inert_of_forall (h : ∀ c ∈ xs, c ≠ '"' ∧ c ≠ ':') : Inert xs := by
  induction xs with
  | nil => exact .nil
  | cons c rest ih =>
    obtain ⟨hquote, hcolon⟩ := h c (List.mem_cons_self ..)
    exact .cons hquote hcolon (ih fun d hd => h d (List.mem_cons_of_mem _ hd))

/-- The characters that are written between names are not plain. -/
theorem isPlain_mark {c : Char} (h : c ∈ [' ', '"', '.', ':', '=', '(', ')']) :
    isPlain c = false := by
  have hmarks : [' ', '"', '.', ':', '=', '(', ')'].all (isPlain · == false) := by
    decide +kernel
  exact beq_iff_eq.1 (List.all_eq_true.1 hmarks c h)

/-- A name that needs no quotes is made of plain characters. -/
theorem isPlain_of_unquoted {name : List Char} (h : ¬ needsQuotes name) :
    ∀ c ∈ name, isPlain c := by
  simp only [needsQuotes, Bool.or_eq_true, Bool.not_eq_true, not_or] at h
  exact List.all_eq_true.1 (by simpa using h.1.2)

theorem inert_escapePart (name : List Char) : Inert (escapePart name) := by
  rw [escapePart]
  split
  · rw [← List.append_nil (quoted name)]
    exact .quoted name .nil
  · next hquotes =>
    refine inert_of_forall fun c hc => ?_
    have hc := isPlain_of_unquoted hquotes c hc
    constructor
    · rintro rfl
      rw [isPlain_mark (by decide)] at hc
      cases hc
    · rintro rfl
      rw [isPlain_mark (by decide)] at hc
      cases hc

theorem inert_joinDots {parts : List (List Char)} (h : ∀ part ∈ parts, Inert part) :
    Inert (joinDots parts) := by
  induction parts with
  | nil => exact .nil
  | cons part rest ih =>
    have hpart := h part (List.mem_cons_self ..)
    have hrest := ih fun other hother => h other (List.mem_cons_of_mem _ hother)
    cases rest with
    | nil => exact hpart
    | cons next rest => exact hpart.append (.cons (by decide) (by decide) hrest)

/-- There is no placeholder in a name as it is written, whatever it is. -/
theorem inert_escape (name : String) : Inert (escape name).toList := by
  rw [escape, String.toList_ofList, escapeChars]
  refine inert_joinDots fun part hpart => ?_
  obtain ⟨name, -, rfl⟩ := List.mem_map.1 hpart
  exact inert_escapePart name

/-- Within quotes everything is left as it stands, up to the quote that is not doubled. -/
theorem respellFrom_quoted (name rest : List Char) :
    p.respellFrom style true 0 bound (doubleQuotes name ++ '"' :: rest) =
      (p.respellFrom style false 0 bound rest).map (doubleQuotes name ++ '"' :: ·) id := by
  induction name with
  | nil => simp [doubleQuotes, Placeholders.respellFrom, Prod.map]
  | cons c name ih =>
    rw [doubleQuotes]
    split
    · simp [Placeholders.respellFrom, ih, Prod.map]
    · next hquote => simp_all [Placeholders.respellFrom, Prod.map]

/-- Text without placeholders is left as it stands, and the scan is outside of quotes behind it. -/
theorem Inert.respellFrom (h : Inert xs) (rest : List Char) :
    p.respellFrom style false 0 bound (xs ++ rest) =
      (p.respellFrom style false 0 bound rest).map (xs ++ ·) id := by
  induction h with
  | nil => rfl
  | cons quote colon _ ih =>
    rw [List.cons_append, Placeholders.respellFrom, ih]
    simp [quote, colon, Prod.map]
  | quoted name _ ih =>
    rw [List.append_assoc]
    simp [Sql.quoted, Placeholders.respellFrom, respellFrom_quoted, ih, Prod.map]

/-! ## Placeholders -/

/-- What is skipped is left out. -/
theorem respellFrom_skip (quoted : Bool) (xs rest : List Char) :
    p.respellFrom style quoted xs.length bound (xs ++ rest) =
      p.respellFrom style quoted 0 bound rest := by
  induction xs with
  | nil => rfl
  | cons c xs ih =>
    rw [List.length_cons, List.cons_append, Placeholders.respellFrom]
    exact ih

theorem toList_nameOf (n : Nat) : (nameOf n).toList = 'v' :: Nat.toDigits 10 n := by
  rw [nameOf, String.toList_append]
  exact congrArg ('v' :: ·) Nat.toList_repr

/-- The digits of a number end where no digit follows. -/
theorem takeWhile_toDigits (n : Nat) {rest : List Char} (hrest : ∀ c ∈ rest.head?, ¬ c.isDigit) :
    (Nat.toDigits 10 n ++ rest).takeWhile Char.isDigit = Nat.toDigits 10 n := by
  have hdigits : ∀ c ∈ Nat.toDigits 10 n, c.isDigit :=
    fun c hc => Nat.isDigit_of_mem_toDigits (by decide) (by decide) hc
  have hstop : rest.takeWhile Char.isDigit = [] := by
    cases rest with
    | nil => rfl
    | cons c rest => exact List.takeWhile_cons_of_neg (hrest c rfl)
  rw [List.takeWhile_append_of_pos hdigits, hstop, List.append_nil]

theorem ofList_toDigits (n : Nat) : String.ofList ('v' :: Nat.toDigits 10 n) = nameOf n := by
  rw [← toList_nameOf, String.ofList_toList]

/-- Behind a colon the name of a placeholder is recognised, if no digit follows. -/
theorem nameAt?_nameOf {n : Nat} {value : Value} {rest : List Char}
    (hknown : p.get? (nameOf n) = some value) (hrest : ∀ c ∈ rest.head?, ¬ c.isDigit) :
    p.nameAt? ((nameOf n).toList ++ rest) =
      some ((nameOf n).toList, value) := by
  rw [toList_nameOf, List.cons_append, Placeholders.nameAt?, takeWhile_toDigits n hrest]
  split
  · next hnil => exact absurd hnil Nat.toDigits_ne_nil
  · rw [ofList_toDigits, hknown, Option.map_some]

/-- A placeholder is respelled. -/
theorem respellFrom_placeholder {n : Nat} {value : Value} {rest : List Char}
    (hknown : p.get? (nameOf n) = some value) (hrest : ∀ c ∈ rest.head?, ¬ c.isDigit) :
    p.respellFrom style false 0 bound (':' :: ((nameOf n).toList ++ rest)) =
      (p.respellFrom style false 0 (bound + 1) rest).map
        (style.spell (nameOf n).toList (bound + 1) ++ ·) (value :: ·) := by
  have hcolon : (':' == '"') = false := by decide
  rw [Placeholders.respellFrom]
  simp [hcolon, nameAt?_nameOf hknown hrest, respellFrom_skip, Prod.map]

/-! ## Lists of pieces -/

/-- Words that hold no quote, no colon and no digit, and are not empty. -/
def ClearWords (text : String) : Prop :=
  text.toList ≠ [] ∧ ∀ c ∈ text.toList, c ≠ '"' ∧ c ≠ ':' ∧ ¬ c.isDigit

instance (text : String) : Decidable (ClearWords text) :=
  decidable_of_iff
    (text.toList ≠ [] ∧ text.toList.all (fun c => c ≠ '"' ∧ c ≠ ':' ∧ ¬ c.isDigit) = true)
    (by simp [ClearWords])

theorem ClearWords.inert {text : String} (h : ClearWords text) : Inert text.toList :=
  inert_of_forall fun c hc => ⟨(h.2 c hc).1, (h.2 c hc).2.1⟩

/-- The list is over or goes on with words. -/
def Halts (fragments : List Fragment) : Prop :=
  fragments = [] ∨ ∃ text rest, fragments = .words text :: rest

/-- Pieces whose placeholders are recognised: each has a value, and words come between it and the
next one. -/
inductive Legible (p : Placeholders) : List Fragment → Prop
  | nil : Legible p []
  | words {text : String} {rest : List Fragment} (clear : ClearWords text)
      (legible : Legible p rest) : Legible p (.words text :: rest)
  | identifier {name : String} {rest : List Fragment} (legible : Legible p rest) :
      Legible p (.identifier name :: rest)
  | placeholder {n : Nat} {value : Value} {rest : List Fragment}
      (known : p.get? (nameOf n) = some value) (halts : Halts rest)
      (legible : Legible p rest) : Legible p (.placeholder (nameOf n) :: rest)

theorem halts_words (text : String) (rest : List Fragment) : Halts (.words text :: rest) :=
  .inr ⟨text, rest, rfl⟩

theorem Halts.append (h : Halts fragments) (h' : Halts fragments') :
    Halts (fragments ++ fragments') := by
  rcases h with rfl | ⟨text, rest, rfl⟩
  · exact h'
  · exact halts_words text _

theorem Legible.append (h : Legible p fragments) (h' : Legible p fragments')
    (hhalts : Halts fragments') : Legible p (fragments ++ fragments') := by
  induction h with
  | nil => exact h'
  | words clear _ ih => exact .words clear ih
  | identifier _ ih => exact .identifier ih
  | placeholder known halts _ ih => exact .placeholder known (halts.append hhalts) ih

/-- No digit comes next. -/
theorem Legible.no_digit (h : Legible p fragments) (hhalts : Halts fragments) :
    ∀ c ∈ (spell fragments).toList.head?, ¬ c.isDigit := by
  rcases hhalts with rfl | ⟨text, rest, rfl⟩
  · intro c hc
    cases hc
  · cases h with
    | words clear _ =>
      obtain ⟨hne, hclear⟩ := clear
      intro c hc
      rw [toList_spell_cons, Fragment.text, List.head?_append_of_ne_nil _ hne] at hc
      exact (hclear c (List.mem_of_mem_head? hc)).2.2

/-- The placeholders are respelled, each by its place among them, and their values are listed. -/
theorem Legible.respellFrom (h : Legible p fragments) {values : List Value}
    (hvalues : (placeholderNames fragments).map p.get? = values.map some) :
    p.respellFrom style false 0 bound (spell fragments).toList =
      (style.write bound fragments, values) := by
  induction h generalizing bound values with
  | nil =>
    obtain rfl : values = [] := by simpa [placeholderNames] using hvalues
    rfl
  | words clear _ ih =>
    rw [toList_spell_cons, Fragment.text, clear.inert.respellFrom, ih hvalues]
    rfl
  | @identifier name _ _ ih =>
    rw [toList_spell_cons, Fragment.text, (inert_escape name).respellFrom, ih hvalues]
    rfl
  | @placeholder n value rest known halts legible ih =>
    rw [placeholderNames, List.map_cons, known] at hvalues
    obtain ⟨value, values, rfl, hvalue, hrest⟩ := List.map_eq_cons_iff.1 hvalues.symm
    obtain rfl := Option.some.inj hvalue
    rw [toList_spell_cons, Fragment.text, String.toList_append]
    refine (respellFrom_placeholder known (legible.no_digit halts)).trans ?_
    rw [ih hrest.symm, write_placeholder]
    rfl

/-- All placeholders have values. -/
theorem Legible.exists_values (h : Legible p fragments) :
    ∃ values : List Value, (placeholderNames fragments).map p.get? = values.map some := by
  induction h with
  | nil => exact ⟨[], rfl⟩
  | words _ _ ih => exact ih
  | identifier _ ih => exact ih
  | @placeholder n value rest known _ _ ih =>
    obtain ⟨values, hvalues⟩ := ih
    refine ⟨value :: values, ?_⟩
    rw [placeholderNames, List.map_cons, known, List.map_cons, hvalues]

/-! ## Queries -/

/-- An expression whose placeholders have values is legible. -/
theorem legible_of_fillIn (hp : p.Numbered) {e : SqlExpr} {x : Expr Unit}
    (he : p.fillIn e = some x) : Legible p e.fragments := by
  induction e generalizing x with
  | column c => exact .identifier (.words (by decide) (.identifier .nil))
  | placeholder name =>
    obtain ⟨value, hvalue, -⟩ := Option.map_eq_some_iff.1 he
    obtain ⟨n, rfl⟩ := hp.exists_nameOf hvalue
    exact .placeholder hvalue (.inl rfl) .nil
  | equal left right ihl ihr =>
    obtain ⟨l, hl, he⟩ := Option.bind_eq_some_iff.1 he
    obtain ⟨r, hr, -⟩ := Option.bind_eq_some_iff.1 he
    exact (ihl hl).append (.words (by decide) (ihr hr)) (halts_words ..)
  | aggregate function argument ih =>
    obtain ⟨y, hy, -⟩ := Option.map_eq_some_iff.1 he
    refine .words ?_ ((ih hy).append (.words (by decide) .nil) (halts_words ..))
    cases function <;> decide

theorem legible_separated {separator : String} (hclear : ClearWords separator)
    {items : List (List Fragment)} (h : ∀ item ∈ items, Legible p item) :
    Legible p (separated separator items) := by
  induction items with
  | nil => exact .nil
  | cons item rest ih =>
    have hitem := h item (List.mem_cons_self ..)
    have hrest := ih fun other hother => h other (List.mem_cons_of_mem _ hother)
    cases rest with
    | nil => exact hitem
    | cons next rest => exact hitem.append (.words hclear hrest) (halts_words ..)

theorem legible_selectFragments {entries : Option (List SelectEntry)}
    (h : ∀ entry ∈ entries.getD [], Legible p entry.expr.fragments) :
    Legible p (selectFragments entries) := by
  have hentry : ∀ entry ∈ entries.getD [], Legible p entry.fragments := fun entry hmem =>
    (h entry hmem).append (.words (by decide) (.identifier .nil)) (halts_words ..)
  match entries with
  | none => exact .words (by decide) .nil
  | some [] => exact .words (by decide) .nil
  | some (e :: rest) =>
    refine legible_separated (by decide) fun item hitem => ?_
    obtain ⟨entry, hmem, rfl⟩ := List.mem_map.1 hitem
    exact hentry entry hmem

theorem legible_place {units : List (List Fragment)} (h : ∀ unit ∈ units, Legible p unit)
    (place : Nat) : Legible p (units[place]?.getD []) := by
  cases hunit : units[place]? with
  | none => exact .nil
  | some unit => exact h unit (List.mem_of_getElem? hunit)

theorem Source.legible {units : List (List Fragment)} {source : Source}
    (hunits : ∀ unit ∈ units, Legible p unit)
    (h : ∀ condition ∈ source.conditions, Legible p condition.fragments) :
    Legible p (source.fragments units) := by
  induction source with
  | unit place => exact legible_place hunits place
  | join kind left right condition ih =>
    have hleft := ih fun other hother => h other (List.mem_append_left _ hother)
    have hcondition := h condition (List.mem_append_right _ (List.mem_singleton_self _))
    have hright := (legible_place hunits right).append (.words (by decide) hcondition)
      (halts_words " ON " _)
    have hkind : ClearWords (" " ++ kind.sqlName ++ " ") := by cases kind <;> decide
    have hall := hleft.append (.words hkind hright) (halts_words ..)
    simpa [Source.fragments] using hall

theorem legible_queryFragments {entries : Option (List SelectEntry)} {source : Option Source}
    {conditions : List SqlExpr} {units : List (List Fragment)}
    (hentries : ∀ entry ∈ entries.getD [], Legible p entry.expr.fragments)
    (hsource : ∀ condition ∈ source.elim [] (·.conditions), Legible p condition.fragments)
    (hconditions : ∀ condition ∈ conditions, Legible p condition.fragments)
    (hunits : ∀ unit ∈ units, Legible p unit) :
    Legible p (queryFragments entries source conditions units) := by
  have hselect := legible_selectFragments hentries
  unfold queryFragments
  refine .words (by decide) ((hselect.append ?_ ?_).append ?_ ?_)
  · cases source with
    | none => exact .nil
    | some source => exact .words (by decide) (Source.legible hunits hsource)
  · cases source with
    | none => exact .inl rfl
    | some source => exact halts_words ..
  · cases conditions with
    | nil => exact .nil
    | cons c rest =>
      refine .words (by decide) (legible_separated (by decide) fun item hitem => ?_)
      obtain ⟨condition, hmem, rfl⟩ := List.mem_map.1 hitem
      exact hconditions condition hmem
  · cases conditions with
    | nil => exact .inl rfl
    | cons c rest => exact halts_words ..

/-- Induction over queries, where a query comes after its subqueries. -/
theorem Query.nestedInduction {motive : Query → Prop}
    (step : ∀ q : Query, (∀ relation label exposed inner,
      FromUnit.subquery relation label exposed inner ∈ q.units → motive inner) → motive q)
    (q : Query) : motive q :=
  step q fun relation label exposed inner hmem => by
    have hunit := List.sizeOf_lt_of_mem hmem
    exact nestedInduction step inner
termination_by sizeOf q
decreasing_by
  obtain ⟨_, _, _, _, units, _, _⟩ := q
  simp only [FromUnit.subquery.sizeOf_spec] at hunit
  simp only [QueryOf.mk.sizeOf_spec]
  omega

/-- Every query is legible if its expressions are, and those of its subqueries. -/
theorem Query.legible (q : Query)
    (h : ∀ s, Within q s → ∀ e ∈ s.expressions, Legible p e.fragments) :
    Legible p (Query.fragments q) := by
  induction q using Query.nestedInduction with
  | step q ih =>
    have hself := h q .self
    obtain ⟨relation, entries, source, conditions, units, shape, projected⟩ := q
    refine legible_queryFragments (fun entry hentry => ?_) (fun condition hcondition => ?_)
      (fun condition hcondition => ?_) fun unit hunit => ?_
    · exact hself _ (List.mem_append_left _ (List.mem_map_of_mem hentry))
    · exact hself _ (List.mem_append_right _ (List.mem_append_left _ hcondition))
    · exact hself _ (List.mem_append_right _ (List.mem_append_right _ hcondition))
    · rw [unitFragments_eq_map] at hunit
      obtain ⟨u, hu, rfl⟩ := List.mem_map.1 hunit
      cases u with
      | table t => exact .identifier .nil
      | subquery relation label exposed inner =>
        have hinner := ih relation label exposed inner hu fun s hs => h s (.unit hu hs)
        exact .words (by decide)
          (hinner.append (.words (by decide) (.identifier .nil)) (halts_words ..))

variable {a : Algebra} {r : Relation}

/-- The query of a relation is legible, since its expressions are filled in. -/
theorem Compiles.legible {columns : List SqlExpr} {n' : Numbering} (ha : a.Sound)
    (hr : r ∈ a.relations) (h : Compiles r r ⟨0, .empty⟩ q columns n') :
    Legible n'.placeholders (Query.fragments q) := by
  refine Query.legible q fun s hs e he => ?_
  obtain ⟨x, hx⟩ := (h.bears_within ha hr hs).exists_fillIn he
  exact legible_of_fillIn (h.upto.placeholders.numbered Placeholders.numbered_empty) hx

/-! ## Names that look like placeholders -/

namespace Disguised

/-- A table whose name holds a quote and the text of a placeholder, as does that of its column. -/
def table : Table := ⟨0, "\":v1", [⟨"a.:v1", .integer⟩]⟩

/-- A selection on the table. -/
def first : Relation := .selection 1 (.table table) (.equal (.column 0) (.literal (.integer 5)))

/-- The number seven in front of the column, under the name of a placeholder. -/
def marked : Relation :=
  .projection 2 first none
    [⟨":v1", some ":v1", .literal (.integer 7)⟩, ⟨"a.:v1", none, .column 0⟩]

/-- The relations of the session. -/
def algebra : Algebra := ⟨[.table table, first, marked]⟩

theorem reachable : algebra.Reachable := by
  refine .step (a := ⟨[.table table, first]⟩)
    (.project first [.expr (.aliased (.literal (.integer 7)) ":v1"), .expr (.column "a.:v1")])
    (.step (a := ⟨[.table table]⟩)
      (.select (.table table) (.pairs [("a.:v1", .literal (.integer 5))]))
      (.step (.createTable "\":v1" [("a.:v1", .integer)]) .empty ?_) ?_) ?_
  all_goals decide

/-- The pieces of its query. -/
def pieces : List Fragment :=
  [.words "SELECT ", .placeholder "v2", .words " AS ", .identifier ":v1", .words ", ",
    .identifier "\":v1", .words ".", .identifier "a.:v1", .words " AS ", .identifier "a.:v1",
    .words " FROM ", .identifier "\":v1", .words " WHERE ", .identifier "\":v1", .words ".",
    .identifier "a.:v1", .words " = ", .placeholder "v1"]

end Disguised

/-! ## The main statement -/

/-- A relation that a session built compiles, whatever the names of its tables, columns and aliases.
In every style, respelling the text of the query gives its pieces with the placeholders respelled,
each by its place among them, and the values of these placeholders in the same order.  By name the
text stays as it is. -/
theorem compile_respell (h : a.Reachable) (hr : r ∈ a.relations) :
    ∃ c values, compile r = .ok c ∧
      (placeholderNames (Query.fragments c.query)).map c.placeholders.get? =
        List.map some values ∧
      (∀ style : Style, c.placeholders.respell style c.sql =
        (String.ofList (style.write 0 (Query.fragments c.query)), values)) ∧
      c.placeholders.respell .named c.sql = (c.sql, values) := by
  obtain ⟨c, columns, k, hcompile, hrules⟩ := exists_compiles h.sound hr
  have hlegible := hrules.legible h.sound hr
  obtain ⟨values, hvalues⟩ := hlegible.exists_values
  have hrespell : ∀ style : Style, c.placeholders.respell style c.sql =
      (String.ofList (style.write 0 (Query.fragments c.query)), values) := by
    intro style
    rw [Placeholders.respell, Compiled.sql, Query.sql, hlegible.respellFrom hvalues]
  refine ⟨c, values, hcompile, hvalues, hrespell, ?_⟩
  rw [hrespell, write_named, String.ofList_toList, Compiled.sql, Query.sql]

/-- In names that look like placeholders nothing is respelled.  The placeholders around them have the
numbers of their order in the text, in which the one that was given out last comes first. -/
theorem compile_respell_disguised :
    ∃ c, compile Disguised.marked = .ok c ∧
      c.sql = "SELECT :v2 AS \":v1\", \"\"\":v1\".a.\":v1\" AS a.\":v1\" FROM \"\"\":v1\" " ++
        "WHERE \"\"\":v1\".a.\":v1\" = :v1" ∧
      c.placeholders.respell .dollar c.sql =
        ("SELECT $1 AS \":v1\", \"\"\":v1\".a.\":v1\" AS a.\":v1\" FROM \"\"\":v1\" " ++
          "WHERE \"\"\":v1\".a.\":v1\" = $2", [.integer 7, .integer 5]) ∧
      c.placeholders.respell .question c.sql =
        ("SELECT ? AS \":v1\", \"\"\":v1\".a.\":v1\" AS a.\":v1\" FROM \"\"\":v1\" " ++
          "WHERE \"\"\":v1\".a.\":v1\" = ?", [.integer 7, .integer 5]) ∧
      c.placeholders.respell .named c.sql = (c.sql, [.integer 7, .integer 5]) := by
  obtain ⟨c, values, hcompile, hvalues, hrespell, hnamed⟩ := compile_respell Disguised.reachable
    (show Disguised.marked ∈ Disguised.algebra.relations by decide)
  have hrun : (compile Disguised.marked).map (fun c => (Query.fragments c.query, c.placeholders)) =
      .ok (Disguised.pieces, ⟨[("v1", .integer 5), ("v2", .integer 7)]⟩) := by
    decide +kernel
  rw [hcompile] at hrun
  obtain ⟨hfragments, hplaceholders⟩ := Prod.mk.inj (Except.ok.inj hrun)
  obtain rfl : [.integer 7, .integer 5] = values := by
    rw [hfragments, hplaceholders] at hvalues
    exact List.map_injective_iff.2 (Option.some_injective Value) hvalues
  refine ⟨c, hcompile, ?_, ?_, ?_, hnamed⟩
  · rw [Compiled.sql, Query.sql, hfragments]
    decide +kernel
  · rw [hrespell, hfragments]
    decide +kernel
  · rw [hrespell, hfragments]
    decide +kernel

end RelationalAlgebra.Sql
