import RelationalAlgebra.Proofs.Respelling

/-!
# Reading an expression back

`read` takes the text of an expression apart again, as SQL does: an equals sign takes everything to
its left as its left operand, up to the bracket that is still open.  It is made of two steps.

* `lex` takes characters together to words, quoted names and symbols.
* `parse` goes over these from left to right with the operand it has read so far, and with a stack
  of what stood in front of each open bracket.

A word that would have to be quoted is no name.  Whether a qualifier is the name of a table or the
label of a subquery is not in the text, so what is read refers by name (`SqlExpr.byName`).

The main statement is `read_text`: reading an expression gives its operands in their order, with the
equalities grouped from the left (`SqlExpr.regrouped`).  That is the expression itself if and only
if no equality is the right side of an equality (`regrouped_eq_self_iff`).
-/

namespace RelationalAlgebra.Sql

/-! ## From characters to tokens -/

/-- The words and symbols of an expression. -/
inductive Token where
  /-- Letters, numbers and underscores. -/
  | word (text : List Char)
  /-- What stands between double quotes, where a doubled quote is one. -/
  | quoted (text : List Char)
  | colon
  | dot
  | equals
  | opening
  | closing
  deriving DecidableEq, Repr

/-- Where the reader stands between two characters. -/
inductive Mode where
  | between
  | word (text : List Char)
  | quoted (text : List Char)
  /-- Behind a quote, which ends the name unless another one follows. -/
  | unquoted (text : List Char)

/-- The characters that stand for themselves. -/
def symbol? : Char → Option Token
  | ':' => some .colon
  | '.' => some .dot
  | '=' => some .equals
  | '(' => some .opening
  | ')' => some .closing
  | _ => none

/-- Starts a new token at a character, given how the rest is read. -/
def begin (next : Mode → Option (List Token)) (c : Char) : Option (List Token) :=
  if c == ' ' then next .between
  else if c == '"' then next (.quoted [])
  else if isPlain c then next (.word [c])
  else (symbol? c).bind fun token => (next .between).map (token :: ·)

/-- The tokens of a text. -/
def lex : List Char → Mode → Option (List Token)
  | [], .between => some []
  | [], .word text => some [.word text]
  | [], .quoted _ => none
  | [], .unquoted text => some [.quoted text]
  | c :: rest, .between => begin (lex rest) c
  | c :: rest, .word text =>
    if isPlain c then lex rest (.word (text ++ [c]))
    else (begin (lex rest) c).map (.word text :: ·)
  | c :: rest, .quoted text =>
    if c == '"' then lex rest (.unquoted text) else lex rest (.quoted (text ++ [c]))
  | c :: rest, .unquoted text =>
    if c == '"' then lex rest (.quoted (text ++ [c]))
    else (begin (lex rest) c).map (.quoted text :: ·)

/-! ## From tokens to expressions -/

/-- The name that a token is. -/
def Token.name? : Token → Option String
  | .word text => if needsQuotes text then none else some (String.ofList text)
  | .quoted text => some (String.ofList text)
  | _ => none

/-- The function that a word is the name of. -/
def function? (text : List Char) : Option Aggregate :=
  [Aggregate.count, .sum, .avg, .min, .max].find? (·.sqlName.toList == text)

/-- An operand behind an equals sign, if there is one, makes an equality. -/
def attach : Option SqlExpr → SqlExpr → SqlExpr
  | none, e => e
  | some left, e => .equal left e

/-- What comes next. -/
inductive Position where
  /-- An operand, which is the right one of an equality if there is a left one. -/
  | operand (left : Option SqlExpr)
  /-- An equals sign, a closing bracket or the end, behind an expression. -/
  | operator (expr : SqlExpr)

/-- Reads tokens, with what stands in front of each open bracket: the left operand of an equality,
if there is one, and the function that is applied. -/
def parse : List Token → Position → List (Option SqlExpr × Aggregate) → Option SqlExpr
  | [], .operator e, [] => some e
  | .equals :: rest, .operator e, stack => parse rest (.operand (some e)) stack
  | .closing :: rest, .operator e, (left, function) :: stack =>
    parse rest (.operator (attach left (.aggregate function e))) stack
  | .word text :: .opening :: rest, .operand left, stack =>
    (function? text).bind fun function => parse rest (.operand none) ((left, function) :: stack)
  | .colon :: .word text :: rest, .operand left, stack =>
    parse rest (.operator (attach left (.placeholder (String.ofList text)))) stack
  | qualifier :: .dot :: column :: rest, .operand left, stack =>
    qualifier.name?.bind fun qualifier => column.name?.bind fun column =>
      parse rest (.operator (attach left (.column ⟨.table qualifier, column⟩))) stack
  | _, _, _ => none

/-- The expression that a text denotes. -/
def read (text : String) : Option SqlExpr :=
  (lex text.toList .between).bind fun tokens => parse tokens (.operand none) []

/-! ## What is read -/

namespace SqlExpr

/-- The expression with nothing but names for qualifiers. -/
def byName : SqlExpr → SqlExpr
  | .column c => .column ⟨.table c.qualifier.name, c.name⟩
  | .placeholder name => .placeholder name
  | .equal left right => .equal left.byName right.byName
  | .aggregate function argument => .aggregate function argument.byName

/-- The expression behind an equals sign, if there is a left operand: each of its operands in a row
becomes the right operand of everything before it. -/
def behind : SqlExpr → Option SqlExpr → SqlExpr
  | .equal left right, before => right.behind (some (left.behind before))
  | .aggregate function argument, before =>
    attach before (.aggregate function (argument.behind none))
  | .column c, before => attach before (.column c)
  | .placeholder name, before => attach before (.placeholder name)

/-- The expression with equalities in a row grouped from the left. -/
def regrouped (e : SqlExpr) : SqlExpr := e.behind none

/-- No equality is the right side of an equality. -/
def LeftNested : SqlExpr → Prop
  | .column _ => True
  | .placeholder _ => True
  | .equal left right => left.LeftNested ∧ right.LeftNested ∧ ∀ x y, right ≠ .equal x y
  | .aggregate _ argument => argument.LeftNested

variable {e : SqlExpr} {before : Option SqlExpr}

/-- Whatever is grouped from the left has no equality on the right side of one. -/
theorem leftNested_behind (h : ∀ left ∈ before, left.LeftNested) :
    (e.behind before).LeftNested := by
  have hattach : ∀ {before : Option SqlExpr} {e : SqlExpr}, (∀ left ∈ before, left.LeftNested) →
      e.LeftNested → (∀ x y, e ≠ .equal x y) → (attach before e).LeftNested := by
    intro before e hbefore he hatom
    cases before with
    | none => exact he
    | some left => exact ⟨hbefore left rfl, he, hatom⟩
  induction e generalizing before with
  | column c => exact hattach h trivial fun _ _ => by simp
  | placeholder name => exact hattach h trivial fun _ _ => by simp
  | equal left right ihl ihr =>
    refine ihr fun x hx => ?_
    rw [Option.mem_def, Option.some.injEq] at hx
    exact hx ▸ ihl h
  | aggregate function argument ih =>
    have hargument : (argument.behind none).LeftNested := ih fun _ hx => by cases hx
    exact hattach h hargument fun _ _ => by simp

/-- An expression without such equalities is left as it is, and if it is no equality it becomes a
right operand. -/
theorem LeftNested.behind_eq (h : e.LeftNested) :
    e.behind none = e ∧
      ((∀ x y, e ≠ .equal x y) → ∀ before, e.behind before = attach before e) := by
  induction e with
  | column c => exact ⟨rfl, fun _ _ => rfl⟩
  | placeholder name => exact ⟨rfl, fun _ _ => rfl⟩
  | equal left right ihl ihr =>
    obtain ⟨hl, hr, hatom⟩ := h
    refine ⟨?_, fun hequal => absurd rfl (hequal left right)⟩
    rw [behind, (ihl hl).1, (ihr hr).2 hatom]
    rfl
  | aggregate function argument ih =>
    obtain ⟨hargument, -⟩ := ih h
    have hbehind : ∀ before, (aggregate function argument).behind before =
        attach before (.aggregate function argument) := by
      intro before
      rw [behind, hargument]
    exact ⟨hbehind none, fun _ => hbehind⟩

/-- Grouping from the left changes nothing exactly if no equality is the right side of one. -/
theorem regrouped_eq_self_iff : e.regrouped = e ↔ e.LeftNested := by
  constructor
  · intro h
    rw [← h]
    exact leftNested_behind fun _ hx => by cases hx
  · exact fun h => h.behind_eq.1

theorem leftNested_byName : e.byName.LeftNested ↔ e.LeftNested := by
  induction e with
  | column c => exact Iff.rfl
  | placeholder name => exact Iff.rfl
  | equal left right ihl ihr =>
    refine and_congr ihl (and_congr ihr ?_)
    cases right with
    | column c => simp [byName]
    | placeholder name => simp [byName]
    | equal left right => simp [byName]
    | aggregate function argument => simp [byName]
  | aggregate function argument ih => exact ih

end SqlExpr

/-! ## Names -/

/-- A name that is written as one name: it is not empty and has no dots. -/
def OneName (name : String) : Prop := name.toList ≠ [] ∧ '.' ∉ name.toList

instance (name : String) : Decidable (OneName name) := by
  unfold OneName
  infer_instance

/-- The token of a name. -/
def nameToken (name : String) : Token :=
  if needsQuotes name.toList then .quoted name.toList else .word name.toList

theorem name?_nameToken (name : String) : (nameToken name).name? = some name := by
  rw [nameToken]
  split
  · rw [Token.name?, String.ofList_toList]
  · next hquotes => rw [Token.name?, if_neg hquotes, String.ofList_toList]

theorem dotParts_of_not_mem {name : List Char} (h : '.' ∉ name) : dotParts name = [name] := by
  induction name with
  | nil => rfl
  | cons c rest ih =>
    rw [List.mem_cons, not_or] at h
    have hdot : (c == '.') = false := by simpa using Ne.symm h.1
    rw [dotParts, hdot, ih h.2]
    rfl

/-- One name is written as one. -/
theorem OneName.toList_escape {name : String} (h : OneName name) :
    (escape name).toList = escapePart name.toList := by
  rw [escape, String.toList_ofList, escapeChars, dotParts_of_not_mem h.2]
  rfl

/-- No word goes on, and no quotation. -/
def Delimits (rest : List Char) : Prop := ∀ c ∈ rest.head?, isPlain c = false ∧ c ≠ '"'

variable {xs rest text : List Char} {name : String} {e : SqlExpr}

/-- A word ends where no word goes on. -/
theorem lex_word (hxs : ∀ c ∈ xs, isPlain c) (hrest : Delimits rest) :
    lex (xs ++ rest) (.word text) = (lex rest .between).map (.word (text ++ xs) :: ·) := by
  induction xs generalizing text with
  | nil =>
    cases rest with
    | nil => simp [lex]
    | cons c rest => simp [lex, (hrest c rfl).1]
  | cons c xs ih =>
    rw [List.cons_append, lex, if_pos (hxs c (List.mem_cons_self ..)),
      ih fun d hd => hxs d (List.mem_cons_of_mem _ hd), List.append_assoc]
    rfl

/-- What is between quotes is read up to the quote that is not doubled. -/
theorem lex_quoted (name : List Char) (hrest : Delimits rest) :
    lex (doubleQuotes name ++ '"' :: rest) (.quoted text) =
      (lex rest .between).map (.quoted (text ++ name) :: ·) := by
  induction name generalizing text with
  | nil =>
    cases rest with
    | nil => simp [doubleQuotes, lex]
    | cons c rest => simp [doubleQuotes, lex, (hrest c rfl).2]
  | cons c name ih =>
    rw [doubleQuotes]
    split
    · next hquote =>
      rw [beq_iff_eq] at hquote
      simp [lex, ih, hquote]
    · next hquote => simp_all [lex]

theorem isPlain_ne {c : Char} (h : isPlain c) : c ≠ ' ' ∧ c ≠ '"' := by
  constructor
  · rintro rfl
    rw [isPlain_mark (by decide)] at h
    cases h
  · rintro rfl
    rw [isPlain_mark (by decide)] at h
    cases h

/-- Plain characters are a word. -/
theorem lex_plain (hne : xs ≠ []) (hxs : ∀ c ∈ xs, isPlain c) (hrest : Delimits rest) :
    lex (xs ++ rest) .between = (lex rest .between).map (.word xs :: ·) := by
  cases xs with
  | nil => exact absurd rfl hne
  | cons c xs =>
    have hc := hxs c (List.mem_cons_self ..)
    obtain ⟨hspace, hquote⟩ := isPlain_ne hc
    have hword : lex (xs ++ rest) (.word [c]) =
        (lex rest .between).map (.word ([c] ++ xs) :: ·) :=
      lex_word (fun d hd => hxs d (List.mem_cons_of_mem _ hd)) hrest
    simpa [lex, begin, hc, hspace, hquote] using hword

/-- A name is read as it was written. -/
theorem lex_escape (hname : OneName name) (hrest : Delimits rest) :
    lex ((escape name).toList ++ rest) .between =
      (lex rest .between).map (nameToken name :: ·) := by
  rw [hname.toList_escape, escapePart, nameToken]
  split
  · have hquoted : lex (doubleQuotes name.toList ++ '"' :: rest) (.quoted []) =
        (lex rest .between).map (.quoted ([] ++ name.toList) :: ·) := lex_quoted _ hrest
    simpa [quoted, lex, begin] using hquoted
  · next hquotes => exact lex_plain hname.1 (isPlain_of_unquoted hquotes) hrest

/-! ## Expressions -/

/-- The names in the expression are written as one name each, and the placeholders are numbered. -/
def SqlExpr.Plain : SqlExpr → Prop
  | .column c => OneName c.qualifier.name ∧ OneName c.name
  | .placeholder name => ∃ n, name = Placeholders.nameOf n
  | .equal left right => left.Plain ∧ right.Plain
  | .aggregate _ argument => argument.Plain

/-- The tokens of an expression. -/
def SqlExpr.tokens : SqlExpr → List Token
  | .column c => [nameToken c.qualifier.name, .dot, nameToken c.name]
  | .placeholder name => [.colon, .word name.toList]
  | .equal left right => left.tokens ++ .equals :: right.tokens
  | .aggregate function argument =>
    .word function.sqlName.toList :: .opening :: (argument.tokens ++ [.closing])

theorem isPlain_of_isAlphanum {c : Char} (h : c.toNat < 128 ∧ c.isAlphanum) : isPlain c := by
  have hall : ∀ k < 128, (Char.ofNat k).isAlphanum → isPlain (Char.ofNat k) = true := by
    decide +kernel
  have hc := hall c.toNat h.1
  rw [Char.ofNat_toNat] at hc
  exact hc h.2

theorem isPlain_nameOf (n : Nat) : ∀ c ∈ (Placeholders.nameOf n).toList, isPlain c := by
  rw [toList_nameOf]
  intro c hc
  rcases List.mem_cons.1 hc with rfl | hc
  · exact isPlain_of_isAlphanum (by decide)
  · have hdigit := Nat.isDigit_of_mem_toDigits (by decide) (by decide) hc
    refine isPlain_of_isAlphanum ⟨?_, by rw [Char.isAlphanum, hdigit, Bool.or_true]⟩
    rw [Char.isDigit, Bool.and_eq_true, decide_eq_true_eq, decide_eq_true_eq] at hdigit
    exact Nat.lt_of_le_of_lt (UInt32.le_iff_toNat_le.1 hdigit.2) (by decide)

theorem delimits_nil : Delimits [] := fun _ h => by cases h

theorem delimits_cons {c : Char} (h : c ∈ [' ', '"', '.', ':', '=', '(', ')'])
    (hquote : c ≠ '"') : Delimits (c :: rest) := by
  intro d hd
  obtain rfl : c = d := Option.some.inj hd
  exact ⟨isPlain_mark h, hquote⟩

theorem lex_space (rest : List Char) : lex (' ' :: rest) .between = lex rest .between := by
  rw [lex, begin, if_pos (by decide)]

/-- A symbol is a token of its own. -/
theorem lex_symbol {c : Char} {token : Token} (h : symbol? c = some token) (rest : List Char) :
    lex (c :: rest) .between = (lex rest .between).map (token :: ·) := by
  have hplain : (c == ' ') = false ∧ (c == '"') = false ∧ isPlain c = false := by
    unfold symbol? at h
    split at h
    case h_6 => cases h
    all_goals exact ⟨by decide, by decide, isPlain_mark (by decide)⟩
  rw [lex, begin, hplain.1, hplain.2.1, hplain.2.2, h]
  rfl

/-- The tokens of an expression are those of its text. -/
theorem lex_text (he : e.Plain) (hrest : Delimits rest) :
    lex (e.text.toList ++ rest) .between = (lex rest .between).map (e.tokens ++ ·) := by
  induction e generalizing rest with
  | column c =>
    have htext : (SqlExpr.column c).text.toList ++ rest =
        (escape c.qualifier.name).toList ++ '.' :: ((escape c.name).toList ++ rest) := by
      simp [SqlExpr.text, SqlExpr.fragments, SqlColumn.fragments, Fragment.text, spell]
    have hdot : Delimits ('.' :: ((escape c.name).toList ++ rest)) :=
      delimits_cons (by decide) (by decide)
    rw [htext, lex_escape he.1 hdot, lex_symbol rfl, lex_escape he.2 hrest, Option.map_map,
      Option.map_map]
    rfl
  | placeholder name =>
    obtain ⟨n, rfl⟩ := he
    have htext : (SqlExpr.placeholder (Placeholders.nameOf n)).text.toList ++ rest =
        ':' :: ((Placeholders.nameOf n).toList ++ rest) := by
      simp [SqlExpr.text, SqlExpr.fragments, Fragment.text, spell]
    have hne : (Placeholders.nameOf n).toList ≠ [] := by
      rw [toList_nameOf]
      exact List.cons_ne_nil _ _
    rw [htext, lex_symbol rfl, lex_plain hne (isPlain_nameOf n) hrest, Option.map_map]
    rfl
  | equal left right ihl ihr =>
    have htext : (SqlExpr.equal left right).text.toList ++ rest =
        left.text.toList ++ ' ' :: '=' :: ' ' :: (right.text.toList ++ rest) := by
      simp [SqlExpr.text, SqlExpr.fragments, Fragment.text, spell]
    have hequals : Delimits (' ' :: '=' :: ' ' :: (right.text.toList ++ rest)) :=
      delimits_cons (by decide) (by decide)
    rw [htext, ihl he.1 hequals, lex_space, lex_symbol rfl, lex_space, ihr he.2 hrest,
      Option.map_map, Option.map_map]
    congr 1
    funext tokens
    simp [SqlExpr.tokens]
  | aggregate function argument ih =>
    have htext : (SqlExpr.aggregate function argument).text.toList ++ rest =
        function.sqlName.toList ++ '(' :: (argument.text.toList ++ ')' :: rest) := by
      simp [SqlExpr.text, SqlExpr.fragments, Fragment.text, spell]
    have hopening : Delimits ('(' :: (argument.text.toList ++ ')' :: rest)) :=
      delimits_cons (by decide) (by decide)
    have hclosing : Delimits (')' :: rest) := delimits_cons (by decide) (by decide)
    have hne : function.sqlName.toList ≠ [] := by cases function <;> decide
    have hletters : function.sqlName.toList.all fun c => c.toNat < 128 ∧ c.isAlphanum := by
      cases function <;> decide
    have hplain : ∀ c ∈ function.sqlName.toList, isPlain c := fun c hc =>
      isPlain_of_isAlphanum (of_decide_eq_true (List.all_eq_true.1 hletters c hc))
    rw [htext, lex_plain hne hplain hopening, lex_symbol rfl, ih he hclosing,
      lex_symbol rfl, Option.map_map, Option.map_map, Option.map_map]
    congr 1
    funext tokens
    simp [SqlExpr.tokens]

/-- A reference is an operand. -/
theorem parse_reference {qualifier column : Token} {table name : String}
    (hqualifier : qualifier.name? = some table) (hcolumn : column.name? = some name)
    (tokens : List Token) (before : Option SqlExpr) (stack : List (Option SqlExpr × Aggregate)) :
    parse (qualifier :: .dot :: column :: tokens) (.operand before) stack =
      parse tokens (.operator (attach before (.column ⟨.table table, name⟩))) stack := by
  cases qualifier with
  | word text => rw [parse, hqualifier, hcolumn]; rfl
  | quoted text => rw [parse, hqualifier, hcolumn]; rfl
  | colon => cases hqualifier
  | dot => cases hqualifier
  | equals => cases hqualifier
  | opening => cases hqualifier
  | closing => cases hqualifier

/-- Reading the tokens of an expression gives the expression behind what was read before. -/
theorem parse_tokens (he : e.Plain) (tokens : List Token) (before : Option SqlExpr)
    (stack : List (Option SqlExpr × Aggregate)) :
    parse (e.tokens ++ tokens) (.operand before) stack =
      parse tokens (.operator (e.byName.behind before)) stack := by
  induction e generalizing tokens before stack with
  | column c =>
    rw [SqlExpr.tokens, List.cons_append, List.cons_append, List.cons_append]
    rw [parse_reference (name?_nameToken _) (name?_nameToken _)]
    rfl
  | placeholder name =>
    rw [SqlExpr.tokens, List.cons_append, List.cons_append, parse, String.ofList_toList]
    rfl
  | equal left right ihl ihr =>
    rw [SqlExpr.tokens, List.append_assoc, ihl he.1, List.cons_append, parse, ihr he.2]
    rfl
  | aggregate function argument ih =>
    have hfunction : function? function.sqlName.toList = some function := by
      cases function <;> decide
    rw [SqlExpr.tokens, List.cons_append, List.cons_append, parse, hfunction, Option.bind_some,
      List.append_assoc, ih he, List.singleton_append, parse]
    rfl

/-- Reading an expression back gives its operands in their order, grouped from the left. -/
theorem read_text (he : e.Plain) : read e.text = some e.byName.regrouped := by
  have htokens := lex_text he delimits_nil
  rw [List.append_nil, lex, Option.map_some, List.append_nil] at htokens
  have hparse := parse_tokens he [] none []
  rw [List.append_nil] at hparse
  rw [read, htokens, Option.bind_some, hparse, parse, SqlExpr.regrouped]

end RelationalAlgebra.Sql
