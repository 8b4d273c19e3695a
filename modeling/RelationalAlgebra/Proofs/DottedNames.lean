import RelationalAlgebra.Proofs.Parsing

/-!
# Names with dots

`escape` writes a name part by part, where the parts are what stands between the dots.  Each part is
written on its own (`WrittenPart`): as it stands if it is `Bare`, and between quotes otherwise, with the
quotes in it doubled.

`readNames` goes the way back: it takes a text apart as `lex` does, where a dot between quotes
separates nothing and a doubled quote is one quote, and expects names and dots in turn.  It finds
the parts, provided that none of them is empty: nothing is written for an empty part, and two dots
in a row are no identifier.

The main statement is `escape_dotted`.  Its proof goes by way of `dottedTokens`, the tokens of the
parts: `lex` finds these whatever is written behind the name (`lex_escape_dotted`), so that a name
can neither end its own quotation nor take in what follows it, and different parts have different
tokens (`dottedTokens_inj`).
-/

namespace RelationalAlgebra.Sql

variable {part rest : List Char} {parts others : List (List Char)} {name : String}

/-! ## How a part is written -/

/-- A name that can stand without quotes. -/
structure Bare (part : List Char) : Prop where
  /-- Nothing but letters, numbers and underscores. -/
  plain : ∀ c ∈ part, Text.isAlphanumeric c ∨ c = '_'
  /-- No number comes first. -/
  start : ∀ c ∈ part.head?, ¬ Text.isNumeric c
  /-- No reserved word, in any letter case. -/
  unreserved : Text.lowercase (String.ofList part) ∉ reservedWords

/-- Quotes are put around the names that are not bare, and no others. -/
theorem needsQuotes_iff : needsQuotes part ↔ ¬ Bare part := by
  have hplain : part.all isPlain ↔ ∀ c ∈ part, Text.isAlphanumeric c ∨ c = '_' := by
    simp [isPlain]
  have hstart : startsNumeric part = false ↔ ∀ c ∈ part.head?, ¬ Text.isNumeric c := by
    cases part <;> simp [startsNumeric]
  have hreserved : isReserved part = false ↔
      Text.lowercase (String.ofList part) ∉ reservedWords := by
    simp [isReserved]
  rw [← Bool.not_eq_false, not_iff_not, needsQuotes, Bool.or_eq_false_iff, Bool.or_eq_false_iff,
    Bool.not_eq_false', hplain, hstart, hreserved]
  constructor
  · rintro ⟨⟨hreserved, hplain⟩, hstart⟩
    exact ⟨hplain, hstart, hreserved⟩
  · rintro ⟨hplain, hstart, hreserved⟩
    exact ⟨⟨hreserved, hplain⟩, hstart⟩

/-- How a name without dots is written: as it stands, or between quotes with every quote doubled. -/
inductive WrittenPart : (part text : List Char) → Prop
  | bare {part : List Char} (bare : Bare part) : WrittenPart part part
  | quoted {part : List Char} (bare : ¬ Bare part) :
      WrittenPart part ('"' :: part.flatMap (fun c => if c = '"' then ['"', '"'] else [c]) ++ ['"'])

theorem doubleQuotes_eq_flatMap (part : List Char) :
    doubleQuotes part = part.flatMap fun c => if c = '"' then ['"', '"'] else [c] := by
  induction part with
  | nil => rfl
  | cons c rest ih => by_cases hc : c = '"' <;> simp [doubleQuotes, hc, ih]

theorem written_escapePart (part : List Char) : WrittenPart part (escapePart part) := by
  by_cases hbare : Bare part
  · have hquotes : ¬ needsQuotes part := fun h => needsQuotes_iff.1 h hbare
    rw [escapePart, if_neg hquotes]
    exact .bare hbare
  · rw [escapePart, if_pos (needsQuotes_iff.2 hbare), quoted, doubleQuotes_eq_flatMap]
    exact .quoted hbare

/-! ## Parts and dots -/

theorem joinDots_eq_intercalate (parts : List (List Char)) :
    joinDots parts = ['.'].intercalate parts := by
  induction parts with
  | nil => rfl
  | cons part rest ih =>
    cases rest with
    | nil => simp [joinDots]
    | cons next rest => rw [joinDots, ih, List.intercalate_cons_cons, List.append_assoc] <;> simp

/-- The parts are what the name is split into at the dots. -/
theorem dotParts_eq_splitOn (name : List Char) : dotParts name = name.splitOn '.' := by
  induction name with
  | nil => simp [dotParts]
  | cons c rest ih =>
    rw [dotParts, List.splitOn_cons_eq_if_modifyHead, ih]
    by_cases hc : c == '.'
    · rw [if_pos hc, if_pos hc]
    · rw [if_neg hc, if_neg hc]
      cases hparts : rest.splitOn '.' with
      | nil => exact absurd hparts (List.splitOn_ne_nil '.' rest)
      | cons part parts => rfl

theorem not_mem_of_mem_dotParts {name : List Char} (h : part ∈ dotParts name) : '.' ∉ part := by
  induction name generalizing part with
  | nil =>
    rw [dotParts, List.mem_singleton] at h
    simp [h]
  | cons c rest ih =>
    rw [dotParts] at h
    split at h
    · rcases List.mem_cons.1 h with rfl | h
      · exact List.not_mem_nil
      · exact ih h
    · next hc =>
      cases hparts : dotParts rest with
      | nil => exact absurd hparts (dotParts_ne_nil rest)
      | cons first others =>
        rw [hparts] at h ih
        rcases List.mem_cons.1 h with rfl | h
        · have hfirst := ih (List.mem_cons_self ..)
          intro hdot
          rcases List.mem_cons.1 hdot with hdot | hdot
          · exact hc (beq_iff_eq.2 hdot.symm)
          · exact hfirst hdot
        · exact ih (List.mem_cons_of_mem _ h)

theorem dotParts_append (name other : List Char) :
    dotParts (name ++ '.' :: other) = dotParts name ++ dotParts other := by
  rw [dotParts_eq_splitOn, List.splitOn_append_cons_self, dotParts_eq_splitOn, dotParts_eq_splitOn]

theorem joinDots_append (hparts : parts ≠ []) (hothers : others ≠ []) :
    joinDots (parts ++ others) = joinDots parts ++ '.' :: joinDots others := by
  induction parts with
  | nil => exact absurd rfl hparts
  | cons part rest ih =>
    cases rest with
    | nil =>
      cases others with
      | nil => exact absurd rfl hothers
      | cons other others => simp [joinDots]
    | cons next rest => simpa [joinDots] using ih (List.cons_ne_nil next rest)

/-! ## The tokens of a name -/

/-- The tokens of a part: there is none if it is empty. -/
def partTokens (part : List Char) : List Token :=
  if part = [] then [] else [nameToken (String.ofList part)]

/-- The tokens of parts with dots between them. -/
def dottedTokens (parts : List (List Char)) : List Token :=
  [Token.dot].intercalate (parts.map partTokens)

theorem dottedTokens_cons_cons (part next : List Char) (parts : List (List Char)) :
    dottedTokens (part :: next :: parts) =
      partTokens part ++ .dot :: dottedTokens (next :: parts) := by
  simp [dottedTokens, List.intercalate_cons_cons]

/-- A part is read as it was written, whatever delimits it. -/
theorem lex_escapePart (hpart : '.' ∉ part) (hrest : Delimits rest) :
    lex (escapePart part ++ rest) .between = (lex rest .between).map (partTokens part ++ ·) := by
  by_cases hnil : part = []
  · subst hnil
    have hescape : escapePart [] = [] := by decide +kernel
    simp [hescape, partTokens]
  · have hname : OneName (String.ofList part) := by
      rw [OneName, String.toList_ofList]
      exact ⟨hnil, hpart⟩
    have hlex := lex_escape hname hrest
    rw [hname.toList_escape, String.toList_ofList] at hlex
    rw [hlex, partTokens, if_neg hnil]
    rfl

theorem lex_joinDots (hparts : ∀ part ∈ parts, '.' ∉ part) (hrest : Delimits rest) :
    lex (joinDots (parts.map escapePart) ++ rest) .between =
      (lex rest .between).map (dottedTokens parts ++ ·) := by
  induction parts with
  | nil => simp [joinDots, dottedTokens]
  | cons part others ih =>
    have hpart := hparts part (List.mem_cons_self ..)
    cases others with
    | nil => simpa [joinDots, dottedTokens] using lex_escapePart hpart hrest
    | cons next others =>
      have hdot : Delimits ('.' :: (joinDots ((next :: others).map escapePart) ++ rest)) :=
        delimits_cons (by decide) (by decide)
      have ih := ih fun part hmem => hparts part (List.mem_cons_of_mem _ hmem)
      calc lex (joinDots ((part :: next :: others).map escapePart) ++ rest) .between
        _ = lex (escapePart part ++ '.' :: (joinDots ((next :: others).map escapePart) ++ rest))
              .between := by simp [joinDots]
        _ = (lex rest .between).map fun tokens =>
              partTokens part ++ .dot :: (dottedTokens (next :: others) ++ tokens) := by
            rw [lex_escapePart hpart hdot, lex_symbol rfl, ih, Option.map_map, Option.map_map]
            rfl
        _ = _ := by simp [dottedTokens_cons_cons]

/-- A name is read as it was written, whatever delimits it. -/
theorem lex_escape_dotted (name : String) (hrest : Delimits rest) :
    lex ((escape name).toList ++ rest) .between =
      (lex rest .between).map (dottedTokens (dotParts name.toList) ++ ·) := by
  rw [escape, String.toList_ofList, escapeChars]
  exact lex_joinDots (fun _ => not_mem_of_mem_dotParts) hrest

theorem lex_escape_eq (name : String) :
    lex (escape name).toList .between = some (dottedTokens (dotParts name.toList)) := by
  have hlex := lex_escape_dotted name delimits_nil
  simpa [lex] using hlex

/-! ## Reading the tokens -/

/-- The names of a dotted identifier: names and dots in turn, with a name at both ends. -/
def names : List Token → Option (List String)
  | [token] => token.name?.map ([·])
  | token :: .dot :: rest => token.name?.bind fun name => (names rest).map (name :: ·)
  | _ => none

/-- The names of a dotted identifier that is written as a text. -/
def readNames (text : String) : Option (List String) := (lex text.toList .between).bind names

theorem names_dottedTokens (hparts : parts ≠ []) (hnil : [] ∉ parts) :
    names (dottedTokens parts) = some (parts.map String.ofList) := by
  induction parts with
  | nil => exact absurd rfl hparts
  | cons part others ih =>
    have hpart : part ≠ [] := fun h => hnil (h ▸ List.mem_cons_self ..)
    have htokens : partTokens part = [nameToken (String.ofList part)] := if_neg hpart
    cases others with
    | nil => simp [dottedTokens, htokens, names, name?_nameToken]
    | cons next others =>
      have ih := ih (List.cons_ne_nil next others) fun h => hnil (List.mem_cons_of_mem _ h)
      rw [dottedTokens_cons_cons, htokens, List.singleton_append, names, name?_nameToken, ih]
      rfl

/-- A dot is no name, so that a name has to stand in front of each dot. -/
theorem names_dot_cons (tokens : List Token) : names (.dot :: tokens) = none := by
  cases tokens with
  | nil => rfl
  | cons token rest => cases token <;> rfl

/-- Where a part is empty the tokens are no names with dots between them. -/
theorem names_dottedTokens_of_nil_mem (hnil : [] ∈ parts) : names (dottedTokens parts) = none := by
  induction parts with
  | nil => cases hnil
  | cons part others ih =>
    cases others with
    | nil =>
      obtain rfl : [] = part := by simpa using hnil
      rfl
    | cons next others =>
      rw [dottedTokens_cons_cons]
      by_cases hpart : part = []
      · simpa [hpart, partTokens] using names_dot_cons _
      · have hothers : [] ∈ next :: others := by simpa [Ne.symm hpart] using hnil
        rw [partTokens, if_neg hpart, List.singleton_append, names, ih hothers, name?_nameToken]
        rfl

/-! ## The parts from the tokens -/

theorem nameToken_ne_dot (name : String) : nameToken name ≠ .dot := by
  rw [nameToken]
  split <;> simp

theorem nameToken_inj {other : String} (h : nameToken name = nameToken other) : name = other := by
  have hname := name?_nameToken name
  rw [h, name?_nameToken] at hname
  exact (Option.some.inj hname).symm

theorem partTokens_inj {other : List Char} (h : partTokens part = partTokens other) :
    part = other := by
  by_cases hpart : part = [] <;> by_cases hother : other = [] <;>
    simp [partTokens, hpart, hother] at h ⊢
  exact String.ofList_inj.1 (nameToken_inj h)

/-- No dot is among the tokens of a part. -/
theorem dot_not_mem_partTokens (part : List Char) : Token.dot ∉ partTokens part := by
  by_cases hpart : part = []
  · simp [partTokens, hpart]
  · simpa [partTokens, hpart] using (nameToken_ne_dot _).symm

/-- Splitting the tokens at the dots gives those of the parts. -/
theorem splitOn_dottedTokens (hparts : parts ≠ []) :
    (dottedTokens parts).splitOn .dot = parts.map partTokens := by
  refine List.splitOn_intercalate _ (fun tokens htokens => ?_) (by simpa using hparts)
  obtain ⟨part, -, rfl⟩ := List.mem_map.1 htokens
  exact dot_not_mem_partTokens part

/-- Different parts have different tokens. -/
theorem dottedTokens_inj (hparts : parts ≠ []) (hothers : others ≠ [])
    (h : dottedTokens parts = dottedTokens others) : parts = others := by
  have hsplit := congrArg (List.splitOn .dot) h
  rw [splitOn_dottedTokens hparts, splitOn_dottedTokens hothers] at hsplit
  exact List.map_injective_iff.2 (fun _ _ => partTokens_inj) hsplit

/-- Different names are written differently. -/
theorem escape_injective : Function.Injective escape := by
  intro name other h
  have htokens := lex_escape_eq other
  rw [← h, lex_escape_eq] at htokens
  have hparts := dottedTokens_inj (dotParts_ne_nil _) (dotParts_ne_nil _) (Option.some.inj htokens)
  have hchars := congrArg joinDots hparts
  rw [joinDots_dotParts, joinDots_dotParts] at hchars
  exact String.toList_inj.1 hchars

/-! ## Main results -/

/-- A reference to a column is the dotted name of the qualifier and the column. -/
theorem text_column (c : SqlColumn) :
    (SqlExpr.column c).text = escape (c.qualifier.name ++ "." ++ c.name) := by
  apply String.toList_inj.1
  have hqualifier : (dotParts c.qualifier.name.toList).map escapePart ≠ [] := by
    simpa using dotParts_ne_nil _
  have hname : (dotParts c.name.toList).map escapePart ≠ [] := by
    simpa using dotParts_ne_nil _
  simp [SqlExpr.text, SqlExpr.fragments, SqlColumn.fragments, Fragment.text, spell, escape,
    escapeChars, dotParts_append, joinDots_append hqualifier hname]

/-- Every name is written as its parts with dots between them, each bare or between quotes.  Reading
that back gives the parts, unless one of them is empty; no other name is written the same; and
whatever delimits the name, the reader finds the same name in front of it and goes on behind it. -/
theorem escape_dotted (name : String) :
    (∃ written, (escape name).toList = ['.'].intercalate written ∧
      List.Forall₂ WrittenPart (name.toList.splitOn '.') written) ∧
    readNames (escape name) =
      (if [] ∈ name.toList.splitOn '.' then none
       else some ((name.toList.splitOn '.').map String.ofList)) ∧
    (∀ other, escape other = escape name ↔ other = name) ∧
    ∃ tokens, names tokens = readNames (escape name) ∧
      ∀ rest, Delimits rest →
        lex ((escape name).toList ++ rest) .between = (lex rest .between).map (tokens ++ ·) := by
  have hread : readNames (escape name) = names (dottedTokens (dotParts name.toList)) := by
    rw [readNames, lex_escape_eq, Option.bind_some]
  refine ⟨⟨(dotParts name.toList).map escapePart, ?_, ?_⟩, ?_, fun other => ?_, ?_⟩
  · rw [escape, String.toList_ofList, escapeChars, joinDots_eq_intercalate]
  · rw [← dotParts_eq_splitOn, List.forall₂_map_right_iff, List.forall₂_same]
    intro part _
    exact written_escapePart part
  · rw [hread, ← dotParts_eq_splitOn]
    by_cases hnil : [] ∈ dotParts name.toList
    · rw [if_pos hnil, names_dottedTokens_of_nil_mem hnil]
    · rw [if_neg hnil, names_dottedTokens (dotParts_ne_nil _) hnil]
  · exact ⟨fun h => escape_injective h, fun h => congrArg escape h⟩
  · exact ⟨_, hread.symm, fun rest hrest => lex_escape_dotted name hrest⟩

/-- A name with quotes, blanks and a reserved word in it, in front of a comparison. -/
theorem escape_dotted_hostile :
    Delimits " = :v1".toList ∧
    escape "Order.a\" = b.2x" = "\"Order\".\"a\"\" = b\".\"2x\"" ∧
    readNames (escape "Order.a\" = b.2x") = some ["Order", "a\" = b", "2x"] ∧
    ∃ tokens, names tokens = some ["Order", "a\" = b", "2x"] ∧
      lex ((escape "Order.a\" = b.2x").toList ++ " = :v1".toList) .between =
        some (tokens ++ [.equals, .colon, .word "v1".toList]) := by
  have hdelimits : Delimits " = :v1".toList := delimits_cons (by decide) (by decide)
  obtain ⟨-, hread, -, tokens, htokens, hlex⟩ := escape_dotted "Order.a\" = b.2x"
  have hnames : readNames (escape "Order.a\" = b.2x") = some ["Order", "a\" = b", "2x"] :=
    hread.trans (by decide +kernel)
  have hrest : lex " = :v1".toList .between = some [.equals, .colon, .word "v1".toList] := by
    decide +kernel
  refine ⟨hdelimits, by decide +kernel, hnames, tokens, htokens.trans hnames, ?_⟩
  rw [hlex _ hdelimits, hrest, Option.map_some]

end RelationalAlgebra.Sql
