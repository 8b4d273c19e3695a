/-!
# Qualified names

A column is named either plainly (`title`) or together with where it comes from
(`blogs__title`): a qualifier, the delimiter `__` and a field.  A qualified name is taken apart
at the *last* delimiter, so that a qualifier may itself be a qualified name: `t2__posts__id` is
the field `id` of `t2__posts`.

The functions are written over lists of characters (`splitLast`, `isDelimited`) with a version
for strings beside each.
-/

namespace RelationalAlgebra.QualifiedName

/-! ## Putting a name together -/

/-- What stands between a qualifier and a field. -/
def delimiter : String := "__"

/-- The name of a column of something: `qualify "blogs" "id"` is `blogs__id`. -/
def qualify (qualifier field : String) : String := qualifier ++ delimiter ++ field

/-! ## Taking a name apart -/

/-- What stands before and after the last delimiter.  Of two delimiters that overlap, as in
`a___b`, the later one counts. -/
def splitLast : List Char → Option (List Char × List Char)
  | [] => none
  | c :: rest =>
    match splitLast rest with
    | some (before, after) => some (c :: before, after)
    | none =>
      match c, rest with
      | '_', '_' :: after => some ([], after)
      | _, _ => none

/-- The qualifier and the field of a qualified name.  A name that starts or ends with its last
delimiter is not a qualified name. -/
def split (name : String) : Option (String × String) :=
  match splitLast name.toList with
  | some (qualifier, field) =>
    if qualifier.isEmpty || field.isEmpty then none
    else some (String.ofList qualifier, String.ofList field)
  | none => none

/-- Whether a delimiter stands anywhere in the text. -/
def isDelimited : List Char → Bool
  | '_' :: '_' :: _ => true
  | _ :: rest => isDelimited rest
  | [] => false

/-- Whether a name contains the delimiter, and so speaks of another relation's column. -/
def isQualified (name : String) : Bool := isDelimited name.toList

/-- What follows the qualifier and the delimiter, if the name starts with them. -/
def field? (qualifier name : String) : Option String :=
  let start := (qualifier ++ delimiter).toList
  if start.isPrefixOf name.toList then some (String.ofList (name.toList.drop start.length))
  else none

/-! ## First facts -/

/-- The parts of a text split at its last delimiter, put together again, are the text. -/
theorem eq_of_splitLast {text before after : List Char}
    (h : splitLast text = some (before, after)) :
    text = before ++ '_' :: '_' :: after := by
  induction text generalizing before after with
  | nil => simp [splitLast] at h
  | cons c rest ih =>
    unfold splitLast at h
    split at h
    · next b a hrest =>
      simp only [Option.some.injEq, Prod.mk.injEq] at h
      rw [← h.1, ← h.2, ih hrest]
      rfl
    · next hrest =>
      split at h
      · simp only [Option.some.injEq, Prod.mk.injEq] at h
        simp [← h.1, ← h.2]
      · simp at h

/-- A text can be split exactly when it contains a delimiter. -/
theorem splitLast_isSome (text : List Char) : (splitLast text).isSome = isDelimited text := by
  fun_induction isDelimited text with
  | case1 rest =>
    unfold splitLast
    split <;> simp
  | case2 c rest hc ih =>
    unfold splitLast
    rw [← ih]
    split
    · next h => simp [h]
    · next h =>
      rw [h]
      split
      · next r => exact absurd rfl (hc r rfl)
      · rfl
  | case3 => rfl

/-- A qualified name is its qualifier and its field, put together. -/
theorem qualify_of_split {name qualifier field : String}
    (h : split name = some (qualifier, field)) : qualify qualifier field = name := by
  unfold split at h
  split at h
  · next q f hsplit =>
    split at h
    · simp at h
    · simp only [Option.some.injEq, Prod.mk.injEq] at h
      apply String.ext
      rw [eq_of_splitLast hsplit, ← h.1, ← h.2]
      simp [qualify, delimiter]
  · simp at h

end RelationalAlgebra.QualifiedName
