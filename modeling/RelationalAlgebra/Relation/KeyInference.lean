import RelationalAlgebra.Relation.Lookup

/-!
# Foreign keys

A table `posts` is referred to by columns called `post_id`.  `Relation.inferKey` looks for the
first table within a relation that has an `id` and is referred to by a column of another relation
in this way, and names the two columns.

The search goes through selections and joins and through projections that pass on a whole table;
a projection of single columns does not say which table it stands for, and stops the search.
-/

namespace RelationalAlgebra

open QualifiedName

/-! ## Singular forms -/

/-- The singular of an English plural, roughly, from its letters in reverse. -/
def singularReversed : List Char → List Char
  | 's' :: 'e' :: 'i' :: stem => 'y' :: stem
  | 's' :: 's' :: stem => 's' :: 's' :: stem
  | 's' :: stem => stem
  | word => word

/-- The singular of an English plural, roughly: `categories` is `category`, `posts` is `post`. -/
def singular (word : String) : String :=
  String.ofList (singularReversed word.toList.reverse).reverse

/-! ## Keys -/

/-- The names of two columns that relate two relations. -/
structure KeyPair where
  own : String
  foreign : String
  deriving DecidableEq, Repr

/-- The columns of another relation that may refer to a table: their names and their qualified
names. -/
abbrev Referrers := List (String × String)

/-- The name of a column that refers to a table. -/
def Table.foreignKey (t : Table) : String := singular t.name ++ "_id"

/-- The key of a table and the first column that refers to it. -/
def Table.inferKey (t : Table) (referrers : Referrers) : Option KeyPair :=
  if (t.get? "id").isSome then
    (referrers.find? (·.1 == t.foreignKey)).map fun (_, qualified) =>
      ⟨t.qualified "id", qualified⟩
  else none

namespace Relation

/-- The columns of a relation as they may refer to a table. -/
def referrers (r : Relation) : Referrers :=
  r.columns.mapIdx fun i c => (c.name, r.qualifiedColumnName i c)

/-- The key of the first table of the relation that one of the columns refers to. -/
def inferKeyFrom (referrers : Referrers) : Relation → Except Error (Option KeyPair)
  | .table t => .ok (t.inferKey referrers)
  | .selection _ operand _ => inferKeyFrom referrers operand
  | .projection _ _ (some t) _ => .ok (t.inferKey referrers)
  | .projection _ operand none _ =>
    .error (.unsupportedJoinInference
      ("cannot infer join columns through projection of " ++ operand.describe))
  | .join _ _ left right _ => do
    match ← inferKeyFrom referrers left with
    | some pair => return some pair
    | none => inferKeyFrom referrers right

/-- The key of the first table of the relation that a column of the other one refers to. -/
def inferKey (r other : Relation) : Except Error (Option KeyPair) :=
  inferKeyFrom other.referrers r

/-- The condition that joins two relations by a key of one that the other refers to.  Keys of the
left are tried first. -/
def inferCondition (left right : Relation) : Except Error Predicate := do
  match ← left.inferKey right with
  | some ⟨own, foreign⟩ => return .expr (.equal (.column own) (.column foreign))
  | none =>
    match ← right.inferKey left with
    | some ⟨own, foreign⟩ => return .expr (.equal (.column foreign) (.column own))
    | none =>
      throw (.unsupportedJoinInference
        ("no foreign key relates " ++ left.describe ++ " and " ++ right.describe))

end Relation

end RelationalAlgebra
