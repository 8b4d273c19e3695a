import RelationalAlgebra.Arena.Build
import RelationalAlgebra.Relation.Equivalence
import RelationalAlgebra.Sql.Compile

/-!
# Sessions

A session builds relations in an arena, gives them names and asks about them, one step after the other
(`Session.transcript`).  A construction that stops gives no name to anything, but what it has put into
the arena until then stays.

* `Construction` is what can be built and `Question` what can be asked, where relations are referred to
  by handles or by names.
* `Construction.run` builds, and `Question.answer` answers without changing anything.
-/

namespace RelationalAlgebra

namespace Arena

/-! ## Constructions -/

/-- What can be built, where relations are referred to by `ρ`. -/
inductive Construction (ρ : Type) where
  | createTable (name : String) (columns : List (String × ColumnType))
  | select (operand : ρ) (condition : Predicate)
  | project (operand : ρ) (args : List (Arg ρ))
  | join (kind : JoinKind) (left right : ρ) (condition : Predicate)
  | joinInferred (kind : JoinKind) (left right : ρ)
  | ofWire (wire : Json)
  | chain (operand : ρ) (links : List (Link ρ))

section

variable {ρ σ ε : Type}

/-- The relation an argument refers to. -/
def Arg.references : Arg ρ → List ρ
  | .relation r => [r]
  | .record _ => []
  | .name _ => []
  | .expr _ => []

/-- Refers to the relation of an argument in another way. -/
def Arg.mapM (f : ρ → Except ε σ) : Arg ρ → Except ε (Arg σ)
  | .relation r => (f r).map .relation
  | .record table => .ok (.record table)
  | .name n => .ok (.name n)
  | .expr e => .ok (.expr e)

/-- The relations a link refers to. -/
def Link.references : Link ρ → List ρ
  | .filter _ => []
  | .find _ => []
  | .project args => args.flatMap (·.references)
  | .join right _ => [right]
  | .leftJoin right _ => [right]
  | .joinInferred right => [right]

/-- Refers to the relations of a link in another way. -/
def Link.mapM (f : ρ → Except ε σ) : Link ρ → Except ε (Link σ)
  | .filter condition => .ok (.filter condition)
  | .find id => .ok (.find id)
  | .project args => (args.mapM (Arg.mapM f)).map .project
  | .join right condition => (f right).map (.join · condition)
  | .leftJoin right condition => (f right).map (.leftJoin · condition)
  | .joinInferred right => (f right).map .joinInferred

namespace Construction

/-- The relations a construction refers to. -/
def references : Construction ρ → List ρ
  | .createTable _ _ => []
  | .select operand _ => [operand]
  | .project operand args => operand :: args.flatMap (·.references)
  | .join _ left right _ => [left, right]
  | .joinInferred _ left right => [left, right]
  | .ofWire _ => []
  | .chain operand links => operand :: links.flatMap (·.references)

/-- Refers to the relations of a construction in another way. -/
def mapM (f : ρ → Except ε σ) : Construction ρ → Except ε (Construction σ)
  | .createTable name columns => .ok (.createTable name columns)
  | .select operand condition => (f operand).map (.select · condition)
  | .project operand args => do return .project (← f operand) (← args.mapM (Arg.mapM f))
  | .join kind left right condition => do return .join kind (← f left) (← f right) condition
  | .joinInferred kind left right => do return .joinInferred kind (← f left) (← f right)
  | .ofWire wire => .ok (.ofWire wire)
  | .chain operand links => do return .chain (← f operand) (← links.mapM (Link.mapM f))

/-- Builds. -/
def run : Construction Nat → Work Nat
  | .createTable name columns => Arena.createTable name columns
  | .select operand condition => Arena.select operand condition
  | .project operand args => Arena.project operand args
  | .join kind left right condition => Arena.join kind left right condition
  | .joinInferred kind left right => Arena.joinInferred kind left right
  | .ofWire wire => Arena.ofWire wire
  | .chain operand links => Arena.chain operand links

end Construction

/-! ## Questions -/

/-- What can be asked about relations, which are referred to by `ρ`. -/
inductive Question (ρ : Type) where
  | description (r : ρ)
  | columnNames (r : ρ)
  /-- The column a name stands for. -/
  | column (r : ρ) (name : String)
  /-- The table of a name that can be reached. -/
  | table (r : ρ) (name : String)
  | wire (r : ρ)
  | sql (r : ρ)
  | equal (r s : ρ)

/-- The relations a question refers to. -/
def Question.references : Question ρ → List ρ
  | .description r => [r]
  | .columnNames r => [r]
  | .column r _ => [r]
  | .table r _ => [r]
  | .wire r => [r]
  | .sql r => [r]
  | .equal r s => [r, s]

/-- Refers to the relations of a question in another way. -/
def Question.mapM (f : ρ → Except ε σ) : Question ρ → Except ε (Question σ)
  | .description r => (f r).map .description
  | .columnNames r => (f r).map .columnNames
  | .column r name => (f r).map (.column · name)
  | .table r name => (f r).map (.table · name)
  | .wire r => (f r).map .wire
  | .sql r => (f r).map .sql
  | .equal r s => do return .equal (← f r) (← f s)

end

/-- What is answered. -/
inductive Answer where
  /-- A relation was built. -/
  | built
  | text (text : String)
  | texts (texts : List String)
  /-- The place of a column among those of its relation. -/
  | column (place : Option Nat)
  /-- The place of a table among all tables, and its name. -/
  | table (found : Option (Nat × String))
  | json (json : Json)
  | statement (sql : String) (values : List (String × Value))
  | truth (value : Bool)

/-- The handles of the base tables, in the order of their declaration. -/
def tables (a : Arena) : List Nat :=
  (List.range a.nodes.length).filter fun r => (a.table r).toOption.isSome

/-- The names of the columns of a relation. -/
def columnNames (a : Arena) (r : Nat) : Except Stop (List String) := do
  return (← (← a.columns r).mapM a.column).map (·.name)

/-- The place, among the columns of a relation, of the column a name stands for. -/
def columnPlace (a : Arena) (r : Nat) (name : String) : Except Stop (Option Nat) := do
  match ← a.find r name with
  | none => return none
  | some column => return some (← follow ((← a.columns r).idxOf? column))

/-- The place, among all tables, of the table of a name that can be reached, with its name. -/
def tablePlace (a : Arena) (r : Nat) (name : String) : Except Stop (Option (Nat × String)) := do
  match ← a.reach r name with
  | none => return none
  | some t => return some (← follow (a.tables.idxOf? t), (← a.table t).name)

/-- Answers a question. -/
def Question.answer (a : Arena) : Question Nat → Except Stop Answer
  | .description r => (a.relation r).map (.text ·.describe)
  | .columnNames r => (a.columnNames r).map .texts
  | .column r name => (a.columnPlace r name).map .column
  | .table r name => (a.tablePlace r name).map .table
  | .wire r => do return .json (← (← a.relation r).toWire.mapError .failure)
  | .sql r => do
    let c ← (Sql.compile (← a.relation r)).mapError .failure
    return .statement c.sql c.placeholders.entries
  | .equal r s => do return .truth ((← a.relation r).equivalent (← a.relation s))

/-! ## One step after the other -/

/-- A step of a session, which refers to relations by the names they were given. -/
inductive Step where
  /-- Builds a relation and gives it a name. -/
  | build (construction : Construction String) (label : String)
  | ask (question : Question String)

/-- An arena, and the names that were given to relations in it. -/
structure Session where
  arena : Arena
  names : List (String × Nat)

namespace Session

/-- The start of a session. -/
def start : Session := ⟨.empty, []⟩

/-- The handle of the relation that was given a name last. -/
def handle (s : Session) (name : String) : Except Stop Nat := follow (s.names.lookup name)

/-- Takes a step. -/
def take (s : Session) : Step → Session × Except Stop Answer
  | .build construction label =>
    match construction.mapM s.handle with
    | .error stop => (s, .error stop)
    | .ok construction =>
      match construction.run.run.run s.arena with
      | (.ok r, a) => (⟨a, (label, r) :: s.names⟩, .ok .built)
      | (.error stop, a) => (⟨a, s.names⟩, .error stop)
  | .ask question => (s, question.mapM s.handle >>= (·.answer s.arena))

/-- The steps with their answers. -/
def transcript (s : Session) : List Step → List (Step × Except Stop Answer)
  | [] => []
  | step :: rest => (step, (s.take step).2) :: (s.take step).1.transcript rest

end Session

end Arena

end RelationalAlgebra
