import RelationalAlgebra.Database.Basic

/-!
# Interactions

What a program asks of its surroundings, as data: an interaction is a result, or a request with
what follows each answer to it.  `Interaction.perform` carries an interaction out with given ways to
answer the requests.
-/

namespace RelationalAlgebra.CommandLine

/-- Why a file cannot be read. -/
inductive FileFault where
  | missing
  | denied
  /-- Something on the way to the file is not a directory. -/
  | notDirectory
  | directory
  | notText
  deriving DecidableEq, Repr

/-- The wording of a fault. -/
def FileFault.message : FileFault → String
  | .missing => "No such file or directory (os error 2)"
  | .denied => "Permission denied (os error 13)"
  | .notDirectory => "Not a directory (os error 20)"
  | .directory => "Is a directory (os error 21)"
  | .notText => "stream did not contain valid UTF-8"

/-- A computation that reads files and opens databases. -/
inductive Interaction (α : Type) where
  | done (result : α)
  | readFile (path : String) (next : Except FileFault String → Interaction α)
  /-- Opens the database in a file, if there is one. -/
  | openDatabase (path : String) (next : Option Database → Interaction α)

namespace Interaction

/-- One interaction behind another. -/
def andThen {α β : Type} : Interaction α → (α → Interaction β) → Interaction β
  | .done result, f => f result
  | .readFile path next, f => .readFile path fun answer => (next answer).andThen f
  | .openDatabase path next, f => .openDatabase path fun answer => (next answer).andThen f

instance : Monad Interaction where
  pure := .done
  bind := andThen

/-- Carries an interaction out. -/
def perform {m : Type → Type} [Monad m] {α : Type}
    (read : String → m (Except FileFault String))
    (openAt : String → m (Option Database)) : Interaction α → m α
  | .done result => pure result
  | .readFile path next => do (next (← read path)).perform read openAt
  | .openDatabase path next => do (next (← openAt path)).perform read openAt

end Interaction

end RelationalAlgebra.CommandLine
