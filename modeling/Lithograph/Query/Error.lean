/-
  File:      Lithograph/Query/Error.lean
  Subject:   Query errors and how a storage error becomes one (`query/error.rs`).
-/
import Lithograph.Storage.Encoding

namespace Lithograph.Query

open Storage

inductive QueryErrorKind where
  | parse | semantic | type | schema | constraint | invalidArgument | accessDenied
  | versionNotFound | branchNotFound | tagNotFound | graphViewViolation | branchHeadMoved
  | mergeSessionNotFound | mergeSessionChanged | mergeConflict | readOnlySnapshot
  | transactionBoundaryRequired | busy | storage | resource | io | interrupted | internal
  deriving DecidableEq, Repr

structure QueryError where
  kind : QueryErrorKind
  message : String
  deriving DecidableEq, Repr

abbrev QueryResult (α : Type) := Except QueryError α

/-- `From<StorageError> for QueryError`. -/
def QueryError.ofStorage : StorageError → QueryError
  | .branchHeadMoved => ⟨.branchHeadMoved, "branch head moved during query commit"⟩
  | error => ⟨.storage, error.message⟩

/-- `?` on a storage result inside a query function. -/
def ofStorage {α : Type} : StorageResult α → QueryResult α
  | .ok a => .ok a
  | .error e => .error (QueryError.ofStorage e)

@[simp] theorem ofStorage_ok {α : Type} {x : StorageResult α} {a : α} :
    ofStorage x = .ok a ↔ x = .ok a := by
  cases x with
  | ok b => simp [ofStorage]
  | error e => simp [ofStorage]

def QueryError.accessDenied (message : String) : QueryError := ⟨.accessDenied, message⟩
def QueryError.invalidArgument (message : String) : QueryError := ⟨.invalidArgument, message⟩
def QueryError.internal (message : String) : QueryError := ⟨.internal, message⟩

/-- `if condition { return Err(error) }`. -/
def refuseWhen (condition : Bool) (error : QueryError) : QueryResult Unit :=
  if condition then .error error else .ok ()

@[simp] theorem refuseWhen_ok {condition : Bool} {error : QueryError} {u : Unit} :
    refuseWhen condition error = .ok u ↔ condition = false := by
  cases condition <;> simp [refuseWhen]

end Lithograph.Query
