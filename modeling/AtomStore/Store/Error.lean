import AtomStore.Log.Error
import AtomStore.Text.Quoted

/-!
# Failures of stores and commits

A store refuses what it cannot do, or passes on a failure of its data file. A commit fails because
a verifier objects, because its record cannot be written, because the store is read-only, or because
the store refuses to publish.
-/

namespace AtomStore

/-- Why a store refuses an operation. -/
inductive StoreError where
  | readOnly
  | slotNotPending (id : Nat)
  | unknownAtom (id : Nat)
  | notBytes
  | noDataFile
  | duplicateIndex (name : String)
  | dataFile (error : LogError)
  deriving DecidableEq

/-- The wording of a store's refusal. -/
def StoreError.message : StoreError → String
  | readOnly => "store is read-only"
  | slotNotPending id => s!"slot {id} is not pending"
  | unknownAtom id => s!"atom {id} was not created by this expansion"
  | notBytes => "particle does not hold bytes"
  | noDataFile => "file-hosted payload requested from a store without a data file"
  | duplicateIndex name => s!"an index named {Text.quoted name} already exists"
  | dataFile error => error.message

/-- The causes of a refusal from the outermost to the innermost. -/
def StoreError.causes : StoreError → List String
  | dataFile error => error.causes
  | error => [error.message]

/-- Why a commit did not happen. -/
inductive CommitError where
  /-- A verifier objected; its reasons run from the outermost to the innermost. -/
  | verification (reasons : List String)
  | durability (error : LogError)
  | readOnly
  | store (error : StoreError)
  deriving DecidableEq

/-- The wording of a failed commit. -/
def CommitError.message : CommitError → String
  | verification reasons => "verification failed: " ++ String.intercalate ": " reasons
  | durability _ => "commit could not be made durable"
  | readOnly => "store is read-only"
  | store error => error.message

end AtomStore
