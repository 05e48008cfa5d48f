import Cose2.Cbor.Except

/-! # Errors

The crate-wide error type with its messages (`src/error.rs`).
-/
namespace Cose2

/-- `Error`. -/
inductive Error where
  | cbor (msg : String)
  | unexpectedType (msg : String)
  | verify (msg : String)
  | invalidState (msg : String)
  | algorithmMismatch (declared expected : String)
  | keyOperation (msg : String)
  | limitExceeded (resource : String) (limit : Nat)
  | custom (msg : String)
deriving DecidableEq, Repr

/-- `Display for Error`. -/
def Error.display : Error → String
  | .cbor msg => s!"cose: cbor error: {msg}"
  | .unexpectedType msg => s!"cose: unexpected type: {msg}"
  | .verify msg => s!"cose: verification failed: {msg}"
  | .invalidState msg => s!"cose: invalid state: {msg}"
  | .algorithmMismatch declared expected =>
    s!"cose: algorithm mismatch, declared {declared}, expected {expected}"
  | .keyOperation msg => s!"cose: key operation denied: {msg}"
  | .limitExceeded resource limit => s!"cose: {resource} limit {limit} exceeded"
  | .custom msg => s!"cose: {msg}"

end Cose2
