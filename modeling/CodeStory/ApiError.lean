import Mathlib.Logic.Basic

/-!
# Errors of the interface

An error is a code and a message; the details a client may be given with it are not modelled.
-/

set_option autoImplicit false

namespace CodeStory

structure ApiError where
  code : String
  message : String
  deriving DecidableEq, Repr

def ApiError.internal (message : String) : ApiError := ⟨"internal", message⟩

def ApiError.invalidArgument (message : String) : ApiError := ⟨"invalid_argument", message⟩

end CodeStory
