/-!
# Exceptions

`ServiceError` becomes the HTTP error of a request; everything else a coroutine raises is a Python
exception, told apart by its class and text where the code does so.
-/

namespace RerankerService

inductive Error where
  | service (status : Nat) (code message : String)
  | runtimeError (message : String)
  | valueError (message : String)
  | exception (name message : String)
  | cancelled
  deriving DecidableEq, Repr

end RerankerService
