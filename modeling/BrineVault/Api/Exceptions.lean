import Mathlib.Init

/-!
# The exceptions the services throw
-/

namespace BrineVault

/-- An exception that is answered with a status, and a body of a code and a message. -/
structure HttpException where
  status : Nat
  code : String
  message : String
  deriving DecidableEq, Repr

def UnauthorizedException (code message : String) : HttpException := { status := 401, code, message }
def ForbiddenException (code message : String) : HttpException := { status := 403, code, message }
def NotFoundException (code message : String) : HttpException := { status := 404, code, message }

end BrineVault
