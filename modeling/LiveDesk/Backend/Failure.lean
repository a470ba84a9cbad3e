/-!
# Backend failures

A backend that does not answer a request says why, in a coarse category and a text. Stores pass
failures on and never look at the text.
-/

namespace LiveDesk

/-- The category of a failure, for diagnostics. -/
inductive FailureKind where
  /-- The request got no usable answer. -/
  | transport
  /-- The backend refused the request. -/
  | rejected
  /-- The requested record does not exist. -/
  | notFound
  deriving DecidableEq, Repr, Inhabited

namespace FailureKind

/-- The name of a category. -/
def name : FailureKind → String
  | .transport => "transport"
  | .rejected => "rejected"
  | .notFound => "not_found"

end FailureKind

/-- Why a backend did not answer. -/
structure Failure where
  kind : FailureKind
  message : String
  deriving DecidableEq, Repr, Inhabited

namespace Failure

/-- The text that describes a failure. -/
def description (f : Failure) : String :=
  "backend " ++ f.kind.name ++ " error: " ++ f.message

end Failure

end LiveDesk
