/-!
# Version

The version of the library, as it is logged and shown.
-/

namespace LiveDesk

/-- The version of the library. -/
def version : String := "0.1.0"

end LiveDesk
