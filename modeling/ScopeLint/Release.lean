/-!
# Release
-/

namespace ScopeLint

/-- The release this library is. -/
def version : String := "0.1.0"

end ScopeLint
