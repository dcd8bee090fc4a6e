/-!
The version of this library.
-/

namespace Blueprint

/-- The version of resolution. -/
def resolutionVersion : String := "0.1.0"

/-- The version of the registry. -/
def registryVersion : String := "0.1.0"

end Blueprint
