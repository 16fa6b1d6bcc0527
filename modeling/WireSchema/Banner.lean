/-!
# The banner of generated files
-/

namespace WireSchema

/-- The first line of every generated file. -/
def banner : String := "// Code generated by brine-proto. DO NOT EDIT."

end WireSchema
