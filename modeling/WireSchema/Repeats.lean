/-!
# Repeated names
-/

namespace WireSchema

/-- Those of `names` that stand before them already, in `earlier` or in `names` itself: each
occurrence but the first. -/
def repeatsAfter (earlier : List String) : List String → List String
  | [] => []
  | name :: names =>
    (if earlier.contains name then [name] else []) ++ repeatsAfter (earlier ++ [name]) names

/-- Every occurrence of a name but the first. -/
def repeats (names : List String) : List String := repeatsAfter [] names

end WireSchema
