/-! Paths as texts. -/

namespace LocalFleet.Path

/-- A path below another. An absolute path stands for itself, and a separator is put between the two
unless there is one. It is irreducible: a proof about what is written does not compute where. -/
@[irreducible] def join (base below : String) : String :=
  if below.toList.head? = some '/' ∨ base = "" then below
  else if base.toList.getLast? = some '/' then base ++ below
  else base ++ "/" ++ below

def ofPieces (pieces : List String) : String := "/" ++ "/".intercalate pieces

end LocalFleet.Path
