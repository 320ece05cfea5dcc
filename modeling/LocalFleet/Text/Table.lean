import LocalFleet.Text.Utf8

/-! Tables from texts to texts, in the order of their keys. -/

namespace LocalFleet

/-- Keys with their values, each key once, in increasing order of UTF-8 bytes. -/
abbrev Table := List (String × String)

namespace Table

def insert (key value : String) : Table → Table
  | [] => [(key, value)]
  | (k, v) :: rest =>
    if key = k then (key, value) :: rest
    else if Text.le key k then (key, value) :: (k, v) :: rest
    else (k, v) :: insert key value rest

def find? (table : Table) (key : String) : Option String := table.lookup key

/-- The table of a list of pairs; of two pairs with one key the later counts. -/
def ofPairs (pairs : List (String × String)) : Table :=
  pairs.foldl (fun t (k, v) => insert k v t) []

end Table

end LocalFleet
