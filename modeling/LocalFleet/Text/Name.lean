/-! Names made of random draws. -/

namespace LocalFleet.Name

def alphabet : List Char := "abcdefghijklmnopqrstuvwxyz0123456789".toList

def ofDraws (draws : List Nat) : String :=
  String.ofList (draws.map fun d => alphabet.getD (d % alphabet.length) 'a')

end LocalFleet.Name
