import LocalFleet.Node.Process
import LocalFleet.Json.Parser
import LocalFleet.Text.Decimal

/-! Stub programs: small shell scripts that stand for a node. They sleep, exit or end themselves by a
signal; whatever else they do takes no time. -/

namespace LocalFleet.Rehearsal.Stub

def words (line : List Char) : List String :=
  ((Text.splitOn ' ' line).filter (· ≠ [])).map String.ofList

def commands (script : String) : List (List String) :=
  ((Text.splitOn '\n' script.toList).filter (·.head? ≠ some '#')).flatMap fun line =>
    (Text.splitOn ';' line).map words

/-- The milliseconds that a number of seconds writes, which may have three places. -/
def milliseconds (seconds : String) : Nat :=
  match (Text.splitOn '.' seconds.toList) with
  | [whole] => 1000 * (Decimal.nat? whole).getD 0
  | whole :: places :: _ =>
    1000 * (Decimal.nat? whole).getD 0
      + (Decimal.nat? ((places ++ ['0', '0', '0']).take 3)).getD 0
  | [] => 0

def signal (text : String) : Nat :=
  match Decimal.nat? text.toList with
  | some n => n
  | none => (ExitStatus.signalNames.idxOf? ("SIG" ++ text)).elim 0 (· + 1)

/-- How a script runs from a command on, after so many milliseconds and a command that ended with
`last`. -/
def runFrom (span last : Nat) : List (List String) → Lifetime
  | [] => ⟨some span, .code last⟩
  | command :: rest =>
    match command with
    | "while" :: _ => ⟨none, .code 0⟩
    | [] => runFrom span last rest
    | ["exit"] => ⟨some span, .code last⟩
    | "exit" :: n :: _ => ⟨some span, .code ((Decimal.nat? n.toList).getD 0 % 256)⟩
    | ["exec", "sleep", n] => ⟨some (span + milliseconds n), .code 0⟩
    | ["sleep", n] => runFrom (span + milliseconds n) 0 rest
    | ["false"] => runFrom span 1 rest
    | ["kill", s, "$$"] => ⟨some span, .signal (signal ((s.drop 1).toString))⟩
    | _ => runFrom span 0 rest

def lifetime (content : Bytes) : Lifetime := runFrom 0 0 (commands ((Json.ofUtf8? content).getD ""))

end LocalFleet.Rehearsal.Stub
