import LocalFleet.Files.Tree

/-! Processes as their supervisor sees them: whether a program can be started, how long it runs, and
how it ends. -/

namespace LocalFleet

inductive ExitStatus where
  | code (n : Nat)
  | signal (number : Nat)
  deriving DecidableEq, Repr

namespace ExitStatus

/-- The names of signals, from number one on. -/
def signalNames : List String :=
  ["SIGHUP", "SIGINT", "SIGQUIT", "SIGILL", "SIGTRAP", "SIGABRT", "SIGBUS", "SIGFPE", "SIGKILL",
   "SIGUSR1", "SIGSEGV", "SIGUSR2", "SIGPIPE", "SIGALRM", "SIGTERM", "SIGSTKFLT", "SIGCHLD", "SIGCONT",
   "SIGSTOP", "SIGTSTP", "SIGTTIN", "SIGTTOU", "SIGURG", "SIGXCPU", "SIGXFSZ", "SIGVTALRM", "SIGPROF",
   "SIGWINCH", "SIGIO", "SIGPWR", "SIGSYS"]

def text : ExitStatus → String
  | code n => s!"exit status: {n}"
  | signal number =>
    match if number = 0 then none else signalNames[number - 1]? with
    | some name => s!"signal: {number} ({name})"
    | none => s!"signal: {number}"

end ExitStatus

structure Lifetime where
  /-- milliseconds -/
  span : Option Nat
  status : ExitStatus
  deriving DecidableEq, Repr

namespace Program

open Files

def interpreted : Bytes := Text.bytes "#!"

/-- The content of the program that a path names. A name without a directory is looked for among the
installed programs, where there is none. -/
def find (cwd : Place) (path : String) (t : Tree) : Except Fault Bytes :=
  if !path.toList.contains '/' then .error .notFound
  else match t.locate (place cwd path) with
    | .error fault => .error fault
    | .ok none => .error .notFound
    | .ok (some .dir) => .error .permissionDenied
    | .ok (some (.file content mode)) =>
      if mode &&& 0o111 = 0 then .error .permissionDenied
      else if interpreted.isPrefixOf content then .ok content
      else .error .execFormat

end Program

end LocalFleet
