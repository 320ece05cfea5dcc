/-! Why the operating system refuses an operation on files or processes. -/

namespace LocalFleet

inductive Fault where
  | notFound
  | permissionDenied
  | alreadyExists
  | notADirectory
  | isADirectory
  | invalidInput
  | execFormat
  deriving DecidableEq, Repr

namespace Fault

def kind : Fault → String
  | notFound => "NotFound"
  | permissionDenied => "PermissionDenied"
  | alreadyExists => "AlreadyExists"
  | notADirectory => "NotADirectory"
  | isADirectory => "IsADirectory"
  | invalidInput => "InvalidInput"
  | execFormat => "Uncategorized"

def message : Fault → String
  | notFound => "No such file or directory (os error 2)"
  | permissionDenied => "Permission denied (os error 13)"
  | alreadyExists => "File exists (os error 17)"
  | notADirectory => "Not a directory (os error 20)"
  | isADirectory => "Is a directory (os error 21)"
  | invalidInput => "Invalid argument (os error 22)"
  | execFormat => "Exec format error (os error 8)"

end Fault

/-- The cause of a failed operation: a refusal of the system, or an account in words. -/
inductive IoCause where
  | system (fault : Fault)
  | described (text : String)
  deriving DecidableEq, Repr

def IoCause.message : IoCause → String
  | system fault => fault.message
  | described text => text

end LocalFleet
