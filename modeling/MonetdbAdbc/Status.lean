import Mathlib.Tactic

namespace MonetdbAdbc

inductive Status where
  | unknown
  | notImplemented
  | notFound
  | alreadyExists
  | invalidArguments
  | invalidState
  | invalidData
  | integrity
  | internal
  | io
  | cancelled
  | timeout
  | unauthenticated
  | unauthorized
  deriving DecidableEq, Repr

structure AdbcError where
  message : String
  status : Status
  sqlstate : Option String
  deriving DecidableEq, Repr

def adbcError (message : String) (status : Status) : AdbcError := ⟨message, status, none⟩

def contains (haystack needle : String) : Bool :=
  haystack.toList.tails.any fun tail => tail.take needle.length == needle.toList

end MonetdbAdbc
