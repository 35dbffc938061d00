/-!
# Numbers of sessions
-/

namespace LazyCollections

set_option autoImplicit false

/-- Sessions are counted from zero in the order in which they are opened, and shown counted from
one. -/
structure SessionId where
  index : Nat
deriving DecidableEq

namespace SessionId

def number (id : SessionId) : Nat :=
  id.index + 1

def display (id : SessionId) : String :=
  "uow:" ++ toString id.number

def inspect (id : SessionId) : String :=
  "UnitOfWorkId(" ++ toString id.number ++ ")"

end SessionId

end LazyCollections
