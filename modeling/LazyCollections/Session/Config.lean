/-!
# Configuration of a session
-/

namespace LazyCollections

set_option autoImplicit false

inductive CacheMode where
  | normal
  | get
  | put
  | ignore
deriving DecidableEq

namespace CacheMode

def all : List CacheMode := [normal, get, put, ignore]

def name : CacheMode → String
  | normal => "normal"
  | get => "get"
  | put => "put"
  | ignore => "ignore"

def ofName? (text : String) : Option CacheMode :=
  all.find? fun mode => mode.name = text

def reads : CacheMode → Bool
  | normal | get => true
  | put | ignore => false

def writes : CacheMode → Bool
  | normal | put => true
  | get | ignore => false

@[simp] theorem ofName?_name (mode : CacheMode) : ofName? mode.name = some mode := by
  cases mode <;> simp [ofName?, all, name]

end CacheMode

structure SessionConfig where
  queueOperations : Bool := true
  cacheMode : CacheMode := .normal
  defaultReadOnly : Bool := false
deriving DecidableEq

end LazyCollections
