/-!
# Stages of a collection

A collection starts uninitialized, that is attached to a session but not loaded. Losing its session
before it is loaded makes it unbound. Once loaded it stays loaded.
-/

namespace LazyCollections

set_option autoImplicit false

inductive Stage where
  | unbound
  | uninitialized
  /-- The contents are being loaded; no collection is left in this stage. -/
  | initializing
  | initialized
  /-- Loaded, and closed to changes. -/
  | readOnlyInitialized
deriving DecidableEq

namespace Stage

def isLoaded : Stage → Bool
  | initialized | readOnlyInitialized => true
  | unbound | uninitialized | initializing => false

def display : Stage → String
  | unbound => "unbound"
  | uninitialized => "uninitialized"
  | initializing => "initializing"
  | initialized => "initialized"
  | readOnlyInitialized => "read-only"

def inspect : Stage → String
  | unbound => "Unbound"
  | uninitialized => "Uninitialized"
  | initializing => "Initializing"
  | initialized => "Initialized"
  | readOnlyInitialized => "ReadOnlyInitialized"

end Stage

end LazyCollections
