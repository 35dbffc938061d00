import LazyCollections.Role
import LazyCollections.Shape

/-!
# Descriptors of mapped collections
-/

namespace LazyCollections

set_option autoImplicit false

/-- How the collections of a role behave. -/
structure RoleOptions where
  /-- Changes to an unloaded collection may be queued. -/
  queueOperations : Bool := true
  /-- Sizes and single elements are asked for without loading everything. -/
  extraLazy : Bool := false
  /-- Loaded contents are compared with a copy of what is stored. -/
  dirtyChecking : Bool := true
  /-- Removed elements are reported, so that they can be deleted themselves. -/
  orphanDelete : Bool := false
  /-- Contents may be kept in a cache region. -/
  cacheable : Bool := false
deriving DecidableEq

structure Descriptor where
  role : Role
  shape : Shape
  options : RoleOptions := {}
deriving DecidableEq

end LazyCollections
