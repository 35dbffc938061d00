import LazyCollections.Cbor.Error
import LazyCollections.Collection.Stage
import LazyCollections.Region
import LazyCollections.Session.Id
import LazyCollections.Shape
import LazyCollections.Slot

/-!
# Failures

An error is of one of ten kinds and says what caused it. The causes that the library itself knows
are constructors; sources of rows, persisters and element types may give a text of their own. Only
an unavailable source is worth another attempt.
-/

namespace LazyCollections

set_option autoImplicit false

inductive OperationKind where
  | clear
  | add
  | remove
  | replace
deriving DecidableEq

def OperationKind.name : OperationKind → String
  | clear => "clear"
  | add => "add"
  | remove => "remove"
  | replace => "replace"

/-- Why a collection cannot reach its session. -/
inductive LifecycleCause where
  | unattached (role : Role)
  | closed (session : SessionId)
  | ended (session : SessionId)
  | other (text : String)
deriving DecidableEq

inductive SourceCause where
  | offline
  /-- The persister was told to refuse the next change. -/
  | refused
  | region (error : RegionError)
  | other (text : String)
deriving DecidableEq

inductive InvariantCause where
  | misplaced (kind : OperationKind) (slot : String) (length : Nat)
  | replacesOther (expected found : String)
  | replacesNothing (expected : String)
  | unfitOperation (kind : OperationKind) (shape : Shape)
  | unfitRow (slot : RowSlot) (shape : Shape)
  | mixedShapes (snapshot contents : Shape)
  | other (text : String)
deriving DecidableEq

inductive OperationCause where
  | stillAttached (role : Role)
  | alreadyInitializing (role : Role)
  | cannotAssemble (stage : Stage) (role : Role)
  | cannotCompare (role : Role)
  | cannotFlush (role : Role)
  | readOnly (role : Role)
  | unknownOwner (slot : Nat)
  | occupied (owner : EntityId) (role : Role) (session : SessionId)
  | other (text : String)
deriving DecidableEq

inductive ConversionCause where
  /-- A value of another kind stands where `expected` belongs. -/
  | kind (expected found : String)
  /-- A stored part misses a field, or the field is malformed. -/
  | partWithout (field : String)
  | other (text : String)
deriving DecidableEq

inductive EntryCause where
  | noShape
  | noElements
  | noKeys
  | keyCount (shape : Shape) (keys elements : Nat)
  | other (text : String)
deriving DecidableEq

inductive Error where
  | lifecycle (cause : LifecycleCause)
  | bounds (index length : Nat)
  | sourceUnavailable (cause : SourceCause)
  | invariantViolation (cause : InvariantCause)
  | invalidOperation (cause : OperationCause)
  | shapeMismatch (expected found : Shape)
  | conversion (cause : ConversionCause)
  | malformedEntry (cause : EntryCause)
  | codec (error : CodecError)
  | cache (error : RegionError)
deriving DecidableEq

def LifecycleCause.message : LifecycleCause → String
  | unattached role => role.path ++ " is not attached to a session"
  | closed session => session.display ++ " is closed"
  | ended session => session.display ++ " has ended"
  | other text => text

def SourceCause.message : SourceCause → String
  | offline => "store is offline"
  | refused => "injected persister failure"
  | region error => "cache region: " ++ error.message
  | other text => text

def InvariantCause.message : InvariantCause → String
  | misplaced kind slot length =>
    "queued " ++ kind.name ++ " at " ++ slot ++ " does not fit a sequence of length " ++
      toString length
  | replacesOther expected found => "queued replace expected " ++ expected ++ ", found " ++ found
  | replacesNothing expected => "queued replace expected " ++ expected ++ ", found nothing"
  | unfitOperation kind shape =>
    kind.name ++ " operation does not fit a " ++ shape.name ++ " collection"
  | unfitRow slot shape =>
    "row slot " ++ slot.inspect Value.inspect ++ " does not fit a " ++ shape.name ++ " collection"
  | mixedShapes snapshot contents =>
    "snapshot is a " ++ snapshot.name ++ " but contents are a " ++ contents.name
  | other text => text

def OperationCause.message : OperationCause → String
  | stillAttached role => role.path ++ " is still attached to a live session"
  | alreadyInitializing role => role.path ++ " is already initializing"
  | cannotAssemble stage role => "cannot assemble " ++ stage.display ++ " collection " ++ role.path
  | cannotCompare role => "cannot diff uninitialized collection " ++ role.path
  | cannotFlush role => "cannot flush " ++ role.path ++ " while it initializes"
  | readOnly role => role.path ++ " is read-only"
  | unknownOwner slot => "no owner registered at slot " ++ toString slot
  | occupied owner role session =>
    "owner " ++ owner.display ++ " already has a collection for " ++ role.path ++ " in " ++
      session.display
  | other text => text

def ConversionCause.message : ConversionCause → String
  | kind expected found => "expected " ++ expected ++ ", found " ++ found
  | partWithout field => "part without a " ++ field
  | other text => text

def EntryCause.message : EntryCause → String
  | noShape => "missing or unknown shape"
  | noElements => "missing elements"
  | noKeys => "missing keys"
  | keyCount shape keys elements =>
    shape.name ++ " entry has " ++ toString keys ++ " keys for " ++ toString elements ++ " elements"
  | other text => text

namespace Error

/-- The name of the kind of failure. A failure of the encoded form or of a region also names its
own kind. -/
def kind : Error → String
  | lifecycle _ => "Lifecycle"
  | bounds _ _ => "Bounds"
  | sourceUnavailable _ => "SourceUnavailable"
  | invariantViolation _ => "InvariantViolation"
  | invalidOperation _ => "InvalidOperation"
  | shapeMismatch _ _ => "ShapeMismatch"
  | conversion _ => "Conversion"
  | malformedEntry _ => "MalformedEntry"
  | codec error => "Codec." ++ error.kind
  | cache error => "Cache." ++ error.kind

def message : Error → String
  | lifecycle cause =>
    "collection cannot be accessed outside its owning unit of work: " ++ cause.message
  | bounds index length =>
    "index " ++ toString index ++ " out of bounds for length " ++ toString length
  | sourceUnavailable cause => "source unavailable: " ++ cause.message
  | invariantViolation cause => "invariant violation: " ++ cause.message
  | invalidOperation cause => "invalid operation: " ++ cause.message
  | shapeMismatch expected found =>
    "shape mismatch: expected " ++ expected.name ++ ", found " ++ found.name
  | conversion cause => "conversion failed: " ++ cause.message
  | malformedEntry cause => "malformed cache entry: " ++ cause.message
  | codec error => "codec error: " ++ error.message
  | cache error => "cache error: " ++ error.message

def isRetryable : Error → Bool
  | sourceUnavailable _ => true
  | _ => false

end Error

end LazyCollections
