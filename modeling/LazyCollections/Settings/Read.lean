import LazyCollections.Descriptor
import LazyCollections.Session.Config
import LazyCollections.Settings.Json

/-!
# Reading settings

A record is an object, or an array of its fields in order. Missing fields have their defaults and
unknown ones are ignored, but a known field may not be repeated and an array may not be longer
than the record. A choice is its name, or an object that holds null under the name.
-/

namespace LazyCollections.Settings

set_option autoImplicit false

def readBool : Json → Option Bool
  | .bool b => some b
  | _ => none

def readChoice {α : Type} (ofName? : String → Option α) : Json → Option α
  | .string raw => do ofName? (← Json.text? raw)
  | .object [(raw, .null)] => do ofName? (← Json.text? raw)
  | _ => none

/-- A field of a record: its name, and how its value changes the record. -/
structure Field (ρ : Type) where
  name : String
  set : Json → ρ → Option ρ

variable {ρ : Type}

/-- Names come decoded, since every name of a record is compared with its fields. -/
def setNamed (fields : List (Field ρ)) : List (String × Json) → ρ → Option ρ
  | [], record => some record
  | (name, value) :: rest, record =>
    match fields.find? fun f => f.name = name with
    | none => setNamed fields rest record
    | some field =>
      if rest.any fun later => later.1 = name then none
      else do setNamed fields rest (← field.set value record)

def setInOrder : List (Field ρ) → List Json → ρ → Option ρ
  | _, [], record => some record
  | [], _ :: _, _ => none
  | field :: fields, value :: values, record => do
    setInOrder fields values (← field.set value record)

def readRecord (fields : List (Field ρ)) (default : ρ) : Json → Option ρ
  | .object named => do
    let decoded ← named.mapM fun e => return (← Json.text? e.1, e.2)
    setNamed fields decoded default
  | .array values => setInOrder fields values default
  | _ => none

def sessionConfigFields : List (Field SessionConfig) :=
  [⟨"queue_operations", fun v c => return { c with queueOperations := ← readBool v }⟩,
   ⟨"cache_mode", fun v c => return { c with cacheMode := ← readChoice CacheMode.ofName? v }⟩,
   ⟨"default_read_only", fun v c => return { c with defaultReadOnly := ← readBool v }⟩]

def roleOptionsFields : List (Field RoleOptions) :=
  [⟨"queue_operations", fun v o => return { o with queueOperations := ← readBool v }⟩,
   ⟨"extra_lazy", fun v o => return { o with extraLazy := ← readBool v }⟩,
   ⟨"dirty_checking", fun v o => return { o with dirtyChecking := ← readBool v }⟩,
   ⟨"orphan_delete", fun v o => return { o with orphanDelete := ← readBool v }⟩,
   ⟨"cacheable", fun v o => return { o with cacheable := ← readBool v }⟩]

def sessionConfig? (text : String) : Option SessionConfig := do
  readRecord sessionConfigFields {} (← Json.parse text)

def roleOptions? (text : String) : Option RoleOptions := do
  readRecord roleOptionsFields {} (← Json.parse text)

def cacheMode? (text : String) : Option CacheMode := do
  readChoice CacheMode.ofName? (← Json.parse text)

def shape? (text : String) : Option Shape := do
  readChoice Shape.ofName? (← Json.parse text)

end LazyCollections.Settings
