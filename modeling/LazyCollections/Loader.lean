import LazyCollections.Aggregate.Builder

/-!
# Sources of rows

A loader is asked for the rows of a collection when it is loaded, and for single facts about them
when loading everything would be wasteful. It acts on a state `σ` of its own. A load is answered by
a feed: the rows in the order of their arrival, which may be announced, and the failure that ended
it, if any. The first row that does not fit ends a load as well.

A probe may be answered with none, which says that the loader does not know.
-/

namespace LazyCollections

set_option autoImplicit false

inductive FeedEvent where
  | announce (size : Nat)
  | row (slot : RowSlot) (value : Value)

structure Feed where
  events : List FeedEvent
  failure : Option Error

/-- What a loader knows about one position. -/
inductive ElementProbe where
  | absent
  | present (value : Value)
deriving DecidableEq

structure Loader (σ : Type) where
  load : CollectionKey → σ → Feed × σ
  size : CollectionKey → σ → Except Error (Option Nat) × σ
  hasElement : CollectionKey → Value → σ → Except Error (Option Bool) × σ
  elementAt : CollectionKey → RowSlot → σ → Except Error (Option ElementProbe) × σ

namespace Feed

variable {T : ElementType} {K : Scalar}

def step (b : Builder T K) : FeedEvent → Except Error (Builder T K)
  | .announce size => .ok (b.announce size)
  | .row slot value => b.read slot value

/-- The contents that the feed delivers to a collection of the given shape. -/
def contents (feed : Feed) (shape : Shape) : Except Error (Aggregate T K) := do
  let builder ← feed.events.foldlM step (Builder.start shape)
  match feed.failure with
  | some error => throw error
  | none => return builder.aggregate

end Feed

namespace Loader

variable {σ : Type}

/-- A loader that answers every load with one feed and knows nothing else. -/
def ofFeed (feed : Feed) : Loader σ where
  load _ s := (feed, s)
  size _ s := (.ok none, s)
  hasElement _ _ s := (.ok none, s)
  elementAt _ _ s := (.ok none, s)

end Loader

end LazyCollections
