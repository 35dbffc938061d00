import LazyCollections.Collection.LazyList
import LazyCollections.Collection.LazyMap
import LazyCollections.Collection.LazySet

/-!
# Calls as data

Every operation on the elements of a list, a set or a map as a call that can be stored, listed and
carried out, and the answers that such calls have.
-/

namespace LazyCollections

set_option autoImplicit false

inductive Answer (T : ElementType) (K : Scalar) where
  | done
  | flag (b : Bool)
  | count (n : Nat)
  | position (i : Option Nat)
  | element (e : Option T.Element)
  | elements (es : List T.Element)
  | slots (slots : List (Option T.Element))
  | keys (ks : List K.Carrier)
  | entries (es : List (K.Carrier × T.Element))

inductive ListCall (T : ElementType) where
  | size
  | isEmpty
  | get (i : Nat)
  | contains (e : T.Element)
  | indexOf (e : T.Element)
  | elements
  | slots
  | push (e : T.Element)
  | extend (es : List T.Element)
  | insert (i : Nat) (e : T.Element)
  | set (i : Nat) (e : T.Element)
  | setNull (i : Nat)
  | removeAt (i : Nat)
  | remove (e : T.Element)
  | clear
  | retain (keep : T.Element → Bool)
  | removeAll (es : List T.Element)

inductive SetCall (T : ElementType) where
  | size
  | isEmpty
  | get (id : T.Id)
  | contains (e : T.Element)
  | elements
  | insert (e : T.Element)
  | remove (e : T.Element)
  | clear
  | retain (keep : T.Element → Bool)

inductive MapCall (T : ElementType) (K : Scalar) where
  | size
  | isEmpty
  | get (k : K.Carrier)
  | containsKey (k : K.Carrier)
  | entries
  | keys
  | values
  | insert (k : K.Carrier) (e : T.Element)
  | remove (k : K.Carrier)
  | clear

variable {T : ElementType} {K : Scalar} {σ : Type}

def ListCall.run : ListCall T → Action T K σ (Answer T K)
  | size => return .count (← Action.size)
  | isEmpty => return .flag (← Action.isEmpty)
  | get i => return .element (← LazyList.get i)
  | contains e => return .flag (← LazyList.contains e)
  | indexOf e => return .position (← LazyList.indexOf e)
  | elements => return .elements (← LazyList.elements)
  | slots => return .slots (← LazyList.slots)
  | push e => do
    LazyList.push e
    return .done
  | extend es => do
    LazyList.extend es
    return .done
  | insert i e => do
    LazyList.insert i e
    return .done
  | set i e => return .element (← LazyList.set i e)
  | setNull i => return .element (← LazyList.setNull i)
  | removeAt i => return .element (← LazyList.removeAt i)
  | remove e => return .flag (← LazyList.remove e)
  | clear => do
    LazyList.clear
    return .done
  | retain keep => do
    LazyList.retain keep
    return .done
  | removeAll es => return .flag (← LazyList.removeAll es)

def SetCall.run : SetCall T → Action T K σ (Answer T K)
  | size => return .count (← Action.size)
  | isEmpty => return .flag (← Action.isEmpty)
  | get id => return .element (← LazySet.get id)
  | contains e => return .flag (← LazySet.contains e)
  | elements => return .elements (← LazySet.elements)
  | insert e => return .flag (← LazySet.insert e)
  | remove e => return .flag (← LazySet.remove e)
  | clear => do
    LazySet.clear
    return .done
  | retain keep => do
    LazySet.retain keep
    return .done

def MapCall.run : MapCall T K → Action T K σ (Answer T K)
  | size => return .count (← Action.size)
  | isEmpty => return .flag (← Action.isEmpty)
  | get k => return .element (← LazyMap.get k)
  | containsKey k => return .flag (← LazyMap.containsKey k)
  | entries => return .entries (← LazyMap.entries)
  | keys => return .keys (← LazyMap.keys)
  | values => return .elements (← LazyMap.values)
  | insert k e => return .element (← LazyMap.insert k e)
  | remove k => return .element (← LazyMap.remove k)
  | clear => do
    LazyMap.clear
    return .done

end LazyCollections
