import LazyCollections.Proofs.Value.Order

/-!
# Values that differ in the order of map entries

`Rearranged` relates two values that were put together alike, except that the entries of any of
their maps, also of maps inside keys, came in another order. As long as no map has one key twice,
such values have one canonical form, which is itself a rearrangement of them.
-/

namespace LazyCollections

set_option autoImplicit false

namespace Value

theorem canonicalItems_eq_map (vs : List Value) : canonicalItems vs = vs.map canonical := by
  induction vs with
  | nil => rfl
  | cons v vs ih => rw [canonicalItems, ih, List.map_cons]

theorem canonicalEntries_eq_map (es : List (Value × Value)) :
    canonicalEntries es = es.map (Prod.map canonical canonical) := by
  induction es with
  | nil => rfl
  | cons e es ih =>
    rw [canonicalEntries, ih, List.map_cons]
    rfl

theorem canonicalEntries_perm {es fs : List (Value × Value)} (h : es.Perm fs) :
    (canonicalEntries es).Perm (canonicalEntries fs) := by
  rw [canonicalEntries_eq_map, canonicalEntries_eq_map]
  exact h.map _

mutual

/-- No map, also inside keys, has two entries whose keys have one canonical form. -/
def DistinctKeys : Value → Prop
  | array items => DistinctKeysInItems items
  | map entries =>
    ((canonicalEntries entries).map Prod.fst).Nodup ∧ DistinctKeysInEntries entries
  | _ => True

def DistinctKeysInItems : List Value → Prop
  | [] => True
  | v :: vs => DistinctKeys v ∧ DistinctKeysInItems vs

def DistinctKeysInEntries : List (Value × Value) → Prop
  | [] => True
  | (k, v) :: es => DistinctKeys k ∧ DistinctKeys v ∧ DistinctKeysInEntries es

end

theorem distinctKeysInEntries_iff {es : List (Value × Value)} :
    DistinctKeysInEntries es ↔ ∀ e ∈ es, e.1.DistinctKeys ∧ e.2.DistinctKeys := by
  induction es with
  | nil => simp [DistinctKeysInEntries]
  | cons e es ih => simp [DistinctKeysInEntries, ih, and_assoc]

theorem distinctKeysInEntries_perm {es fs : List (Value × Value)} (h : es.Perm fs) :
    DistinctKeysInEntries es ↔ DistinctKeysInEntries fs := by
  simp only [distinctKeysInEntries_iff, h.mem_iff]

mutual

/-- The second value is the first one with the entries of its maps in any order, at every depth and
inside keys too. -/
inductive Rearranged : Value → Value → Prop
  | same (v : Value) : Rearranged v v
  | array {vs ws : List Value} (items : RearrangedItems vs ws) : Rearranged (array vs) (array ws)
  | map {es fs gs : List (Value × Value)} (entries : RearrangedEntries es fs)
      (order : fs.Perm gs) : Rearranged (map es) (map gs)

inductive RearrangedItems : List Value → List Value → Prop
  | nil : RearrangedItems [] []
  | cons {v w : Value} {vs ws : List Value} (head : Rearranged v w)
      (tail : RearrangedItems vs ws) : RearrangedItems (v :: vs) (w :: ws)

inductive RearrangedEntries : List (Value × Value) → List (Value × Value) → Prop
  | nil : RearrangedEntries [] []
  | cons {k l v w : Value} {es fs : List (Value × Value)} (key : Rearranged k l)
      (value : Rearranged v w) (tail : RearrangedEntries es fs) :
      RearrangedEntries ((k, v) :: es) ((l, w) :: fs)

end

mutual

theorem rearranged_canonical (v : Value) : v.Rearranged v.canonical := by
  cases v with
  | null => exact .same _
  | bool b => exact .same _
  | integer n => exact .same _
  | bytes bs => exact .same _
  | text s => exact .same _
  | array items => exact .array (rearrangedItems_canonical items)
  | map entries =>
    exact .map (rearrangedEntries_canonical entries) (sortEntries_perm _).symm

theorem rearrangedItems_canonical (vs : List Value) : RearrangedItems vs (canonicalItems vs) := by
  cases vs with
  | nil => exact .nil
  | cons v vs => exact .cons (rearranged_canonical v) (rearrangedItems_canonical vs)

theorem rearrangedEntries_canonical (es : List (Value × Value)) :
    RearrangedEntries es (canonicalEntries es) := by
  cases es with
  | nil => exact .nil
  | cons e es =>
    exact .cons (rearranged_canonical e.1) (rearranged_canonical e.2)
      (rearrangedEntries_canonical es)

end

theorem depthOfEntries_eq_of_perm {es fs : List (Value × Value)} (h : es.Perm fs) :
    depthOfEntries es = depthOfEntries fs := by
  induction h with
  | nil => rfl
  | cons e h ih => rw [depthOfEntries, depthOfEntries, ih]
  | swap e f es =>
    simp only [depthOfEntries]
    omega
  | trans h₁ h₂ ih₁ ih₂ => exact ih₁.trans ih₂

mutual

theorem Rearranged.depth_eq {v w : Value} : v.Rearranged w → w.depth = v.depth
  | .same _ => rfl
  | .array items => by rw [depth, depth, items.depth_eq]
  | .map entries order => by
    rw [depth, depth, ← depthOfEntries_eq_of_perm order, entries.depth_eq]

theorem RearrangedItems.depth_eq {vs ws : List Value} :
    RearrangedItems vs ws → depthOfItems ws = depthOfItems vs
  | .nil => rfl
  | .cons head tail => by rw [depthOfItems, depthOfItems, head.depth_eq, tail.depth_eq]

theorem RearrangedEntries.depth_eq {es fs : List (Value × Value)} :
    RearrangedEntries es fs → depthOfEntries fs = depthOfEntries es
  | .nil => rfl
  | .cons key value tail => by
    rw [depthOfEntries, depthOfEntries, key.depth_eq, value.depth_eq, tail.depth_eq]

end

theorem RearrangedItems.length_eq {vs ws : List Value} :
    RearrangedItems vs ws → ws.length = vs.length
  | .nil => rfl
  | .cons _ tail => by rw [List.length_cons, List.length_cons, tail.length_eq]

theorem RearrangedEntries.length_eq {es fs : List (Value × Value)} :
    RearrangedEntries es fs → fs.length = es.length
  | .nil => rfl
  | .cons _ _ tail => by rw [List.length_cons, List.length_cons, tail.length_eq]

mutual

/-- A repeated key stays one in every rearrangement. Without any, all have one canonical form. -/
theorem Rearranged.canonical_eq {v w : Value} : v.Rearranged w →
    (v.DistinctKeys ↔ w.DistinctKeys) ∧ (v.DistinctKeys → w.canonical = v.canonical)
  | .same _ => ⟨Iff.rfl, fun _ => rfl⟩
  | .array items => by
    obtain ⟨hiff, hcanonical⟩ := items.canonical_eq
    refine ⟨hiff, fun h => ?_⟩
    rw [canonical, canonical, hcanonical h]
  | @Rearranged.map es _ gs entries order => by
    obtain ⟨hiff, hcanonical⟩ := entries.canonical_eq
    have hparts : DistinctKeysInEntries es ↔ DistinctKeysInEntries gs :=
      hiff.trans (distinctKeysInEntries_perm order)
    have hperm := canonicalEntries_perm order
    have hkeys (h : DistinctKeysInEntries es) :
        ((canonicalEntries es).map Prod.fst).Nodup ↔
          ((canonicalEntries gs).map Prod.fst).Nodup := by
      rw [← hcanonical h]
      exact (hperm.map Prod.fst).nodup_iff
    refine ⟨⟨fun h => ⟨(hkeys h.2).mp h.1, hparts.mp h.2⟩,
      fun h => ⟨(hkeys (hparts.mpr h.2)).mpr h.1, hparts.mpr h.2⟩⟩, fun h => ?_⟩
    have hdistinct := (hkeys h.2).mp h.1
    rw [canonical, canonical, ← hcanonical h.2, sortEntries_eq_of_perm hperm.symm hdistinct]

theorem RearrangedItems.canonical_eq {vs ws : List Value} : RearrangedItems vs ws →
    (DistinctKeysInItems vs ↔ DistinctKeysInItems ws) ∧
      (DistinctKeysInItems vs → canonicalItems ws = canonicalItems vs)
  | .nil => ⟨Iff.rfl, fun _ => rfl⟩
  | .cons head tail => by
    obtain ⟨hiff, hcanonical⟩ := head.canonical_eq
    obtain ⟨hrestIff, hrest⟩ := tail.canonical_eq
    refine ⟨and_congr hiff hrestIff, fun h => ?_⟩
    rw [canonicalItems, canonicalItems, hcanonical h.1, hrest h.2]

theorem RearrangedEntries.canonical_eq {es fs : List (Value × Value)} : RearrangedEntries es fs →
    (DistinctKeysInEntries es ↔ DistinctKeysInEntries fs) ∧
      (DistinctKeysInEntries es → canonicalEntries fs = canonicalEntries es)
  | .nil => ⟨Iff.rfl, fun _ => rfl⟩
  | .cons key value tail => by
    obtain ⟨hkeyIff, hkey⟩ := key.canonical_eq
    obtain ⟨hvalueIff, hvalue⟩ := value.canonical_eq
    obtain ⟨hrestIff, hrest⟩ := tail.canonical_eq
    refine ⟨and_congr hkeyIff (and_congr hvalueIff hrestIff), fun h => ?_⟩
    rw [canonicalEntries, canonicalEntries, hkey h.1, hvalue h.2.1, hrest h.2.2]

end

end Value

end LazyCollections
