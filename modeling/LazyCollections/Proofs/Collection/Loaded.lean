import LazyCollections.Proofs.Collection.Handover
import LazyCollections.Proofs.Collection.Upholding

/-!
# Loaded collections

Once a collection is loaded it stays loaded, whatever is called on it and whether it succeeds or
fails: a call does no more than put other contents into it. So an unloaded collection has never been
loaded, and all of its changes were queued.
-/

namespace LazyCollections

set_option autoImplicit false

variable {T : ElementType} {K : Scalar} {σ : Type}

def Setting.IsLoaded (s : Setting T K σ) : Prop :=
  s.collection.isLoaded = true

namespace Setting.IsLoaded

open LazyCollections.Action

variable {s : Setting T K σ} {α : Type}

theorem stage_ne (h : s.IsLoaded) : s.collection.stage ≠ .uninitialized := by
  intro hstage
  rw [IsLoaded, Collection.isLoaded, hstage] at h
  cases h

theorem loseSession_eq (h : s.IsLoaded) :
    { s with collection := s.collection.loseSession } = s := by
  rw [Collection.loseSession, if_neg h.stage_ne]

section Calls

variable {P : Setting T K σ → Prop} (hloaded : ∀ {s}, P s → s.IsLoaded)
include hloaded

theorem keeps_ensureInitialized_of : Keeps P Action.ensureInitialized := by
  intro s h
  apply Ensures.ensureInitialized
  · exact fun _ => h
  · exact fun _ _ => h
  · exact fun _ _ => (hloaded h).loseSession_eq.symm ▸ h
  · exact fun _ _ hstage => absurd hstage (hloaded h).stage_ne

theorem keeps_fastSize_of : Keeps P fastSize := by
  intro s h
  apply Ensures.collection_bind
  rw [decide_eq_false (hloaded h).stage_ne]
  exact Ensures.pure h

/-- All that a call can do to a loaded collection is to put other contents into it. -/
theorem keeps_call_of {shape : Shape} (hput : ∀ {s} (contents : Aggregate T K)
    {later : Environment σ}, P s → s.environment.Records later →
      P ⟨{ s.collection with contents, dirty := true }, later⟩)
    (call : ShapedCall T K shape) : Keeps P call.run := by
  have hupholds : Upholds P P fun _ => P :=
    { settle := fun h => h
      of_loaded := fun h => h
      load := fun h => Ensures.loadedContents (keeps_ensureInitialized_of hloaded _ h)
      put := fun h _ _ => Ensures.putContents fun _ hlater => hput _ h hlater
      fastSize := keeps_fastSize_of hloaded
      queueClear := fun h hstage => absurd hstage (hloaded h).stage_ne }
  refine call.keeps ⟨hupholds, ?_, ?_⟩ ⟨hupholds, ?_⟩ ⟨hupholds, ?_⟩
  · exact fun _ h hstage => absurd hstage (hloaded h).stage_ne
  · exact fun _ h hstage => absurd hstage (hloaded h).stage_ne
  · exact fun _ h hstage => absurd hstage (hloaded h).stage_ne
  · exact fun _ h hstage => absurd hstage (hloaded h).stage_ne

end Calls

theorem keeps_ensureInitialized :
    Keeps (IsLoaded : Setting T K σ → Prop) Action.ensureInitialized :=
  keeps_ensureInitialized_of id

theorem keeps_call {shape : Shape} (call : ShapedCall T K shape) :
    Keeps (IsLoaded : Setting T K σ → Prop) call.run :=
  keeps_call_of id (fun _ _ h _ => h) call

theorem keeps_flush (persister : Persister T K σ) :
    Keeps (IsLoaded : Setting T K σ → Prop) (flush persister) := by
  intro s h
  have hsettled : s.collection.settled.isLoaded = true := by
    rw [Collection.isLoaded, Collection.stage_settled]
    exact h
  apply Ensures.flush
  · exact fun _ _ _ => h
  · exact fun _ _ _ => h.loseSession_eq.symm ▸ h
  · exact fun _ => h
  · exact fun _ _ _ _ => h
  · exact fun _ _ _ => h
  · intro session a hflushes _
    have hunloaded := hflushes.unloaded
    rw [h] at hunloaded
    cases hunloaded
  · intro a changes hover
    apply Ensures.flush_of_handsOver hover
    · intro _ _ session _ later _
      exact (EnvironmentAction.Ensures.evictCache (P := fun _ => True) trivial session _ a).mono
        (fun _ _ _ => hsettled) fun _ _ _ => hsettled
    · exact fun _ _ _ => h

end Setting.IsLoaded

end LazyCollections
