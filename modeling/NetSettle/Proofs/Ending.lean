import NetSettle.Proofs.Raising

/-!
# How work ends that begins well

Work that begins where it should ends with an answer where it should, or with a fault that it may
end with. What a step needs may be less than what there was before it, so that work can spend a
budget on its way.
-/
namespace NetSettle

variable {ε σ α β : Type}

/-- Work that, begun where `P` holds, ends with an answer where `Q` holds or faults as `E` says. -/
def Ends (P : σ → Prop) (x : EStateM ε σ α) (Q : σ → Prop) (E : ε → σ → Prop) : Prop :=
  ∀ s, P s → match x.run s with
    | .ok _ s' => Q s'
    | .error e s' => E e s'

theorem Raises.ends {P Q : σ → Prop} {E : ε → Prop} {x : EStateM ε σ α} (h : Raises E x)
    (hQ : ∀ s, Q s) : Ends P x Q fun e s => E e ∧ Q s := by
  intro s _
  cases hrun : x.run s with
  | ok a s' => exact hQ s'
  | error e s' => exact ⟨h s e s' hrun, hQ s'⟩

namespace Ends

variable {P P' Q Q' R : σ → Prop} {E : ε → σ → Prop} {x y : EStateM ε σ α}

theorem of_ok (h : Ends P x Q E) {s s' : σ} {a : α} (hs : P s) (hrun : x.run s = .ok a s') :
    Q s' := by
  have hends := h s hs
  rwa [hrun] at hends

theorem of_error (h : Ends P x Q E) {s s' : σ} {e : ε} (hs : P s) (hrun : x.run s = .error e s') :
    E e s' := by
  have hends := h s hs
  rwa [hrun] at hends

theorem mono (h : Ends P x Q E) (hP : ∀ s, P' s → P s) (hQ : ∀ s, Q s → Q' s) :
    Ends P' x Q' E := by
  intro s hs
  have hends := h s (hP s hs)
  cases hrun : x.run s with
  | ok a s' =>
    rw [hrun] at hends
    exact hQ s' hends
  | error e s' =>
    rw [hrun] at hends
    exact hends

theorem pure (a : α) : Ends P (pure a : EStateM ε σ α) P E := fun _ h => h

theorem modify {f : σ → σ} (h : ∀ s, P s → Q (f s)) :
    Ends P (modify f : EStateM ε σ PUnit) Q E := h

theorem bind {f : α → EStateM ε σ β} (hx : Ends P x R E) (hf : ∀ a, Ends R (f a) Q E) :
    Ends P (x >>= f) Q E := by
  intro s hs
  have hends := hx s hs
  rw [EStateM.run_bind]
  cases hrun : x.run s with
  | ok a t =>
    rw [hrun] at hends
    exact hf a t hends
  | error e t =>
    rw [hrun] at hends
    exact hends

theorem lift_bind {x : Except ε α} {f : α → EStateM ε σ β}
    (hx : Refuses (fun e => ∀ s, P s → E e s) x) (hf : ∀ a, x = .ok a → Ends P (f a) Q E) :
    Ends P (monadLift x >>= f) Q E := by
  intro s hs
  cases x with
  | ok a => exact hf a rfl s hs
  | error e => exact hx e rfl s hs

theorem lift {x : Except ε α} (hx : Refuses (fun e => ∀ s, P s → E e s) x) :
    Ends P (monadLift x : EStateM ε σ α) P E := by
  intro s hs
  cases x with
  | ok a => exact hs
  | error e => exact hx e rfl s hs

theorem get_bind {f : σ → EStateM ε σ α} (hf : ∀ s, P s → Ends P (f s) Q E) :
    Ends P (get >>= f) Q E :=
  fun s hs => hf s hs s hs

theorem get_start {f : σ → EStateM ε σ α} (hf : ∀ s, P s → Ends (fun t => t = s) (f s) Q E) :
    Ends P (get >>= f) Q E :=
  fun s hs => hf s hs s rfl

theorem ite {p : Prop} [Decidable p] (hx : Ends P x Q E) (hy : Ends P y Q E) :
    Ends P (if p then x else y) Q E := by
  by_cases h : p
  · rwa [if_pos h]
  · rwa [if_neg h]

theorem guard {p : Prop} [Decidable p] {e : ε} {f : β → EStateM ε σ α}
    (he : ∀ s, P s → E e s) (hy : Ends P y Q E) :
    Ends P (if p then MonadExcept.throw e >>= f else y) Q E :=
  .ite (fun s hs => he s hs) hy

end Ends

end NetSettle
