import NetSettle.Proofs.Faulting

/-!
# What work keeps, however it ends

Work keeps a property of its state if the property holds afterwards whenever it held before, whether
the work ended well or faulted in the middle. Work that is made of steps keeps what all of them
keep; a step may use what was read from the state and what a pure computation returned.
-/
namespace NetSettle

variable {ε σ α β : Type}

def Faulting.finalState : EStateM.Result ε σ α → σ
  | .ok _ s => s
  | .error _ s => s

open Faulting (finalState)

def Keeps (P : σ → Prop) (x : EStateM ε σ α) : Prop := ∀ s, P s → P (finalState (x.run s))

namespace Keeps

variable {P : σ → Prop}

theorem pure (a : α) : Keeps P (pure a : EStateM ε σ α) := fun _ h => h

theorem throw (e : ε) : Keeps P (throw e : EStateM ε σ α) := fun _ h => h

theorem lift (x : Except ε α) : Keeps P (monadLift x : EStateM ε σ α) := by
  intro s h
  cases x <;> exact h

theorem set {t : σ} (h : P t) : Keeps P (set t : EStateM ε σ PUnit) := fun _ _ => h

theorem modify {f : σ → σ} (h : ∀ s, P s → P (f s)) : Keeps P (modify f : EStateM ε σ PUnit) := h

theorem modifyGet {f : σ → α × σ} (h : ∀ s, P s → P (f s).2) :
    Keeps P (modifyGet f : EStateM ε σ α) := h

theorem bind {x : EStateM ε σ α} {f : α → EStateM ε σ β} (hx : Keeps P x)
    (hf : ∀ a, Keeps P (f a)) : Keeps P (x >>= f) := by
  intro s h
  have hs := hx s h
  rw [EStateM.run_bind]
  cases hrun : x.run s with
  | ok a t =>
    rw [hrun] at hs
    exact hf a t hs
  | error e t =>
    rw [hrun] at hs
    exact hs

theorem get_bind {f : σ → EStateM ε σ α} (hf : ∀ s, P s → Keeps P (f s)) : Keeps P (get >>= f) :=
  fun s h => hf s h s h

theorem lift_bind {x : Except ε α} {f : α → EStateM ε σ β} (hf : ∀ a, x = .ok a → Keeps P (f a)) :
    Keeps P (monadLift x >>= f) := by
  intro s h
  cases x with
  | ok a => exact hf a rfl s h
  | error e => exact h

theorem ite {p : Prop} [Decidable p] {x y : EStateM ε σ α} (hx : p → Keeps P x)
    (hy : ¬ p → Keeps P y) : Keeps P (if p then x else y) := by
  by_cases h : p
  · rw [if_pos h]
    exact hx h
  · rw [if_neg h]
    exact hy h

theorem guard {p : Prop} [Decidable p] {e : ε} {f : β → EStateM ε σ α} {y : EStateM ε σ α}
    (hy : ¬ p → Keeps P y) : Keeps P (if p then MonadExcept.throw e >>= f else y) :=
  .ite (fun _ _ h => h) hy

end Keeps

end NetSettle
