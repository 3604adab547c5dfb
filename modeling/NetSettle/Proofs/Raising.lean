import NetSettle.Proofs.Faulting

/-!
# What work can fault with

Work raises a kind of faults if it ends with no other. Work that is made of steps raises what its
steps raise; the steps of work on a state may be pure computations, which refuse with a kind of
faults in the same sense.
-/
namespace NetSettle

variable {ε σ α β : Type}

def Refuses (Q : ε → Prop) (x : Except ε α) : Prop := ∀ e, x = .error e → Q e

def Raises (Q : ε → Prop) (x : EStateM ε σ α) : Prop := ∀ s e s', x.run s = .error e s' → Q e

namespace Refuses

variable {Q : ε → Prop}

theorem ok (a : α) : Refuses Q (.ok a : Except ε α) := nofun

theorem error {e : ε} (h : Q e) : Refuses Q (.error e : Except ε α) := by
  rintro _ ⟨⟩
  exact h

theorem bind {x : Except ε α} {f : α → Except ε β} (hx : Refuses Q x)
    (hf : ∀ a, Refuses Q (f a)) : Refuses Q (x >>= f) := by
  intro e h
  cases hrun : x with
  | error e' =>
    rw [hrun] at h
    cases h
    exact hx e hrun
  | ok a =>
    rw [hrun] at h
    exact hf a e h

theorem ite {p : Prop} [Decidable p] {x y : Except ε α} (hx : Refuses Q x) (hy : Refuses Q y) :
    Refuses Q (if p then x else y) := by
  by_cases h : p
  · rwa [if_pos h]
  · rwa [if_neg h]

theorem mono {Q' : ε → Prop} {x : Except ε α} (h : Refuses Q x) (hQ : ∀ e, Q e → Q' e) :
    Refuses Q' x :=
  fun e he => hQ e (h e he)

end Refuses

namespace Raises

variable {Q : ε → Prop}

theorem pure (a : α) : Raises Q (pure a : EStateM ε σ α) := nofun

theorem throw {e : ε} (h : Q e) : Raises Q (throw e : EStateM ε σ α) := by
  rintro _ _ _ ⟨⟩
  exact h

theorem lift {x : Except ε α} (h : Refuses Q x) : Raises Q (monadLift x : EStateM ε σ α) := by
  rintro s e s' hrun
  cases x with
  | ok a => cases hrun
  | error e' =>
    cases hrun
    exact h e rfl

theorem set (s : σ) : Raises Q (set s : EStateM ε σ PUnit) := nofun

theorem modify (f : σ → σ) : Raises Q (modify f : EStateM ε σ PUnit) := nofun

theorem modifyGet (f : σ → α × σ) : Raises Q (modifyGet f : EStateM ε σ α) := nofun

theorem bind {x : EStateM ε σ α} {f : α → EStateM ε σ β} (hx : Raises Q x)
    (hf : ∀ a, Raises Q (f a)) : Raises Q (x >>= f) := by
  intro s e s' h
  rw [EStateM.run_bind] at h
  cases hrun : x.run s with
  | ok a t =>
    rw [hrun] at h
    exact hf a t e s' h
  | error e' t =>
    rw [hrun] at h
    cases h
    exact hx s e s' hrun

theorem get_bind {f : σ → EStateM ε σ α} (hf : ∀ s, Raises Q (f s)) : Raises Q (get >>= f) :=
  fun s e s' h => hf s s e s' h

theorem ite {p : Prop} [Decidable p] {x y : EStateM ε σ α} (hx : Raises Q x) (hy : Raises Q y) :
    Raises Q (if p then x else y) := by
  by_cases h : p
  · rwa [if_pos h]
  · rwa [if_neg h]

theorem guard {p : Prop} [Decidable p] {e : ε} {f : β → EStateM ε σ α} {y : EStateM ε σ α}
    (he : Q e) (hy : Raises Q y) : Raises Q (if p then MonadExcept.throw e >>= f else y) :=
  .ite (.throw he) hy

end Raises

end NetSettle
