import NetSettle.Proofs.Faulting

/-!
# Work that answers alike

Work tracks other work if the two, begun in related states, end with the same answer or the same
fault and in related states. Work follows other work if that is so unless it ends with a fault of a
kind that is excused; the other work may then end as it likes. Work that is made of steps follows
what is made of the steps that its own steps follow.
-/
namespace NetSettle

inductive Matches {ε σ τ α : Type} (R : σ → τ → Prop) :
    EStateM.Result ε σ α → EStateM.Result ε τ α → Prop
  | ok {s : σ} {t : τ} (a : α) (h : R s t) : Matches R (.ok a s) (.ok a t)
  | error {s : σ} {t : τ} (e : ε) (h : R s t) : Matches R (.error e s) (.error e t)

namespace Matches

variable {ε σ τ α : Type} {R : σ → τ → Prop} {r : EStateM.Result ε σ α}
  {r' : EStateM.Result ε τ α}

theorem left_of_ok {a : α} {t : τ} (h : Matches R r (.ok a t)) : ∃ s, r = .ok a s ∧ R s t := by
  cases h with
  | ok _ h => exact ⟨_, rfl, h⟩

theorem left_of_error {e : ε} {t : τ} (h : Matches R r (.error e t)) :
    ∃ s, r = .error e s ∧ R s t := by
  cases h with
  | error _ h => exact ⟨_, rfl, h⟩

theorem right_of_ok {a : α} {s : σ} (h : Matches R (.ok a s) r') : ∃ t, r' = .ok a t ∧ R s t := by
  cases h with
  | ok _ h => exact ⟨_, rfl, h⟩

theorem right_of_error {e : ε} {s : σ} (h : Matches R (.error e s) r') :
    ∃ t, r' = .error e t ∧ R s t := by
  cases h with
  | error _ h => exact ⟨_, rfl, h⟩

end Matches

def Tracks {ε σ τ α : Type} (R : σ → τ → Prop) (x : EStateM ε σ α) (y : EStateM ε τ α) : Prop :=
  ∀ s t, R s t → Matches R (x.run s) (y.run t)

/-- Work that answers alike from related states and keeps them related, unless it faults in a way
that is excused. -/
def Follows {ε σ τ α : Type} (excused : ε → Prop) (R : σ → τ → Prop) (x : EStateM ε σ α)
    (y : EStateM ε τ α) : Prop :=
  ∀ s t, R s t → (∃ e s', excused e ∧ x.run s = .error e s') ∨ Matches R (x.run s) (y.run t)

variable {ε σ τ α β : Type} {excused : ε → Prop} {R : σ → τ → Prop}

theorem Tracks.follows {x : EStateM ε σ α} {y : EStateM ε τ α} (h : Tracks R x y) :
    Follows excused R x y :=
  fun s t hst => .inr (h s t hst)

theorem Follows.tracks {x : EStateM ε σ α} {y : EStateM ε τ α}
    (h : Follows (fun _ => False) R x y) : Tracks R x y := by
  intro s t hst
  rcases h s t hst with ⟨_, _, hnever, -⟩ | hmatches
  · exact hnever.elim
  · exact hmatches

namespace Follows

theorem pure (a : α) :
    Follows excused R (pure a : EStateM ε σ α) (pure a : EStateM ε τ α) :=
  fun _ _ h => .inr (.ok a h)

theorem throw (e : ε) :
    Follows excused R (throw e : EStateM ε σ α) (throw e : EStateM ε τ α) :=
  fun _ _ h => .inr (.error e h)

theorem lift (x : Except ε α) :
    Follows excused R (monadLift x : EStateM ε σ α) (monadLift x : EStateM ε τ α) := by
  intro s t h
  cases x with
  | ok a => exact .inr (.ok a h)
  | error e => exact .inr (.error e h)

theorem bind {x : EStateM ε σ α} {y : EStateM ε τ α} {f : α → EStateM ε σ β}
    {g : α → EStateM ε τ β} (hx : Follows excused R x y)
    (hf : ∀ a, Follows excused R (f a) (g a)) : Follows excused R (x >>= f) (y >>= g) := by
  intro s t h
  rw [EStateM.run_bind, EStateM.run_bind]
  rcases hx s t h with ⟨e, s', he, hrun⟩ | hrun
  · rw [hrun]
    exact .inl ⟨e, s', he, rfl⟩
  · generalize x.run s = r at hrun
    generalize y.run t = r' at hrun
    cases hrun with
    | ok a h' => exact hf a _ _ h'
    | error e h' => exact .inr (.error e h')

theorem get_bind {f : σ → EStateM ε σ α} {g : τ → EStateM ε τ α}
    (h : ∀ s t, R s t → Follows excused R (f s) (g t)) :
    Follows excused R (get >>= f) (get >>= g) :=
  fun s t hst => h s t hst s t hst

theorem ite {p : Prop} [Decidable p] {x x' : EStateM ε σ α} {y y' : EStateM ε τ α}
    (h : Follows excused R x y) (h' : Follows excused R x' y') :
    Follows excused R (if p then x else x') (if p then y else y') := by
  by_cases hp : p
  · rwa [if_pos hp, if_pos hp]
  · rwa [if_neg hp, if_neg hp]

theorem guard {p : Prop} [Decidable p] {e : ε} {f : β → EStateM ε σ α} {g : β → EStateM ε τ α}
    {x : EStateM ε σ α} {y : EStateM ε τ α} (h : Follows excused R x y) :
    Follows excused R (if p then MonadExcept.throw e >>= f else x)
      (if p then MonadExcept.throw e >>= g else y) :=
  .ite (fun _ _ hst => .inr (.error e hst)) h

end Follows

namespace Tracks

theorem refl (x : EStateM ε σ α) : Tracks (fun s t => t = s) x x := by
  rintro s t rfl
  cases hrun : x.run t with
  | ok a s' => exact .ok a rfl
  | error e s' => exact .error e rfl

theorem pure (a : α) : Tracks R (pure a : EStateM ε σ α) (pure a : EStateM ε τ α) :=
  (Follows.pure a).tracks

theorem lift (x : Except ε α) :
    Tracks R (monadLift x : EStateM ε σ α) (monadLift x : EStateM ε τ α) :=
  (Follows.lift x).tracks

theorem bind {x : EStateM ε σ α} {y : EStateM ε τ α} {f : α → EStateM ε σ β}
    {g : α → EStateM ε τ β} (hx : Tracks R x y) (hf : ∀ a, Tracks R (f a) (g a)) :
    Tracks R (x >>= f) (y >>= g) :=
  (Follows.bind hx.follows fun a => (hf a).follows).tracks

end Tracks

end NetSettle
