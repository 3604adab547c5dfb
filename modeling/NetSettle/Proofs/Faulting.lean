import NetSettle.Fault

/-!
# Reading work that may fault

Work that ended well is taken apart into its steps: each lemma says when one form of work ends
with a value, and in which state. The lemmas are a simp set for hypotheses about runs.
-/
namespace NetSettle.Faulting

variable {σ α β : Type} {ε : Type}

theorem run_bind_eq_ok {x : EStateM ε σ α} {f : α → EStateM ε σ β} {s s' : σ} {b : β} :
    (x >>= f).run s = .ok b s' ↔ ∃ a t, x.run s = .ok a t ∧ (f a).run t = .ok b s' := by
  rw [EStateM.run_bind]
  cases hx : x.run s with
  | ok a t =>
    constructor
    · intro h
      exact ⟨a, t, rfl, h⟩
    · rintro ⟨_, _, h, h'⟩
      cases h
      exact h'
  | error e t => simp

theorem run_bind_of_ok {x : EStateM ε σ α} {s t : σ} {a : α} (h : x.run s = .ok a t)
    (f : α → EStateM ε σ β) : (x >>= f).run s = (f a).run t := by
  rw [EStateM.run_bind, h]

theorem run_bind_of_error {x : EStateM ε σ α} {s t : σ} {e : ε} (h : x.run s = .error e t)
    (f : α → EStateM ε σ β) : (x >>= f).run s = .error e t := by
  rw [EStateM.run_bind, h]

theorem run_get_bind (f : σ → EStateM ε σ α) (s : σ) : (get >>= f).run s = (f s).run s := rfl

theorem run_lift_ok_bind (a : α) (f : α → EStateM ε σ β) (s : σ) :
    (monadLift (.ok a : Except ε α) >>= f).run s = (f a).run s := rfl

theorem run_mapM_cons_of_ok {f : α → EStateM ε σ β} {a : α} {as : List α} {b : β} {bs : List β}
    {s s' s'' : σ} (h : (f a).run s = .ok b s') (hrest : (as.mapM f).run s' = .ok bs s'') :
    ((a :: as).mapM f).run s = .ok (b :: bs) s'' := by
  rw [List.mapM_cons, run_bind_of_ok h, run_bind_of_ok hrest]
  rfl

theorem run_mapM_cons_eq_ok {f : α → EStateM ε σ β} {a : α} {as : List α} {bs : List β}
    {s s'' : σ} : ((a :: as).mapM f).run s = .ok bs s'' ↔ ∃ b s' rest,
      (f a).run s = .ok b s' ∧ (as.mapM f).run s' = .ok rest s'' ∧ bs = b :: rest := by
  constructor
  · intro h
    rw [List.mapM_cons, run_bind_eq_ok] at h
    obtain ⟨b, s', hfirst, h⟩ := h
    obtain ⟨rest, _, hrest, h⟩ := run_bind_eq_ok.1 h
    cases h
    exact ⟨b, s', rest, hfirst, hrest, rfl⟩
  · rintro ⟨b, s', rest, hfirst, hrest, rfl⟩
    exact run_mapM_cons_of_ok hfirst hrest

theorem run_pure_eq_ok {a b : α} {s s' : σ} :
    (pure a : EStateM ε σ α).run s = .ok b s' ↔ a = b ∧ s = s' := by
  simp

theorem run_throw_eq_ok {e : ε} {a : α} {s s' : σ} :
    (throw e : EStateM ε σ α).run s = .ok a s' ↔ False := by
  constructor
  · intro h
    cases h
  · exact False.elim

theorem run_get_eq_ok {s t s' : σ} :
    (get : EStateM ε σ σ).run s = .ok t s' ↔ s = t ∧ s = s' := by
  simp

theorem run_set_eq_ok {t s s' : σ} {u : PUnit} :
    (set t : EStateM ε σ PUnit).run s = .ok u s' ↔ t = s' := by
  simp

theorem run_modify_eq_ok {f : σ → σ} {s s' : σ} {u : PUnit} :
    (modify f : EStateM ε σ PUnit).run s = .ok u s' ↔ f s = s' := by
  simp

theorem run_modifyGet_eq_ok {f : σ → α × σ} {s s' : σ} {a : α} :
    (modifyGet f : EStateM ε σ α).run s = .ok a s' ↔ (f s).1 = a ∧ (f s).2 = s' := by
  simp

theorem run_lift_eq_ok {x : Except ε α} {s s' : σ} {a : α} :
    (monadLift x : EStateM ε σ α).run s = .ok a s' ↔ x = .ok a ∧ s = s' := by
  cases x with
  | ok b =>
    change EStateM.Result.ok b s = EStateM.Result.ok a s' ↔ _
    simp
  | error e =>
    change EStateM.Result.error e s = EStateM.Result.ok a s' ↔ _
    simp

theorem run_get_bind_eq_ok {f : σ → EStateM ε σ α} {s s' : σ} {a : α} :
    (get >>= f).run s = .ok a s' ↔ (f s).run s = .ok a s' :=
  Iff.rfl

theorem run_lift_bind_eq_ok {x : Except ε α} {f : α → EStateM ε σ β} {s s' : σ} {b : β} :
    (monadLift x >>= f).run s = .ok b s' ↔ ∃ a, x = .ok a ∧ (f a).run s = .ok b s' := by
  simp only [run_bind_eq_ok, run_lift_eq_ok]
  constructor
  · rintro ⟨a, _, ⟨hx, rfl⟩, h⟩
    exact ⟨a, hx, h⟩
  · rintro ⟨a, hx, h⟩
    exact ⟨a, s, ⟨hx, rfl⟩, h⟩

theorem run_ite_eq_ok {p : Prop} [Decidable p] {x y : EStateM ε σ α} {s s' : σ} {a : α} :
    (if p then x else y).run s = .ok a s' ↔
      (p ∧ x.run s = .ok a s') ∨ (¬ p ∧ y.run s = .ok a s') := by
  by_cases h : p <;> simp [h]

theorem run_guard_eq_ok {p : Prop} [Decidable p] {e : ε} {x : β → EStateM ε σ α}
    {y : EStateM ε σ α} {s s' : σ} {a : α} :
    (if p then throw e >>= x else y).run s = .ok a s' ↔ ¬ p ∧ y.run s = .ok a s' := by
  simp only [run_ite_eq_ok, run_bind_eq_ok, run_throw_eq_ok, false_and, exists_false, and_false,
    false_or]

theorem run_get_bind_eq_error {f : σ → EStateM ε σ α} {s s' : σ} {e : ε} :
    (get >>= f).run s = .error e s' ↔ (f s).run s = .error e s' :=
  Iff.rfl

theorem run_lift_bind_eq_error {x : Except ε α} {f : α → EStateM ε σ β} {s s' : σ} {e : ε} :
    (monadLift x >>= f).run s = .error e s' ↔
      (x = .error e ∧ s = s') ∨ ∃ a, x = .ok a ∧ (f a).run s = .error e s' := by
  cases x with
  | ok a =>
    change (f a).run s = .error e s' ↔ _
    simp
  | error e' =>
    change EStateM.Result.error e' s = EStateM.Result.error e s' ↔ _
    simp

theorem run_guard_eq_error {p : Prop} [Decidable p] {e e' : ε} {x : β → EStateM ε σ α}
    {y : EStateM ε σ α} {s s' : σ} :
    (if p then throw e >>= x else y).run s = .error e' s' ↔
      (p ∧ e = e' ∧ s = s') ∨ (¬ p ∧ y.run s = .error e' s') := by
  by_cases h : p
  · simp only [h, if_true, true_and, not_true, false_and, or_false]
    change EStateM.Result.error e s = EStateM.Result.error e' s' ↔ _
    simp
  · simp [h]

theorem run_bind_pure_eq_error {x : EStateM ε σ α} {f : α → β} {s s' : σ} {e : ε} :
    (x >>= fun a => pure (f a)).run s = .error e s' ↔ x.run s = .error e s' := by
  rw [EStateM.run_bind]
  cases x.run s with
  | ok a t => simp
  | error e t => simp

theorem bind_eq_ok {x : Except ε α} {f : α → Except ε β} {b : β} :
    x >>= f = .ok b ↔ ∃ a, x = .ok a ∧ f a = .ok b := by
  cases x with
  | ok a => simp [bind, Except.bind]
  | error e => simp [bind, Except.bind]

theorem guard_eq_ok {p : Prop} [Decidable p] {e : ε} {f : β → Except ε α} {y : Except ε α}
    {a : α} : (if p then throw e >>= f else y) = .ok a ↔ ¬ p ∧ y = .ok a := by
  by_cases h : p <;> simp [h, bind, Except.bind, throw, throwThe, MonadExceptOf.throw]

theorem pure_eq_ok {a b : α} : (pure a : Except ε α) = .ok b ↔ a = b := by
  simp [pure, Except.pure]

theorem bind_eq_error {x : Except ε α} {f : α → Except ε β} {e : ε} :
    x >>= f = .error e ↔ x = .error e ∨ ∃ a, x = .ok a ∧ f a = .error e := by
  cases x with
  | ok a => simp [bind, Except.bind]
  | error e' => simp [bind, Except.bind]

theorem guard_eq_error {p : Prop} [Decidable p] {e e' : ε} {f : β → Except ε α}
    {y : Except ε α} :
    (if p then throw e >>= f else y) = .error e' ↔ (p ∧ e = e') ∨ (¬ p ∧ y = .error e') := by
  by_cases h : p <;> simp [h, bind, Except.bind, throw, throwThe, MonadExceptOf.throw]

theorem pure_eq_error {a : α} {e : ε} : (pure a : Except ε α) = .error e ↔ False := by
  simp [pure, Except.pure]

theorem map_eq_error {f : α → β} {x : Except ε α} {e : ε} :
    x.map f = .error e ↔ x = .error e := by
  cases x with
  | ok a => simp [Except.map]
  | error e' => simp [Except.map]

theorem ok_bind (a : α) (f : α → Except ε β) : (.ok a : Except ε α) >>= f = f a := rfl

theorem bind_congr_ok {x : Except ε α} {f g : α → Except ε β} (h : ∀ a, x = .ok a → f a = g a) :
    x >>= f = x >>= g := by
  cases x with
  | ok a => exact h a rfl
  | error e => rfl

theorem guard_congr {p : Prop} [Decidable p] {e : ε} {f g : β → Except ε α} {y z : Except ε α}
    (h : ¬ p → y = z) :
    (if p then throw e >>= f else y) = (if p then throw e >>= g else z) := by
  by_cases hp : p
  · rw [if_pos hp, if_pos hp]
    rfl
  · rw [if_neg hp, if_neg hp, h hp]

def fault? : EStateM.Result ε σ α → Option ε
  | .ok _ _ => none
  | .error e _ => some e

/-- The fault of a run is the one that has a cause, if only faults with a cause are raised, none has
a cause where the run ends well, and no two have one. -/
theorem fault?_eq_some_iff {r : EStateM.Result ε σ α} {cause : ε → Prop}
    (herror : ∀ e s, r = .error e s → cause e) (hok : ∀ a s, r = .ok a s → ∀ e, ¬ cause e)
    (hone : ∀ e e', cause e → cause e' → e = e') {e : ε} : fault? r = some e ↔ cause e := by
  cases r with
  | ok a s => exact iff_of_false nofun (hok a s rfl e)
  | error e' s =>
    have he' := herror e' s rfl
    rw [fault?, Option.some_inj]
    constructor
    · rintro rfl
      exact he'
    · exact hone e' e he'

def endsWith (test : α → σ → Bool) : EStateM.Result ε σ α → Bool
  | .ok a s => test a s
  | .error _ _ => false

theorem exists_of_endsWith {test : α → σ → Bool} {r : EStateM.Result ε σ α}
    (h : endsWith test r = true) : ∃ a s, r = .ok a s ∧ test a s = true := by
  cases r with
  | ok a s => exact ⟨a, s, rfl, h⟩
  | error e s => cases h

def faultsWith (test : ε → σ → Bool) : EStateM.Result ε σ α → Bool
  | .ok _ _ => false
  | .error e s => test e s

theorem exists_of_faultsWith {test : ε → σ → Bool} {r : EStateM.Result ε σ α}
    (h : faultsWith test r = true) : ∃ e s, r = .error e s ∧ test e s = true := by
  cases r with
  | ok a s => cases h
  | error e s => exact ⟨e, s, rfl, h⟩

end NetSettle.Faulting
