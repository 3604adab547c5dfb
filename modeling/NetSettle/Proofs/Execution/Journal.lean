import NetSettle.Proofs.Execution.Lockstep

/-!
# Runs that differ in the journal

Worlds that differ in the journal alone are coupled, so executions in them stay in lockstep. What
does not depend on the fees of a busy engine is kept whatever the outside world calls.
-/
namespace NetSettle

namespace World

variable {σ : Type}

def Alike (P : Engine → Prop) (w v : World σ) : Prop :=
  P w.engine ∧ ∃ journal, v = { w with journal := journal }

theorem Alike.refl {P : Engine → Prop} {w : World σ} (h : P w.engine) : Alike P w w :=
  ⟨h, w.journal, rfl⟩

theorem Alike.engine_eq {P : Engine → Prop} {w v : World σ} (h : Alike P w v) :
    v.engine = w.engine := by
  obtain ⟨-, _, rfl⟩ := h
  rfl

theorem Alike.host_eq {P : Engine → Prop} {w v : World σ} (h : Alike P w v) : v.host = w.host := by
  obtain ⟨-, _, rfl⟩ := h
  rfl

def Twins (w v : World σ) : Prop := v.engine = w.engine ∧ v.host = w.host

theorem Alike.twins {P : Engine → Prop} {w v : World σ} (h : Alike P w v) : Twins w v :=
  ⟨h.engine_eq, h.host_eq⟩

theorem Twins.alike {P : Engine → Prop} {w v : World σ} (h : Twins w v) (hP : P w.engine) :
    Alike P w v := by
  obtain ⟨engine, host, journal⟩ := v
  obtain ⟨rfl, rfl⟩ := h
  exact ⟨hP, journal, rfl⟩

theorem Twins.setExecuting {w v : World σ} (h : Twins w v) (executing : Bool) :
    Twins (w.setExecuting executing) (v.setExecuting executing) :=
  ⟨congrArg (fun e : Engine => { e with executing := executing }) h.1, h.2⟩

/-- A kind of engine that new fee settings do not change, if they are acceptable. -/
def KeptByFees (P : Engine → Prop) : Prop :=
  ∀ e fees, P e → fees.validate = .ok () → P { e with fees := fees }

theorem setFees_refused {caller : Address} {w : World σ} (h : caller ≠ w.engine.admin)
    (settings : FeeSettings) :
    (setFees caller settings).run w = .error (.unauthorized caller) w := by
  simp [setFees, h]

theorem setFees_invalid {caller : Address} {settings : FeeSettings} {w : World σ} {fault : Fault}
    (h : caller = w.engine.admin) (hvalid : settings.validate = .error fault) :
    (setFees caller settings).run w = .error fault w := by
  simp only [setFees, EStateM.run_bind, EStateM.run_get, h, ne_eq, not_true, if_false, hvalid]
  rfl

theorem setFees_accepted {caller : Address} {settings : FeeSettings} {w : World σ}
    (h : caller = w.engine.admin) (hvalid : settings.validate = .ok ()) :
    (setFees caller settings).run w = .ok () { w with
      engine := { w.engine with fees := settings }
      journal := w.journal ++ [.feesUpdated settings] } := by
  simp only [setFees, EStateM.run_bind, EStateM.run_get, h, ne_eq, not_true, if_false, hvalid]
  rfl

theorem tracks_setFees {P : Engine → Prop} (caller : Address) (settings : FeeSettings)
    (hfees : ∀ e, P e → caller = e.admin → settings.validate = .ok () →
      P { e with fees := settings }) :
    Tracks (Alike P) (setFees caller settings : Faulting (World σ) Unit)
      (setFees caller settings) := by
  rintro w _ ⟨h, journal, rfl⟩
  by_cases hadmin : caller = w.engine.admin
  · cases hvalid : settings.validate with
    | error fault =>
      rw [setFees_invalid hadmin hvalid,
        setFees_invalid (w := { w with journal := journal }) hadmin hvalid]
      exact .error _ ⟨h, journal, rfl⟩
    | ok =>
      rw [setFees_accepted hadmin hvalid,
        setFees_accepted (w := { w with journal := journal }) hadmin hvalid]
      exact .ok _ ⟨hfees _ h hadmin hvalid, _, rfl⟩
  · rw [setFees_refused hadmin, setFees_refused (w := { w with journal := journal }) hadmin]
    exact .error _ ⟨h, journal, rfl⟩

def Steady (P : Engine → Prop) (nested : Runner σ) : Prop :=
  ∀ caller program, Tracks (Alike P) (nested caller program) (nested caller program)

theorem executeWith_refused [Host σ] {nested : Runner σ} {caller : Address} {data : List UInt8}
    {w : World σ} (h : w.engine.executing = true) :
    (executeWith nested caller data).run w = .error .reentrancy w := by
  change executeWith nested caller data w = _
  rw [executeWith, h]
  rfl

theorem steady_executeWith [Host σ] {P : Engine → Prop} (h : ∀ e, P e → e.executing = true)
    (nested : Runner σ) : Steady P (executeWith nested) := by
  rintro caller program w _ ⟨hw, journal, rfl⟩
  rw [executeWith_refused (h _ hw),
    executeWith_refused (w := { w with journal := journal }) (h _ hw)]
  exact .error _ ⟨hw, journal, rfl⟩

end World

theorem Session.run_alike {σ α : Type} {P : Engine → Prop} {nested : Runner σ}
    (session : Session σ α) (hfees : World.KeptByFees P) (hnested : World.Steady P nested)
    {w v : World σ} (h : World.Alike P w v) :
    (session.run nested w).1 = (session.run nested v).1 ∧
      World.Alike P (session.run nested w).2 (session.run nested v).2 := by
  induction session generalizing w v with
  | finish answer host =>
    obtain ⟨h, journal, rfl⟩ := h
    exact ⟨rfl, h, journal, rfl⟩
  | execute caller program host next ih =>
    obtain ⟨h, journal, rfl⟩ := h
    have hrun := hnested caller program { w with host := host }
      { w with host := host, journal := journal } ⟨h, journal, rfl⟩
    rw [run, run]
    generalize (nested caller program).run { w with host := host } = r at hrun
    generalize (nested caller program).run { w with host := host, journal := journal } = r' at hrun
    cases hrun with
    | ok receipt h' =>
      obtain ⟨h', journal', rfl⟩ := h'
      exact ih _ _ ⟨h', journal', rfl⟩
    | error fault h' =>
      obtain ⟨h', journal', rfl⟩ := h'
      exact ih _ _ ⟨h', journal', rfl⟩
  | setFees caller settings next ih =>
    have hrun := World.tracks_setFees caller settings
      (fun e hP _ => hfees e settings hP) w v h
    rw [run, run]
    generalize (World.setFees caller settings).run w = r at hrun
    generalize (World.setFees caller settings).run v = r' at hrun
    cases hrun with
    | ok _ h' | error _ h' => exact ih _ h'
  | readFees next ih | readPool _ next ih | readPools next ih =>
    obtain ⟨h, journal, rfl⟩ := h
    exact ih _ ⟨h, journal, rfl⟩
  | note entry next ih =>
    obtain ⟨h, journal, rfl⟩ := h
    exact ih ⟨h, _, rfl⟩

namespace World

variable {σ : Type} [Host σ] {P : Engine → Prop} {nested : Runner σ}

theorem keeps_serve (hfees : KeptByFees P) (hnested : Steady P nested) {w w' : World σ} {α : Type}
    {request : HostRequest α} {answer : α} (h : P w.engine)
    (hserve : w.serve nested request = (answer, w')) : P w'.engine := by
  have halike := (Host.serve w.host request).run_alike hfees hnested (.refl h)
  rw [serve] at hserve
  rw [hserve] at halike
  exact halike.2.1

theorem coupling_alike (hfees : KeptByFees P) (hnested : Steady P nested) :
    Coupling (Alike P) nested nested where
  book := fun ⟨_, _, h⟩ => h ▸ rfl
  address := fun ⟨_, _, h⟩ => h ▸ rfl
  journal := fun _ journal' ⟨hP, _, h⟩ => ⟨hP, journal', h ▸ rfl⟩
  serve := fun request h => by
    rw [serve, serve, h.host_eq]
    exact (Host.serve _ request).run_alike hfees hnested h

end World

namespace Context

variable {σ : Type} {P : Engine → Prop}

theorem InStep.refl {c : Context σ} (h : P c.engine) : InStep (World.Alike P) c c :=
  ⟨.refl h, rfl, rfl, rfl, rfl, rfl, rfl⟩

theorem InStep.eq_withJournal {c d : Context σ} (h : InStep (World.Alike P) c d) :
    P c.engine ∧ ∃ journal, d = { c with journal := journal } := by
  obtain ⟨⟨hP, journal, hworld⟩, hcaller, hfees, hledger, hoverlay, hreleased, hevents⟩ := h
  obtain ⟨w, _, _, _, _, _, _⟩ := c
  obtain ⟨v, _, _, _, _, _, _⟩ := d
  cases hworld
  cases hcaller
  cases hfees
  cases hledger
  cases hoverlay
  cases hreleased
  cases hevents
  exact ⟨hP, journal, rfl⟩

end Context

end NetSettle
