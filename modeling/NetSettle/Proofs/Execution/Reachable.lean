import NetSettle.Proofs.Execution.Gate
import NetSettle.Proofs.Execution.Requests

/-!
# Reachable engines

`Reachable` is every engine that comes from a new one by running programs, for any callers and in
any outside worlds, and by changing the fee settings, whether these calls succeed or fail. On every
such engine the fee settings are valid, and every pool stands under its own pair and is sound.
-/
namespace NetSettle

namespace Engine

/-- What running programs and changing the fee settings can make of a new engine. -/
inductive Reachable : Engine → Prop
  | create {address admin : Address} {fees : FeeSettings} {e : Engine}
      (h : Engine.create address admin fees = .ok e) : Reachable e
  | executed {σ : Type} [Host σ] {w w' : World σ} {caller : Address} {data : List UInt8}
      {receipt : Receipt} (h : Reachable w.engine)
      (hrun : (World.execute caller data).run w = .ok receipt w') : Reachable w'.engine
  | failed {σ : Type} [Host σ] {w w' : World σ} {caller : Address} {data : List UInt8}
      {fault : Fault} (h : Reachable w.engine)
      (hrun : (World.execute caller data).run w = .error fault w') : Reachable w'.engine
  | feesSet {σ : Type} {w w' : World σ} {caller : Address} {settings : FeeSettings}
      (h : Reachable w.engine) (hrun : (World.setFees caller settings).run w = .ok () w') :
      Reachable w'.engine
  | feesRefused {σ : Type} {w w' : World σ} {caller : Address} {settings : FeeSettings}
      {fault : Fault} (h : Reachable w.engine)
      (hrun : (World.setFees caller settings).run w = .error fault w') : Reachable w'.engine

structure WellFormed (e : Engine) : Prop where
  fees : e.fees.validate = .ok ()
  pools : e.book.All fun pair p => p.pair = pair ∧ p.Sound

theorem wellFormed_create {address admin : Address} {fees : FeeSettings} {e : Engine}
    (h : Engine.create address admin fees = .ok e) : e.WellFormed := by
  unfold Engine.create at h
  rw [Faulting.bind_eq_ok] at h
  obtain ⟨_, hvalid, h⟩ := h
  cases h
  exact ⟨hvalid, SortedMap.all_empty _⟩

theorem keptByFees_wellFormed : World.KeptByFees WellFormed :=
  fun _ _ h hvalid => ⟨hvalid, h.pools⟩

def Busy (book : PoolBook) (e : Engine) : Prop :=
  e.executing = true ∧ e.book = book ∧ e.fees.validate = .ok ()

theorem keptByFees_busy (book : PoolBook) : World.KeptByFees (Busy book) :=
  fun _ _ h hvalid => ⟨h.1, h.2.1, hvalid⟩

end Engine

namespace Context

variable {σ : Type} [Host σ] {nested : Runner σ}

theorem Contact.keeps {P : Engine → Prop} (hfees : World.KeptByFees P)
    (hnested : World.Steady P nested) {op : Operation} {c : Context σ} {es : List Event}
    {e : Engine} {host : σ} (h : Contact nested op c es e host) (hc : P c.engine) : P e := by
  cases h with
  | none => exact hc
  | sendOut _ _ _ hrun | pullIn _ _ hrun | grantPermit _ _ hrun =>
    exact World.keeps_serve hfees hnested hc hrun
  | settled _ _ hbefore hrun hafter =>
    have h₀ := World.keeps_serve hfees hnested hc hbefore
    have h₁ := World.keeps_serve hfees hnested h₀ hrun
    exact World.keeps_serve hfees hnested h₁ hafter

def Tended (book : PoolBook) (c : Context σ) : Prop :=
  c.engine.Busy book ∧ c.overlay.touched.All fun pair p => p.pair = pair ∧ p.Sound

theorem Tended.effect {book : PoolBook} (hbook : book.All fun pair p => p.pair = pair ∧ p.Sound)
    (hnested : World.Steady (Engine.Busy book) nested) {op : Operation} {c c' : Context σ}
    {es : List Event} (h : c.Tended book) (he : Effect nested op c c' es) : c'.Tended book := by
  obtain ⟨hbusy, htouched⟩ := h
  refine ⟨he.outside.keeps (Engine.keptByFees_busy book) hnested hbusy, ?_⟩
  have hoverlay := he.overlay
  rw [hbusy.2.1] at hoverlay
  generalize c'.overlay = o at hoverlay ⊢
  cases hoverlay with
  | kept => exact htouched
  | pool hpos hlt hpair hsound =>
    obtain ⟨hkey, hold⟩ := Overlay.all_pool htouched hbook ⟨rfl, Pool.sound_fresh hpos hlt⟩
    exact htouched.insert ⟨hpair.trans hkey, hsound hold⟩

end Context

namespace World

variable {σ : Type} [Host σ] {w w' : World σ} {caller : Address} {data : List UInt8}

theorem wellFormed_of_executed {receipt : Receipt} (h : w.engine.WellFormed)
    (hrun : (execute caller data).run w = .ok receipt w') : w'.engine.WellFormed := by
  obtain ⟨p, ledger, c, hcommitted⟩ := execute_eq_ok hrun
  have hsteady : Steady (Engine.Busy w.engine.book) (nestedRunner : Runner σ) :=
    steady_nestedRunner fun _ h => h.1
  have hstart : (w.begin caller ledger).Tended w.engine.book :=
    ⟨⟨rfl, rfl, h.fees⟩, SortedMap.all_empty _⟩
  obtain ⟨⟨-, hbook, hfees⟩, htouched⟩ := Context.performAll_induction
    (fun _ _ _ _ _ hc he => hc.effect h.pools hsteady he) hcommitted.performed hstart
  rw [hcommitted.engine]
  refine ⟨hfees, ?_⟩
  change (c.overlay.commitTo c.engine.book).All _
  rw [hbook]
  exact Overlay.all_commitTo (fun pair p hp => (htouched pair p hp).1) htouched h.pools

theorem wellFormed_of_failed {fault : Fault} (h : w.engine.WellFormed)
    (hrun : (execute caller data).run w = .error fault w') : w'.engine.WellFormed := by
  rcases execute_eq_error_of_keptByFees (fun _ h => h.1)
    (Engine.keptByFees_busy w.engine.book) ⟨rfl, rfl, h.fees⟩ hrun with
    rfl | ⟨e, ⟨-, hbook, hfees⟩, he⟩
  · exact h
  · rw [he]
    refine ⟨hfees, ?_⟩
    change e.book.All _
    rw [hbook]
    exact h.pools

end World

namespace Engine

theorem Reachable.wellFormed {e : Engine} (h : e.Reachable) : e.WellFormed := by
  induction h with
  | create h => exact wellFormed_create h
  | executed _ hrun ih => exact World.wellFormed_of_executed ih hrun
  | failed _ hrun ih => exact World.wellFormed_of_failed ih hrun
  | @feesSet σ w w' caller settings _ hrun ih =>
    have hmatches := World.tracks_setFees caller settings
      (fun e h _ => keptByFees_wellFormed e settings h) w w (.refl ih)
    rw [hrun] at hmatches
    obtain ⟨_, -, hw, -⟩ := hmatches.right_of_ok
    exact hw
  | @feesRefused σ w w' caller settings fault _ hrun ih =>
    have hmatches := World.tracks_setFees caller settings
      (fun e h _ => keptByFees_wellFormed e settings h) w w (.refl ih)
    rw [hrun] at hmatches
    obtain ⟨_, -, hw, -⟩ := hmatches.right_of_error
    exact hw

/-- On every reachable engine the fee settings are valid, and every pool stands under its own pair
and is sound. -/
theorem wellFormed_of_reachable (e : Engine) (h : e.Reachable) :
    e.fees.validate = .ok () ∧
      ∀ pair p, e.book.find? pair = some p → p.pair = pair ∧ p.Sound :=
  have hwell := h.wellFormed
  ⟨hwell.fees, hwell.pools⟩

def seedProgram : Program where
  ledgerCapacity := 2
  operations := [.addLiquidity 1 2 7 1 1 none, .receiveAll 1 .unbounded, .receiveAll 2 .unbounded]

def seedPool : Pool := ⟨⟨1, 2⟩, 1, 1, 1, 0, 0, SortedMap.empty.insert 7 1⟩

theorem wellFormed_of_reachable_seeded :
    ∃ e : Engine, e.Reachable ∧ e.book.find? ⟨1, 2⟩ = some seedPool ∧ seedPool.Sound := by
  have hcreate : Engine.create 9 8 .standard = .ok World.lender.engine := by decide +kernel
  obtain ⟨receipt, w, hrun, hseeded⟩ := Faulting.exists_of_endsWith
    (show Faulting.endsWith (fun _ w => decide (w.engine.book.find? ⟨1, 2⟩ = some seedPool))
      ((World.execute 7 seedProgram.encode).run World.lender) = true by decide +kernel)
  have hfound := of_decide_eq_true hseeded
  have hreachable : w.engine.Reachable := .executed (.create hcreate) hrun
  obtain ⟨-, hpools⟩ := wellFormed_of_reachable w.engine hreachable
  exact ⟨w.engine, hreachable, hfound, (hpools ⟨1, 2⟩ seedPool hfound).2⟩

end Engine

end NetSettle
