import NetSettle.Proofs.Execution.Gate
import NetSettle.Proofs.Execution.Probing
import NetSettle.Proofs.Ledger.Balances
import NetSettle.Proofs.Pool.Trading
import NetSettle.Proofs.Raising

/-!
# Routes

A route sells an amount of one token for another, sells what that fetched for a third, and so on.
Each sale puts the input on the ledger before the output, so what was owed for the input is
cleared when the output is to be recorded, and its slot is free. That is why a route of any length
needs two slots only: one for the token that it began with and one for the token that it has come
to.
-/
namespace NetSettle

open Faulting

def Operation.hop (tokenIn tokenOut : Address) (amount : SwapAmount) : Operation :=
  if tokenIn < tokenOut then .swap tokenIn tokenOut .zeroForOne amount
  else .swap tokenOut tokenIn .oneForZero amount

def Operation.onward (token : Address) : List Address → List Operation
  | [] => []
  | next :: path => hop token next .fromLedger :: onward next path

/-- A route from a token along a path of others, for an amount of the first. -/
def Operation.route (token : Address) (amount : Amount) : List Address → List Operation
  | [] => []
  | next :: path => hop token next (.exact amount) :: onward next path

/-- The events of swaps along a path, each of which sells what the one before it fetched; `out` is
what the last one fetched. -/
inductive Flows : Address → Amount → List Address → List Event → Amount → Prop
  | nil (token : Address) (amount : Amount) : Flows token amount [] [] amount
  | cons {token next : Address} {amount fetched fee out : Amount} {path : List Address}
      {events : List Event} (h : Flows next fetched path events out) :
      Flows token amount (next :: path) (.swap token next amount fetched fee :: events) out

def Fault.NotFull : Fault → Prop
  | .ledgerFull _ => False
  | _ => True

open Fault (NotFull)

theorem notFull_narrow {w : Word} : Refuses NotFull (narrow w) := .ite (.ok _) (.error trivial)

theorem notFull_canonical (token0 token1 : Address) :
    Refuses NotFull (Pair.canonical token0 token1) :=
  .bind (.ite (.error trivial) (.ok _)) fun _ => .bind (.ite (.error trivial) (.ok _)) fun _ =>
    .ite (.ok _) (.error trivial)

namespace Ledger

variable {l l' : Ledger} {home token : Address}

theorem Valid.exists_free (hv : l.Valid) (hcapacity : 2 ≤ l.capacity)
    (hothers : ∀ u, u ≠ home → l.deltaOf u = 0) : ∃ i < l.capacity, (l.slotAt i).delta = 0 := by
  by_contra hfull
  push Not at hfull
  have hcount := hv.full_iff.2 hfull
  have hsub : {u | l.deltaOf u ≠ 0} ⊆ {home} := fun u hu => by_contra fun hne => hu (hothers u hne)
  have hle : Balances.openCount l.deltaOf ≤ 1 :=
    (Set.ncard_le_ncard hsub (Set.finite_singleton home)).trans (Set.ncard_singleton home).le
  omega

theorem Valid.change_notFull (hv : l.Valid) (hcapacity : 2 ≤ l.capacity)
    (hothers : ∀ u, u ≠ home → u ≠ token → l.deltaOf u = 0) {delta : Delta} {fault : Fault}
    (h : (change token delta).run l = .error fault l') : fault.NotFull := by
  by_cases ht : token = 0
  · rw [ht, change_run_zeroToken] at h
    cases h
    trivial
  by_cases hd : delta = 0
  · rw [hd, change_run_zero ht] at h
    cases h
  have hroom (hzero : l.deltaOf token = 0) : ∃ i < l.capacity, (l.slotAt i).delta = 0 := by
    refine hv.exists_free hcapacity fun u (hu : u ≠ home) => ?_
    by_cases hut : u = token
    · rw [hut, hzero]
    · exact hothers u hu hut
  obtain ⟨l₁, i, -, -, -, -, -, hrun⟩ := hv.change_room ht hd hroom
  rw [hrun, post] at h
  split at h
  · cases h
  · cases h
    trivial

/-- A table of two slots or more in which two tokens at most are open: `home`, and another in which
the caller is owed an amount. -/
structure Carries (home token : Address) (amount : Amount) (l : Ledger) : Prop where
  valid : l.Valid
  capacity : 2 ≤ l.capacity
  others : ∀ u, u ≠ home → u ≠ token → l.debt u = 0
  owed : token ≠ home → l.debt token = -amount.toNat

theorem Carries.probed {amount : Amount} (h : l.Carries home token amount) (read : Address) :
    (l.probed read).Carries home token amount := by
  have hdelta := h.valid.deltaOf_congr (h.valid.probed read) rfl
  have hdebt (u : Address) : (l.probed read).debt u = l.debt u := congrArg Delta.val (hdelta u)
  exact {
    valid := h.valid.probed read
    capacity := h.capacity
    others := fun u hhome htoken => (hdebt u).trans (h.others u hhome htoken)
    owed := fun hhome => (hdebt token).trans (h.owed hhome) }

theorem Carries.paidOff {amount : Amount} (h : l.Carries home token amount) {u : Address}
    (hhome : u ≠ home) : l.debt u + only token amount.toNat u = 0 := by
  by_cases htoken : u = token
  · subst htoken
    rw [h.owed hhome, only_self]
    exact Int.add_left_neg _
  · rw [h.others u hhome htoken, only_of_ne htoken, Int.add_zero]

theorem Carries.next {tokenIn tokenOut : Address} {amountIn fetched : Amount}
    (h : l.Carries home tokenIn amountIn)
    (hposts : l.Posts l' fun t => only tokenIn amountIn.toNat t - only tokenOut fetched.toNat t) :
    l'.Carries home tokenOut fetched := by
  obtain ⟨hv, hcapacity, hdebt⟩ := hposts h.valid
  have houtput (u : Address) (hhome : u ≠ home) : l'.debt u = -only tokenOut fetched.toNat u := by
    have hsum : l'.debt u =
        l.debt u + (only tokenIn amountIn.toNat u - only tokenOut fetched.toNat u) := hdebt u
    rw [hsum, ← Int.add_sub_assoc, h.paidOff hhome, Int.zero_sub]
  exact {
    valid := hv
    capacity := hcapacity.symm ▸ h.capacity
    others := fun u hhome hout => by rw [houtput u hhome, only_of_ne hout, Int.neg_zero]
    owed := fun hhome => by rw [houtput _ hhome, only_self] }

theorem deltaOf_eq_zero {u : Address} (h : l.debt u = 0) : l.deltaOf u = 0 := Delta.ext_val h

end Ledger

namespace Context

variable {σ α : Type} {c c' : Context σ} {home token tokenIn tokenOut : Address}
  {amount amountIn : Amount} {fault : Fault}

inductive Hops (home tokenIn tokenOut : Address) (amountIn : Amount) (c : Context σ) :
    EStateM.Result Fault (Context σ) Unit → Prop
  | failed {fault : Fault} {c' : Context σ} (h : fault.NotFull) :
      Hops home tokenIn tokenOut amountIn c (.error fault c')
  | made {fetched fee : Amount} {c' : Context σ}
      (hevents : c'.events = c.events ++ [.swap tokenIn tokenOut amountIn fetched fee])
      (hledger : c'.ledger.Carries home tokenOut fetched)
      (hposts : c.ledger.Posts c'.ledger fun t =>
        only tokenIn amountIn.toNat t - only tokenOut fetched.toNat t) :
      Hops home tokenIn tokenOut amountIn c (.ok () c')

theorem Hops.of_probed {r : EStateM.Result Fault (Context σ) Unit} {token : Address}
    (h : Hops home tokenIn tokenOut amountIn { c with ledger := c.ledger.probed token } r) :
    Hops home tokenIn tokenOut amountIn c r := by
  cases h with
  | failed h => exact .failed h
  | made hevents hledger hposts =>
    have hprobed := c.ledger.posts_balance token
    rw [Ledger.balance_eq] at hprobed
    exact .made hevents hledger (hprobed.trans hposts fun _ => (Int.zero_add _).symm)

theorem notFull_of_swap {p p' : Pool} {direction : Direction} {fees : FeeSettings}
    (h : (Pool.swap direction amountIn fees).run p = .error fault p') : fault.NotFull := by
  obtain ⟨-, ⟨-, rfl⟩ | ⟨-, hquote | ⟨_, -, hadd⟩⟩⟩ := Pool.swap_eq_error_iff.1 h
  · trivial
  · cases quoteSwap_eq_error hquote <;> trivial
  · obtain ⟨-, rfl⟩ := addAmounts_eq_error.1 hadd
    trivial

/-- The input is recorded where it is owed already, or at the home of the route; then all other
tokens but the home are settled, and the output finds a slot. -/
theorem notFull_of_record (hc : c.ledger.Carries home tokenIn amountIn) {delta : Delta}
    {event : Event}
    (h : (record tokenIn tokenOut (.owedToPool amountIn) delta event).run c = .error fault c') :
    fault.NotFull := by
  have hothers (u : Address) (hhome : u ≠ home) (hin : u ≠ tokenIn) : c.ledger.deltaOf u = 0 :=
    Ledger.deltaOf_eq_zero (hc.others u hhome hin)
  rw [record] at h
  cases hfirst : (change tokenIn (.owedToPool amountIn)).run c with
  | error fault' c₁ =>
    rw [run_bind_of_error hfirst] at h
    cases h
    obtain ⟨l, hrun⟩ := onLedger_eq_error hfirst
    exact hc.valid.change_notFull hc.capacity hothers hrun
  | ok a c₁ =>
    rw [run_bind_of_ok hfirst] at h
    obtain ⟨l, hl, rfl⟩ := change_eq_ok hfirst
    obtain ⟨hv, hcapacity, hdebt⟩ := hl hc.valid
    have hsettled (u : Address) (hhome : u ≠ home) : l.deltaOf u = 0 :=
      Ledger.deltaOf_eq_zero ((hdebt u).trans (hc.paidOff hhome))
    cases hsecond : (change tokenOut delta).run { c with ledger := l } with
    | error fault' c₂ =>
      rw [run_bind_of_error hsecond] at h
      cases h
      obtain ⟨l', hrun⟩ := onLedger_eq_error hsecond
      exact hv.change_notFull (hcapacity.symm ▸ hc.capacity) (fun u hhome _ => hsettled u hhome)
        hrun
    | ok a c₂ =>
      rw [run_bind_of_ok hsecond] at h
      cases h

theorem hops_sale (hc : c.ledger.Carries home tokenIn amountIn) {pair : Pair}
    {direction : Direction} (hroute : pair.route direction = (tokenIn, tokenOut)) :
    Hops home tokenIn tokenOut amountIn c ((sale pair direction amountIn).run c) := by
  rw [sale, run_get_bind, hroute]
  cases hpool : (onPool pair (Pool.swap direction amountIn c.fees)).run c with
  | error fault c₁ =>
    rw [run_bind_of_error hpool]
    obtain ⟨p, hswap⟩ := onPool_eq_error hpool
    exact .failed (notFull_of_swap hswap)
  | ok quote c₁ =>
    rw [run_bind_of_ok hpool]
    obtain ⟨p, hswap, rfl⟩ := onPool_eq_ok hpool
    obtain ⟨-, hquote, -⟩ := Pool.swap_eq_ok_iff.1 hswap
    have hin : quote.amountIn = amountIn := (quoteSwap_eq_ok hquote).amountIn_eq
    rw [hin]
    generalize hrun : (record tokenIn tokenOut _ _ _).run _ = r
    cases r with
    | error fault c' =>
      have hc' : Ledger.Carries home tokenIn amountIn
          { c with overlay := c.overlay.put pair p }.ledger := hc
      exact .failed (notFull_of_record hc' hrun)
    | ok a c' =>
      obtain ⟨l, journal, hl, rfl⟩ := record_eq_ok hrun
      have hposts : c.ledger.Posts l fun t =>
          only tokenIn amountIn.toNat t - only tokenOut quote.amountOut.toNat t := by
        convert hl using 2 with t
        exact (Int.sub_eq_add_neg).trans (congrArg _ (only_neg ..).symm)
      exact .made rfl (hc.next hposts) hposts

theorem resolve_owed (amount : Amount) :
    SwapAmount.fromLedger.resolve (-amount.toNat) = amount := by
  rw [SwapAmount.resolve, Int.neg_neg, BitVec.ofInt_natCast, BitVec.ofNat_toNat]
  exact BitVec.setWidth_eq amount

theorem route_hop (tokenIn tokenOut : Address) :
    ∃ token0 token1 direction, Pair.route ⟨token0, token1⟩ direction = (tokenIn, tokenOut) ∧
      ∀ amount, Operation.hop tokenIn tokenOut amount = .swap token0 token1 direction amount := by
  unfold Operation.hop
  split
  · exact ⟨tokenIn, tokenOut, .zeroForOne, rfl, fun _ => rfl⟩
  · exact ⟨tokenOut, tokenIn, .oneForZero, rfl, fun _ => rfl⟩

variable [Host σ] {nested : Runner σ} {next : Address} {path : List Address}

theorem hops_exact (hc : c.ledger.Carries home tokenIn amount) :
    Hops home tokenIn tokenOut amount c
      ((perform nested (.hop tokenIn tokenOut (.exact amount))).run c) := by
  obtain ⟨token0, token1, direction, hroute, hop⟩ := route_hop tokenIn tokenOut
  rw [hop, perform]
  cases hpair : Pair.canonical token0 token1 with
  | error fault =>
    rw [swap, hpair]
    exact .failed (notFull_canonical _ _ fault hpair)
  | ok pair =>
    obtain ⟨rfl, -, -⟩ := Pair.canonical_eq_ok hpair
    rw [swap_exact_run hpair]
    exact hops_sale hc hroute

/-- A hop that takes its input from the ledger ends before anything is sold or sells what is owed.
At home anything may be owed. -/
theorem hops_fromLedger (hc : c.ledger.Carries home tokenIn amount) :
    ∃ amountIn, (tokenIn ≠ home → amountIn = amount) ∧
      Hops home tokenIn tokenOut amountIn c
        ((perform nested (.hop tokenIn tokenOut .fromLedger)).run c) := by
  obtain ⟨token0, token1, direction, hroute, hop⟩ := route_hop tokenIn tokenOut
  have hin : ((Pair.mk token0 token1).route direction).1 = tokenIn := congrArg Prod.fst hroute
  rw [hop, perform]
  cases hpair : Pair.canonical token0 token1 with
  | error fault =>
    rw [swap, hpair]
    exact ⟨amount, fun _ => rfl,
      .failed (notFull_canonical _ _ fault hpair)⟩
  | ok pair =>
    obtain ⟨rfl, -, -⟩ := Pair.canonical_eq_ok hpair
    rw [swap_fromLedger_run hpair rfl, hin]
    by_cases hsign : 0 ≤ (c.ledger.deltaOf tokenIn).val
    · rw [if_pos hsign]
      exact ⟨amount, fun _ => rfl, .failed trivial⟩
    rw [if_neg hsign]
    cases hnarrow : narrow (c.ledger.deltaOf tokenIn).magnitude with
    | error fault =>
      exact ⟨amount, fun _ => rfl,
        .failed (notFull_narrow fault hnarrow)⟩
    | ok amountIn =>
      have hamount : amountIn = SwapAmount.fromLedger.resolve (c.ledger.debt tokenIn) :=
        resolve_fromLedger (Int.not_le.1 hsign) hnarrow
      have howed (hhome : tokenIn ≠ home) : amountIn = amount := by
        rw [hamount, hc.owed hhome, resolve_owed]
      have hc' : c.ledger.Carries home tokenIn amountIn :=
        { hc with owed := fun hhome => howed hhome ▸ hc.owed hhome }
      exact ⟨amountIn, howed, .of_probed (hops_sale (hc'.probed tokenIn) hroute)⟩

section

variable {op : Operation} {ops : List Operation}

theorem notFull_of_cons
    (hhops : Hops home tokenIn tokenOut amountIn c ((perform nested op).run c))
    (hrest : ∀ c₁ fetched, c₁.ledger.Carries home tokenOut fetched →
      (performAll nested ops).run c₁ = .error fault c' → fault.NotFull)
    (h : (performAll nested (op :: ops)).run c = .error fault c') : fault.NotFull := by
  rw [performAll] at h
  cases hrun : (perform nested op).run c with
  | error fault' c₁ =>
    rw [run_bind_of_error hrun] at h
    cases h
    rw [hrun] at hhops
    cases hhops with
    | failed h => exact h
  | ok a c₁ =>
    rw [run_bind_of_ok hrun] at h
    rw [hrun] at hhops
    cases hhops with
    | made _ hledger _ => exact hrest c₁ _ hledger h

/-- What became of an execution along a path: each swap sold what the one before it fetched, and
what the caller owed and was owed for the tokens between has cancelled out. -/
def Flowed (token : Address) (amount : Amount) (path : List Address) (c c' : Context σ) : Prop :=
  ∃ events out, Flows token amount path events out ∧ c'.events = c.events ++ events ∧
    c.ledger.Posts c'.ledger fun t =>
      only token amount.toNat t - only (path.getLastD token) out.toNat t

omit [Host σ] in
theorem flowed_nil (token : Address) (amount : Amount) (c : Context σ) :
    Flowed token amount [] c c :=
  ⟨[], amount, .nil token amount, (List.append_nil _).symm, .refl fun _ => Int.sub_self _⟩

theorem flowed_cons
    (hhops : Hops home token next amount c ((perform nested op).run c))
    (hrest : ∀ c₁ fetched, c₁.ledger.Carries home next fetched →
      (performAll nested ops).run c₁ = .ok () c' → Flowed next fetched path c₁ c')
    (h : (performAll nested (op :: ops)).run c = .ok () c') :
    Flowed token amount (next :: path) c c' := by
  rw [performAll, run_bind_eq_ok] at h
  obtain ⟨_, c₁, hrun, h⟩ := h
  rw [hrun] at hhops
  cases hhops with
  | @made fetched fee _ hevents hledger hposts =>
    obtain ⟨events, out, hflows, hevents', hposts'⟩ := hrest c₁ fetched hledger h
    refine ⟨.swap token next amount fetched fee :: events, out, .cons hflows, ?_,
      hposts.trans hposts' fun t => ?_⟩
    · rw [hevents', hevents, List.append_assoc]
      rfl
    · rw [List.getLastD_cons]
      omega

end

theorem notFull_of_onward (hc : c.ledger.Carries home token amount)
    (h : (performAll nested (Operation.onward token path)).run c = .error fault c') :
    fault.NotFull := by
  induction path generalizing c token amount with
  | nil => cases h
  | cons next path ih =>
    obtain ⟨amountIn, -, hhops⟩ := hops_fromLedger hc
    exact notFull_of_cons hhops (fun c₁ fetched hledger h => ih hledger h) h

theorem notFull_of_route (hc : c.ledger.Carries token token amount)
    (h : (performAll nested (Operation.route token amount path)).run c = .error fault c') :
    fault.NotFull := by
  cases path with
  | nil => cases h
  | cons next path =>
    exact notFull_of_cons (hops_exact hc) (fun c₁ fetched hledger h => notFull_of_onward hledger h)
      h

theorem flowed_onward (hc : c.ledger.Carries home token amount)
    (haway : home ∉ (token :: path).dropLast)
    (h : (performAll nested (Operation.onward token path)).run c = .ok () c') :
    Flowed token amount path c c' := by
  induction path generalizing c token amount with
  | nil =>
    cases h
    exact flowed_nil token amount _
  | cons next path ih =>
    rw [List.dropLast_cons_cons, List.mem_cons, not_or] at haway
    obtain ⟨amountIn, howed, hhops⟩ := hops_fromLedger hc
    rw [howed (Ne.symm haway.1)] at hhops
    exact flowed_cons hhops (fun c₁ fetched hledger h => ih hledger haway.2 h) h

theorem flowed_route (hc : c.ledger.Carries token token amount) (haway : token ∉ path.dropLast)
    (h : (performAll nested (Operation.route token amount path)).run c = .ok () c') :
    Flowed token amount path c c' := by
  cases path with
  | nil =>
    cases h
    exact flowed_nil token amount _
  | cons next path =>
    exact flowed_cons (hops_exact hc) (fun c₁ fetched hledger h => flowed_onward hledger haway h) h

/-- A settled ledger of two slots or more never runs out of slots on a route, of whatever length and
back to whichever tokens. A route that does not come back to its first token before its end sells at
each hop what the one before it fetched, and leaves open its first token, by what was sold, and
its last one, by what the last hop fetched; if that is the first token again, by the difference.
And a hop that sells what the ledger owes, if it owes anything, differs from one that sells as much
by name only in the number of slots that were looked at. -/
theorem routes_need_two_slots (nested : Runner σ) (c : Context σ) (hreached : c.ledger.Reached)
    (hcapacity : 2 ≤ c.ledger.capacity) (hsettled : c.ledger.checkSettled = .ok ())
    (token : Address) (amount : Amount) (path : List Address) :
    (∀ fault c', (performAll nested (Operation.route token amount path)).run c = .error fault c' →
      ∀ capacity, fault ≠ .ledgerFull capacity) ∧
    (token ∉ path.dropLast →
      ∀ c', (performAll nested (Operation.route token amount path)).run c = .ok () c' →
        ∃ events out, Flows token amount path events out ∧ c'.events = c.events ++ events ∧
          ∀ t, (c'.ledger.deltaOf t).val =
            only token amount.toNat t - only (path.getLastD token) out.toNat t) ∧
    (∀ (d : Context σ) (tokenIn tokenOut : Address) (amountIn : Amount), amountIn ≠ 0 →
      d.ledger.deltaOf tokenIn = .owedToCaller amountIn →
      Matches ProbesAside ((perform nested (.hop tokenIn tokenOut .fromLedger)).run d)
        ((perform nested (.hop tokenIn tokenOut (.exact amountIn))).run d)) := by
  have hv := hreached.valid
  have hzero := hv.checkSettled_eq_ok.1 hsettled
  have hdebt (u : Address) : (c.ledger.deltaOf u).val = 0 := by
    rw [hzero]
    rfl
  have hc : c.ledger.Carries token token amount :=
    ⟨hv, hcapacity, fun u _ _ => hdebt u, fun hne => absurd rfl hne⟩
  refine ⟨?_, ?_, ?_⟩
  · rintro _ c' hrun capacity rfl
    exact notFull_of_route hc hrun
  · intro haway c' hrun
    obtain ⟨events, out, hflows, hevents, hposts⟩ := flowed_route hc haway hrun
    refine ⟨events, out, hflows, hevents, fun t => ?_⟩
    rw [(hposts hv).2.2, hdebt, Int.zero_add]
  · intro d tokenIn tokenOut amountIn hne howed
    obtain ⟨token0, token1, direction, hroute, hop⟩ := route_hop tokenIn tokenOut
    rw [hop, hop]
    refine matches_fromLedger hne ?_
    rw [hroute, howed]

def twoPools : Context Bank :=
  let pools := [Pool.sharedPool, { Pool.sharedPool with pair := ⟨2, 3⟩ }]
  start { World.lender with engine := World.lender.engine.withPools pools } 7
    ⟨Array.replicate 2 .unused, 0, 0⟩

theorem routes_need_two_slots_roundTrip :
    twoPools.ledger.Reached ∧ 2 ≤ twoPools.ledger.capacity ∧
      twoPools.ledger.checkSettled = .ok () ∧ (1 : Address) ∉ [2, 3, 2, 1].dropLast ∧
      ∃ c, (performAll World.nestedRunner (Operation.route 1 100 [2, 3, 2, 1])).run twoPools =
          .ok () c ∧
        ∃ events out, Flows 1 100 [2, 3, 2, 1] events out ∧ c.events = events ∧
          (c.ledger.deltaOf 1).val = 100 - out.toNat ∧ (c.ledger.deltaOf 2).val = 0 := by
  have hfresh : Ledger.ofCapacity 2 = .ok twoPools.ledger := rfl
  have hreached : twoPools.ledger.Reached := .fresh hfresh
  have haway : (1 : Address) ∉ [2, 3, 2, 1].dropLast := by decide
  obtain ⟨-, hflows, -⟩ :=
    routes_need_two_slots World.nestedRunner twoPools hreached le_rfl rfl 1 100 [2, 3, 2, 1]
  have hends : endsWith (fun _ _ => true) ((performAll World.nestedRunner
      (Operation.route 1 100 [2, 3, 2, 1])).run twoPools) = true := by decide +kernel
  obtain ⟨_, c, hrun, -⟩ := exists_of_endsWith hends
  obtain ⟨events, out, hchain, hevents, hdelta⟩ := hflows haway c hrun
  exact ⟨hreached, le_rfl, rfl, haway, c, hrun, events, out, hchain, hevents, hdelta 1, hdelta 2⟩

/-- A first hop that fetches nothing: the next one finds nothing owed and never comes to the pool,
where a sale of nothing is refused for what it is. -/
theorem nothing_to_sell_on :
    ∃ c, (perform World.nestedRunner (.hop 1 2 (.exact 1))).run twoPools = .ok () c ∧
      c.ledger.deltaOf 2 = .owedToCaller 0 ∧
      (∃ c', (perform World.nestedRunner (.hop 2 3 .fromLedger)).run c =
        .error (.wrongSettlementSign 2 (.owedToCaller 0)) c') ∧
      (∃ c', (perform World.nestedRunner (.hop 2 3 (.exact 0))).run c = .error .zeroAmount c') ∧
      ¬ Matches ProbesAside ((perform World.nestedRunner (.hop 2 3 .fromLedger)).run c)
        ((perform World.nestedRunner (.hop 2 3 (.exact 0))).run c) := by
  obtain ⟨_, c, hrun, htest⟩ := exists_of_endsWith
    (show endsWith (fun _ c => decide (c.ledger.deltaOf 2 = .owedToCaller 0) &&
        faultsWith (fun fault _ => fault = .wrongSettlementSign 2 (.owedToCaller 0))
          ((perform World.nestedRunner (.hop 2 3 .fromLedger)).run c) &&
        faultsWith (fun fault _ => fault = .zeroAmount)
          ((perform World.nestedRunner (.hop 2 3 (.exact 0))).run c))
      ((perform World.nestedRunner (.hop 1 2 (.exact 1))).run twoPools) = true by decide +kernel)
  rw [Bool.and_eq_true, Bool.and_eq_true] at htest
  obtain ⟨⟨hnothing, hledger⟩, hexact⟩ := htest
  obtain ⟨_, c₁, hledger, hsign⟩ := exists_of_faultsWith hledger
  obtain ⟨_, c₂, hexact, hzero⟩ := exists_of_faultsWith hexact
  obtain rfl := of_decide_eq_true hsign
  obtain rfl := of_decide_eq_true hzero
  refine ⟨c, hrun, of_decide_eq_true hnothing, ⟨c₁, hledger⟩, ⟨c₂, hexact⟩, ?_⟩
  rw [hledger, hexact]
  nofun

end Context

end NetSettle
