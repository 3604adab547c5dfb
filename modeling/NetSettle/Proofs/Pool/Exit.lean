import NetSettle.Proofs.Pool.Failures

/-!
# Everyone can leave

The owners of a pool can all burn what they have, one after the other and in any order. Each is
paid at least its part of what there was at the outset: what one burning is short of by rounding
goes to those who remain, and the last of them is paid all that is left. So nothing stays behind
but the fees that the pool keeps for the protocol.
-/
namespace NetSettle.Pool

open Faulting

def leave (owner : Address) : Faulting Pool BurnQuote := do
  let p ← get
  removeLiquidity owner (p.sharesOf owner)

def leaveEach (owners : List Address) : Faulting Pool (List BurnQuote) := owners.mapM leave

/-- An owner is paid at least its part of both reserves of a pool, rounded down. -/
structure Served (p : Pool) (owner : Address) (q : BurnQuote) : Prop where
  amount0 : (p.sharesOf owner).toNat * p.reserve0.toNat / p.totalShares.toNat ≤ q.amount0.toNat
  amount1 : (p.sharesOf owner).toNat * p.reserve1.toNat / p.totalShares.toNat ≤ q.amount1.toNat

variable {p₀ p p' : Pool} {owner : Address} {order : List Address}

theorem exists_leave (h : p.Coherent) (howner : p.shares.find? owner ≠ none) :
    ∃ q p', (leave owner).run p = .ok q p' ∧
      (removeLiquidity owner (p.sharesOf owner)).run p = .ok q p' := by
  obtain ⟨n, hn⟩ := Option.ne_none_iff_exists'.1 howner
  have hpos := h.shares_pos owner n hn
  have hne : p.sharesOf owner ≠ 0 := by
    rw [sharesOf, hn, Option.getD_some, Ne, toNat_eq_zero]
    omega
  obtain ⟨q, p', hrun⟩ := exists_removeLiquidity hne le_rfl (h.sharesOf_le owner)
  exact ⟨q, p', hrun, hrun⟩

theorem Burned.owners_of_leave {q : BurnQuote} (h : p.Burned p' owner (p.sharesOf owner) q)
    (other : Address) :
    p'.shares.find? other ≠ none ↔ other ≠ owner ∧ p.shares.find? other ≠ none := by
  by_cases hother : other = owner
  · subst hother
    obtain ⟨remaining, hremaining, hshares⟩ := h.owned
    have hnone : remaining = 0 := by
      rw [toNat_eq_zero]
      omega
    rw [hshares, if_pos hnone, SortedMap.find?_erase_self]
    simp
  · rw [h.find?_of_ne hother]
    simp [hother]

/-- Whoever comes first is not served at the cost of the others, so everyone is served as of the
outset. -/
theorem Undiluted.served (h : p₀.Undiluted p) (hkept : p.sharesOf owner = p₀.sharesOf owner)
    {q : BurnQuote}
    (hreleases : q.Releases p.reserve0 p.reserve1 p.totalShares (p.sharesOf owner)) :
    p₀.Served owner q := by
  have hlive : p.totalShares.toNat ≠ 0 := by
    have hne := hreleases.shares_ne
    have hle := hreleases.shares_le
    omega
  constructor
  · rw [hreleases.amount0_eq, hkept]
    exact worth_le_of_part_le hlive h.reserve0 _
  · rw [hreleases.amount1_eq, hkept]
    exact worth_le_of_part_le hlive h.reserve1 _

theorem Coherent.nobody (h : p.Coherent) (hnobody : ∀ owner, p.shares.find? owner = none) :
    p.shares = .empty ∧ p.totalShares = 0 ∧ p.reserve0 = 0 ∧ p.reserve1 = 0 := by
  have hshares : p.shares = .empty := SortedMap.ext_find? fun owner => by
    rw [hnobody, SortedMap.find?_empty]
  have hsum := h.shares_sum
  rw [hshares, SortedMap.sumBy_empty] at hsum
  have htotal : p.totalShares = 0 := toNat_eq_zero.2 (by omega)
  exact ⟨hshares, htotal, h.empty0.1 htotal, h.empty1.1 htotal⟩

def emptied (p : Pool) : Pool :=
  { p with reserve0 := 0, reserve1 := 0, totalShares := 0, shares := .empty }

theorem exists_leaveEach (h : p.Coherent) (hundiluted : p₀.Undiluted p) (hnodup : order.Nodup)
    (howners : ∀ owner, p.shares.find? owner ≠ none ↔ owner ∈ order)
    (hkept : ∀ owner ∈ order, p.sharesOf owner = p₀.sharesOf owner) :
    ∃ quotes, (leaveEach order).run p = .ok quotes p.emptied ∧
      List.Forall₂ p₀.Served order quotes ∧ p.PaidOut p.emptied quotes := by
  induction order generalizing p with
  | nil =>
    have hnobody (owner : Address) : p.shares.find? owner = none := by
      simpa using (howners owner).not
    obtain ⟨hshares, htotal, h0, h1⟩ := h.nobody hnobody
    have hself : p.emptied = p := by
      cases p
      simp_all [emptied]
    rw [hself]
    exact ⟨[], rfl, .nil, paidOut_nil p⟩
  | cons owner rest ih =>
    obtain ⟨hfirst, hnodup'⟩ := List.nodup_cons.1 hnodup
    obtain ⟨hkept₁, hkept'⟩ := List.forall_mem_cons.1 hkept
    obtain ⟨q, next, hleave, hrun⟩ :=
      exists_leave h ((howners owner).2 List.mem_cons_self)
    obtain ⟨hreleases, hburned⟩ := removeLiquidity_eq_ok hrun
    have hlive : p.totalShares ≠ 0 := by
      have hne := hreleases.shares_ne
      have hle := hreleases.shares_le
      rw [Ne, toNat_eq_zero]
      omega
    have howners' (other : Address) : next.shares.find? other ≠ none ↔ other ∈ rest := by
      rw [hburned.owners_of_leave, howners, List.mem_cons]
      constructor
      · rintro ⟨hne, rfl | hmem⟩
        · exact absurd rfl hne
        · exact hmem
      · intro hmem
        refine ⟨?_, .inr hmem⟩
        rintro rfl
        exact hfirst hmem
    have hkept_next : ∀ other ∈ rest, next.sharesOf other = p₀.sharesOf other := by
      intro other hmem
      rw [← hkept' other hmem]
      refine hburned.sharesOf_of_ne ?_
      rintro rfl
      exact hfirst hmem
    obtain ⟨quotes, hruns, hserved, hpaid⟩ := ih (h.removeLiquidity hrun)
      (hundiluted.trans hlive (undiluted_removeLiquidity hrun)) hnodup' howners' hkept_next
    have hemptied : next.emptied = p.emptied := by
      simp [emptied, hburned.pair, hburned.fee0, hburned.fee1]
    rw [hemptied] at hruns hpaid
    exact ⟨q :: quotes, run_mapM_cons_of_ok hleave hruns,
      .cons (hundiluted.served hkept₁ hreleases) hserved, .cons hburned hpaid⟩

/-- In whatever order the owners of a pool leave that came about by calls, each burns all its shares
and is paid at least its part of the reserves as they were at the outset. Together they are paid
the reserves, and all that is left is the pair and the accrued fees. -/
theorem everyone_can_leave (h : p.Reached) (horder : order.Perm (p.owners.map (·.1))) :
    ∃ quotes, (leaveEach order).run p = .ok quotes p.emptied ∧
      List.Forall₂ p.Served order quotes ∧
      paid0 quotes = p.reserve0.toNat ∧ paid1 quotes = p.reserve1.toNat := by
  have hnodup : order.Nodup := horder.nodup_iff.2 p.shares.nodup_keys
  have howners (owner : Address) : p.shares.find? owner ≠ none ↔ owner ∈ order := by
    rw [horder.mem_iff]
    exact SortedMap.mem_keys.symm
  obtain ⟨quotes, hrun, hserved, hpaid⟩ :=
    exists_leaveEach h.coherent (undiluted_refl p) hnodup howners fun _ _ => rfl
  exact ⟨quotes, hrun, hserved, (Nat.zero_add _).symm.trans hpaid.reserve0,
    (Nat.zero_add _).symm.trans hpaid.reserve1⟩

def threeOwners : Pool :=
  (trade [.addLiquidity 7 1000 2000, .addLiquidity 8 333 700, .swap .zeroForOne 101 ⟨30, 100, 9⟩,
    .addLiquidity 9 50 500] (fresh ⟨1, 2⟩)).2

theorem everyone_can_leave_threeOwners :
    threeOwners.Reached ∧ [8, 9, 7].Perm (threeOwners.owners.map (·.1)) ∧
      ∃ quotes, (leaveEach [8, 9, 7]).run threeOwners = .ok quotes threeOwners.emptied ∧
        List.Forall₂ threeOwners.Served [8, 9, 7] quotes ∧
        paid0 quotes = threeOwners.reserve0.toNat ∧ paid1 quotes = threeOwners.reserve1.toNat := by
  have hreached : threeOwners.Reached :=
    trade_keeps (fun t _ _ h => h.traded t) (Reached.fresh ⟨1, 2⟩)
  have horder : [8, 9, 7].Perm (threeOwners.owners.map (·.1)) := by decide +kernel
  exact ⟨hreached, horder, everyone_can_leave hreached horder⟩

end NetSettle.Pool
