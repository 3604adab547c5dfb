import NetSettle.Proofs.Pool.Splitting

/-!
# How the price of a swap moves

A swap pays more for a larger input and from a larger output reserve, and less into a larger input
reserve or at higher fees. No rounding on the way turns this around: whatever is taken off or
rounded down is monotone in each of its arguments. A sale leaves a pool that pays less for the same
input, so the same sale made again and again fetches less and less.
-/
namespace NetSettle

theorem netIn_mono {a a' ppt ppt' : Nat} (ha : a ≤ a') (hppt : ppt' ≤ ppt) (hscale : ppt' ≤ 1000) :
    netIn a ppt ≤ netIn a' ppt' := by
  obtain ⟨d, rfl⟩ := Nat.exists_eq_add_of_le ha
  have hskim : a * ppt' / 1000 ≤ a * ppt / 1000 :=
    Nat.div_le_div_right (Nat.mul_le_mul_left _ hppt)
  -- The protocol takes no more of what is added than all of it.
  have hadded : (a + d) * ppt' / 1000 ≤ a * ppt' / 1000 + d := by
    have hd : d * ppt' ≤ d * 1000 := Nat.mul_le_mul_left _ hscale
    rw [Nat.add_mul]
    omega
  unfold netIn
  omega

theorem effectiveIn_mono {net net' feeBps feeBps' : Nat} (hnet : net ≤ net')
    (hfee : feeBps' ≤ feeBps) : effectiveIn net feeBps ≤ effectiveIn net' feeBps' :=
  Nat.div_le_div_right (Nat.mul_le_mul hnet (Nat.sub_le_sub_left hfee _))

theorem paid_mono_input {o r e e' : Nat} (hr : 0 < r) (he : e ≤ e') :
    o * e / (r + e) ≤ o * e' / (r + e') := by
  obtain ⟨d, rfl⟩ := Nat.exists_eq_add_of_le he
  rw [Nat.le_div_iff_mul_le (by omega)]
  have hfloor : o * e / (r + e) * (r + e) ≤ o * e := Nat.div_mul_le_self _ _
  have hpaid : o * e / (r + e) ≤ o :=
    Nat.div_le_of_le_mul (by
      rw [Nat.mul_comm]
      exact Nat.mul_le_mul_right _ (Nat.le_add_left _ _))
  calc o * e / (r + e) * (r + (e + d)) = o * e / (r + e) * (r + e) + o * e / (r + e) * d := by ring
    _ ≤ o * e + o * d := Nat.add_le_add hfloor (Nat.mul_le_mul_right _ hpaid)
    _ = o * (e + d) := by ring

theorem paid_mono {o o' r r' e e' : Nat} (hr : 0 < r') (hreserve : r' ≤ r) (ho : o ≤ o')
    (he : e ≤ e') : o * e / (r + e) ≤ o' * e' / (r' + e') :=
  calc o * e / (r + e) ≤ o' * e / (r' + e) :=
        Nat.div_le_div (Nat.mul_le_mul_right _ ho) (Nat.add_le_add_right hreserve _) (by omega)
    _ ≤ o' * e' / (r' + e') := paid_mono_input hr he

theorem amountOut_le_of_quoteSwap {reserveIn reserveIn' reserveOut reserveOut' amountIn
    amountIn' : Amount} {feeBps feeBps' ppt ppt' : UInt16} {q q' : SwapQuote}
    (hquote : quoteSwap reserveIn reserveOut amountIn feeBps ppt = .ok q)
    (hquote' : quoteSwap reserveIn' reserveOut' amountIn' feeBps' ppt' = .ok q')
    (hin : reserveIn' ≤ reserveIn) (hout : reserveOut ≤ reserveOut') (ha : amountIn ≤ amountIn')
    (hfee : feeBps' ≤ feeBps) (hppt : ppt' ≤ ppt) : q.amountOut ≤ q'.amountOut := by
  have hprices := quoteSwap_eq_ok hquote
  have hprices' := quoteSwap_eq_ok hquote'
  have hscale := (fees_inRange_of_quoteSwap hquote').2
  have hnet : netIn amountIn.toNat ppt.toNat ≤ netIn amountIn'.toNat ppt'.toNat :=
    netIn_mono ha (UInt16.le_iff_toNat_le.1 hppt) hscale.le
  have heffective := effectiveIn_mono hnet (UInt16.le_iff_toNat_le.1 hfee)
  rw [BitVec.le_def, hprices.amountOut_eq, hprices'.amountOut_eq]
  exact paid_mono (Nat.pos_of_ne_zero hprices'.reserveIn_ne) hin hout heffective

namespace Pool

open Faulting

variable {p p' p'' : Pool} {direction : Direction} {fees : FeeSettings} {amountIn : Amount}
  {amounts : List Amount} {q : SwapQuote} {quotes : List SwapQuote}

/-- A pool that has no less on the input side and no more on the output side. -/
structure Dearer (direction : Direction) (p p' : Pool) : Prop where
  reserveIn : p.reserveIn direction ≤ p'.reserveIn direction
  reserveOut : p'.reserveOut direction ≤ p.reserveOut direction

theorem Dearer.trans (h : Dearer direction p p') (h' : Dearer direction p' p'') :
    Dearer direction p p'' :=
  ⟨BitVec.le_trans h.reserveIn h'.reserveIn, BitVec.le_trans h'.reserveOut h.reserveOut⟩

theorem dearer_of_swap (h : (swap direction amountIn fees).run p = .ok q p') :
    Dearer direction p p' := by
  obtain ⟨-, hquote, accrued, -, rfl⟩ := swap_eq_ok_iff.1 h
  have hprices := quoteSwap_eq_ok hquote
  have hin := hprices.in_eq
  have hpaid := hprices.paid_eq
  constructor
  · rw [reserveIn_swapped, BitVec.le_def]
    omega
  · rw [reserveOut_swapped, BitVec.le_def]
    omega

theorem amountOut_le_of_dearer {amountIn' : Amount} {q' : SwapQuote} {next next' : Pool}
    (hdearer : Dearer direction p p') (ha : amountIn' ≤ amountIn)
    (h : (swap direction amountIn fees).run p = .ok q next)
    (h' : (swap direction amountIn' fees).run p' = .ok q' next') : q'.amountOut ≤ q.amountOut := by
  obtain ⟨-, hquote, -⟩ := swap_eq_ok_iff.1 h
  obtain ⟨-, hquote', -⟩ := swap_eq_ok_iff.1 h'
  exact amountOut_le_of_quoteSwap hquote' hquote hdearer.reserveIn hdearer.reserveOut ha
    (UInt16.le_refl _) (UInt16.le_refl _)

theorem amountOut_le_of_swapEach {next last : Pool}
    (h : (swap direction amountIn fees).run p = .ok q next) (hdearer : Dearer direction p p')
    (hle : ∀ a ∈ amounts, a ≤ amountIn)
    (hrun : (swapEach direction fees amounts).run p' = .ok quotes last) :
    ∀ q' ∈ quotes, q'.amountOut ≤ q.amountOut := by
  induction amounts generalizing p' quotes with
  | nil =>
    obtain ⟨rfl, -⟩ := run_pure_eq_ok.1 hrun
    simp
  | cons a rest ih =>
    obtain ⟨ha, hrest⟩ := List.forall_mem_cons.1 hle
    obtain ⟨q', p'', quotes', hswap, hlater, rfl⟩ := run_mapM_cons_eq_ok.1 hrun
    rw [List.forall_mem_cons]
    constructor
    · exact amountOut_le_of_dearer hdearer ha h hswap
    · exact ih (hdearer.trans (dearer_of_swap hswap)) hrest hlater

theorem outputs_descend (hamounts : amounts.Pairwise (· ≥ ·))
    (hrun : (swapEach direction fees amounts).run p = .ok quotes p') :
    (quotes.map (·.amountOut)).Pairwise (· ≥ ·) := by
  induction amounts generalizing p quotes with
  | nil =>
    obtain ⟨rfl, -⟩ := run_pure_eq_ok.1 hrun
    simp
  | cons a rest ih =>
    obtain ⟨hle, hrest⟩ := List.pairwise_cons.1 hamounts
    obtain ⟨q, next, quotes', hswap, hlater, rfl⟩ := run_mapM_cons_eq_ok.1 hrun
    rw [List.map_cons, List.pairwise_cons]
    constructor
    · simpa using amountOut_le_of_swapEach hswap (dearer_of_swap hswap) hle hlater
    · exact ih hrest hlater

end Pool

/-- Of two swaps that are quoted, one pays no more than the other if nothing that it is quoted for
is more favourable; so the output follows each argument by itself. And the same amount sold over and
over fetches no more than the time before. -/
theorem price_monotone :
    (∀ (reserveIn reserveIn' reserveOut reserveOut' amountIn amountIn' : Amount)
      (feeBps feeBps' ppt ppt' : UInt16) (q q' : SwapQuote),
      quoteSwap reserveIn reserveOut amountIn feeBps ppt = .ok q →
      quoteSwap reserveIn' reserveOut' amountIn' feeBps' ppt' = .ok q' →
      reserveIn' ≤ reserveIn → reserveOut ≤ reserveOut' → amountIn ≤ amountIn' →
      feeBps' ≤ feeBps → ppt' ≤ ppt → q.amountOut ≤ q'.amountOut) ∧
    ∀ (p p' : Pool) (direction : Direction) (fees : FeeSettings) (amountIn : Amount) (times : Nat)
      (quotes : List SwapQuote),
      (Pool.swapEach direction fees (List.replicate times amountIn)).run p = .ok quotes p' →
      (quotes.map (·.amountOut)).Pairwise (· ≥ ·) := by
  constructor
  · intro reserveIn reserveIn' reserveOut reserveOut' amountIn amountIn' feeBps feeBps' ppt ppt'
      q q' hquote hquote' hin hout ha hfee hppt
    exact amountOut_le_of_quoteSwap hquote hquote' hin hout ha hfee hppt
  · intro p p' direction fees amountIn times quotes hrun
    have hsame : (List.replicate times amountIn).Pairwise (· ≥ ·) :=
      List.pairwise_replicate.2 (.inr (BitVec.le_refl _))
    exact Pool.outputs_descend hsame hrun

theorem price_monotone_threeTimes :
    (∃ q q', quoteSwap 1000 900 100 30 10 = .ok q ∧ quoteSwap 990 910 101 29 9 = .ok q' ∧
      q.amountOut ≤ q'.amountOut) ∧
    ∃ quotes p', (Pool.swapEach .oneForZero ⟨30, 10, 9⟩ (List.replicate 3 100)).run
        ⟨⟨1, 2⟩, 900, 1000, 5, 0, 0, SortedMap.empty.insert 7 5⟩ = .ok quotes p' ∧
      quotes.map (·.amountOut) = [80, 67, 56] ∧ (quotes.map (·.amountOut)).Pairwise (· ≥ ·) := by
  obtain ⟨hprices, hruns⟩ := price_monotone
  obtain ⟨q, hquote⟩ : ∃ q, quoteSwap 1000 900 100 30 10 = .ok q :=
    exists_quoteSwap_iff.2 (by decide)
  obtain ⟨q', hquote'⟩ : ∃ q, quoteSwap 990 910 101 29 9 = .ok q :=
    exists_quoteSwap_iff.2 (by decide)
  have hends : Faulting.endsWith (fun quotes _ => quotes.map (·.amountOut) = [80, 67, 56])
      ((Pool.swapEach .oneForZero ⟨30, 10, 9⟩ (List.replicate 3 100)).run
        ⟨⟨1, 2⟩, 900, 1000, 5, 0, 0, SortedMap.empty.insert 7 5⟩) = true := by decide +kernel
  obtain ⟨quotes, p', hrun, houtputs⟩ := Faulting.exists_of_endsWith hends
  exact ⟨⟨q, q', hquote, hquote', hprices _ _ _ _ _ _ _ _ _ _ _ _ hquote hquote' (by decide)
    (by decide) (by decide) (by decide) (by decide)⟩,
    quotes, p', hrun, of_decide_eq_true houtputs, hruns _ _ _ _ _ 3 quotes hrun⟩

end NetSettle
