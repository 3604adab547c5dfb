import NetSettle.Proofs.Ledger.Update
import Mathlib.Data.Set.Card

/-!
# What a ledger stands for

A ledger stands for a delta for every token. `Balances` is that alone, without slots and without
searching: it takes a change unless the token is zero, the sum does not fit, or the change would
open one token more than the capacity. A table that starts empty gives the same replies to every
sequence of calls, and reports the same open tokens after it.
-/
namespace NetSettle

namespace Ledger

inductive Call where
  | change (token : Address) (delta : Delta)
  | get (token : Address)
  | reset (token : Address)
  deriving DecidableEq, Repr

inductive Reply where
  | accepted
  | delta (delta : Delta)
  | refused (fault : Fault)
  deriving DecidableEq, Repr

def answer : Call → Ledger → Reply × Ledger
  | .change token delta, l =>
    match (change token delta).run l with
    | .ok _ l => (.accepted, l)
    | .error fault l => (.refused fault, l)
  | .get token, l => let (delta, l) := l.balance token; (.delta delta, l)
  | .reset token, l => let (delta, l) := l.clear token; (.delta delta, l)

/-- Answers one call after the other; a refused call does not end the sequence. -/
def answers : List Call → Ledger → List Reply × Ledger
  | [], l => ([], l)
  | call :: calls, l =>
    let (reply, l) := answer call l
    let (replies, l) := answers calls l
    (reply :: replies, l)

end Ledger

abbrev Balances := Address → Delta

namespace Balances

open Ledger (Call Reply)

noncomputable def openCount (b : Balances) : Nat := {token | b token ≠ 0}.ncard

noncomputable def change (capacity : Nat) (token : Address) (delta : Delta) (b : Balances) :
    Reply × Balances :=
  if token = 0 then (.refused .zeroToken, b)
  else if delta = 0 then (.accepted, b)
  else if b token = 0 ∧ b.openCount = capacity then (.refused (.ledgerFull capacity), b)
  else if h : -2 ^ 255 ≤ (b token).val + delta.val ∧ (b token).val + delta.val < 2 ^ 255 then
    (.accepted, Function.update b token ⟨(b token).val + delta.val, h⟩)
  else (.refused .overflow, b)

theorem change_of_capacity_le {capacity capacity' : Nat} (h : capacity ≤ capacity')
    (token : Address) (delta : Delta) {b : Balances} (hroom : b.openCount ≤ capacity) :
    (b.change capacity token delta).1 = .refused (.ledgerFull capacity) ∨
      b.change capacity' token delta = b.change capacity token delta := by
  unfold change
  by_cases ht : token = 0
  · simp [ht]
  by_cases hd : delta = 0
  · simp [hd]
  by_cases hfull : b token = 0 ∧ b.openCount = capacity
  · exact .inl (by simp only [ht, hd, hfull, if_false, if_true, true_and])
  · have hfull' : ¬ (b token = 0 ∧ b.openCount = capacity') := by
      rintro ⟨hzero, hcount⟩
      exact hfull ⟨hzero, by omega⟩
    exact .inr (by simp only [ht, hd, hfull, hfull', if_false])

noncomputable def answer (capacity : Nat) : Call → Balances → Reply × Balances
  | .change token delta, b => b.change capacity token delta
  | .get token, b => (.delta (b token), b)
  | .reset token, b => (.delta (b token), Function.update b token 0)

noncomputable def answers (capacity : Nat) : List Call → Balances → List Reply × Balances
  | [], b => ([], b)
  | call :: calls, b =>
    let (reply, b) := answer capacity call b
    let (replies, b) := answers capacity calls b
    (reply :: replies, b)

end Balances

namespace Ledger

variable {l : Ledger}

theorem mem_slots {s : Slot} : s ∈ l.slots ↔ ∃ i < l.capacity, l.slotAt i = s := by
  rw [Array.mem_iff_getElem]
  constructor
  · rintro ⟨i, hi, rfl⟩
    exact ⟨i, hi, (slots_getElem hi).symm⟩
  · rintro ⟨i, hi, rfl⟩
    exact ⟨i, hi, slots_getElem hi⟩

theorem Valid.mem_outstanding (hv : l.Valid) {token : Address} {delta : Delta} :
    (token, delta) ∈ l.outstanding ↔ delta ≠ 0 ∧ l.deltaOf token = delta := by
  simp only [outstanding, List.mem_map, List.mem_filter, Array.mem_toList_iff, mem_slots,
    Bool.and_eq_true, decide_eq_true_eq, Prod.mk.injEq]
  constructor
  · rintro ⟨s, ⟨⟨i, hi, rfl⟩, -, hd⟩, rfl, rfl⟩
    exact ⟨hd, hv.deltaOf_slot hi rfl⟩
  · rintro ⟨hd, rfl⟩
    obtain ⟨i, hi, rfl⟩ := (l.absent_or_exists token).resolve_left
      fun ha => hd (hv.deltaOf_absent ha)
    have hi' := hv.deltaOf_slot hi rfl
    refine ⟨_, ⟨⟨i, hi, rfl⟩, ?_, ?_⟩, rfl, hi'.symm⟩
    · intro h0
      rw [hi'] at hd
      exact hd (hv.unused_zero i h0)
    · rwa [← hi']

theorem Valid.outstanding_nodup (hv : l.Valid) : (l.outstanding.map (·.1)).Nodup := by
  have hslots : l.slots.toList.Pairwise fun a b => a.token ≠ 0 → a.token ≠ b.token := by
    rw [List.pairwise_iff_getElem]
    intro i j hi hj hij hne he
    simp only [Array.getElem_toList, slots_getElem] at hne he
    have := hv.unique i hi j hj he hne
    omega
  simp only [outstanding, List.map_map, List.Nodup, List.pairwise_map]
  apply (hslots.filter _).imp_of_mem
  intro a b ha _ hab
  simp only [List.mem_filter, Bool.and_eq_true, decide_eq_true_eq] at ha
  exact hab ha.2.1

theorem Valid.length_outstanding (hv : l.Valid) : l.outstanding.length = l.nonzero := by
  rw [outstanding, List.length_map, ← List.countP_eq_length_filter, hv.counted,
    ← Array.countP_toList]
  apply List.countP_congr
  intro s hs
  obtain ⟨i, -, rfl⟩ := mem_slots.1 (Array.mem_toList_iff.1 hs)
  simp only [Bool.and_eq_true, decide_eq_true_eq, and_iff_right_iff_imp]
  intro hd h0
  exact hd (hv.unused_zero i h0)

theorem Valid.openCount_eq (hv : l.Valid) : Balances.openCount l.deltaOf = l.nonzero := by
  have hset : {token | l.deltaOf token ≠ 0} = ↑(l.outstanding.map (·.1)).toFinset := by
    ext token
    simp [hv.mem_outstanding]
  rw [Balances.openCount, hset, Set.ncard_coe_finset, List.toFinset_card_of_nodup
    hv.outstanding_nodup, List.length_map, hv.length_outstanding]

theorem Valid.openCount_le (hv : l.Valid) : Balances.openCount l.deltaOf ≤ l.capacity := by
  rw [hv.openCount_eq, hv.counted]
  exact Array.countP_le_size

theorem Valid.full_iff (hv : l.Valid) :
    Balances.openCount l.deltaOf = l.capacity ↔ ∀ i < l.capacity, (l.slotAt i).delta ≠ 0 := by
  rw [hv.openCount_eq, hv.counted, capacity, Array.countP_eq_size]
  constructor
  · intro h i hi
    simpa using h _ (mem_slots.2 ⟨i, hi, rfl⟩)
  · intro h s hs
    obtain ⟨i, hi, rfl⟩ := mem_slots.1 hs
    simpa using h i hi

theorem exists_ofCapacity {capacity : Nat} (h : 0 < capacity) :
    ∃ l, ofCapacity capacity = .ok l ∧ l.Valid ∧ l.capacity = capacity ∧
      l.deltaOf = fun _ => 0 := by
  let l : Ledger := ⟨Array.replicate capacity .unused, 0, 0⟩
  have hslot : ∀ i, l.slotAt i = .unused := by
    intro i
    simp only [slotAt, l, Array.getD_eq_getD_getElem?, Array.getElem?_replicate]
    split <;> rfl
  have hcap : l.capacity = capacity := Array.size_replicate
  have hv : l.Valid := by
    constructor
    · rwa [hcap]
    · intro i _
      rw [hslot]
      rfl
    · intro i _ j _ _ hne
      rw [hslot] at hne
      exact absurd rfl hne
    · intro token ht k _ hk
      rw [hslot] at hk
      exact absurd hk.symm ht
    · simp [l, Array.countP_replicate, Slot.unused]
  refine ⟨l, if_neg (by omega), hv, hcap, ?_⟩
  funext token
  rcases l.absent_or_exists token with ha | ⟨i, hi, ht⟩
  · exact hv.deltaOf_absent ha
  · rw [hv.deltaOf_slot hi ht, hslot]
    rfl

theorem of_ofCapacity {capacity : Nat} (h : ofCapacity capacity = .ok l) :
    l.Valid ∧ l.capacity = capacity ∧ l.deltaOf = fun _ => 0 := by
  have hpos : 0 < capacity := by
    by_contra h0
    rw [ofCapacity, if_pos (by omega)] at h
    cases h
  obtain ⟨l', hl', hnew⟩ := exists_ofCapacity hpos
  rw [hl'] at h
  cases h
  exact hnew

theorem Valid.answer_change (hv : l.Valid) (token : Address) (delta : Delta) :
    (l.answer (.change token delta)).1 = (Balances.change l.capacity token delta l.deltaOf).1 ∧
      (l.answer (.change token delta)).2.Valid ∧
      (l.answer (.change token delta)).2.capacity = l.capacity ∧
      (l.answer (.change token delta)).2.deltaOf =
        (Balances.change l.capacity token delta l.deltaOf).2 := by
  unfold Balances.change Ledger.answer
  by_cases ht : token = 0
  · subst ht
    simp only [change_run_zeroToken, if_true]
    exact ⟨trivial, hv, trivial, trivial⟩
  by_cases hd : delta = 0
  · subst hd
    simp only [change_run_zero ht, ht, if_false, if_true]
    exact ⟨trivial, hv, trivial, trivial⟩
  simp only [ht, hd, if_false, hv.full_iff]
  by_cases hroom : l.deltaOf token = 0 ∧ ∀ i < l.capacity, (l.slotAt i).delta ≠ 0
  · have hv₁ := hv.probed token
    simp only [hv.change_full ht hd hroom.1 hroom.2, if_pos hroom]
    exact ⟨trivial, hv₁, rfl, funext (hv.deltaOf_congr hv₁ rfl)⟩
  · have hroom' : l.deltaOf token = 0 → ∃ i < l.capacity, (l.slotAt i).delta = 0 := by
      intro hzero
      by_contra hfull
      push Not at hfull
      exact hroom ⟨hzero, hfull⟩
    obtain ⟨l₁, i, hv₁, hcap, hsame, hi, htoken, hrun⟩ := hv.change_room ht hd hroom'
    rw [hrun, if_neg hroom, ← hsame token]
    by_cases hfits : -2 ^ 255 ≤ (l₁.deltaOf token).val + delta.val ∧
        (l₁.deltaOf token).val + delta.val < 2 ^ 255
    · obtain ⟨l₂, hpost, hv₂, hcap₂, hdelta⟩ := hv₁.post_some ht hi htoken (dif_pos hfits)
      simp only [hpost, dif_pos hfits]
      refine ⟨trivial, hv₂, hcap₂.trans hcap, ?_⟩
      funext u
      rw [hdelta, Function.update_apply, hsame u]
    · simp only [hv₁.post_none hi htoken (dif_neg hfits), dif_neg hfits]
      exact ⟨trivial, hv₁, hcap, funext hsame⟩

theorem Valid.answer (hv : l.Valid) (call : Call) :
    (l.answer call).1 = (Balances.answer l.capacity call l.deltaOf).1 ∧
      (l.answer call).2.Valid ∧ (l.answer call).2.capacity = l.capacity ∧
      (l.answer call).2.deltaOf = (Balances.answer l.capacity call l.deltaOf).2 := by
  cases call with
  | change token delta => exact hv.answer_change token delta
  | get token =>
    have hv' := hv.probed token
    simp only [Ledger.answer, balance_eq, Balances.answer]
    refine ⟨trivial, hv', rfl, ?_⟩
    funext u
    exact hv.deltaOf_congr hv' rfl u
  | reset token =>
    obtain ⟨hdelta, hv', hcap, hafter⟩ := hv.clear token
    simp only [Ledger.answer, Balances.answer]
    refine ⟨congrArg Reply.delta hdelta, hv', hcap, ?_⟩
    funext u
    rw [hafter, Function.update_apply]

inductive Reached : Ledger → Prop
  | fresh {capacity : Nat} {l : Ledger} (h : ofCapacity capacity = .ok l) : Reached l
  | called {l : Ledger} (h : Reached l) (call : Call) : Reached (l.answer call).2

theorem Reached.valid (h : l.Reached) : l.Valid := by
  induction h with
  | fresh h => exact (of_ofCapacity h).1
  | called _ call ih => exact (ih.answer call).2.1

theorem Valid.answers (hv : l.Valid) (calls : List Call) :
    (l.answers calls).1 = (Balances.answers l.capacity calls l.deltaOf).1 ∧
      (l.answers calls).2.Valid ∧
      (l.answers calls).2.deltaOf = (Balances.answers l.capacity calls l.deltaOf).2 := by
  induction calls generalizing l with
  | nil => exact ⟨rfl, hv, rfl⟩
  | cons call calls ih =>
    obtain ⟨hreply, hv', hcap, hdelta⟩ := hv.answer call
    have hrest := ih hv'
    rw [hcap, hdelta] at hrest
    refine ⟨?_, hrest.2.1, hrest.2.2⟩
    simp only [Ledger.answers, Balances.answers, List.cons.injEq]
    exact ⟨hreply, hrest.1⟩

theorem Valid.checkSettled_eq_ok (hv : l.Valid) :
    l.checkSettled = .ok () ↔ ∀ token, l.deltaOf token = 0 := by
  have hcheck : l.checkSettled = .ok () ↔ l.outstanding = [] := by
    rw [checkSettled, ← List.length_eq_zero_iff, hv.length_outstanding]
    by_cases h : l.nonzero = 0 <;> simp [h]
  rw [hcheck, List.eq_nil_iff_forall_not_mem]
  constructor
  · intro h token
    by_contra hne
    exact h (token, l.deltaOf token) (hv.mem_outstanding.2 ⟨hne, rfl⟩)
  · rintro h ⟨token, delta⟩ hmem
    obtain ⟨hne, rfl⟩ := hv.mem_outstanding.1 hmem
    exact hne (h token)

/-- A table of any capacity answers every sequence of calls as the deltas that it stands for do,
and afterwards reports exactly those that are not zero. -/
theorem table_refines_balances (capacity : Nat) (h : 0 < capacity) (calls : List Call) :
    ∃ l, ofCapacity capacity = .ok l ∧
      let after := (l.answers calls).2
      let ideal := (Balances.answers capacity calls fun _ => 0).2
      (l.answers calls).1 = (Balances.answers capacity calls fun _ => 0).1 ∧
      after.nonzero = ideal.openCount ∧
      (after.outstanding.map (·.1)).Nodup ∧
      (∀ token delta, (token, delta) ∈ after.outstanding ↔ delta ≠ 0 ∧ ideal token = delta) ∧
      (after.checkSettled = .ok () ↔ ∀ token, ideal token = 0) := by
  obtain ⟨l, hl, hv, hcap, hzero⟩ := exists_ofCapacity h
  obtain ⟨hreplies, hv', hdelta⟩ := hv.answers calls
  rw [hcap, hzero] at hreplies hdelta
  refine ⟨l, hl, hreplies, ?_, hv'.outstanding_nodup, ?_, ?_⟩
  · rw [← hdelta, hv'.openCount_eq]
  · intro token delta
    rw [← hdelta, hv'.mem_outstanding]
  · rw [← hdelta, hv'.checkSettled_eq_ok]

theorem table_refines_balances_reuse :
    0 < 2 ∧ (Balances.answers 2 [.change 1 (.owedToPool 1), .change 3 (.owedToPool 3),
      .change 5 (.owedToCaller 9), .reset 1, .change 5 (.owedToCaller 9), .get 3] fun _ => 0).1 =
      [.accepted, .accepted, .refused (.ledgerFull 2), .delta (.owedToPool 1), .accepted,
        .delta (.owedToPool 3)] := by
  obtain ⟨l, hl, hreplies, -⟩ := table_refines_balances 2 (by decide)
    [.change 1 (.owedToPool 1), .change 3 (.owedToPool 3), .change 5 (.owedToCaller 9), .reset 1,
      .change 5 (.owedToCaller 9), .get 3]
  cases hl
  exact ⟨by decide, hreplies.symm.trans (by decide)⟩

end Ledger

end NetSettle
