import NetSettle.Proofs.Ledger.Update

/-!
# Clearing several entries

Where a search ends depends on the tokens in the slots alone, and clearing an entry leaves these as
they are. So whatever the table, clearing the entry of one token changes neither the delta of
another nor the number of slots that are looked at for it, and two entries may be cleared in either
order.
-/
namespace NetSettle

def Probe.index? : Probe → Option Nat
  | .found index => some index
  | .vacant _ | .full => none

attribute [ext] Ledger

namespace Ledger

variable {l l' : Ledger} {token u : Address} {i : Nat}

structure SameTokens (l l' : Ledger) : Prop where
  capacity : l'.capacity = l.capacity
  token : ∀ i, (l'.slotAt i).token = (l.slotAt i).token

theorem SameTokens.line (h : l.SameTokens l') (token : Address) (step : Nat) :
    l'.line token step = l.line token step := by
  simp only [Ledger.line, home, h.capacity]

theorem SameTokens.seek (h : l.SameTokens l') (token : Address) (left step : Nat)
    (reusable reusable' : Option Nat) :
    (l'.seek token left step reusable').1.index? = (l.seek token left step reusable).1.index? ∧
      (l'.seek token left step reusable').2 = (l.seek token left step reusable).2 := by
  induction left generalizing step reusable reusable' with
  | zero =>
    cases reusable <;> cases reusable' <;> exact ⟨rfl, rfl⟩
  | succ left ih =>
    rw [seek_succ, seek_succ, h.line, h.token]
    by_cases hfound : (l.slotAt (l.line token step)).token = token
    · rw [if_pos hfound, if_pos hfound]
      exact ⟨rfl, rfl⟩
    rw [if_neg hfound, if_neg hfound]
    by_cases hunused : (l.slotAt (l.line token step)).token = 0
    · rw [if_pos hunused, if_pos hunused]
      exact ⟨rfl, rfl⟩
    · rw [if_neg hunused, if_neg hunused]
      exact ih ..

theorem seek_index? {left step : Nat} {reusable : Option Nat} (hleft : left ≤ l.capacity)
    (h : (l.seek token left step reusable).1.index? = some i) :
    i < l.capacity ∧ (l.slotAt i).token = token := by
  induction left generalizing step reusable with
  | zero => cases reusable <;> cases h
  | succ left ih =>
    rw [seek_succ] at h
    split at h
    · rename_i hfound
      cases h
      exact ⟨line_lt (by omega) token step, hfound⟩
    · split at h
      · cases h
      · exact ih (by omega) h

def slotOf (l : Ledger) (token : Address) : Option Nat := (l.probe token).1.index?

def steps (l : Ledger) (token : Address) : Nat := (l.seek token l.capacity 0 none).2

theorem lt_of_slotOf (h : l.slotOf token = some i) :
    i < l.capacity ∧ (l.slotAt i).token = token :=
  seek_index? le_rfl h

theorem slotOf_inj {j : Nat} (hi : l.slotOf token = some i) (hj : l.slotOf u = some j)
    (hne : u ≠ token) : j ≠ i := by
  rintro rfl
  exact hne ((lt_of_slotOf hj).2.symm.trans (lt_of_slotOf hi).2)

theorem SameTokens.slotOf (h : l.SameTokens l') (token : Address) :
    l'.slotOf token = l.slotOf token := by
  change (l'.seek token l'.capacity 0 none).1.index? = (l.seek token l.capacity 0 none).1.index?
  rw [h.capacity]
  exact (h.seek token l.capacity 0 none none).1

theorem SameTokens.steps (h : l.SameTokens l') (token : Address) :
    l'.steps token = l.steps token := by
  rw [Ledger.steps, h.capacity]
  exact (h.seek token l.capacity 0 none none).2

theorem deltaOf_eq (l : Ledger) (token : Address) :
    l.deltaOf token = ((l.slotOf token).map fun i => (l.slotAt i).delta).getD 0 := by
  rw [deltaOf, balance, slotOf, probe_eq]
  cases (l.seek token l.capacity 0 none).1 <;> rfl

theorem slots_clear (l : Ledger) (token : Address) :
    (l.clear token).2.slots = ((l.slotOf token).map fun i =>
      l.slots.setIfInBounds i ⟨token, 0⟩).getD l.slots := by
  rw [clear, slotOf, probe_eq]
  cases (l.seek token l.capacity 0 none).1 <;> rfl

theorem nonzero_clear (l : Ledger) (token : Address) :
    (l.clear token).2.nonzero = l.nonzero - if l.deltaOf token = 0 then 0 else 1 := by
  rw [deltaOf_eq, clear, slotOf, probe_eq]
  cases (l.seek token l.capacity 0 none).1 with
  | found i =>
    have hcount : (l.probed token).nonzero = l.nonzero := rfl
    by_cases hzero : (l.slotAt i).delta = 0 <;> simp [Probe.index?, settleSlot, hzero, hcount]
  | vacant i => rfl
  | full => rfl

theorem probes_clear (l : Ledger) (token : Address) :
    (l.clear token).2.probes = l.probes + l.steps token := by
  rw [clear, probe_eq]
  cases (l.seek token l.capacity 0 none).1 <;> rfl

theorem slotAt_clear (l : Ledger) (token : Address) (j : Nat) :
    (l.clear token).2.slotAt j = if l.slotOf token = some j then ⟨token, 0⟩ else l.slotAt j := by
  rw [slotAt, slots_clear]
  cases hslot : l.slotOf token with
  | none => rfl
  | some i =>
    have hput : (l.put i ⟨token, 0⟩ l.nonzero).slotAt j =
        if j = i then ⟨token, 0⟩ else l.slotAt j := slotAt_put (lt_of_slotOf hslot).1 j
    simp only [Option.some_inj, eq_comm (a := i)]
    exact hput

theorem sameTokens_clear (l : Ledger) (token : Address) : l.SameTokens (l.clear token).2 where
  capacity := by
    rw [capacity, slots_clear]
    cases l.slotOf token with
    | none => rfl
    | some i => exact Array.size_setIfInBounds
  token := fun i => by
    rw [slotAt_clear]
    split
    · rename_i hslot
      exact (lt_of_slotOf hslot).2.symm
    · rfl

theorem deltaOf_clear_of_ne (hne : u ≠ token) : (l.clear token).2.deltaOf u = l.deltaOf u := by
  rw [deltaOf_eq, deltaOf_eq, (l.sameTokens_clear token).slotOf]
  cases hj : l.slotOf u with
  | none => rfl
  | some j =>
    rw [Option.map_some, Option.map_some, slotAt_clear, if_neg]
    intro hi
    exact slotOf_inj hi hj hne rfl

theorem slots_clear_comm (l : Ledger) (hne : u ≠ token) :
    ((l.clear token).2.clear u).2.slots = ((l.clear u).2.clear token).2.slots := by
  simp only [slots_clear, (l.sameTokens_clear _).slotOf]
  cases hi : l.slotOf token with
  | none => rfl
  | some i =>
    cases hj : l.slotOf u with
    | none => rfl
    | some j => exact Array.setIfInBounds_comm _ _ (slotOf_inj hi hj hne).symm

theorem clear_comm (l : Ledger) (hne : u ≠ token) :
    ((l.clear token).2.clear u).2 = ((l.clear u).2.clear token).2 := by
  have hnonzero : ((l.clear token).2.clear u).2.nonzero =
      ((l.clear u).2.clear token).2.nonzero := by
    simp only [nonzero_clear, deltaOf_clear_of_ne hne, deltaOf_clear_of_ne hne.symm]
    exact Nat.sub_right_comm ..
  have hprobes : ((l.clear token).2.clear u).2.probes =
      ((l.clear u).2.clear token).2.probes := by
    simp only [probes_clear, (l.sameTokens_clear _).steps]
    exact Nat.add_right_comm ..
  exact Ledger.ext (slots_clear_comm l hne) hnonzero hprobes

end Ledger

end NetSettle
