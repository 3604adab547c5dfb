import NetSettle.Ledger
import Mathlib.Data.Nat.ModEq

/-!
# Searching the table of a ledger

A valid table has at most one slot for a token, no unused slot on the line from the home of a token
to its slot, and a count that agrees with the slots. Under these three a search tells the truth:
it finds the slot of a token that has one, and offers a slot that may be taken over otherwise. So
the delta that is read for a token is that of its slot, and zero if it has none.
-/
namespace NetSettle.Ledger

variable {l : Ledger} {token : Address}

def line (l : Ledger) (token : Address) (step : Nat) : Nat := (l.home token + step) % l.capacity

def Absent (l : Ledger) (token : Address) : Prop :=
  ∀ i < l.capacity, (l.slotAt i).token ≠ token

theorem absent_or_exists (l : Ledger) (token : Address) :
    l.Absent token ∨ ∃ i < l.capacity, (l.slotAt i).token = token := by
  by_cases h : l.Absent token
  · exact Or.inl h
  · right
    simpa only [Absent, not_forall, not_not, exists_prop] using h

structure Valid (l : Ledger) : Prop where
  capacity_pos : 0 < l.capacity
  unused_zero : ∀ i, (l.slotAt i).token = 0 → (l.slotAt i).delta = 0
  unique : ∀ i < l.capacity, ∀ j < l.capacity,
    (l.slotAt i).token = (l.slotAt j).token → (l.slotAt i).token ≠ 0 → i = j
  reached : ∀ token ≠ 0, ∀ k < l.capacity, (l.slotAt (l.line token k)).token = token →
    ∀ j < k, (l.slotAt (l.line token j)).token ≠ 0
  counted : l.nonzero = l.slots.countP fun s => s.delta ≠ 0

def deltaOf (l : Ledger) (token : Address) : Delta := (l.balance token).1

theorem slots_getElem {i : Nat} (hi : i < l.slots.size) : l.slots[i] = l.slotAt i := by
  simp [slotAt, Array.getD_eq_getD_getElem?, hi]

theorem line_lt (h : 0 < l.capacity) (token : Address) (step : Nat) :
    l.line token step < l.capacity :=
  Nat.mod_lt _ h

theorem exists_line {i : Nat} (token : Address) (hi : i < l.capacity) :
    ∃ k < l.capacity, l.line token k = i := by
  have hpos : 0 < l.capacity := by omega
  have hhome : l.home token < l.capacity := Nat.mod_lt _ hpos
  refine ⟨(i + (l.capacity - l.home token)) % l.capacity, Nat.mod_lt _ hpos, ?_⟩
  have hsum : l.home token + (i + (l.capacity - l.home token)) = i + l.capacity := by omega
  rw [line, Nat.add_mod_mod, hsum, Nat.add_mod_right, Nat.mod_eq_of_lt hi]

theorem line_inj {j k : Nat} (hj : j < l.capacity) (hk : k < l.capacity)
    (h : l.line token j = l.line token k) : j = k := by
  have hm : j ≡ k [MOD l.capacity] := Nat.ModEq.add_left_cancel' (l.home token) h
  rwa [Nat.ModEq, Nat.mod_eq_of_lt hj, Nat.mod_eq_of_lt hk] at hm

/-- A slot that a token without one can have: its delta is zero and no unused slot comes before
it. -/
def Vacant (l : Ledger) (token : Address) (i : Nat) : Prop :=
  (l.slotAt i).delta = 0 ∧
    ∃ k < l.capacity, i = l.line token k ∧ ∀ j < k, (l.slotAt (l.line token j)).token ≠ 0

def Means (l : Ledger) (token : Address) : Probe → Prop
  | .found i => i < l.capacity ∧ (l.slotAt i).token = token
  | .vacant i => l.Absent token ∧ l.Vacant token i
  | .full => l.Absent token ∧ ∀ i < l.capacity, (l.slotAt i).delta ≠ 0

def Kept (l : Ledger) (token : Address) (step : Nat) : Option Nat → Prop
  | none => ∀ j < step, (l.slotAt (l.line token j)).delta ≠ 0
  | some i => ∃ k < step, i = l.line token k ∧ (l.slotAt i).delta = 0

theorem vacant_of_kept {step i : Nat} (hstep : step ≤ l.capacity)
    (used : ∀ j < step, (l.slotAt (l.line token j)).token ≠ 0)
    (h : l.Kept token step (some i)) : l.Vacant token i := by
  obtain ⟨k, hk, hi, hzero⟩ := h
  refine ⟨hzero, k, by omega, hi, ?_⟩
  intro j hj
  exact used j (by omega)

theorem kept_succ {step : Nat} {reusable : Option Nat} (h : l.Kept token step reusable) :
    l.Kept token (step + 1)
      (if reusable.isNone && (l.slotAt (l.line token step)).delta = 0
        then some (l.line token step) else reusable) := by
  cases reusable with
  | some i =>
    obtain ⟨k, hk, hi, hzero⟩ := h
    exact ⟨k, by omega, hi, hzero⟩
  | none =>
    by_cases hzero : (l.slotAt (l.line token step)).delta = 0
    · simp only [hzero, Option.isNone_none, decide_true, Bool.and_self, if_true]
      exact ⟨step, by omega, rfl, hzero⟩
    · simp only [hzero, decide_false, Bool.and_false, Bool.false_eq_true, if_false]
      exact Nat.forall_lt_succ_right.2 ⟨h, hzero⟩

theorem absent_of_passed {step : Nat} (hstep : l.capacity ≤ step)
    (other : ∀ j < step, (l.slotAt (l.line token j)).token ≠ token) : l.Absent token := by
  intro i hi
  obtain ⟨k, hk, rfl⟩ := exists_line token hi
  exact other k (by omega)

theorem Valid.absent_of_unused (hv : l.Valid) (ht : token ≠ 0) {step : Nat}
    (other : ∀ j < step, (l.slotAt (l.line token j)).token ≠ token)
    (unused : (l.slotAt (l.line token step)).token = 0) : l.Absent token := by
  intro i hi
  obtain ⟨k, hk, rfl⟩ := exists_line token hi
  intro he
  rcases Nat.lt_trichotomy k step with hlt | heq | hgt
  · exact other k hlt he
  · subst heq
    exact ht (he.symm.trans unused)
  · exact hv.reached token ht k hk he step hgt unused

theorem seek_succ (left step : Nat) (reusable : Option Nat) :
    l.seek token (left + 1) step reusable =
      if (l.slotAt (l.line token step)).token = token then (.found (l.line token step), step + 1)
      else if (l.slotAt (l.line token step)).token = 0 then
        (.vacant (reusable.getD (l.line token step)), step + 1)
      else l.seek token left (step + 1)
        (if reusable.isNone && (l.slotAt (l.line token step)).delta = 0
          then some (l.line token step) else reusable) :=
  rfl

theorem Valid.seek_means (hv : l.Valid) (left step : Nat) (reusable : Option Nat)
    (hsum : left + step = l.capacity)
    (other : ∀ j < step, (l.slotAt (l.line token j)).token ≠ token)
    (used : ∀ j < step, (l.slotAt (l.line token j)).token ≠ 0)
    (kept : l.Kept token step reusable) :
    l.Means token (l.seek token left step reusable).1 := by
  induction left generalizing step reusable with
  | zero =>
    have habs : l.Absent token := absent_of_passed (by omega) other
    cases reusable with
    | none =>
      refine ⟨habs, ?_⟩
      intro i hi
      obtain ⟨k, hk, rfl⟩ := exists_line token hi
      exact kept k (by omega)
    | some i => exact ⟨habs, vacant_of_kept (by omega) used kept⟩
  | succ left ih =>
    have hstep : step < l.capacity := by omega
    rw [seek_succ]
    split
    · rename_i hfound
      exact ⟨line_lt hv.capacity_pos _ _, hfound⟩
    · rename_i hother
      split
      · rename_i hunused
        have ht : token ≠ 0 := fun h => hother (hunused.trans h.symm)
        refine ⟨hv.absent_of_unused ht other hunused, ?_⟩
        cases reusable with
        | none => exact ⟨hv.unused_zero _ hunused, step, hstep, rfl, used⟩
        | some i => exact vacant_of_kept (by omega) used kept
      · rename_i hused
        apply ih
        · omega
        · exact Nat.forall_lt_succ_right.2 ⟨other, hother⟩
        · exact Nat.forall_lt_succ_right.2 ⟨used, hused⟩
        · exact kept_succ kept

def probed (l : Ledger) (token : Address) : Ledger := (l.probe token).2

theorem probe_eq (l : Ledger) (token : Address) :
    l.probe token = ((l.seek token l.capacity 0 none).1, l.probed token) := rfl

@[simp] theorem slotAt_probed (l : Ledger) (token : Address) (i : Nat) :
    (l.probed token).slotAt i = l.slotAt i := rfl

@[simp] theorem capacity_probed (l : Ledger) (token : Address) :
    (l.probed token).capacity = l.capacity := rfl

theorem Valid.probed (hv : l.Valid) (token : Address) : (l.probed token).Valid :=
  ⟨hv.capacity_pos, hv.unused_zero, hv.unique, hv.reached, hv.counted⟩

theorem Valid.probe_means (hv : l.Valid) (token : Address) :
    l.Means token (l.probe token).1 := by
  apply hv.seek_means l.capacity 0 none (Nat.add_zero _)
  · intro j hj
    omega
  · intro j hj
    omega
  · intro j hj
    omega

theorem Valid.deltaOf_slot (hv : l.Valid) {i : Nat} (hi : i < l.capacity)
    (htoken : (l.slotAt i).token = token) : l.deltaOf token = (l.slotAt i).delta := by
  have hm := hv.probe_means token
  rw [deltaOf, balance]
  rw [probe_eq] at hm ⊢
  cases hp : (l.seek token l.capacity 0 none).1 with
  | found j =>
    rw [hp] at hm
    obtain ⟨hj, hjt⟩ := hm
    by_cases ht : token = 0
    · have hi0 := hv.unused_zero i (htoken.trans ht)
      have hj0 := hv.unused_zero j (hjt.trans ht)
      simpa [hi0] using hj0
    · have hij := hv.unique j hj i hi (hjt.trans htoken.symm) (hjt ▸ ht)
      simp [hij]
  | vacant j =>
    rw [hp] at hm
    exact absurd htoken (hm.1 i hi)
  | full =>
    rw [hp] at hm
    exact absurd htoken (hm.1 i hi)

theorem Valid.deltaOf_absent (hv : l.Valid) (h : l.Absent token) : l.deltaOf token = 0 := by
  have hm := hv.probe_means token
  rw [deltaOf, balance]
  rw [probe_eq] at hm ⊢
  cases hp : (l.seek token l.capacity 0 none).1 with
  | found j =>
    rw [hp] at hm
    exact absurd hm.2 (h j hm.1)
  | vacant j => rfl
  | full => rfl

theorem Valid.deltaOf_congr {l' : Ledger} (hv : l.Valid) (hv' : l'.Valid)
    (hslots : l'.slots = l.slots) (token : Address) : l'.deltaOf token = l.deltaOf token := by
  have hcap : l'.capacity = l.capacity := by simp [capacity, hslots]
  have hslot : ∀ i, l'.slotAt i = l.slotAt i := by simp [slotAt, hslots]
  rcases l.absent_or_exists token with h | ⟨i, hi, ht⟩
  · have h' : l'.Absent token := by
      intro i hi
      rw [hslot]
      exact h i (hcap ▸ hi)
    rw [hv.deltaOf_absent h, hv'.deltaOf_absent h']
  · rw [hv.deltaOf_slot hi ht, hv'.deltaOf_slot (hcap ▸ hi) ((hslot i).symm ▸ ht), hslot]

end NetSettle.Ledger
