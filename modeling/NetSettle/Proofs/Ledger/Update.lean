import NetSettle.Proofs.Flow
import NetSettle.Proofs.Ledger.Search

/-!
# Writing to the table of a ledger

What adding to a delta, clearing it and reading it do to the deltas of all tokens. Each keeps the
table valid, and touches the delta of its own token only, although a token that has no slot may
take over that of another: the other's delta is zero and stays so.
-/
namespace NetSettle.Ledger

variable {l : Ledger} {token : Address}

def put (l : Ledger) (i : Nat) (s : Slot) (count : Nat) : Ledger :=
  { l with slots := l.slots.setIfInBounds i s, nonzero := count }

variable {i : Nat} {s : Slot} {count : Nat}

@[simp] theorem capacity_put : (l.put i s count).capacity = l.capacity := by
  simp [put, capacity]

@[simp] theorem line_put (step : Nat) : (l.put i s count).line token step = l.line token step := by
  simp [line, home]

theorem slotAt_put (hi : i < l.capacity) (j : Nat) :
    (l.put i s count).slotAt j = if j = i then s else l.slotAt j := by
  have hi' : i < l.slots.size := hi
  simp only [put, slotAt, Array.getD_eq_getD_getElem?, Array.getElem?_setIfInBounds]
  by_cases hj : j = i
  · subst hj
    simp [hi']
  · simp [hj, Ne.symm hj]

theorem slotAt_put_self (hi : i < l.capacity) : (l.put i s count).slotAt i = s := by
  simp [slotAt_put hi]

theorem slotAt_put_ne (hi : i < l.capacity) {j : Nat} (h : j ≠ i) :
    (l.put i s count).slotAt j = l.slotAt j := by
  simp [slotAt_put hi, h]

theorem countP_put (hi : i < l.capacity) (s : Slot) (count : Nat) (p : Slot → Bool) :
    (l.put i s count).slots.countP p + (if p (l.slotAt i) then 1 else 0) =
      l.slots.countP p + (if p s then 1 else 0) := by
  have hi' : i < l.slots.size := hi
  have hle := Array.boole_getElem_le_countP (p := p) hi'
  rw [put, Array.setIfInBounds, dif_pos hi', Array.countP_set hi', ← slots_getElem hi']
  omega

theorem Valid.put_delta (hv : l.Valid) (hi : i < l.capacity)
    (htoken : s.token = (l.slotAt i).token) (hzero : s.token = 0 → s.delta = 0)
    (hcount : count + (if (l.slotAt i).delta ≠ 0 then 1 else 0) =
      l.nonzero + (if s.delta ≠ 0 then 1 else 0)) : (l.put i s count).Valid := by
  have htok : ∀ j, ((l.put i s count).slotAt j).token = (l.slotAt j).token := by
    intro j
    rw [slotAt_put hi]
    split
    · rename_i hj
      rw [htoken, hj]
    · rfl
  constructor
  · simpa using hv.capacity_pos
  · intro j hj
    by_cases hji : j = i
    · subst hji
      rw [slotAt_put_self hi] at hj ⊢
      exact hzero hj
    · rw [slotAt_put_ne hi hji] at hj ⊢
      exact hv.unused_zero j hj
  · intro j hj k hk he hne
    rw [htok, htok] at he
    rw [htok] at hne
    exact hv.unique j (by simpa using hj) k (by simpa using hk) he hne
  · intro token ht k hk hkt j hj
    rw [htok, line_put] at hkt ⊢
    exact hv.reached token ht k (by simpa using hk) hkt j hj
  · have hp := countP_put hi s count fun s => decide (s.delta ≠ 0)
    have hc := hv.counted
    simp only [decide_eq_true_eq] at hp
    change count = _
    omega

theorem Valid.deltaOf_put_delta (hv : l.Valid) (hv' : (l.put i s count).Valid)
    (hi : i < l.capacity) (htoken : s.token = (l.slotAt i).token) (u : Address) :
    (l.put i s count).deltaOf u = if u = s.token then s.delta else l.deltaOf u := by
  split
  · rename_i hu
    have hself : ((l.put i s count).slotAt i).token = u := by rw [slotAt_put_self hi, hu]
    rw [hv'.deltaOf_slot (by simpa using hi) hself, slotAt_put_self hi]
  · rename_i hu
    have hiu : (l.slotAt i).token ≠ u := fun h => hu (h.symm.trans htoken.symm)
    rcases l.absent_or_exists u with ha | ⟨j, hj, hju⟩
    · have ha' : (l.put i s count).Absent u := by
        intro j hj
        by_cases hji : j = i
        · subst hji
          rw [slotAt_put_self hi, htoken]
          exact hiu
        · rw [slotAt_put_ne hi hji]
          exact ha j (by simpa using hj)
      rw [hv.deltaOf_absent ha, hv'.deltaOf_absent ha']
    · have hji : j ≠ i := by
        rintro rfl
        exact hiu hju
      have hput : ((l.put i s count).slotAt j).token = u := by rwa [slotAt_put_ne hi hji]
      rw [hv.deltaOf_slot hj hju, hv'.deltaOf_slot (by simpa using hj) hput, slotAt_put_ne hi hji]

/-- A token without a slot may take a vacant one over. No slot becomes unused, so no line of
probing is cut, and whoever had the slot had a delta of zero. -/
theorem Valid.put_token (hv : l.Valid) (ht : token ≠ 0) (ha : l.Absent token)
    (hi : i < l.capacity) (hvac : l.Vacant token i) :
    (l.put i ⟨token, 0⟩ l.nonzero).Valid := by
  obtain ⟨hzero, k₀, hk₀, hik₀, hused⟩ := hvac
  have hkeep : ∀ j, (l.slotAt j).token ≠ 0 →
      ((l.put i ⟨token, 0⟩ l.nonzero).slotAt j).token ≠ 0 := by
    intro j hj
    by_cases hji : j = i
    · subst hji
      rw [slotAt_put_self hi]
      exact ht
    · rwa [slotAt_put_ne hi hji]
  constructor
  · simpa using hv.capacity_pos
  · intro j hj
    by_cases hji : j = i
    · subst hji
      rw [slotAt_put_self hi]
    · rw [slotAt_put_ne hi hji] at hj ⊢
      exact hv.unused_zero j hj
  · intro j hj k hk he hne
    rw [capacity_put] at hj hk
    by_cases hji : j = i <;> by_cases hki : k = i
    · rw [hji, hki]
    · subst hji
      rw [slotAt_put_self hi, slotAt_put_ne hi hki] at he
      exact absurd he.symm (ha k hk)
    · subst hki
      rw [slotAt_put_self hi, slotAt_put_ne hi hji] at he
      exact absurd he (ha j hj)
    · rw [slotAt_put_ne hi hji, slotAt_put_ne hi hki] at he
      rw [slotAt_put_ne hi hji] at hne
      exact hv.unique j hj k hk he hne
  · intro u hu k hk hku j hj
    rw [capacity_put] at hk
    rw [line_put] at hku ⊢
    apply hkeep
    by_cases hki : l.line u k = i
    · rw [hki, slotAt_put_self hi] at hku
      subst hku
      have hkk : k = k₀ := line_inj hk hk₀ (hki.trans hik₀)
      exact hused j (hkk ▸ hj)
    · rw [slotAt_put_ne hi hki] at hku
      exact hv.reached u hu k hk hku j hj
  · have hp := countP_put hi ⟨token, 0⟩ l.nonzero fun s => decide (s.delta ≠ 0)
    have hc := hv.counted
    have hnot : ¬ (0 : Delta) ≠ 0 := fun h => h rfl
    simp only [decide_eq_true_eq, hzero, hnot, if_false] at hp
    change l.nonzero = _
    omega

theorem Valid.deltaOf_put_token (hv : l.Valid) (hv' : (l.put i ⟨token, 0⟩ l.nonzero).Valid)
    (ha : l.Absent token) (hi : i < l.capacity) (hzero : (l.slotAt i).delta = 0) (u : Address) :
    (l.put i ⟨token, 0⟩ l.nonzero).deltaOf u = l.deltaOf u := by
  rcases (l.put i ⟨token, 0⟩ l.nonzero).absent_or_exists u with ha' | ⟨j, hj, hju⟩
  · rw [hv'.deltaOf_absent ha']
    rcases l.absent_or_exists u with hu | ⟨j, hj, hju⟩
    · rw [hv.deltaOf_absent hu]
    · by_cases hji : j = i
      · subst hji
        rw [hv.deltaOf_slot hj hju, hzero]
      · have hne := ha' j (by simpa using hj)
        rw [slotAt_put_ne hi hji] at hne
        exact absurd hju hne
  · rw [hv'.deltaOf_slot hj hju]
    by_cases hji : j = i
    · subst hji
      rw [slotAt_put_self hi] at hju ⊢
      rw [← hju, hv.deltaOf_absent ha]
    · rw [slotAt_put_ne hi hji] at hju ⊢
      rw [hv.deltaOf_slot (by simpa using hj) hju]

theorem balance_eq (l : Ledger) (token : Address) :
    l.balance token = (l.deltaOf token, l.probed token) := by
  rw [deltaOf, balance, probe_eq]
  cases (l.seek token l.capacity 0 none).1 <;> rfl

theorem settleSlot_eq (l : Ledger) (i : Nat) (token : Address) (prior next : Delta) :
    l.settleSlot i token prior next = l.put i ⟨token, next⟩
      (if prior = 0 ∧ next ≠ 0 then l.nonzero + 1
      else if prior ≠ 0 ∧ next = 0 then l.nonzero - 1
      else l.nonzero) :=
  rfl

theorem Valid.settleSlot (hv : l.Valid) (hi : i < l.capacity) (next : Delta)
    (htoken : (l.slotAt i).token = token) (hzero : token = 0 → next = 0) :
    (l.settleSlot i token (l.slotAt i).delta next).Valid ∧
      ∀ u, (l.settleSlot i token (l.slotAt i).delta next).deltaOf u =
        if u = token then next else l.deltaOf u := by
  have hone : (if (l.slotAt i).delta ≠ 0 then 1 else 0) ≤ l.nonzero := by
    have hi' : i < l.slots.size := hi
    have hle := Array.boole_getElem_le_countP (p := fun s : Slot => decide (s.delta ≠ 0)) hi'
    rw [hv.counted, ← slots_getElem hi']
    simpa using hle
  have hput : (l.settleSlot i token (l.slotAt i).delta next).Valid := by
    rw [settleSlot_eq]
    apply hv.put_delta hi htoken.symm hzero
    by_cases hp : (l.slotAt i).delta = 0 <;> by_cases hn : next = 0
    · simp [hp, hn]
    · simp [hp, hn]
    · simp only [hp, ne_eq, not_false_eq_true, if_true] at hone
      simp only [hp, hn, ne_eq, not_true_eq_false, not_false_eq_true, and_self, if_true, if_false]
      omega
    · simp [hp, hn]
  refine ⟨hput, ?_⟩
  intro u
  rw [settleSlot_eq] at hput ⊢
  exact hv.deltaOf_put_delta hput hi htoken.symm u

theorem clear_fst (l : Ledger) (token : Address) : (l.clear token).1 = l.deltaOf token := by
  rw [deltaOf, clear, balance, probe_eq]
  cases (l.seek token l.capacity 0 none).1 <;> rfl

theorem Valid.clear (hv : l.Valid) (token : Address) :
    (l.clear token).1 = l.deltaOf token ∧ (l.clear token).2.Valid ∧
      (l.clear token).2.capacity = l.capacity ∧
      ∀ u, (l.clear token).2.deltaOf u = if u = token then 0 else l.deltaOf u := by
  have hm := hv.probe_means token
  have hv₁ := hv.probed token
  have hsame := hv.deltaOf_congr hv₁ rfl
  have hnone (ha : l.Absent token) (u : Address) :
      (l.probed token).deltaOf u = if u = token then 0 else l.deltaOf u := by
    rw [hsame]
    split
    · rename_i hu
      rw [hu, hv.deltaOf_absent ha]
    · rfl
  rw [Ledger.clear]
  rw [probe_eq] at hm ⊢
  cases hp : (l.seek token l.capacity 0 none).1 with
  | found i =>
    rw [hp] at hm
    obtain ⟨hi, htoken⟩ := hm
    have hset := hv₁.settleSlot hi 0 htoken fun _ => rfl
    refine ⟨(hv.deltaOf_slot hi htoken).symm, hset.1, ?_, ?_⟩
    · simp [settleSlot_eq]
    · intro u
      rw [hset.2, hsame]
  | vacant i =>
    rw [hp] at hm
    exact ⟨(hv.deltaOf_absent hm.1).symm, hv₁, rfl, hnone hm.1⟩
  | full =>
    rw [hp] at hm
    exact ⟨(hv.deltaOf_absent hm.1).symm, hv₁, rfl, hnone hm.1⟩

def post (l : Ledger) (i : Nat) (token : Address) (delta : Delta) :
    EStateM.Result Fault Ledger Unit :=
  match Delta.ofInt? ((l.slotAt i).delta.val + delta.val) with
  | some next => .ok () (l.settleSlot i token (l.slotAt i).delta next)
  | none => .error .overflow l

theorem change_run_zeroToken (delta : Delta) :
    (change 0 delta).run l = .error .zeroToken l := rfl

theorem change_run_zero (ht : token ≠ 0) : (change token 0).run l = .ok () l := by
  unfold change
  simp only [ht, if_false, if_true]
  rfl

theorem change_run_of_ne {delta : Delta} (ht : token ≠ 0) (hd : delta ≠ 0) :
    (change token delta).run l =
      match (l.probe token).1 with
      | .found i => (l.probed token).post i token delta
      | .vacant i =>
        ((l.probed token).put i ⟨token, 0⟩ (l.probed token).nonzero).post i token delta
      | .full => .error (.ledgerFull l.capacity) (l.probed token) := by
  have hprobe : (modifyGet (probe token) : Faulting Ledger Probe).run l =
      .ok (l.probe token).1 (l.probed token) := rfl
  unfold change
  simp only [ht, hd, if_false, EStateM.run_bind, hprobe]
  cases (l.probe token).1 with
  | found i =>
    simp only [post, EStateM.run_bind, EStateM.run_pure, EStateM.run_get]
    cases Delta.ofInt? _ <;> rfl
  | vacant i =>
    simp only [post, put, EStateM.run_bind, EStateM.run_pure, EStateM.run_get, EStateM.run_modify]
    cases Delta.ofInt? _ <;> rfl
  | full => rfl

theorem Valid.change_full (hv : l.Valid) {delta : Delta} (ht : token ≠ 0) (hd : delta ≠ 0)
    (hzero : l.deltaOf token = 0) (hfull : ∀ i < l.capacity, (l.slotAt i).delta ≠ 0) :
    (change token delta).run l = .error (.ledgerFull l.capacity) (l.probed token) := by
  have hm := hv.probe_means token
  rw [change_run_of_ne ht hd]
  cases hp : (l.probe token).1 with
  | found i =>
    rw [hp] at hm
    rw [hv.deltaOf_slot hm.1 hm.2] at hzero
    exact absurd hzero (hfull i hm.1)
  | vacant i =>
    rw [hp] at hm
    obtain ⟨-, hdelta, k, hk, rfl, -⟩ := hm
    exact absurd hdelta (hfull _ (line_lt hv.capacity_pos token k))
  | full => rfl

/-- Otherwise it is made in a slot of the token, which may have been taken over for it: that leaves
the deltas of all tokens as they were. -/
theorem Valid.change_room (hv : l.Valid) {delta : Delta} (ht : token ≠ 0) (hd : delta ≠ 0)
    (hroom : l.deltaOf token = 0 → ∃ i < l.capacity, (l.slotAt i).delta = 0) :
    ∃ (l₁ : Ledger) (i : Nat), l₁.Valid ∧ l₁.capacity = l.capacity ∧
      (∀ u, l₁.deltaOf u = l.deltaOf u) ∧ i < l₁.capacity ∧ (l₁.slotAt i).token = token ∧
      (change token delta).run l = l₁.post i token delta := by
  have hm := hv.probe_means token
  have hv₁ := hv.probed token
  have hsame := hv.deltaOf_congr hv₁ rfl
  rw [change_run_of_ne ht hd]
  cases hp : (l.probe token).1 with
  | found i =>
    rw [hp] at hm
    exact ⟨l.probed token, i, hv₁, rfl, hsame, hm.1, hm.2, rfl⟩
  | vacant i =>
    rw [hp] at hm
    obtain ⟨ha, hvac⟩ := hm
    have hi : i < (l.probed token).capacity := by
      obtain ⟨-, k, -, rfl, -⟩ := hvac
      exact line_lt hv.capacity_pos token k
    have hput := hv₁.put_token ht ha hi hvac
    refine ⟨_, i, hput, capacity_put, ?_, by simpa using hi, ?_, rfl⟩
    · intro u
      exact (hv₁.deltaOf_put_token hput ha hi hvac.1 u).trans (hsame u)
    · rw [slotAt_put_self hi]
  | full =>
    rw [hp] at hm
    obtain ⟨i, hi, hzero⟩ := hroom (hv.deltaOf_absent hm.1)
    exact absurd hzero (hm.2 i hi)

theorem ofInt?_eq_some {n : Int} {d : Delta} (h : Delta.ofInt? n = some d) : d.val = n := by
  unfold Delta.ofInt? at h
  split at h
  · cases h
    rfl
  · cases h

theorem Valid.post_some (hv : l.Valid) {i : Nat} {delta next : Delta} (ht : token ≠ 0)
    (hi : i < l.capacity) (htoken : (l.slotAt i).token = token)
    (hnext : Delta.ofInt? ((l.deltaOf token).val + delta.val) = some next) :
    ∃ l' : Ledger, l.post i token delta = .ok () l' ∧ l'.Valid ∧ l'.capacity = l.capacity ∧
      ∀ u, l'.deltaOf u = if u = token then next else l.deltaOf u := by
  have hset := hv.settleSlot hi next htoken fun h0 => absurd h0 ht
  rw [hv.deltaOf_slot hi htoken] at hnext
  refine ⟨_, ?_, hset.1, ?_, hset.2⟩
  · simp [post, hnext]
  · simp [settleSlot_eq]

theorem Valid.post_none (hv : l.Valid) {i : Nat} {delta : Delta} (hi : i < l.capacity)
    (htoken : (l.slotAt i).token = token)
    (hnext : Delta.ofInt? ((l.deltaOf token).val + delta.val) = none) :
    l.post i token delta = .error .overflow l := by
  rw [hv.deltaOf_slot hi htoken] at hnext
  simp [post, hnext]

theorem Valid.change_ok (hv : l.Valid) {delta : Delta} {l' : Ledger}
    (h : (change token delta).run l = .ok () l') :
    l'.Valid ∧ l'.capacity = l.capacity ∧
      ∀ u, (l'.deltaOf u).val = (l.deltaOf u).val + if u = token then delta.val else 0 := by
  by_cases ht : token = 0
  · rw [ht, change_run_zeroToken] at h
    cases h
  by_cases hd : delta = 0
  · rw [hd, change_run_zero ht] at h
    cases h
    exact ⟨hv, rfl, by simp [hd, Delta.val_zero]⟩
  by_cases hroom : l.deltaOf token = 0 → ∃ i < l.capacity, (l.slotAt i).delta = 0
  · obtain ⟨l₁, i, hv₁, hcap, hsame, hi, htoken, hrun⟩ := hv.change_room ht hd hroom
    rw [hrun] at h
    cases hnext : Delta.ofInt? ((l₁.deltaOf token).val + delta.val) with
    | none =>
      rw [hv₁.post_none hi htoken hnext] at h
      cases h
    | some next =>
      obtain ⟨l₂, hpost, hv₂, hcap₂, hdelta⟩ := hv₁.post_some ht hi htoken hnext
      rw [hpost] at h
      cases h
      refine ⟨hv₂, hcap₂.trans hcap, ?_⟩
      intro u
      rw [hdelta, hsame]
      split
      · rename_i hu
        rw [ofInt?_eq_some hnext, hsame, hu]
      · simp
  · push Not at hroom
    rw [hv.change_full ht hd hroom.1 hroom.2] at h
    cases h

def Posts (l l' : Ledger) (f : Address → Int) : Prop :=
  l.Valid → l'.Valid ∧ l'.capacity = l.capacity ∧
    ∀ t, (l'.deltaOf t).val = (l.deltaOf t).val + f t

theorem Posts.refl {f : Address → Int} (h : ∀ t, f t = 0) : l.Posts l f := by
  intro hv
  refine ⟨hv, rfl, fun t => ?_⟩
  rw [h, Int.add_zero]

theorem Posts.trans {l₁ l₂ : Ledger} {f g k : Address → Int} (h₁ : l.Posts l₁ f)
    (h₂ : l₁.Posts l₂ g) (h : ∀ t, k t = f t + g t) : l.Posts l₂ k := by
  intro hv
  obtain ⟨hv₁, hcap₁, hdelta₁⟩ := h₁ hv
  obtain ⟨hv₂, hcap₂, hdelta₂⟩ := h₂ hv₁
  refine ⟨hv₂, hcap₂.trans hcap₁, fun t => ?_⟩
  rw [hdelta₂, hdelta₁, h, Int.add_assoc]

theorem posts_balance (l : Ledger) (token : Address) : l.Posts (l.balance token).2 fun _ => 0 := by
  intro hv
  rw [balance_eq]
  have hv' := hv.probed token
  refine ⟨hv', rfl, fun t => ?_⟩
  rw [Int.add_zero]
  exact congrArg Delta.val (hv.deltaOf_congr hv' rfl t)

theorem posts_change {delta : Delta} {l' : Ledger} (h : (change token delta).run l = .ok () l') :
    l.Posts l' (only token delta.val) :=
  fun hv => hv.change_ok h

theorem posts_clear (l : Ledger) (token : Address) :
    l.Posts (l.clear token).2 (only token (-(l.clear token).1.val)) := by
  intro hv
  obtain ⟨hvalue, hv', hcap, hdelta⟩ := hv.clear token
  refine ⟨hv', hcap, fun t => ?_⟩
  rw [hdelta, hvalue, only]
  split
  · rename_i ht
    rw [ht, Delta.val_zero]
    omega
  · rw [Int.add_zero]

end NetSettle.Ledger
