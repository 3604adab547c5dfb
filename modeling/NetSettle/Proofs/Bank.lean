import NetSettle.Bank
import NetSettle.Execution.World
import NetSettle.Proofs.Faulting
import NetSettle.Proofs.Flow
import NetSettle.Proofs.Keeping
import NetSettle.Proofs.SortedMap

/-!
# Movements of a simulated bank

In a bank whose balances of a token add up to at most the largest word no credit is ever cut off. A
transfer then takes from one holder what it gives to the other, and leaves the sum of the balances
alone. Every balance changes by what its holder pays, pulls and is pushed.
-/
namespace NetSettle.Bank

open Faulting

def supply (b : Bank) (t : Address) : Int :=
  ((b.balances.find? t).map fun holders => holders.sumBy fun _ n => (n.toNat : Int)).getD 0

/-- The balances of no token add up to more than the largest word. -/
def Bounded (b : Bank) : Prop := ∀ t, b.supply t ≤ 2 ^ 256 - 1

variable {b b' : Bank} {token sender recipient owner holder t : Address} {n : Word}

theorem balance_setBalance (b : Bank) (token holder : Address) (n : Word) (t h : Address) :
    (b.setBalance token holder n).balance t h =
      if t = token ∧ h = holder then n else b.balance t h := by
  unfold setBalance balance
  split
  · rename_i heq
    rw [heq.1, heq.2]
    exact Holdings.amount_set_self ..
  · rename_i hne
    exact Holdings.amount_set_ne _ _ (by tauto)

theorem counted_balance (b : Bank) (token holder : Address) :
    ((((b.balances.find? token).getD .empty).find? holder).map
      fun n : Word => (n.toNat : Int)).getD 0 = (b.balance token holder).toNat := by
  unfold balance Holdings.amount
  cases b.balances.find? token with
  | none => rfl
  | some holders =>
    simp only [Option.getD_some, Option.bind_some]
    cases holders.find? holder <;> rfl

theorem supply_setBalance (b : Bank) (token holder : Address) (n : Word) (t : Address) :
    (b.setBalance token holder n).supply t =
      b.supply t + only token (n.toNat - (b.balance token holder).toNat) t := by
  unfold setBalance Holdings.set supply only
  simp only [SortedMap.find?_insert]
  split
  · rename_i ht
    subst ht
    rw [Option.map_some, Option.getD_some, SortedMap.sumBy_insert, counted_balance]
    cases b.balances.find? t with
    | none =>
      simp only [Option.getD_none, Option.map_none, SortedMap.sumBy_empty]
      omega
    | some holders =>
      simp only [Option.getD_some, Option.map_some]
      omega
  · rw [Int.add_zero]

theorem supply_mint_le (b : Bank) (token holder : Address) (n : Word) (t : Address) :
    (b.mint token holder n).supply t ≤ b.supply t + only token n.toNat t := by
  unfold mint
  rw [supply_setBalance, Word.toNat_addSaturating]
  unfold only
  split <;> omega

theorem bounded_mint_new (engine token holder : Address) (n : Word) :
    ((new engine).mint token holder n).Bounded := by
  intro t
  have hmint := (new engine).supply_mint_le token holder n t
  have hnew : (new engine).supply t = 0 := rfl
  have hn := n.isLt
  unfold only at hmint
  split at hmint <;> omega

theorem balance_le_supply (b : Bank) (token holder : Address) :
    ((b.balance token holder).toNat : Int) ≤ b.supply token := by
  rw [← counted_balance]
  unfold supply
  cases b.balances.find? token with
  | none => exact Int.le_refl 0
  | some holders =>
    simp only [Option.getD_some, Option.map_some]
    cases hfind : holders.find? holder with
    | none => exact holders.sumBy_nonneg fun _ n => Int.natCast_nonneg _
    | some n => exact holders.le_sumBy (fun _ n => Int.natCast_nonneg _) hfind

structure Transferred (b b' : Bank) (token sender recipient : Address) (n : Word) : Prop where
  available : n.toNat ≤ (b.balance token sender).toNat
  supply : ∀ t, b'.supply t = b.supply t
  balance : ∀ t h, ((b'.balance t h).toNat : Int) = (b.balance t h).toNat -
    (if h = sender then only token n.toNat t else 0) +
    (if h = recipient then only token n.toNat t else 0)
  engine : b'.engine = b.engine

theorem transfer_eq_ok (hb : b.Bounded)
    (h : (transfer token sender recipient n).run b = .ok () b') :
    b.Transferred b' token sender recipient n := by
  unfold transfer at h
  simp only [run_bind_eq_ok, run_get_eq_ok, run_guard_eq_ok, run_modify_eq_ok] at h
  obtain ⟨_, _, ⟨rfl, rfl⟩, hle, _, b₁, hb₁, rfl⟩ := h
  have hle' : n.toNat ≤ (b.balance token sender).toNat := Nat.not_lt.1 hle
  have hdebit : (b.balance token sender - n).toNat = (b.balance token sender).toNat - n.toNat :=
    BitVec.toNat_sub_of_le hle'
  have hsupply₁ : ∀ t, b₁.supply t = b.supply t - only token n.toNat t := by
    intro t
    rw [← hb₁, supply_setBalance, hdebit]
    unfold only
    split <;> omega
  -- The debit makes room for the credit, so nothing is cut off.
  have hroom : (b₁.balance token recipient).toNat + n.toNat < 2 ^ 256 := by
    have hone := b₁.balance_le_supply token recipient
    have hbound := hb token
    have hrest := hsupply₁ token
    rw [only, if_pos rfl] at hrest
    omega
  have hcredit : (Word.addSaturating (b₁.balance token recipient) n).toNat =
      (b₁.balance token recipient).toNat + n.toNat := by
    rw [Word.toNat_addSaturating]
    omega
  unfold mint
  refine ⟨hle', fun t => ?_, fun t h => ?_, ?_⟩
  · rw [supply_setBalance, hcredit, hsupply₁]
    have hcast : (((b₁.balance token recipient).toNat + n.toNat : Nat) : Int) -
        (b₁.balance token recipient).toNat = n.toNat := by omega
    rw [hcast]
    omega
  · rw [balance_setBalance]
    have hbalance₁ : ((b₁.balance t h).toNat : Int) = (b.balance t h).toNat -
        (if h = sender then only token n.toNat t else 0) := by
      rw [← hb₁, balance_setBalance]
      unfold only
      by_cases ht : t = token
      · by_cases hh : h = sender
        · subst ht hh
          simp only [and_self, if_true, hdebit]
          omega
        · simp [hh]
      · simp [ht]
    rw [← hbalance₁]
    unfold only
    by_cases ht : t = token
    · by_cases hh : h = recipient
      · subst ht hh
        simp only [and_self, if_true, hcredit]
        omega
      · simp [hh]
    · simp [ht]
  · rw [← hb₁]
    rfl

theorem transfer_eq_error {fault : HostFault}
    (h : (transfer token sender recipient n).run b = .error fault b') : b' = b := by
  unfold transfer at h
  rw [EStateM.run_bind, EStateM.run_get] at h
  by_cases hlt : b.balance token sender < n
  · simp only [hlt, if_true] at h
    cases h
    rfl
  · simp only [hlt, if_false] at h
    cases h

def shift (token sender recipient : Address) (n : Int) (holder t : Address) : Int :=
  (if holder = recipient then only token n t else 0) -
    if holder = sender then only token n t else 0

theorem shift_recipient (hne : recipient ≠ sender) (n : Int) :
    shift token sender recipient n recipient t = only token n t := by
  simp [shift, hne]

theorem shift_self (h : Address) (n : Int) (holder : Address) :
    shift token h h n holder t = 0 :=
  Int.sub_self _

theorem shift_to (token sender recipient : Address) (n : Int) :
    shift token sender recipient n recipient token = if sender = recipient then 0 else n := by
  by_cases h : sender = recipient
  · rw [if_pos h, h, shift_self]
  · rw [if_neg h, shift_recipient (Ne.symm h), only_self]

theorem shift_sender (hne : sender ≠ recipient) (n : Int) :
    shift token sender recipient n sender t = -only token n t := by
  simp [shift, hne]

def held (b : Bank) (t : Address) : Int := (b.balance t b.engine).toNat

structure Moved (b b' : Bank) (gained : Address → Address → Int) : Prop where
  engine : b'.engine = b.engine
  bounded : b'.Bounded
  balance : ∀ h t, ((b'.balance t h).toNat : Int) = (b.balance t h).toNat + gained h t

theorem Moved.held {gained : Address → Address → Int} (h : b.Moved b' gained) (t : Address) :
    b'.held t = b.held t + gained b.engine t := by
  unfold Bank.held
  rw [h.engine, h.balance]

theorem moved_refl (hb : b.Bounded) : b.Moved b fun _ _ => 0 :=
  ⟨rfl, hb, fun _ _ => (Int.add_zero _).symm⟩

theorem Transferred.moved (hb : b.Bounded) (h : b.Transferred b' token sender recipient n) :
    b.Moved b' (shift token sender recipient n.toNat) where
  engine := h.engine
  bounded := fun t => (h.supply t).le.trans (hb t)
  balance := fun holder t => by
    rw [h.balance, shift]
    omega

theorem sendOut_eq_ok (hb : b.Bounded) (h : (sendOut token recipient n).run b = .ok () b') :
    b.Moved b' (shift token b.engine recipient n.toNat) := by
  unfold sendOut at h
  simp only [run_bind_eq_ok, run_get_eq_ok] at h
  obtain ⟨_, _, ⟨rfl, rfl⟩, htransfer⟩ := h
  exact (transfer_eq_ok hb htransfer).moved hb

theorem pullIn_eq_ok_iff :
    (pullIn token owner n).run b = .ok () b' ↔ n.toNat ≤ (b.allowance token owner).toNat ∧
      ∃ b₁, (transfer token owner b.engine n).run b = .ok () b₁ ∧
        b₁.approve token owner (b.allowance token owner - n) = b' := by
  unfold pullIn
  rw [run_get_bind_eq_ok, run_guard_eq_ok, run_bind_eq_ok]
  simp only [run_modify_eq_ok, BitVec.lt_def, Nat.not_lt]
  exact and_congr_right fun _ => ⟨fun ⟨_, b₁, h⟩ => ⟨b₁, h⟩, fun ⟨b₁, h⟩ => ⟨(), b₁, h⟩⟩

theorem pullIn_eq_ok (hb : b.Bounded) (h : (pullIn token owner n).run b = .ok () b') :
    b.Moved b' (shift token owner b.engine n.toNat) := by
  obtain ⟨-, b₁, htransfer, rfl⟩ := pullIn_eq_ok_iff.1 h
  obtain ⟨hengine, hbounded, hbalance⟩ := (transfer_eq_ok hb htransfer).moved hb
  exact ⟨hengine, hbounded, hbalance⟩

theorem grantPermit_eq_ok {amount : Amount} {deadline : UInt64} {signature : Signature}
    (hb : b.Bounded) (h : (grantPermit owner token amount deadline signature).run b = .ok () b') :
    b.Moved b' fun _ _ => 0 := by
  unfold grantPermit at h
  simp only [run_bind_eq_ok, run_get_eq_ok, run_guard_eq_ok, run_set_eq_ok] at h
  obtain ⟨_, _, ⟨rfl, rfl⟩, -, -, rfl⟩ := h
  exact ⟨rfl, hb, fun _ _ => (Int.add_zero _).symm⟩

def pushed (b : Bank) (caller token : Address) (n : Word) : Marker × Bank × Option HostFault :=
  match (transfer token caller b.engine n).run b with
  | .ok _ b => (Marker.accepted, b, none)
  | .error fault b => (0, b, some fault)

theorem settle_eq (b : Bank) (caller token : Address) (n : Word) :
    b.settle caller token n = match b.callback with
      | .refuse => (0, b, none)
      | .pay => b.pushed caller token n
      | .underpay => b.pushed caller token (Word.subSaturating n 1) :=
  rfl

theorem zero_ne_accepted : (0 : Marker) ≠ Marker.accepted := by decide

/-- A caller that pushes an amount pushes all of it and accepts, or nothing happens. -/
theorem pushed_cases (b : Bank) (caller token : Address) (n : Word) :
    (∃ b', (transfer token caller b.engine n).run b = .ok () b' ∧
      b.pushed caller token n = (Marker.accepted, b', none)) ∨
    ∃ fault, b.pushed caller token n = (0, b, some fault) := by
  unfold pushed
  cases htransfer : (transfer token caller b.engine n).run b with
  | ok _ b' => exact .inl ⟨b', rfl, rfl⟩
  | error fault b' =>
    rw [transfer_eq_error htransfer]
    exact .inr ⟨fault, rfl⟩

theorem pushed_keeps {P : Bank → Prop} {caller : Address}
    (h : Keeps P (transfer token caller b.engine n)) (hb : P b) :
    P (b.pushed caller token n).2.1 := by
  have hkept := h b hb
  unfold pushed
  cases hrun : (transfer token caller b.engine n).run b with
  | ok _ b' =>
    rw [hrun] at hkept
    exact hkept
  | error fault b' =>
    rw [hrun] at hkept
    exact hkept

theorem settle_keeps {P : Bank → Prop} {caller : Address}
    (h : ∀ n, Keeps P (transfer token caller b.engine n)) (hb : P b) (n : Word) :
    P (b.settle caller token n).2.1 := by
  rw [settle_eq]
  cases b.callback with
  | refuse => exact hb
  | pay => exact pushed_keeps (h _) hb
  | underpay => exact pushed_keeps (h _) hb

theorem pushed_moved (hb : b.Bounded) (caller token : Address) (n : Word) :
    ∃ k ≤ n.toNat, b.Moved (b.pushed caller token n).2.1 (shift token caller b.engine k) := by
  obtain ⟨b', htransfer, hpushed⟩ | ⟨fault, hpushed⟩ := b.pushed_cases caller token n
  · rw [hpushed]
    exact ⟨n.toNat, le_rfl, (transfer_eq_ok hb htransfer).moved hb⟩
  · rw [hpushed]
    exact ⟨0, Nat.zero_le _, rfl, hb, fun h t => by simp [shift]⟩

theorem settle_moved (hb : b.Bounded) (caller token : Address) (n : Word) :
    ∃ k ≤ n.toNat, b.Moved (b.settle caller token n).2.1 (shift token caller b.engine k) := by
  rw [settle_eq]
  cases b.callback with
  | refuse => exact ⟨0, Nat.zero_le _, rfl, hb, fun h t => by simp [shift]⟩
  | pay => exact pushed_moved hb caller token n
  | underpay =>
    obtain ⟨k, hk, hmoved⟩ := pushed_moved hb caller token (Word.subSaturating n 1)
    rw [Word.toNat_subSaturating] at hk
    exact ⟨k, hk.trans (Nat.sub_le _ _), hmoved⟩

theorem pushed_accepted {caller : Address}
    (h : (b.pushed caller token n).1 = Marker.accepted) :
    (b.pushed caller token n).2.2 = none := by
  obtain ⟨b', -, hpushed⟩ | ⟨fault, hpushed⟩ := b.pushed_cases caller token n
  · rw [hpushed]
  · rw [hpushed] at h
    exact absurd h zero_ne_accepted

theorem settle_accepted {caller : Address}
    (h : (b.settle caller token n).1 = Marker.accepted) :
    (b.settle caller token n).2.2 = none := by
  rw [settle_eq] at h ⊢
  cases hcallback : b.callback with
  | refuse => rfl
  | pay =>
    rw [hcallback] at h
    exact pushed_accepted h
  | underpay =>
    rw [hcallback] at h
    exact pushed_accepted h

theorem transfer_keepsEngine {e : Address} :
    Keeps (fun b => b.engine = e) (transfer token sender recipient n) :=
  .get_bind fun _ _ => .guard fun _ => .bind (.modify fun _ => id) fun _ => .modify fun _ => id

theorem sendOut_keepsEngine {e : Address} :
    Keeps (fun b => b.engine = e) (sendOut token recipient n) :=
  .get_bind fun _ _ => transfer_keepsEngine

theorem pullIn_keepsEngine {e : Address} :
    Keeps (fun b => b.engine = e) (pullIn token owner n) :=
  .get_bind fun _ _ => .guard fun _ => .bind transfer_keepsEngine fun _ => .modify fun _ => id

theorem grantPermit_keepsEngine {e : Address} {amount : Amount} {deadline : UInt64}
    {signature : Signature} :
    Keeps (fun b => b.engine = e) (grantPermit owner token amount deadline signature) :=
  .get_bind fun _ h => .guard fun _ => .guard fun _ => .set h

theorem engine_settle (b : Bank) (caller token : Address) (n : Word) :
    (b.settle caller token n).2.1.engine = b.engine := by
  have hkeeps (k : Word) : Keeps (fun b' : Bank => b'.engine = b.engine)
      (transfer token caller b.engine k) := transfer_keepsEngine
  exact settle_keeps hkeeps rfl n

theorem run_ofRun_eq_ok {α ε : Type} {nested : Runner Bank} {r : EStateM.Result ε Bank α} {a : α}
    {w w' : World Bank} :
    (Session.ofRun r).run nested w = (.ok a, w') ↔
      ∃ b, r = .ok a b ∧ w' = { w with host := b } := by
  cases r with
  | ok a' b =>
    constructor
    · rintro ⟨⟩
      exact ⟨b, rfl, rfl⟩
    · rintro ⟨_, ⟨⟩, rfl⟩
      rfl
  | error fault b =>
    constructor
    · rintro ⟨⟩
    · rintro ⟨_, ⟨⟩, -⟩

/-- What comes of asking a bank to settle: the caller calls nothing of the engine, and what it was
short of is noted. -/
theorem serve_settle (nested : Runner Bank) (w : World Bank) (caller token : Address) (n : Word) :
    w.serve nested (.settle caller token n) = ((w.host.settle caller token n).1,
      { w with
        host := (w.host.settle caller token n).2.1,
        journal := w.journal ++
          ((w.host.settle caller token n).2.2.map JournalEntry.callerShort).toList }) := by
  dsimp only [World.serve, Host.serve]
  generalize w.host.settle caller token n = r
  obtain ⟨marker, b, short⟩ := r
  cases short with
  | none => simp [Session.run]
  | some fault => rfl

theorem serve_engine {α : Type} (nested : Runner Bank) (w : World Bank) (request : HostRequest α) :
    (w.serve nested request).2.engine = w.engine := by
  have hwork {ε : Type} (r : EStateM.Result ε Bank Unit) :
      ((Session.ofRun r).run nested w).2.engine = w.engine := by
    cases r <;> rfl
  cases request with
  | sendOut | pullIn | grantPermit => exact hwork _
  | balanceOf => rfl
  | settle => rw [serve_settle]

end NetSettle.Bank
