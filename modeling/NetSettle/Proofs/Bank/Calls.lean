import NetSettle.Proofs.Bank.Locality

/-!
# Calls of a bank

Calls reach a bank one after the other, and each is done or refused. A call that is done moves an
amount of one token from one holder to another, which is nothing if they are the same, and changes
no allowance but the one it draws on or grants. A call that is refused leaves the bank as it was. So
no calls, however many, create or lose a token.
-/
namespace NetSettle.Bank

open Faulting

inductive Call where
  | transfer (token sender recipient : Address) (n : Word)
  | pullIn (token owner : Address) (n : Word)
  | sendOut (token recipient : Address) (n : Word)
  | settle (caller token : Address) (n : Word)
  | permit (owner token : Address) (amount : Amount) (deadline : UInt64) (signature : Signature)

inductive Reply where
  | ended (outcome : Except HostFault Unit)
  | marked (marker : Marker)

namespace Reply

def Accepted : Reply → Prop
  | ended outcome => outcome = .ok ()
  | marked marker => marker = Marker.accepted

def ofRun : EStateM.Result HostFault Bank Unit → Reply × Bank
  | .ok () b => (ended (.ok ()), b)
  | .error fault b => (ended (.error fault), b)

end Reply

def answer (b : Bank) : Call → Reply × Bank
  | .transfer token sender recipient n =>
    Reply.ofRun ((Bank.transfer token sender recipient n).run b)
  | .pullIn token owner n => Reply.ofRun ((Bank.pullIn token owner n).run b)
  | .sendOut token recipient n => Reply.ofRun ((Bank.sendOut token recipient n).run b)
  | .settle caller token n =>
    let (marker, b', _) := b.settle caller token n
    (.marked marker, b')
  | .permit owner token amount deadline signature =>
    Reply.ofRun ((grantPermit owner token amount deadline signature).run b)

def after (b : Bank) (calls : List Call) : Bank := calls.foldl (fun b call => (b.answer call).2) b

def pushes (b : Bank) (n : Word) : Nat :=
  match b.callback with
  | .refuse => 0
  | .pay => n.toNat
  | .underpay => n.toNat - 1

namespace Call

def token : Call → Address
  | transfer token .. | pullIn token .. | sendOut token .. | settle _ token _
  | permit _ token .. => token

def gain (b : Bank) : Call → Address → Address → Int
  | transfer token sender recipient n => shift token sender recipient n.toNat
  | pullIn token owner n => shift token owner b.engine n.toNat
  | sendOut token recipient n => shift token b.engine recipient n.toNat
  | settle caller token n => shift token caller b.engine (b.pushes n)
  | permit .. => fun _ _ => 0

def allowanceLeft (b : Bank) : Call → Address → Address → Int
  | pullIn token owner n, holder, t =>
    (b.allowance t holder).toNat - if holder = owner then only token n.toNat t else 0
  | permit owner token amount _ _, holder, t =>
    if holder = owner ∧ t = token then amount.toNat else (b.allowance t holder).toNat
  | transfer .., holder, t | sendOut .., holder, t | settle .., holder, t =>
    (b.allowance t holder).toNat

end Call

variable {b b' : Bank} {token sender recipient owner caller holder t : Address} {n : Word}

structure Shifted (token : Address) (gained : Address → Address → Int) (b b' : Bank) : Prop where
  supply : ∀ t, b'.supply t = b.supply t
  balance : ∀ holder t, ((b'.balance t holder).toNat : Int) =
    (b.balance t holder).toNat + gained holder t
  allowances : b'.allowances = b.allowances
  frame : b.SameBut token b'

theorem transfer_shifted (hb : b.Bounded)
    (h : (transfer token sender recipient n).run b = .ok () b') :
    Shifted token (shift token sender recipient n.toNat) b b' := by
  have hdone := transfer_eq_ok hb h
  have hallowances : Keeps (fun b' : Bank => b'.allowances = b.allowances)
      (transfer token sender recipient n) :=
    .get_bind fun _ _ => .guard fun _ => .bind (.modify fun _ => id) fun _ => .modify fun _ => id
  have hkept := hallowances b rfl
  have hsame : Keeps (b.SameBut token) (transfer token sender recipient n) :=
    transfer_keepsSameBut b
  have hframe := hsame b fun u _ => .refl u b
  rw [h] at hkept hframe
  exact ⟨hdone.supply, (hdone.moved hb).balance, hkept, hframe⟩

theorem allowance_approve (b : Bank) (token owner : Address) (n : Word) (t holder : Address) :
    (b.approve token owner n).allowance t holder =
      if holder = owner ∧ t = token then n else b.allowance t holder := by
  unfold approve allowance
  split
  · rename_i heq
    rw [heq.1, heq.2]
    exact Holdings.amount_set_self ..
  · rename_i hne
    exact Holdings.amount_set_ne _ _ (by tauto)

theorem pullIn_eq_error {fault : HostFault} (h : (pullIn token owner n).run b = .error fault b') :
    b' = b := by
  unfold pullIn at h
  rw [run_get_bind_eq_error, run_guard_eq_error] at h
  obtain ⟨-, -, rfl⟩ | ⟨-, h⟩ := h
  · rfl
  · cases htransfer : (transfer token owner b.engine n).run b with
    | ok _ b₁ =>
      rw [run_bind_of_ok htransfer] at h
      cases h
    | error fault' b₁ =>
      rw [run_bind_of_error htransfer] at h
      cases h
      exact transfer_eq_error htransfer

theorem grantPermit_eq_error {amount : Amount} {deadline : UInt64} {signature : Signature}
    {fault : HostFault}
    (h : (grantPermit owner token amount deadline signature).run b = .error fault b') :
    b' = b := by
  unfold grantPermit at h
  rw [run_get_bind_eq_error, run_guard_eq_error, run_guard_eq_error] at h
  obtain ⟨-, -, rfl⟩ | ⟨-, ⟨-, -, rfl⟩ | ⟨-, h⟩⟩ := h
  · rfl
  · rfl
  · cases h

structure Call.Done (call : Call) (b b' : Bank) : Prop where
  supply : ∀ t, b'.supply t = b.supply t
  balance : ∀ holder t, ((b'.balance t holder).toNat : Int) =
    (b.balance t holder).toNat + call.gain b holder t
  allowance : ∀ holder t, ((b'.allowance t holder).toNat : Int) = call.allowanceLeft b holder t
  frame : b.SameBut call.token b'

/-- A call is done, or the bank is as it was. -/
inductive Call.Answered (call : Call) (b : Bank) : Reply × Bank → Prop
  | done {reply : Reply} {b' : Bank} (accepted : reply.Accepted) (done : call.Done b b') :
    call.Answered b (reply, b')
  | refused {reply : Reply} (refused : ¬ reply.Accepted) : call.Answered b (reply, b)

theorem Shifted.done (call : Call) (h : Shifted call.token (call.gain b) b b')
    (hallowance : ∀ holder t, call.allowanceLeft b holder t = (b.allowance t holder).toNat) :
    call.Done b b' where
  supply := h.supply
  balance := h.balance
  allowance := fun holder t => by rw [hallowance, allowance, h.allowances, allowance]
  frame := h.frame

theorem answered_ofRun {call : Call} {r : EStateM.Result HostFault Bank Unit}
    (hok : ∀ b', r = .ok () b' → call.Done b b')
    (herror : ∀ fault b', r = .error fault b' → b' = b) : call.Answered b (Reply.ofRun r) := by
  cases r with
  | ok _ b' => exact .done rfl (hok b' rfl)
  | error fault b' =>
    rw [herror fault b' rfl]
    exact .refused nofun

theorem answered_transfer (hb : b.Bounded) (token sender recipient : Address) (n : Word) :
    (Call.transfer token sender recipient n).Answered b
      (b.answer (.transfer token sender recipient n)) :=
  answered_ofRun
    (fun _ h => (transfer_shifted hb h).done (.transfer token sender recipient n) fun _ _ => rfl)
    fun _ _ h => transfer_eq_error h

theorem answered_sendOut (hb : b.Bounded) (token recipient : Address) (n : Word) :
    (Call.sendOut token recipient n).Answered b (b.answer (.sendOut token recipient n)) := by
  refine answered_ofRun (fun b' h => ?_) fun fault b' h => ?_
  · have hshifted := transfer_shifted hb (run_get_bind_eq_ok.1 h)
    exact hshifted.done (.sendOut token recipient n) fun _ _ => rfl
  · unfold sendOut at h
    exact transfer_eq_error (run_get_bind_eq_error.1 h)

theorem answered_pullIn (hb : b.Bounded) (token owner : Address) (n : Word) :
    (Call.pullIn token owner n).Answered b (b.answer (.pullIn token owner n)) := by
  refine answered_ofRun (fun b' h => ?_) fun _ _ h => pullIn_eq_error h
  obtain ⟨hle, b₁, htransfer, rfl⟩ := pullIn_eq_ok_iff.1 h
  have hshifted := transfer_shifted hb htransfer
  have hleft : (b.allowance token owner - n).toNat = (b.allowance token owner).toNat - n.toNat :=
    BitVec.toNat_sub_of_le hle
  have hallowance (t holder : Address) : b₁.allowance t holder = b.allowance t holder := by
    rw [allowance, hshifted.allowances, allowance]
  refine ⟨hshifted.supply, hshifted.balance, fun holder t => ?_,
    hshifted.frame.trans (b₁.sameBut_approve _ _ _)⟩
  rw [allowance_approve]
  by_cases hholder : holder = owner
  · by_cases ht : t = token
    · subst hholder ht
      simp only [and_self, if_true, hleft, Call.allowanceLeft, only_self]
      omega
    · simp only [hholder, ht, and_false, if_false, hallowance, Call.allowanceLeft, if_true,
        only_of_ne ht, Int.sub_zero]
  · simp only [hholder, false_and, if_false, hallowance, Call.allowanceLeft, Int.sub_zero]

theorem answered_permit (b : Bank) (owner token : Address) (amount : Amount) (deadline : UInt64)
    (signature : Signature) : (Call.permit owner token amount deadline signature).Answered b
      (b.answer (.permit owner token amount deadline signature)) := by
  refine answered_ofRun (fun b' h => ?_) fun _ _ h => grantPermit_eq_error h
  unfold grantPermit at h
  rw [run_get_bind_eq_ok, run_guard_eq_ok, run_guard_eq_ok, run_set_eq_ok] at h
  obtain ⟨-, -, rfl⟩ := h
  refine ⟨fun _ => rfl, fun _ _ => (Int.add_zero _).symm, fun holder t => ?_,
    b.sameBut_approve _ _ _⟩
  rw [allowance_approve, Call.allowanceLeft]
  split
  · rw [Amount.toNat_widen]
  · rfl

theorem pushed_answered (hb : b.Bounded) {k : Word} (hk : b.pushes n = k.toNat) :
    (Call.settle caller token n).Answered b
      (.marked (b.pushed caller token k).1, (b.pushed caller token k).2.1) := by
  obtain ⟨b', htransfer, hpushed⟩ | ⟨fault, hpushed⟩ := b.pushed_cases caller token k
  · have hshifted : Shifted token ((Call.settle caller token n).gain b) b b' := by
      rw [Call.gain, hk]
      exact transfer_shifted hb htransfer
    rw [hpushed]
    exact .done rfl (hshifted.done (.settle caller token n) fun _ _ => rfl)
  · rw [hpushed]
    exact .refused zero_ne_accepted

theorem answered_settle (hb : b.Bounded) (caller token : Address) (n : Word) :
    (Call.settle caller token n).Answered b (b.answer (.settle caller token n)) := by
  change (Call.settle caller token n).Answered b
    (.marked (b.settle caller token n).1, (b.settle caller token n).2.1)
  rw [settle_eq]
  cases hcallback : b.callback with
  | refuse => exact .refused zero_ne_accepted
  | pay => exact pushed_answered hb (by rw [pushes, hcallback])
  | underpay =>
    exact pushed_answered hb (by rw [pushes, hcallback, Word.toNat_subSaturating]; rfl)

theorem answered (hb : b.Bounded) (call : Call) : call.Answered b (b.answer call) := by
  cases call with
  | transfer token sender recipient n => exact answered_transfer hb token sender recipient n
  | pullIn token owner n => exact answered_pullIn hb token owner n
  | sendOut token recipient n => exact answered_sendOut hb token recipient n
  | settle caller token n => exact answered_settle hb caller token n
  | permit owner token amount deadline signature =>
    exact b.answered_permit owner token amount deadline signature

theorem Call.Answered.supply {call : Call} {answer : Reply × Bank} (h : call.Answered b answer)
    (t : Address) : answer.2.supply t = b.supply t := by
  cases h with
  | done _ done => exact done.supply t
  | refused _ => rfl

theorem Bounded.of_supply (hb : b.Bounded) (h : ∀ t, b'.supply t = b.supply t) : b'.Bounded :=
  fun t => (h t).le.trans (hb t)

theorem supply_after (hb : b.Bounded) (calls : List Call) (t : Address) :
    (b.after calls).supply t = b.supply t := by
  induction calls generalizing b with
  | nil => rfl
  | cons call calls ih =>
    have hcall := (answered hb call).supply
    have hrest : ((b.answer call).2.after calls).supply t = (b.answer call).2.supply t :=
      ih (hb.of_supply hcall)
    exact hrest.trans (hcall t)

/-- Wherever calls have led, no token was created or lost. The next call is done and makes its own
change only, or it is refused and the bank is what it was. -/
theorem calls_conserve_tokens (hb : b.Bounded) (calls : List Call) (call : Call) {reply : Reply}
    (h : (b.after calls).answer call = (reply, b')) :
    (∀ t, (b.after calls).supply t = b.supply t ∧ b'.supply t = b.supply t) ∧
    (¬ reply.Accepted → b' = b.after calls) ∧
    (reply.Accepted →
      (∀ holder t, ((b'.balance t holder).toNat : Int) =
        ((b.after calls).balance t holder).toNat + call.gain (b.after calls) holder t) ∧
      (∀ holder t, ((b'.allowance t holder).toNat : Int) =
        call.allowanceLeft (b.after calls) holder t) ∧
      ∀ t, t ≠ call.token → (b.after calls).SameAt t b') := by
  have hbefore := supply_after hb calls
  have hanswered := answered (hb.of_supply hbefore) call
  rw [h] at hanswered
  refine ⟨fun t => ⟨hbefore t, (hanswered.supply t).trans (hbefore t)⟩, fun hrefused => ?_,
    fun haccepted => ?_⟩
  · cases hanswered with
    | done accepted _ => exact absurd accepted hrefused
    | refused _ => rfl
  · cases hanswered with
    | done _ done => exact ⟨done.balance, done.allowance, done.frame⟩
    | refused refused => exact absurd haccepted refused

def frugal : Bank := { (Bank.new 9).mint 1 7 100 with callback := .underpay }

def frugalCalls : List Call :=
  [.permit 7 1 20 0 ⟨0, 1, 1⟩, .pullIn 1 7 5, .transfer 1 7 7 50, .sendOut 1 7 6]

theorem calls_conserve_tokens_frugal :
    ∃ reply b', (frugal.after frugalCalls).answer (.settle 7 1 10) = (reply, b') ∧
      reply.Accepted ∧ b'.supply 1 = 100 ∧ ((b'.balance 1 9).toNat : Int) = 14 ∧
      ((b'.balance 1 7).toNat : Int) = 86 ∧ ((b'.allowance 1 7).toNat : Int) = 15 := by
  have hbounded : frugal.Bounded := bounded_mint_new 9 1 7 100
  have haccepted : ((frugal.after frugalCalls).settle 7 1 10).1 = Marker.accepted := by
    decide +kernel
  obtain ⟨hsupply, -, hdone⟩ := calls_conserve_tokens hbounded frugalCalls (.settle 7 1 10) rfl
  obtain ⟨hbalance, hallowance, -⟩ := hdone haccepted
  refine ⟨_, _, rfl, haccepted, (hsupply 1).2, (hbalance 9 1).trans ?_, (hbalance 7 1).trans ?_,
    (hallowance 7 1).trans ?_⟩
  · decide +kernel
  · decide +kernel
  · decide +kernel

end NetSettle.Bank
