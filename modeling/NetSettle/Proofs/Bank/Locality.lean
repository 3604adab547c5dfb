import NetSettle.Proofs.Bank
import NetSettle.Proofs.Tracking

/-!
# Work on one token

A bank keeps its entries by token. Transfers, and what a caller does that is asked to settle, look
at the entries of their token alone and change no others. Two pieces of work on different tokens
may therefore be done in either order: if they can be done in one, they can be done in the other,
and the bank is the same afterwards.
-/
namespace NetSettle

def Faulting.state? {ε σ α : Type} : EStateM.Result ε σ α → Option σ
  | .ok _ s => some s
  | .error _ _ => none

open Faulting

namespace Bank

variable {b b' b'' : Bank} {token t u sender recipient owner caller holder : Address} {n : Word}

structure SameAt (t : Address) (b b' : Bank) : Prop where
  engine : b'.engine = b.engine
  callback : b'.callback = b.callback
  now : b'.now = b.now
  balances : b'.balances.find? t = b.balances.find? t
  allowances : b'.allowances.find? t = b.allowances.find? t

theorem SameAt.refl (t : Address) (b : Bank) : b.SameAt t b := ⟨rfl, rfl, rfl, rfl, rfl⟩

theorem SameAt.symm (h : b.SameAt t b') : b'.SameAt t b :=
  ⟨h.engine.symm, h.callback.symm, h.now.symm, h.balances.symm, h.allowances.symm⟩

theorem SameAt.trans (h : b.SameAt t b') (h' : b'.SameAt t b'') : b.SameAt t b'' where
  engine := h'.engine.trans h.engine
  callback := h'.callback.trans h.callback
  now := h'.now.trans h.now
  balances := h'.balances.trans h.balances
  allowances := h'.allowances.trans h.allowances

theorem eq_of_sameAt (h : ∀ t, b.SameAt t b') : b' = b := by
  have hbalances := SortedMap.ext_find? fun t => (h t).balances
  have hallowances := SortedMap.ext_find? fun t => (h t).allowances
  have hengine := (h 0).engine
  have hcallback := (h 0).callback
  have hnow := (h 0).now
  cases b
  cases b'
  simp_all

def SameBut (t : Address) (b b' : Bank) : Prop := ∀ u, u ≠ t → b.SameAt u b'

theorem SameBut.trans (h : b.SameBut t b') (h' : b'.SameBut t b'') : b.SameBut t b'' :=
  fun u hu => (h u hu).trans (h' u hu)

/-- Work that has to do with one token: it leaves the entries of the others alone, and what it does
depends on the entries of its token. -/
structure Local (t : Address) (work : Bank → Option Bank) : Prop where
  frame : ∀ {b b'}, work b = some b' → b.SameBut t b'
  alike : ∀ {b b'}, b.SameAt t b' → Option.Rel (SameAt t) (work b) (work b')

namespace Local

variable {work work' : Bank → Option Bank}

theorem swap (h : Local t work) (h' : Local u work') (hne : u ≠ t) {b₁ b₂ : Bank}
    (h₁ : work b = some b₁) (h₂ : work' b₁ = some b₂) :
    ∃ b₃, work' b = some b₃ ∧ work b₃ = some b₂ := by
  have hu := h'.alike (h.frame h₁ u hne)
  rw [h₂] at hu
  cases hb₃ : work' b with
  | none =>
    rw [hb₃] at hu
    cases hu
  | some b₃ =>
    rw [hb₃] at hu
    cases hu with
    | some hu =>
      have ht := h.alike (h'.frame hb₃ t hne.symm)
      rw [h₁] at ht
      cases hb₄ : work b₃ with
      | none =>
        rw [hb₄] at ht
        cases ht
      | some b₄ =>
        rw [hb₄] at ht
        cases ht with
        | some ht =>
          have hsame : b₄ = b₂ := by
            refine eq_of_sameAt fun v => ?_
            by_cases hvt : v = t
            · subst hvt
              exact (h'.frame h₂ v hne.symm).symm.trans ht
            by_cases hvu : v = u
            · subst hvu
              exact hu.symm.trans (h.frame hb₄ v hvt)
            · have h₂' := (h.frame h₁ v hvt).trans (h'.frame h₂ v hvu)
              have h₄' := (h'.frame hb₃ v hvu).trans (h.frame hb₄ v hvt)
              exact h₂'.symm.trans h₄'
          exact ⟨b₃, rfl, hb₄.trans (congrArg _ hsame)⟩

theorem comm (h : Local t work) (h' : Local u work') (hne : u ≠ t) (b : Bank) :
    (work b).bind work' = (work' b).bind work := by
  apply Option.ext
  intro b₂
  rw [Option.bind_eq_some_iff, Option.bind_eq_some_iff]
  constructor
  · rintro ⟨b₁, h₁, h₂⟩
    exact h.swap h' hne h₁ h₂
  · rintro ⟨b₁, h₁, h₂⟩
    exact h'.swap h hne.symm h₁ h₂

theorem some (t : Address) : Local t Option.some where
  frame := by
    rintro b _ ⟨⟩
    exact fun u _ => .refl u b
  alike := .some

theorem of_work {x : EStateM HostFault Bank Unit} (hkeeps : ∀ b : Bank, Keeps (b.SameBut t) x)
    (htracks : Tracks (SameAt t) x x) : Local t fun b => state? (x.run b) where
  frame := by
    intro b b' h
    have hkept := hkeeps b b fun u _ => .refl u b
    cases hrun : x.run b with
    | ok a b₁ =>
      rw [hrun] at h hkept
      cases h
      exact hkept
    | error fault b₁ =>
      rw [hrun] at h
      cases h
  alike := by
    intro b b' h
    have hmatches := htracks b b' h
    generalize x.run b = r at hmatches
    generalize x.run b' = r' at hmatches
    cases hmatches with
    | ok a h => exact .some h
    | error fault h => exact .none

end Local

theorem SameAt.balance (h : b.SameAt t b') (holder : Address) :
    b'.balance t holder = b.balance t holder := by
  rw [Bank.balance, Holdings.amount, h.balances]
  rfl

theorem SameAt.allowance (h : b.SameAt t b') (owner : Address) :
    b'.allowance t owner = b.allowance t owner := by
  rw [Bank.allowance, Holdings.amount, h.allowances]
  rfl

theorem SameAt.setBalance (h : b.SameAt t b') (holder : Address) (n : Word) :
    (b.setBalance t holder n).SameAt t (b'.setBalance t holder n) where
  engine := h.engine
  callback := h.callback
  now := h.now
  balances := by
    simp only [Bank.setBalance, Holdings.set, SortedMap.find?_insert_self, h.balances]
  allowances := h.allowances

theorem SameAt.mint (h : b.SameAt t b') (holder : Address) (n : Word) :
    (b.mint t holder n).SameAt t (b'.mint t holder n) := by
  rw [Bank.mint, Bank.mint, h.balance]
  exact h.setBalance holder _

theorem SameAt.approve (h : b.SameAt t b') (owner : Address) (n : Word) :
    (b.approve t owner n).SameAt t (b'.approve t owner n) where
  engine := h.engine
  callback := h.callback
  now := h.now
  balances := h.balances
  allowances := by
    simp only [Bank.approve, Holdings.set, SortedMap.find?_insert_self, h.allowances]

theorem sameBut_setBalance (b : Bank) (token holder : Address) (n : Word) :
    b.SameBut token (b.setBalance token holder n) :=
  fun _ hu => ⟨rfl, rfl, rfl, SortedMap.find?_insert_ne _ hu _, rfl⟩

theorem sameBut_mint (b : Bank) (token holder : Address) (n : Word) :
    b.SameBut token (b.mint token holder n) :=
  b.sameBut_setBalance token holder _

theorem sameBut_approve (b : Bank) (token owner : Address) (n : Word) :
    b.SameBut token (b.approve token owner n) :=
  fun _ hu => ⟨rfl, rfl, rfl, rfl, SortedMap.find?_insert_ne _ hu _⟩

theorem transfer_keepsSameBut (b : Bank) :
    Keeps (b.SameBut token) (transfer token sender recipient n) :=
  .get_bind fun _ _ => .guard fun _ =>
    .bind (.modify fun b' h => h.trans (b'.sameBut_setBalance _ _ _)) fun _ =>
      .modify fun b' h => h.trans (b'.sameBut_mint _ _ _)

theorem pullIn_keepsSameBut (b : Bank) : Keeps (b.SameBut token) (pullIn token owner n) :=
  .get_bind fun _ _ => .guard fun _ => .bind (transfer_keepsSameBut b) fun _ =>
    .modify fun b' h => h.trans (b'.sameBut_approve _ _ _)

theorem tracks_transfer : Tracks (SameAt token) (transfer token sender recipient n)
    (transfer token sender recipient n) := by
  refine (Follows.get_bind fun b b' h => ?_).tracks
  rw [h.balance]
  exact .guard (.bind (fun _ _ h => .inr (.ok () (h.setBalance ..))) fun _ =>
    fun _ _ h => .inr (.ok () (h.mint ..)))

theorem tracks_pullIn :
    Tracks (SameAt token) (pullIn token owner n) (pullIn token owner n) := by
  refine (Follows.get_bind fun b b' h => ?_).tracks
  rw [h.allowance, h.engine]
  exact .guard (.bind tracks_transfer.follows fun _ => fun _ _ h => .inr (.ok () (h.approve ..)))

theorem local_sendOut (token recipient : Address) (n : Word) :
    Local token fun b => state? ((sendOut token recipient n).run b) := by
  refine .of_work (fun b => .get_bind fun _ _ => transfer_keepsSameBut b) ?_
  refine (Follows.get_bind fun b b' h => ?_).tracks
  rw [h.engine]
  exact tracks_transfer.follows

theorem local_pullIn (token owner : Address) (n : Word) :
    Local token fun b => state? ((pullIn token owner n).run b) :=
  .of_work pullIn_keepsSameBut tracks_pullIn

theorem settle_sameBut (b : Bank) (caller token : Address) (n : Word) :
    b.SameBut token (b.settle caller token n).2.1 :=
  settle_keeps (fun _ => transfer_keepsSameBut b) (fun u _ => .refl u b) n

theorem SameAt.pushed (h : b.SameAt token b') (caller : Address) (n : Word) :
    (b'.pushed caller token n).1 = (b.pushed caller token n).1 ∧
      (b.pushed caller token n).2.1.SameAt token (b'.pushed caller token n).2.1 := by
  have htracks : Tracks (SameAt token) (transfer token caller b.engine n)
      (transfer token caller b.engine n) := tracks_transfer
  have hmatches := htracks b b' h
  unfold Bank.pushed
  rw [h.engine]
  generalize (transfer token caller b.engine n).run b = r at hmatches
  generalize (transfer token caller b.engine n).run b' = r' at hmatches
  cases hmatches with
  | ok _ h => exact ⟨rfl, h⟩
  | error _ h => exact ⟨rfl, h⟩

theorem SameAt.settle (h : b.SameAt token b') (caller : Address) (n : Word) :
    (b'.settle caller token n).1 = (b.settle caller token n).1 ∧
      (b.settle caller token n).2.1.SameAt token (b'.settle caller token n).2.1 := by
  rw [settle_eq, settle_eq, h.callback]
  cases b.callback with
  | refuse => exact ⟨rfl, h⟩
  | pay => exact h.pushed ..
  | underpay => exact h.pushed ..

def received (b b' : Bank) (engine token : Address) : Word :=
  Word.subSaturating (b'.balance token engine) (b.balance token engine)

def settled? (engine caller token : Address) (n : Word) (b : Bank) : Option Bank :=
  let b' := (b.settle caller token n).2.1
  if (b.settle caller token n).1 = Marker.accepted ∧ ¬ b.received b' engine token < n then some b'
  else none

theorem settled?_eq_some {engine : Address} :
    b.settled? engine caller token n = some b' ↔
      (b.settle caller token n).1 = Marker.accepted ∧
      ¬ b.received (b.settle caller token n).2.1 engine token < n ∧
      (b.settle caller token n).2.1 = b' := by
  simp only [settled?, Option.ite_none_right_eq_some, Option.some_inj, and_assoc]

theorem local_settled? (engine caller token : Address) (n : Word) :
    Local token (settled? engine caller token n) where
  frame := by
    intro b b' h
    simp only [settled?] at h
    split at h
    · cases h
      exact b.settle_sameBut _ _ _
    · cases h
  alike := by
    intro b b' h
    obtain ⟨hmarker, hbank⟩ := h.settle caller n
    have hreceived : b'.received (b'.settle caller token n).2.1 engine token =
        b.received (b.settle caller token n).2.1 engine token := by
      rw [received, received, hbank.balance, h.balance]
    simp only [settled?, hmarker, hreceived]
    split
    · exact .some hbank
    · exact .none

end Bank

end NetSettle
