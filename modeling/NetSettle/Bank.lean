import NetSettle.Host

/-!
# A simulated world

A bank keeps balances and allowances by token and holder, a clock, and the behaviour of its callers
when they are asked to settle. A failed transfer changes nothing. Entries that fall to zero stay.
-/
namespace NetSettle

inductive CallbackBehavior where
  | pay
  | refuse
  | underpay
  deriving DecidableEq, Repr

abbrev Holdings := SortedMap Address (SortedMap Address Word)

namespace Holdings

def amount (h : Holdings) (token holder : Address) : Word :=
  ((h.find? token).bind (·.find? holder)).getD 0

def set (h : Holdings) (token holder : Address) (amount : Word) : Holdings :=
  h.insert token (((h.find? token).getD .empty).insert holder amount)

theorem amount_set_self (h : Holdings) (token holder : Address) (n : Word) :
    (h.set token holder n).amount token holder = n := by
  simp [amount, set]

theorem amount_set_ne (h : Holdings) {token token' holder holder' : Address} (n : Word)
    (hne : token' ≠ token ∨ holder' ≠ holder) :
    (h.set token holder n).amount token' holder' = h.amount token' holder' := by
  unfold amount set
  by_cases ht : token' = token
  · subst ht
    have hh : holder' ≠ holder := by simpa using hne
    rw [SortedMap.find?_insert_self, Option.bind_some, SortedMap.find?_insert_ne _ hh]
    cases h.find? token' <;> rfl
  · rw [SortedMap.find?_insert_ne _ ht]

end Holdings

structure Bank where
  engine : Address
  balances : Holdings
  allowances : Holdings
  callback : CallbackBehavior
  now : UInt64
  deriving DecidableEq

namespace Bank

def new (engine : Address) : Bank := ⟨engine, .empty, .empty, .pay, 0⟩

def balance (b : Bank) (token holder : Address) : Word := b.balances.amount token holder

def allowance (b : Bank) (token owner : Address) : Word := b.allowances.amount token owner

def nonzeroBalances (b : Bank) : List (Address × Address × Word) :=
  b.balances.toList.flatMap fun (token, holders) =>
    (holders.toList.filter fun entry => entry.2 ≠ 0).map fun (holder, n) => (token, holder, n)

def setBalance (b : Bank) (token holder : Address) (n : Word) : Bank :=
  { b with balances := b.balances.set token holder n }

def approve (b : Bank) (token owner : Address) (n : Word) : Bank :=
  { b with allowances := b.allowances.set token owner n }

def mint (b : Bank) (token holder : Address) (n : Word) : Bank :=
  b.setBalance token holder (Word.addSaturating (b.balance token holder) n)

def transfer (token sender recipient : Address) (n : Word) : EStateM HostFault Bank Unit := do
  let available := (← get).balance token sender
  if available < n then
    throw (.insufficientBalance token sender available n)
  modify (·.setBalance token sender (available - n))
  modify (·.mint token recipient n)

def pullIn (token owner : Address) (n : Word) : EStateM HostFault Bank Unit := do
  let b ← get
  let allowed := b.allowance token owner
  if allowed < n then
    throw (.insufficientAllowance token owner allowed n)
  transfer token owner b.engine n
  modify (·.approve token owner (allowed - n))

def sendOut (token recipient : Address) (n : Word) : EStateM HostFault Bank Unit := do
  transfer token (← get).engine recipient n

/-- The simulated caller's answer: its marker, the bank afterwards, and why it could not pay. -/
def settle (b : Bank) (caller token : Address) (n : Word) : Marker × Bank × Option HostFault :=
  let pay (n : Word) :=
    match (transfer token caller b.engine n).run b with
    | .ok _ b => (Marker.accepted, b, none)
    | .error fault b => (0, b, some fault)
  match b.callback with
  | .refuse => (0, b, none)
  | .pay => pay n
  | .underpay => pay (Word.subSaturating n 1)

def grantPermit (owner token : Address) (amount : Amount) (deadline : UInt64)
    (signature : Signature) : EStateM HostFault Bank Unit := do
  let b ← get
  if deadline < b.now then
    throw (.permitExpired deadline b.now)
  if signature.r = 0 ∨ signature.s = 0 then
    throw .invalidSignature
  set (b.approve token owner (Amount.widen amount))

instance : Host Bank where
  serve b
    | .sendOut token recipient n => .ofRun ((sendOut token recipient n).run b)
    | .pullIn token owner n => .ofRun ((pullIn token owner n).run b)
    | .balanceOf token holder => .finish (b.balance token holder) b
    | .settle caller token n =>
      match b.settle caller token n with
      | (marker, b, none) => .finish marker b
      | (marker, b, some fault) => .note (.callerShort fault) (.finish marker b)
    | .grantPermit owner token amount deadline signature =>
      .ofRun ((grantPermit owner token amount deadline signature).run b)

end Bank

end NetSettle
