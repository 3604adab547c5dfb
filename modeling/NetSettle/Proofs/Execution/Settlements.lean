import NetSettle.Proofs.Bank.Locality
import NetSettle.Proofs.Execution.Gate
import NetSettle.Proofs.Ledger.Clearing

/-!
# Settlements in any order

A settlement clears the entry of its token and moves as much between the parties as the entry was.
Whether it may be made, and how much it moves, depends on what the ledger has open in its token;
whether that much can be moved depends on the bank's entries for the token. So settlements of
different tokens never get in each other's way, and a list of them may be made in any order.
-/
namespace NetSettle

open Faulting

/-- The settlement of a token: in which way, and within which bounds. Every operation that settles
is that of one. -/
structure Settling where
  token : Address
  kind : Settlement
  bounds : Bounds
  deriving DecidableEq

namespace Settling

def operation (s : Settling) : Operation :=
  match s.kind with
  | .sent recipient => .sendAll s.token recipient s.bounds
  | .received => .receiveAll s.token s.bounds
  | .receivedViaCallback => .receiveAllViaCallback s.token s.bounds
  | .markedReceived => .markReceived s.token s.bounds

def side (s : Settling) : Context.Side :=
  match s.kind with
  | .sent _ | .markedReceived => .toCaller
  | .received | .receivedViaCallback => .toPool

def amount (s : Settling) (l : Ledger) : Word := (l.deltaOf s.token).magnitude

def event (s : Settling) (l : Ledger) : Event := .settled s.token s.kind (s.amount l)

structure Admitted (s : Settling) (l : Ledger) : Prop where
  token : s.token ≠ 0
  side : ¬ s.side.rejects (l.deltaOf s.token) = true
  bounds : s.bounds.check (s.amount l) = .ok ()

def pay (s : Settling) (engine caller : Address) (n : Word) (b : Bank) : Option Bank :=
  if n = 0 then some b
  else
    match s.kind with
    | .sent recipient => state? ((Bank.sendOut s.token recipient n).run b)
    | .received => state? ((Bank.pullIn s.token caller n).run b)
    | .receivedViaCallback => b.settled? engine caller s.token n
    | .markedReceived => some b

theorem local_pay (s : Settling) (engine caller : Address) (n : Word) :
    Bank.Local s.token (s.pay engine caller n) := by
  unfold pay
  by_cases hzero : n = 0
  · simp only [hzero, if_true]
    exact .some s.token
  simp only [hzero, if_false]
  cases s.kind with
  | sent recipient => exact Bank.local_sendOut ..
  | received => exact Bank.local_pullIn ..
  | receivedViaCallback => exact Bank.local_settled? ..
  | markedReceived => exact .some s.token

section

variable {s : Settling} {l : Ledger} {t : Address}

theorem amount_clear (hne : s.token ≠ t) : s.amount (l.clear t).2 = s.amount l :=
  congrArg Delta.magnitude (Ledger.deltaOf_clear_of_ne hne)

theorem event_clear (hne : s.token ≠ t) : s.event (l.clear t).2 = s.event l :=
  congrArg (Event.settled s.token s.kind) (amount_clear hne)

theorem admitted_clear (hne : s.token ≠ t) : s.Admitted (l.clear t).2 ↔ s.Admitted l := by
  have hdelta := Ledger.deltaOf_clear_of_ne (l := l) hne
  have hamount := amount_clear (l := l) hne
  constructor
  · intro h
    exact ⟨h.token, hdelta ▸ h.side, hamount ▸ h.bounds⟩
  · intro h
    exact ⟨h.token, hdelta.symm ▸ h.side, hamount.symm ▸ h.bounds⟩

end

def payAll (l : Ledger) (engine caller : Address) (ss : List Settling) (b : Option Bank) :
    Option Bank :=
  ss.foldl (fun b s => b.bind (s.pay engine caller (s.amount l))) b

def clearAll (ss : List Settling) (l : Ledger) : Ledger :=
  ss.foldl (fun l s => (l.clear s.token).2) l

variable {l : Ledger} {engine caller t : Address} {ss ss' : List Settling}

theorem payAll_cons (s : Settling) (b : Bank) :
    payAll l engine caller (s :: ss) (some b) =
      payAll l engine caller ss (s.pay engine caller (s.amount l) b) :=
  rfl

theorem payAll_none : payAll l engine caller ss none = none := by
  induction ss with
  | nil => rfl
  | cons s ss ih => exact ih

theorem payAll_clear (hne : ∀ s ∈ ss, s.token ≠ t) (b : Option Bank) :
    payAll (l.clear t).2 engine caller ss b = payAll l engine caller ss b := by
  refine List.foldl_ext _ _ _ fun b s hs => ?_
  rw [amount_clear (hne s hs)]

theorem token_ne_of_ne (hdistinct : (ss.map token).Nodup) {s s' : Settling} (hs : s ∈ ss)
    (hs' : s' ∈ ss) (hne : s ≠ s') : s'.token ≠ s.token :=
  fun htoken => hne (List.inj_on_of_nodup_map hdistinct hs hs' htoken.symm)

theorem payAll_perm (hdistinct : (ss.map token).Nodup) (hperm : ss.Perm ss') (b : Option Bank) :
    payAll l engine caller ss b = payAll l engine caller ss' b := by
  refine hperm.foldl_eq' (fun s hs s' hs' b => ?_) b
  by_cases hne : s = s'
  · rw [hne]
  cases b with
  | none => simp only [Option.bind_none]
  | some b =>
    rw [Option.bind_some, Option.bind_some]
    exact (s.local_pay engine caller _).comm (s'.local_pay engine caller _)
      (token_ne_of_ne hdistinct hs hs' hne) b

theorem clearAll_perm (hdistinct : (ss.map token).Nodup) (hperm : ss.Perm ss') (l : Ledger) :
    clearAll ss l = clearAll ss' l := by
  refine hperm.foldl_eq' (fun s hs s' hs' l => ?_) l
  by_cases hne : s = s'
  · rw [hne]
  · exact l.clear_comm (token_ne_of_ne hdistinct hs hs' hne)

end Settling

namespace Context

variable {nested : Runner Bank} {c c' : Context Bank} {s : Settling}

def settledBy (c : Context Bank) (s : Settling) (b : Bank) : Context Bank :=
  { c with
    host := b
    ledger := (c.ledger.clear s.token).2
    released := c.released ++ (s.event c.ledger).due
    events := c.events ++ [s.event c.ledger]
    journal := c.journal ++ [.performed c.caller (s.event c.ledger)] }

def paid? (c : Context Bank) (s : Settling) : Option Bank :=
  s.pay c.engine.address c.caller (s.amount c.ledger) c.host

theorem take_bind_eq_ok {f : Word → Faulting (Context Bank) Unit} :
    (take s.token s.side s.bounds >>= f).run c = .ok () c' ↔ s.Admitted c.ledger ∧
      (f (s.amount c.ledger)).run { c with ledger := (c.ledger.clear s.token).2 } =
        .ok () c' := by
  rw [run_bind_eq_ok]
  constructor
  · rintro ⟨_, _, htake, hrest⟩
    obtain ⟨htoken, hside, hbounds, rfl, rfl⟩ := take_run_eq_ok.1 htake
    exact ⟨⟨htoken, hside, hbounds⟩, hrest⟩
  · rintro ⟨⟨htoken, hside, hbounds⟩, hrest⟩
    exact ⟨_, _, take_run_eq_ok.2 ⟨htoken, hside, hbounds, rfl, rfl⟩, hrest⟩

/-- A settlement ends well if it is admitted and the bank can make its movement; where there is
nothing to settle, the bank need not move anything. -/
theorem take_move_eq_ok {move : Word → Faulting (Context Bank) Unit}
    (hmove : s.amount c.ledger ≠ 0 →
      ((move (s.amount c.ledger)).run { c with ledger := (c.ledger.clear s.token).2 } =
          .ok () c' ↔
        ∃ b, c.paid? s = some b ∧ c' = c.settledBy s b)) :
    (take s.token s.side s.bounds >>= fun n =>
        if n ≠ 0 then move n else emit (.settled s.token s.kind n)).run c = .ok () c' ↔
      s.Admitted c.ledger ∧ ∃ b, c.paid? s = some b ∧ c' = c.settledBy s b := by
  refine take_bind_eq_ok.trans (and_congr_right fun _ => ?_)
  by_cases hzero : s.amount c.ledger = 0
  · have hpay : c.paid? s = some c.host := if_pos hzero
    have hdue : (s.event c.ledger).due = [] := Event.due_of_settled_zero hzero
    rw [if_neg (not_not.2 hzero), hpay]
    simp only [settledBy, hdue, List.append_nil, Option.some_inj, exists_eq_left']
    exact ⟨emit_eq_ok, fun h => h ▸ rfl⟩
  · rw [if_pos hzero]
    exact hmove hzero

theorem onHost_emit_eq_ok {request : HostRequest (Except HostFault Unit)}
    {work : EStateM HostFault Bank Unit} {e : Event}
    (hserve : ∀ b, Host.serve b request = .ofRun (work.run b)) :
    (onHost nested .transfer request >>= fun _ => emit e).run c = .ok () c' ↔
      ∃ b, state? (work.run c.host) = some b ∧
        c' = { c with
          host := b
          journal := c.journal ++ [.performed c.caller e]
          events := c.events ++ [e] } := by
  rw [EStateM.run_bind, onHost_run (hserve c.host)]
  cases work.run c.host with
  | ok _ b =>
    constructor
    · intro h
      exact ⟨b, rfl, emit_eq_ok h⟩
    · rintro ⟨_, ⟨⟩, rfl⟩
      rfl
  | error fault b =>
    constructor
    · intro h
      cases h
    · rintro ⟨_, ⟨⟩, -⟩

theorem balanceOf_run (nested : Runner Bank) (c : Context Bank) (token holder : Address) :
    (ask nested (.balanceOf token holder)).run c = .ok (c.host.balance token holder) c :=
  rfl

theorem settle_run (nested : Runner Bank) (c : Context Bank) (caller token : Address) (n : Word) :
    (ask nested (.settle caller token n)).run c = .ok (c.host.settle caller token n).1
      { c with
        host := (c.host.settle caller token n).2.1
        journal := c.journal ++
          ((c.host.settle caller token n).2.2.map JournalEntry.callerShort).toList } := by
  simp only [EStateM.run, ask, Bank.serve_settle]

theorem perform_settling :
    (perform nested s.operation).run c = .ok () c' ↔
      s.Admitted c.ledger ∧ ∃ b, c.paid? s = some b ∧ c' = c.settledBy s b := by
  obtain ⟨token, kind, bounds⟩ := s
  cases kind with
  | sent recipient =>
    refine take_move_eq_ok fun hne => (onHost_emit_eq_ok fun _ => rfl).trans ?_
    simp only [settledBy, Settling.event, Event.due, List.append_nil, paid?, Settling.pay,
      if_neg hne]
  | received =>
    refine take_move_eq_ok fun hne =>
      run_get_bind_eq_ok.trans ((onHost_emit_eq_ok fun _ => rfl).trans ?_)
    simp only [settledBy, Settling.event, Event.due, List.append_nil, paid?, Settling.pay,
      if_neg hne]
  | receivedViaCallback =>
    refine take_move_eq_ok fun hne => run_get_bind_eq_ok.trans (run_get_bind_eq_ok.trans ?_)
    dsimp only
    rw [run_bind_of_ok (balanceOf_run nested _ token _),
      run_bind_of_ok (settle_run nested _ _ token _), run_guard_eq_ok,
      run_bind_of_ok (balanceOf_run nested _ token _), run_guard_eq_ok, not_not]
    simp only [settledBy, Settling.event, Event.due, List.append_nil, paid?, Settling.pay,
      if_neg hne, Bank.settled?_eq_some]
    constructor
    · rintro ⟨haccepted, hreceived, hemit⟩
      rw [Bank.settle_accepted haccepted, Option.map_none, Option.toList_none, List.append_nil]
        at hemit
      exact ⟨_, ⟨haccepted, hreceived, rfl⟩, emit_eq_ok hemit⟩
    · rintro ⟨_, ⟨haccepted, hreceived, rfl⟩, rfl⟩
      refine ⟨haccepted, hreceived, ?_⟩
      rw [Bank.settle_accepted haccepted, Option.map_none, Option.toList_none, List.append_nil]
      rfl
  | markedReceived =>
    refine take_move_eq_ok fun hne => ?_
    simp only [settledBy, Settling.event, Event.due, paid?, Settling.pay, if_neg hne,
      Option.some_inj, exists_eq_left']
    exact ⟨fun h => by cases h; rfl, fun h => h ▸ rfl⟩

open Settling (payAll clearAll)

variable {ss ss' : List Settling} {b : Bank}

def settledByAll (c : Context Bank) (ss : List Settling) (b : Bank) : Context Bank :=
  { c with
    host := b
    ledger := clearAll ss c.ledger
    released := c.released ++ (ss.map (·.event c.ledger)).flatMap Event.due
    events := c.events ++ ss.map (·.event c.ledger)
    journal := c.journal ++ ss.map fun s => .performed c.caller (s.event c.ledger) }

def paidAll? (c : Context Bank) (ss : List Settling) : Option Bank :=
  payAll c.ledger c.engine.address c.caller ss (some c.host)

theorem settledByAll_nil (c : Context Bank) : c.settledByAll [] c.host = c := by
  simp [settledByAll, clearAll]

theorem settledByAll_cons (hne : ∀ s' ∈ ss, s'.token ≠ s.token) (b b' : Bank) :
    (c.settledBy s b).settledByAll ss b' = c.settledByAll (s :: ss) b' := by
  have hevents {α : Type} (f : Event → α) :
      ss.map (fun s' => f (s'.event (c.ledger.clear s.token).2)) =
        ss.map fun s' => f (s'.event c.ledger) :=
    List.map_congr_left fun s' hs' => congrArg f (Settling.event_clear (hne s' hs'))
  simp only [settledByAll, settledBy, hevents, hevents fun e => e, clearAll, List.foldl_cons,
    List.map_cons, List.flatMap_cons, List.append_assoc, List.singleton_append]

theorem paidAll?_cons (hne : ∀ s' ∈ ss, s'.token ≠ s.token) (h : c.paid? s = some b) :
    c.paidAll? (s :: ss) = (c.settledBy s b).paidAll? ss := by
  rw [paidAll?, Settling.payAll_cons]
  rw [paid?] at h
  rw [h, ← Settling.payAll_clear hne]
  rfl

theorem paidAll?_of_none (h : c.paid? s = none) : c.paidAll? (s :: ss) = none := by
  rw [paidAll?, Settling.payAll_cons]
  rw [paid?] at h
  rw [h, Settling.payAll_none]

/-- Settlements end well if each is admitted by the ledger that all of them find, and the bank can
make their movements in turn. -/
theorem performAll_settlings (hdistinct : (ss.map Settling.token).Nodup) :
    (performAll nested (ss.map Settling.operation)).run c = .ok () c' ↔
      (∀ s ∈ ss, s.Admitted c.ledger) ∧
        ∃ b, c.paidAll? ss = some b ∧ c' = c.settledByAll ss b := by
  induction ss generalizing c with
  | nil =>
    constructor
    · intro h
      obtain ⟨-, rfl⟩ := run_pure_eq_ok.1 h
      exact ⟨List.forall_mem_nil _, c.host, rfl, c.settledByAll_nil.symm⟩
    · rintro ⟨-, _, ⟨⟩, rfl⟩
      rw [settledByAll_nil]
      rfl
  | cons s ss ih =>
    rw [List.map_cons, List.nodup_cons] at hdistinct
    have hne (s' : Settling) (hs' : s' ∈ ss) : s'.token ≠ s.token := fun htoken =>
      hdistinct.1 (htoken ▸ List.mem_map_of_mem hs')
    rw [List.map_cons, performAll, run_bind_eq_ok, List.forall_mem_cons]
    constructor
    · rintro ⟨_, c₁, hop, hrest⟩
      obtain ⟨hadmitted, b, hpay, rfl⟩ := perform_settling.1 hop
      obtain ⟨hall, b', hpays, rfl⟩ := (ih hdistinct.2).1 hrest
      refine ⟨⟨hadmitted, fun s' hs' => (Settling.admitted_clear (hne s' hs')).1 (hall s' hs')⟩,
        b', ?_, settledByAll_cons hne b b'⟩
      rw [paidAll?_cons hne hpay]
      exact hpays
    · rintro ⟨⟨hadmitted, hall⟩, b', hpays, rfl⟩
      cases hpay : c.paid? s with
      | none =>
        rw [paidAll?_of_none hpay] at hpays
        cases hpays
      | some b =>
        rw [paidAll?_cons hne hpay] at hpays
        refine ⟨(), c.settledBy s b, perform_settling.2 ⟨hadmitted, b, hpay, rfl⟩,
          (ih hdistinct.2).2 ⟨fun s' hs' => (Settling.admitted_clear (hne s' hs')).2 (hall s' hs'),
            b', hpays, (settledByAll_cons hne b b').symm⟩⟩

theorem exists_performAll_settlings (hdistinct : (ss.map Settling.token).Nodup) :
    (∃ c', (performAll nested (ss.map Settling.operation)).run c = .ok () c') ↔
      (∀ s ∈ ss, s.Admitted c.ledger) ∧ ∃ b, c.paidAll? ss = some b := by
  simp only [performAll_settlings hdistinct]
  constructor
  · rintro ⟨_, hall, b, hpays, -⟩
    exact ⟨hall, b, hpays⟩
  · rintro ⟨hall, b, hpays⟩
    exact ⟨_, hall, b, hpays, rfl⟩

/-- Settlements of different tokens may be made in any order. If they end well in one order, they
do so in any other, and leave the same ledger, down to the number of slots that were looked at, the
same balances and allowances, and the same pools. What is reported and what is to be delivered is
the same for each settlement, and listed in the order in which they were made. -/
theorem settlements_in_any_order (nested : Runner Bank) (c : Context Bank) {ss ss' : List Settling}
    (hdistinct : (ss.map Settling.token).Nodup) (hperm : ss.Perm ss') :
    ((∃ c₁, (performAll nested (ss.map Settling.operation)).run c = .ok () c₁) ↔
      ∃ c₂, (performAll nested (ss'.map Settling.operation)).run c = .ok () c₂) ∧
    ∀ c₁ c₂, (performAll nested (ss.map Settling.operation)).run c = .ok () c₁ →
      (performAll nested (ss'.map Settling.operation)).run c = .ok () c₂ →
      c₂.ledger = c₁.ledger ∧ c₂.host = c₁.host ∧ c₂.engine = c₁.engine ∧
      c₂.overlay = c₁.overlay ∧
      (c₁.events = c.events ++ ss.map (·.event c.ledger) ∧
        c₂.events = c.events ++ ss'.map (·.event c.ledger)) ∧
      c₁.released = c.released ++ (ss.map (·.event c.ledger)).flatMap Event.due ∧
        c₂.released = c.released ++ (ss'.map (·.event c.ledger)).flatMap Event.due := by
  have hdistinct' : (ss'.map Settling.token).Nodup := (hperm.map _).nodup_iff.1 hdistinct
  have hpays : c.paidAll? ss = c.paidAll? ss' := Settling.payAll_perm hdistinct hperm _
  constructor
  · simp only [exists_performAll_settlings hdistinct, exists_performAll_settlings hdistinct',
      hpays, hperm.mem_iff]
  · intro c₁ c₂ h₁ h₂
    obtain ⟨-, b, hb, rfl⟩ := (performAll_settlings hdistinct).1 h₁
    obtain ⟨-, b', hb', rfl⟩ := (performAll_settlings hdistinct').1 h₂
    rw [hpays, hb'] at hb
    cases hb
    exact ⟨(Settling.clearAll_perm hdistinct hperm c.ledger).symm, rfl, rfl, rfl, ⟨rfl, rfl⟩, rfl,
      rfl⟩

def fourOpen : Context Bank :=
  let host := ((World.lender.host.mint 1 9 10).mint 3 7 10)
  let work : Faulting (Context Bank) Unit := do
    change 1 (.owedToCaller 5)
    change 2 (.owedToPool 5)
    change 3 (.owedToPool 5)
    change 4 (.owedToCaller 5)
  finalState (work.run (start { World.lender with host := host } 7
    ⟨Array.replicate 4 .unused, 0, 0⟩))

def oneOfEach : List Settling :=
  [⟨1, .sent 6, .unbounded⟩, ⟨2, .received, ⟨some 5, none⟩⟩, ⟨3, .receivedViaCallback, .unbounded⟩,
    ⟨4, .markedReceived, ⟨none, some 9⟩⟩]

theorem settlements_in_any_order_oneOfEach :
    (oneOfEach.map Settling.token).Nodup ∧ oneOfEach.Perm oneOfEach.reverse ∧
      ∃ c₁ c₂,
        (performAll World.nestedRunner (oneOfEach.map Settling.operation)).run fourOpen =
          .ok () c₁ ∧
        (performAll World.nestedRunner (oneOfEach.reverse.map Settling.operation)).run fourOpen =
          .ok () c₂ ∧
        c₂.ledger = c₁.ledger ∧ c₂.host = c₁.host ∧ c₁.host.balance 1 6 = 5 ∧
        c₂.released = [(4, 5)] := by
  have hdistinct : (oneOfEach.map Settling.token).Nodup := by decide
  have hperm : oneOfEach.Perm oneOfEach.reverse := oneOfEach.reverse_perm.symm
  obtain ⟨hends, hsame⟩ :=
    settlements_in_any_order World.nestedRunner fourOpen hdistinct hperm
  have htest : endsWith (fun _ c => c.host.balance 1 6 = 5) ((performAll World.nestedRunner
      (oneOfEach.map Settling.operation)).run fourOpen) = true := by decide +kernel
  obtain ⟨_, c₁, hrun₁, hsent⟩ := exists_of_endsWith htest
  obtain ⟨c₂, hrun₂⟩ := hends.1 ⟨c₁, hrun₁⟩
  obtain ⟨hledger, hhost, -, -, -, -, hreleased⟩ := hsame c₁ c₂ hrun₁ hrun₂
  have hdue : fourOpen.released ++ (oneOfEach.reverse.map
      (·.event fourOpen.ledger)).flatMap Event.due = [(4, 5)] := by decide +kernel
  exact ⟨hdistinct, hperm, c₁, c₂, hrun₁, hrun₂, hledger, hhost, of_decide_eq_true hsent,
    hreleased.trans hdue⟩

end Context

end NetSettle
