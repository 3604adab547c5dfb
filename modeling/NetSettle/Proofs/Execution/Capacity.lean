import NetSettle.Proofs.Execution.Solvency

/-!
# The capacity of the ledger

A program names the capacity of its ledger in its header. A ledger with more slots places its tokens
elsewhere, lets them collide elsewhere and takes other cleared slots over, but it stands for the
same deltas, so that an execution goes on as it did with fewer slots unless these were full.
-/
namespace NetSettle

open Faulting

/-- A fault that a larger capacity may avoid. -/
def Fault.OfCapacity (fault : Fault) : Prop := ∃ capacity, fault = .ledgerFull capacity

namespace Ledger

structure Resized (m n : Nat) (l l' : Ledger) : Prop where
  valid : l.Valid
  valid' : l'.Valid
  capacity : l.capacity = m
  capacity' : l'.capacity = n
  deltaOf : l'.deltaOf = l.deltaOf

variable {m n : Nat}

namespace Resized

variable {l l' : Ledger}

theorem answer (h : Resized m n l l') (call : Call)
    (hideal : Balances.answer n call l.deltaOf = Balances.answer m call l.deltaOf) :
    (l'.answer call).1 = (l.answer call).1 ∧ Resized m n (l.answer call).2 (l'.answer call).2 := by
  obtain ⟨hreply, hvalid, hcapacity, hdelta⟩ := h.valid.answer call
  obtain ⟨hreply', hvalid', hcapacity', hdelta'⟩ := h.valid'.answer call
  rw [h.capacity] at hreply hdelta
  rw [h.capacity', h.deltaOf, hideal] at hreply' hdelta'
  exact ⟨hreply'.trans hreply.symm, hvalid, hvalid', hcapacity.trans h.capacity,
    hcapacity'.trans h.capacity', hdelta'.trans hdelta.symm⟩

theorem checkSettled (h : Resized m n l l') : l'.checkSettled = l.checkSettled := by
  rw [Ledger.checkSettled, Ledger.checkSettled, ← h.valid.openCount_eq, ← h.valid'.openCount_eq,
    h.deltaOf]

end Resized

theorem follows_change_resized (hle : m ≤ n) (token : Address) (delta : Delta) :
    Follows Fault.OfCapacity (Resized m n) (change token delta) (change token delta) := by
  intro l l' h
  have hroom : Balances.openCount l.deltaOf ≤ m := h.capacity ▸ h.valid.openCount_le
  rcases Balances.change_of_capacity_le hle token delta hroom with hfull | hideal
  · have hreply := (h.valid.answer_change token delta).1
    rw [h.capacity, hfull, answer] at hreply
    cases hrun : (change token delta).run l with
    | ok _ l₁ =>
      rw [hrun] at hreply
      cases hreply
    | error fault l₁ =>
      rw [hrun] at hreply
      cases hreply
      exact .inl ⟨_, l₁, ⟨_, rfl⟩, rfl⟩
  · have hanswer := h.answer (.change token delta) hideal
    simp only [answer] at hanswer
    cases hrun : (change token delta).run l with
    | ok _ l₁ =>
      cases hrun' : (change token delta).run l' with
      | ok _ l₁' =>
        rw [hrun, hrun'] at hanswer
        exact .inr (.ok _ hanswer.2)
      | error fault' l₁' =>
        rw [hrun, hrun'] at hanswer
        cases hanswer.1
    | error fault l₁ =>
      cases hrun' : (change token delta).run l' with
      | ok _ l₁' =>
        rw [hrun, hrun'] at hanswer
        cases hanswer.1
      | error fault' l₁' =>
        rw [hrun, hrun'] at hanswer
        cases hanswer.1
        exact .inr (.error _ hanswer.2)

theorem pairing_resized (hle : m ≤ n) : Pairing Fault.OfCapacity (Resized m n) where
  change := follows_change_resized hle
  balance token l l' h := by
    obtain ⟨hreply, hnext⟩ := h.answer (.get token) rfl
    have hdelta : (l'.balance token).1 = (l.balance token).1 := Reply.delta.inj hreply
    change Matches (Resized m n) (.ok (l.balance token).1 (l.balance token).2)
      (.ok (l'.balance token).1 (l'.balance token).2)
    rw [hdelta]
    exact .ok _ hnext
  clear token l l' h := by
    obtain ⟨hreply, hnext⟩ := h.answer (.reset token) rfl
    have hdelta : (l'.clear token).1 = (l.clear token).1 := Reply.delta.inj hreply
    change Matches (Resized m n) (.ok (l.clear token).1 (l.clear token).2)
      (.ok (l'.clear token).1 (l'.clear token).2)
    rw [hdelta]
    exact .ok _ hnext

end Ledger

def Program.headed (capacity : UInt16) (body : List UInt8) : List UInt8 :=
  bigEndian 2 capacity.toNat ++ body

theorem readUInt16_headed (capacity : UInt16) (body : List UInt8) :
    Cursor.readUInt16.run (.start (Program.headed capacity body)) =
      .ok capacity ⟨Program.headed capacity body, 2⟩ := by
  have hheader : UInt16.ofNat (ofBigEndian (bigEndian 2 capacity.toNat)) = capacity := by
    rw [ofBigEndian_bigEndian_of_lt capacity.toNat_lt, UInt16.ofNat_toNat]
  have hfield : field (Program.headed capacity body) 0 2 = .ok (bigEndian 2 capacity.toNat) := by
    have hlength : (Program.headed capacity body).length = 2 + body.length := by
      simp [Program.headed]
    rw [field, if_neg (by omega), if_neg (by omega), List.drop_zero, Program.headed,
      List.take_left' (length_bigEndian 2 _)]
  simp only [Cursor.readUInt16, Cursor.take, Cursor.start, EStateM.run_bind, EStateM.run_get,
    hfield]
  change EStateM.Result.ok (UInt16.ofNat (ofBigEndian (bigEndian 2 capacity.toNat))) _ = _
  rw [hheader]

theorem alike_headed (capacity capacity' : UInt16) (body : List UInt8) :
    Cursor.Alike ⟨Program.headed capacity body, 2⟩ ⟨Program.headed capacity' body, 2⟩ := by
  refine ⟨rfl, by simp [Program.headed], ?_⟩
  rw [Program.headed, Program.headed, List.drop_left' (length_bigEndian 2 _),
    List.drop_left' (length_bigEndian 2 _)]

/-- Two executions that end alike, but for what their receipts say of the table. -/
inductive EndsAlike {σ : Type} (R : σ → σ → Prop) (capacity : Nat) :
    EStateM.Result Fault σ Receipt → EStateM.Result Fault σ Receipt → Prop
  | ok {s t : σ} (receipt : Receipt) (probes : Nat) (h : R s t) : EndsAlike R capacity
    (.ok receipt s) (.ok { receipt with ledgerCapacity := capacity, ledgerProbes := probes } t)
  | error {s t : σ} (fault : Fault) (h : R s t) : EndsAlike R capacity (.error fault s)
    (.error fault t)

theorem Context.endsAlike_close {σ : Type} {P : Engine → Prop} {m n : Nat} {c d : Context σ}
    (h : Abreast (Ledger.Resized m n) (World.Alike P) c d) (operations : Nat) :
    EndsAlike (fun c d => c.toWorld.Twins d.toWorld) n ((close operations).run c)
      ((close operations).run d) := by
  have hengine : d.engine = c.engine := h.world.engine_eq
  have hhost : d.host = c.host := h.world.host_eq
  have hcheck : d.ledger.checkSettled = c.ledger.checkSettled := h.ledger.checkSettled
  cases hsettled : c.ledger.checkSettled with
  | error fault =>
    obtain ⟨journal, hclose⟩ := close_unsettled hsettled operations
    obtain ⟨journal', hclose'⟩ := close_unsettled (hcheck.trans hsettled) operations
    rw [hclose, hclose']
    exact .error fault ⟨hengine, hhost⟩
  | ok =>
    rw [close_settled hsettled, close_settled (hcheck.trans hsettled), h.ledger.capacity',
      h.caller, h.released, h.events, h.overlay, hengine]
    exact .ok ⟨c.caller, operations, c.ledger.capacity, c.ledger.probes, c.released, c.events⟩ _
      ⟨rfl, hhost⟩

namespace World

variable {σ : Type} [Host σ]

theorem endsAlike_execute {w : World σ} {capacity capacity' : UInt16} (hpos : 1 ≤ capacity)
    (hle : capacity ≤ capacity') (caller : Address) (body : List UInt8) :
    (∃ slots w', (execute caller (Program.headed capacity body)).run w =
        .error (.ledgerFull slots) w') ∨
      EndsAlike Twins capacity'.toNat ((execute caller (Program.headed capacity body)).run w)
        ((execute caller (Program.headed capacity' body)).run w) := by
  cases hidle : w.engine.executing with
  | true =>
    rw [execute_refused hidle, execute_refused hidle]
    exact .inr (.error _ ⟨rfl, rfl⟩)
  | false =>
    have hpos : 0 < capacity.toNat := UInt16.le_iff_toNat_le.1 hpos
    have hle : capacity.toNat ≤ capacity'.toNat := UInt16.le_iff_toNat_le.1 hle
    obtain ⟨l, hl, hvalid, hcapacity, hzero⟩ := Ledger.exists_ofCapacity hpos
    obtain ⟨l', hl', hvalid', hcapacity', hzero'⟩ := Ledger.exists_ofCapacity (hpos.trans_le hle)
    have hledger : Ledger.Resized capacity.toNat capacity'.toNat l l' :=
      ⟨hvalid, hvalid', hcapacity, hcapacity', hzero'.trans hzero.symm⟩
    rw [execute_eq_interpret hidle (readUInt16_headed capacity body) hl,
      execute_eq_interpret hidle (readUInt16_headed capacity' body) hl']
    have hstart : Context.Abreast (Ledger.Resized capacity.toNat capacity'.toNat)
        (Alike (Running w.engine.book)) (w.begin caller l) (w.begin caller l') :=
      Context.abreast_start (.refl ⟨rfl, rfl⟩) rfl hledger caller
    rcases Context.follows_interpret (Ledger.pairing_resized hle)
      (coupling_running w.engine.book) (alike_headed capacity capacity' body) 0 _ _ hstart with
      ⟨_, c, ⟨slots, rfl⟩, hrun⟩ | hrun
    · rw [run_bind_of_error hrun]
      exact .inl ⟨slots, _, rfl⟩
    right
    rw [EStateM.run_bind, EStateM.run_bind]
    generalize (Context.interpret nestedRunner _ 0).run (w.begin caller l) = r at hrun
    generalize (Context.interpret nestedRunner _ 0).run (w.begin caller l') = r' at hrun
    cases hrun with
    | error fault h =>
      exact .error fault (h.world.twins.setExecuting false)
    | @ok c d n h =>
      dsimp only
      have hclose := Context.endsAlike_close h n
      generalize (Context.close n).run c = r at hclose
      generalize (Context.close n).run d = r' at hclose
      cases hclose with
      | error fault htwins => exact .error fault (htwins.setExecuting false)
      | ok receipt probes htwins => exact .ok receipt probes (htwins.setExecuting false)

/-- However the execution with the smaller ledger ends, unless it finds that full, the one with the
larger ledger ends alike. -/
theorem execution_independent_of_capacity (w : World σ) (caller : Address) (body : List UInt8)
    (capacity capacity' : UInt16) (hpos : 1 ≤ capacity) (hle : capacity ≤ capacity') :
    (∀ receipt w₁, (execute caller (Program.headed capacity body)).run w = .ok receipt w₁ →
      ∃ probes w₂, (execute caller (Program.headed capacity' body)).run w =
        .ok { receipt with ledgerCapacity := capacity'.toNat, ledgerProbes := probes } w₂ ∧
          w₂.engine = w₁.engine ∧ w₂.host = w₁.host) ∧
      ∀ fault w₁, (execute caller (Program.headed capacity body)).run w = .error fault w₁ →
        (∀ slots, fault ≠ .ledgerFull slots) →
          ∃ w₂, (execute caller (Program.headed capacity' body)).run w = .error fault w₂ ∧
            w₂.engine = w₁.engine ∧ w₂.host = w₁.host := by
  rcases endsAlike_execute (w := w) hpos hle caller body with ⟨slots, w', hfull⟩ | hends
  · constructor
    · intro receipt w₁ hrun
      rw [hfull] at hrun
      cases hrun
    · intro fault w₁ hrun hfault
      rw [hfull] at hrun
      cases hrun
      exact absurd rfl (hfault slots)
  · constructor
    · intro receipt w₁ hrun
      rw [hrun] at hends
      generalize (execute caller (Program.headed capacity' body)).run w = r at hends
      cases hends with
      | ok _ probes h => exact ⟨probes, _, rfl, h⟩
    · intro fault w₁ hrun _
      rw [hrun] at hends
      generalize (execute caller (Program.headed capacity' body)).run w = r at hends
      cases hends with
      | error _ h => exact ⟨_, rfl, h⟩

def escrowTwice : List UInt8 :=
  [Operation.deposit 1 5, .markReceived 1 .unbounded, .deposit 2 5,
    .markReceived 2 .unbounded].flatMap Operation.encode

theorem execution_independent_of_capacity_shared :
    ((1 : UInt16) ≤ 1 ∧ (1 : UInt16) ≤ 3) ∧
      (∃ receipt w₁ probes w₂,
        (execute 7 (Program.headed 1 escrowTwice)).run lender = .ok receipt w₁ ∧
        receipt.released = [(1, 5), (2, 5)] ∧
        (execute 7 (Program.headed 3 escrowTwice)).run lender =
          .ok { receipt with ledgerCapacity := 3, ledgerProbes := probes } w₂ ∧
        w₂.engine = w₁.engine ∧ w₂.host = w₁.host) ∧
      ∃ w₂, (execute 7 (Program.headed 3 (openDeposit.operations.flatMap Operation.encode))).run
        lender = .error (.unsettledBalances 1) w₂ := by
  have hle : (1 : UInt16) ≤ 3 := by decide
  refine ⟨⟨by decide, hle⟩, ?_, ?_⟩
  · obtain ⟨receipt, w₁, hrun, hreleased⟩ := exists_of_endsWith
      (show endsWith (fun receipt _ => decide (receipt.released = [(1, 5), (2, 5)]))
        ((execute 7 (Program.headed 1 escrowTwice)).run lender) = true by decide +kernel)
    obtain ⟨probes, w₂, hrun', halike⟩ :=
      (execution_independent_of_capacity lender 7 escrowTwice 1 3 (by decide) hle).1 receipt w₁ hrun
    exact ⟨receipt, w₁, probes, w₂, hrun, of_decide_eq_true hreleased, hrun', halike⟩
  · obtain ⟨fault, w₁, hrun, hfault⟩ := exists_of_faultsWith
      (show faultsWith (fun fault _ => decide (fault = .unsettledBalances 1))
        ((execute 7 (Program.headed 1
          (openDeposit.operations.flatMap Operation.encode))).run lender) = true by decide +kernel)
    obtain rfl := of_decide_eq_true hfault
    obtain ⟨w₂, hrun', -⟩ := (execution_independent_of_capacity lender 7 _ 1 3 (by decide) hle).2
      _ w₁ hrun nofun
    exact ⟨w₂, hrun'⟩

end World

end NetSettle
