import NetSettle.Proofs.Execution.Faults
import NetSettle.Proofs.Execution.Reachable

/-!
# Faults that cannot be reached

The ledger adds with a check for overflow, and so does all arithmetic of the pools. No check of this
kind can fail on an engine that came about by running programs. An operation changes two deltas, and
by less than `2 ^ 128` each, and takes a byte of the program at least: a program would have to be
longer than any that fits into memory to come near the limits of a delta. The pools have nothing
that overflows as long as they are sound and the fees are valid.
-/
namespace NetSettle

open Faulting

namespace Balances

variable {capacity : Nat} {token : Address} {delta : Delta} {b : Balances}

theorem natAbs_change_le (capacity : Nat) (token : Address) (delta : Delta) (b : Balances)
    (t : Address) :
    ((b.change capacity token delta).2 t).val.natAbs ≤ (b t).val.natAbs + delta.val.natAbs := by
  unfold change
  split
  · exact Nat.le_add_right _ _
  split
  · exact Nat.le_add_right _ _
  split
  · exact Nat.le_add_right _ _
  split
  · dsimp only
    rw [Function.update_apply]
    split
    · rename_i ht
      rw [ht]
      exact Int.natAbs_add_le _ _
    · exact Nat.le_add_right _ _
  · exact Nat.le_add_right _ _

theorem ordinary_of_refused {fault : Fault}
    (hroom : (b token).val.natAbs + delta.val.natAbs < 2 ^ 255)
    (h : (b.change capacity token delta).1 = .refused fault) : fault.Ordinary := by
  unfold change at h
  split at h
  · cases h
    trivial
  split at h
  · cases h
  split at h
  · cases h
    trivial
  split at h
  · cases h
  · rename_i hfits
    exact absurd (by omega) hfits

end Balances

namespace Ledger

/-- No delta would come to `2 ^ 192` by `k` changes more. -/
structure Slack (k : Nat) (l : Ledger) : Prop where
  valid : l.Valid
  delta : ∀ t, (l.deltaOf t).val.natAbs + k * 2 ^ 128 < 2 ^ 192

theorem Slack.answer {k k' : Nat} {l : Ledger} (h : l.Slack k) (call : Call)
    (hideal : ∀ t, ((Balances.answer l.capacity call l.deltaOf).2 t).val.natAbs + k' * 2 ^ 128 ≤
      (l.deltaOf t).val.natAbs + k * 2 ^ 128) : (l.answer call).2.Slack k' := by
  obtain ⟨-, hvalid, -, hdelta⟩ := h.valid.answer call
  rw [← hdelta] at hideal
  exact ⟨hvalid, fun t => (hideal t).trans_lt (h.delta t)⟩

theorem ends_change_slack {E : Fault → Prop} (hordinary : ∀ fault, Fault.Ordinary fault → E fault)
    {k : Nat} (token : Address) {delta : Delta} (hdelta : delta.val.natAbs < 2 ^ 128) :
    Ends (Slack (k + 1)) (change token delta) (Slack k) fun fault l => E fault ∧ Slack k l := by
  intro l hl
  have hnext : (l.answer (.change token delta)).2.Slack k := by
    refine hl.answer (.change token delta) fun t => ?_
    have hchange := Balances.natAbs_change_le l.capacity token delta l.deltaOf t
    simp only [Balances.answer]
    omega
  have hreply := (hl.valid.answer_change token delta).1
  simp only [Ledger.answer] at hnext hreply
  cases hrun : (change token delta).run l with
  | ok _ l' =>
    rw [hrun] at hnext
    exact hnext
  | error fault l' =>
    rw [hrun] at hnext hreply
    have hroom := hl.delta token
    exact ⟨hordinary fault (Balances.ordinary_of_refused (by omega) hreply.symm), hnext⟩

theorem roomy_slack {E : Fault → Prop} (hordinary : ∀ fault, Fault.Ordinary fault → E fault) :
    Roomy Slack E where
  less h := ⟨h.valid, fun t => (Nat.add_le_add_left
    (Nat.mul_le_mul_right _ (Nat.le_succ _)) _).trans_lt (h.delta t)⟩
  change token _ hdelta := ends_change_slack hordinary token hdelta
  balance token h := h.answer (.get token) fun _ => Nat.le_refl _
  clear token h := by
    refine h.answer (.reset token) fun t => ?_
    simp only [Balances.answer, Function.update_apply]
    split
    · exact Nat.add_le_add_right (Nat.zero_le _) _
    · exact Nat.le_refl _

theorem slack_of_ofCapacity {capacity k : Nat} {l : Ledger} (h : ofCapacity capacity = .ok l)
    (hk : k < 2 ^ 64) : l.Slack k := by
  obtain ⟨hvalid, -, hzero⟩ := of_ofCapacity h
  refine ⟨hvalid, fun t => ?_⟩
  rw [hzero, Delta.val_zero]
  omega

end Ledger

structure Cursor.Inside (c : Cursor) : Prop where
  length : c.data.length < 2 ^ 63
  offset : c.offset ≤ c.data.length

theorem ends_take_inside (width : Nat) (h : width ≤ maxFieldWidth) :
    Ends Cursor.Inside (Cursor.take width) Cursor.Inside fun fault _ => fault.Ordinary := by
  have hwidth : width ≤ 32 := h
  intro c hc
  have hlength := hc.length
  have hoffset := hc.offset
  simp only [Cursor.take, EStateM.run_bind, EStateM.run_get, field]
  rw [if_neg (show ¬ 2 ^ 64 ≤ c.offset + width by omega)]
  by_cases hshort : c.data.length < c.offset + width
  · rw [if_pos hshort]
    trivial
  · rw [if_neg hshort]
    exact ⟨hlength, Nat.not_lt.1 hshort⟩

theorem ordinary_decodeOperations {c : Cursor} (h : c.Inside) :
    Refuses Fault.Ordinary (decodeOperations c) := by
  have hends : Ends Cursor.Inside Operation.decode Cursor.Inside fun fault _ => fault.Ordinary :=
    (assembled_decode (Q := Fault.Ordinary) trivial fun _ => trivial).ends ends_take_inside
  induction c using Cursor.reading_induction with
  | ended c hend =>
    rw [decodeOperations_atEnd hend]
    exact .ok []
  | failed c fault _ hend hdecode =>
    rw [decodeOperations_failed hend hdecode]
    exact .error (hends.of_error h hdecode)
  | decoded c op next hend hdecode ih =>
    rw [decodeOperations_decoded hend hdecode]
    exact .bind (ih (hends.of_ok h hdecode)) fun _ => .ok _

namespace Context

variable {σ : Type} {book : PoolBook} {c c' : Context σ} {op : Operation} {ops : List Operation}

structure Regular (book : PoolBook) (c : Context σ) : Prop where
  tended : c.Tended book
  fees : c.fees.validate = .ok ()

def EmptySwap (c : Context σ) (op : Operation) : Prop :=
  ∃ token0 token1 direction amount, op = .swap token0 token1 direction amount ∧
    (c.overlay.pool c.engine.book ⟨token0, token1⟩).totalShares = 0

variable [Host σ] {nested : Runner σ}

/-- Operations of which the first that is not performed is a swap with a pool that has no shares,
and misses the pool. -/
inductive SwapsEmpty (nested : Runner σ) : Context σ → List Operation → Prop
  | here {c c' : Context σ} {op : Operation} {ops : List Operation} (hempty : c.EmptySwap op)
      (hrun : (perform nested op).run c = .error .poolNotInitialized c') :
      SwapsEmpty nested c (op :: ops)
  | later {c c' : Context σ} {op : Operation} {ops : List Operation}
      (hrun : (perform nested op).run c = .ok () c') (h : SwapsEmpty nested c' ops) :
      SwapsEmpty nested c (op :: ops)

variable (hbook : book.All fun pair p => p.pair = pair ∧ p.Sound)

include hbook

omit [Host σ] in
theorem Regular.sound (h : c.Regular book) {pair : Pair} (hpos : 0 < pair.token0)
    (hlt : pair.token0 < pair.token1) : (c.overlay.pool c.engine.book pair).Sound := by
  rw [h.tended.1.2.1]
  exact (Overlay.all_pool h.tended.2 hbook ⟨rfl, Pool.sound_fresh hpos hlt⟩).2

theorem ends_perform (nested : Runner σ) (op : Operation) (h : c.Regular book) {k : Nat}
    (hslack : c.ledger.Slack (k + 2)) :
    Ends (fun d => d = c) (perform nested op) (fun d => d.ledger.Slack k) fun fault d =>
      (fault.Ordinary ∨ fault = .poolNotInitialized ∧ c.EmptySwap op) ∧ d.ledger.Slack 0 := by
  have hground : Grounded
      (fun d : Context σ => d.Regular book ∧ d.overlay = c.overlay ∧ d.engine = c.engine)
      fun fault => fault.Ordinary ∨ fault = .poolNotInitialized ∧ c.EmptySwap op := {
    ledger := fun l hd => ⟨⟨hd.1.tended, hd.1.fees⟩, hd.2⟩
    addLiquidity := fun hd hpos hlt hrun =>
      .inl (Pool.addLiquidity_fault (hd.1.sound hbook hpos hlt) hrun)
    removeLiquidity := fun hd hpos hlt hrun =>
      .inl (Pool.removeLiquidity_fault (hd.1.sound hbook hpos hlt) hrun) }
  refine (spends_perform (k := k) (Ledger.roomy_slack fun _ => .inl) (fun _ => .inl) hground nested
    op ?_).mono ?_ fun _ => id
  · rintro token0 token1 direction amount hop d direction' amountIn fault p
      ⟨hd, hoverlay, hengine⟩ hpos hlt hrun
    refine (Pool.swap_fault (hd.sound hbook hpos hlt) hd.fees hrun).imp_right fun hempty => ?_
    rw [hoverlay, hengine] at hempty
    exact ⟨hempty.1, token0, token1, direction, amount, hop, hempty.2⟩
  · rintro _ rfl
    exact ⟨⟨h, rfl, rfl⟩, hslack⟩

variable (hnested : World.Steady (Engine.Busy book) nested)

include hnested

theorem Regular.effect {es : List Event} (h : c.Regular book) (he : Effect nested op c c' es) :
    c'.Regular book :=
  ⟨h.tended.effect hbook hnested he, he.fees ▸ h.fees⟩

theorem ends_performAll (h : c.Regular book) {k : Nat}
    (hslack : c.ledger.Slack (2 * ops.length + k)) :
    Ends (fun d => d = c) (performAll nested ops) (fun d => d.ledger.Slack k) fun fault d =>
      (fault.Ordinary ∨ fault = .poolNotInitialized ∧ SwapsEmpty nested c ops) ∧
        d.ledger.Slack 0 := by
  intro d hd
  rw [hd]
  clear hd
  induction ops generalizing c with
  | nil =>
    rw [List.length_nil, Nat.mul_zero, Nat.zero_add] at hslack
    exact hslack
  | cons op ops ih =>
    have hlength : 2 * (op :: ops).length + k = 2 * ops.length + k + 2 := by
      rw [List.length_cons]
      omega
    have hop := ends_perform hbook nested op h (hlength ▸ hslack)
    rw [performAll]
    cases hrun : (perform nested op).run c with
    | error fault c₁ =>
      rw [run_bind_of_error hrun]
      obtain ⟨hfault, hspent⟩ := hop.of_error rfl hrun
      refine ⟨hfault.imp_right ?_, hspent⟩
      rintro ⟨rfl, hempty⟩
      exact ⟨rfl, .here hempty hrun⟩
    | ok _ c₁ =>
      rw [run_bind_of_ok hrun]
      obtain ⟨es, heffect⟩ := perform_eq_ok hrun
      have hrest := ih (h.effect hbook hnested heffect) (hop.of_ok rfl hrun)
      cases hrun' : (performAll nested ops).run c₁ with
      | ok _ c₂ =>
        rw [hrun'] at hrest
        exact hrest
      | error fault c₂ =>
        rw [hrun'] at hrest
        exact ⟨hrest.1.imp_right fun hempty => ⟨hempty.1, .later hrun hempty.2⟩, hrest.2⟩

end Context

namespace World

open Context (performAll)

variable {σ : Type} [Host σ] {w : World σ} {caller : Address} {data : List UInt8}

omit [Host σ] in
theorem regular_begin (h : w.engine.WellFormed) (caller : Address) (ledger : Ledger) :
    (w.begin caller ledger).Regular w.engine.book :=
  ⟨⟨⟨rfl, rfl, h.fees⟩, SortedMap.all_empty _⟩, h.fees⟩

theorem inside_of_readUInt16 {capacity : UInt16} {cursor : Cursor} (hdata : data.length < 2 ^ 63)
    (hread : Cursor.readUInt16.run (.start data) = .ok capacity cursor) : cursor.Inside :=
  ((assembled_readUInt16 (Q := Fault.Ordinary)).ends ends_take_inside).of_ok
    (Cursor.Inside.mk hdata (Nat.zero_le _)) hread

theorem ordinary_of_unopened {fault : Fault} (hdata : data.length < 2 ^ 63)
    (h : Unopened data fault) : fault.Ordinary := by
  rcases h with ⟨_, hread⟩ | ⟨_, _, -, hledger⟩
  · exact ((assembled_readUInt16 (Q := Fault.Ordinary)).ends ends_take_inside).of_error
      (Cursor.Inside.mk hdata (Nat.zero_le _)) hread
  · exact ordinary_ofCapacity fault hledger

theorem ends_operations (caller : Address) (h : w.engine.WellFormed)
    (hdata : data.length < 2 ^ 63) {capacity : UInt16} {cursor : Cursor} {ledger : Ledger}
    (hread : Cursor.readUInt16.run (.start data) = .ok capacity cursor)
    (hledger : Ledger.ofCapacity capacity.toNat = .ok ledger) {ops : List Operation}
    (hops : ops.length ≤ (readableOperations cursor).length) :
    Ends (fun c => c = w.begin caller ledger) (performAll nestedRunner ops)
      (fun c => c.ledger.Slack 0) fun fault c =>
      (fault.Ordinary ∨ fault = .poolNotInitialized ∧
        Context.SwapsEmpty nestedRunner (w.begin caller ledger) ops) ∧ c.ledger.Slack 0 := by
  have hlength := (inside_of_readUInt16 hdata hread).length
  have hbytes : (readableOperations cursor).length ≤ cursor.data.length :=
    (length_readableOperations_le cursor).trans (Nat.sub_le ..)
  have hslack : ledger.Slack (2 * ops.length + 0) :=
    Ledger.slack_of_ofCapacity hledger (by omega)
  exact Context.ends_performAll h.pools (steady_nestedRunner fun _ h => h.1)
    (regular_begin h caller ledger) hslack

/-- What an execution faults with is ordinary, unless there is one already or a swap finds no
pool. -/
theorem fault_of_execute {w' : World σ} {fault : Fault} (h : w.engine.WellFormed)
    (hdata : data.length < 2 ^ 63) (hrun : (execute caller data).run w = .error fault w') :
    fault.Ordinary ∨ fault = .reentrancy ∨ fault = .poolNotInitialized ∧
      ∃ capacity cursor ledger, Cursor.readUInt16.run (.start data) = .ok capacity cursor ∧
        Ledger.ofCapacity capacity.toNat = .ok ledger ∧
        Context.SwapsEmpty nestedRunner (w.begin caller ledger) (readableOperations cursor) := by
  have hended := ended_execute w caller data
  rw [hrun] at hended
  cases hended with
  | refused => exact .inr (.inl rfl)
  | unopened hunopened => exact .inl (ordinary_of_unopened hdata hunopened)
  | unsettled _ _ _ hopen => exact .inl (ordinary_checkSettled fault hopen)
  | @faulted capacity cursor ledger _ c hread hledger hinterpret =>
    have hmatches := interpret_matches_readable w caller ledger cursor
    rw [hinterpret] at hmatches
    obtain ⟨d, hreadable, -⟩ := hmatches.right_of_error
    rcases Context.performReadable_eq_error hreadable with hperform | hdecode
    · have hends := ends_operations caller h hdata hread hledger (Nat.le_refl _)
      rcases (hends.of_error rfl hperform).1 with hfault | ⟨rfl, hempty⟩
      · exact .inl hfault
      · exact .inr (.inr ⟨rfl, capacity, cursor, ledger, hread, hledger, hempty⟩)
    · exact .inl (ordinary_decodeOperations (inside_of_readUInt16 hdata hread) fault hdecode)

/-- On a reachable engine no execution faults with an overflow, with invalid fees or with the width
of a field. It finds a pool without shares only by a swap with that pool. After any number of its
operations, and where one of them faults, every delta is below `2 ^ 192`; two tokens of an operation
differ, so that between the changes of an operation each delta is what it was or what it will be. -/
theorem arithmetic_faults_unreachable (w : World σ) (caller : Address) (data : List UInt8)
    (hreachable : w.engine.Reachable) (hdata : data.length < 2 ^ 63) :
    (∀ fault w', (execute caller data).run w = .error fault w' →
      fault ≠ .overflow ∧ (∀ problem, fault ≠ .invalidFeeSettings problem) ∧
      (∀ width, fault ≠ .invalidFieldWidth width) ∧
      (fault = .poolNotInitialized → ∃ capacity cursor ledger,
        Cursor.readUInt16.run (.start data) = .ok capacity cursor ∧
        Ledger.ofCapacity capacity.toNat = .ok ledger ∧
        Context.SwapsEmpty nestedRunner (w.begin caller ledger) (readableOperations cursor))) ∧
      ∀ capacity cursor ledger, Cursor.readUInt16.run (.start data) = .ok capacity cursor →
        Ledger.ofCapacity capacity.toNat = .ok ledger →
        ∀ ops, ops <+: readableOperations cursor → ∀ t,
          ((finalState ((performAll nestedRunner ops).run
            (w.begin caller ledger))).ledger.deltaOf t).val.natAbs < 2 ^ 192 := by
  have hwell := hreachable.wellFormed
  constructor
  · intro fault w' hrun
    rcases fault_of_execute hwell hdata hrun with hfault | rfl | ⟨rfl, hempty⟩
    · refine ⟨?_, ?_, ?_, ?_⟩
      · rintro rfl
        exact hfault
      · rintro _ rfl
        exact hfault
      · rintro _ rfl
        exact hfault
      · rintro rfl
        exact hfault.elim
    · exact ⟨nofun, nofun, nofun, nofun⟩
    · exact ⟨nofun, nofun, nofun, fun _ => hempty⟩
  · intro capacity cursor ledger hread hledger ops hle t
    have hends := ends_operations caller hwell hdata hread hledger hle.length_le
    have hslack : (finalState ((performAll nestedRunner ops).run
        (w.begin caller ledger))).ledger.Slack 0 := by
      cases hrun : (performAll nestedRunner ops).run (w.begin caller ledger) with
      | ok _ c => exact hends.of_ok rfl hrun
      | error fault c => exact (hends.of_error rfl hrun).2
    exact (Nat.le_add_right _ _).trans_lt (hslack.delta t)

def emptySwap : Program := ⟨1, [.swap 1 2 .zeroForOne (.exact 5)]⟩

theorem arithmetic_faults_unreachable_emptySwap :
    lender.engine.Reachable ∧ emptySwap.encode.length < 2 ^ 63 ∧
      (∃ w', (execute 7 emptySwap.encode).run lender = .error .poolNotInitialized w') ∧
      ∃ capacity cursor ledger,
        Cursor.readUInt16.run (.start emptySwap.encode) = .ok capacity cursor ∧
        Ledger.ofCapacity capacity.toNat = .ok ledger ∧
        Context.SwapsEmpty nestedRunner (lender.begin 7 ledger) (readableOperations cursor) := by
  have hcreate : Engine.create 9 8 .standard = .ok lender.engine := by decide +kernel
  have hlength : emptySwap.encode.length < 2 ^ 63 := by decide +kernel
  obtain ⟨fault, w', hrun, hfault⟩ := exists_of_faultsWith
    (show faultsWith (fun fault _ => decide (fault = .poolNotInitialized))
      ((execute 7 emptySwap.encode).run lender) = true by decide +kernel)
  obtain rfl := of_decide_eq_true hfault
  obtain ⟨hfaults, -⟩ := arithmetic_faults_unreachable lender 7 emptySwap.encode (.create hcreate)
    hlength
  obtain ⟨-, -, -, hempty⟩ := hfaults .poolNotInitialized w' hrun
  exact ⟨.create hcreate, hlength, ⟨w', hrun⟩, hempty rfl⟩

end World

end NetSettle
