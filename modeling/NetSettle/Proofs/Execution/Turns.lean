import NetSettle.Proofs.Bank
import NetSettle.Proofs.Execution.Requests

/-!
# Programs in turn

On a bank an execution leaves everything of the engine as it was but its pools, and a failed one
leaves these as well: a bank makes no calls. So programs that run in turn, by a clock
and with the bank put back after a failure, pass on the pools and the bank and nothing else.
-/
namespace NetSettle

namespace Context

variable {nested : Runner Bank}

theorem Contact.keepsEngine {op : Operation} {c : Context Bank} {es : List Event} {e : Engine}
    {host : Bank} (h : Contact nested op c es e host) :
    e = c.engine ∧ host.engine = c.host.engine := by
  have hkept {work : EStateM HostFault Bank Unit} {b : Bank}
      (hkeeps : Keeps (fun b => b.engine = c.host.engine) work)
      (hrun : work.run c.host = .ok () b) : b.engine = c.host.engine := by
    have hfinal := hkeeps c.host rfl
    rw [hrun] at hfinal
    exact hfinal
  cases h with
  | none => exact ⟨rfl, rfl⟩
  | sendOut _ _ _ hrun =>
    obtain ⟨b, hmoved, rfl⟩ := Bank.run_ofRun_eq_ok.1 hrun
    exact ⟨rfl, hkept Bank.sendOut_keepsEngine hmoved⟩
  | pullIn _ _ hrun =>
    obtain ⟨b, hmoved, rfl⟩ := Bank.run_ofRun_eq_ok.1 hrun
    exact ⟨rfl, hkept Bank.pullIn_keepsEngine hmoved⟩
  | grantPermit _ _ hrun =>
    obtain ⟨b, hmoved, rfl⟩ := Bank.run_ofRun_eq_ok.1 hrun
    exact ⟨rfl, hkept Bank.grantPermit_keepsEngine hmoved⟩
  | settled _ _ hbefore hrun hafter =>
    cases hbefore
    cases hafter
    rw [Bank.serve_settle] at hrun
    cases hrun
    exact ⟨rfl, Bank.engine_settle ..⟩

structure Hosted (e : Engine) (address : Address) (c : Context Bank) : Prop where
  engine : c.engine = e
  address : c.host.engine = address
  keyed : Keyed c.overlay.touched

theorem Hosted.effect {e : Engine} {address : Address} (hbook : Keyed e.book) {op : Operation}
    {c c' : Context Bank} {es : List Event} (h : c.Hosted e address)
    (he : Effect nested op c c' es) : c'.Hosted e address := by
  obtain ⟨rfl, rfl, hkeyed⟩ := h
  obtain ⟨hengine, haddress⟩ := he.outside.keepsEngine
  exact ⟨hengine, haddress, he.overlay.keyed hbook hkeyed⟩

end Context

namespace World

variable {w w' : World Bank} {caller : Address} {data : List UInt8}

theorem hosted_of_executed {receipt : Receipt} (hkeyed : Keyed w.engine.book)
    (hrun : (execute caller data).run w = .ok receipt w') :
    w'.engine = { w.engine with book := w'.engine.book, executing := false } ∧
      w'.host.engine = w.host.engine ∧ Keyed w'.engine.book := by
  obtain ⟨p, ledger, c, hcommitted⟩ := execute_eq_ok hrun
  have hstart : (w.begin caller ledger).Hosted { w.engine with executing := true }
      w.host.engine := ⟨rfl, rfl, SortedMap.all_empty _⟩
  have hbook : Keyed { w.engine with executing := true }.book := hkeyed
  obtain ⟨hengine, haddress, htouched⟩ := Context.performAll_induction
    (fun _ _ _ _ _ hc he => hc.effect hbook he) hcommitted.performed hstart
  have hwritten : w'.engine.book = c.overlay.commitTo w.engine.book := by
    rw [hcommitted.engine, hengine]
  refine ⟨?_, ?_, ?_⟩
  · rw [hwritten, hcommitted.engine, hengine]
  · rw [hcommitted.host, haddress]
  · rw [hwritten]
    exact Overlay.all_commitTo htouched htouched hkeyed

theorem engine_of_failed {fault : Fault} (hidle : w.engine.executing = false)
    (hrun : (execute caller data).run w = .error fault w') : w'.engine = w.engine := by
  obtain rfl | ⟨e, rfl, he⟩ :=
    execute_eq_error (P := fun e => e = { w.engine with executing := true })
      (fun u request _ hu => (Bank.serve_engine _ u request).trans hu) rfl hrun
  · rfl
  · rw [he, ← hidle]

def setClock (w : World Bank) (now : UInt64) : World Bank :=
  { w with host := { w.host with now := now } }

theorem Twins.setClock {v : World Bank} (h : w.Twins v) (now : UInt64) :
    Twins (w.setClock now) (v.setClock now) :=
  ⟨h.1, congrArg (fun b : Bank => { b with now := now }) h.2⟩

/-- Runs a program by a clock, and puts the bank back as it was if the program fails. -/
def turn (now : UInt64) (w : World Bank) (run : Address × List UInt8) : World Bank :=
  match (execute run.1 run.2).run (w.setClock now) with
  | .ok _ w' => w'
  | .error _ w' => { w' with host := w.host }

theorem Twins.turn_of_executed {v v' : World Bank} {now : UInt64} {receipt : Receipt}
    (h : Twins w v) (hrun : (execute caller data).run (v.setClock now) = .ok receipt v') :
    Twins (turn now w (caller, data)) v' := by
  have hmatches := execute_twins (h.setClock now) caller data
  rw [hrun] at hmatches
  obtain ⟨w', hturn, htwins⟩ := hmatches.left_of_ok
  rwa [turn, hturn]

theorem Twins.turn_of_failed {v v' : World Bank} {now : UInt64} {fault : Fault} (h : Twins w v)
    (hidle : w.engine.executing = false)
    (hrun : (execute caller data).run (v.setClock now) = .error fault v') :
    Twins (turn now w (caller, data)) v := by
  have hmatches := execute_twins (h.setClock now) caller data
  rw [hrun] at hmatches
  obtain ⟨w', hturn, -⟩ := hmatches.left_of_error
  have hkept : w'.engine = w.engine :=
    engine_of_failed (w := w.setClock now) hidle hturn
  rw [turn, hturn]
  exact ⟨h.1.trans hkept.symm, h.2⟩

def turns (now : UInt64) (runs : List (Address × List UInt8)) (w : World Bank) : World Bank :=
  runs.foldl (turn now) w

theorem turns_append (now : UInt64) (before after : List (Address × List UInt8))
    (w : World Bank) : turns now (before ++ after) w = turns now after (turns now before w) :=
  List.foldl_append

end World

end NetSettle
