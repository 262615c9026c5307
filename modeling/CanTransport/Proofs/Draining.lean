import CanTransport.Proofs.Correlation

/-! # What is left in the controller

A controller keeps the outcomes that it has to report in a queue. When a station settles its
accounts it takes them out one by one, each for the oldest entry that still lacks one, and stops at
the first that no entry can take, which is lost. Outcomes behind that one stay where they are, and
frames written later may be given them.
-/
namespace CanTransport

/-- Gives out outcomes as long as entries lack one. -/
def Outbox.recordAll (o : Outbox) : List Ack → Outbox
  | [] => o
  | ack :: rest => ((o.record? ack).getD o).recordAll rest

theorem Outbox.recordAll_of_resolved {o : Outbox} (h : o.unresolvedCount = 0)
    (outcomes : List Ack) :
    o.recordAll outcomes = o := by
  induction outcomes with
  | nil => rfl
  | cons ack rest ih => rw [recordAll, record?_eq_none.mpr h, Option.getD_none, ih]

/-- Locks, the station and the clock are no business of the controller. -/
def Query.isInward : Query → Bool
  | acquire _ | release _ | access _ | now => true
  | isActive | available | read | write _ _ | outcome | notify _ _ => false

def Program.Inward {α : Type} : Action α → Prop
  | .done _ => True
  | .ask q next => q.isInward = true ∧ ∀ a, (next a).Inward

section Inward
open CanTransport.Action CanTransport.Station
variable {α β : Type}

theorem inward_bind {p : Action α} {f : α → Action β} (hp : p.Inward) (hf : ∀ a, (f a).Inward) :
    Program.Inward (p.bind f) := by
  induction p with
  | done a => exact hf a
  | ask q next ih => exact ⟨hp.1, fun a => ih a (hp.2 a)⟩

theorem inward_withLock {lock : Lock} {body : Action α} (hb : body.Inward) :
    (withLock lock body).Inward := by
  refine inward_bind ⟨rfl, fun _ => trivial⟩ fun had => ?_
  cases had with
  | true => exact inward_bind hb fun _ => inward_bind ⟨rfl, fun _ => trivial⟩ fun _ => trivial
  | false => exact trivial

theorem inward_now : now.Inward := ⟨rfl, fun _ => trivial⟩

theorem inward_modify (change : Station → Station) :
    (modify change).Inward := ⟨rfl, fun _ => trivial⟩

theorem inward_modifyGet (change : Station → α × Station) : (modifyGet change).Inward :=
      ⟨rfl, fun _ => trivial⟩

theorem inward_get : get.Inward := ⟨rfl, fun _ => trivial⟩

theorem inward_deliverEntry (e : OutboxEntry) : (deliverEntry e).Inward := by
  refine inward_bind inward_get fun s => ?_
  split
  · refine inward_bind (inward_bind (inward_withLock ?_) fun _ => trivial) fun _ => trivial
    exact inward_bind inward_now fun clock => inward_modify _
  · exact trivial

theorem inward_deliverNext : deliverNext.Inward := by
  refine inward_bind (inward_withLock (inward_bind inward_now fun clock => inward_modifyGet _))
    fun entry => ?_
  split
  · exact trivial
  · exact inward_bind (inward_deliverEntry _) fun _ => trivial

theorem inward_deliverUpTo (fuel : Nat) : (deliverUpTo fuel).Inward := by
  induction fuel with
  | zero => exact trivial
  | succ fuel ih =>
    refine inward_bind inward_deliverNext fun delivered => ?_
    cases delivered with
    | none => exact trivial
    | some delivered => exact inward_bind ih fun _ => trivial

theorem inward_deliver : deliver.Inward := inward_bind inward_get fun _ => inward_deliverUpTo _

end Inward

/-- The controller reports the outcomes of a queue in their order. -/
structure Device.Reports {δ : Type} (w : Device δ) (queue : δ → List Ack) : Prop where
  now : ∀ d, queue (w.now d).2 = queue d
  outcome : ∀ d, (w.outcome d).1 = (queue d).head? ∧ queue (w.outcome d).2 = (queue d).tail

namespace LoneStation
open CanTransport.Action CanTransport.Station
variable {α δ : Type} {w : Device δ} {queue : δ → List Ack} {x : LoneStation δ}

theorem queue_run {p : Action α} (hw : w.Reports queue) (hp : p.Inward) (x : LoneStation δ) :
    queue (p.run w.alone x).2.device = queue x.device := by
  induction p generalizing x with
  | done a => rfl
  | ask q next ih =>
    refine (ih _ (hp.2 _) _).trans ?_
    cases q with
    | acquire lock =>
      change queue
        (if lock ∈ x.scene.held then (false, x.miss lock) else (true, x.lock lock)).2.device = _
      split
      · dsimp only [miss]
        split <;> rfl
      · rfl
    | release | access => rfl
    | now => exact hw.now x.device
    | _ => cases hp.1

/-- One outcome is taken out of the queue, and the oldest entry without one has it, if there is such
an entry. -/
theorem run_poll (hw : w.Reports queue) (hfree : .outbox ∉ x.scene.held) :
    (pollOutcome.run w.alone x).1 = ((queue x.device).head?.bind x.station.outbox.record?).isSome ∧
      (pollOutcome.run w.alone x).2.scene.held = x.scene.held ∧
      queue (pollOutcome.run w.alone x).2.device = (queue x.device).tail ∧
      (pollOutcome.run w.alone x).2.station.outbox =
      x.station.outbox.recordAll (queue x.device).head?.toList := by
  rw [run_pollOutcome_eq hfree, (hw.outcome x.device).1]
  cases (queue x.device).head? with
  | none => exact ⟨rfl, rfl, (hw.outcome x.device).2, rfl⟩
  | some ack =>
    refine ⟨?_, rfl, (hw.outcome x.device).2, ?_⟩
    · change (x.station.record ack).1 = (x.station.outbox.record? ack).isSome
      unfold Station.record
      cases x.station.outbox.record? ack <;> rfl
    · exact congrArg Station.outbox (record_outbox x.station ack)

theorem run_drainUpTo (hw : w.Reports queue) {fuel : Nat} (hfree : .outbox ∉ x.scene.held)
    (hfuel : x.station.outbox.unresolvedCount < fuel) :
    queue ((drainUpTo fuel).run w.alone x).2.device =
      (queue x.device).drop (x.station.outbox.unresolvedCount + 1) ∧
      ((drainUpTo fuel).run w.alone x).2.station.outbox = x.station.outbox.recordAll
      (queue x.device) := by
  induction fuel generalizing x with
  | zero => omega
  | succ fuel ih =>
    obtain ⟨htaken, hheld, hqueue, hbox⟩ := run_poll hw hfree
    rw [drainUpTo, Program.bind_eq, Program.run_bind, htaken]
    generalize (pollOutcome.run w.alone x).2 = y at hheld hqueue hbox ⊢
    cases ho : queue x.device with
    | nil =>
      rw [ho] at hqueue hbox
      exact ⟨hqueue, hbox⟩
    | cons ack rest =>
      rw [ho] at hqueue hbox
      cases hr : x.station.outbox.record? ack with
      | none =>
        have hnone := Outbox.record?_eq_none.mp hr
        rw [List.head?_cons, Option.bind_some, hr, hnone, Outbox.recordAll_of_resolved hnone]
        exact ⟨hqueue, hbox.trans (Outbox.recordAll_of_resolved hnone _)⟩
      | some outbox =>
        have hcount := Outbox.unresolvedCount_record hr
        have hbox : y.station.outbox = outbox := by
          rw [hbox, List.head?_cons, Option.toList_some, Outbox.recordAll, hr]
          rfl
        have hfuel : y.station.outbox.unresolvedCount < fuel := by
          rw [hbox]
          omega
        rw [List.head?_cons, Option.bind_some, hr, Outbox.recordAll, hr, Option.getD_some,
          ← hcount, List.drop_succ_cons]
        obtain ⟨hleft, hgiven⟩ := ih (x := y) (by rwa [hheld]) hfuel
        rw [hqueue, hbox] at hleft hgiven
        exact ⟨hleft, hgiven⟩

/-- Whatever entries there are, and however many outcomes: one more outcome than there are entries
without one is taken out of the controller, as far as there are so many. The entries have theirs in
order, the one more is lost, and the others stay. -/
theorem settle_leaves (hw : w.Reports queue) (hfree : .outbox ∉ x.scene.held) :
    queue (settle.run w.alone x).2.device =
      (queue x.device).drop (x.station.outbox.unresolvedCount + 1) ∧
      (drain.run w.alone x).2.station.outbox = x.station.outbox.recordAll (queue x.device) := by
  have hget : get.run w.alone x = (x.station, x) := run_get w _ x
  have hdrain : drain.run w.alone x = (drainUpTo (x.station.outbox.unresolvedCount + 1)).run w.alone
      x := by
    rw [drain, Program.bind_eq, Program.run_bind, hget]
  obtain ⟨hleft, hgiven⟩ := run_drainUpTo hw hfree (Nat.lt_succ_self _)
  rw [← hdrain] at hleft hgiven
  refine ⟨?_, hgiven⟩
  rw [settle, Program.bind_eq, Program.run_bind, ← hleft]
  exact queue_run hw inward_deliver _

theorem reports_scripted : Session.scripted.Reports id := ⟨fun _ => rfl, fun _ => ⟨rfl, rfl⟩⟩

def outnumbered : LoneStation (List Ack) where
  scene :=
    { station :=
        { settings := { source := 0xF1 }
          budget := ⟨1000⟩
          outbox := [{ address := .physical 0x10 0xF1, writer := none, detachedAt := some 0 }] } }
  device := [.success, .failure, .failure, .success]

theorem settle_leaves_outnumbered : .outbox ∉ outnumbered.scene.held ∧
    (settle.run Session.scripted.alone outnumbered).2.device = [.failure, .success] := by
  have free : .outbox ∉ outnumbered.scene.held := nofun
  exact ⟨free, (settle_leaves reports_scripted free).1⟩

def unasked : LoneStation (List Ack) where
  scene := { station := { settings := { source := 0xF1 }, budget := ⟨1000⟩ } }
  device := [.failure, .failure]

/-- A station that settles its accounts may leave an outcome in the controller, and a frame that it
writes after that is then credited with it. -/
theorem settle_not_exhaustive :
    (¬∀ x : LoneStation (List Ack), .outbox ∉ x.scene.held →
      (settle.run Session.scripted.alone x).2.device = []) ∧
      (((settle.bind fun _ => send 0 (.physical 0x10 0xF1)
        (Pdu.flowControl (.physical 0x10 0xF1) .wait 0 .zero)).bind fun _ =>
        drain).run Session.scripted.alone unasked).2.station.outbox.map (·.outcome) =
          [some .failure] := by
  refine ⟨fun h => ?_, by decide⟩
  have left : (settle.run Session.scripted.alone unasked).2.device = [.failure] := by decide
  cases (h unasked nofun).symm.trans left

end LoneStation
end CanTransport
