import CanTransport.Proofs.Chronicle
import CanTransport.Proofs.Handles

/-! # What the operations of a station ask

Apart from the moments at which conversations are retired and the gate is taken, a call asks
questions of a few kinds only. What all of them keep is kept by the call, whatever it finds and
whatever it is answered.
-/
namespace CanTransport

def Program.AsksOnly {α : Type} (P : Query → Prop) : Action α → Prop
  | .done _ => True
  | .ask q next => P q ∧ ∀ answer, (next answer).AsksOnly P

/-- Questions as they come up in a call. Those in `taking` may be stepped, and listed as finished.
Where `outside` does not hold, nothing is asked but locks and the station itself, and where `begins`
does not, no conversation begins. Outcomes are told only to those for which `told` holds. -/
inductive Query.Usual (taking : List Handle) (outside begins : Prop) (told : EndpointId → Prop) :
    Query → Prop
  | acquire {lock : Lock} (other : lock ≠ .gate) : Usual taking outside begins told (.acquire lock)
  | release {lock : Lock} (other : lock ≠ .gate) : Usual taking outside begins told (.release lock)
  | now (h : outside) : Usual taking outside begins told .now
  | available (h : outside) : Usual taking outside begins told .available
  | read (h : outside) : Usual taking outside begins told .read
  | outcome (h : outside) : Usual taking outside begins told .outcome
  | notify (h : outside) (source : EndpointId) (notice : Notice) :
    Usual taking outside begins told (.notify source notice)
  | write (h : outside) (writer : EndpointId) (frame : Frame) :
    Usual taking outside begins told (.write writer frame)
  | look : Usual taking outside begins told (.access id)
  | configure (settings : Station → Settings) :
    Usual taking outside begins told (.access fun s => { s with settings := settings s })
  | stamp (clock : Micros) : Usual taking outside begins told
      (.access fun s => { s with lastTick := some clock })
  | adopt (address : Address) (message : List UInt8) (kind : MessageType) :
      Usual taking outside begins told
      (.access fun s => (s.addSender address message kind s.waitLimit).2)
  | enqueue (h : Handle) : Usual taking outside begins told (.access (·.enqueue h))
  | start (h : begins) : Usual taking outside begins told (.access Station.startPending)
  | openReception (h : begins) (address : Address) (settings : Settings) :
      Usual taking outside begins told (.access fun s => (s.openReception address settings).2)
  | drop (id : EndpointId) : Usual taking outside begins told (.access (·.drop id))
  | dropAll (handles : List Handle) : Usual taking outside begins told
      (.access fun s => handles.foldl (fun s h => s.drop h.id) s)
  | adjust (id : EndpointId) {f : Endpoint → Endpoint} (setter : Endpoint.Setter f) :
      Usual taking outside begins told (.access (·.modifyEndpoint id f))
  | acknowledge {id : EndpointId} (own : told id) (clock : Micros) (ack : Ack) :
      Usual taking outside begins told (.access (·.modifyEndpoint id (·.onAck clock ack)))
  | begin {h : Handle} (own : h ∈ taking) (frame : Option Frame) (clock : Micros) :
      Usual taking outside begins told (.access fun s => (s.beginStep h.id frame clock).2)
  | finish {h : Handle} (own : h ∈ taking) (next : Endpoint) :
      Usual taking outside begins told (.access (·.modifyEndpoint h.id fun _ => next))
  | push {h : Handle} (own : h ∈ taking) (address : Address) :
      Usual taking outside begins told
      (.access fun s => { s with outbox := s.outbox.push address h.id })
  | mark {h : Handle} (own : h ∈ taking) : Usual taking outside begins told
      (.access (·.markFinished h))
  | record (ack : Ack) : Usual taking outside begins told (.access fun s => (s.record ack).2)
  | deliver (clock : Micros) : Usual taking outside begins told
      (.access fun s => (s.nextDelivery clock).2)
  | forget (address : Address) (clock : Micros) : Usual taking outside begins told
      (.access fun s => (s.releaseEntries address clock).2)

abbrev Program.Usual {α : Type} (taking : List Handle) (outside begins : Prop)
    (told : EndpointId → Prop) (p : Action α) : Prop :=
  p.AsksOnly (Query.Usual taking outside begins told)

/-- From within the question calls may be made. -/
def Query.CallsOut : Query → Prop
  | .acquire _ | .release _ | .access _ => False
  | _ => True

theorem Query.Usual.outside {q : Query} {taking : List Handle} {outside begins : Prop}
    {told : EndpointId → Prop} (hq : q.Usual taking outside begins told) (h : q.CallsOut) :
    outside := by
  cases hq with
  | now ho | available ho | read ho | outcome ho | notify ho | write ho => exact ho
  | _ => exact h.elim

/-- Where `invariant` holds, `R` reaches over every question of the kind. -/
structure Scene.Spans (invariant : Scene → Prop) (R : Scene → Scene → Prop) (P : Query → Prop) :
    Prop where
  keeps : ∀ {c c'}, invariant c → R c c' → invariant c'
  refl : ∀ {c}, invariant c → R c c
  trans : ∀ {c c₁ c'}, R c c₁ → R c₁ c' → R c c'
  note : ∀ {c}, invariant c → ∀ event, R c (c.note event)
  lock : ∀ {c}, invariant c → ∀ lock, R c (c.lock lock)
  unlock : ∀ {c lock}, invariant c → P (.release lock) → R c (c.unlock lock)
  access : ∀ {c change}, invariant c → P (.access change) → R c (c.access change)

namespace Scene.Spans
variable {invariant : Scene → Prop} {R inner : Scene → Scene → Prop}
  {P : Query → Prop} {c c' : Scene}

theorem answers {q : Query} {answer : q.Answer} (hR : Spans invariant R P)
    (hi : q.CallsOut → ∀ c c', inner c c' → invariant c → R c c') (hc : invariant c) (hq : P q)
    (h : c.Answers inner q answer c') : R c c' := by
  cases q with
  | acquire lock =>
    rcases h with ⟨-, -, rfl⟩ | ⟨-, rfl⟩
    · exact hR.lock hc lock
    · exact hR.refl hc
  | release lock =>
    obtain rfl : c' = c.unlock lock := h
    exact hR.unlock hc hq
  | access change =>
    obtain ⟨-, rfl⟩ := h
    exact hR.access hc hq
  | now | isActive | available | read => exact hi trivial c c' h hc
  | write writer frame =>
    obtain ⟨c₁, hin, rfl⟩ := h
    have hcalled := hi trivial c c₁ hin hc
    split
    · exact hR.trans hcalled (hR.note (hR.keeps hc hcalled) _)
    · exact hcalled
  | outcome =>
    obtain ⟨c₁, hin, rfl⟩ := h
    have hcalled := hi trivial c c₁ hin hc
    split
    · exact hR.trans hcalled (hR.note (hR.keeps hc hcalled) _)
    · exact hcalled
  | notify source notice =>
    have hnoted := hR.note hc (.told source notice)
    exact hR.trans hnoted (hi trivial _ c' h (hR.keeps hc hnoted))

theorem ends {α : Type} {p : Action α} {a : α} (hR : Spans invariant R P)
    (hi : (∃ q, P q ∧ q.CallsOut) → ∀ c c', inner c c' → invariant c → R c c')
    (hc : invariant c) (hp : p.AsksOnly P) (h : p.Ends inner c a c') : R c c' := by
  induction p generalizing c with
  | done value =>
    obtain ⟨-, rfl⟩ := h
    exact hR.refl hc
  | ask q next ih =>
    obtain ⟨answer, c₁, ha, h⟩ := h
    have hasked := hR.answers (fun hout => hi ⟨q, hp.1, hout⟩) hc hp.1 ha
    exact hR.trans hasked (ih answer (hR.keeps hc hasked) (hp.2 answer) h)

end Scene.Spans

namespace Action
variable {α β : Type} {P : Query → Prop} {taking : List Handle} {outside begins : Prop}
  {told : EndpointId → Prop} {lock : Lock}

theorem asks_bind {p : Action α} {f : α → Action β} (hp : p.AsksOnly P)
    (hf : ∀ a, (f a).AsksOnly P) :
    Program.AsksOnly P (p.bind f) := by
  induction p with
  | done a => exact hf a
  | ask q next ih => exact ⟨hp.1, fun answer => ih answer (hp.2 answer)⟩

theorem asks_done (a : α) : Program.AsksOnly P (.done a : Action α) := trivial

theorem asks_one {q : Query} {f : q.Answer → α} (hq : P q) :
    Program.AsksOnly P (.ask q fun answer => .done (f answer)) :=
  ⟨hq, fun _ => trivial⟩

theorem usual_withLock {body : Action α} (hl : lock ≠ .gate)
    (hb : body.Usual taking outside begins told) :
    (withLock lock body).Usual taking outside begins told := by
  refine ⟨.acquire hl, fun had => ?_⟩
  cases had with
  | false => exact asks_done _
  | true =>
    change Program.AsksOnly _ (body.bind fun a => (release lock).bind fun _ =>
      .done (Except.ok a : Except LockTimeout α))
    exact asks_bind hb fun a => asks_one (.release hl)

theorem usual_get : get.Usual taking outside begins told := asks_one .look

theorem usual_now (h : outside) : now.Usual taking outside begins told := asks_one (.now h)

end Action

namespace Station
open CanTransport.Action

variable {taking : List Handle} {outside begins : Prop} {told : EndpointId → Prop}

section Delivery

theorem pollOutcome_usual (h : outside) : pollOutcome.Usual taking outside begins told := by
  refine asks_bind (usual_withLock nofun ⟨.outcome h, fun ack => ?_⟩) fun _ => asks_done _
  cases ack with
  | none => exact asks_done _
  | some ack => exact asks_one (.record ack)

theorem drainUpTo_usual (h : outside) (fuel : Nat) :
    (drainUpTo fuel).Usual taking outside begins told := by
  induction fuel with
  | zero => exact asks_done _
  | succ fuel ih =>
    refine asks_bind (pollOutcome_usual h) fun taken => ?_
    cases taken with
    | false => exact asks_done _
    | true => exact ih

theorem ackEndpoint_usual (h : outside) {id : EndpointId} (own : told id) (ack : Ack) :
    (ackEndpoint id ack).Usual taking outside begins told :=
  asks_bind (usual_withLock nofun (asks_bind (usual_now h) fun _ =>
    asks_one (.acknowledge own _ _))) fun _ => asks_done _

theorem deliverEntry_usual (h : outside) {e : OutboxEntry}
    (own : ∀ id, e.writer = some id → told id) :
    (deliverEntry e).Usual taking outside begins told := by
  refine asks_bind usual_get fun s => ?_
  split
  · next id ack hw _ =>
    exact asks_bind (ackEndpoint_usual h (own id (Option.filter_eq_some_iff.mp hw).1) _) fun _ =>
      asks_done _
  · exact asks_done _

theorem deliverNext_usual (h : outside) (all : ∀ id, told id) :
    deliverNext.Usual taking outside begins told := by
  refine asks_bind
    (usual_withLock nofun (asks_bind (usual_now h) fun clock => asks_one (.deliver clock)))
    fun entry => ?_
  split
  · exact asks_done _
  · exact asks_bind (deliverEntry_usual h fun id _ => all id) fun _ => asks_done _

theorem deliverUpTo_usual (h : outside) (all : ∀ id, told id) (fuel : Nat) :
    (deliverUpTo fuel).Usual taking outside begins told := by
  induction fuel with
  | zero => exact asks_done _
  | succ fuel ih =>
    refine asks_bind (deliverNext_usual h all) fun delivered => ?_
    cases delivered with
    | none => exact asks_done _
    | some delivered => exact asks_bind ih fun _ => asks_done _

theorem settle_usual (h : outside) (all : ∀ id, told id) :
    settle.Usual taking outside begins told :=
  asks_bind (asks_bind usual_get fun _ => drainUpTo_usual h _) fun _ =>
    asks_bind usual_get fun _ => deliverUpTo_usual h all _

theorem forget_usual (h : outside) (address : Address) :
    (forget address).Usual taking outside begins told :=
  usual_withLock nofun (asks_bind (usual_now h) fun clock => asks_one (.forget address clock))

end Delivery

section Tick

theorem startWaiting_usual (h : begins) : startWaiting.Usual taking outside begins told :=
  asks_bind (usual_withLock nofun (usual_withLock nofun (asks_one (.start h)))) fun _ => asks_done _

theorem receiveFrame_usual (h : outside) (settings : Settings) :
    (receiveFrame settings).Usual taking outside begins told := by
  refine ⟨.available h, fun count => ?_⟩
  change Program.AsksOnly _ (if count = 0 then .done none else read.bind fun frame =>
    .done (frame.filter settings.admits))
  split
  · exact asks_done _
  · exact asks_one (.read h)

theorem passOn_usual (h : outside) {h' : Handle} (own : h' ∈ taking) (outcome : StepOutcome) :
    (passOn h' outcome).Usual taking outside begins told := by
  cases outcome with
  | inProgress => exact asks_done _
  | firstFrame length => exact asks_one (.notify h _ _)
  | finished result =>
    exact asks_bind (usual_withLock nofun (asks_one (.mark own))) fun _ => asks_done _

theorem send_usual (h : outside) {h' : Handle} (own : h' ∈ taking) (address : Address)
    (frame : Frame) :
    (send h'.id address frame).Usual taking outside begins told := by
  refine asks_bind (usual_withLock nofun ⟨.write h _ _, fun accepted => ?_⟩) fun _ => asks_done _
  cases accepted with
  | false => exact asks_done _
  | true => exact asks_one (.push own address)

theorem stepEndpoint_usual (h : outside) {h' : Handle} (own : h' ∈ taking) (frame : Option Frame) :
    (stepEndpoint h'.id frame).Usual taking outside begins told := by
  refine asks_bind (usual_withLock nofun ?_) fun _ => asks_done _
  refine asks_bind (usual_now h) fun clock => asks_bind (asks_one (.begin own _ _)) fun begun => ?_
  split
  · exact asks_done _
  · next address move =>
    cases move with
    | rest next outcome => exact asks_done _
    | write f next =>
      exact asks_bind (send_usual h own _ _) fun _ => asks_bind (usual_now h) fun _ =>
        asks_bind (asks_one (.finish own _)) fun _ => asks_done _

theorem stepAndPassOn_usual (h : outside) {h' : Handle} (own : h' ∈ taking) (frame : Option Frame) :
    Program.Usual taking outside begins told ((stepEndpoint h'.id frame).bind fun outcome =>
      passOn h' outcome) :=
  asks_bind (stepEndpoint_usual h own _) fun _ => passOn_usual h own _

theorem inspect_usual (id : EndpointId) (view : Endpoint → Bool) :
    (inspect id view).Usual taking outside begins told :=
  asks_bind (usual_withLock nofun usual_get) fun _ => asks_done _

theorem dispatchOne_usual (h : outside) {h' : Handle} (own : h' ∈ taking) (tickAt : Micros)
    (frame : Option Frame) :
    (dispatchOne tickAt frame h').Usual taking outside begins told := by
  rw [dispatchOne_eq]
  refine asks_bind ?_ fun claims => ?_
  · split
    · split
      · exact inspect_usual _ _
      · exact asks_done _
    · exact asks_done _
  · cases claims with
    | true => exact asks_bind (stepAndPassOn_usual h own _) fun _ => asks_done _
    | false =>
      refine asks_bind (inspect_usual _ _) fun due => ?_
      cases due with
      | true => exact asks_bind (stepAndPassOn_usual h own _) fun _ => asks_done _
      | false => exact asks_done _

theorem dispatch_usual (h : outside) {handles : List Handle} (own : ∀ h' ∈ handles, h' ∈ taking)
    (tickAt : Micros) (frame : Option Frame) :
    (dispatch tickAt frame handles).Usual taking outside begins told := by
  induction handles generalizing frame with
  | nil => exact asks_done _
  | cons h' rest ih =>
    exact asks_bind (dispatchOne_usual h (own h' List.mem_cons_self) _ _) fun frame =>
      ih (fun g hg => own g (List.mem_cons_of_mem _ hg)) frame

theorem opening_usual (h : begins) (address : Address) (settings : Settings) :
    (withLock .conversations (modifyGet (·.openReception address settings))).Usual taking
      outside begins told :=
  usual_withLock nofun (asks_one (.openReception h address settings))

theorem reportEnd_usual (h : outside) (h' : Handle) :
    (reportEnd h').Usual taking outside begins told := by
  refine asks_bind (usual_withLock nofun (asks_bind usual_get fun s => asks_one (.notify h _ _)))
    fun told => ?_
  split
  · exact asks_done _
  · exact asks_one (.notify h _ _)

theorem report_usual (h : outside) (handles : List Handle) :
    (report handles).Usual taking outside begins told := by
  induction handles with
  | nil => exact asks_done _
  | cons h' rest ih =>
    exact asks_bind (forget_usual h _) fun _ => asks_bind (reportEnd_usual h h') fun _ => ih

end Tick

section Control

theorem request_usual (target : UInt8) (type : TargetType) (message : List UInt8)
    (kind : MessageType) :
    (request target type message kind).Usual taking outside begins told := by
  refine asks_bind (usual_withLock nofun usual_get) fun seen => ?_
  split
  · exact asks_done _
  · refine asks_bind (asks_one (.adopt _ _ _)) fun added => ?_
    split
    · exact asks_done _
    · refine asks_bind (usual_withLock nofun (asks_one (.enqueue _))) fun queued => ?_
      split
      · exact asks_done _
      · exact asks_bind (asks_one (.drop _)) fun _ => asks_done _

theorem changeSettings_usual (change : Settings → Settings) :
    (changeSettings change).Usual taking outside begins told :=
  usual_withLock nofun (asks_one (.configure fun s => change s.settings))

theorem addGroup_usual (group : UInt8) : (addGroup group).Usual taking outside begins told :=
  usual_withLock nofun (asks_one (.configure fun s =>
    { s.settings with functional := s.settings.functional.insert group }))

theorem removeGroup_usual (group : UInt8) : (removeGroup group).Usual taking outside begins told :=
  usual_withLock nofun (asks_one (.configure fun s =>
    { s.settings with functional := s.settings.functional.filter (· ≠ group) }))

theorem changeEach_usual {change : Endpoint → Endpoint} (setter : Endpoint.Setter change)
    (handles : List Handle) :
    (changeEach change handles).Usual taking outside begins told := by
  induction handles with
  | nil => exact asks_done _
  | cons h rest ih =>
    refine asks_bind (usual_withLock nofun (asks_one (.adjust _ setter))) fun changed => ?_
    split
    · exact asks_done _
    · exact ih

theorem changeAll_usual {change : Endpoint → Endpoint} (setter : Endpoint.Setter change) :
    (changeAll change).Usual taking outside begins told := by
  refine asks_bind (usual_withLock nofun usual_get) fun waiting => ?_
  split
  · exact asks_done _
  · refine asks_bind (usual_withLock nofun usual_get) fun running => ?_
    split
    · exact asks_done _
    · exact changeEach_usual setter _

theorem setBlockSize_usual (value : UInt8) :
    (setBlockSize value).Usual taking outside begins told := by
  refine asks_bind (changeSettings_usual _) fun changed => ?_
  split
  · exact asks_done _
  · exact changeAll_usual (.blockSize value)

theorem setSeparation_usual (value : SeparationTime) :
    (setSeparation value).Usual taking outside begins told := by
  unfold setSeparation
  split
  · exact asks_done _
  · refine asks_bind (changeSettings_usual _) fun changed => ?_
    split
    · exact asks_done _
    · refine asks_bind (changeAll_usual (.separation value)) fun changed => ?_
      split
      · exact asks_done _
      · exact asks_done _

theorem reading_usual {α : Type} (lock : Lock) (hl : lock ≠ .gate) (view : Station → α) :
    (withLock lock (get.bind fun s => .done (view s))).Usual taking outside begins told :=
  usual_withLock hl (asks_bind usual_get fun _ => asks_done _)

end Control
end Station
end CanTransport
