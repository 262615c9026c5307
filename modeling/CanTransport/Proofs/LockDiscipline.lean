import CanTransport.Proofs.Administration
import CanTransport.Proofs.Attribution
import CanTransport.Proofs.Scheduling

/-! # A station never waits for itself

Where nobody else holds a lock, a program asks only for locks that are free and has given all of
them back at its end. Which endpoints it locks depends on what it finds queued, running and written,
so it is followed along with what it finds.
-/
namespace CanTransport

/-- With the locks in `held`, the program asks for free locks only and ends with those in `last`. -/
def Program.Disciplined {α : Type} (last : List Lock) : List Lock → Action α → Prop
  | held, .done _ => held = last
  | held, .ask q next =>
    match q, next with
    | .acquire lock, next => lock ∉ held ∧ (next true).Disciplined last (lock :: held)
    | .release lock, next => (next ()).Disciplined last (held.erase lock)
    | _, next => ∀ answer, (next answer).Disciplined last held

/-- With the locks in `held`, at a station that is as `I` says, the program asks for free locks only
and ends with those in `last`. It keeps the station so, tells the listener something under such locks
only as `T` allows, and has a value as `Q` says. -/
def Program.Heeds {α : Type} (I : Station → Prop) (T : List Lock → Prop)
    (last : List Lock) (Q : α → Prop) :
    List Lock → Action α → Prop
  | held, .done a => held = last ∧ Q a
  | held, .ask q next =>
    match q, next with
    | .acquire lock, next => lock ∉ held ∧ (next true).Heeds I T last Q (lock :: held)
    | .release lock, next => (next ()).Heeds I T last Q (held.erase lock)
    | .access change, next => ∀ s, I s → I (change s) ∧ (next s).Heeds I T last Q held
    | .notify _ _, next => T held ∧ (next ()).Heeds I T last Q held
    | _, next => ∀ answer, (next answer).Heeds I T last Q held

/-- Whatever the station is like, the program asks for free locks only and gives them back. -/
abbrev Program.Minds {α : Type} (T : List Lock → Prop) (held : List Lock) (p : Action α) : Prop :=
  p.Heeds (fun _ => True) T held (fun _ => True) held

namespace Action
variable {α β : Type} {I : Station → Prop} {T : List Lock → Prop} {held : List Lock}
  {lock : Lock} {Q : α → Prop} {R : β → Prop}

theorem heeds_append {mid last : List Lock} {p : Action α} {f : α → Action β}
    (hp : p.Heeds I T mid Q held) (hf : ∀ a, Q a → (f a).Heeds I T last R mid) :
    Program.Heeds I T last R held (p.bind f) := by
  induction p generalizing held with
  | done a =>
    obtain ⟨rfl, ha⟩ := hp
    exact hf a ha
  | ask q next ih =>
    cases q with
    | acquire lock => exact ⟨hp.1, ih true hp.2⟩
    | release lock => exact ih () hp
    | access change =>
      intro s hs
      exact ⟨(hp s hs).1, ih s (hp s hs).2⟩
    | notify source notice => exact ⟨hp.1, ih () hp.2⟩
    | now | isActive | available | read | write | outcome =>
      exact fun answer => ih answer (hp answer)

theorem heeds_bind {p : Action α} {f : α → Action β} (hp : p.Heeds I T held Q held)
    (hf : ∀ a, Q a → (f a).Heeds I T held R held) : Program.Heeds I T held R held (p.bind f) :=
  heeds_append hp hf

theorem heeds_done {a : α} (ha : Q a) : Program.Heeds I T held Q held (.done a : Action α) :=
      ⟨rfl, ha⟩

/-- A lock that is free is had. -/
theorem heeds_withLock {body : Action α} (hl : lock ∉ held)
    (hb : body.Heeds I T (lock :: held) Q (lock :: held)) :
    (withLock lock body).Heeds I T held (fun a => ∃ b, a = .ok b ∧ Q b) held := by
  refine ⟨hl, ?_⟩
  change Program.Heeds I T held _ (lock :: held)
    (body.bind fun a => (release lock).bind fun _ => .done (Except.ok a : Except LockTimeout α))
  exact heeds_append hb fun a ha => ⟨List.erase_cons_head _ _, a, rfl, ha⟩

theorem heeds_modify {change : Station → Station} (h : ∀ s, I s → I (change s)) :
    (modify change).Heeds I T held (fun _ => True) held := fun s hs => ⟨h s hs, rfl, trivial⟩

theorem heeds_modifyGet {change : Station → α × Station}
    (h : ∀ s, I s → I (change s).2 ∧ Q (change s).1) :
    (modifyGet change).Heeds I T held Q held := fun s hs => ⟨(h s hs).1, rfl, (h s hs).2⟩

theorem heeds_get : get.Heeds I T held I held := fun _ hs => ⟨hs, rfl, hs⟩

theorem heeds_now : now.Heeds I T held (fun _ => True) held := fun _ => ⟨rfl, trivial⟩

theorem heeds_outcome : outcome.Heeds I T held (fun _ => True) held := fun _ => ⟨rfl, trivial⟩

theorem heeds_imp {last : List Lock} {Q' : α → Prop} {p : Action α} (hp : p.Heeds I T last Q held)
    (h : ∀ a, Q a → Q' a) : p.Heeds I T last Q' held := by
  rw [← Program.bind_done p]
  exact heeds_append hp fun a ha => ⟨rfl, h a ha⟩

variable {p : Action α} {f : α → Action β}

theorem minds_bind (hp : p.Minds T held) (hf : ∀ a, (f a).Minds T held) :
    Program.Minds T held (p.bind f) :=
  heeds_bind hp fun a _ => hf a

theorem minds_done (a : α) : Program.Minds T held (.done a : Action α) := heeds_done trivial

theorem minds_withLock (hl : lock ∉ held) (hp : p.Minds T (lock :: held)) :
    (withLock lock p).Minds T held :=
  heeds_imp (heeds_withLock hl hp) fun _ _ => trivial

theorem minds_modify (change : Station → Station) : (modify change).Minds T held :=
      heeds_modify fun _ _ => trivial

theorem minds_modifyGet (change : Station → α × Station) : (modifyGet change).Minds T held :=
  heeds_modifyGet fun _ _ => ⟨trivial, trivial⟩

theorem minds_get : get.Minds T held := heeds_get

theorem minds_now : now.Minds T held := heeds_now

theorem minds_notify (source : EndpointId) (notice : Notice) (ht : T held) :
    (notify source notice).Minds T held :=
  ⟨ht, rfl, trivial⟩

theorem Disciplined.of_minds {last : List Lock}
    (h : p.Heeds (fun _ => True) T last (fun _ => True) held) :
    p.Disciplined last held := by
  induction p generalizing held with
  | done a => exact h.1
  | ask q next ih =>
    cases q with
    | acquire lock => exact ⟨h.1, ih true h.2⟩
    | release lock => exact ih () h
    | access change => exact fun s => ih s (h s trivial).2
    | notify source notice => exact fun _ => ih () h.2
    | now | isActive | available | read | write | outcome =>
      exact fun answer => ih answer (h answer)

end Action

namespace Station
open CanTransport.Action

variable {held : List Lock} {T : List Lock → Prop}

/-- No lock but that for a whole tick is held. -/
def Unlocked (held : List Lock) : Prop := ∀ l ∈ held, l = .gate

theorem Unlocked.free {lock : Lock} (h : Unlocked held) (hl : lock ≠ .gate) :
    lock ∉ held := fun hm => hl (h _ hm)

theorem Unlocked.free_cons {lock lock' : Lock} (h : Unlocked held) (hl : lock ≠ .gate)
    (hn : lock ≠ lock') :
    lock ∉ lock' :: held := by
  intro hm
  rcases List.mem_cons.mp hm with hm | hm
  · exact hn hm
  · exact h.free hl hm

def Clear (held : List Lock) : Prop := ∀ l ∈ held, l = .gate ∨ ∃ id, l = .endpoint id

theorem Unlocked.clear (h : Unlocked held) : Clear held := fun l hl => .inl (h l hl)

theorem Clear.endpoint (h : Clear held) (id : EndpointId) : Clear (.endpoint id :: held) := by
  intro l hl
  rcases List.mem_cons.mp hl with rfl | hl
  · exact .inr ⟨id, rfl⟩
  · exact h l hl

theorem Clear.free {lock : Lock} (h : Clear held) (hg : lock ≠ .gate)
    (he : ∀ id, lock ≠ .endpoint id) : lock ∉ held := by
  intro hm
  rcases h _ hm with rfl | ⟨id, rfl⟩
  · exact hg rfl
  · exact he id rfl

/-- An endpoint whose lock is held has a number that has been given, is neither running nor waiting,
and no outcome is to be delivered to it. -/
def Apart (held : List Lock) (s : Station) : Prop :=
  ∀ id, .endpoint id ∈ held →
    id < s.fresh ∧ (∀ h ∈ s.pending ++ s.active.handles, h.id ≠ id) ∧
    ∀ e ∈ s.outbox, e.writer ≠ some id

theorem Unlocked.apart (h : Unlocked held) (s : Station) :
    s.Apart held := fun _ hid => absurd hid (h.free nofun)

theorem Unlocked.apart_eq (h : Unlocked held) : Apart held = fun _ => True :=
  funext fun s => propext ⟨fun _ => trivial, fun _ => h.apart s⟩

namespace Apart
variable {s : Station}

theorem outbox (h : s.Apart held) {outbox : Outbox}
    (ho : ∀ e ∈ outbox, ∃ e' ∈ s.outbox, e'.writer = e.writer) :
    { s with outbox }.Apart held := by
  intro id hid
  obtain ⟨hlt, hqueued, hwritten⟩ := h id hid
  refine ⟨hlt, hqueued, fun e he hw => ?_⟩
  obtain ⟨e', he', hw'⟩ := ho e he
  exact hwritten e' he' (hw'.trans hw)

/-- No outcome is delivered to an endpoint whose lock is held. -/
theorem writer_free (h : s.Apart held) {e : OutboxEntry} (he : e ∈ s.outbox) {id : EndpointId}
    (hw : e.writer = some id) :
    .endpoint id ∉ held := fun hid => (h id hid).2.2 e he hw

theorem handle_free (h : s.Apart held) {h' : Handle} (hh : h' ∈ s.pending ++ s.active.handles) :
    .endpoint h'.id ∉ held :=
  fun hid => (h h'.id hid).2.1 h' hh rfl

theorem adopt (h : s.Apart held) (r : Endpoint) (budget : Budget) :
    (s.adopt r budget).2.Apart held := fun id hid =>
  ⟨Nat.lt_succ_of_lt (h id hid).1, (h id hid).2⟩

theorem enqueue (h : s.Apart held) {h' : Handle} (hh : .endpoint h'.id ∉ held) :
    (s.enqueue h').Apart held := by
  intro id hid
  obtain ⟨hlt, hqueued, hwritten⟩ := h id hid
  refine ⟨hlt, fun g hg => ?_, hwritten⟩
  simp only [Station.enqueue, List.append_assoc, List.mem_append, List.mem_singleton] at hg
  rcases hg with hg | rfl | hg
  · exact hqueued g (List.mem_append_left _ hg)
  · exact fun heq => hh (heq ▸ hid)
  · exact hqueued g (List.mem_append_right _ hg)

end Apart

theorem addSender_apart {s : Station} (h : s.Apart held) (address : Address) (message : List UInt8)
    (kind : MessageType) (waitLimit : Option UInt8) :
    (s.addSender address message kind waitLimit).2.Apart held ∧
      ∀ h', (s.addSender address message kind waitLimit).1 = .ok h' → .endpoint h'.id ∉ held := by
  cases hs : s.addSender address message kind waitLimit with
  | mk added s' =>
    cases added with
    | error e =>
      obtain rfl := addSender_error hs
      exact ⟨h, nofun⟩
    | ok h' =>
      obtain ⟨sender, rest, -, rfl, rfl⟩ := addSender_ok hs
      refine ⟨h.adopt _ _, fun g hg hid => ?_⟩
      cases hg
      exact Nat.lt_irrefl _ (h _ hid).1

section Outcomes

theorem pollOutcome_heeds (hc : Clear held) :
    pollOutcome.Heeds (Apart held) T held (fun _ => True) held := by
  refine heeds_bind (heeds_withLock (Q := fun _ => True) (hc.free nofun nofun) ?_) fun _ _ =>
    heeds_done trivial
  refine heeds_bind heeds_outcome fun ack _ => ?_
  cases ack with
  | none => exact heeds_done trivial
  | some ack =>
    refine heeds_modifyGet fun s hs => ⟨?_, trivial⟩
    rw [record_outbox]
    exact hs.outbox fun e he => Outbox.mem_record he

theorem drainUpTo_heeds (hc : Clear held) (fuel : Nat) :
    (drainUpTo fuel).Heeds (Apart held) T held (fun _ => True) held := by
  induction fuel with
  | zero => exact heeds_done trivial
  | succ fuel ih =>
    apply heeds_bind (pollOutcome_heeds hc)
    intro taken _
    cases taken with
    | false => exact heeds_done trivial
    | true => exact ih

theorem ackEndpoint_heeds {id : EndpointId} (hl : .endpoint id ∉ held) (ack : Ack) :
    (ackEndpoint id ack).Heeds (Apart held) T held (fun _ => True) held := by
  refine heeds_bind (heeds_withLock (Q := fun _ => True) hl ?_) fun _ _ => heeds_done trivial
  exact heeds_bind heeds_now fun clock _ => heeds_modify fun _ hs => hs

theorem deliverEntry_heeds {e : OutboxEntry} (he : ∀ id, e.writer = some id → .endpoint id ∉ held) :
    (deliverEntry e).Heeds (Apart held) T held (fun _ => True) held := by
  apply heeds_bind heeds_get
  intro s _
  split
  · next id ack hw ho =>
    exact heeds_bind (ackEndpoint_heeds (he id (Option.filter_eq_some_iff.mp hw).1) ack) fun _ _ =>
      heeds_done trivial
  · exact heeds_done trivial

theorem deliverNext_heeds (hc : Clear held) :
    deliverNext.Heeds (Apart held) T held (fun _ => True) held := by
  have htaken : (withLock .outbox (now.bind fun clock => modifyGet (·.nextDelivery clock))).Heeds
      (Apart held) T held (fun taken => ∃ entry, taken = .ok entry ∧ ∀ e, entry = some e →
        ∀ id, e.writer = some id → .endpoint id ∉ held)
      held := by
    refine heeds_withLock (hc.free nofun nofun) (heeds_bind heeds_now fun clock _ => ?_)
    refine heeds_modifyGet fun s hs => ⟨?_, ?_⟩
    · exact hs.outbox fun e he => ⟨e, (Outbox.next_sublist _ _).subset he, rfl⟩
    · intro e he id hw
      exact hs.writer_free (Outbox.next_eq_some he).1 hw
  refine heeds_bind htaken ?_
  rintro _ ⟨entry, rfl, hentry⟩
  cases entry with
  | none => exact heeds_done trivial
  | some e => exact heeds_bind (deliverEntry_heeds (hentry e rfl)) fun _ _ => heeds_done trivial

theorem deliverUpTo_heeds (hc : Clear held) (fuel : Nat) :
    (deliverUpTo fuel).Heeds (Apart held) T held (fun _ => True) held := by
  induction fuel with
  | zero => exact heeds_done trivial
  | succ fuel ih =>
    refine heeds_bind (deliverNext_heeds hc) fun delivered _ => ?_
    cases delivered with
    | none => exact heeds_done trivial
    | some delivered => exact heeds_bind ih fun _ _ => heeds_done trivial

theorem settle_heeds (hc : Clear held) : settle.Heeds (Apart held) T held (fun _ => True) held := by
  have hdrain : drain.Heeds (Apart held) T held (fun _ => True) held :=
    heeds_bind heeds_get fun s _ => drainUpTo_heeds hc _
  exact heeds_bind hdrain fun _ _ => heeds_bind heeds_get fun s _ => deliverUpTo_heeds hc _

end Outcomes

section Application

theorem request_heeds (hc : Clear held) (target : UInt8) (type : TargetType) (message : List UInt8)
    (kind : MessageType) :
    (request target type message kind).Heeds (Apart held) T held (fun _ => True) held := by
  refine heeds_bind (heeds_withLock (hc.free nofun nofun) heeds_get) ?_
  rintro _ ⟨s, rfl, -⟩
  refine heeds_bind (heeds_modifyGet (Q := fun added => ∀ h, added = .ok h → .endpoint h.id ∉ held)
    fun s hs => addSender_apart hs _ _ _ _) fun added hadded => ?_
  cases added with
  | error e => exact heeds_done trivial
  | ok h =>
    refine heeds_bind
      (heeds_withLock (hc.free nofun nofun) (heeds_modify fun s hs => hs.enqueue (hadded h rfl))) ?_
    rintro _ ⟨_, rfl, -⟩
    exact heeds_done trivial

theorem reading_heeds {α : Type} {I : Station → Prop} (lock : Lock) (hl : lock ∉ held)
    (view : Station → α) :
    (withLock lock (get.bind fun s => .done (view s))).Heeds I T held (fun _ => True) held := by
  have hview : Program.Heeds I T (lock :: held) (fun _ => True) (lock :: held)
      (get.bind fun s => .done (view s)) :=
    heeds_bind heeds_get fun _ _ => heeds_done trivial
  exact heeds_imp (heeds_withLock hl hview) fun _ _ => trivial

theorem taking_heeds {α : Type} {I : Station → Prop} (lock : Lock) (hl : lock ∉ held)
    {change : Station → α × Station} (h : ∀ s, I s → I (change s).2) :
    (withLock lock (modifyGet change)).Heeds I T held (fun _ => True) held := by
  have hchange : (modifyGet change).Heeds I T (lock :: held) (fun _ => True) (lock :: held) :=
    heeds_modifyGet fun s hs => ⟨h s hs, trivial⟩
  exact heeds_imp (heeds_withLock hl hchange) fun _ _ => trivial

theorem changeSettings_heeds (hc : Clear held) (change : Settings → Settings) :
    (changeSettings change).Heeds (Apart held) T held (fun a => a = .ok ()) held := by
  refine heeds_imp (heeds_withLock (hc.free nofun nofun) (heeds_modify fun _ hs => hs)) ?_
  rintro _ ⟨_, rfl, -⟩
  rfl

theorem changeEach_heeds (change : Endpoint → Endpoint) {handles : List Handle}
    (hf : ∀ h ∈ handles, .endpoint h.id ∉ held) :
    (changeEach change handles).Heeds (Apart held) T held (fun _ => True) held := by
  induction handles with
  | nil => exact heeds_done trivial
  | cons h rest ih =>
    refine heeds_bind (heeds_withLock (hf h List.mem_cons_self) (heeds_modify fun _ hs => hs)) ?_
    rintro _ ⟨_, rfl, -⟩
    exact ih fun g hg => hf g (List.mem_cons_of_mem _ hg)

theorem changeAll_heeds (hc : Clear held) (change : Endpoint → Endpoint) :
    (changeAll change).Heeds (Apart held) T held (fun _ => True) held := by
  refine heeds_bind (heeds_withLock (hc.free nofun nofun) heeds_get) ?_
  rintro _ ⟨waiting, rfl, hw⟩
  refine heeds_bind (heeds_withLock (hc.free nofun nofun) heeds_get) ?_
  rintro _ ⟨running, rfl, hr⟩
  refine changeEach_heeds change fun h hh => ?_
  rcases List.mem_append.mp hh with hh | hh
  · exact hw.handle_free (List.mem_append_left _ hh)
  · exact hr.handle_free (List.mem_append_right _ hh)

theorem setBlockSize_heeds (hc : Clear held) (blockSize : UInt8) :
    (setBlockSize blockSize).Heeds (Apart held) T held (fun _ => True) held := by
  refine heeds_bind (changeSettings_heeds hc _) ?_
  rintro _ rfl
  exact changeAll_heeds hc _

theorem setSeparation_heeds (hc : Clear held) (separation : SeparationTime) :
    (setSeparation separation).Heeds (Apart held) T held (fun _ => True) held := by
  unfold setSeparation
  split
  · exact heeds_done trivial
  · refine heeds_bind (changeSettings_heeds hc _) ?_
    rintro _ rfl
    refine heeds_bind (changeAll_heeds hc _) fun changed _ => ?_
    cases changed <;> exact heeds_done trivial

end Application

section Ticks

theorem settle_minds (h : Unlocked held) : settle.Minds T held := by
  have hs : settle.Heeds (Apart held) T held (fun _ => True) held := settle_heeds h.clear
  rwa [h.apart_eq] at hs

theorem startWaiting_minds (h : Unlocked held) : startWaiting.Minds T held := by
  refine minds_bind (minds_withLock (h.free nofun) ?_) fun _ => minds_done _
  exact minds_withLock (h.free_cons nofun nofun) (minds_modify _)

theorem receiveFrame_minds (settings : Settings) : (receiveFrame settings).Minds T held := by
  intro count
  by_cases hc : count = 0
  · simp only [hc, Program.pure_eq, Program.bind]
    exact minds_done _
  · simp only [hc, Program.bind]
    intro frame
    exact minds_done _

theorem passOn_minds (h : Unlocked held) (ht : T held) (handle : Handle) (outcome : StepOutcome) :
    (passOn handle outcome).Minds T held := by
  cases outcome with
  | inProgress => exact minds_done _
  | firstFrame length => exact minds_notify _ _ ht
  | finished result =>
    exact minds_bind (minds_withLock (h.free nofun) (minds_modify _)) fun _ => minds_done _

theorem send_minds (writer : EndpointId) (address : Address) (frame : Frame) (hl : .outbox ∉ held) :
    (send writer address frame).Minds T held := by
  refine minds_bind (minds_withLock hl ?_) fun _ => minds_done _
  intro accepted
  cases accepted with
  | false => exact minds_done false
  | true => exact fun _ _ => ⟨trivial, minds_done true⟩

theorem stepEndpoint_minds (h : Unlocked held) (id : EndpointId) (frame : Option Frame) :
    (stepEndpoint id frame).Minds T held := by
  refine minds_bind (minds_withLock (h.free nofun) ?_) fun _ => minds_done _
  refine minds_bind minds_now fun clock => minds_bind (minds_modifyGet _) fun begun => ?_
  split
  · exact minds_done _
  · next address move =>
    cases move with
    | rest next outcome => exact minds_done _
    | write f next =>
      refine minds_bind (send_minds id address f (h.free_cons nofun nofun)) fun accepted => ?_
      exact minds_bind minds_now fun after => minds_bind (minds_modify _) fun _ => minds_done _

theorem inspect_minds (h : Unlocked held) (id : EndpointId) (view : Endpoint → Bool) :
    (inspect id view).Minds T held :=
  minds_bind (minds_withLock (h.free nofun) minds_get) fun _ => minds_done _

theorem dispatchOne_minds (h : Unlocked held) (ht : T held) (tickAt : Micros) (frame : Option Frame)
    (handle : Handle) :
    (dispatchOne tickAt frame handle).Minds T held := by
  have hstep : ∀ input : Option Frame, Program.Minds T held
      ((stepEndpoint handle.id input).bind fun outcome => passOn handle outcome) := fun input =>
    minds_bind (stepEndpoint_minds h _ _) fun _ => passOn_minds h ht _ _
  rw [dispatchOne_eq]
  refine minds_bind ?_ fun claims => ?_
  · split
    · split
      · exact inspect_minds h _ _
      · exact minds_done _
    · exact minds_done _
  · cases claims with
    | true => exact minds_bind (hstep frame) fun _ => minds_done _
    | false =>
      apply minds_bind (inspect_minds h _ _)
      intro due
      cases due with
      | true => exact minds_bind (hstep none) fun _ => minds_done _
      | false => exact minds_done _

theorem dispatch_minds (h : Unlocked held) (ht : T held) (tickAt : Micros) (frame : Option Frame)
    (handles : List Handle) :
    (dispatch tickAt frame handles).Minds T held := by
  induction handles generalizing frame with
  | nil => exact minds_done _
  | cons handle rest ih => exact minds_bind (dispatchOne_minds h ht _ _ _) fun frame => ih frame

theorem openReceiver_minds (h : Unlocked held) (ht : T held) (frame : Frame) (settings : Settings) :
    (openReceiver frame settings).Minds T held := by
  refine minds_bind (minds_withLock (h.free nofun) (minds_modifyGet _)) ?_
  intro opened
  split
  · exact minds_done _
  · exact minds_bind (stepEndpoint_minds h _ _) fun _ => passOn_minds h ht _ _

theorem forget_minds (h : Unlocked held) (address : Address) : (forget address).Minds T held :=
  minds_withLock (h.free nofun) (minds_bind minds_now fun _ => minds_modifyGet _)

theorem reportEnd_heeds {I : Station → Prop} (handle : Handle) (hl : .endpoint handle.id ∉ held)
    (ht : T (.endpoint handle.id :: held)) :
    (reportEnd handle).Heeds I T held (fun _ => True) held := by
  refine heeds_bind (heeds_withLock (Q := fun _ => True) hl ?_) ?_
  · exact heeds_bind heeds_get fun _ _ => ⟨ht, rfl, trivial⟩
  · rintro _ ⟨_, rfl, -⟩
    exact heeds_done trivial

theorem report_minds (h : Unlocked held) (ht : ∀ id, T (.endpoint id :: held))
    (handles : List Handle) :
    (report handles).Minds T held := by
  induction handles with
  | nil => exact minds_done _
  | cons handle rest ih =>
    refine minds_bind (forget_minds h _) fun _ => minds_bind ?_ fun _ => ih
    exact reportEnd_heeds handle (h.free nofun) (ht handle.id)

theorem retire_minds (h : Unlocked held) (ht : ∀ id, T (.endpoint id :: held)) :
    retire.Minds T held := by
  refine minds_bind (minds_withLock (h.free nofun) (minds_modifyGet _)) ?_
  intro taken
  cases taken with
  | error e => exact minds_done _
  | ok retired => exact minds_bind (report_minds h ht retired) fun _ => minds_modify _

theorem conduct_minds (h : Unlocked held) (ht : T held) : conduct.Minds T held := by
  refine minds_bind (minds_withLock (h.free nofun) minds_get) fun seen => ?_
  cases seen with
  | error e => exact minds_done _
  | ok s =>
    refine minds_bind (settle_minds h) fun _ => minds_bind (startWaiting_minds h) fun _ =>
      minds_bind (receiveFrame_minds _) fun frame =>
        minds_bind (minds_withLock (h.free nofun) minds_get) fun running => ?_
    cases running with
    | error e => exact minds_done _
    | ok running =>
      refine minds_bind minds_now fun tickAt => minds_bind (dispatch_minds h ht _ _ _) fun left =>
        ?_
      cases left with
      | none => exact minds_done _
      | some f => exact minds_bind (openReceiver_minds h ht _ _) fun _ => minds_done _

theorem tick_minds (h : Unlocked held) (ht : T held) (hl : ∀ id, T (.endpoint id :: held)) :
    tick.Minds T held := by
  rw [tick_eq_conduct]
  refine minds_bind (conduct_minds h ht) fun whole => ?_
  cases whole with
  | false => exact minds_done _
  | true => exact retire_minds h hl

/-- A tick asks for no lock that is held, if none is at its beginning. -/
theorem tickIfDue_disciplined : tickIfDue.Disciplined [] [] := by
  have hgate : Unlocked [.gate] := fun l hl => List.mem_singleton.mp hl
  refine Disciplined.of_minds (T := fun _ => True) fun active => ?_
  cases active with
  | false => exact minds_done _
  | true =>
    change Program.Minds _ [] (throughGate _)
    refine minds_bind (minds_withLock List.not_mem_nil ?_) fun _ => minds_done _
    refine minds_bind minds_now fun clock => minds_bind minds_get fun s => ?_
    split
    · exact minds_done _
    · exact minds_bind (minds_modify _) fun _ => tick_minds hgate trivial fun _ => trivial

end Ticks

theorem request_disciplined (target : UInt8) (type : TargetType) (message : List UInt8)
    (kind : MessageType) :
    (request target type message kind).Disciplined [] [] := by
  have h : Unlocked [] := fun l hl => absurd hl List.not_mem_nil
  have hr := request_heeds (T := fun _ => True) h.clear target type message kind
  rw [h.apart_eq] at hr
  exact Disciplined.of_minds hr

end Station
end CanTransport
