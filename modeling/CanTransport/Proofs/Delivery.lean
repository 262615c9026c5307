import CanTransport.Proofs.Rounds
import CanTransport.Proofs.Turns

/-! # Messages get through

One station has requests for another. Round by round a message goes from the sender to the receiver,
and then the next one: whatever the spans of time between the rounds, as long as they are neither
too long nor shorter than the run periods, all of them are confirmed and indicated in the end.
-/
namespace CanTransport

theorem Sender.kind_onAck (s : Sender) (clock : Micros) (ack : Ack) :
    (s.onAck clock ack).kind = s.kind :=
  congrArg (·.2.2) (s.subject_onAck clock ack)

namespace Endpoint
variable {s s' : Sender} {r r' : Receiver} {clock : Micros} {frame : Option Frame}
  {outcome : StepOutcome} {f : Frame}

theorem sender_rest (h : s.step clock frame = .rest s' outcome) (budget : Budget) :
    (sender s).step clock frame budget = (.rest (sender s') outcome, budget) := by
  rw [step, h]
  rfl

theorem sender_write {next : Bool → Micros → Sender × StepOutcome}
    (h : s.step clock frame = .write f next) (hn : next true clock = (s', outcome)) :
    ∃ next', (∀ budget, (sender s).step clock frame budget = (.write f next', budget)) ∧
      next' true clock = (sender s', outcome) := by
  refine ⟨fun accepted after => (sender (next accepted after).1, (next accepted after).2),
    fun budget => ?_, ?_⟩
  · rw [step, h]
    rfl
  · exact congrArg (fun p => (sender p.1, p.2)) hn

theorem receiver_rest {budget : Budget} {rest : Budget}
    (h : r.step clock frame budget = (.rest r' outcome, rest)) :
    (receiver r).step clock frame budget = (.rest (receiver r') outcome, rest) := by
  rw [step, h]
  rfl

theorem receiver_write {next : Bool → Micros → Receiver × StepOutcome}
    (h : ∀ budget, r.step clock frame budget = (.write f next, budget))
    (hn : next true clock = (r', outcome)) :
    ∃ next', (∀ budget, (receiver r).step clock frame budget = (.write f next', budget)) ∧
      next' true clock = (receiver r', outcome) := by
  refine ⟨fun accepted after => (receiver (next accepted after).1, (next accepted after).2),
    fun budget => ?_, ?_⟩
  · rw [step, h]
    rfl
  · exact congrArg (fun p => (receiver p.1, p.2)) hn

end Endpoint

namespace Bench
open Station

/-- Two stations between two rounds. -/
structure Talk where
  clock : Micros
  caller : NodeView
  callee : NodeView

def Talk.round (span : Micros) (t : Talk) : Talk where
  clock := t.clock + span
  caller := (t.caller.exchange t.callee t.clock).1
  callee := (t.caller.exchange t.callee t.clock).2

/-- Time between two rounds that both stations keep up with. -/
structure Pace (a b : Station) (span : Micros) : Prop where
  positive : 0 < span
  brief : span ≤ longestRound
  caller : a.runPeriod ≤ span
  callee : b.runPeriod ≤ span

/-- However the rounds are paced, something comes to hold. -/
inductive Inevitable (a b : Station) (p : Talk → Prop) : Talk → Prop
  | now {t : Talk} (h : p t) : Inevitable a b p t
  | later {t : Talk} (h : ∀ span, Pace a b span → Inevitable a b p (t.round span)) :
    Inevitable a b p t

variable {a b : Station} {p q : Talk → Prop} {t : Talk}

theorem Inevitable.trans (h : Inevitable a b p t) (hq : ∀ t, p t → Inevitable a b q t) :
    Inevitable a b q t := by
  induction h with
  | now h => exact hq _ h
  | later _ ih => exact .later ih

theorem Inevitable.reached (h : Inevitable a b p t) (talks : Nat → Talk) (spans : Nat → Micros)
    (n : Nat) (ht : talks n = t) (hs : ∀ k, Pace a b (spans k))
    (hr : ∀ k, talks (k + 1) = (talks k).round (spans k)) :
    ∃ m, n ≤ m ∧ p (talks m) := by
  induction h generalizing n with
  | now h => exact ⟨n, Nat.le_refl n, ht ▸ h⟩
  | later _ ih =>
    obtain ⟨m, hm, hp⟩ := ih (spans n) (hs n) (n + 1) (by rw [hr, ht])
    exact ⟨m, Nat.le_of_succ_le hm, hp⟩

theorem exchange_eq {x x' y y' : NodeView} {clock : Micros} {forth back : List Frame}
    (hx : x.run tickIfDue clock = (x', forth))
    (hy : { y with inbox := y.inbox ++ forth }.run tickIfDue clock = (y', back)) :
    x.exchange y clock = ({ x' with inbox := x'.inbox ++ back }, y') := by
  simp only [NodeView.exchange, hx, hy]

/-- Where both stations stand. -/
structure Talk.Stage (a b : Station) (current : Option (EndpointId × Endpoint))
    (queue : List (EndpointId × Endpoint)) (inbox : List Frame) (na : List Notice)
    (other : Option (EndpointId × Endpoint)) (nb : List Notice) (t : Talk) : Prop where
  caller : NodeView.Hosts a t.clock current queue inbox na t.caller
  callee : NodeView.Hosts b t.clock other [] [] nb t.callee

namespace Talk
variable {current current' other other' : Option (EndpointId × Endpoint)}
  {queue queue' : List (EndpointId × Endpoint)} {inbox forth back : List Frame}
  {na nb na' nb' : List Notice} {span : Micros}

theorem stage_round (hx : NodeView.Turns a t.clock span current queue na forth t.caller)
    (hy : NodeView.Turns b t.clock span other []
      nb back { t.callee with inbox := t.callee.inbox ++ forth }) :
    Stage a b current queue back na other nb (t.round span) := by
  obtain ⟨x, hx, hcaller⟩ := hx
  obtain ⟨y, hy, hcallee⟩ := hy
  have he := exchange_eq hx hy
  have hy' : { y with inbox := y.inbox ++ [] } = y := by rw [List.append_nil]
  constructor
  · rw [round, he]
    exact hcaller back
  · rw [round, he]
    exact hy' ▸ hcallee []

end Talk

/-- What two stations need to get along. -/
structure Terms (a b : Station) : Prop where
  pause : b.settings.separation.isValid = true
  callerCapped : a.budget.remaining ≤ Budget.top
  calleeCapped : b.budget.remaining ≤ Budget.top
  solvent : 0 ≤ b.budget.remaining

theorem Terms.alone (h : Terms a b) (address : Address) (i : EndpointId) :
    Behind b address i [] where
  fresh := List.not_mem_nil
  same _ hp := absurd hp List.not_mem_nil
  room := h.solvent
  capped := h.calleeCapped

def route (a b : Station) : Address := .physical b.settings.source a.settings.source

namespace Talk
variable {id i : EndpointId} {s : Sender} {r : Receiver} {queue : List (EndpointId × Endpoint)}
  {na nb : List Notice} {span clock : Micros} {message : List UInt8} {kind : MessageType}

theorem asked (h : Stage a b (some (id, .sender s)) queue [] na (some (i, .receiver r)) nb t)
    (hs : Asking (route a b) message t.clock s r) (hq : Behind a (route a b) id queue)
    (hb : Terms a b) (hp : Pace a b span) :
    ∃ s' r', Stage a b (some (id, .sender s')) queue [grant (route a b) r']
      na (some (i, .receiver r')) nb (t.round span) ∧ Granted (route a b) message (t.clock + span)
      s' r' ∧ s'.kind = s.kind ∧ s'.offset = s.offset := by
  obtain ⟨next, r', hr, hn, hexpected, hgranted⟩ :=
    hs.granted (Nat.le_add_right _ _) (Nat.add_le_add_left hp.brief _)
  obtain ⟨next', hr', hn'⟩ := Endpoint.receiver_write hr hn
  have ht : Takes a.settings t.clock id (.sender s) none := by
    rcases hs.waits with hw | hw
    · simp [Takes, Endpoint.isDue, Endpoint.dueAt, Sender.dueAt, hw]
    · simp [Takes, Endpoint.isDue, Endpoint.dueAt, Sender.dueAt, hw]
  have ht' : Takes b.settings t.clock i (.receiver r) none := rfl
  have ha : (Endpoint.sender s).address = route a b := hs.source
  have hf : (Endpoint.sender (s.notePace t.clock)).footprint = (Endpoint.sender s).footprint := rfl
  have hf' : (Endpoint.receiver r').footprint = (Endpoint.receiver r).footprint :=
    Endpoint.footprint_receiver_congr hexpected
  have hcaller := h.caller.rest (ha ▸ hq) hp.caller ht hf (Endpoint.sender_rest hs.sender_step)
  have hcallee := (h.callee.deliver []).write (hb.alone _ i) hp.callee ht' hf' hr' hn'
  exact ⟨_, _, stage_round hcaller hcallee, hgranted, rfl, rfl⟩

theorem takes_grant (hs : Granted (route a b) message clock s r) :
    Takes a.settings clock id (.sender s) (some (grant (route a b) r)) := by
  have hid : (grant (route a b) r).id = .physical a.settings.source b.settings.source :=
    Address.reversed_physical _ _
  refine ⟨Settings.admits_physical hid rfl, ?_, ?_⟩
  · have haddress : s.address = route a b := hs.source
    simp [Handle.accepts, Endpoint.handle, Endpoint.role, Endpoint.address, haddress,
      grant, Pdu.flowControl]
  · exact Sender.isAwaiting_iff.mpr hs.waits

theorem given
    (h : Stage a b (some (id, .sender s)) queue [grant (route a b) r] na (some (i, .receiver r))
      nb t)
    (hs : Granted (route a b) message t.clock s r) (hq : Behind a (route a b) id queue)
    (hb : Terms a b) (hp : Pace a b span) :
    ∃ s' r', Stage a b (some (id, .sender s')) queue [] na (some (i, .receiver r'))
      nb (t.round span) ∧ Flowing (route a b) message (t.clock + span) s' r' ∧ s'.kind = s.kind ∧
      s'.offset = s.offset := by
  have ht : Takes a.settings t.clock id (.sender s) (some (grant (route a b) r)) := takes_grant hs
  have ht' : Takes b.settings t.clock i (.receiver r) none := rfl
  have ha : (Endpoint.sender s).address = route a b := hs.source
  have hf : (Endpoint.sender
      ((s.notePace t.clock).resume t.clock r.sentBlockSize r.sentSeparation)).footprint =
      (Endpoint.sender s).footprint := rfl
  have hf' : (Endpoint.receiver (r.noteReply t.clock)).footprint =
      (Endpoint.receiver r).footprint := rfl
  have hcaller := h.caller.rest (ha ▸ hq) hp.caller ht hf (Endpoint.sender_rest hs.sender_step)
  have hcallee := (h.callee.deliver []).rest (hb.alone _ i) hp.callee ht' hf' fun _ =>
      Endpoint.receiver_rest hs.receiver_step
  exact ⟨_, _, stage_round hcaller hcallee, hs.flowing (Nat.add_le_add_left hp.brief _), rfl, rfl⟩

theorem paused (h : Stage a b (some (id, .sender s)) queue [] na (some (i, .receiver r)) nb t)
    (hs : Flowing (route a b) message t.clock s r) (hd : s.dueAt.all (· ≤ t.clock) = false)
    (hq : Behind a (route a b) id queue) (hb : Terms a b) (hp : Pace a b span) :
    ∃ r', Stage a b (some (id, .sender s)) queue [] na (some (i, .receiver r')) nb (t.round span) ∧
      Flowing (route a b) message (t.clock + span) s r' := by
  have ht' : Takes b.settings t.clock i (.receiver r) none := rfl
  have ha : (Endpoint.sender s).address = route a b := hs.source
  have hf' : (Endpoint.receiver (r.noteReply t.clock)).footprint =
      (Endpoint.receiver r).footprint := rfl
  have hcaller := h.caller.pause (ha ▸ hq) hp.caller hd
  have hcallee := (h.callee.deliver []).rest (hb.alone _ i) hp.callee ht' hf' fun _ =>
      Endpoint.receiver_rest hs.receiver_rest
  exact ⟨_, stage_round hcaller hcallee, hs.pausing hd (Nat.add_le_add_left hp.brief _)⟩

/-- A conversation between two frames: flow control is to be asked for, or the next frame may go. -/
inductive Halfway (a b : Station) (message : List UInt8) (kind : MessageType) (id : EndpointId)
    (queue : List (EndpointId × Endpoint)) (na nb : List Notice) (offset : Nat) (t : Talk) : Prop
  | asking {s : Sender} {i : EndpointId} {r : Receiver}
      (stage : Stage a b (some (id, .sender s)) queue [] na (some (i, .receiver r)) nb t)
      (stands : Asking (route a b) message t.clock s r) (kind_eq : s.kind = kind)
      (offset_eq : s.offset = offset)
  | flowing {s : Sender} {i : EndpointId} {r : Receiver}
      (stage : Stage a b (some (id, .sender s)) queue [] na (some (i, .receiver r)) nb t)
      (stands : Flowing (route a b) message t.clock s r) (kind_eq : s.kind = kind)
      (offset_eq : s.offset = offset)

/-- A message has been indicated, and its sender has yet to say that it is over. -/
def Closing (a b : Station) (message : List UInt8) (kind : MessageType) (id : EndpointId)
    (queue : List (EndpointId × Endpoint)) (na nb : List Notice) (t : Talk) : Prop :=
  ∃ s, Stage a b (some (id, .sender s)) queue [] na none nb t ∧ Closed (route a b) message s ∧
    s.kind = kind

def indication (address : Address) (message : List UInt8) : Notice :=
  .indication address message (.ok ()) .diagnostics

theorem sent (h : Stage a b (some (id, .sender s)) queue [] na (some (i, .receiver r)) nb t)
    (hs : Flowing (route a b) message t.clock s r) (hk : s.kind = kind)
    (hd : s.dueAt.all (· ≤ t.clock) = true) (hq : Behind a (route a b) id queue) (hb : Terms a b)
    (hp : Pace a b span) :
    Closing a b message kind id queue na (nb ++ [indication (route a b) message]) (t.round span) ∨
      ∃ offset, s.offset < offset ∧
        Halfway a b message kind id queue na nb offset (t.round span) := by
  obtain ⟨f, next, hsend, hn, hid, hrelevant, hkind, hlow, hbytes⟩ := hs.sender_send hd
  have hs' : Flowing (route a b) message t.clock (s.notePace t.clock) (r.noteReply t.clock) :=
    { hs with heard := hs.heard }
  have ha : (Endpoint.sender s).address = route a b := hs.source
  have ht : Takes a.settings t.clock id (.sender s) none := hd
  have ht' : Takes b.settings t.clock i (.receiver r) (some f) := by
    refine ⟨Settings.admits_physical hid hrelevant, ?_, ?_⟩
    · have haddress : r.address = route a b := hs.target
      simp [Handle.accepts, Endpoint.handle, Endpoint.role, Endpoint.address, haddress, hid]
    · simp [Endpoint.isAwaiting, Receiver.isAwaiting, hs.listens]
  obtain ⟨next', hsend', hn'⟩ := Endpoint.sender_write hsend hn
  have hf : (Endpoint.sender ((s.notePace t.clock).advanced t.clock)).footprint =
      (Endpoint.sender s).footprint := rfl
  have hcaller := h.caller.write (ha ▸ hq) hp.caller ht hf hsend' hn'
  have hkind' : (((s.notePace t.clock).advanced t.clock).onAck (t.clock + span) .success).kind =
      kind :=
    (Sender.kind_onAck _ _ _).trans hk
  have hoffset : s.offset <
      (((s.notePace t.clock).advanced t.clock).onAck (t.clock + span) .success).offset := by
    have hlt : s.offset < s.message.length := hs.message_eq ▸ hs.unfinished
    have hadvanced := @Sender.offset_advanced t.clock (s.notePace t.clock) hlt
    rw [Sender.offset_onAck]
    exact hadvanced.1
  have hstep := hs.receiver_step hkind hlow
  obtain ⟨hexpected, haddress⟩ := ((r.noteReply t.clock).absorbed f).proceed_keeps t.clock
  have honward := hs'.onward hbytes
  generalize ((r.noteReply t.clock).absorbed f).proceed t.clock =
    r' at hstep hexpected haddress honward
  have hf' : (Endpoint.receiver r').footprint = (Endpoint.receiver r).footprint :=
    Endpoint.footprint_receiver_congr hexpected
  have goesOn (going : r'.result = none) :=
    have hout : r'.settle = .rest r' .inProgress := by rw [Receiver.settle, Receiver.outcome, going]
    (h.callee.deliver [f]).rest (hb.alone _ i) hp.callee ht' hf' fun budget =>
    Endpoint.receiver_rest (hout ▸ hstep budget)
  cases honward with
  | closed done result bytes =>
    left
    have hout : r'.settle = .rest r' (.finished (.ok ())) := by
      rw [Receiver.settle, Receiver.outcome, result]
    have hcallee := (h.callee.deliver [f]).finish (hb.alone _ i) hp.callee ht' hf' fun budget =>
      Endpoint.receiver_rest (hout ▸ hstep budget)
    have hnotice : completion ((Endpoint.receiver r').handle i) (some (.receiver r')) =
        indication (route a b) message := by
      have hroute : r'.address = route a b := haddress.trans hs.target
      simp [completion, indication, Endpoint.handle, Endpoint.address, Endpoint.kind,
        hroute, bytes, result]
    rw [hnotice] at hcallee
    exact ⟨_, stage_round hcaller hcallee, done _, hkind'⟩
  | asking going onward =>
    right
    exact ⟨_, hoffset, .asking (stage_round hcaller (goesOn going))
      (onward _ (Nat.le_add_right _ _)) hkind' rfl⟩
  | flowing going onward =>
    right
    exact ⟨_, hoffset, .flowing (stage_round hcaller (goesOn going))
      (onward _ (Nat.le_add_right _ _) (Nat.add_le_add_left hp.brief _)) hkind' rfl⟩

theorem closes (h : Closing a b message kind id queue na nb t) (hq : Behind a (route a b) id queue)
    (hp : Pace a b span) :
    Stage a b none queue [] (na ++ [.confirm (route a b) (.ok ()) kind])
      none nb (t.round span) := by
  obtain ⟨s, hstage, hs, hk⟩ := h
  have ht : Takes a.settings t.clock id (.sender s) none := by
    simp [Takes, Endpoint.isDue, Endpoint.dueAt, Sender.dueAt, hs.spent]
  have hstep : s.step t.clock none = .rest s (.finished (.ok ())) := by
    rw [Sender.step, hs.succeeded]
  have ha : (Endpoint.sender s).address = route a b := hs.source
  have hnotice : completion ((Endpoint.sender s).handle id) (some (.sender s)) =
      .confirm (route a b) (.ok ()) kind := by
    simp [completion, Endpoint.handle, Endpoint.kind, ha, hk, hs.succeeded]
  have hcaller := hstage.caller.finish (ha ▸ hq) hp.caller ht rfl (Endpoint.sender_rest hstep)
  rw [hnotice] at hcaller
  exact stage_round hcaller ((hstage.callee.deliver []).idle hp.callee)

theorem resumes {p : Talk → Prop}
    (h : Stage a b (some (id, .sender s)) queue [] na (some (i, .receiver r)) nb t)
    (hs : Flowing (route a b) message t.clock s r) (hq : Behind a (route a b) id queue)
    (hb : Terms a b)
    (hp : ∀ t r, Stage a b (some (id, .sender s)) queue [] na (some (i, .receiver r)) nb t →
      Flowing (route a b) message t.clock s r → s.dueAt.all (· ≤ t.clock) = true →
      Inevitable a b p t)
    (left : Nat) (hl : ∀ due, s.dueAt = some due → due ≤ t.clock + left) : Inevitable a b p t := by
  induction left generalizing t r with
  | zero =>
    apply hp t r h hs
    cases hd : s.dueAt with
    | none => rfl
    | some due => simpa using hl due hd
  | succ left ih =>
    by_cases hd : s.dueAt.all (· ≤ t.clock) = true
    · exact hp t r h hs hd
    · refine .later fun span hspan => ?_
      obtain ⟨r', h', hs'⟩ := paused h hs (Bool.eq_false_iff.mpr hd) hq hb hspan
      refine ih h' hs' fun due hdue => Nat.le_trans (hl due hdue) ?_
      change t.clock + (left + 1) ≤ t.clock + span + left
      rw [Nat.add_assoc, Nat.add_comm left]
      exact Nat.add_le_add_left (Nat.add_le_add_right hspan.positive _) _

/-- From between two frames, all of the message is sent and indicated. -/
theorem Halfway.closing {offset : Nat} (h : Halfway a b message kind id queue na nb offset t)
    (hq : Behind a (route a b) id queue) (hb : Terms a b) :
    Inevitable a b (Closing a b message kind id queue na (nb ++ [indication (route a b) message]))
      t := by
  induction hn : message.length - offset using Nat.strongRecOn generalizing offset t with
  | ind n ih =>
    have flows {t : Talk} {s : Sender} {i : EndpointId} {r : Receiver}
        (hstage : Stage a b (some (id, .sender s)) queue [] na (some (i, .receiver r)) nb t)
        (hs : Flowing (route a b) message t.clock s r) (hk : s.kind = kind)
        (ho : s.offset = offset) :
        Inevitable a b
          (Closing a b message kind id queue na (nb ++ [indication (route a b) message])) t := by
      refine resumes hstage hs hq hb (fun t r hstage hs hd => .later fun span hspan => ?_)
        (s.dueAt.getD 0) fun due hdue => ?_
      · rcases sent hstage hs hk hd hq hb hspan with hclosing | ⟨offset', hlt, hhalf⟩
        · exact .now hclosing
        · have hunfinished := hs.unfinished
          exact ih _ (by omega) hhalf rfl
      · rw [hdue]
        exact Nat.le_add_left _ _
    cases h with
    | flowing stage stands kind_eq offset_eq => exact flows stage stands kind_eq offset_eq
    | asking stage stands kind_eq offset_eq =>
      refine .later fun span hspan => .later fun span' hspan' => ?_
      obtain ⟨s₁, r₁, h₁, hs₁, hk₁, ho₁⟩ := asked stage stands hq hb hspan
      obtain ⟨s₂, r₂, h₂, hs₂, hk₂, ho₂⟩ := given h₁ hs₁ hq hb hspan'
      exact flows h₂ hs₂ (hk₂.trans (hk₁.trans kind_eq)) (ho₂.trans (ho₁.trans offset_eq))

def indications (address : Address) (message : List UInt8) : List Notice :=
  (if Pdu.singleLimit < message.length then [.firstFrame address message.length .diagnostics] else
    []) ++ [indication address message]

section Beginning
variable {waitLimit : Option UInt8}

theorem affords {budget : Budget} (hroom : (message.length + labelBytes : Nat) ≤ budget.remaining)
    (htop : budget.remaining ≤ Budget.top) : (labelBytes : Int) ≤ budget.remaining ∧
      (message.length : Int) ≤ budget.remaining - labelBytes ∧
      budget.remaining - labelBytes ≤ Budget.top := by
  omega

theorem paid (budget : Budget) (hr : r.expected = message.length) :
    budget.remaining - labelBytes - message.length =
      budget.remaining - (Endpoint.receiver r).footprint := by
  have hf : (Endpoint.receiver r).footprint = message.length + labelBytes :=
    congrArg (· + labelBytes) hr
  omega

theorem isDue_initial (address : Address) (clock : Micros) :
    (Endpoint.sender (.initial address message kind waitLimit)).isDue clock = true := by
  rw [Endpoint.isDue, Endpoint.dueAt, Sender.dueAt]
  split
  · next hlast => cases hlast
  · rfl

theorem begins_short
    (h : Stage a b none ((id, .sender (.initial (route a b) message kind waitLimit)) :: queue)
      [] na none nb t)
    (hs : message.length ≤ Pdu.singleLimit)
    (hroom : (message.length + labelBytes : Nat) ≤ b.budget.remaining)
    (hq : Behind a (route a b) id queue) (hb : Terms a b) (hp : Pace a b span) :
    Closing a b message kind id queue na (nb ++ [indication (route a b) message])
      (t.round span) := by
  obtain ⟨hlabel, hrest, hcapped⟩ := affords hroom hb.calleeCapped
  obtain ⟨f, next, s', hsend, hn, hid, hrelevant, hkind, hlength, hbytes, hk, hm, hclosed⟩ :=
    Sender.begins_single (route a b) kind waitLimit t.clock hs
  obtain ⟨r, hr, hresult, hmessage, hexpected, haddress⟩ :=
    Receiver.takes_single (route a b) b.settings.blockSize b.settings.separation t.clock hkind
      hlength hs hbytes hrest hcapped
  obtain ⟨next', hsend', hn'⟩ := Endpoint.sender_write hsend hn
  have hf : (Endpoint.sender s').footprint =
      (Endpoint.sender (.initial (route a b) message kind waitLimit)).footprint :=
    Endpoint.footprint_sender_congr hm
  have hcaller := h.caller.start hq hp.caller (isDue_initial _ _) hf hsend' hn'
  obtain ⟨i, hcallee⟩ :=
    (h.callee.deliver [f]).single hp.callee (Settings.admits_physical hid hrelevant)
      hlabel hb.calleeCapped (Endpoint.receiver_rest (hid ▸ hr)) (paid _ hexpected)
  have hnotice : completion ((Endpoint.receiver r).handle i) (some (.receiver r)) =
      indication (route a b) message := by
    simp [completion, indication, Endpoint.handle, Endpoint.address, Endpoint.kind,
      haddress, hmessage, hresult]
  rw [hnotice] at hcallee
  exact ⟨_, stage_round hcaller hcallee, hclosed _, (s'.kind_onAck _ _).trans hk⟩

theorem begins_long
    (h : Stage a b none ((id, .sender (.initial (route a b) message kind waitLimit)) :: queue)
      [] na none nb t)
    (hs : Pdu.singleLimit < message.length) (hl : message.length < Pdu.lengthLimit)
    (hroom : (message.length + labelBytes : Nat) ≤ b.budget.remaining)
    (hq : Behind a (route a b) id queue) (hb : Terms a b) (hp : Pace a b span) :
    ∃ offset, Halfway a b message kind id queue na
      (nb ++ [.firstFrame (route a b) message.length .diagnostics]) offset (t.round span) := by
  obtain ⟨hlabel, hrest, hcapped⟩ := affords hroom hb.calleeCapped
  have hfunctional : (route a b).isFunctional = false := Address.isFunctional_physical _ _
  obtain ⟨f, next, s', r, hsend, hn, hid, hrelevant, -, hk, hm, hr, hasking⟩ :=
    begins_first kind waitLimit b.settings.blockSize t.clock hfunctional hs hl
      hb.pause hrest hcapped
  obtain ⟨next', hsend', hn'⟩ := Endpoint.sender_write hsend hn
  have hnow := hasking t.clock (Nat.le_refl _)
  have hf : (Endpoint.sender s').footprint =
      (Endpoint.sender (.initial (route a b) message kind waitLimit)).footprint :=
    Endpoint.footprint_sender_congr hm
  have hcaller := h.caller.start hq hp.caller (isDue_initial _ _) hf hsend' hn'
  obtain ⟨i, hcallee⟩ :=
    (h.callee.deliver [f]).first hp.callee (Settings.admits_physical hid hrelevant)
      hlabel hb.calleeCapped (Endpoint.receiver_rest (hid ▸ hr)) (paid _ hnow.expected)
  have hnotice :
      Notice.firstFrame (Endpoint.receiver r).address message.length (Endpoint.receiver r).kind =
      .firstFrame (route a b) message.length .diagnostics :=
    congrArg (fun address => Notice.firstFrame address message.length .diagnostics) hnow.target
  rw [hnotice] at hcallee
  exact ⟨_, .asking (stage_round hcaller hcallee) (hasking _ (Nat.le_add_right _ _))
    ((s'.kind_onAck _ _).trans hk) rfl⟩

/-- The oldest request gets through. -/
theorem gets_through
    (h : Stage a b none ((id, .sender (.initial (route a b) message kind waitLimit)) :: queue)
      [] na none nb t)
    (hl : message.length < Pdu.lengthLimit)
    (hroom : (message.length + labelBytes : Nat) ≤ b.budget.remaining)
    (hq : Behind a (route a b) id queue) (hb : Terms a b) :
    Inevitable a b (Stage a b none queue [] (na ++ [.confirm (route a b) (.ok ()) kind]) none
      (nb ++ indications (route a b) message)) t := by
  have ends {nb' : List Notice} {t : Talk} (h : Closing a b message kind id queue na nb' t) :
      Inevitable a b (Stage a b none queue [] (na ++ [.confirm (route a b) (.ok ()) kind]) none nb')
        t :=
    .later fun span hspan => .now (closes h hq hspan)
  refine .later fun span hspan => ?_
  by_cases hs : message.length ≤ Pdu.singleLimit
  · have htold : nb ++ [indication (route a b) message] = nb ++
        indications (route a b) message := by
      rw [indications, if_neg (Nat.not_lt.mpr hs), List.nil_append]
    exact htold ▸ ends (begins_short h hs hroom hq hb hspan)
  · have hs := Nat.lt_of_not_le hs
    have htold : nb ++ [.firstFrame (route a b) message.length .diagnostics] ++
        [indication (route a b) message] =
        nb ++ indications (route a b) message := by
      rw [indications, if_pos hs, List.append_assoc]
    obtain ⟨offset, hhalf⟩ := begins_long h hs hl hroom hq hb hspan
    exact htold ▸ (hhalf.closing hq hb).trans fun _ => ends

end Beginning

end Talk

end Bench
end CanTransport
