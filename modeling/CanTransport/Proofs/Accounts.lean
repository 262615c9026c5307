import CanTransport.Proofs.Attribution
import CanTransport.Proofs.Orderliness
import CanTransport.Proofs.Waiting

/-! # Endpoints stand as their frames and outcomes tell

A sender has put a part of its message on the bus, and of these frames all are reported successes
but the one whose outcome it waits for.
-/
namespace CanTransport

structure Still (id : EndpointId) (c c' : Scene) : Prop where
  entries : ∀ e ∈ c'.station.outbox, e.writer = some id → ∃ e ∈ c.station.outbox, e.writer = some id
  frames : framesOf id c'.events = framesOf id c.events
  count : (outcomesOf id c'.events).length = (outcomesOf id c.events).length
  known : ∀ (k : Nat) (a : Ack), (outcomesOf id c.events)[k]? = some (some a) →
    (outcomesOf id c'.events)[k]? = some (some a)
  admitted : ∀ address message kind, .admitted id address message kind ∈ c'.events →
    .admitted id address message kind ∈ c.events

/-- The endpoint `r`, of number `id`, stands as its frames and their outcomes tell. -/
structure Accounted (c : Scene) (id : EndpointId) (r : Endpoint) : Prop where
  silent : ∀ e ∈ c.station.outbox, e.writer = some id → r.Silent
  emitted : ∀ s, r = .sender s → s.Emitted (framesOf id c.events)
  succeeded : ∀ s, r = .sender s → s.phase ≠ .failed →
    ∀ k, k + (if s.awaitsOutcome then 1 else 0) < (outcomesOf id c.events).length →
      (outcomesOf id c.events)[k]? = some (some .success)

def Described (c : Scene) (id : EndpointId) (r : Endpoint) : Prop :=
  ∀ address message kind, .admitted id address message kind ∈ c.events →
    ∃ s, r = .sender s ∧ s.subject = (address, message, kind)

def Confirmed (c : Scene) (id : EndpointId) : Prop :=
  ∃ address kind, .told id (.confirm address (.ok ()) kind) ∈ c.events

/-- All of the message of number `id` is sent, and nothing more will be. -/
structure Settled (c : Scene) (id : EndpointId) : Prop where
  lt : id < c.station.fresh
  spent : ∀ r, c.station.endpoint? id = some r → ∃ s, r = .sender s ∧
    s.phase = .sent ∧ s.result ≠ none
  frames : ∀ address message kind, .admitted id address message kind ∈ c.events →
    framesOf id c.events = Pdu.segmentation address message
  outcomes : ∀ o ∈ outcomesOf id c.events, o = some .success

def Task.Sound (c : Scene) : Task → Prop
  | .step b =>
    Described c b.id b.origin ∧ (b.accepted = false → Accounted c b.id b.origin) ∧
      (b.accepted = true → ∀ after, Accounted c b.id (b.next true after).1)
  | .ack id a =>
    (∀ e ∈ c.station.outbox, e.writer ≠ some id) ∧ (outcomesOf id c.events).getLast? = some (some a)

variable {c c' : Scene} {id : EndpointId} {r : Endpoint}

theorem Still.of_eq (ho : c'.station.outbox = c.station.outbox) (he : c'.events = c.events) :
    Still id c c' := by
  constructor
  case entries =>
    intro e hmem hw
    exact ⟨e, ho ▸ hmem, hw⟩
  case frames => rw [he]
  case count => rw [he]
  case known =>
    intro k a h
    exact he ▸ h
  case admitted =>
    intro _ _ _ h
    exact he ▸ h

theorem Described.still (h : Described c id r) (hs : Still id c c') : Described c' id r :=
  fun address message kind hadm => h address message kind (hs.admitted _ _ _ hadm)

theorem Accounted.still (h : Accounted c id r) (hs : Still id c c') : Accounted c' id r where
  silent e he hw := by
    obtain ⟨e', he', hw'⟩ := hs.entries e he hw
    exact h.silent e' he' hw'
  emitted s hr := hs.frames ▸ h.emitted s hr
  succeeded s hr hp k hk := hs.known k _ (h.succeeded s hr hp k (hs.count ▸ hk))

theorem getLast?_still (hs : Still id c c') {a : Ack}
    (h : (outcomesOf id c.events).getLast? = some (some a)) :
    (outcomesOf id c'.events).getLast? = some (some a) := by
  rw [List.getLast?_eq_getElem?] at h ⊢
  rw [hs.count]
  exact hs.known _ a h

theorem Task.Sound.still {t : Task} (h : t.Sound c) (hs : Still t.id c c') : t.Sound c' := by
  cases t with
  | step b =>
    exact ⟨h.1.still hs, fun ha => (h.2.1 ha).still hs, fun ha after => (h.2.2 ha after).still hs⟩
  | ack id ack =>
    refine ⟨fun e he hw => ?_, getLast?_still hs h.2⟩
    obtain ⟨e', he', hw'⟩ := hs.entries e he hw
    exact h.1 e' he' hw'

theorem outcomes_still (hs : Still id c c') (h : ∀ o ∈ outcomesOf id c.events, o = some .success) :
    ∀ o ∈ outcomesOf id c'.events, o = some .success := by
  intro o ho
  obtain ⟨k, hk, rfl⟩ := List.mem_iff_getElem.mp ho
  have hk' : k < (outcomesOf id c.events).length := hs.count ▸ hk
  have hold : (outcomesOf id c.events)[k]? = some (some .success) := by
    rw [List.getElem?_eq_getElem hk', h _ (List.getElem_mem hk')]
  have hnew := hs.known k _ hold
  rw [List.getElem?_eq_getElem hk] at hnew
  exact Option.some.inj hnew

theorem Settled.still (h : Settled c id) (hs : Still id c c')
    (hf : c.station.fresh ≤ c'.station.fresh)
    (he : ∀ r, c'.station.endpoint? id = some r → c.station.endpoint? id = some r) :
    Settled c' id where
  lt := Nat.lt_of_lt_of_le h.lt hf
  spent r hr := h.spent r (he r hr)
  frames address message kind hadm :=
    hs.frames ▸ h.frames address message kind (hs.admitted _ _ _ hadm)
  outcomes := outcomes_still hs h.outcomes

theorem Still.note {e : Event} (hw : e.write? = none) (ho : e.outcome? = none)
    (ha : ∀ address message kind, e ≠ .admitted id address message kind)
    (hout : c'.station.outbox = c.station.outbox) (he : c'.events = c.events ++ [e]) :
    Still id c c' := by
  have hw : writesIn c'.events = writesIn c.events := he ▸ writesIn_append_of_none _ hw
  have ho : outcomesIn c'.events = outcomesIn c.events := he ▸ outcomesIn_append_of_none _ ho
  have hk : outcomesOf id c'.events = outcomesOf id c.events := by
    rw [outcomesOf, ticketsIn, hw, ho, outcomesOf, ticketsIn]
  constructor
  case entries =>
    intro e hmem hid
    exact ⟨e, hout ▸ hmem, hid⟩
  case frames => rw [framesOf, hw, framesOf]
  case count => rw [hk]
  case known =>
    intro k a h
    exact hk ▸ h
  case admitted =>
    intro address message kind hadm
    rw [he] at hadm
    rcases List.mem_append.mp hadm with hadm | hadm
    · exact hadm
    · exact absurd (List.mem_singleton.mp hadm).symm (ha address message kind)

theorem Still.release (he : c'.events = c.events)
    (ho : ∀ e ∈ c'.station.outbox, e.writer = some id →
      ∃ e ∈ c.station.outbox, e.writer = some id) : Still id c c' := by
  constructor
  case entries => exact ho
  case frames => rw [he]
  case count => rw [he]
  case known =>
    intro k a h
    exact he ▸ h
  case admitted =>
    intro _ _ _ h
    exact he ▸ h

theorem Still.accept {writer : EndpointId} (hi : id ≠ writer)
    (hp : (outcomesIn c.events).length ≤ (writesIn c.events).length)
    (frame : Frame) (address : Address) :
    Still id c ((c.note (.accepted writer frame)).access fun s =>
      { s with outbox := s.outbox.push address writer }) := by
  have hout : outcomesOf id (c.events ++ [.accepted writer frame]) = outcomesOf id c.events := by
    rw [outcomesOf_accepted hp, if_neg (Ne.symm hi), List.append_nil]
  constructor
  case entries =>
    intro e he hw
    rcases List.mem_append.mp he with he | he
    · exact ⟨e, he, hw⟩
    · rw [List.mem_singleton.mp he] at hw
      exact absurd (Option.some.inj hw).symm hi
  case frames =>
    apply (framesOf_accepted c.events writer frame id).trans
    rw [if_neg (Ne.symm hi), List.append_nil]
  case count => exact congrArg List.length hout
  case known =>
    intro k a h
    exact hout ▸ h
  case admitted =>
    intro address message kind hadm
    simpa [Scene.access, Scene.note] using hadm

/-! Steps, refusals and outcomes leave an endpoint accounted for. -/

section Endpoints
variable {next : Endpoint} {frame : Frame} {input : Option Frame} {clock after : Micros}
  {budget : Budget} {outcome : StepOutcome} {nextStep : Bool → Micros → Endpoint × StepOutcome}

theorem Described.follow (h : Described c id r)
    (hn : ∀ s, r = .sender s → ∃ s', next = .sender s' ∧ s'.subject = s.subject) :
    Described c id next := by
  intro address message kind hadm
  obtain ⟨s, hr, hs⟩ := h address message kind hadm
  obtain ⟨s', hn, hs'⟩ := hn s hr
  exact ⟨s', hn, hs'.trans hs⟩

theorem Described.step (h : Described c id r) (clock after : Micros) (input : Option Frame)
    (budget : Budget) (accepted : Bool) :
    Described c id ((r.step clock input budget).1.finish accepted after).1 := by
  apply h.follow
  intro s hr
  subst hr
  refine ⟨((s.step clock input).finish accepted after).1, ?_,
    Sender.subject_step s clock after input accepted⟩
  simp only [Endpoint.step, Endpoint.finish_map]

theorem Accounted.rest (h : Accounted c id r)
    (hr : (r.step clock input budget).1 = .rest next outcome) :
    Accounted c id next := by
  constructor
  · intro e he hw
    exact Endpoint.step_rests hr (h.silent e he hw)
  · rintro s' rfl
    cases r with
    | sender s =>
      obtain ⟨s₁, hm, he⟩ := Endpoint.map_eq_rest hr
      cases he
      have he : ((s.step clock input).finish true clock).1.Emitted
          (_ ++ (s.step clock input).written true) :=
        Sender.step_emitted (h.emitted s rfl) true
      rw [hm] at he
      simpa using he
    | receiver r =>
      obtain ⟨r₁, -, he⟩ := Endpoint.map_eq_rest hr
      cases he
  · rintro s' rfl hp k hk
    cases r with
    | sender s =>
      obtain ⟨s₁, hm, he⟩ := Endpoint.map_eq_rest hr
      cases he
      rcases Sender.step_rests hm with ⟨hp', -⟩ | ⟨hp', -⟩ | ⟨-, ha, ha', hp'⟩
      · apply h.succeeded s rfl (hp' ▸ hp) k
        rwa [Sender.awaitsOutcome_of_phase hp'] at hk
      · exact absurd hp' hp
      · apply h.succeeded s rfl hp' k
        simpa only [ha, ha'] using hk
    | receiver r =>
      obtain ⟨r₁, -, he⟩ := Endpoint.map_eq_rest hr
      cases he

theorem Accounted.unwritten (h : Accounted c id r)
    (hw : (r.step clock input budget).1 = .write frame nextStep) :
    ∀ e ∈ c.station.outbox, e.writer ≠ some id :=
  fun e he hid => (Endpoint.step_writes hw).1 (h.silent e he hid)

theorem Accounted.refuse (h : Accounted c id r)
    (hw : (r.step clock input budget).1 = .write frame nextStep) :
    Accounted c id (nextStep false after).1 := by
  constructor
  · intro e he hid
    exact absurd hid (h.unwritten hw e he)
  · intro s' hs'
    cases r with
    | sender s =>
      obtain ⟨step, hm, hn⟩ := Endpoint.map_eq_write hw
      have he : ((s.step clock input).finish false after).1.Emitted
          (_ ++ (s.step clock input).written false) :=
        Sender.step_emitted (h.emitted s rfl) false
      rw [hn] at hs'
      cases hs'
      rw [hm] at he
      simpa using he
    | receiver r =>
      obtain ⟨step, -, hn⟩ := Endpoint.map_eq_write hw
      rw [hn] at hs'
      cases hs'
  · intro s' hs' hp k hk
    cases r with
    | sender s =>
      obtain ⟨step, hm, hn⟩ := Endpoint.map_eq_write hw
      rw [hn] at hs'
      cases hs'
      have hw := Sender.step_writes hm
      apply h.succeeded s rfl hw.unfailed k
      rwa [Sender.awaitsOutcome_of_phase (hw.refused after)] at hk
    | receiver r =>
      obtain ⟨step, -, hn⟩ := Endpoint.map_eq_write hw
      rw [hn] at hs'
      cases hs'

/-- An accepted frame is the next one, and the frames before it have succeeded. -/
theorem Accounted.accept (h : Accounted c id r)
    (hw : (r.step clock input budget).1 = .write frame nextStep)
    (hf : framesOf id c'.events = framesOf id c.events ++ [frame])
    (ho : outcomesOf id c'.events = outcomesOf id c.events ++ [none]) :
    Accounted c' id (nextStep true after).1 := by
  constructor
  · intro e he hid
    exact (Endpoint.step_writes hw).2 after
  · intro s' hs'
    cases r with
    | sender s =>
      obtain ⟨step, hm, hn⟩ := Endpoint.map_eq_write hw
      have he : ((s.step clock input).finish true after).1.Emitted
          (_ ++ (s.step clock input).written true) :=
        Sender.step_emitted (h.emitted s rfl) true
      rw [hn] at hs'
      cases hs'
      rw [hm] at he
      simpa [hf] using he
    | receiver r =>
      obtain ⟨step, -, hn⟩ := Endpoint.map_eq_write hw
      rw [hn] at hs'
      cases hs'
  · intro s' hs' hp k hk
    cases r with
    | sender s =>
      obtain ⟨step, hm, hn⟩ := Endpoint.map_eq_write hw
      rw [hn] at hs'
      cases hs'
      have hw := Sender.step_writes hm
      have hwait := hw.accepted after
      simp only [hwait, if_true, ho, List.length_append, List.length_singleton] at hk
      have hk : k < (outcomesOf id c.events).length := by omega
      rw [ho, List.getElem?_append_left hk]
      apply h.succeeded s rfl hw.unfailed k
      simpa [hw.settled] using hk
    | receiver r =>
      obtain ⟨step, -, hn⟩ := Endpoint.map_eq_write hw
      rw [hn] at hs'
      cases hs'

/-- The outcome handed over is that of the last frame. -/
theorem Accounted.acknowledge {a : Ack} (h : Accounted c id r) (hs : Task.Sound c (.ack id a))
    (now : Micros) :
    Accounted c id (r.onAck now a) := by
  obtain ⟨hentry, hlast⟩ := hs
  constructor
  · intro e he hid
    exact absurd hid (hentry e he)
  · intro s' hs'
    cases r with
    | sender s =>
      cases hs'
      exact Sender.onAck_emitted (h.emitted s rfl) now a
    | receiver r => cases hs'
  · intro s' hs' hp k hk
    cases r with
    | receiver r => cases hs'
    | sender s =>
      cases hs'
      rcases Sender.onAck_awaits hp with he | ⟨ha, rfl, ha'⟩
      · rw [he] at hp hk
        exact h.succeeded s rfl hp k hk
      · have hp' : s.phase ≠ .failed := by
          intro hp'
          simp [Sender.awaitsOutcome, hp'] at ha
        simp only [ha', Bool.false_eq_true, if_false, Nat.add_zero] at hk
        by_cases hk' : k + 1 < (outcomesOf id c.events).length
        · exact h.succeeded s rfl hp' k (by simpa [ha] using hk')
        · rw [List.getLast?_eq_getElem?, show (outcomesOf id c.events).length - 1 = k by omega]
            at hlast
          exact hlast

theorem Accounted.adjust {change : Endpoint → Endpoint} (h : Accounted c id r)
    (hs : Endpoint.Setter change) :
    Accounted c id (change r) where
  silent e he hw := hs.silent.mpr (h.silent e he hw)
  emitted s hr := h.emitted s (hs.eq_sender hr)
  succeeded s hr := h.succeeded s (hs.eq_sender hr)

end Endpoints

theorem Station.completion_success {h : Handle} {seen : Option Endpoint}
    {n : Address} {kind : MessageType} (hc : .confirm n (.ok ()) kind = Station.completion h seen) :
    ∃ s, seen = some (.sender s) ∧ s.result = some (.ok ()) := by
  cases seen with
  | none => cases hr : h.role <;> simp [Station.completion, hr] at hc
  | some r =>
    cases r with
    | receiver r => cases hc
    | sender s =>
      refine ⟨s, rfl, ?_⟩
      obtain ⟨-, hresult, -⟩ := Notice.confirm.inj hc
      cases hr : s.result with
      | none => simp [hr] at hresult
      | some result => simp [hr] at hresult; rw [← hresult]

/-- A sender that has succeeded and that its frames account for is settled. -/
theorem Accounted.settled {s : Sender} (h : Accounted c id (.sender s))
    (hd : Described c id (.sender s)) (hn : c.station.Numbered)
    (hr : c.station.endpoint? id = some (.sender s)) (hs : s.result = some (.ok ())) :
    Settled c id where
  lt := hn.lt hr
  spent r hr' := by
    obtain rfl := Option.some.inj (hr.symm.trans hr')
    exact ⟨s, rfl, (h.emitted s rfl).succeeded.mp hs, by simp [hs]⟩
  frames address message kind hadm := by
    obtain ⟨s', hs', hsub⟩ := hd address message kind hadm
    cases hs'
    obtain ⟨ha, hm, -⟩ : s.address = address ∧ s.message = message ∧ s.kind = kind := by
      simpa [Sender.subject] using hsub
    rw [(h.emitted s rfl).eq_segmentation hs, ha, hm]
  outcomes o ho := by
    have hp : s.phase = .sent := (h.emitted s rfl).succeeded.mp hs
    obtain ⟨k, hk, rfl⟩ := List.mem_iff_getElem.mp ho
    have hsuccess :=
      h.succeeded s rfl (by simp [hp]) k (by simpa [Sender.awaitsOutcome, hp] using hk)
    rw [List.getElem?_eq_getElem hk] at hsuccess
    exact Option.some.inj hsuccess

end CanTransport
