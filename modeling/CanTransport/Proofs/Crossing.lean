import CanTransport.Proofs.Overtaking
import CanTransport.Proofs.RoundTrip

/-! # Messages that cross

Two stations begin a message to each other. The identifier that one of them listens on for the flow
control of its own message is the one on which the other's message comes. Once a first frame meets a
sender that waits for flow control, the sender takes it for its own and fails.
-/
namespace CanTransport

theorem Pdu.isFlowControl_of_kind {f : Frame} {kind : PduType} (hk : f.pduType? = some kind)
    (hne : kind ≠ .flowControl) : Sender.isFlowControl f = false := by
  simp [Sender.isFlowControl, hk, hne]

namespace Sender
variable {s : Sender} {f : Frame} {now : Micros}

theorem step_unexpected (ha : s.isAwaiting = true) (hr : s.result = none)
    (ht : s.expired? now = none) (hf : isFlowControl f = false) : s.step now (some f) =
      .rest ((s.notePace now).finish now (.error .unexpectedPdu))
        (.finished (.error .unexpectedPdu)) := by
  have hawaits : (s.notePace now).isAwaiting = true := ha
  rw [step_timely hr ht, act_awaiting hawaits, takeFlowControl, if_neg (by simp [hf])]
  rfl

end Sender

namespace Bench
open Station

variable {a b base home : Station} {id : EndpointId} {f : Frame} {notices : List Notice}
  {clock span : Micros} {message : List UInt8} {kind : MessageType}

namespace NodeView
variable {x : NodeView} {s : Sender} {queue : List (EndpointId × Endpoint)}

/-- A sender that waits for flow control takes the first frame of another message, and fails. -/
theorem Hosts.collides (h : Hosts a clock (some (id, .sender s)) queue [f] notices x)
    (hs : s.address = route a b) (hw : s.isAwaiting = true) (hr : s.result = none)
    (ht : s.expired? clock = none) (hq : Behind a (route a b) id queue) (hf : f.id = route b a)
    (hrelevant : f.isRelevant = true) (hk : f.pduType? = some .firstFrame)
    (hp : a.runPeriod ≤ span) :
    Turns a clock span none queue (notices ++ [.confirm (route a b) (.error .unexpectedPdu) s.kind])
      [] x := by
  have hback : s.address.reversed = route b a := by
    rw [hs]
    exact Address.reversed_physical _ _
  have htakes : Takes a.settings clock id (.sender s) (some f) :=
    ⟨Settings.admits_physical hf hrelevant, decide_eq_true (hf.trans hback.symm), hw⟩
  have ha : (Endpoint.sender s).address = route a b := hs
  have hfootprint :
      (Endpoint.sender ((s.notePace clock).finish clock (.error .unexpectedPdu))).footprint =
      (Endpoint.sender s).footprint := rfl
  have hstep := s.step_unexpected hw hr ht (Pdu.isFlowControl_of_kind hk nofun)
  have hfinish := h.finish (ha ▸ hq) hp htakes hfootprint (Endpoint.sender_rest hstep)
  have hnotice :
      completion
      ((Endpoint.sender ((s.notePace clock).finish clock (.error .unexpectedPdu))).handle id)
      (some (.sender ((s.notePace clock).finish clock (.error .unexpectedPdu)))) =
      .confirm (route a b) (.error .unexpectedPdu) s.kind :=
    congrArg (fun address => Notice.confirm address (.error .unexpectedPdu) s.kind) hs
  rwa [hnotice] at hfinish

/-- A station sends the first frame of its own message, and opens a reception for another that comes
meanwhile. -/
theorem tick_meets {address : Address} {waitLimit : Option UInt8} {length : Nat}
    {r : Receiver} {rest : Budget} (hid : id < base.fresh) (hl : Pdu.singleLimit < message.length)
    (hlimit : message.length < Pdu.lengthLimit) (hrested : base.Rested clock)
    (hadmits : base.settings.admits f = true) (hne : f.id ≠ address)
    (hroom : (message.length + labelBytes + labelBytes : Nat) ≤ base.budget.remaining)
    (hcapped : base.budget.remaining ≤ Budget.top)
    (hs : (Receiver.initial f.id base.settings.blockSize base.settings.separation).step clock
      (some f) ⟨base.budget.remaining - (message.length + labelBytes : Nat) - labelBytes⟩ =
      (.rest r (.firstFrame length), rest))
    (hb : rest.remaining = base.budget.remaining - (message.length + labelBytes : Nat) -
      r.footprint) :
    ∃ y g, (hosting base none false [(id, .sender (.initial address message kind waitLimit))]
      [f] notices).run
        tickIfDue clock = (y, [g]) ∧
        y.notices = notices ++ [.firstFrame r.address length .diagnostics] ∧
      g.id = address ∧ g.isRelevant = true ∧ g.pduType? = some .firstFrame := by
  obtain ⟨g, hg, hgid, hgkind, -⟩ := Pdu.firstFrame?_spec address hl hlimit
  have hwaits : (Endpoint.sender (.initial address message kind waitLimit)).isAwaiting = false := by
    simp [Endpoint.isAwaiting, Sender.isAwaiting, Sender.initial, Nat.not_le.mpr hl]
  obtain ⟨s, next, hsend, hn, hm, haddress⟩ : ∃ s next, (∀ budget,
      (Endpoint.sender (.initial address message kind waitLimit)).step clock none budget =
      (.write g next, budget)) ∧
      next true clock = (.sender s, .inProgress) ∧ s.message = message ∧ s.address = address := by
    obtain ⟨next, hsend, hn⟩ :=
      Endpoint.sender_write (Sender.step_first kind waitLimit clock hl hg) rfl
    exact ⟨_, next, hsend, hn, rfl, rfl⟩
  have hfootprint : (Endpoint.sender s).footprint =
      (Endpoint.sender (.initial address message kind waitLimit)).footprint :=
    Endpoint.footprint_sender_congr hm
  have hbudget : ((base.ticked clock).hosting (some (id, .sender s)) true []).budget.remaining =
      base.budget.remaining - (message.length + labelBytes : Nat) := by
    rw [← hm]
    rfl
  rw [← hbudget] at hs hb
  have hopen := NodeRun.openReceiver_run (f := f)
    (d := ⟨⟨(base.ticked clock).hosting (some (id, .sender s)) true [], [], [.success], notices⟩,
      clock, [g]⟩)
    base.settings ?_ ?_ ?_ ?_ hs hb
  · have hattend : ((attend base.settings).run NodeRun.answer ⟨⟨(base.ticked clock).hosting
        (some (id, .sender (.initial address message kind waitLimit))) false [], [f], [], notices⟩,
        clock, []⟩).2 =
        ⟨⟨((base.ticked clock).hosting (some (id, .sender s)) true []).joined r, [], [.success],
          notices ++ [.firstFrame r.address length .diagnostics]⟩, clock, [g]⟩ := by
      rw [NodeRun.attend_pass_write hadmits hwaits (Talk.isDue_initial address clock)
        List.not_mem_nil hfootprint hsend hn, hopen]
      exact NodeRun.retire_quiet rfl
    exact ⟨_, g, (tick_start hrested fun _ hp => absurd hp List.not_mem_nil).trans (run_eq hattend),
      rfl, hgid, Pdu.relevant_firstFrame hg, hgkind⟩
  · intro p hp
    rw [List.mem_singleton.mp hp]
    exact hid
  · change List.lookup f.id [(s.address, _)] = none
    rw [haddress, List.lookup_cons, beq_eq_false_iff_ne.mpr hne]
    rfl
  · change (labelBytes : Int) ≤
      ((base.ticked clock).hosting (some (id, .sender s)) true []).budget.remaining
    rw [hbudget]
    omega
  · change ((base.ticked clock).hosting (some (id, .sender s)) true []).budget.remaining ≤
      Budget.top
    rw [hbudget]
    omega

theorem route_ne (hne : a.settings.source ≠ b.settings.source) : route a b ≠ route b a := by
  intro he
  have htarget := congrArg Address.target he
  exact hne (by simpa [route, Address.physical] using htarget.symm)

/-- Both stations begin their messages, and the one that was first fails at its next tick. -/
theorem crosses {m₁ m₂ : List UInt8} (k₁ k₂ : MessageType) (hab : Terms a b)
    (hne : a.settings.source ≠ b.settings.source) (hl₁ : Pdu.singleLimit < m₁.length)
    (hl₁' : m₁.length < Pdu.lengthLimit) (hl₂ : Pdu.singleLimit < m₂.length)
    (hl₂' : m₂.length < Pdu.lengthLimit)
    (hroom : (m₁.length + labelBytes : Nat) ≤ a.budget.remaining)
    (hroom' : (m₁.length + labelBytes + (m₂.length + labelBytes) : Nat) ≤ b.budget.remaining)
    (ha : a.Rested clock) (hb : b.Rested clock) (hp : a.runPeriod ≤ span) :
    ∃ x y x', exchange (hosting a.adopted none false [newcomer a (route a b) m₁ k₁] [] [])
        (hosting b.adopted none false [newcomer b (route b a) m₂ k₂] [] []) clock = (x, y) ∧
      x.run tickIfDue (clock + span) = (x', []) ∧
      x'.notices = [.confirm (route a b) (.error .unexpectedPdu) k₁] ∧
      y.notices = [.firstFrame (route a b) m₁.length .diagnostics] := by
  have hphysical (a b : Station) : (route a b).isFunctional = false :=
    Address.isFunctional_physical _ _
  have hcapped : b.budget.remaining - (m₂.length + labelBytes : Nat) - labelBytes ≤ Budget.top := by
    have := hab.calleeCapped
    omega
  have hrest : (m₁.length : Int) ≤ b.budget.remaining - (m₂.length + labelBytes : Nat) -
      labelBytes := by omega
  obtain ⟨f, next, s, r, hsend, hn, hid, hrelevant, hkind, hk, hm, hr, hasking⟩ :=
    begins_first k₁ a.waitLimit b.settings.blockSize clock (hphysical a b) hl₁ hl₁'
      hab.pause hrest hcapped
  obtain ⟨next, hsend, hn⟩ := Endpoint.sender_write hsend hn
  have hnow := hasking clock (Nat.le_refl _)
  have hlater := hasking (clock + span) (Nat.le_add_right _ _)
  have hfootprint : (Endpoint.sender s).footprint =
      (Endpoint.sender (.initial (route a b) m₁ k₁ a.waitLimit)).footprint :=
    Endpoint.footprint_sender_congr hm
  have hbehind : Behind a (route a b) a.fresh [] :=
    ⟨List.not_mem_nil, fun _ hp =>
      absurd hp List.not_mem_nil, by simpa using Int.le_trans (Int.natCast_nonneg _) hroom,
      hab.callerCapped⟩
  have hhosts : Hosts a clock none [newcomer a (route a b) m₁ k₁] [] []
      (hosting a.adopted none false [newcomer a (route a b) m₁ k₁] [] []) :=
      ⟨a.adopted, ⟨rfl, rfl, rfl, ha⟩, rfl⟩
  obtain ⟨x, hx, hcaller⟩ := hhosts.start hbehind hp (Talk.isDue_initial _ _) hfootprint hsend hn
  have hapart : f.id ≠ route b a := by
    rw [hid]
    exact route_ne hne
  have hpaid : b.budget.remaining - (m₂.length + labelBytes : Nat) - labelBytes - m₁.length =
      b.budget.remaining - (m₂.length + labelBytes : Nat) - r.footprint := by
    have hexpected : r.footprint = m₁.length + labelBytes := congrArg (· + labelBytes) hnow.expected
    omega
  have hroom₂ : (m₂.length + labelBytes + labelBytes : Nat) ≤ b.budget.remaining := by omega
  have hfresh : b.fresh < b.adopted.fresh := Nat.lt_succ_self _
  obtain ⟨y, g, hy, hnotices, hgid, hgrelevant, hgkind⟩ := tick_meets hfresh hl₂ hl₂' hb
    (Settings.admits_physical hid hrelevant) hapart hroom₂ hab.calleeCapped (hid ▸ hr) hpaid
  have hwaits := Sender.isAwaiting_iff.mpr hlater.waits
  have htimely := Sender.expired?_of_start hlater.confirmed hlater.since
  obtain ⟨z, hz, hend⟩ := (hcaller [g]).collides hlater.source hwaits hlater.sending htimely
      hbehind hgid hgrelevant
    hgkind hp
  obtain ⟨last, -, hlast⟩ := hend []
  have htold : z.notices = [] ++
      [.confirm (route a b) (.error .unexpectedPdu) (s.onAck (clock + span) .success).kind] :=
    congrArg NodeView.notices hlast
  rw [Sender.kind_onAck, hk] at htold
  have htarget : r.address = route a b := hnow.target
  rw [htarget] at hnotices
  exact ⟨_, y, z, exchange_eq hx hy, hz, htold, hnotices⟩

end NodeView

variable {m₁ m₂ : Request}

def Bus.asked (start : Micros) (a b : Station) (m₁ m₂ : Request) : Bus :=
  (((joining start a b).call 0 (.request b.settings.source .physical m₁.1 m₁.2)).2.call 1
    (.request a.settings.source .physical m₂.1 m₂.2)).2

/-- Both stations tick, and then the first one ticks again. -/
def Bus.crossing (start span : Micros) (a b : Station) (m₁ m₂ : Request) : Bus :=
  (((asked start a b m₁ m₂).round [0, 1] span).run 0 tickIfDue).2

theorem shows_asked {ca cb : Config} (start : Micros) (ha : Station.ofConfig ca = .ok a)
    (hb : Station.ofConfig cb = .ok b) (hl₁ : m₁.1.length < Pdu.lengthLimit)
    (hl₂ : m₂.1.length < Pdu.lengthLimit)
    (hroom : (m₁.1.length + labelBytes : Nat) ≤ a.budget.remaining)
    (hroom' : (m₂.1.length + labelBytes : Nat) ≤ b.budget.remaining) :
    (Bus.asked start a b m₁ m₂).Shows start (fun _ => [])
        (pair (.hosting a.adopted none false [NodeView.newcomer a (route a b) m₁.1 m₁.2] [] [])
          (.hosting b.adopted none false [NodeView.newcomer b (route b a) m₂.1 m₂.2] [] [])) ∧
      (Bus.asked start a b m₁ m₂).nodes.length = 2 := by
  have hab := terms_of_config ha hb
  have hlength : (Bus.joining start a b).nodes.length = 2 := rfl
  have hask₁ : (Station.request b.settings.source .physical m₁.1 m₁.2).run NodeRun.answer
      ⟨.hosting a none false [] [] [], start, []⟩ =
      (.ok a.fresh,
        ⟨.hosting a.adopted none false [NodeView.newcomer a (route a b) m₁.1 m₁.2] [] [], start,
          []⟩) :=
    NodeView.request_accepted m₁.2 hl₁ (by simpa using hroom) hab.callerCapped
  have hask₂ : (Station.request a.settings.source .physical m₂.1 m₂.2).run NodeRun.answer
      ⟨.hosting b none false [] [] [], start, []⟩ =
      (.ok b.fresh,
        ⟨.hosting b.adopted none false [NodeView.newcomer b (route b a) m₂.1 m₂.2] [] [], start,
          []⟩) :=
    NodeView.request_accepted m₂.2 hl₂ (by simpa using hroom') hab.calleeCapped
  obtain ⟨h₁, hn₁⟩ := (shows_joining ha hb start).requestAt (i := 0) (by omega) hask₁
  obtain ⟨h₂, hn₂⟩ := h₁.requestAt (i := 1) (by omega) hask₂
  refine ⟨h₂.congr fun i hi => ?_, hn₂.trans (hn₁.trans hlength)⟩
  match i, hi with
  | 0, _ => rfl
  | 1, _ => rfl
  | i + 2, hi => exact absurd hi (by omega)

/-- Two messages that cross do not get through: the station that asked first takes the first frame
of the other message for an answer to its own, and confirms an unexpected frame. -/
theorem crossing_fails {ca cb : Config} (ha : Station.ofConfig ca = .ok a)
    (hb : Station.ofConfig cb = .ok b) (hne : a.settings.source ≠ b.settings.source)
    (start : Micros) (hl₁ : Pdu.singleLimit < m₁.1.length) (hl₁' : m₁.1.length < Pdu.lengthLimit)
    (hl₂ : Pdu.singleLimit < m₂.1.length) (hl₂' : m₂.1.length < Pdu.lengthLimit)
    (hroom : needed [m₁, m₂] ≤ a.budget.remaining) (hroom' : needed [m₁, m₂] ≤ b.budget.remaining)
    (hp : a.runPeriod ≤ span) :
    (Bus.crossing start span a b m₁ m₂).noticesAt 0 =
    [.confirm (route a b) (.error .unexpectedPdu) m₁.2] ∧
      (Bus.crossing start span a b m₁ m₂).noticesAt 1 =
      [.firstFrame (route a b) m₁.1.length .diagnostics] := by
  have hneeded : needed [m₁, m₂] = m₁.1.length + labelBytes + (m₂.1.length + labelBytes) := rfl
  have hask₁ : (m₁.1.length + labelBytes : Nat) ≤ a.budget.remaining := by omega
  have hask₂ : (m₂.1.length + labelBytes : Nat) ≤ b.budget.remaining := by omega
  obtain ⟨hasked, hlength⟩ := shows_asked start ha hb hl₁' hl₂' hask₁ hask₂
  obtain ⟨x, y, z, hexchange, hz, hconfirm, hfirst⟩ :=
    NodeView.crosses m₁.2 m₂.2 (terms_of_config ha hb) hne hl₁ hl₁' hl₂ hl₂' (by omega) (by omega)
      ((hosting_of_config ha).2 start).rested ((hosting_of_config hb).2 start).rested hp
  obtain ⟨hround, hlength⟩ : _ ∧ ((Bus.asked start a b m₁ m₂).round [0, 1] span).nodes.length = 2 :=
    hasked.round hlength
  rw [hexchange] at hround
  obtain ⟨hlast, hlength'⟩ := hround.runAt (i := 0) (by omega) tickIfDue_disciplined
  have hz : (pair x y 0).run tickIfDue (start + span) = (z, []) := hz
  rw [hz] at hlast
  constructor
  · exact (hlast.notices 0 (by rw [hlength']; omega)).trans hconfirm
  · exact (hlast.notices 1 (by rw [hlength']; omega)).trans hfirst

def twentyBytes : Request := ((List.range 20).map UInt8.ofNat, .diagnostics)

theorem ofConfig_tester :
    Station.ofConfig { source := 0xF1, memoryBudget := 10 * 1024 } = .ok tester := rfl

theorem ofConfig_unit : Station.ofConfig
    { source := 0x10, blockSize := 2, separation := ⟨5, .millis⟩, memoryBudget := 10 * 1024 } =
      .ok unit := rfl

theorem crossing_fails_twentyBytes :
    (Bus.crossing 0 (100 * 1000) tester unit twentyBytes twentyBytes).noticesAt 0 =
        [.confirm (route tester unit) (.error .unexpectedPdu) .diagnostics] ∧
      (Bus.crossing 0 (100 * 1000) tester unit twentyBytes twentyBytes).noticesAt 1 =
        [.firstFrame (route tester unit) 20 .diagnostics] :=
  crossing_fails ofConfig_tester ofConfig_unit (by decide) 0 (by decide) (by decide) (by decide)
    (by decide) (by decide)
    (by decide) (Nat.le_refl _)

/-- The two directions are not independent of each other. -/
theorem crossing_not_independent :
    ¬ ∀ (ca cb : Config) (a b : Station) (m₁ m₂ : Request) (span : Micros), Station.ofConfig ca =
      .ok a → Station.ofConfig cb = .ok b → a.settings.source ≠ b.settings.source →
    needed [m₁, m₂] ≤ a.budget.remaining → needed [m₁, m₂] ≤ b.budget.remaining → Pace a b span →
    ∀ address error kind, .confirm address (.error error) kind ∉
      (Bus.crossing 0 span a b m₁ m₂).noticesAt 0 := by
  intro hindependent
  have hnotices : (Bus.crossing 0 (100 * 1000) tester unit twentyBytes twentyBytes).noticesAt 0 =
      [.confirm (.physical 0x10 0xF1) (.error .unexpectedPdu) .diagnostics] := by decide +kernel
  have hpace : Pace tester unit (100 * 1000) := ⟨by decide, by decide, by decide, by decide⟩
  have hnone := hindependent _ _ _ _ twentyBytes twentyBytes _ ofConfig_tester ofConfig_unit
      (by decide) (by decide)
    (by decide) hpace (.physical 0x10 0xF1) .unexpectedPdu .diagnostics
  exact hnone (hnotices ▸ List.mem_singleton_self _)

end Bench
end CanTransport
