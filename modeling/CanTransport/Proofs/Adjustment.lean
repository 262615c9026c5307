import CanTransport.Proofs.Stages

/-! # Settings that change while a tick runs

A setter reaches the conversations there are and those that later ticks begin. A tick looks at the
settings once, at its beginning. If a setter is called while the frame is read, the reception that
the frame opens has the old settings, and it asks for its first block with them, although the setter
has long returned.
-/
namespace CanTransport
open CanTransport.Action

namespace Station
variable {w : Calm} {c c' : Scene} {change : Endpoint → Endpoint} {handles : List Handle}
  {a : Except LockTimeout Unit}

theorem calm_changeEach (h : (changeEach change handles).Yields w.Answers c a c') :
    (∃ endpoints, c'.station = { c.station with endpoints }) ∧ c'.events = c.events := by
  induction handles generalizing c with
  | nil =>
    obtain ⟨-, rfl⟩ := h
    exact ⟨⟨_, rfl⟩, rfl⟩
  | cons g rest ih =>
    obtain ⟨changed, c₁, h₁, h₂⟩ := yields_bind.mp h
    rcases calm_withLock_cases h₁ with ⟨rfl, rfl⟩ | ⟨_, c₂, hb, rfl, rfl⟩
    · obtain ⟨-, rfl⟩ := h₂
      exact ⟨⟨_, rfl⟩, rfl⟩
    · obtain rfl := calm_modify.mp hb
      obtain ⟨⟨endpoints, hs⟩, he⟩ := ih h₂
      exact ⟨⟨endpoints, hs⟩, he⟩

theorem calm_changeAll (h : (changeAll change).Yields w.Answers c a c') :
    (∃ endpoints, c'.station = { c.station with endpoints }) ∧ c'.events = c.events := by
  have hlook {lock : Lock} {seen : Except LockTimeout Station} {c₁ : Scene}
      (h : (withLock lock get).Yields w.Answers c seen c₁) : c₁ = c := by
    rcases calm_withLock_cases h with ⟨-, rfl⟩ | ⟨_, c₂, hb, -, rfl⟩
    · rfl
    · obtain ⟨-, rfl⟩ := calm_get.mp hb
      exact unlock_lock c lock
  obtain ⟨waiting, c₁, h₁, h₂⟩ := yields_bind.mp h
  obtain rfl := hlook h₁
  cases waiting with
  | error e =>
    obtain ⟨-, rfl⟩ := h₂
    exact ⟨⟨_, rfl⟩, rfl⟩
  | ok waiting =>
    obtain ⟨running, c₂, h₃, h₄⟩ := yields_bind.mp h₂
    obtain rfl := hlook h₃
    cases running with
    | error e =>
      obtain ⟨-, rfl⟩ := h₄
      exact ⟨⟨_, rfl⟩, rfl⟩
    | ok running => exact calm_changeEach h₄

theorem calm_changeSettings {change : Settings → Settings}
    (h : (changeSettings change).Yields w.Answers c a c') :
    a = .error .expired ∨ c' = c.access fun s => { s with settings := change s.settings } := by
  rcases calm_withLock_cases h with ⟨he, -⟩ | ⟨_, c₁, hb, -, rfl⟩
  · exact .inl he
  · rw [calm_modify.mp hb]
    exact .inr (unlock_access_lock c _ _)

end Station

/-- A receiver that owes its first flow control, with these settings. -/
structure Receiver.Owing (q : Receiver) (address : Address) (settings : Settings) : Prop where
  phase : q.phase = .sendFlow
  running : q.result = none
  unsent : q.nAr.isRunning = false
  unheard : q.nCr.isRunning = false
  address_eq : q.address = address
  blockSize_eq : q.blockSize = settings.blockSize
  separation_eq : q.separation = settings.separation

namespace Calm
open Station Scene

inductive Sets (clock : Micros) (c c' : Scene) : (Settings → Settings) → Prop
  | blockSize {value : UInt8}
      (h : (setBlockSize value).Yields ({ clock } : Calm).Answers c (.ok ()) c') :
    Sets clock c c' fun s => { s with blockSize := value }
  | separation {value : SeparationTime}
      (h : (setSeparation value).Yields ({ clock } : Calm).Answers c (.ok ()) c') :
    Sets clock c c' fun s => { s with separation := value }

variable {clock later : Micros} {change : Settings → Settings} {c c₁ c' read : Scene}
  {f : Frame} {config : Config}

theorem Sets.episode (h : Sets clock c c' change) : Episode 1 c c' := by
  have hends {α : Type} {p : Action α} {a : α} (hp : p.Yields ({ clock } : Calm).Answers c a c') :
      p.Ends (Episode 0) c a c' :=
    Calm.ends (goesBy_of_eq rfl rfl (episode_refl 0)) hp
  cases h with
  | @blockSize value h => exact ⟨[.setBlockSize value], c', ⟨_, hends h⟩, rfl⟩
  | @separation value h => exact ⟨[.setSeparation value], c', ⟨_, hends h⟩, rfl⟩

theorem Sets.station (h : Sets clock c c' change) :
    (∃ endpoints, c'.station = { c.station with settings := change c.station.settings, endpoints })
      ∧ c'.events = c.events := by
  cases h with
  | blockSize h =>
    obtain ⟨set, c₁, h₁, h₂⟩ := yields_bind.mp h
    cases set with
    | error e => cases h₂.1
    | ok _ =>
      obtain rfl := (calm_changeSettings h₁).resolve_left nofun
      obtain ⟨⟨endpoints, hs⟩, he⟩ := calm_changeAll h₂
      exact ⟨⟨endpoints, hs⟩, he⟩
  | @separation value h =>
    unfold setSeparation at h
    cases hvalid : value.validate with
    | error e =>
      rw [hvalid] at h
      cases h.1
    | ok _ =>
      rw [hvalid] at h
      obtain ⟨set, c₁, h₁, h₂⟩ := yields_bind.mp h
      cases set with
      | error e => cases h₂.1
      | ok _ =>
        obtain rfl := (calm_changeSettings h₁).resolve_left nofun
        obtain ⟨changed, c₂, h₃, h₄⟩ := yields_bind.mp h₂
        obtain ⟨⟨endpoints, hs⟩, he⟩ := calm_changeAll h₃
        cases changed with
        | error e => cases h₄.1
        | ok _ =>
          obtain ⟨-, rfl⟩ := h₄
          exact ⟨⟨endpoints, hs⟩, he⟩

/-- A frame is read and a setter called meanwhile, which leads to the scene `read`. -/
def adjusting (clock : Micros) (f : Frame) (change : Settings → Settings) (read : Scene) :
    Calm where
  clock
  inbound := some f
  reading x y := y = read ∧ Sets clock x y change

variable {w : Calm} {m d e : Scene} {left offered : Option Frame} {h : Handle}
  {q : Receiver} {settings : Settings} {length offset : Nat} {r' : Endpoint} {outcome : StepOutcome}
  {sent : List Frame}

theorem turns_owing (hw : w.willing = true) (hq : q.Owing f.id settings)
    (ht : w.Turns offered h (.receiver q) r' outcome sent left) :
    sent = [Pdu.flowControl f.id.reversed .continueToSend settings.blockSize
      settings.separation] := by
  cases ht with
  | claim offered accepts awaits steps =>
    simp [Endpoint.isAwaiting, Receiver.isAwaiting, hq.phase] at awaits
  | pause shown early => cases early
  | @step tickAt budget r' outcome sent shown due steps =>
    obtain ⟨now, after, accepted, -, -, haccepted, -, rfl⟩ := steps
    have hact : (q.noteReply now).act now none budget =
        ((q.noteReply now).sendFlow now, budget) := by
      unfold Receiver.act
      rw [show (q.noteReply now).phase = .sendFlow from hq.phase]
    have hstep : q.step now none budget = ((q.noteReply now).sendFlow now, budget) :=
      (Receiver.step_act hq.running hq.unsent (Stopwatch.exceeded_of_stopped hq.unheard _ _)
        none).trans hact
    rw [haccepted hw, Endpoint.step, hstep, ← hq.address_eq, ← hq.blockSize_eq, ← hq.separation_eq]
    rfl

/-- A first frame that nobody claims opens a reception that owes flow control, with the settings
that the tick has taken at its beginning. -/
theorem Passes.opens_owing (hw : w.Still) (hi : w.GoesBy (Episode 1))
    (hp : w.Passes c c₁ m d e c' (some f)) (hquiet : m.station.active.find? f.id = none)
    (hk : f.pduType? = some .firstFrame) (hf : f.id.isFunctional = false) (hd : f.dlc = 8)
    (ha : Pdu.announced? f.payload = some (length, offset)) (hl : Pdu.singleLimit < length)
    (hmemory : ((labelBytes + length : Nat) : Int) ≤ m.station.budget.remaining)
    (hcap : m.station.budget.remaining ≤ Budget.top) :
    ∃ q : Receiver, q.Owing f.id c.station.settings ∧
      c'.station.active.find? f.id = some (m.station.nextReceiver f.id) ∧
      c'.station.endpoint? m.station.fresh = some (.receiver q) ∧
      (∀ e ∈ c'.station.outbox, e.writer ≠ some m.station.fresh) ∧
      framesOf m.station.fresh c'.events = [] := by
  have hfresh := hp.turns.fresh
  have hbudget := hp.turns.budget
  have hlabel : (labelBytes : Int) ≤ d.station.budget.remaining := by
    rw [hbudget]
    omega
  obtain ⟨g, hg, hopens⟩ := (hp.opens_still hw.listener).resolve_left fun hn =>
      Option.some_ne_none f hn.1
  obtain rfl := Option.some.inj hg
  obtain ⟨r', outcome, sent, hopens⟩ := hopens.resolve_left fun hn =>
    openReception_ne_none _ (by rwa [hp.turns.active]) hlabel (hbudget ▸ hcap) hn.1
  obtain ⟨rest, hreserve, hsteps⟩ := hopens.steps
  have hrest : rest.remaining = m.station.budget.remaining - labelBytes := by
    rw [Budget.reserve_eq hlabel (hbudget ▸ hcap), hbudget] at hreserve
    exact Except.ok.inj hreserve ▸ rfl
  have hroom : (length : Int) ≤ rest.remaining := by omega
  have hcap' : rest.remaining ≤ Budget.top := by omega
  have hstep := Receiver.takes_first c.station.settings.blockSize c.station.settings.separation
      w.clock hk hf hd ha hl hroom hcap'
  obtain ⟨rfl, rfl, rfl⟩ :=
    steps_rest (fun now shown => by rw [hw.shows shown, Endpoint.step, hstep]; rfl) hsteps
  have hactive := hp.opened_runs hi hopens ((heeds_iff hw.listener).mpr rfl) (by simp)
  have hspared : Spares m.station.fresh e c' :=
    hfresh ▸ hp.spared hw.listener (ActiveSet.mem_of_find? hactive)
  have hbefore : Spares m.station.fresh m d := hp.turns.spares m.station.fresh fun g hg =>
    Nat.ne_of_lt (hp.reading.orderly.genuine g (Stage.mem_handles.mpr (.inr (.inl hg)))).1
  refine ⟨_, ⟨rfl, rfl, rfl, rfl, rfl, rfl, rfl⟩, ?_,
    hspared.endpoint.trans (hfresh ▸ hopens.endpoint), hspared.unwritten ?_, ?_⟩
  · rw [hactive, nextReceiver, nextReceiver, hfresh]
  · rw [hopens.outbox rfl]
    exact hbefore.unwritten fun e he hw => Nat.lt_irrefl _ (hp.reading.signed.entries e he _ hw)
  · have hframes := hopens.frames
    rw [hfresh, List.append_nil] at hframes
    rw [hspared.frames, hframes, hbefore.frames]
    exact Classical.byContradiction fun hne => Nat.lt_irrefl _ (hp.reading.signed.frames _ hne)

end Calm

namespace Station
open Scene Calm

variable {clock later : Micros} {change : Settings → Settings} {c c₁ c' read : Scene}
  {f : Frame} {config : Config} {length offset : Nat} {inbound : Option Frame}

/-- A first frame is read while a setter is called that succeeds. The settings are the new ones from
then on, and yet the reception asks for its first block with the old ones in the next tick. -/
theorem asks_with_old_settings (h : Reaches config c)
    (ht : (adjusting clock f change read).Ticks c c₁) (hadmits : c.station.settings.admits f = true)
    (hk : f.pduType? = some .firstFrame) (hf : f.id.isFunctional = false) (hd : f.dlc = 8)
    (ha : Pdu.announced? f.payload = some (length, offset)) (hl : Pdu.singleLimit < length)
    (hmemory : ((labelBytes + length : Nat) : Int) ≤ c.station.budget.remaining)
    (hquiet : read.station.active.find? f.id = none)
    (hunclaimed : ∀ g ∈ read.station.active.handles, ∀ r, read.station.endpoint? g.id = some r →
      g.accepts f.id = true → r.isAwaiting = false)
    (ht' : Calm.Ticks { clock := later, inbound, willing := true } c₁ c') :
    c₁.station.settings = change c.station.settings ∧ framesOf read.station.fresh c₁.events = [] ∧
      framesOf read.station.fresh c'.events =
      [Pdu.flowControl f.id.reversed .continueToSend c.station.settings.blockSize
        c.station.settings.separation] := by
  have hcalls : ∀ x y, (adjusting clock f change read).reading x y → Episode 1 x y :=
    fun x y hr => hr.2.episode
  have hstill : (adjusting clock f change read).Still := ⟨rfl, rfl⟩
  have hw : (adjusting clock f change read).GoesBy (Episode 1) :=
    ⟨hcalls, fun x y hr => (hr : x = y) ▸ episode_refl 1 x, episode_refl 1⟩
  obtain ⟨x, m, d, e, left, hpass⟩ := ht.stages hw h.inOrder h.free
  obtain ⟨rfl, hset⟩ := hpass.read.resolve_left (fun hn => nomatch hn.1)
  have hturns := hpass.turns
  rw [show (adjusting clock f change m).inbound.filter c.station.settings.admits =
    some f by simp [adjusting, hadmits]] at hturns
  obtain rfl : left = some f := hturns.unclaimed fun g hg => Option.some.inj hg ▸ hunclaimed
  have hm : m.station.settings = change c.station.settings ∧
      m.station.budget = c.station.budget := by
    obtain ⟨⟨endpoints, hm⟩, -⟩ := hset.station
    obtain ⟨_, -, hhears⟩ := hpass.told
    obtain ⟨_, _, htold⟩ := hhears.station
    rw [hm, access_station, startPending_settings, startPending_budget, htold]
    exact ⟨rfl, rfl⟩
  obtain ⟨q, howing, hfind, hstored, hsilent, hnothing⟩ :=
    hpass.opens_owing hstill hw hquiet hk hf hd ha hl (hm.2 ▸ hmemory) (hm.2 ▸ h.inOrder.capped)
  refine ⟨(hpass.settings rfl).trans hm.1, hnothing, ?_⟩
  obtain ⟨x', m', d', e', left', hpass'⟩ :=
    ht'.stages (goesBy_of_eq rfl rfl (episode_refl 0)) hpass.after hpass.free
  obtain ⟨offered, r', outcome, sent, remains, hturn, hframes⟩ :=
    hpass'.has_turn (h := m.station.nextReceiver f.id) rfl rfl hfind hstored hsilent
  rw [turns_owing rfl howing hturn, show (m.station.nextReceiver f.id).id =
    m.station.fresh from rfl, hnothing] at hframes
  exact hframes

def unlimited : Scene :=
  { station := { settings := { source := 0x10 }, budget := .ofBytes (64 * 1024) } }

theorem reaches_unlimited : Reaches { source := 0x10 } unlimited := reaches_perform rfl []

def announcing : Frame := ⟨.physical 0x10 0xF1, [0x10, 20, 0, 1, 2, 3, 4, 5], 8, true, false, rfl⟩

def eightFrames (c : Scene) : Except LockTimeout Unit × Scene :=
  (setBlockSize 8).run (({ clock := 0 } : Calm).respond false id) c

def adjusted : Scene := (eightFrames ((unlimited.lock .gate).access (·.ticked 0))).2

def adjustment : Calm := .adjusting 0 announcing (fun s => { s with blockSize := 8 }) adjusted

def reply : Calm := { clock := 100000, willing := true }

theorem ticks_adjustment :
    adjustment.Ticks unlimited (adjustment.tick false (eightFrames · |>.2) unlimited) := by
  have hset : ∀ c, decide ((eightFrames c).1 = .ok () ∧ (eightFrames c).2 = adjusted) = true →
      adjustment.reading c (eightFrames c).2 := by
    intro c hc
    obtain ⟨hok, hread⟩ := of_decide_eq_true hc
    refine ⟨hread, .blockSize ?_⟩
    have hrun : (setBlockSize 8).Yields ({ clock := 0 } : Calm).Answers c
        (eightFrames c).1 (eightFrames c).2 :=
      yields_run (fun q c => answers_respond (fun _ => rfl) q fun _ => rfl) _ c
    rwa [hok] at hrun
  exact ticks_of_readsIn hset (fun _ => rfl) unlimited rfl

theorem asks_with_old_settings_unlimited :
    (adjustment.tick false (eightFrames · |>.2) unlimited).station.settings.blockSize = 8 ∧
      framesOf 0
          (reply.tick true id (adjustment.tick false (eightFrames · |>.2) unlimited)).events =
        [Pdu.flowControl (.physical 0xF1 0x10) .continueToSend 0 .zero] := by
  have hannounced : Pdu.announced? announcing.payload = some (20, 2) := by decide
  obtain ⟨hsettings, -, hframes⟩ := asks_with_old_settings reaches_unlimited ticks_adjustment rfl
    rfl rfl rfl hannounced (by decide) (by decide) rfl nofun
    (ticks_tick (w := reply) (fun _ => rfl) (fun _ => rfl) true _)
  exact ⟨by rw [hsettings], hframes⟩

/-- What a setter has set is not what every flow control carries that is sent after it. -/
theorem old_settings_advertised :
    ¬ ∀ (config : Config) (c c₁ c' read : Scene) (clock later : Micros) (f : Frame)
    (change : Settings → Settings) (inbound : Option Frame), Reaches config c →
    (adjusting clock f change read).Ticks c c₁ →
    Calm.Ticks { clock := later, inbound, willing := true } c₁ c' → ∀ more, c'.events = c₁.events ++
      more → ∀ writer g, .accepted writer g ∈ more → g.pduType? = some .flowControl →
      lowNibble (g.byte 0) = FlowStatus.continueToSend.code →
      g.byte 1 = (change c.station.settings).blockSize ∧
      g.byte 2 = (change c.station.settings).separation.toByte := by
  intro h
  have hwrong := h _ _ _ _ _ _ _ _ _ _ reaches_unlimited ticks_adjustment
      (ticks_tick (w := reply) (fun _ => rfl) (fun _ => rfl) true _)
    [.accepted 0 (Pdu.flowControl (.physical 0xF1 0x10) .continueToSend 0 .zero)] rfl 0 _
    List.mem_cons_self rfl rfl
  exact absurd hwrong.1 (by decide)

end Station
end CanTransport
