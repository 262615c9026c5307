import CanTransport.Proofs.Receiving
import CanTransport.Proofs.Stages

/-! # A message that follows on another

A frame that nobody waits for starts a reception if its identifier is not in use when it is read.
One whose conversation is over but not yet retired is still in use: the frame is dropped, and at the
end of that tick the identifier is free.
-/
namespace CanTransport
open CanTransport.Action

namespace Calm
open Station Scene

/-- A frame is read, which leads to the scene `read`. The clock moves on, and calls are made from
within while the frame is read and whenever the listener has been told something. -/
def seeing (depth : Nat) (clock : Micros) (f : Frame) (read : Scene) : Calm where
  clock
  moving := true
  inbound := some f
  reading x y := y = read ∧ Episode depth x y
  heeding := Episode depth

variable {depth : Nat} {clock : Micros} {read : Scene} {w : Calm} {c c₁ m d e e₀ c' : Scene}
  {left : Option Frame} {settings : Settings} {f : Frame} {r' : Endpoint} {outcome : StepOutcome}
  {sent : List Frame}

theorem seeing_goesBy : (seeing depth clock f read).GoesBy (Episode depth) :=
  ⟨fun _ _ h => h.2, fun _ _ h => h, episode_refl depth⟩

theorem ticks_seeing {reports : Bool}
    (h : (seeing depth clock f read).readsIn reports id (fun c => decide (c = read)) pacedTick c =
      true) :
    (seeing depth clock f read).Ticks c ((seeing depth clock f read).tick reports id c) :=
  ticks_of_readsIn (w := seeing depth clock f read)
    (fun c hc => ⟨of_decide_eq_true hc, episode_refl depth c⟩) (episode_refl depth) c h

/-- A reception has been started for the frame under the number `id`. It goes on, of which the
application has been told, or it has been indicated already. Of one that goes on setters may have
been called since. -/
inductive Started (w : Calm) (settings : Settings) (budget : Budget) (f : Frame)
    (id : EndpointId) (c' : Scene) : Prop
  | runs {q : Receiver} {length : Nat} {sent : List Frame} {blockSize : UInt8}
      {separation : SeparationTime}
    (steps : w.Steps budget (some f)
      (.receiver (.initial f.id settings.blockSize settings.separation)) (.receiver q)
      (.firstFrame length) sent)
    (stored : c'.station.endpoint? id = some (.receiver { q with blockSize, separation }))
    (unheeded : w.heeding = Eq → blockSize = q.blockSize ∧ separation = q.separation)
    (active : c'.station.active.find? f.id =
      some { id, address := f.id, role := .receiver, kind := .diagnostics })
    (told : .told id (.firstFrame f.id length .diagnostics) ∈ c'.events)
  | ended {q : Receiver} {result : TransferResult} {sent : List Frame}
    (steps : w.Steps budget (some f)
      (.receiver (.initial f.id settings.blockSize settings.separation)) (.receiver q)
      (.finished result) sent)
    (told : .told id (.indication f.id q.message result .diagnostics) ∈ c'.events)

/-- No reception has been started for the frame. The conversation that it has found on its
identifier is off it, and the application has been told that it is over. -/
structure Dropped (w : Calm) (read : Scene) (f : Frame) (h : Handle) (r : Endpoint) (c' : Scene) :
    Prop where
  unopened : c'.opened = read.opened
  unheeded : w.heeding = Eq → c'.station.fresh = read.station.fresh
  free : c'.station.active.find? f.id = none
  told : .told h.id (completion h (some r)) ∈ c'.events

theorem Opens.silent {length : Nat} (hd : d.InOrder) (hgate : d.held = [.gate])
    (h : w.Opens settings f r' (.firstFrame length) sent d e₀) : e₀.Silent d.station.fresh := by
  obtain ⟨_, _, now, after, accepted, -, -, -, hfinish, hsent⟩ := h.steps
  obtain ⟨_, _, _, _, hstation⟩ := h.station
  have hnothing : sent = [] := by
    rw [Endpoint.step] at hfinish hsent
    have hoffers :=
      Receiver.frame_announced (congrArg Prod.snd ((Move.finish_map_eq _ _ _ _).symm.trans hfinish))
    rw [← hsent, Move.written_map, Move.written, hoffers]
    exact ite_self _
  refine ⟨h.held ▸ hgate ▸ List.mem_cons_self, ?_, fun e he hw => ?_⟩
  · rw [hstation]
    exact Nat.lt_succ_self _
  · exact Nat.lt_irrefl _ (hd.signed.entries e (h.outbox hnothing ▸ he) _ hw)

/-- A reception that is opened is started. -/
theorem Passes.starts (hw : w.GoesBy (Episode depth)) (hp : w.Passes c c₁ m d e c' left)
    (h : w.Opens settings f r' outcome sent d e₀) (hheeds : w.Heeds outcome e₀ e) :
    ∃ rest, d.station.budget.reserve labelBytes = .ok rest ∧
      w.Started settings rest f d.station.fresh c' := by
  obtain ⟨rest, hreserve, hsteps⟩ := h.steps
  refine ⟨rest, hreserve, ?_⟩
  obtain ⟨q, now, after, accepted, -, -, rfl, hfinish⟩ := receiver_steps hsteps
  rcases Receiver.step_fresh rfl rfl hfinish with ⟨length, rfl, -⟩ | ⟨-, result, rfl, hresult⟩
  · have hactive := hp.opened_runs hw h hheeds nofun
    obtain ⟨-, -, hrecorded⟩ := hp.retired hw
    have hgate : .gate ∈ e₀.held := h.held ▸ hp.gated ▸ List.mem_cons_self
    have htold := hrecorded.subset ((hheeds.interlude hw hgate).recorded.subset (h.told length rfl))
    obtain ⟨r, hr, -⟩ := hp.after.ledger.custody.live _ (List.mem_append_left _
      (mem_handles.mpr ⟨f.id, ActiveSet.mem_of_find? hactive⟩))
    have hopened := h.silent hp.turned hp.gated
    have htuned := hheeds.tunes hw hgate hopened
    obtain ⟨hheld, e', hretire, rfl⟩ := hp.retires
    have hretired := retire_tunes hw (hheld ▸ List.mem_cons_self) (hopened.tunes htuned)
        (by rw [hheld]; decide) hretire
    obtain ⟨r₀, hr₀, blockSize, separation, rfl⟩ :=
      (spans_tunes.trans htuned hretired).station.stored r hr
    obtain rfl := Option.some.inj (h.endpoint.symm.trans hr₀)
    have hstored : _ = some (Endpoint.receiver { q with blockSize, separation }) := hr
    refine .runs hsteps hstored (fun hh => ?_) hactive htold
    have hspared := hp.spared hh (ActiveSet.mem_of_find? hactive)
    obtain rfl := (heeds_iff hh).mp hheeds
    have hsame := Option.some.inj (hr.symm.trans (hspared.endpoint.trans h.endpoint))
    injection hsame with hsame
    exact ⟨congrArg (·.blockSize) hsame, congrArg (·.separation) hsame⟩
  · obtain rfl : e = e₀ := hheeds
    have hlisted : d.station.nextReceiver f.id ∈ e.station.finished := by
      rw [h.finished]
      exact List.mem_append_right _ List.mem_cons_self
    have htold := hp.is_told hw h.runs hlisted h.endpoint hresult
    have hnotice : completion (d.station.nextReceiver f.id) (some (.receiver q)) =
        .indication f.id q.message result .diagnostics := by
      simp only [completion, hresult, Option.getD_some]
      rfl
    rw [hnotice] at htold
    exact .ended hsteps htold

theorem steps_over {budget : Budget} {frame : Option Frame} {r : Endpoint} {result : TransferResult}
    (hr : r.result = some result) (h : w.Steps budget frame r r' outcome sent) :
    r' = r ∧ outcome = .finished result := by
  obtain ⟨rfl, rfl, -⟩ :=
    steps_rest (fun now _ => congrArg Prod.fst (Endpoint.step_latched hr now frame budget)) h
  exact ⟨rfl, rfl⟩

theorem isDue_over {r : Endpoint} {tickAt : Micros} (ht : r.Timed) (hr : r.result ≠ none) :
    r.isDue tickAt = true := by
  cases r with
  | receiver q => rfl
  | sender s =>
    cases hd : s.dueAt with
    | none => simp [Endpoint.isDue, Endpoint.dueAt, hd]
    | some due =>
      have ht : s.Timed := ht
      rw [Sender.Timed, Sender.dueAt_eq hd] at ht
      exact absurd ht hr

/-- What is over when the frame is read, and does not claim it, is listed as finished. -/
theorem Passes.lists_over {h : Handle} {r : Endpoint} (hp : w.Passes c c₁ m d e c' left)
    (hh : h ∈ m.station.active.handles) (hr : m.station.endpoint? h.id = some r)
    (hover : r.result ≠ none) (hunclaimed : ∀ f, w.inbound = some f → h.accepts f.id = true →
      r.isAwaiting = false) :
    d.station.endpoint? h.id = some r ∧ h ∈ d.station.finished := by
  obtain ⟨result, hresult⟩ := Option.ne_none_iff_exists'.mp hover
  obtain ⟨offered, r', outcome, sent, rest, hoffered, hturn, hr', -, hlisted⟩ :=
    hp.turns.turn h hh r hr
  cases hturn with
  | @claim f _ _ _ _ hf accepts awaits =>
    have hread : w.inbound = some f := by
      rcases hoffered with rfl | rfl
      · exact (Option.filter_eq_some_iff.mp hf).1
      · cases hf
    rw [hunclaimed f hread accepts] at awaits
    cases awaits
  | step _ due steps =>
    obtain ⟨rfl, rfl⟩ := steps_over hresult steps
    exact ⟨hr', hlisted result rfl⟩
  | pause _ early =>
    rw [isDue_over (hp.reading.timed.stored _ r hr) hover] at early
    cases early

end Calm

def Event.isOf (id : EndpointId) : Event → Bool
  | .told source _ => source == id
  | _ => false

namespace Station
open Scene

variable {config : Config} {c c' read : Scene} {depth : Nat} {clock : Micros} {f : Frame}

/-- A frame that no conversation waits for starts a reception if none runs on its identifier when it
has been read, however the clock moves on and whatever is called from within. If one does that is
over, the frame is dropped; the application is told of the one that is over in that same tick, after
which the identifier is free. -/
theorem starts_or_frees (h : Reaches config c) (ht : (Calm.seeing depth clock f read).Ticks c c')
    (hadmits : c.station.settings.admits f = true)
    (hmemory : (labelBytes : Int) ≤ read.station.budget.remaining)
    (hunclaimed : ∀ g ∈ read.station.active.handles, ∀ r, read.station.endpoint? g.id = some r →
      g.accepts f.id = true → r.isAwaiting = false) :
    (read.station.active.find? f.id = none → ∃ rest, read.station.budget.reserve labelBytes =
      .ok rest ∧ (Calm.seeing depth clock f read).Started c.station.settings rest f
      read.station.fresh c' ∧
        c'.opened = read.opened ++ [read.station.nextReceiver f.id]) ∧
    ∀ g r, read.station.active.find? f.id = some g → read.station.endpoint? g.id = some r →
      r.result ≠ none → (Calm.seeing depth clock f read).Dropped read f g r c' := by
  have hw : (Calm.seeing depth clock f read).GoesBy (Episode depth) := Calm.seeing_goesBy
  obtain ⟨c₁, m, d, e, left, hpass⟩ := ht.stages hw h.inOrder h.free
  obtain rfl : m = read := (hpass.read.resolve_left fun hn => nomatch hn.1).1
  have hturns := hpass.turns
  rw [show (Calm.seeing depth clock f m).inbound.filter c.station.settings.admits = some f by
    simp [Calm.seeing, hadmits]] at hturns
  obtain rfl : left = some f := hturns.unclaimed fun g hg => Option.some.inj hg ▸ hunclaimed
  obtain ⟨-, hopened, -⟩ := hpass.retired hw
  obtain ⟨g, hg, hopens⟩ := hpass.opens.resolve_left fun hn => nomatch hn.1
  obtain rfl := Option.some.inj hg
  refine ⟨fun hquiet => ?_, fun g r hfind hr hover => ?_⟩
  · rw [← hturns.active] at hquiet
    obtain ⟨r', outcome, sent, e₀, hopens, hheeds⟩ := hopens.resolve_left fun hn =>
      openReception_ne_none _ hquiet (hturns.budget ▸ hmemory) hpass.turned.capped hn.1
    obtain ⟨rest, hreserve, hstarted⟩ := hpass.starts hw hopens hheeds
    have hadmitted : e.opened = d.opened ++ [d.station.nextReceiver f.id] :=
      (hheeds.interlude hw (hopens.held ▸ hpass.gated ▸ List.mem_cons_self)).opened.trans
        hopens.opened
    refine ⟨rest, hturns.budget ▸ hreserve, hturns.fresh ▸ hstarted, ?_⟩
    rw [hopened, hadmitted, hpass.admits, nextReceiver, nextReceiver, hturns.fresh]
  · have hmem := ActiveSet.mem_of_find? hfind
    have hruns : g ∈ m.station.active.handles := List.mem_map_of_mem hmem
    obtain ⟨-, rfl⟩ := hopens.resolve_right fun ⟨_, _, _, _, hopens, _⟩ =>
      absurd ((hturns.active ▸ hopens.quiet).symm.trans hfind) nofun
    obtain ⟨hr', hlisted⟩ := hpass.lists_over hruns hr hover fun f' hf' =>
        Option.some.inj hf' ▸ hunclaimed g hruns r hr
    have hruns' : g ∈ e.station.active.handles := hturns.active ▸ hruns
    obtain ⟨result, hresult⟩ := Option.ne_none_iff_exists'.mp hover
    refine ⟨hopened.trans hpass.admits, fun hh => ?_, ?_,
      hpass.is_told hw hruns' hlisted hr' hresult⟩
    · obtain ⟨e', hretires, rfl⟩ := hpass.retires_still hh
      exact hretires.fresh.trans hturns.fresh
    · have hkeyed : g.address = f.id := hpass.reading.ledger.keyed _ hmem
      exact hkeyed ▸ hpass.is_free hw hruns' hlisted

def opening : Frame := ⟨.physical 0xF1 0x10, [0x10, 8, 1, 2, 3, 4, 5, 6], 8, true, false, rfl⟩

def closing : Frame := ⟨.physical 0xF1 0x10, [0x21, 7, 8, 0, 0, 0, 0, 0], 3, true, false, rfl⟩

def following : Frame := ⟨.physical 0xF1 0x10, [2, 0x3E, 0, 0, 0, 0, 0, 0], 3, true, false, rfl⟩

def idle : Scene where
  station := { settings := { source := 0xF1 }, budget := .ofBytes (64 * 1024) }

theorem reaches_idle : Reaches { source := 0xF1 } idle := reaches_perform rfl []

def holding : Scene :=
  ({ clock := 200000, inbound := some closing } : Calm).tick false id
    (({ clock := 100000 } : Calm).tick false id
      (({ clock := 0, inbound := some opening } : Calm).tick false id idle))

theorem reaches_holding : Reaches { source := 0xF1 } holding := by
  have reached {c : Scene} (hc : Reaches { source := 0xF1 } c) (w : Calm) (hr : w.reading = Eq)
      (hh : w.heeding = Eq) :
      Reaches { source := 0xF1 } (w.tick false id c) :=
    hc.tick hr hh (Calm.ticks_tick (fun _ => by rw [hr]; rfl) (fun _ => by rw [hh]) false c)
  exact reached (reached (reached reaches_idle _ rfl rfl) _ rfl rfl) _ rfl rfl

def attending : Scene := (idle.lock .gate).access (·.ticked 0)

def caughtUp : Scene :=
  (settle.run (({ clock := 300000 } : Calm).respond true id)
    ((holding.lock .gate).access (·.ticked 300000))).2.access startPending

def beginning : Calm := .seeing 1 0 opening attending

def catchingUp : Calm := .seeing 1 300000 following caughtUp

theorem ticks_beginning : beginning.Ticks idle (beginning.tick false id idle) :=
  Calm.ticks_seeing rfl

theorem ticks_catchingUp : catchingUp.Ticks holding (catchingUp.tick true id holding) :=
  Calm.ticks_seeing (by decide +kernel)

theorem caughtUp_active : caughtUp.station.active =
    [(.physical 0xF1 0x10,
      { id := 0, address := .physical 0xF1 0x10, role := .receiver, kind := .diagnostics })] := rfl

theorem caughtUp_opened : caughtUp.opened.map (·.id) = [0] := by decide +kernel

theorem caughtUp_over : ∃ r, caughtUp.station.endpoint? 0 = some r ∧ r.result = some (.ok ()) ∧
    r.isAwaiting = false :=
  ⟨_, rfl, rfl, rfl⟩

theorem caughtUp_unclaimed :
    ∀ g ∈ caughtUp.station.active.handles, ∀ r, caughtUp.station.endpoint? g.id = some r →
      g.accepts following.id = true → r.isAwaiting = false := by
  intro g hg r hr _
  rw [caughtUp_active] at hg
  obtain rfl := List.mem_singleton.mp hg
  obtain ⟨r', hr', -, hawaits⟩ := caughtUp_over
  exact Option.some.inj (hr.symm.trans hr') ▸ hawaits

theorem starts_or_frees_holding :
    (∃ rest, attending.station.budget.reserve labelBytes = .ok rest ∧
      beginning.Started idle.station.settings rest opening 0 (beginning.tick false id idle)) ∧
    (catchingUp.tick true id holding).opened.map (·.id) = [0] ∧
    (catchingUp.tick true id holding).station.active.find? (.physical 0xF1 0x10) = none := by
  constructor
  · obtain ⟨rest, hreserve, hstarted, -⟩ :=
      (starts_or_frees reaches_idle ticks_beginning rfl (by decide) nofun).1 rfl
    exact ⟨rest, hreserve, hstarted⟩
  · obtain ⟨r, hr, hover, -⟩ := caughtUp_over
    have h := (starts_or_frees reaches_holding ticks_catchingUp rfl (by decide)
        caughtUp_unclaimed).2 _ r
      (by rw [caughtUp_active]; rfl) hr (by rw [hover]; nofun)
    exact ⟨(congrArg (·.map (·.id)) h.unopened).trans caughtUp_opened, h.free⟩

/-- That the conversation on its identifier is over when a message is read does not let it in. -/
theorem following_dropped :
    ¬ ∀ (config : Config) (c c' read : Scene) (depth : Nat) (clock : Micros) (f : Frame),
      Reaches config c → (Calm.seeing depth clock f read).Ticks c c' →
      c.station.settings.admits f = true →
      (labelBytes : Int) ≤ read.station.budget.remaining →
      (f.pduType? = some .singleFrame ∨ f.pduType? = some .firstFrame) →
      (∀ g, read.station.active.find? f.id = some g → ∃ r, read.station.endpoint? g.id = some r ∧
        r.result ≠ none) →
      ∃ rest, read.station.budget.reserve labelBytes = .ok rest ∧
      (Calm.seeing depth clock f read).Started c.station.settings rest f read.station.fresh c' := by
  intro h
  obtain ⟨rest, -, hstarted⟩ := h _ _ _ _ _ _ _ reaches_holding ticks_catchingUp rfl (by decide)
      (.inl rfl) fun g hg => by
    rw [caughtUp_active] at hg
    obtain rfl := Option.some.inj hg
    obtain ⟨r, hr, hover, -⟩ := caughtUp_over
    exact ⟨r, hr, hover ▸ Option.some_ne_none _⟩
  have hsilent : ((catchingUp.tick true id holding).events.all fun e => !e.isOf 1) = true := rfl
  cases hstarted with
  | runs _ _ _ _ told => exact absurd (List.all_eq_true.mp hsilent _ told) Bool.false_ne_true
  | ended _ told => exact absurd (List.all_eq_true.mp hsilent _ told) Bool.false_ne_true

end Station
end CanTransport
