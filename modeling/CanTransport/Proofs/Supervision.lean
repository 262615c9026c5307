import CanTransport.Proofs.Stages
import CanTransport.Proofs.Watches

/-! # No conversation is left unsupervised

After a tick in which nobody interferes every conversation that goes on has a watch running that
ends it in time, or a frame of its own to send next.
-/
namespace CanTransport
open CanTransport.Action

theorem Endpoint.Hears.role {shows : Micros → Prop} {r r' : Endpoint} (h : Hears shows r r') :
    r'.role = r.role := by
  induction h with
  | nothing => rfl
  | @outcome r' clock _ shown ack ih =>
    exact (congrArg Handle.role (r'.handle_onAck 0 clock ack)).trans ih

namespace Receiver
variable {r : Receiver} {shows : Micros → Prop}

theorem hears_owing {r' : Endpoint} (h : Endpoint.Hears shows (.receiver r) r')
    (hp : r.phase = .sendFlow) :
    ∃ r₁, r' = .receiver r₁ ∧ (r₁.phase = .sendFlow ∨ r₁.phase = .failed) := by
  induction h with
  | nothing => exact ⟨r, rfl, .inl hp⟩
  | outcome _ _ ack ih =>
    obtain ⟨r₁, rfl, hp | hp⟩ := ih
    · cases ack with
      | success => exact ⟨_, rfl, .inl (by simp only [onAck, hp])⟩
      | failure => exact ⟨_, rfl, .inr (by simp only [onAck, hp, finish])⟩
    · exact ⟨_, rfl, .inr (by simp only [onAck, hp])⟩

end Receiver

/-- What sees to it that an endpoint goes on or ends, after a tick in which `inbound` was there to
be read. `before` is the endpoint of that number at the beginning of the tick. -/
inductive Supervised (clock : Micros) (inbound : Option Frame) (before : Option Endpoint) :
    Endpoint → Prop
  | confirmation {s : Sender} (watch : s.nAs.Within clock 1000) :
    Supervised clock inbound before (.sender s)
  | flowControl {s : Sender} (watch : s.nBs.Within clock 1000) :
    Supervised clock inbound before (.sender s)
  | reply {r : Receiver} (watch : r.nAr.Within clock 1000) :
    Supervised clock inbound before (.receiver r)
  | consecutive {r : Receiver} (watch : r.nCr.Within clock 1000) :
    Supervised clock inbound before (.receiver r)
  /-- The next consecutive frame is not due yet. -/
  | paced {s : Sender} {due : Micros} (phase : s.phase = .sendConsecutive)
      (paced : s.dueAt = some due)
    (early : clock < due) : Supervised clock inbound before (.sender s)
  /-- Flow control has been taken that lets the next block go. -/
  | resumed {s s₀ s₁ : Sender} {f : Frame} (phase : s.phase = .sendConsecutive)
      (was : before = some (.sender s₀))
    (told : Endpoint.Hears (· = clock) (.sender s₀) (.sender s₁)) (awaits : s₁.isAwaiting = true)
    (input : inbound = some f) (go : s₁.LetsGo f)
    (taken : s = (s₁.notePace clock).resume clock (f.byte 1) (.ofByte (f.byte 2))) :
    Supervised clock inbound before (.sender s)
  /-- Flow control has become due. -/
  | owing {r : Receiver} (phase : r.phase = .sendFlow)
    (entered : ∀ r₀, before = some (.receiver r₀) → r₀.phase ≠ .sendFlow) :
    Supervised clock inbound before (.receiver r)

namespace Calm
open Scene Station

variable {w : Calm} {h : Handle} {r r₀ r' : Endpoint} {outcome : StepOutcome}
  {sent : List Frame} {left : Option Frame} {frame offered : Option Frame}
  {budget : Budget} {s : Sender}

theorem Still.hears (hw : w.Still) (h : Endpoint.Hears w.Shows r r') :
    Endpoint.Hears (· = w.clock) r r' := by
  induction h with
  | nothing => exact .nothing
  | outcome _ shown ack ih => exact ih.outcome (hw.shows shown) ack

section Still
variable (hw : w.Still)
include hw

/-- A reception whose step is not its last is supervised. -/
theorem receiver_supervised {q : Receiver} {before : Option Endpoint} {inbound : Option Frame}
    (hq : q.Timed)
    (hbefore : ∀ q₀, before = some (.receiver q₀) → Endpoint.Hears w.Shows (.receiver q₀)
      (.receiver q))
    (hsteps : w.Steps budget frame (.receiver q) r' outcome sent)
    (hgoes : ∀ result, outcome ≠ .finished result) :
    r'.result = none ∧ Supervised w.clock inbound before r' := by
  obtain ⟨q', now, after, accepted, hnow, hafter, rfl, hfinish⟩ := receiver_steps hsteps
  obtain rfl := hw.shows hnow
  obtain rfl := hw.shows hafter
  cases Receiver.step_leads hq hfinish with
  | ends => exact absurd rfl (hgoes _)
  | offers running watch => exact ⟨running, .reply watch⟩
  | listens running watch => exact ⟨running, .consecutive watch⟩
  | owes running phase entered =>
    refine ⟨running, .owing phase fun q₀ hq₀ hp => ?_⟩
    obtain ⟨q₁, he, hp₁⟩ := Receiver.hears_owing (hbefore q₀ hq₀) hp
    obtain rfl := Endpoint.receiver.inj he
    rcases entered with ⟨hfresh, -⟩ | hawaits
    · rcases hp₁ with hp₁ | hp₁ <;> simp [hp₁] at hfresh
    · rcases hp₁ with hp₁ | hp₁ <;> simp [hp₁] at hawaits

/-- A transmission whose step is not its last is supervised. -/
theorem sender_supervised {s₀ : Sender} {inbound : Option Frame} (hs : s.Timed)
    (htold : Endpoint.Hears w.Shows (.sender s₀) (.sender s))
    (hid : ∀ f, frame = some f → f.id = s.address.reversed)
    (hframe : ∀ f, frame = some f → inbound = some f)
    (hsteps : w.Steps budget frame (.sender s) r' outcome sent)
    (hgoes : ∀ result, outcome ≠ .finished result) :
    r'.result = none ∧ Supervised w.clock inbound (some (.sender s₀)) r' := by
  obtain ⟨s', now, after, accepted, hnow, hafter, rfl, hfinish⟩ := sender_steps hsteps
  obtain rfl := hw.shows hnow
  obtain rfl := hw.shows hafter
  cases Sender.step_leads hs hfinish with
  | ends => exact absurd rfl (hgoes _)
  | offers running watch => exact ⟨running, .confirmation watch⟩
  | waits running watch => exact ⟨running, .flowControl watch⟩
  | paces running phase paced early => exact ⟨running, .paced phase paced early⟩
  | @resumes f running input awaits form status next =>
    exact ⟨running, .resumed (next ▸ rfl) rfl (hw.hears htold) awaits (hframe f input)
      ⟨hid f input, form, status⟩ next⟩

/-- An endpoint that has had its turn and goes on is supervised. -/
theorem turn_supervised {inbound : Option Frame} (hr : r.Timed) (hh : r.handle h.id = h)
    (htold : Endpoint.Hears w.Shows r₀ r) (hoffered : ∀ f, offered = some f → inbound = some f)
    (hturn : w.Turns offered h r r' outcome sent left)
    (hgoes : ∀ result, outcome ≠ .finished result) :
    r'.result = none ∧ Supervised w.clock inbound (some r₀) r' := by
  have hrole := htold.role
  cases r with
  | sender s =>
    obtain ⟨s₀, rfl⟩ : ∃ s₀, r₀ = .sender s₀ := by
      cases r₀ with
      | sender s₀ => exact ⟨s₀, rfl⟩
      | receiver q₀ => cases hrole
    cases hturn with
    | @claim f budget _ _ _ hf accepts awaits steps =>
      refine sender_supervised hw hr htold (fun g hg => ?_) hoffered steps hgoes
      obtain rfl := Option.some.inj (hf.symm.trans hg)
      rw [← hh] at accepts
      exact of_decide_eq_true accepts
    | step _ due steps =>
      refine sender_supervised hw hr htold ?_ ?_ steps hgoes
      · exact nofun
      · exact nofun
    | pause shown early =>
      obtain rfl := hw.shows shown
      obtain ⟨due, hdue, hlate⟩ : ∃ due, s.dueAt = some due ∧ w.clock < due := by
        cases hd : s.dueAt with
        | none => simp [Endpoint.isDue, Endpoint.dueAt, hd] at early
        | some due => exact ⟨due, rfl, by simpa [Endpoint.isDue, Endpoint.dueAt, hd] using early⟩
      have hphase := Sender.dueAt_eq hdue
      have hr : s.Timed := hr
      rw [Sender.Timed, hphase] at hr
      exact ⟨hr, .paced hphase hdue hlate⟩
  | receiver q =>
    have hbefore : ∀ q₀, some r₀ = some (.receiver q₀) →
        Endpoint.Hears w.Shows (.receiver q₀) (.receiver q) :=
      fun q₀ hq₀ => Option.some.inj hq₀ ▸ htold
    cases hturn with
    | claim hf accepts awaits steps => exact receiver_supervised hw hr hbefore steps hgoes
    | step _ due steps => exact receiver_supervised hw hr hbefore steps hgoes
    | pause _ early => cases early

/-- What runs where the frame has been read is supervised after its turn. -/
theorem Passes.turn_supervised {c c₁ m d e c' : Scene} {p : Address × Handle}
    (hread : w.reading = Eq) (hp : w.Passes c c₁ m d e c' left) (hmem : p ∈ m.station.active)
    (hgoes : p.2 ∉ d.station.finished) :
    ∃ r, d.station.endpoint? p.2.id = some r ∧ r.result = none ∧
      Supervised w.clock w.inbound (c.station.endpoint? p.2.id) r := by
  obtain ⟨hm, hl, -, ht, -⟩ := hp.reading
  have hhandle : p.2 ∈ m.station.active.handles := List.mem_map_of_mem hmem
  obtain ⟨r, hr, -⟩ := hl.custody.live p.2 (List.mem_append_left _ hhandle)
  have hsame : m.station.endpoint? p.2.id = c₁.station.endpoint? p.2.id := by
    have hread : m = c₁.access startPending :=
      hp.read.elim (·.2) fun h => by rw [hread] at h; exact h.symm
    rw [hread, access_station, endpoint?_startPending]
  obtain ⟨clock, -, hhears⟩ := hp.told
  obtain ⟨r₀, hr₀, htold⟩ := hhears.before (hsame.symm.trans hr)
  have hr₀ : c.station.endpoint? p.2.id = some r₀ := hr₀
  obtain ⟨offered, r', outcome, sent, rest, hoffered, hturn, hr', -, hlisted⟩ :=
    hp.turns.turn p.2 hhandle r hr
  refine ⟨r', hr', hr₀ ▸ Calm.turn_supervised hw (ht.stored _ r hr) ?_ htold (fun f hf => ?_)
    hturn ?_⟩
  · exact (hm.genuine p.2 (Stage.mem_handles.mpr (.inr (.inl hhandle)))).2 r hr
  · rcases hoffered with rfl | rfl
    · exact (Option.filter_eq_some_iff.mp hf).1
    · cases hf
  · exact fun result he => hgoes (hlisted result he)

end Still

end Calm

namespace Station
open Scene

variable {config : Config} {c c' : Scene} {clock : Micros} {inbound : Option Frame}

/-- After a tick in which every free lock is had, the clock stands still and nobody calls from
within, no conversation that goes on is left to itself. -/
theorem goes_on_supervised (h : Reaches config c) (ht : Calm.Ticks { clock, inbound } c c') :
    ∀ p ∈ c'.station.active, ∃ r, c'.station.endpoint? p.2.id = some r ∧ r.result = none ∧
      Supervised clock inbound (c.station.endpoint? p.2.id) r := by
  intro p hp
  have hw := Calm.goesBy_of_eq (w := { clock, inbound }) rfl rfl (episode_refl 0)
  have hstill : ({ clock, inbound } : Calm).Still := ⟨rfl, rfl⟩
  obtain ⟨c₁, m, d, e, left, hpass⟩ := ht.stages hw h.inOrder h.free
  obtain ⟨hbefore, hgoes⟩ := hpass.runs_on hw hp
  rw [(hpass.spared rfl hp).endpoint]
  have hfresh := hpass.turns.fresh
  have hactive := hpass.turns.active
  have hturned : p ∈ d.station.active → p.2 ∉ d.station.finished →
      ∃ r, d.station.endpoint? p.2.id = some r ∧ r.result = none ∧
        Supervised clock inbound (c.station.endpoint? p.2.id) r := fun hmem hnot =>
    hpass.turn_supervised hstill rfl (hactive ▸ hmem) hnot
  rcases hpass.opens_still rfl with ⟨-, rfl⟩ | ⟨f, -, ⟨-, rfl⟩ | ⟨r', outcome, sent, hopens⟩⟩
  · exact hturned hbefore hgoes
  · exact hturned hbefore hgoes
  · obtain ⟨endpoints, outbox, budget, finished, he⟩ := hopens.station
    rw [hopens.finished] at hgoes
    rw [he] at hbefore
    rcases ActiveSet.mem_insert hbefore with rfl | hbefore
    · obtain ⟨rest, -, hsteps⟩ := hopens.steps
      have hnew : c.station.endpoint? d.station.fresh = none := by
        refine Option.eq_none_iff_forall_ne_some.mpr fun r hr => ?_
        have hlt := h.inOrder.orderly.numbered.lt hr
        have hle := hpass.descends.1
        rw [hfresh] at hlt
        exact absurd hlt (Nat.not_lt.mpr hle)
      have htimed :
          (Receiver.initial f.id c.station.settings.blockSize
            c.station.settings.separation).Timed := trivial
      refine ⟨r', hopens.endpoint, Calm.receiver_supervised hstill htimed (fun q₀ hq₀ => ?_)
        hsteps fun result he => ?_⟩
      · exact absurd (hnew.symm.trans hq₀) nofun
      · exact hgoes (List.mem_append_right _ (by rw [he]; exact List.mem_cons_self))
    · have hne : p.2.id ≠ d.station.fresh := by
        have hmem : p.2 ∈ m.station.active.handles := List.mem_map_of_mem (hactive ▸ hbefore)
        have hlt := (hpass.reading.orderly.genuine p.2 (Stage.mem_handles.mpr (.inr (.inl hmem)))).1
        rw [hfresh]
        exact Nat.ne_of_lt hlt
      rw [(hopens.spares _ hne).endpoint]
      exact hturned hbefore fun hmem => hgoes (List.mem_append_left _ hmem)

def announced : Scene :=
  ({ clock := 0 } : Calm).tick true id
    ((Call.request 0x10 .physical ((List.range 20).map UInt8.ofNat) .diagnostics).perform
      { station := { settings := { source := 0xF1 }, budget := .ofBytes (64 * 1024) } })

theorem reaches_announced : Reaches { source := 0xF1 } announced :=
  (reaches_perform rfl
    [.request 0x10 .physical ((List.range 20).map UInt8.ofNat) .diagnostics]).tick rfl
    rfl (Calm.ticks_tick (fun _ => rfl) (fun _ => rfl) true _)

def goingAhead : Calm :=
  { clock := 100000, inbound := some (Pdu.flowControl (.physical 0xF1 0x10) .continueToSend 0 .zero) }

theorem goes_on_supervised_announced :
    (goingAhead.tick true id announced).station.active.handles.map (·.id) = [0] ∧
    ∀ p ∈ (goingAhead.tick true id announced).station.active, ∃ r,
      (goingAhead.tick true id announced).station.endpoint? p.2.id = some r ∧ r.result = none ∧
        Supervised 100000 goingAhead.inbound (announced.station.endpoint? p.2.id) r :=
  ⟨rfl, goes_on_supervised reaches_announced
    (Calm.ticks_tick (fun _ => rfl) (fun _ => rfl) true announced)⟩

end Station
end CanTransport
