import CanTransport.Proofs.Attendance
import CanTransport.Proofs.Entries
import CanTransport.Proofs.Tuning

/-! # How conversations begin and end in a calm tick

A frame that nobody has claimed opens a reception, unless its identifier is in use or memory is
short. At the end of the tick what is over is taken off its identifier and reported.
-/
namespace CanTransport
open CanTransport.Action

namespace Station

def nextReceiver (s : Station) (address : Address) : Handle :=
  { id := s.fresh, address, role := .receiver, kind := .diagnostics }

def receiving (s : Station) (address : Address) (settings : Settings) (budget : Budget) : Station :=
  { (s.adopt (.receiver (.initial address settings.blockSize settings.separation)) budget).2 with
    active := s.active.insert address (s.nextReceiver address) }

/-- On an identifier that is not in use a reception is opened where the budget holds its label. -/
theorem openReception_ne_none {s : Station} {address : Address} (settings : Settings)
    (hq : s.active.find? address = none) (hb : (labelBytes : Int) ≤ s.budget.remaining)
    (ht : s.budget.remaining ≤ Budget.top) :
    (s.openReception address settings).1 ≠ none := by
  rw [openReception, if_neg (by simp [hq]), addReceiver, Receiver.create_eq _ _ _ hb ht]
  exact Option.some_ne_none _

end Station

namespace Calm
open Scene Station

/-- A frame opens a reception, which takes its first step with it. -/
structure Opens (w : Calm) (settings : Settings) (f : Frame) (r' : Endpoint) (outcome : StepOutcome)
    (sent : List Frame) (c c' : Scene) : Prop where
  quiet : c.station.active.find? f.id = none
  steps : ∃ rest, c.station.budget.reserve labelBytes = .ok rest ∧
    w.Steps rest (some f) (.receiver (.initial f.id settings.blockSize settings.separation))
    r' outcome sent
  held : c'.held = c.held
  opened : c'.opened = c.opened ++ [c.station.nextReceiver f.id]
  station : ∃ endpoints outbox budget finished, c'.station = { c.station with
    endpoints, outbox, budget, finished
    fresh := c.station.fresh + 1
    active := c.station.active.insert f.id (c.station.nextReceiver f.id) }
  endpoint : c'.station.endpoint? c.station.fresh = some r'
  spares : ∀ id, id ≠ c.station.fresh → Spares id c c'
  frames : framesOf c.station.fresh c'.events = framesOf c.station.fresh c.events ++ sent
  outbox : sent = [] → c'.station.outbox = c.station.outbox
  finished : c'.station.finished = c.station.finished ++
    listing (c.station.nextReceiver f.id) outcome
  told : ∀ length, outcome = .firstFrame length →
    .told c.station.fresh (.firstFrame f.id length .diagnostics) ∈ c'.events

/-- What is over is taken off its identifier and reported, and the listener calls nobody. -/
structure Retires (c c' : Scene) : Prop where
  held : c'.held = c.held
  station : ∃ endpoints budget outbox, c'.station =
    { c.station.takeFinished.2 with endpoints, budget, outbox }
  spares : ∀ id, (∀ h ∈ c.station.takeFinished.1, h.id ≠ id) → Spares id c c'
  frames : ∀ id, framesOf id c'.events = framesOf id c.events

section Frame
variable {c c' : Scene} (hd : Retires c c')
include hd

theorem Retires.settings : c'.station.settings = c.station.settings := by
  obtain ⟨_, _, _, hs⟩ := hd.station
  rw [hs, takeFinished_settings]

theorem Retires.fresh : c'.station.fresh = c.station.fresh := by
  obtain ⟨_, _, _, hs⟩ := hd.station
  rw [hs, takeFinished_fresh]

theorem Retires.active : c'.station.active = c.station.takeFinished.2.active := by
  obtain ⟨_, _, _, hs⟩ := hd.station
  rw [hs]

end Frame

variable {w : Calm} {c c₁ c' : Scene} {settings : Settings} {f : Frame} {h : Handle}
  {handles : List Handle}

theorem Opens.of_advances {r' : Endpoint} {outcome : StepOutcome} {sent : List Frame}
    {rest budget : Budget} (ho : Orderly ⟨c, {}⟩) (hq : c.station.active.find? f.id = none)
    (hreserve : c.station.budget.reserve labelBytes = .ok rest)
    (hsteps : w.Steps rest (some f)
      (.receiver (.initial f.id settings.blockSize settings.separation)) r' outcome sent)
    (hadvances : Advances c.station.fresh r' sent budget (c.access (·.receiving f.id settings rest))
      c₁) :
    w.Opens settings f r' outcome sent c (c₁.passed (c.station.nextReceiver f.id) outcome) := by
  have hspared := passed_spares c₁ (c.station.nextReceiver f.id) outcome
  obtain ⟨endpoints, outbox, hs⟩ := hadvances.station
  have hfinished : c₁.station.finished = c.station.finished := by rw [hs]; rfl
  have hnew : c.station.nextReceiver f.id ∉ c.station.active.handles := fun hmem =>
    Nat.lt_irrefl _ (ho.genuine _ (Stage.mem_handles.mpr (.inr (.inl hmem)))).1
  refine ⟨hq, ⟨rest, hreserve, hsteps⟩, (passed_held _ _ _).trans hadvances.held, ?_, ?_, ?_,
    fun id hid => ?_, ?_, fun hsent => ?_, ?_, ?_⟩
  · rw [passed_opened, hadvances.opened]
    exact congrArg (c.opened ++ ·) (entrants_insert rfl hnew (ActiveSet.handles_insert_perm hq))
  · rw [passed_station, hs]
    exact ⟨_, _, _, _, rfl⟩
  · exact (hspared c.station.fresh).endpoint.trans hadvances.endpoint
  · obtain ⟨he, hw, hf⟩ := (hadvances.spares id hid).trans (hspared id)
    exact ⟨he.trans ((endpoint?_adopt ho.numbered _ rest id).trans (if_neg hid)), hw, hf⟩
  · exact (hspared c.station.fresh).frames.trans hadvances.frames
  · rw [passed_station]
    exact hadvances.outbox hsent
  · rw [passed_station, hfinished]
  · rintro length rfl
    exact List.mem_append_right _ List.mem_cons_self

theorem Opens.runs {r' : Endpoint} {outcome : StepOutcome} {sent : List Frame}
    (h : w.Opens settings f r' outcome sent c c') :
    c.station.nextReceiver f.id ∈ c'.station.active.handles := by
  obtain ⟨_, _, _, _, he⟩ := h.station
  rw [he]
  exact (ActiveSet.handles_insert_perm h.quiet).mem_iff.mpr List.mem_cons_self

theorem opens_or_drops {a : Unit} (hord : Orderly ⟨c, {}⟩) (hc : .conversations ∉ c.held)
    (ho : .outbox ∉ c.held) (hl : .endpoint c.station.fresh ∉ c.held)
    (hyields : (openReceiver f settings).Yields w.Answers c a c') :
    (c.station.openReception f.id settings).1 = none ∧ c' = c ∨
      ∃ r' outcome sent c₁, w.Opens settings f r' outcome sent c c₁ ∧ w.Heeds outcome c₁ c' := by
  obtain ⟨opened, c₁, h₁, h₂⟩ := yields_bind.mp hyields
  obtain ⟨opened, c₂, hb, rfl, rfl⟩ := (calm_withLock hc).mp h₁
  obtain ⟨rfl, rfl⟩ := calm_modifyGet.mp hb
  rw [unlock_access_lock] at h₂
  cases hopen : c.station.openReception f.id settings with
  | mk opened s' =>
    have hlocked : (c.lock .conversations).station.openReception f.id settings = (opened, s') :=
      hopen
    rw [hlocked] at h₂
    cases opened with
    | none =>
      obtain ⟨-, rfl⟩ := h₂
      exact .inl ⟨rfl, access_eq_self (by rw [hopen, openReception_none hopen])⟩
    | some h =>
      obtain ⟨receiver, rest, hq, hcreate, rfl, rfl⟩ := openReception_some hopen
      obtain ⟨rfl, hreserve⟩ := Receiver.create_ok hcreate
      rw [access_congr (·.receiving f.id settings rest) (by rw [hopen]; rfl)] at h₂
      obtain ⟨r', outcome, sent, now, c₁, hsteps, hadvances, hheeds⟩ := calm_stepAndPassOn
        (c := c.access (·.receiving f.id settings rest)) (h := c.station.nextReceiver f.id) hl ho hc
        ((endpoint?_adopt hord.numbered _ rest c.station.fresh).trans (if_pos rfl)) h₂
      exact .inr ⟨r', outcome, sent, _, .of_advances hord hq hreserve hsteps hadvances, hheeds⟩

theorem calm_forget {address : Address} {a : Except LockTimeout Nat} (ho : .outbox ∉ c.held)
    (hyields : (forget address).Yields w.Answers c a c') :
    ∃ clock, c' = c.access fun s => (s.releaseEntries address clock).2 := by
  obtain ⟨b, c₁, hb, rfl, rfl⟩ := (calm_withLock ho).mp hyields
  obtain ⟨clock, c₂, hnow, hb⟩ := yields_bind.mp hb
  obtain ⟨-, rfl⟩ := calm_now.mp hnow
  rw [(calm_modifyGet.mp hb).2]
  exact ⟨clock, unlock_access_lock c _ _⟩

theorem spares_forget (c : Scene) (address : Address) (clock : Micros) (id : EndpointId) :
    Spares id c (c.access fun s => (s.releaseEntries address clock).2) :=
  ⟨rfl, fun _ he hw => Outbox.mem_release he hw, rfl⟩

theorem calm_reportEnd {a : Unit} (hl : .endpoint h.id ∉ c.held)
    (hyields : (reportEnd h).Yields w.Answers c a c') :
    ∃ c₁, w.heeding
      ((c.lock (.endpoint h.id)).note (.told h.id (completion h (c.station.endpoint? h.id)))) c₁ ∧
      c' = c₁.unlock (.endpoint h.id) := by
  obtain ⟨told, c₁, h₁, h₂⟩ := yields_bind.mp hyields
  obtain ⟨told, c₂, hb, rfl, rfl⟩ := (calm_withLock hl).mp h₁
  obtain ⟨-, rfl⟩ := h₂
  obtain ⟨s, c₃, hs, hb⟩ := yields_bind.mp hb
  obtain ⟨rfl, rfl⟩ := calm_get.mp hs
  exact ⟨c₂, calm_notify.mp hb, rfl⟩

theorem calm_retire {a : Unit} (hc : .conversations ∉ c.held)
    (hyields : retire.Yields w.Answers c a c') :
    ∃ c₁, (report c.station.takeFinished.1).Yields w.Answers (c.access fun s => s.takeFinished.2)
      () c₁ ∧ c' = c₁.access (·.dropAll c.station.takeFinished.1) := by
  obtain ⟨taken, c₁, h₁, h₂⟩ := yields_bind.mp hyields
  obtain ⟨retired, c₂, hb, rfl, rfl⟩ := (calm_withLock hc).mp h₁
  obtain ⟨rfl, rfl⟩ := calm_modifyGet.mp hb
  rw [unlock_access_lock] at h₂
  obtain ⟨_, c₃, h₃, h₄⟩ := yields_bind.mp h₂
  exact ⟨c₃, h₃, calm_modify.mp h₄⟩

theorem spares_dropAll (c : Scene) {id : EndpointId} (hid : ∀ h ∈ handles, h.id ≠ id) :
    Spares id c (c.access (·.dropAll handles)) := by
  refine ⟨endpoint?_dropAll hid, fun e hmem hw => ⟨e, ?_, hw⟩, rfl⟩
  rwa [access_station, dropAll_outbox] at hmem

section Unheeded
variable (hh : w.heeding = Eq)
include hh

theorem calm_report {a : Unit} (ho : .outbox ∉ c.held) (hl : ∀ h ∈ handles, .endpoint h.id ∉ c.held)
    (hyields : (report handles).Yields w.Answers c a c') :
    c'.held = c.held ∧ (∃ outbox, c'.station = { c.station with outbox }) ∧
    ∀ id, Spares id c c' := by
  induction handles generalizing c with
  | nil =>
    obtain ⟨-, rfl⟩ := hyields
    exact ⟨rfl, ⟨_, rfl⟩, fun id => .refl id c'⟩
  | cons h rest ih =>
    rw [report] at hyields
    obtain ⟨released, c₁, h₁, h₂⟩ := yields_bind.mp hyields
    obtain ⟨_, c₂, h₃, h₄⟩ := yields_bind.mp h₂
    obtain ⟨clock, rfl⟩ := calm_forget ho h₁
    obtain ⟨c₃, hheeds, rfl⟩ := calm_reportEnd (c := c.access _) (hl h List.mem_cons_self) h₃
    rw [hh] at hheeds
    obtain rfl := hheeds
    have hreported : ∀ notice,
        ((((c.access fun s => (s.releaseEntries h.address clock).2).lock (.endpoint h.id)).note
          (.told h.id notice)).unlock (.endpoint h.id)) =
        (c.access fun s => (s.releaseEntries h.address clock).2).note (.told h.id notice) :=
        fun notice =>
      unlock_lock ((c.access _).note _) _
    rw [hreported] at h₄
    obtain ⟨hheld, ⟨outbox, hs⟩, hspares⟩ :=
      ih (c := (c.access _).note _) ho (fun g hg => hl g (List.mem_cons_of_mem _ hg)) h₄
    refine ⟨hheld, ⟨outbox, by rw [hs]; rfl⟩, fun id => ?_⟩
    exact ((spares_forget c h.address clock id).trans (.told id _ _ _)).trans (hspares id)

theorem retires {a : Unit} (ho : .outbox ∉ c.held) (hc : .conversations ∉ c.held)
    (hl : ∀ h ∈ c.station.takeFinished.1, .endpoint h.id ∉ c.held)
    (hyields : retire.Yields w.Answers c a c') :
    Retires c c' := by
  obtain ⟨c₁, hreport, rfl⟩ := calm_retire hc hyields
  obtain ⟨hheld, ⟨outbox, hs⟩, hspares⟩ := calm_report hh (c := c.access _) ho hl hreport
  have htaking : ∀ id, Spares id c (c.access fun s => s.takeFinished.2) :=
    fun id => .of_eq (by simp) (by simp) rfl
  refine ⟨hheld, ?_, fun id hid => ((htaking id).trans (hspares id)).trans (spares_dropAll c₁ hid),
    fun id => (hspares id).frames⟩
  obtain ⟨endpoints, budget, he⟩ := dropAll_eq c₁.station c.station.takeFinished.1
  exact ⟨endpoints, budget, outbox, he.trans (by rw [hs]; rfl)⟩

end Unheeded

section Heeded
variable {depth : Nat} (hw : w.GoesBy (Episode depth)) (hgate : .gate ∈ c.held)
include hw hgate

theorem Heeds.interlude {outcome : StepOutcome} (hheeds : w.Heeds outcome c c') :
    Interlude [] c c' := by
  cases outcome with
  | firstFrame length => exact episode_interlude depth c c' (hw.heeding c c' hheeds) hgate
  | inProgress | finished =>
    obtain rfl : c' = c := hheeds
    exact .refl hgate

theorem Heeds.tunes {outcome : StepOutcome} {id : EndpointId} (hs : c.Silent id)
    (hheeds : w.Heeds outcome c c') :
    c.Tunes id c' := by
  cases outcome with
  | firstFrame length => exact episode_tunes depth c c' (hw.heeding c c' hheeds) hs
  | inProgress | finished =>
    obtain rfl : c' = c := hheeds
    exact spans_tunes.refl hs

/-- What runs and is not over runs on, and nothing is admitted. -/
theorem retire_interlude {a : Unit} (hc : .conversations ∉ c.held)
    (hyields : retire.Yields w.Answers c a c') :
    Interlude [] (c.access fun s => s.takeFinished.2) c' := by
  obtain ⟨c₁, hreport, rfl⟩ := calm_retire hc hyields
  have hreported : Interlude [] (c.access fun s => s.takeFinished.2) c₁ :=
    interlude_of_usual (episode_interlude depth) hgate (report_usual trivial _) (ends hw hreport)
  exact hreported.trans (@spans_interlude _ (fun _ => True) |>.access hreported.gate (.dropAll _))

theorem retire_tunes {a : Unit} {id : EndpointId} (hs : c.Silent id) (hc : .conversations ∉ c.held)
    (hyields : retire.Yields w.Answers c a c') : c.Tunes id c' := by
  obtain ⟨c₁, hreport, rfl⟩ := calm_retire hc hyields
  have htaken : c.Tunes id (c.access fun s => s.takeFinished.2) :=
    ⟨hgate, .of_sheds c.station.sheds_takeFinished fun e he he' => ⟨e, by simpa using he, he'⟩⟩
  have hreported := spans_tunes.ends (fun _ => episode_tunes depth) (hs.tunes htaken)
      (report_usual trivial _) (ends hw hreport)
  have hbefore := spans_tunes.trans htaken hreported
  exact spans_tunes.trans hbefore (spans_tunes.access (hs.tunes hbefore) (.dropAll _))

end Heeded

/-- What is reported of an endpoint depends on its end only. -/
theorem completion_of_final {r r' : Endpoint} (hf : r'.final = r.final) :
    completion h (some r') = completion h (some r) := by
  have hresult : r'.result = r.result := congrArg (·.2.1) hf
  have hmessage : r'.message = r.message := congrArg (·.2.2) hf
  have hphase : r'.phase = r.phase := congrArg (·.1) hf
  cases r with
  | sender s =>
    cases r' with
    | sender s' =>
      have hresult : s'.result = s.result := hresult
      simp only [completion, hresult]
    | receiver q' => cases hphase
  | receiver q =>
    cases r' with
    | sender s' => cases hphase
    | receiver q' =>
      have hresult : q'.result = q.result := hresult
      have hmessage : q'.message = q.message := hmessage
      simp only [completion, hresult, hmessage]

/-- A conversation that is over is reported with its end, whatever the listener has called before.
-/
theorem report_tells {depth : Nat} {g : Hand} {r : Endpoint} {result : TransferResult} {a : Unit}
    (hw : w.GoesBy (Episode depth)) (hk : Kept { g with untold := handles } c)
    (hgate : .gate ∈ c.held) (ho : .outbox ∉ c.held) (hl : ∀ h ∈ handles, .endpoint h.id ∉ c.held)
    (hx : Stage.Concluded h.id r ⟨c, { g with untold := handles }⟩) (hover : r.result = some result)
    (hmem : h ∈ handles) (hyields : (report handles).Yields w.Answers c a c') :
    .told h.id (completion h (some r)) ∈ c'.events := by
  induction handles generalizing c g with
  | nil => cases hmem
  | cons h' rest ih =>
    rw [report] at hyields
    obtain ⟨released, c₁, h₁, h₂⟩ := yields_bind.mp hyields
    obtain ⟨_, c₂, h₃, h₄⟩ := yields_bind.mp h₂
    have p₁ := forget_proceeds (episode_sound depth) hk.fits (ends hw h₁)
    have hk₁ := hk.proceed p₁
    have hgate₁ : .gate ∈ c₁.held := p₁.held ▸ hgate
    have hx₁ := p₁.path.concluded hk.fits.orderly hx hover
    obtain ⟨path, hheld⟩ := reportEnd_path (episode_sound depth) hk₁.fits hgate₁ (ends hw h₃)
    have hk₂ := hk₁.follow path (hk₁.fits.turn hgate₁ path rfl hheld)
    have hheld₂ : c₂.held = c.held := hheld.trans p₁.held
    rcases List.mem_cons.mp hmem with rfl | hmem
    · obtain ⟨r₁, hr₁, -⟩ := hk₁.accounted.addressed.live h List.mem_cons_self
      obtain ⟨c₃, hheeds, rfl⟩ := calm_reportEnd (p₁.held ▸ hl h List.mem_cons_self) h₃
      have hgate₃ : .gate ∈
          ((c₁.lock (.endpoint h.id)).note
            (.told h.id (completion h (c₁.station.endpoint? h.id)))).held :=
        List.mem_cons_of_mem _ hgate₁
      have hcalled := episode_interlude depth _ c₃ (hw.heeding _ c₃ hheeds) hgate₃
      have hreported : Interlude [] _ c' :=
        interlude_of_usual (episode_interlude depth) (hheld₂ ▸ hgate) (report_usual trivial rest)
          (ends hw h₄)
      have htold := hreported.recorded.subset
          (hcalled.recorded.subset (List.mem_append_right _ List.mem_cons_self))
      rwa [hr₁, completion_of_final (hx₁.stored r₁ hr₁)] at htold
    · exact ih (g := { g with told := g.told ++ [h'] }) hk₂ (hheld₂ ▸ hgate) (hheld₂ ▸ ho)
        (fun g hg => hheld₂ ▸ hl g (List.mem_cons_of_mem _ hg))
        (path.concluded hk₁.fits.orderly hx₁ hover) hmem h₄

theorem retire_tells {depth : Nat} {r : Endpoint} {result : TransferResult} {a : Unit}
    (hw : w.GoesBy (Episode depth)) (hk : Kept {} c) (ht : Stage.Holds Endpoint.Tidy ⟨c, {}⟩)
    (hgate : .gate ∈ c.held) (ho : .outbox ∉ c.held) (hc : .conversations ∉ c.held)
    (hl : ∀ h ∈ c.station.takeFinished.1, .endpoint h.id ∉ c.held)
    (hmem : h ∈ c.station.takeFinished.1) (hr : c.station.endpoint? h.id = some r)
    (hover : r.result = some result) (hyields : retire.Yields w.Answers c a c') :
    .told h.id (completion h (some r)) ∈ c'.events := by
  obtain ⟨c₁, hreport, rfl⟩ := calm_retire hc hyields
  have path : Path ⟨c, {}⟩
      ⟨c.access fun s => s.takeFinished.2, { untold := c.station.takeFinished.1 }⟩ :=
    .single (.retire rfl rfl)
  have hbefore : Stage.Concluded h.id r ⟨c, {}⟩ :=
    ⟨hk.fits.orderly.numbered.lt hr, fun r' hr' =>
      congrArg Endpoint.final (Option.some.inj (hr'.symm.trans hr)), fun b hb =>
        absurd hb List.not_mem_nil, ht⟩
  have hk₁ := hk.follow path (hk.fits.turn hgate path rfl rfl)
  have hx₁ := path.concluded hk.fits.orderly hbefore hover
  have htold := report_tells (g := {}) hw hk₁ hgate ho hl hx₁ hover hmem hreport
  exact htold

end Calm
end CanTransport
