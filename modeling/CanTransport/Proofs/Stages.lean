import CanTransport.Proofs.Conservation
import CanTransport.Proofs.Retirement
import CanTransport.Proofs.Watches

/-! # The stages of a calm tick

Between calls no lock is held, and what runs is there. A tick tells outcomes, starts requests, reads
a frame, gives each running conversation its turn, may open a reception, and retires what is over.
-/
namespace CanTransport
open CanTransport.Action

/-- Handles, endpoints, watches, entries and the budget are as every transition leaves them. -/
structure Scene.InOrder (c : Scene) : Prop where
  orderly : Orderly ⟨c, {}⟩
  ledger : Ledger ⟨c, {}⟩
  owned : Owned ⟨c, {}⟩
  timed : Stage.Holds Endpoint.Timed ⟨c, {}⟩
  tidy : Stage.Holds Endpoint.Tidy ⟨c, {}⟩
  signed : Stage.Signed ⟨c, {}⟩
  addressed : Stage.Addressed ⟨c, {}⟩
  funded : ∃ granted, granted ≤ Budget.top ∧ Funded granted ⟨c, {}⟩

theorem Path.inOrder {c c' : Scene} (h : Path ⟨c, {}⟩ ⟨c', {}⟩) (hc : c.InOrder) : c'.InOrder where
  orderly := h.orderly hc.orderly
  ledger := h.maintains hc.orderly hc.ledger fun _ _ t ho hx => hx.step t ho
  owned := h.maintains hc.orderly hc.owned fun _ _ t ho hx => hx.step t ho
  timed := h.maintains hc.orderly hc.timed fun _ _ t ho hx => hx.step Endpoint.kept_timed t ho
  tidy := h.maintains hc.orderly hc.tidy fun _ _ t ho hx => hx.step Endpoint.kept_tidy t ho
  signed := h.maintains hc.orderly hc.signed fun _ _ t ho hx => hx.step t ho
  addressed := (h.accounted ⟨hc.orderly, hc.ledger, hc.signed, hc.addressed⟩).addressed
  funded := by
    obtain ⟨granted, htop, hfunded⟩ := hc.funded
    exact ⟨granted, htop, h.maintains hc.orderly hfunded fun _ _ t ho hx => hx.step t ho htop⟩

theorem Scene.InOrder.kept {c : Scene} (h : c.InOrder) : Station.Kept {} c where
  fits := ⟨h.orderly, fun _ hid => absurd hid List.not_mem_nil, .inr ⟨rfl, rfl⟩⟩
  accounted := ⟨h.orderly, h.ledger, h.signed, h.addressed⟩
  owned := h.owned

theorem Scene.InOrder.capped {c : Scene} (h : c.InOrder) :
    c.station.budget.remaining ≤ Budget.top := by
  obtain ⟨granted, htop, hfunded⟩ := h.funded
  have hbalance := hfunded.solvent.balance
  dsimp only at hbalance
  omega

namespace Station

theorem Reaches.inOrder {config : Config} {c : Scene} (h : Reaches config c) : c.InOrder where
  orderly := h.invariant (fun _ hs => orderly_of_config hs) fun _ _ t ho _ => (t.follows ho).orderly
  ledger := h.invariant (fun _ hs => ledger_of_config hs) fun _ _ t ho hx => hx.step t ho
  owned := h.invariant (fun _ hs => owned_of_config hs) fun _ _ t ho hx => hx.step t ho
  timed := h.invariant (fun _ hs => holds_of_config hs) fun _ _ t ho hx =>
    hx.step Endpoint.kept_timed t ho
  tidy := h.invariant (fun _ hs => holds_of_config hs) fun _ _ t ho hx =>
    hx.step Endpoint.kept_tidy t ho
  signed := h.invariant (fun _ hs => signed_of_config hs) fun _ _ t ho hx => hx.step t ho
  addressed := h.accounted.addressed
  funded := ⟨config.granted, config.granted_le_top,
    h.invariant (fun _ hs => ⟨solvent_of_config hs, fun _ hb => absurd hb List.not_mem_nil⟩)
      fun _ _ t ho hx => hx.step t ho config.granted_le_top⟩

variable {s : Station} {h : Handle}

theorem foldl_retireOne_ends {retired finished : List Handle} (hd : s.active.Distinct)
    (hf : h ∈ finished) :
    ∀ p ∈ (finished.foldl retireOne (retired, s)).2.active,
      ¬ (p.1 = h.address ∧ p.2.id = h.id) := by
  induction finished generalizing s retired with
  | nil => cases hf
  | cons g rest ih =>
    rw [List.foldl_cons, retireOne]
    rcases List.mem_cons.mp hf with rfl | hf
    · split
      · obtain ⟨more, active, he, -, hsub⟩ :=
          foldl_retireOne_eq { s with active := s.active.erase h.address } (retired ++ [h]) rest
        rintro p hp ⟨hkey, -⟩
        rw [he] at hp
        have hkept := (List.mem_filter.mp (hsub p hp)).2
        simp [hkey] at hkept
      · next hc =>
        obtain ⟨more, active, he, -, hsub⟩ := foldl_retireOne_eq s retired rest
        rintro p hp ⟨hkey, hid⟩
        rw [he] at hp
        have hfound : s.active.find? p.1 = some p.2 := hd.find?_of_mem (hsub p hp)
        rw [isCurrent, ← hkey, hfound] at hc
        simp [hid] at hc
    · split
      · exact ih (hd.erase _) hf
      · exact ih hd hf

theorem takeFinished_ends (hd : s.active.Distinct) (hf : h ∈ s.finished) :
    ∀ p ∈ s.takeFinished.2.active, ¬ (p.1 = h.address ∧ p.2.id = h.id) :=
  @foldl_retireOne_ends { s with finished := [] } h [] s.finished hd hf

theorem mem_takeFinished (hd : s.active.Distinct) (hk : ∀ p ∈ s.active, p.2.address = p.1)
    (hn : (s.active.handles.map (·.id)).Nodup)
    (hfrom : ∀ g ∈ s.takeFinished.1, g ∈ s.active.handles) (hruns : h ∈ s.active.handles)
    (hf : h ∈ s.finished) : h ∈ s.takeFinished.1 := by
  have hkeeps : h ∈ s.takeFinished.2.active.handles ∨ ∃ g ∈ s.takeFinished.1, g.id = h.id :=
    (@foldl_retireOne_keeps { s with finished := [] } [] s.finished hd).2.2 h hruns
  rcases hkeeps with hafter | ⟨g, hg, hid⟩
  · obtain ⟨key, hafter⟩ := mem_handles.mp hafter
    have hbefore : (key, h) ∈ s.active := mem_active_of_takeFinished hafter
    exact absurd ⟨(hk _ hbefore).symm, rfl⟩ (takeFinished_ends hd hf _ hafter)
  · exact List.inj_on_of_nodup_map hn (hfrom g hg) hruns hid ▸ hg

theorem mem_active_takeFinished (hd : s.active.Distinct) (hruns : h ∈ s.active.handles)
    (hf : ∀ g ∈ s.finished, g.id ≠ h.id) :
    h ∈ s.takeFinished.2.active.handles := by
  have hkeeps : h ∈ s.takeFinished.2.active.handles ∨ ∃ g ∈ s.takeFinished.1, g.id = h.id :=
    (@foldl_retireOne_keeps { s with finished := [] } [] s.finished hd).2.2 h hruns
  refine hkeeps.resolve_right ?_
  rintro ⟨g, hg, hid⟩
  exact hf g (mem_finished_of_takeFinished hg) hid

end Station

namespace Calm
open Station Scene

/-- The stages of a tick: `m` is where the frame has been read, in `d` every conversation has had
its turn, `left` is what nobody has claimed of the frame, and in `e` what is over is still to be
retired. -/
structure Passes (w : Calm) (c c₁ m d e c' : Scene) (left : Option Frame) : Prop where
  told : ∃ clock, w.Shows clock ∧ Hears w.Shows ((c.lock .gate).access (·.ticked clock)) c₁
  read : w.inbound = none ∧ m = c₁.access startPending ∨ w.reading (c₁.access startPending) m
  turns : w.Attends (w.inbound.filter c.station.settings.admits) m.station.active.handles m left d
  gated : d.held = [.gate]
  opens : left = none ∧ e = d ∨ ∃ f, left = some f ∧
    ((d.station.openReception f.id c.station.settings).1 = none ∧ e = d ∨
      ∃ r' outcome sent e₀, w.Opens c.station.settings f r' outcome sent d e₀ ∧
        w.Heeds outcome e₀ e)
  retires : e.held = [.gate] ∧ ∃ e', retire.Yields w.Answers e () e' ∧ c' = e'.unlock .gate
  admits : d.opened = m.opened
  descends : c.station.Descends m.station
  reading : m.InOrder
  turned : d.InOrder
  retiring : e.InOrder
  after : c'.InOrder
  free : c'.held = []

variable {w : Calm} {depth : Nat} {c c' : Scene}

section Parts
variable {x y : Scene} {settings : Settings} {left : Option Frame} (hw : w.GoesBy (Episode depth))
  (hx : Fits {} x) (hheld : x.held = [.gate])
include hw hx hheld

/-- The outcomes are told, requests are started and the frame is read. -/
theorem tick_reads {c₁ c₂ : Scene} {count : Nat} (h₁ : settle.Yields w.Answers x count c₁)
    (h₂ : startWaiting.Yields w.Answers c₁ () c₂)
    (h₃ : (receiveFrame settings).Yields w.Answers c₂ left y) :
    Hears w.Shows x c₁ ∧
    (w.inbound = none ∧ y = c₁.access startPending ∨ w.reading (c₁.access startPending) y) ∧
      left = w.inbound.filter settings.admits ∧ Proceeds {} x y := by
  have p₁ := settle_proceeds (episode_sound depth) hx (ends hw h₁)
  have hheld₁ := p₁.held.trans hheld
  have hx₁ := hx.proceed p₁
  have p₂ := startWaiting_proceeds hx₁ (ends hw h₂)
  have p₃ := receiveFrame_proceeds (episode_sound depth) (hx₁.proceed p₂) (ends hw h₃)
  obtain rfl := calm_startWaiting (by rw [hheld₁]; decide) (by rw [hheld₁]; decide) h₂
  obtain ⟨hframe, hread⟩ := calm_receiveFrame h₃
  exact ⟨calm_settle h₁, hread, hframe, (p₁.trans p₂).trans p₃⟩

/-- What runs has its turns, and nothing else is admitted meanwhile. -/
theorem tick_attends {frame : Option Frame} {tickAt : Micros} (shown : w.Shows tickAt)
    (hm : x.InOrder)
    (h : (dispatch tickAt frame x.station.active.handles).Yields w.Answers x left y) :
    w.Attends frame x.station.active.handles x left y ∧ y.opened = x.opened ∧ Proceeds {} x y := by
  have hfree : Free x.station.active.handles x :=
    ⟨fun h _ => by rw [hheld]; simp, by rw [hheld]; decide, by rw [hheld]; decide⟩
  have hgenuine : ∀ h ∈ x.station.active.handles, x.station.Genuine h := fun h hmem =>
    hx.orderly.genuine h (Stage.mem_handles.mpr (.inr (.inl hmem)))
  have hlive : ∀ h ∈ x.station.active.handles,
      ∃ r, x.station.endpoint? h.id = some r := fun h hmem =>
    (hm.ledger.custody.live h (List.mem_append_left _ hmem)).imp fun _ hr => hr.1
  have hnodup : (x.station.active.handles.map (·.id)).Nodup :=
    ((List.sublist_append_left _ _).map _).nodup hm.ledger.custody.nodup
  have hinterlude := interlude_of_usual (episode_interlude depth) (hheld ▸ List.mem_cons_self)
    (dispatch_usual trivial (fun _ hmem => hmem) _ _) (ends hw h)
  exact ⟨attends_dispatch shown hfree hnodup hlive h, hinterlude.opened,
    dispatch_proceeds (episode_sound depth) hx hgenuine rfl rfl (ends hw h)⟩

/-- A frame that nobody has claimed opens a reception or is dropped. -/
theorem tick_opens {f : Frame} (h : (openReceiver f settings).Yields w.Answers x () y) :
    ((x.station.openReception f.id settings).1 = none ∧ y = x ∨
      ∃ r' outcome sent x₁, w.Opens settings f r' outcome sent x x₁ ∧ w.Heeds outcome x₁ y) ∧
      Proceeds {} x y := by
  refine ⟨?_, openReceiver_proceeds (episode_sound depth) hx rfl rfl (ends hw h)⟩
  exact opens_or_drops hx.orderly (by rw [hheld]; decide) (by rw [hheld]; decide)
    (by rw [hheld]; simp) h

end Parts

theorem Ticks.stages (hw : w.GoesBy (Episode depth)) (hc : c.InOrder) (hfree : c.held = [])
    (h : w.Ticks c c') :
    ∃ c₁ m d e left, w.Passes c c₁ m d e c' left := by
  have hfits := hc.kept.fits
  have hreleased : c'.held = [] := by
    obtain ⟨call, hcall⟩ := h.call hw
    exact (call_proceeds (episode_sound depth) hfits hcall).held.trans hfree
  obtain ⟨clock, e', hshown, htick, rfl⟩ := h.begun (by rw [hfree]; exact List.not_mem_nil)
  have p₀ : Proceeds {} (c.lock .gate) ((c.lock .gate).access (·.ticked clock)) :=
    stamp_proceeds _ _ _
  have hg₀ := (hfits.lock .gate).proceed p₀
  have hheld₀ : ((c.lock .gate).access (·.ticked clock)).held = [.gate] :=
    congrArg (Lock.gate :: ·) hfree
  obtain ⟨seen, c₀, hlook, h₁⟩ := yields_bind.mp htick
  obtain ⟨rfl, rfl⟩ := calm_look (by rw [hheld₀]; decide) hlook
  obtain ⟨_, c₁, hsettle, h₂⟩ := yields_bind.mp h₁
  obtain ⟨_, c₂, hstart, h₃⟩ := yields_bind.mp h₂
  obtain ⟨frame, m, hreceive, h₄⟩ := yields_bind.mp h₃
  obtain ⟨htold, hread, rfl, p₁⟩ := tick_reads hw hg₀ hheld₀ hsettle hstart hreceive
  have hg₁ := hg₀.proceed p₁
  have hheld₁ : m.held = [.gate] := p₁.held.trans hheld₀
  have before : Path ⟨c, {}⟩ ⟨m, {}⟩ := (Path.single (.locks _)).trans (p₀.trans p₁).path
  have hm := before.inOrder hc
  obtain ⟨running, m', hlook', h₅⟩ := yields_bind.mp h₄
  obtain ⟨rfl, rfl⟩ := calm_look (by rw [hheld₁]; decide) hlook'
  obtain ⟨tickAt, m', hnow, h₆⟩ := yields_bind.mp h₅
  obtain ⟨hshown', rfl⟩ := calm_now.mp hnow
  obtain ⟨left, d, hdispatch, h₇⟩ := yields_bind.mp h₆
  obtain ⟨hturns, hadmits, p₂⟩ := tick_attends hw hg₁ hheld₁ hshown' hm hdispatch
  have hg₂ := hg₁.proceed p₂
  have hheld₂ := p₂.held.trans hheld₁
  have hd := p₂.path.inOrder hm
  have retired {e : Scene} (hg : Fits {} e) (hheld : e.held = [.gate]) (he : e.InOrder)
      (h : retire.Yields w.Answers e () e') : (e'.unlock .gate).InOrder := by
    have p := retire_proceeds (episode_sound depth) hg (hheld ▸ List.mem_cons_self) (ends hw h)
    exact (p.path.tail (.locks _)).inOrder he
  cases left with
  | none =>
    exact ⟨c₁, m', d, d, none, ⟨clock, hshown, htold⟩, hread, hturns, hheld₂, .inl ⟨rfl, rfl⟩,
      ⟨hheld₂, e', h₇, rfl⟩, hadmits, before.descends hc.orderly, hm, hd, hd,
      retired hg₂ hheld₂ hd h₇, hreleased⟩
  | some f =>
    obtain ⟨_, e, hopen, h₈⟩ := yields_bind.mp h₇
    obtain ⟨hopens, p₃⟩ := tick_opens hw hg₂ hheld₂ hopen
    have hheld₃ := p₃.held.trans hheld₂
    have he := p₃.path.inOrder hd
    exact ⟨c₁, m', d, e, some f, ⟨clock, hshown, htold⟩, hread, hturns, hheld₂,
      .inr ⟨f, rfl, hopens⟩, ⟨hheld₃, e', h₈, rfl⟩, hadmits, before.descends hc.orderly, hm, hd, he,
      retired (hg₂.proceed p₃) hheld₃ he h₈, hreleased⟩

variable {c₁ m d e e₀ : Scene} {left : Option Frame} {h : Handle} {r' : Endpoint}
  {outcome : StepOutcome} {sent : List Frame} {f : Frame} {p : Address × Handle}

section Heeded
variable {settings : Settings} (hw : w.GoesBy (Episode depth)) (hp : w.Passes c c₁ m d e c' left)
include hw hp

/-- At the end of a tick nothing is admitted, and nothing is taken off its identifier but what is
over. -/
theorem Passes.retired : c'.station.active = e.station.takeFinished.2.active ∧
    c'.opened = e.opened ∧ e.events <+: c'.events := by
  obtain ⟨hheld, e', hretire, rfl⟩ := hp.retires
  have hinterlude := retire_interlude hw (hheld ▸ List.mem_cons_self)
      (by rw [hheld]; decide) hretire
  refine ⟨hinterlude.active, hinterlude.opened.trans (opened_of_stay fun g hg _ => ?_),
    hinterlude.recorded⟩
  obtain ⟨key, hmem⟩ := mem_handles.mp hg
  exact mem_handles.mpr ⟨key, mem_active_of_takeFinished hmem⟩

theorem Passes.runs_on (hmem : p ∈ c'.station.active) :
    p ∈ e.station.active ∧ p.2 ∉ e.station.finished := by
  have hafter : p ∈ e.station.takeFinished.2.active := (hp.retired hw).1 ▸ hmem
  have hbefore : p ∈ e.station.active := mem_active_of_takeFinished hafter
  refine ⟨hbefore, fun hfinished => ?_⟩
  exact takeFinished_ends hp.retiring.owned.distinct hfinished p hafter
    ⟨(hp.retiring.ledger.keyed p hbefore).symm, rfl⟩

theorem Passes.opened_runs (h : w.Opens settings f r' outcome sent d e₀)
    (hheeds : w.Heeds outcome e₀ e) (hgoes : ∀ result, outcome ≠ .finished result) :
    c'.station.active.find? f.id = some (d.station.nextReceiver f.id) := by
  obtain ⟨-, hl, hw', -⟩ := hp.retiring
  have hinterlude := hheeds.interlude hw (h.held ▸ hp.gated ▸ List.mem_cons_self)
  have hnew : ∀ g ∈ e.station.finished, g.id ≠ (d.station.nextReceiver f.id).id := by
    intro g hg
    have hlisting : listing (d.station.nextReceiver f.id) outcome = [] := by
      cases outcome with
      | finished result => exact absurd rfl (hgoes result)
      | inProgress | firstFrame => rfl
    have hg := (hinterlude.listed g hg).resolve_right List.not_mem_nil
    rw [h.finished, hlisting, List.append_nil] at hg
    have hg : g ∈ m.station.finished ∨ g ∈ m.station.active.handles := hp.turns.finished g hg
    have hlt := (hp.reading.orderly.genuine g
        (Stage.mem_handles.mpr (.inr (hg.symm.imp_right .inl)))).1
    exact Nat.ne_of_lt (Nat.lt_of_lt_of_eq hlt hp.turns.fresh.symm)
  have hruns : d.station.nextReceiver f.id ∈ e.station.active.handles := hinterlude.active ▸ h.runs
  obtain ⟨key, hmem⟩ := mem_handles.mp (mem_active_takeFinished hw'.distinct hruns hnew)
  have hmem : (key, d.station.nextReceiver f.id) ∈ c'.station.active := (hp.retired hw).1 ▸ hmem
  obtain rfl : f.id = key := hl.keyed _ (hp.runs_on hw hmem).1
  exact hp.after.owned.distinct.find?_of_mem hmem

/-- What runs and has been listed as finished is taken off its identifier. -/
theorem Passes.is_free (hruns : h ∈ e.station.active.handles) (hf : h ∈ e.station.finished) :
    c'.station.active.find? h.address = none := by
  obtain ⟨key, hmem⟩ := mem_handles.mp hruns
  obtain rfl : h.address = key := hp.retiring.ledger.keyed _ hmem
  have hd := hp.retiring.owned.distinct
  refine Option.eq_none_iff_forall_ne_some.mpr fun g hg => ?_
  obtain ⟨hbefore, hnot⟩ := hp.runs_on hw (ActiveSet.mem_of_find? hg)
  have hsame : g = h :=
    Option.some.inj ((hd.find?_of_mem hbefore).symm.trans (hd.find?_of_mem hmem))
  exact hnot (hsame ▸ hf)

/-- What is over and has been listed as finished is reported. -/
theorem Passes.is_told {r : Endpoint} {result : TransferResult}
    (hruns : h ∈ e.station.active.handles) (hf : h ∈ e.station.finished)
    (hr : e.station.endpoint? h.id = some r) (hover : r.result = some result) :
    .told h.id (completion h (some r)) ∈ c'.events := by
  obtain ⟨ho, hl, hw', -⟩ := hp.retiring
  have hfrom := (hl.custody.retires ho).2.2
  have hn : (e.station.active.handles.map (·.id)).Nodup :=
    ((List.sublist_append_left _ _).map _).nodup
      (show (e.station.custody.map (·.id)).Nodup from hl.custody.nodup)
  have htaken := mem_takeFinished hw'.distinct hl.keyed hn
      (fun g hg => hfrom g (List.mem_append_left _ hg)) hruns hf
  obtain ⟨hheld, e', hretire, rfl⟩ := hp.retires
  have htold := retire_tells hw hp.retiring.kept hp.retiring.tidy (hheld ▸ List.mem_cons_self)
      (by rw [hheld]; decide)
    (by rw [hheld]; decide) (fun g _ => by rw [hheld]; simp) htaken hr hover hretire
  exact htold

end Heeded

section Unheeded
variable (hh : w.heeding = Eq) (hp : w.Passes c c₁ m d e c' left)
include hh hp

theorem Passes.opens_still : left = none ∧ e = d ∨ ∃ f, left = some f ∧
    ((d.station.openReception f.id c.station.settings).1 = none ∧ e = d ∨
      ∃ r' outcome sent, w.Opens c.station.settings f r' outcome sent d e) := by
  refine hp.opens.imp_right fun ⟨f, hf, hopens⟩ => ⟨f, hf, hopens.imp_right ?_⟩
  rintro ⟨r', outcome, sent, e₀, hopens, hheeds⟩
  exact ⟨r', outcome, sent, (heeds_iff hh).mp hheeds ▸ hopens⟩

theorem Passes.retires_still : ∃ e', Retires e e' ∧ c' = e'.unlock .gate := by
  obtain ⟨hheld, e', hretire, rfl⟩ := hp.retires
  exact ⟨e', Calm.retires hh (by rw [hheld]; decide) (by rw [hheld]; decide)
    (fun g _ => by rw [hheld]; simp) hretire, rfl⟩

theorem Passes.spared (hmem : p ∈ c'.station.active) : Spares p.2.id e c' := by
  obtain ⟨e', hretires, rfl⟩ := hp.retires_still hh
  refine (hretires.spares p.2.id fun h hh => ?_).unlock .gate
  have hafter : p ∈ e.station.takeFinished.2.active := hretires.active ▸ hmem
  have hnodup := (hp.retiring.ledger.custody.retires hp.retiring.orderly).2.1
  rw [List.map_append, List.nodup_append] at hnodup
  exact hnodup.2.2 _ (List.mem_map_of_mem hh) _ (List.mem_map_of_mem (List.mem_map_of_mem hafter))

/-- A conversation that waits for no outcome has its turn as it is, and the frames that it sends are
those of its turn. -/
theorem Passes.has_turn {r : Endpoint} (hw : w.reading = Eq)
    (hfind : c.station.active.find? h.address = some h) (hr : c.station.endpoint? h.id = some r)
    (hsilent : ∀ e ∈ c.station.outbox, e.writer ≠ some h.id) :
    ∃ offered r' outcome sent rest, w.Turns offered h r r' outcome sent rest ∧
      framesOf h.id c'.events = framesOf h.id c.events ++ sent := by
  have hread : m = c₁.access startPending :=
    hp.read.elim (·.2) fun h => by rw [hw] at h; exact h.symm
  obtain ⟨clock, -, hhears⟩ := hp.told
  obtain ⟨endpoints, outbox, htold⟩ := hhears.station
  have hspared : Spares h.id c m := by
    have hsame : Spares h.id c₁ m := .of_eq (by simp [hread]) (by simp [hread]) (by rw [hread]; rfl)
    obtain ⟨he, ho, hf⟩ := hhears.spares h.id hsilent
    exact Spares.trans ⟨he, ho, hf⟩ hsame
  have hruns : h ∈ m.station.active.handles := by
    have hfind : m.station.active.find? h.address = some h := by
      rw [hread, access_station]
      exact find?_startPending (by rw [htold]; exact hfind)
    exact List.mem_map_of_mem (ActiveSet.mem_of_find? hfind)
  obtain ⟨offered, r', outcome, sent, rest, -, hturn, -, hframes, -⟩ :=
    hp.turns.turn h hruns r (hspared.endpoint.trans hr)
  refine ⟨offered, r', outcome, sent, rest, hturn, ?_⟩
  obtain ⟨e', hretires, rfl⟩ := hp.retires_still hh
  have hopened : framesOf h.id e.events = framesOf h.id d.events := by
    rcases hp.opens_still hh with ⟨-, rfl⟩ | ⟨f, -, ⟨-, rfl⟩ | ⟨r', outcome, sent, hopens⟩⟩
    · rfl
    · rfl
    · have hlt := (hp.reading.orderly.genuine h (Stage.mem_handles.mpr (.inr (.inl hruns)))).1
      exact (hopens.spares h.id (Nat.ne_of_lt (hp.turns.fresh ▸ hlt))).frames
  exact (hretires.frames h.id).trans (hopened.trans (hframes.trans (by rw [hspared.frames])))

theorem Passes.settings : c'.station.settings = m.station.settings := by
  obtain ⟨e', hretires, rfl⟩ := hp.retires_still hh
  refine hretires.settings.trans ?_
  rcases hp.opens_still hh with ⟨-, rfl⟩ | ⟨f, -, ⟨-, rfl⟩ | ⟨r', outcome, sent, hopens⟩⟩
  · exact hp.turns.settings
  · exact hp.turns.settings
  · obtain ⟨_, _, _, _, he⟩ := hopens.station
    rw [he]
    exact hp.turns.settings

end Unheeded

end Calm
end CanTransport
