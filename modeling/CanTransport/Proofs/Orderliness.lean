import CanTransport.Proofs.Transitions

/-! # Transitions keep order

Every handle that something is still to be done with names the endpoint that it describes, and an
endpoint stays what its handle says until it is dropped.
-/
namespace CanTransport

namespace Station
variable {s s' : Station} {h : Handle}

@[simp] theorem access_station (c : Scene) (change : Station → Station) :
    (c.access change).station = change c.station := rfl

@[simp] theorem note_station (c : Scene) (event : Event) : (c.note event).station = c.station := rfl

theorem mem_handles {active : ActiveSet} {h : Handle} :
    h ∈ active.handles ↔ ∃ key, (key, h) ∈ active := by
  simp [ActiveSet.handles]

theorem startOrEnqueue_eq (s : Station) (h : Handle) :
    ∃ pending active, s.startOrEnqueue h = { s with pending, active } ∧
      (∀ g ∈ pending, g = h ∨ g ∈ s.pending) ∧ ∀ p ∈ active, p = (h.address, h) ∨ p ∈ s.active := by
  unfold startOrEnqueue
  split
  · refine ⟨_, s.active, rfl, fun g hg => ?_, fun p hp => .inr hp⟩
    rcases List.mem_append.mp hg with hg | hg
    · exact .inr hg
    · exact .inl (List.mem_singleton.mp hg)
  · exact ⟨s.pending, _, rfl, fun g hg => .inr hg, fun p hp => ActiveSet.mem_insert hp⟩

theorem foldl_startOrEnqueue_eq (s : Station) (waiting : List Handle) :
    ∃ pending active, waiting.foldl startOrEnqueue s = { s with pending, active } ∧
      (∀ g ∈ pending, g ∈ waiting ∨ g ∈ s.pending) ∧
      ∀ p ∈ active, (p.2 ∈ waiting ∧ p.1 = p.2.address) ∨ p ∈ s.active := by
  induction waiting generalizing s with
  | nil => exact ⟨s.pending, s.active, rfl, fun g hg => .inr hg, fun p hp => .inr hp⟩
  | cons h rest ih =>
    obtain ⟨pending, active, he, hp, ha⟩ := startOrEnqueue_eq s h
    obtain ⟨pending', active', he', hp', ha'⟩ := ih (s.startOrEnqueue h)
    rw [he] at he' hp' ha'
    refine ⟨pending', active', by rw [List.foldl_cons, he, he'], fun g hg => ?_, fun p hmem => ?_⟩
    · rcases hp' g hg with hg | hg
      · exact .inl (List.mem_cons_of_mem _ hg)
      · rcases hp g hg with rfl | hg
        · exact .inl List.mem_cons_self
        · exact .inr hg
    · rcases ha' p hmem with ⟨hmem, hk⟩ | hmem
      · exact .inl ⟨List.mem_cons_of_mem _ hmem, hk⟩
      · rcases ha p hmem with rfl | hmem
        · exact .inl ⟨List.mem_cons_self, rfl⟩
        · exact .inr hmem

theorem startPending_eq (s : Station) :
    ∃ pending active, s.startPending = { s with pending, active } ∧ (∀ g ∈ pending, g ∈ s.pending) ∧
      ∀ p ∈ active, (p.2 ∈ s.pending ∧ p.1 = p.2.address) ∨ p ∈ s.active := by
  obtain ⟨pending, active, he, hp, ha⟩ := foldl_startOrEnqueue_eq { s with pending := [] } s.pending
  refine ⟨pending, active, he, fun g hg => ?_, ha⟩
  exact (hp g hg).resolve_right List.not_mem_nil

theorem find?_startPending {s : Station} {key : Address} {h : Handle}
    (hf : s.active.find? key = some h) :
    s.startPending.active.find? key = some h := by
  have hfold : ∀ (waiting : List Handle) (s : Station), s.active.find? key = some h →
      (waiting.foldl startOrEnqueue s).active.find? key = some h := by
    intro waiting
    induction waiting with
    | nil => exact fun s hs => hs
    | cons g rest ih =>
      intro s hs
      apply ih
      unfold startOrEnqueue
      split
      · exact hs
      · next hfree =>
        have hne : key ≠ g.address := by
          rintro rfl
          exact hfree (by rw [hs]; rfl)
        rw [ActiveSet.find?_insert, if_neg hne]
        exact hs
  exact hfold s.pending { s with pending := [] } hf

theorem foldl_retireOne_eq (s : Station) (retired finished : List Handle) :
    ∃ more active, finished.foldl retireOne (retired, s) = (retired ++ more, { s with active }) ∧
      (∀ g ∈ more, g ∈ finished) ∧ ∀ p ∈ active, p ∈ s.active := by
  induction finished generalizing s retired with
  | nil => exact ⟨[], s.active, by simp, by simp, fun p hp => hp⟩
  | cons h rest ih =>
    rw [List.foldl_cons, retireOne]
    split
    · obtain ⟨more, active, he, hm, ha⟩ :=
        ih { s with active := s.active.erase h.address } (retired ++ [h])
      refine ⟨h :: more, active, by rw [he, List.append_assoc]; rfl, ?_, ?_⟩
      · intro g hg
        rcases List.mem_cons.mp hg with rfl | hg
        · exact List.mem_cons_self
        · exact List.mem_cons_of_mem _ (hm g hg)
      · intro p hp
        exact (List.mem_filter.mp (ha p hp)).1
    · obtain ⟨more, active, he, hm, ha⟩ := ih s retired
      exact ⟨more, active, he, fun g hg => List.mem_cons_of_mem _ (hm g hg), ha⟩

theorem takeFinished_eq (s : Station) :
    ∃ retired active, s.takeFinished = (retired, { s with finished := [], active }) ∧
      (∀ g ∈ retired, g ∈ s.finished) ∧ ∀ p ∈ active, p ∈ s.active := by
  obtain ⟨more, active, he, hm, ha⟩ := foldl_retireOne_eq { s with finished := [] } [] s.finished
  exact ⟨more, active, he, hm, ha⟩

theorem drop_eq (s : Station) (id : EndpointId) :
    ∃ endpoints budget, s.drop id = { s with endpoints, budget } := by
  unfold drop
  split
  · exact ⟨s.endpoints, s.budget, rfl⟩
  · exact ⟨_, _, rfl⟩

theorem dropAll_eq (s : Station) (handles : List Handle) :
    ∃ endpoints budget, s.dropAll handles = { s with endpoints, budget } := by
  unfold dropAll
  induction handles generalizing s with
  | nil => exact ⟨s.endpoints, s.budget, rfl⟩
  | cons h rest ih =>
    obtain ⟨endpoints, budget, he⟩ := drop_eq s h.id
    obtain ⟨endpoints', budget', he'⟩ := ih (s.drop h.id)
    exact ⟨endpoints', budget', by rw [List.foldl_cons, he', he]⟩

/-! What is left as it was. -/

section Fields
variable (s : Station) (id : EndpointId) (handles : List Handle)

theorem startPending_frame :
    s.startPending =
    { s with pending := s.startPending.pending, active := s.startPending.active } := by
  obtain ⟨pending, active, he, -, -⟩ := startPending_eq s
  rw [he]

theorem takeFinished_frame :
    s.takeFinished.2 = { s with finished := [], active := s.takeFinished.2.active } := by
  obtain ⟨retired, active, he, -, -⟩ := takeFinished_eq s
  rw [he]

theorem drop_frame :
    s.drop id = { s with endpoints := (s.drop id).endpoints, budget := (s.drop id).budget } := by
  obtain ⟨endpoints, budget, he⟩ := drop_eq s id
  rw [he]

theorem dropAll_frame : s.dropAll handles =
    { s with
      endpoints := (s.dropAll handles).endpoints
      budget := (s.dropAll handles).budget } := by
  obtain ⟨endpoints, budget, he⟩ := dropAll_eq s handles
  rw [he]

@[simp] theorem startPending_settings :
    s.startPending.settings = s.settings := by rw [startPending_frame]
@[simp] theorem startPending_budget : s.startPending.budget = s.budget := by rw [startPending_frame]
@[simp] theorem startPending_endpoints :
    s.startPending.endpoints = s.endpoints := by rw [startPending_frame]
@[simp] theorem startPending_fresh : s.startPending.fresh = s.fresh := by rw [startPending_frame]
@[simp] theorem startPending_finished :
    s.startPending.finished = s.finished := by rw [startPending_frame]
@[simp] theorem startPending_outbox : s.startPending.outbox = s.outbox := by rw [startPending_frame]

@[simp] theorem takeFinished_settings :
    s.takeFinished.2.settings = s.settings := by rw [takeFinished_frame]
@[simp] theorem takeFinished_budget :
    s.takeFinished.2.budget = s.budget := by rw [takeFinished_frame]
@[simp] theorem takeFinished_endpoints :
    s.takeFinished.2.endpoints = s.endpoints := by rw [takeFinished_frame]
@[simp] theorem takeFinished_fresh : s.takeFinished.2.fresh = s.fresh := by rw [takeFinished_frame]
@[simp] theorem takeFinished_pending :
    s.takeFinished.2.pending = s.pending := by rw [takeFinished_frame]
@[simp] theorem takeFinished_finished : s.takeFinished.2.finished = [] := by rw [takeFinished_frame]
@[simp] theorem takeFinished_outbox :
    s.takeFinished.2.outbox = s.outbox := by rw [takeFinished_frame]

@[simp] theorem drop_pending : (s.drop id).pending = s.pending := by rw [drop_frame]
@[simp] theorem drop_active : (s.drop id).active = s.active := by rw [drop_frame]
@[simp] theorem drop_finished : (s.drop id).finished = s.finished := by rw [drop_frame]
@[simp] theorem drop_outbox : (s.drop id).outbox = s.outbox := by rw [drop_frame]

@[simp] theorem dropAll_fresh : (s.dropAll handles).fresh = s.fresh := by rw [dropAll_frame]
@[simp] theorem dropAll_pending : (s.dropAll handles).pending = s.pending := by rw [dropAll_frame]
@[simp] theorem dropAll_active : (s.dropAll handles).active = s.active := by rw [dropAll_frame]
@[simp] theorem dropAll_finished :
    (s.dropAll handles).finished = s.finished := by rw [dropAll_frame]
@[simp] theorem dropAll_outbox : (s.dropAll handles).outbox = s.outbox := by rw [dropAll_frame]

@[simp] theorem endpoint?_startPending : s.startPending.endpoint? id = s.endpoint? id := by
  rw [endpoint?, startPending_endpoints, endpoint?]

@[simp] theorem endpoint?_takeFinished : s.takeFinished.2.endpoint? id = s.endpoint? id := by
  rw [endpoint?, takeFinished_endpoints, endpoint?]

@[simp] theorem endpoint?_record (ack : Ack) : (s.record ack).2.endpoint? id = s.endpoint? id := by
  rw [endpoint?, record_outbox, endpoint?]

end Fields

theorem mem_pending_of_startPending (hh : h ∈ s.startPending.pending) : h ∈ s.pending := by
  obtain ⟨pending, active, he, hp, -⟩ := startPending_eq s
  rw [he] at hh
  exact hp h hh

theorem mem_active_of_startPending {p : Address × Handle} (hp : p ∈ s.startPending.active) :
    (p.2 ∈ s.pending ∧ p.1 = p.2.address) ∨ p ∈ s.active := by
  obtain ⟨pending, active, he, -, ha⟩ := startPending_eq s
  rw [he] at hp
  exact ha p hp

theorem mem_finished_of_takeFinished (hh : h ∈ s.takeFinished.1) : h ∈ s.finished := by
  obtain ⟨retired, active, he, hr, -⟩ := takeFinished_eq s
  rw [he] at hh
  exact hr h hh

theorem mem_active_of_takeFinished {p : Address × Handle} (hp : p ∈ s.takeFinished.2.active) :
    p ∈ s.active := by
  obtain ⟨retired, active, he, -, ha⟩ := takeFinished_eq s
  rw [he] at hp
  exact ha p hp

theorem Descends.dropAll (s : Station) (handles : List Handle) :
    s.Descends (s.dropAll handles) := by
  unfold Station.dropAll
  induction handles generalizing s with
  | nil => exact .refl s
  | cons h rest ih => exact (Descends.drop s h.id).trans (ih (s.drop h.id))

theorem Numbered.dropAll (hn : s.Numbered) (handles : List Handle) :
    (s.dropAll handles).Numbered := by
  unfold Station.dropAll
  induction handles generalizing s with
  | nil => exact hn
  | cons h rest ih => exact ih (hn.drop h.id)

end Station

/-- All handles that something is still to be done with. -/
def Stage.handles (x : Stage) : List Handle :=
  x.scene.station.pending ++ x.scene.station.active.handles ++ x.scene.station.finished ++
    x.hand.untold ++ x.hand.told

/-- Handles name what they describe, and so do the steps in progress. -/
structure Orderly (x : Stage) : Prop where
  numbered : x.scene.station.Numbered
  genuine : ∀ h ∈ x.handles, x.scene.station.Genuine h
  begun : ∀ b, .step b ∈ x.hand.tasks → x.scene.station.Genuine (b.origin.handle b.id)

/-- From one stage to the other what was there stays what it is, and order is kept. -/
structure Follows (x y : Stage) : Prop where
  descends : x.scene.station.Descends y.scene.station
  orderly : Orderly y

variable {x y : Stage}

theorem Stage.mem_handles {h : Handle} : h ∈ x.handles ↔
    h ∈ x.scene.station.pending ∨ h ∈ x.scene.station.active.handles ∨
    h ∈ x.scene.station.finished ∨
      h ∈ x.hand.untold ∨ h ∈ x.hand.told := by
  simp [Stage.handles]

def Hand.Continues (g g' : Hand) : Prop :=
  ∀ b, .step b ∈ g'.tasks → ∃ b', .step b' ∈ g.tasks ∧ b'.id = b.id ∧ b'.origin = b.origin

namespace Hand
variable {g g' : Hand}

theorem Continues.of_subset (h : ∀ b, .step b ∈ g'.tasks → .step b ∈ g.tasks) : g.Continues g' :=
  fun b hb => ⟨b, h b hb, rfl, rfl⟩

theorem Continues.refl (g : Hand) : g.Continues g :=
  .of_subset fun _ hb => hb

theorem continues_collect (g : Hand) (id : EndpointId) (ack : Ack) :
    g.Continues { g with tasks := .ack id ack :: g.tasks } :=
  .of_subset fun b hb => by simpa using hb

theorem continues_accept {b : Begun} {tasks : List Task} (under : g.tasks = .step b :: tasks) :
    g.Continues { g with tasks := .step { b with accepted := true } :: tasks } := by
  intro b' hb
  rcases List.mem_cons.mp hb with hb | hb
  · cases hb
    exact ⟨b, under ▸ List.mem_cons_self, rfl, rfl⟩
  · exact ⟨b', under ▸ List.mem_cons_of_mem _ hb, rfl, rfl⟩

end Hand

theorem Orderly.descend (hx : Orderly x) (hn : y.scene.station.Numbered)
    (hd : x.scene.station.Descends y.scene.station)
    (hh : ∀ h ∈ y.handles, h ∈ x.handles ∨ y.scene.station.Genuine h)
    (hb : x.hand.Continues y.hand) : Follows x y := by
  refine ⟨hd, hn, fun h hy => ?_, fun b hy => ?_⟩
  · rcases hh h hy with hx' | hg
    · exact (hx.genuine h hx').descend hd
    · exact hg
  · obtain ⟨b', hb', hid, ho⟩ := hb b hy
    have hg := (hx.begun b' hb').descend hd
    rwa [hid, ho] at hg

theorem Orderly.rearrange (hx : Orderly x)
    (he : y.scene.station.endpoints = x.scene.station.endpoints)
    (hf : y.scene.station.fresh = x.scene.station.fresh)
    (hh : ∀ h ∈ y.handles, h ∈ x.handles ∨ x.scene.station.Genuine h)
    (ht : ∀ b, .step b ∈ y.hand.tasks → .step b ∈ x.hand.tasks) : Follows x y := by
  have hd : x.scene.station.Descends y.scene.station := .of_eq he hf
  refine hx.descend ?_ hd (fun h hy => (hh h hy).imp_right (·.descend hd)) (.of_subset ht)
  intro p hp
  rw [hf]
  exact hx.numbered p (he ▸ hp)

theorem Orderly.modify {c : Scene} {g g' : Hand} {id : EndpointId} {f : Endpoint → Endpoint}
    (hx : Orderly ⟨c, g⟩)
    (hf : ∀ r, c.station.endpoint? id = some r → (f r).handle id = r.handle id)
    (hu : g'.untold = g.untold) (ht : g'.told = g.told)
    (hb : ∀ b, .step b ∈ g'.tasks → .step b ∈ g.tasks) :
    Follows ⟨c, g⟩ ⟨c.access (·.modifyEndpoint id f), g'⟩ := by
  have hd : c.station.Descends (c.station.modifyEndpoint id f) := .modify hf
  refine hx.descend (hx.numbered.modify id f) hd (fun h hy => .inl ?_) (.of_subset hb)
  rw [Stage.mem_handles] at hy ⊢
  rwa [hu, ht] at hy

section Transitions
open Station
variable {c : Scene} {g : Hand}

theorem Orderly.request (hx : Orderly ⟨c, g⟩) (sender : Sender) (rest : Budget) (event : Event) :
    Follows ⟨c, g⟩ ⟨((c.access fun s => (s.adopt (.sender sender) rest).2).access
      (·.enqueue ((Endpoint.sender sender).handle c.station.fresh))).note event, g⟩ := by
  have hn := hx.numbered.adopt (.sender sender) rest
  have hd := Descends.adopt hx.numbered (.sender sender) rest
  have hg := Genuine.adopt hx.numbered (.sender sender) rest
  refine hx.descend hn hd (fun h hy => ?_) (.refl g)
  have hy : h ∈ c.station.pending ++ [(Endpoint.sender sender).handle c.station.fresh] ∨ _ :=
    Stage.mem_handles.mp hy
  rw [Stage.mem_handles]
  rcases hy with hy | hy
  · rcases List.mem_append.mp hy with hy | hy
    · exact .inl (.inl hy)
    · rw [List.mem_singleton.mp hy]
      exact .inr hg
  · exact .inl (.inr hy)

theorem Orderly.turnDown (hx : Orderly ⟨c, g⟩) (sender : Sender) (rest : Budget) :
    Follows ⟨c, g⟩
      ⟨(c.access fun s => (s.adopt (.sender sender) rest).2).access (·.drop c.station.fresh),
        g⟩ := by
  have hn := (hx.numbered.adopt (.sender sender) rest).drop c.station.fresh
  have hd := (Descends.adopt hx.numbered (.sender sender) rest).trans (.drop _ c.station.fresh)
  refine hx.descend hn hd (fun h hy => .inl ?_) (.refl g)
  simp only [Stage.mem_handles, access_station, drop_pending, drop_active, drop_finished] at hy ⊢
  exact hy

theorem Orderly.openReception (hx : Orderly ⟨c, g⟩) (address : Address) (receiver : Receiver)
    (rest : Budget) :
    Follows ⟨c, g⟩
      ⟨c.access fun s =>
        { (s.adopt (.receiver receiver) rest).2 with
          active := s.active.insert address ((Endpoint.receiver receiver).handle s.fresh) },
            g⟩ := by
  have hn := hx.numbered.adopt (.receiver receiver) rest
  have hd := Descends.adopt hx.numbered (.receiver receiver) rest
  have hg := Genuine.adopt hx.numbered (.receiver receiver) rest
  refine hx.descend hn hd (fun h hy => ?_) (.refl g)
  rw [Stage.mem_handles] at hy
  rw [Stage.mem_handles]
  rcases hy with hy | hy | hy
  · exact .inl (.inl hy)
  · obtain ⟨key, hy⟩ := mem_handles.mp hy
    rcases ActiveSet.mem_insert hy with hy | hy
    · cases hy
      exact .inr hg
    · exact .inl (.inr (.inl (mem_handles.mpr ⟨key, hy⟩)))
  · exact .inl (.inr (.inr hy))

theorem Orderly.start (hx : Orderly ⟨c, g⟩) :
    Follows ⟨c, g⟩ ⟨c.access startPending, g⟩ := by
  refine hx.rearrange (by simp) (by simp) (fun h hy => .inl ?_) fun b hb => hb
  simp only [Stage.mem_handles, access_station, startPending_finished, mem_handles] at hy ⊢
  rcases hy with hy | ⟨key, hy⟩ | hy
  · exact .inl (mem_pending_of_startPending hy)
  · rcases mem_active_of_startPending hy with ⟨hy, -⟩ | hy
    · exact .inl hy
    · exact .inr (.inl ⟨key, hy⟩)
  · exact .inr (.inr hy)

theorem Orderly.rest {id : EndpointId} {r next : Endpoint} {frame : Option Frame} {now : Micros}
    {outcome : StepOutcome} {budget : Budget} (hx : Orderly ⟨c, g⟩)
    (found : c.station.endpoint? id = some r)
    (rests : r.step now frame c.station.budget = (.rest next outcome, budget)) :
    Follows ⟨c, g⟩ ⟨c.access fun s => (s.setBudget budget).modifyEndpoint id fun _ => next, g⟩ := by
  have hh := r.handle_step id now now frame c.station.budget true
  rw [rests] at hh
  have hs : c.station.Descends (c.station.setBudget budget) := .of_eq rfl rfl
  have hd : (c.station.setBudget budget).Descends
      ((c.station.setBudget budget).modifyEndpoint id fun _ => next) := by
    refine .modify fun r' hr' => ?_
    rw [Option.some.inj (hr'.symm.trans found)]
    exact hh
  have hn : (c.station.setBudget budget).Numbered := hx.numbered
  exact hx.descend (hn.modify id _) (hs.trans hd) (fun h hy => .inl hy) (.refl g)

theorem Orderly.begin {b : Begun} (hx : Orderly ⟨c, g⟩)
    (found : c.station.endpoint? b.id = some b.origin) (budget : Budget) :
    Follows ⟨c, g⟩ ⟨c.access (·.setBudget budget), { g with tasks := .step b :: g.tasks }⟩ := by
  have hg : c.station.Genuine (b.origin.handle b.id) := by
    refine ⟨hx.numbered.lt found, fun r hr => ?_⟩
    rw [Option.some.inj (hr.symm.trans found)]
    rfl
  have hd : c.station.Descends (c.station.setBudget budget) := .of_eq rfl rfl
  have hpaid : Follows ⟨c, g⟩ ⟨c.access (·.setBudget budget), g⟩ :=
    hx.descend hx.numbered hd (fun h hy => .inl hy) (.refl g)
  refine ⟨hpaid.descends, hpaid.orderly.numbered, hpaid.orderly.genuine, fun b' hb => ?_⟩
  rcases List.mem_cons.mp hb with hb | hb
  · cases hb
    exact hg.descend hd
  · exact hpaid.orderly.begun b' hb

theorem Orderly.finish {b : Begun} {tasks : List Task} (hx : Orderly ⟨c, g⟩) (after : Micros)
    (under : g.tasks = .step b :: tasks) :
    Follows ⟨c, g⟩
      ⟨c.access (·.modifyEndpoint b.id fun _ => (b.next b.accepted after).1),
        { g with tasks }⟩ := by
  refine hx.modify (fun r hr => ?_) rfl rfl fun b' hb => ?_
  · have hg := hx.begun b (under ▸ List.mem_cons_self)
    have hh := b.origin.handle_step b.id b.clock after b.input b.budget b.accepted
    rw [b.writes] at hh
    exact hh.trans (hg.2 r hr).symm
  · rw [under]
    exact List.mem_cons_of_mem _ hb

/-- A transition keeps order. -/
theorem Transition.follows (t : Transition x y) (hx : Orderly x) : Follows x y := by
  cases t with
  | locks | configure | discard | forget =>
    exact hx.rearrange rfl rfl (fun h hy => .inl hy) fun b hb => hb
  | @poll c g ack =>
    refine hx.rearrange ?_ ?_ (fun h hy => .inl ?_) fun b hb => hb
    · simp [record_outbox]
    · simp [record_outbox]
    · simpa [Stage.mem_handles, record_outbox] using hy
  | adjust idle setter => exact hx.modify (fun r _ => setter.handle r _) rfl rfl fun b hb => hb
  | @request c g sender rest => exact hx.request sender rest _
  | turnDown sender rest => exact hx.turnDown sender rest
  | collect =>
    refine hx.rearrange rfl rfl (fun h hy => .inl hy) fun b hb => ?_
    simpa using hb
  | acknowledge now under =>
    refine hx.modify (fun r _ => r.handle_onAck _ now _) rfl rfl fun b hb => ?_
    rw [under]
    exact List.mem_cons_of_mem _ hb
  | start => exact hx.start
  | rest idle found rests => exact hx.rest found rests
  | announce idle found rests =>
    have hrest := hx.rest found rests
    exact ⟨hrest.descends, hrest.orderly.numbered, hrest.orderly.genuine, hrest.orderly.begun⟩
  | begin b idle found => exact hx.begin found _
  | accept address under offered =>
    exact hx.descend hx.numbered (.of_eq rfl rfl) (fun h hy => .inl hy)
      (Hand.continues_accept under)
  | finish after under => exact hx.finish after under
  | @openReception c g receiver rest address => exact hx.openReception address receiver rest
  | @mark c g h genuine =>
    refine hx.rearrange rfl rfl (fun h' hy => ?_) fun b hb => hb
    simp only [Stage.mem_handles, access_station, markFinished, List.mem_append,
      List.mem_singleton] at hy ⊢
    grind
  | @retire c g untold told =>
    refine hx.rearrange (by simp) (by simp) (fun h hy => .inl ?_) fun b hb => hb
    simp only [Stage.mem_handles, access_station, takeFinished_pending, takeFinished_finished,
      mem_handles] at hy ⊢
    have := @mem_finished_of_takeFinished c.station h
    have := fun key => @mem_active_of_takeFinished c.station (key, h)
    grind
  | @tell c g h untold seen next sight =>
    refine hx.rearrange rfl rfl (fun h hy => .inl ?_) fun b hb => hb
    simp only [Stage.mem_handles, note_station] at hy ⊢
    rw [next]
    grind
  | @drop c g untold =>
    refine hx.descend (hx.numbered.dropAll g.told) (.dropAll _ g.told) (fun h hy => .inl ?_)
      (.refl _)
    simp only [Stage.mem_handles, access_station, dropAll_pending, dropAll_active,
      dropAll_finished] at hy ⊢
    grind

end Transitions

theorem Path.orderly (h : Path x y) (hx : Orderly x) : Orderly y :=
  h.keeps hx fun _ _ t hy => (t.follows hy).orderly

/-- What transitions between orderly stages keep holds along a path that begins in order. -/
theorem Path.maintains {P : Stage → Prop} {x y : Stage} (h : Path x y) (ho : Orderly x) (hx : P x)
    (hstep : ∀ x y, Transition x y → Orderly x → P x → P y) : P y :=
  (h.keeps (P := fun x => Orderly x ∧ P x) ⟨ho, hx⟩ fun x y t hx =>
    ⟨(t.follows hx.1).orderly, hstep x y t hx.1 hx.2⟩).2

theorem Path.descends (h : Path x y) (hx : Orderly x) :
    x.scene.station.Descends y.scene.station := by
  induction h with
  | refl => exact .refl _
  | tail path last ih => exact ih.trans (last.follows (path.orderly hx)).descends

end CanTransport
