import CanTransport.Proofs.Balance
import CanTransport.Proofs.Opening

/-! # What holds of every endpoint

An endpoint changes by its steps, by the outcomes of its frames and by the setters of the
application. What new endpoints have and these changes keep, every endpoint of a station has at all
times. Under a number still to be given nothing is written.
-/
namespace CanTransport

theorem Sender.create_ok {address : Address} {message : List UInt8} {kind : MessageType}
    {waitLimit : Option UInt8} {budget rest : Budget} {s : Sender}
    (h : create address message kind waitLimit budget = .ok (s, rest)) :
    s = .initial address message kind waitLimit := by
  rw [create] at h
  split at h
  · cases h
  · split at h
    · cases h
    · split at h
      · cases h
      · cases h
        rfl

theorem Sender.phase_initial (address : Address) (message : List UInt8) (kind : MessageType)
    (waitLimit : Option UInt8) :
    (initial address message kind waitLimit).phase = .sendSingle ∨
      (initial address message kind waitLimit).phase = .sendFirst := by
  dsimp only [initial]
  split
  · exact .inl rfl
  · exact .inr rfl

theorem Receiver.create_ok {address : Address} {blockSize : UInt8} {separation : SeparationTime}
    {budget rest : Budget} {r : Receiver}
    (h : create address blockSize separation budget = .ok (r, rest)) :
    r = .initial address blockSize separation ∧ budget.reserve labelBytes = .ok rest := by
  unfold create at h
  split at h
  · cases h
  · next hr =>
    cases h
    exact ⟨rfl, hr⟩

/-- New endpoints have the property, and every change of an endpoint keeps it. -/
structure Endpoint.Kept (Q : Endpoint → Prop) : Prop where
  sender : ∀ {address : Address} {message : List UInt8} {kind : MessageType}
    {waitLimit : Option UInt8} {budget rest : Budget} {s : Sender}, Sender.create address message
    kind waitLimit budget = .ok (s, rest) → Q (.sender s)
  receiver : ∀ address blockSize separation, Q (.receiver (.initial address blockSize separation))
  step : ∀ {r : Endpoint} (now after : Micros) (frame : Option Frame) (budget : Budget)
    (accepted : Bool), Q r → Q ((r.step now frame budget).1.finish accepted after).1
  onAck : ∀ {r : Endpoint} (now : Micros) (ack : Ack), Q r → Q (r.onAck now ack)
  setter : ∀ {r : Endpoint} {change : Endpoint → Endpoint}, Setter change → Q r → Q (change r)

/-- Every endpoint of the store has the property, and so had those whose steps have been begun. -/
structure Stage.Holds (Q : Endpoint → Prop) (x : Stage) : Prop where
  stored : ∀ id r, x.scene.station.endpoint? id = some r → Q r
  begun : ∀ b, .step b ∈ x.hand.tasks → Q b.origin

namespace Station

/-- No endpoint comes to the store and none in it changes. -/
structure Sheds (s s' : Station) : Prop where
  fresh : s.fresh ≤ s'.fresh
  stored : ∀ id r, s'.endpoint? id = some r → s.endpoint? id = some r

theorem Sheds.of_eq {s s' : Station} (hf : s'.fresh = s.fresh) (he : s'.endpoints = s.endpoints) :
    s.Sheds s' :=
  ⟨Nat.le_of_eq hf.symm, fun _ _ hr => by rwa [endpoint?, he] at hr⟩

theorem sheds_record (s : Station) (ack : Ack) : s.Sheds (s.record ack).2 := by
  rw [record_outbox]
  exact .of_eq rfl rfl

theorem sheds_startPending (s : Station) :
    s.Sheds s.startPending := .of_eq s.startPending_fresh s.startPending_endpoints

theorem sheds_takeFinished (s : Station) :
    s.Sheds s.takeFinished.2 := .of_eq s.takeFinished_fresh s.takeFinished_endpoints

theorem sheds_dropAll (s : Station) (handles : List Handle) : s.Sheds (s.dropAll handles) :=
  ⟨Nat.le_of_eq (s.dropAll_fresh handles).symm, fun _ _ hr => endpoint?_of_dropAll hr⟩

theorem sheds_turnDown {s : Station} (hn : s.Numbered) (r : Endpoint) (rest : Budget) :
    s.Sheds ((s.adopt r rest).2.drop s.fresh) := by
  refine ⟨?_, fun id r' hr => ?_⟩
  · rw [fresh_drop]
    exact Nat.le_succ _
  · rw [endpoint?_drop, endpoint?_adopt hn] at hr
    split at hr
    · cases hr
    · exact hr

end Station

variable {Q : Endpoint → Prop} {x y : Stage} {c : Scene} {g g' : Hand} {id : EndpointId}

namespace Stage.Holds
open Station

theorem congr (hx : Holds Q x) (hs : x.scene.station.Sheds y.scene.station)
    (hb : x.hand.Continues y.hand) : Holds Q y := by
  refine ⟨fun id r hr => hx.stored id r (hs.stored id r hr), fun b hmem => ?_⟩
  obtain ⟨b', hb', -, ho⟩ := hb b hmem
  exact ho ▸ hx.begun b' hb'

theorem modify {f : Endpoint → Endpoint} (hx : Holds Q ⟨c, g⟩)
    (hf : ∀ r, c.station.endpoint? id = some r → Q (f r))
    (hb : ∀ b, .step b ∈ g'.tasks → .step b ∈ g.tasks) :
    Holds Q ⟨c.access (·.modifyEndpoint id f), g'⟩ := by
  refine ⟨fun i r hr => ?_, fun b hmem => hx.begun b (hb b hmem)⟩
  rw [access_station, endpoint?_modifyEndpoint] at hr
  obtain ⟨r₀, hr₀, rfl⟩ := Option.map_eq_some_iff.mp hr
  split
  · next hi =>
    subst hi
    exact hf r₀ hr₀
  · exact hx.stored i r₀ hr₀

theorem adopt {r : Endpoint} (hx : Holds Q x) (hr : Q r)
    (he : ∀ i, y.scene.station.endpoint? i = if i = x.scene.station.fresh then some r else
      x.scene.station.endpoint? i)
    (hh : y.hand = x.hand) : Holds Q y := by
  refine ⟨fun i r' hr' => ?_, fun b hmem => hx.begun b (hh ▸ hmem)⟩
  rw [he] at hr'
  split at hr'
  · cases hr'
    exact hr
  · exact hx.stored i r' hr'

theorem step (hq : Endpoint.Kept Q) (t : Transition x y) (ho : Orderly x) (hx : Holds Q x) :
    Holds Q y := by
  cases t with
  | locks | configure | discard | mark | forget | tell => exact hx.congr (.of_eq rfl rfl) (.refl _)
  | poll => exact hx.congr (sheds_record _ _) (.refl _)
  | start => exact hx.congr (sheds_startPending _) (.refl _)
  | retire => exact hx.congr (sheds_takeFinished _) (.refl _)
  | drop => exact hx.congr (sheds_dropAll _ _) (.refl _)
  | turnDown => exact hx.congr (sheds_turnDown ho.numbered _ _) (.refl _)
  | collect => exact hx.congr (.of_eq rfl rfl) (Hand.continues_collect _ _ _)
  | adjust idle setter =>
    exact hx.modify (fun r hr => hq.setter setter (hx.stored _ r hr)) fun b hb => hb
  | acknowledge now under =>
    exact hx.modify (fun r hr => hq.onAck now _ (hx.stored _ r hr)) fun b hb =>
      under ▸ List.mem_cons_of_mem _ hb
  | @request c g sender rest address message kind created =>
    exact hx.adopt (r := .sender sender) (hq.sender created)
      (endpoint?_adopt ho.numbered _ rest) rfl
  | @openReception c g receiver rest address blockSize separation quiet created =>
    obtain ⟨rfl, -⟩ := Receiver.create_ok created
    exact hx.adopt (r := .receiver _) (hq.receiver _ _ _) (endpoint?_adopt ho.numbered _ rest) rfl
  | @rest c g id r next frame now outcome budget idle found rests
  | @announce c g id r next frame now outcome budget idle found rests =>
    have hnext := hq.step now now frame c.station.budget true (hx.stored id r found)
    rw [rests] at hnext
    have hpaid : Holds Q ⟨c.access (·.setBudget budget), g⟩ := hx.congr (.of_eq rfl rfl) (.refl _)
    exact ⟨(hpaid.modify (f := fun _ => next) (fun _ _ => hnext) fun b hb => hb).stored, hx.begun⟩
  | begin b idle found =>
    refine ⟨hx.stored, fun b' hb => ?_⟩
    rcases List.mem_cons.mp hb with hb | hb
    · cases hb
      exact hx.stored _ _ found
    · exact hx.begun b' hb
  | accept address under offered => exact hx.congr (.of_eq rfl rfl) (Hand.continues_accept under)
  | @finish c g b tasks after under =>
    have hnext :=
      hq.step b.clock after b.input b.budget b.accepted (hx.begun b (under ▸ List.mem_cons_self))
    rw [b.writes] at hnext
    exact hx.modify (fun _ _ => hnext) fun b' hb => under ▸ List.mem_cons_of_mem _ hb

end Stage.Holds

theorem holds_of_config {config : Config} {s : Station} (h : Station.ofConfig config = .ok s) :
    Stage.Holds Q ⟨{ station := s }, {}⟩ := by
  obtain ⟨-, rfl⟩ := Station.ofConfig_eq h
  exact ⟨fun id r hr => absurd (Station.mem_of_endpoint? hr) List.not_mem_nil, fun b hb =>
    absurd hb List.not_mem_nil⟩

/-- What is written, and what waits for its outcome, is by endpoints whose numbers have been given.
-/
structure Stage.Signed (x : Stage) : Prop where
  entries : ∀ e ∈ x.scene.station.outbox, ∀ id, e.writer = some id → id < x.scene.station.fresh
  frames : ∀ id, framesOf id x.scene.events ≠ [] → id < x.scene.station.fresh

namespace Stage.Signed
open Station

theorem congr (hx : Signed x) (hf : x.scene.station.fresh ≤ y.scene.station.fresh)
    (ho : ∀ e ∈ y.scene.station.outbox, ∀ id, e.writer = some id →
      ∃ e ∈ x.scene.station.outbox, e.writer = some id)
    (he : ∀ id, framesOf id y.scene.events = framesOf id x.scene.events) : Signed y := by
  refine ⟨fun e hmem id hw => ?_, fun id hid => Nat.lt_of_lt_of_le (hx.frames id (he id ▸ hid)) hf⟩
  obtain ⟨e', hmem', hw'⟩ := ho e hmem id hw
  exact Nat.lt_of_lt_of_le (hx.entries e' hmem' id hw') hf

theorem framesOf_note {e : Event} (h : e.write? = none) (id : EndpointId) (events : List Event) :
    framesOf id (events ++ [e]) = framesOf id events := by
  rw [framesOf, framesOf, writesIn_append_of_none events h]

theorem step (t : Transition x y) (ho : Orderly x) (hx : Signed x) : Signed y := by
  have hsame : ∀ e ∈ x.scene.station.outbox, ∀ id, e.writer = some id →
      ∃ e ∈ x.scene.station.outbox, e.writer = some id :=
    fun e he id hw => ⟨e, he, hw⟩
  cases t with
  | locks | configure | adjust | acknowledge | rest | begin | finish | mark =>
    exact hx.congr (Nat.le_refl _) hsame fun _ => rfl
  | openReception => exact hx.congr (Nat.le_succ _) hsame fun _ => rfl
  | announce => exact hx.congr (Nat.le_refl _) hsame fun id => framesOf_note rfl id _
  | tell => exact hx.congr (Nat.le_refl _) hsame fun id => framesOf_note rfl id _
  | request => exact hx.congr (Nat.le_succ _) hsame fun id => framesOf_note rfl id _
  | @turnDown c g sender rest =>
    refine hx.congr (sheds_turnDown ho.numbered _ _).fresh (fun e hmem id hw => ⟨e, ?_, hw⟩)
      fun _ => rfl
    rwa [access_station, access_station, drop_outbox] at hmem
  | @poll c g ack =>
    refine hx.congr (sheds_record _ _).fresh (fun e hmem id hw => ?_) fun id =>
      framesOf_note rfl id _
    rw [access_station, note_station, record_outbox] at hmem
    obtain ⟨e', hmem', hw'⟩ := Outbox.mem_record hmem
    exact ⟨e', hmem', hw'.trans hw⟩
  | @discard c g now | @collect c g now =>
    refine hx.congr (Nat.le_refl _)
      (fun e hmem id hw => ⟨e, (Outbox.next_sublist _ _).subset hmem, hw⟩) fun _ => rfl
  | start | retire | drop =>
    exact hx.congr (by simp) (fun e hmem id hw => ⟨e, by simpa using hmem, hw⟩) fun _ => rfl
  | @accept c g b tasks address under offered =>
    have hb : b.id < c.station.fresh := (ho.begun b (under ▸ List.mem_cons_self)).1
    refine ⟨fun e hmem id hw => ?_, fun id hid => ?_⟩
    · rcases List.mem_append.mp hmem with hmem | hmem
      · exact hx.entries e hmem id hw
      · rw [List.mem_singleton.mp hmem] at hw
        exact Option.some.inj hw ▸ hb
    · by_cases hwriter : b.id = id
      · exact hwriter ▸ hb
      · refine hx.frames id fun hnil => hid ?_
        exact (framesOf_accepted c.events b.id b.frame id).trans (by simp [hwriter, hnil])
  | @forget c g address now =>
    exact hx.congr (Nat.le_refl _) (fun e hmem id hw => Outbox.mem_release hmem hw) fun _ => rfl

end Stage.Signed

theorem signed_of_config {config : Config} {s : Station} (h : Station.ofConfig config = .ok s) :
    Stage.Signed ⟨{ station := s }, {}⟩ := by
  obtain ⟨-, rfl⟩ := Station.ofConfig_eq h
  exact ⟨fun e he => absurd he List.not_mem_nil, fun id hid => absurd rfl hid⟩

end CanTransport
