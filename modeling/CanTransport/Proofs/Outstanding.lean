import CanTransport.Proofs.Attribution
import CanTransport.Proofs.Inputs

/-! # At most one frame is outstanding

An endpoint writes only when it waits for nothing, and then waits until it is handed the outcome of
that frame. Entries may be dropped and outcomes lost on the way, but nothing brings a second one
about. This is so for the endpoints of a station and for endpoints that share an outbox without one.
-/
namespace CanTransport
open Station

namespace Outbox
variable {o : Outbox} {id : EndpointId} {now : Micros}

def writtenBy (o : Outbox) (id : EndpointId) : Nat := o.countP (·.writer = some id)

theorem writtenBy_record (o : Outbox) (ack : Ack) (id : EndpointId) :
    ((o.record? ack).getD o).writtenBy id = o.writtenBy id := by
  induction o with
  | nil => rfl
  | cons e o ih =>
    rw [record?]
    split
    · cases hr : record? ack o with
      | none => rfl
      | some o' =>
        have ih : writtenBy o' id = writtenBy o id := by simpa [hr] using ih
        simp only [writtenBy] at ih
        simp [writtenBy, List.countP_cons, ih]
    · simp [writtenBy, List.countP_cons]

theorem writtenBy_sublist {o' : Outbox} (h : o'.Sublist o) (id : EndpointId) :
    o'.writtenBy id ≤ o.writtenBy id :=
  h.countP_le

theorem writtenBy_next {e : OutboxEntry} (h : (o.next now).1 = some e) (hw : e.writer = some id) :
    (o.next now).2.writtenBy id + 1 ≤ o.writtenBy id := by
  have hd := writtenBy_sublist (show (o.dropSpent now).Sublist o from List.filter_sublist) id
  unfold next at h ⊢
  dsimp only at h ⊢
  split at h
  · next hp =>
    cases h
    obtain ⟨-, before, after, ho, rfl⟩ := pop?_eq_some hp
    refine Nat.le_trans (Nat.le_of_eq ?_) hd
    rw [ho]
    simp [writtenBy, List.countP_append, hw, Nat.add_assoc]
  · cases h

theorem writtenBy_release (o : Outbox) (address : Address) (now : Micros) (id : EndpointId) :
    (o.release address now).2.writtenBy id ≤ o.writtenBy id := by
  obtain ⟨kept, f, he, hs, -, hf⟩ := release_eq o address now
  rw [he, writtenBy, List.countP_map]
  refine Nat.le_trans (List.countP_mono_left fun e _ hw => ?_) (writtenBy_sublist hs id)
  have hw : (f e).writer = some id := by simpa using hw
  rcases (hf e).2 with same | freed
  · simpa [same] using hw
  · cases freed.symm.trans hw

theorem writtenBy_push (o : Outbox) (address : Address) (writer id : EndpointId) :
    (o.push address writer).writtenBy id = o.writtenBy id + if writer = id then 1 else 0 := by
  simp [writtenBy, push, List.countP_append, List.countP_cons]

end Outbox

def Task.acks (id : EndpointId) : Task → Bool
  | .ack i _ => i = id
  | .step _ => false

namespace Stage

/-- How many frames of the endpoint wait for an outcome, or for the outcome to be handed over. -/
def owed (x : Stage) (id : EndpointId) : Nat :=
  x.scene.station.outbox.writtenBy id + x.hand.tasks.countP (Task.acks id)

def Stepping (x : Stage) (id : EndpointId) : Prop := ∃ b, .step b ∈ x.hand.tasks ∧ b.id = id

end Stage

/-- An endpoint that has not done anything yet. -/
inductive Endpoint.IsNew : Endpoint → Prop
  | sender {address : Address} {message : List UInt8} {kind : MessageType}
      {waitLimit : Option UInt8} {budget rest : Budget} {s : Sender}
      (created : Sender.create address message kind waitLimit budget = .ok (s, rest)) :
      IsNew (.sender s)
  | receiver (address : Address) (blockSize : UInt8) (separation : SeparationTime) :
      IsNew (.receiver (.initial address blockSize separation))

/-- What comes about next among endpoints that share an outbox: a call of their station goes on, or
somebody makes, steps or drops an endpoint by hand. -/
inductive Dealing : Stage → Stage → Prop
  | call {x y : Stage} (t : Transition x y) : Dealing x y
  | make {c : Scene} {g : Hand} {r : Endpoint} (rest : Budget) (new : r.IsNew) :
      Dealing ⟨c, g⟩ ⟨c.access fun s => (s.adopt r rest).2, g⟩
  /-- A step that writes nothing; what it announces is told to nobody. -/
  | rest {c : Scene} {g : Hand} {id : EndpointId} {r next : Endpoint} {frame : Option Frame}
      {now : Micros} {outcome : StepOutcome} {budget : Budget} (idle : id ∉ g.busy)
      (found : c.station.endpoint? id = some r)
      (rests : r.step now frame c.station.budget = (.rest next outcome, budget)) :
      Dealing ⟨c, g⟩ ⟨c.access fun s => (s.setBudget budget).modifyEndpoint id fun _ => next, g⟩
  | dismiss {c : Scene} {g : Hand} (id : EndpointId) : Dealing ⟨c, g⟩ ⟨c.access (·.drop id), g⟩
  | spend {c : Scene} {g : Hand} (budget : Budget) :
    Dealing ⟨c, g⟩ ⟨c.access (·.setBudget budget), g⟩

variable {x y : Stage} {c : Scene} {g : Hand} {id : EndpointId} {r : Endpoint}

namespace Dealing

theorem follows (d : Dealing x y) (ho : Orderly x) : Follows x y := by
  cases d with
  | call t => exact t.follows ho
  | @make c g r rest =>
    exact ho.descend (ho.numbered.adopt r rest) (Descends.adopt ho.numbered r rest)
      (fun h hh => .inl hh) (.refl g)
  | rest idle found rests => exact ho.rest found rests
  | @dismiss c g id =>
    refine ho.descend (ho.numbered.drop id) (Descends.drop c.station id) (fun h hh => .inl ?_)
      (.refl g)
    simpa only [Stage.mem_handles, access_station, drop_pending, drop_active, drop_finished]
      using hh
  | spend budget => exact ho.rearrange rfl rfl (fun h hh => .inl hh) fun b hb => hb

end Dealing

theorem Station.sheds_drop (s : Station) (id : EndpointId) : s.Sheds (s.drop id) := by
  refine ⟨Nat.le_of_eq (fresh_drop s id).symm, fun i r hr => ?_⟩
  rw [endpoint?_drop] at hr
  split at hr
  · cases hr
  · exact hr

/-- What new endpoints have and every change of an endpoint keeps, all have at all times. -/
theorem Stage.Holds.deal {Q : Endpoint → Prop} (hq : Endpoint.Kept Q) (d : Dealing x y)
    (ho : Orderly x) (hx : Holds Q x) :
    Holds Q y := by
  cases d with
  | call t => exact hx.step hq t ho
  | @make c g r rest new =>
    refine hx.adopt (r := r) ?_ (endpoint?_adopt ho.numbered r rest) rfl
    cases new with
    | sender created => exact hq.sender created
    | receiver => exact hq.receiver _ _ _
  | @rest c g id r next frame now outcome budget idle found rests =>
    have hnext := hq.step now now frame c.station.budget true (hx.stored id r found)
    rw [rests] at hnext
    have hpaid : Holds Q ⟨c.access (·.setBudget budget), g⟩ := hx.congr (.of_eq rfl rfl) (.refl _)
    exact ⟨(hpaid.modify (f := fun _ => next) (fun _ _ => hnext) fun b hb => hb).stored, hx.begun⟩
  | dismiss id => exact hx.congr (sheds_drop _ id) (.refl _)
  | spend budget => exact hx.congr (.of_eq rfl rfl) (.refl _)

/-- How the endpoint of a number has become what it is. -/
inductive Stage.Evolves (x y : Stage) (id : EndpointId) (r : Endpoint) : Prop
  | stays (found : x.scene.station.endpoint? id = some r)
  | new (number : id = x.scene.station.fresh) (new : r.IsNew)
  | set {r₀ : Endpoint} {change : Endpoint → Endpoint}
      (found : x.scene.station.endpoint? id = some r₀) (setter : Endpoint.Setter change)
      (next : r = change r₀)
  | steps {r₀ : Endpoint} {now : Micros} {frame : Option Frame} {outcome : StepOutcome}
      (idle : id ∉ x.hand.busy) (found : x.scene.station.endpoint? id = some r₀)
      (rests : (r₀.step now frame x.scene.station.budget).1 = .rest r outcome)
  | ends {b : Begun} (under : x.hand.tasks = .step b :: y.hand.tasks)
      (own : b.id = id) (after : Micros) (next : r = (b.next b.accepted after).1)
  | learns {r₀ : Endpoint} {ack : Ack} (under : x.hand.tasks = .ack id ack :: y.hand.tasks)
      (found : x.scene.station.endpoint? id = some r₀) (now : Micros) (next : r = r₀.onAck now ack)

namespace Stage.Evolves

theorem of_sheds (h : x.scene.station.Sheds y.scene.station)
    (hr : y.scene.station.endpoint? id = some r) :
    x.Evolves y id r := .stays (h.stored id r hr)

theorem of_adopt {r₀ : Endpoint} (new : r₀.IsNew)
    (he : ∀ i, y.scene.station.endpoint? i = if i = x.scene.station.fresh then some r₀ else
      x.scene.station.endpoint? i)
    (hr : y.scene.station.endpoint? id = some r) : x.Evolves y id r := by
  rw [he] at hr
  split at hr
  · next hid =>
    cases hr
    exact .new hid new
  · exact .stays hr

theorem of_modify {s : Station} {i : EndpointId} {f : Endpoint → Endpoint}
    (hs : s.endpoints = x.scene.station.endpoints) (hy : y.scene.station = s.modifyEndpoint i f)
    (hf : ∀ r₀, x.scene.station.endpoint? i = some r₀ → x.Evolves y i (f r₀))
    (hr : y.scene.station.endpoint? id = some r) : x.Evolves y id r := by
  rw [hy, endpoint?_modifyEndpoint, endpoint?, hs] at hr
  obtain ⟨r₀, hr₀, rfl⟩ := Option.map_eq_some_iff.mp hr
  split
  · next hid =>
    subst hid
    exact hf r₀ hr₀
  · exact .stays hr₀

end Stage.Evolves

theorem Dealing.evolves (d : Dealing x y) (ho : Orderly x)
    (hr : y.scene.station.endpoint? id = some r) :
    x.Evolves y id r := by
  cases d with
  | call t =>
    cases t with
    | locks | configure | discard | collect | mark | forget | tell | begin | accept =>
      exact .of_sheds (.of_eq rfl rfl) hr
    | poll => exact .of_sheds (sheds_record _ _) hr
    | start => exact .of_sheds (sheds_startPending _) hr
    | retire => exact .of_sheds (sheds_takeFinished _) hr
    | drop => exact .of_sheds (sheds_dropAll _ _) hr
    | turnDown => exact .of_sheds (sheds_turnDown ho.numbered _ _) hr
    | adjust idle setter => exact .of_modify rfl rfl (fun r₀ hr₀ => .set hr₀ setter rfl) hr
    | acknowledge now under => exact .of_modify rfl rfl (fun r₀ hr₀ => .learns under hr₀ now rfl) hr
    | @request c g sender rest address message kind created =>
      exact .of_adopt (.sender created) (endpoint?_adopt ho.numbered _ rest) hr
    | @openReception c g receiver rest address blockSize separation quiet created =>
      obtain ⟨rfl, -⟩ := Receiver.create_ok created
      exact .of_adopt (.receiver _ _ _) (endpoint?_adopt ho.numbered _ rest) hr
    | @rest c g i r' next frame now outcome budget idle found rests
    | @announce c g i r' next frame now length budget idle found rests =>
      refine .of_modify (s := c.station.setBudget budget) (f := fun _ => next) rfl
        rfl (fun r₀ hr₀ => ?_) hr
      exact .steps idle found (congrArg Prod.fst rests)
    | finish after under => exact .of_modify rfl rfl (fun _ _ => .ends under rfl after rfl) hr
  | @make c g r rest new => exact .of_adopt new (endpoint?_adopt ho.numbered r rest) hr
  | @rest c g i r' next frame now outcome budget idle found rests =>
    refine .of_modify (s := c.station.setBudget budget) (f := fun _ => next) rfl
      rfl (fun r₀ hr₀ => ?_) hr
    exact .steps idle found (congrArg Prod.fst rests)
  | dismiss i => exact .of_sheds (sheds_drop _ i) hr
  | spend budget => exact .of_sheds (.of_eq rfl rfl) hr

/-- No endpoint has more than one frame outstanding, and one that has waits for the outcome or does
not care. In a step it is the frame just accepted. -/
structure Stage.Single (x : Stage) : Prop where
  given : ∀ id, 0 < x.owed id → id < x.scene.station.fresh
  once : ∀ id, x.owed id ≤ 1
  apart : x.hand.busy.Nodup
  silent : ∀ id r, x.scene.station.endpoint? id = some r → 0 < x.owed id → x.Stepping id ∨ r.Silent
  accepted : ∀ b, .step b ∈ x.hand.tasks → 0 < x.owed b.id → b.accepted = true

namespace Stage.Single

theorem not_stepping (idle : id ∉ x.hand.busy) : ¬x.Stepping id := by
  rintro ⟨b, hb, rfl⟩
  exact idle (List.mem_map_of_mem hb)

theorem keep (hx : Single x) (d : Dealing x y) (ho : Orderly x) (ht : y.hand.tasks = x.hand.tasks)
    (hw : ∀ id, y.scene.station.outbox.writtenBy id ≤ x.scene.station.outbox.writtenBy id) :
    Single y := by
  have howed (id : EndpointId) : y.owed id ≤ x.owed id := by
    rw [owed, owed, ht]
    exact Nat.add_le_add_right (hw id) _
  have hpos (id : EndpointId) (h : 0 < y.owed id) : 0 < x.owed id := Nat.lt_of_lt_of_le h (howed id)
  have hstepping {id : EndpointId} (h : x.Stepping id) : y.Stepping id := by
    rw [Stepping, ht]
    exact h
  refine ⟨fun id h => Nat.lt_of_lt_of_le (hx.given id (hpos id h)) (d.follows ho).descends.1,
    fun id => Nat.le_trans (howed id) (hx.once id), ?_, fun id r hr h => ?_, fun b hb h =>
    hx.accepted b (ht ▸ hb) (hpos _ h)⟩
  · rw [Hand.busy, ht]
    exact hx.apart
  · cases d.evolves ho hr with
    | stays found => exact (hx.silent id r found (hpos id h)).imp_left hstepping
    | new number => exact absurd (hx.given id (hpos id h)) (number ▸ Nat.lt_irrefl _)
    | set found setter next =>
      exact next ▸ (hx.silent id _ found (hpos id h)).imp hstepping setter.silent.mpr
    | steps idle found rests =>
      exact .inr (Endpoint.step_rests rests
        ((hx.silent id _ found (hpos id h)).resolve_left (not_stepping idle)))
    | ends under => exact absurd (congrArg List.length under) (by simp [ht])
    | learns under => exact absurd (congrArg List.length under) (by simp [ht])

theorem collect {e : OutboxEntry} {ack : Ack} {now : Micros} (hx : Single ⟨c, g⟩)
    (ready : (c.station.nextDelivery now).1 = some e) (writer : e.writer = some id)
    (idle : id ∉ g.busy) :
    Single ⟨c.access fun s => (s.nextDelivery now).2,
      { g with tasks := .ack id ack :: g.tasks }⟩ := by
  have howed (i : EndpointId) :
      owed ⟨c.access fun s => (s.nextDelivery now).2, { g with tasks := .ack id ack :: g.tasks }⟩
      i ≤
      owed ⟨c, g⟩ i := by
    have hshed := Outbox.writtenBy_sublist (Outbox.next_sublist c.station.outbox now) i
    have htaken (hi : id = i) : (c.station.outbox.next now).2.writtenBy i + 1 ≤
        c.station.outbox.writtenBy i :=
      Outbox.writtenBy_next ready (hi ▸ writer)
    change (c.station.outbox.next now).2.writtenBy i +
      (List.countP (Task.acks i) (.ack id ack :: g.tasks)) ≤ c.station.outbox.writtenBy i +
      g.tasks.countP (Task.acks i)
    rw [List.countP_cons]
    by_cases hi : id = i
    · have := htaken hi
      simp only [Task.acks, hi, decide_true, if_true]
      omega
    · simp only [Task.acks, hi, decide_false, Bool.false_eq_true, if_false]
      omega
  have hpos (i : EndpointId) (h : 0 < _) : 0 < owed ⟨c, g⟩ i := Nat.lt_of_lt_of_le h (howed i)
  refine ⟨fun i h => hx.given i (hpos i h), fun i => Nat.le_trans (howed i) (hx.once i),
    List.nodup_cons.mpr ⟨idle, hx.apart⟩, fun i r hr h => (hx.silent i r hr (hpos i h)).imp_left ?_,
    fun b hb h => ?_⟩
  · rintro ⟨b, hb, hi⟩
    exact ⟨b, List.mem_cons_of_mem _ hb, hi⟩
  · exact hx.accepted b (by simpa using hb) (hpos _ h)

/-- An outcome is handed over, and nothing of the endpoint is outstanding any more. -/
theorem acknowledge {ack : Ack} {tasks : List Task} (hx : Single ⟨c, g⟩) (now : Micros)
    (under : g.tasks = .ack id ack :: tasks) :
    Single ⟨c.access (·.modifyEndpoint id (·.onAck now ack)), { g with tasks }⟩ := by
  have howed (i : EndpointId) : owed ⟨c, g⟩ i =
      owed ⟨c.access (·.modifyEndpoint id (·.onAck now ack)), { g with tasks }⟩ i + if id =
      i then 1 else 0 := by
    rw [owed, owed, under, List.countP_cons]
    simp only [Task.acks, decide_eq_true_eq]
    exact (Nat.add_assoc _ _ _).symm
  have hpos (i : EndpointId)
      (h : 0 < owed ⟨c.access (·.modifyEndpoint id (·.onAck now ack)), { g with tasks }⟩ i) :
      id ≠ i ∧ 0 < owed ⟨c, g⟩ i := by
    have honce := hx.once i
    have hi := howed i
    refine ⟨fun hid => ?_, by omega⟩
    rw [if_pos hid] at hi
    omega
  have hmem {t : Task} (ht : t ∈ tasks) : t ∈ g.tasks := under ▸ List.mem_cons_of_mem _ ht
  refine ⟨fun i h => hx.given i (hpos i h).2, fun i => ?_, ?_, fun i r hr h => ?_, fun b hb h => ?_⟩
  · have honce := hx.once i
    have hi := howed i
    omega
  · have hapart := hx.apart
    rw [Hand.busy, under] at hapart
    exact (List.nodup_cons.mp hapart).2
  · obtain ⟨hid, h⟩ := hpos i h
    rw [access_station, endpoint?_modifyEndpoint] at hr
    obtain ⟨r₀, hr₀, rfl⟩ := Option.map_eq_some_iff.mp hr
    rw [if_neg (Ne.symm hid)]
    refine (hx.silent i r₀ hr₀ h).imp_left ?_
    rintro ⟨b, hb, hi⟩
    exact ⟨b, by simpa [under] using hb, hi⟩
  · exact hx.accepted b (hmem hb) (hpos _ h).2

theorem begin {b : Begun} {budget : Budget} (hx : Single ⟨c, g⟩) (idle : b.id ∉ g.busy)
    (found : c.station.endpoint? b.id = some b.origin) :
    Single ⟨c.access (·.setBudget budget), { g with tasks := .step b :: g.tasks }⟩ := by
  have howed (i : EndpointId) :
      owed ⟨c.access (·.setBudget budget), { g with tasks := .step b :: g.tasks }⟩ i =
      owed ⟨c, g⟩ i := by
    rw [owed, owed, List.countP_cons]
    rfl
  refine ⟨fun i h => hx.given i (howed i ▸ h), fun i => howed i ▸ hx.once i,
    List.nodup_cons.mpr ⟨idle, hx.apart⟩, fun i r hr h => ?_, fun b' hb h => ?_⟩
  · refine (hx.silent i r hr (howed i ▸ h)).imp_left ?_
    rintro ⟨b', hb, hi⟩
    exact ⟨b', List.mem_cons_of_mem _ hb, hi⟩
  · rw [howed] at h
    rcases List.mem_cons.mp hb with hb | hb
    · cases hb
      have hsilent := (hx.silent b.id b.origin found h).resolve_left (not_stepping idle)
      exact absurd hsilent (Endpoint.step_writes b.writes).1
    · exact hx.accepted b' hb h

theorem accept {b : Begun} {tasks : List Task} (address : Address) (hx : Single ⟨c, g⟩)
    (ho : Orderly ⟨c, g⟩) (under : g.tasks = .step b :: tasks) (offered : b.accepted = false) :
    Single ⟨(c.note (.accepted b.id b.frame)).access fun s =>
      { s with outbox := s.outbox.push address b.id },
        { g with tasks := .step { b with accepted := true } :: tasks }⟩ := by
  have hmem : .step b ∈ g.tasks := under ▸ List.mem_cons_self
  have hnone : owed ⟨c, g⟩ b.id = 0 := by
    refine Nat.eq_zero_of_not_pos fun h => ?_
    cases offered.symm.trans (hx.accepted b hmem h)
  have howed (i : EndpointId) : owed ⟨(c.note (.accepted b.id b.frame)).access
      fun s => { s with outbox := s.outbox.push address b.id },
      { g with tasks := .step { b with accepted := true } :: tasks }⟩ i =
        owed ⟨c, g⟩ i + if b.id = i then 1 else 0 := by
    have hpush := Outbox.writtenBy_push c.station.outbox address b.id i
    simp only [owed, access_station, note_station, hpush, under, List.countP_cons, Task.acks,
      Bool.false_eq_true, if_false]
    omega
  have hapart : b.id ∉ tasks.map Task.id ∧ (tasks.map Task.id).Nodup := by
    have hapart := hx.apart
    rw [Hand.busy, under] at hapart
    exact List.nodup_cons.mp hapart
  refine ⟨fun i h => ?_, fun i => ?_, List.nodup_cons.mpr hapart, fun i r hr h =>
    ?_, fun b' hb h => ?_⟩
  · by_cases hi : b.id = i
    · exact hi ▸ (ho.begun b hmem).1
    · rw [howed, if_neg hi] at h
      exact hx.given i h
  · rw [howed]
    split
    · next hi =>
      have hnone : owed ⟨c, g⟩ i = 0 := hi ▸ hnone
      exact Nat.le_of_eq (by rw [hnone])
    · exact hx.once i
  · by_cases hi : b.id = i
    · exact .inl ⟨_, List.mem_cons_self, hi⟩
    · rw [howed, if_neg hi] at h
      refine (hx.silent i r hr h).imp_left ?_
      rintro ⟨b', hb, hid⟩
      rcases List.mem_cons.mp (under ▸ hb) with hb | hb
      · cases hb
        exact absurd hid hi
      · exact ⟨b', List.mem_cons_of_mem _ hb, hid⟩
  · rcases List.mem_cons.mp hb with hb | hb
    · cases hb
      rfl
    · have hne : b.id ≠ b'.id := fun heq => hapart.1 (heq ▸ List.mem_map_of_mem hb)
      rw [howed, if_neg hne] at h
      exact hx.accepted b' (under ▸ List.mem_cons_of_mem _ hb) h

/-- A step comes to its end: with its frame accepted the endpoint waits for the outcome, or does not
care. -/
theorem finish {b : Begun} {tasks : List Task} (after : Micros) (hx : Single ⟨c, g⟩)
    (under : g.tasks = .step b :: tasks) :
    Single ⟨c.access (·.modifyEndpoint b.id fun _ => (b.next b.accepted after).1),
      { g with tasks }⟩ := by
  have hmem {t : Task} (ht : t ∈ tasks) : t ∈ g.tasks := under ▸ List.mem_cons_of_mem _ ht
  have howed (i : EndpointId) :
      owed ⟨c.access (·.modifyEndpoint b.id fun _ => (b.next b.accepted after).1), { g with tasks }⟩
      i = owed ⟨c, g⟩ i := by
    rw [owed, owed, under, List.countP_cons]
    rfl
  refine ⟨fun i h => hx.given i (howed i ▸ h), fun i => howed i ▸ hx.once i, ?_, fun i r hr h => ?_,
    fun b' hb h => hx.accepted b' (hmem hb) (howed _ ▸ h)⟩
  · have hapart := hx.apart
    rw [Hand.busy, under] at hapart
    exact (List.nodup_cons.mp hapart).2
  · rw [howed] at h
    rw [access_station, endpoint?_modifyEndpoint] at hr
    obtain ⟨r₀, hr₀, rfl⟩ := Option.map_eq_some_iff.mp hr
    split
    · next hi =>
      subst hi
      have haccepted := hx.accepted b (under ▸ List.mem_cons_self) h
      exact .inr (haccepted ▸ (Endpoint.step_writes b.writes).2 after)
    · next hi =>
      refine (hx.silent i r₀ hr₀ h).imp_left ?_
      rintro ⟨b', hb, hid⟩
      rcases List.mem_cons.mp (under ▸ hb) with hb | hb
      · cases hb
        exact absurd hid.symm hi
      · exact ⟨b', hb, hid⟩

theorem deal (hx : Single x) (d : Dealing x y) (ho : Orderly x) : Single y := by
  cases d with
  | call t =>
    have d : Dealing x y := .call t
    cases t with
    | locks | configure | adjust | request | rest | announce | openReception | mark | tell =>
      exact hx.keep d ho rfl fun _ => Nat.le_refl _
    | turnDown =>
      refine hx.keep d ho rfl fun _ => ?_
      exact Nat.le_of_eq (by rw [access_station, access_station, drop_outbox]; rfl)
    | poll ack =>
      refine hx.keep d ho rfl fun id => ?_
      rw [access_station, note_station, record_outbox]
      exact Nat.le_of_eq (Outbox.writtenBy_record _ ack id)
    | discard now =>
      exact hx.keep d ho rfl fun id => Outbox.writtenBy_sublist (Outbox.next_sublist _ now) id
    | forget address now =>
      exact hx.keep d ho rfl fun id => Outbox.writtenBy_release _ address now id
    | start | retire | drop => exact hx.keep d ho rfl fun _ => by simp
    | collect ready writer outcome idle => exact hx.collect ready writer idle
    | acknowledge now under => exact hx.acknowledge now under
    | begin b idle found => exact hx.begin idle found
    | accept address under offered => exact hx.accept address ho under offered
    | finish after under => exact hx.finish after under
  | make rest new => exact hx.keep (.make rest new) ho rfl fun _ => Nat.le_refl _
  | rest idle found rests => exact hx.keep (.rest idle found rests) ho rfl fun _ => Nat.le_refl _
  | dismiss id => exact hx.keep (.dismiss id) ho rfl fun _ => by simp
  | spend budget => exact hx.keep (.spend budget) ho rfl fun _ => Nat.le_refl _

end Stage.Single
end CanTransport
