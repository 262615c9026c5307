import CanTransport.Proofs.Visits

/-! # Every outcome reaches the writer of its frame

The outbox is driven by itself: frames are written for anybody, outcomes are taken in, conversations
are let go of, endpoints come and go, and what is ready is delivered, in any order. Beside it a
register is kept in which no frame is ever struck out.
-/
namespace CanTransport

namespace Outbox
variable {ready waiting : Outbox}

def free (address : Address) (now : Micros) (e : OutboxEntry) : OutboxEntry :=
  if decide (e.address = address) && !e.isDetached then e.detach now else e

theorem release_append (hr : ∀ e ∈ ready, e.isResolved = true)
    (hw : ∀ e ∈ waiting, e.isResolved = false) (address : Address) (now : Micros) :
    (release (ready ++ waiting) address now).2 =
      ready.filter (fun e => decide (e.address ≠ address)) ++ waiting.map (free address now) := by
  have hready : ready.filter (fun e => !(decide (e.address = address) && e.isResolved)) =
      ready.filter fun e => decide (e.address ≠ address) :=
    List.filter_congr fun e he => by simp [hr e he]
  have hwaiting : waiting.filter (fun e => !(decide (e.address = address) && e.isResolved)) =
      waiting :=
    List.filter_eq_self.mpr fun e he => by simp [hw e he]
  have hkept : (ready.filter fun e => decide (e.address ≠ address)).map (free address now) =
      ready.filter fun e => decide (e.address ≠ address) := by
    refine (List.map_congr_left fun e he => if_neg ?_).trans (List.map_id _)
    have hother : e.address ≠ address := by simpa using (List.mem_filter.mp he).2
    simp [hother]
  rw [release]
  dsimp only
  rw [List.filter_append, hready, hwaiting, List.map_append]
  exact congrArg (· ++ _) hkept

end Outbox

namespace LoneStation
open CanTransport.Action CanTransport.Station
variable {δ : Type} {w : Device δ} {x : LoneStation δ}

theorem run_pollOutcome_eq (hfree : .outbox ∉ x.scene.held) : pollOutcome.run w.alone x =
    (w.outcome x.device).1.elim (false, (x.ask w.outcome).2) fun ack =>
      ((x.station.record ack).1,
        ((x.ask w.outcome).2.note (.reported ack)).access fun s => (s.record ack).2) := by
  have houtcome : outcome.run w.alone (x.lock .outbox) = ((w.outcome x.device).1,
      (w.outcome x.device).1.elim ((x.ask w.outcome).2.lock .outbox) fun ack =>
        ((x.ask w.outcome).2.note (.reported ack)).lock .outbox) := rfl
  unfold pollOutcome
  rw [Program.bind_eq, Program.run_bind, Device.alone, run_withLock w _ x _ hfree,
    Program.bind_eq, Program.run_bind]
  rw [← Device.alone, houtcome]
  cases (w.outcome x.device).1 with
  | none => exact congrArg (Prod.mk false) (unlock_lock _ _)
  | some ack =>
    exact congrArg (Prod.mk (x.station.record ack).1)
      (unlock_lock (((x.ask w.outcome).2.note (.reported ack)).access fun s => (s.record ack).2)
        .outbox)

theorem run_pollOutcome (hfree : x.scene.held = []) : (pollOutcome.run w.alone x).2 =
    (w.outcome x.device).1.elim (x.ask w.outcome).2 fun ack =>
      ((x.ask w.outcome).2.note (.reported ack)).access fun s => (s.record ack).2 := by
  rw [run_pollOutcome_eq (by simp [hfree])]
  cases (w.outcome x.device).1 <;> rfl

end LoneStation

/-- A frame accepted, under an identifier that may since have been let go of. -/
structure AcceptedFrame where
  writer : EndpointId
  address : Address
  released : Bool := false

namespace AcceptedFrame

def release (address : Address) (p : AcceptedFrame) : AcceptedFrame :=
  { p with released := p.released || decide (p.address = address) }

def entry (p : AcceptedFrame) : OutboxEntry where
  address := p.address
  writer := if p.released then none else some p.writer

end AcceptedFrame

inductive OutboxOperation
  | write (writer : EndpointId) (address : Address) (frame : Frame)
  | poll
  | deliver
  | release (address : Address)
  | drop (id : EndpointId)
  | adopt (r : Endpoint) (budget : Budget)

/-- What an operation has done to endpoints under their locks, and to the station. -/
structure Passage where
  before : Station
  visits : List Visit
  after : Station

/-- A delivery, with the register as it found it and how many outcomes had come by the one before.
-/
structure Round extends Passage where
  since : Nat
  accepted : List AcceptedFrame
  outcomes : List Ack
  count : Nat

/-- Each frame accepted with its outcome, of those that came since the delivery before; neither let
go of, nor of an endpoint that is gone. -/
def Round.due (r : Round) : List (AcceptedFrame × Ack) :=
  ((r.accepted.zip r.outcomes).drop r.since).filter fun (p, _) =>
    !p.released && (r.before.endpoint? p.writer).isSome

/-- The writers that are to be told, with what. -/
def Round.calls (r : Round) : List (EndpointId × Ack) := r.due.map fun (p, ack) => (p.writer, ack)

/-- In a delivery the writers that are to be told have been told, each in one visit and in their
order, and nothing has been done to any other endpoint. -/
structure Round.Tells (r : Round) : Prop where
  told : ∃ s, Told r.before r.calls r.visits s ∧ r.after = { s with outbox := r.after.outbox }
  count : r.count = r.calls.length

structure Passage.Silent (p : Passage) : Prop where
  visits : p.visits = []
  after : p.after = { p.before with outbox := p.after.outbox }

/-- Operations at a station that has its surroundings to itself, with a register of all frames
accepted. -/
structure Session (δ : Type) where
  lone : LoneStation δ
  accepted : List AcceptedFrame := []
  rounds : List Round := []
  /-- What has been written, polled or let go of. -/
  others : List Passage := []

namespace Session
open LoneStation
variable {α δ : Type} {w : Device δ} {x : Session δ} {ready waiting : Outbox}

def events (x : Session δ) : List Event := x.lone.scene.events

def outcomes (x : Session δ) : List Ack := outcomesIn x.events

/-- How many outcomes the last delivery has seen. -/
def served (x : Session δ) : Nat := (x.rounds.map (·.outcomes.length)).getLastD 0

def passage (w : Device δ) (p : Action α) (x : LoneStation δ) : Passage where
  before := x.station
  visits := p.visits w x
  after := (p.run w.alone x).2.station

def delivery (w : Device δ) (x : Session δ) : Round where
  toPassage := passage w Station.deliver x.lone
  since := x.served
  accepted := x.accepted
  outcomes := x.outcomes
  count := (Station.deliver.run w.alone x.lone).1

def step (w : Device δ) (x : Session δ) : OutboxOperation → Session δ
  | .write writer address frame =>
    let send := Station.send writer address frame
    { x with
      lone := (send.run w.alone x.lone).2
      accepted :=
        if (send.run w.alone x.lone).1 then x.accepted ++ [⟨writer, address, false⟩] else x.accepted
      others := x.others ++ [passage w send x.lone] }
  | .poll =>
    { x with
      lone := (Station.pollOutcome.run w.alone x.lone).2
      others := x.others ++ [passage w Station.pollOutcome x.lone] }
  | .deliver =>
    { x with
      lone := (Station.deliver.run w.alone x.lone).2
      rounds := x.rounds ++ [x.delivery w] }
  | .release address =>
    { x with
      lone := ((Station.forget address).run w.alone x.lone).2
      accepted := x.accepted.map (·.release address)
      others := x.others ++ [passage w (Station.forget address) x.lone] }
  | .drop id => { x with lone := x.lone.access (·.drop id) }
  | .adopt r budget => { x with lone := x.lone.access fun s => (s.adopt r budget).2 }

def run (w : Device δ) (x : Session δ) (operations : List OutboxOperation) : Session δ :=
  operations.foldl (step w) x

def register (x : Session δ) : List (AcceptedFrame × Ack) := x.accepted.zip x.outcomes

/-- Every outcome has gone to the writer of its frame and to nobody else, once, in the order of the
frames, at the first delivery after it came, unless the frame had been let go of or its writer was
gone. -/
structure Correlated (x : Session δ) : Prop where
  writers : x.accepted.map (·.writer) = (writesIn x.events).map (·.1)
  since : x.rounds.map (·.since) = (0 :: x.rounds.map (·.outcomes.length)).dropLast
  tells : ∀ r ∈ x.rounds, r.Tells
  silent : ∀ p ∈ x.others, p.Silent
  once : (x.rounds.flatMap Round.calls).Sublist
    (((writesIn x.events).map (·.1)).zip (outcomesIn x.events))

/-- How the outbox stands to the register: ready entries have their outcome and are, but for those
let go of, the entries since the last delivery; the others wait for theirs. -/
structure Stands (x : Session δ) (ready waiting : Outbox) : Prop where
  free : x.lone.scene.held = []
  outbox : x.lone.station.outbox = ready ++ waiting
  resolved : ∀ e ∈ ready, e.isResolved = true
  live : ready.filter (!·.isDetached) =
    ((x.register.drop x.served).filter (!·.1.released)).map fun (p, ack) =>
      { p.entry with outcome := some ack }
  waits : waiting.map (fun e => ({ e with detachedAt := none }, e.isDetached)) =
    (x.accepted.drop x.outcomes.length).map fun p => (p.entry, p.released)
  writers : x.accepted.map (·.writer) = (writesIn x.events).map (·.1)
  paired : x.outcomes.length ≤ x.accepted.length
  served_le : x.served ≤ x.outcomes.length
  since : x.rounds.map (·.since) = (0 :: x.rounds.map (·.outcomes.length)).dropLast
  tells : ∀ r ∈ x.rounds, r.Tells
  silent : ∀ p ∈ x.others, p.Silent
  once : (x.rounds.flatMap Round.calls).Sublist
    ((x.register.take x.served).map fun (p, ack) => (p.writer, ack))

theorem Stands.unresolved (h : x.Stands ready waiting) : ∀ e ∈ waiting, e.isResolved = false := by
  intro e he
  obtain ⟨p, -, hp⟩ := List.mem_map.mp (h.waits ▸ List.mem_map_of_mem he)
  have houtcome : e.outcome = p.entry.outcome := congrArg (·.1.outcome) hp.symm
  rw [OutboxEntry.isResolved, houtcome]
  rfl

theorem callOf_entry {p : AcceptedFrame} (hr : p.released = false) (s : Station) (ack : Ack) :
    callOf s { p.entry with outcome := some ack } = if (s.endpoint? p.writer).isSome then some
      (p.writer, ack) else none := by
  have hwriter : p.entry.writer = some p.writer := by simp [AcceptedFrame.entry, hr]
  rw [callOf, hwriter, Option.filter_some]
  cases (s.endpoint? p.writer).isSome <;> rfl

theorem filterMap_callOf (s : Station) (l : List (AcceptedFrame × Ack)) :
    ((l.filter (!·.1.released)).map fun (p, ack) =>
      ({ p.entry with outcome := some ack } : OutboxEntry)).filterMap (callOf s) =
      (l.filter fun (p, _) => !p.released && (s.endpoint? p.writer).isSome).map fun (p, ack) =>
        (p.writer, ack) := by
  induction l with
  | nil => rfl
  | cons t l ih =>
    obtain ⟨p, ack⟩ := t
    cases hr : p.released with
    | true =>
      rw [List.filter_cons_of_neg (by simp [hr]), List.filter_cons_of_neg (by simp [hr])]
      exact ih
    | false =>
      rw [List.filter_cons_of_pos (by simp [hr]), List.map_cons, List.filterMap_cons,
        callOf_entry hr, ih]
      cases ha : (s.endpoint? p.writer).isSome with
      | true => rw [List.filter_cons_of_pos (by simp [hr, ha]), List.map_cons, if_pos rfl]
      | false => rw [List.filter_cons_of_neg (by simp [ha]), if_neg (by decide)]

theorem served_deliver : (x.step w .deliver).served = x.outcomes.length := by
  simp [served, step, delivery]

theorem deliver_delivers (h : x.Stands ready waiting)
    (hl : (Station.deliver.run w.alone x.lone).2.scene.lapsed = false) :
    (Station.deliver.run w.alone x.lone).1 =
      ((ready.filter (!·.isDetached)).filterMap (callOf x.lone.station)).length ∧
      x.lone.Delivers ((ready.filter (!·.isDetached)).filterMap (callOf x.lone.station))
        (Station.deliver.visits w x.lone) waiting (Station.deliver.run w.alone x.lone).2 := by
  have hget : Action.get.run w.alone x.lone = (x.lone.station, x.lone) := run_get w _ x.lone
  have hlook : Action.get.visits w x.lone = [] := visits_get h.free
  rw [Station.deliver, Program.bind_eq, Program.run_bind, hget] at hl ⊢
  rw [visits_bind, hlook, hget]
  refine deliverUpTo_delivers h.free h.outbox h.resolved h.unresolved ?_ hl
  have hle : (ready.filter (!·.isDetached)).length ≤ ready.length := List.length_filter_le _ _
  rw [h.outbox, List.length_append]
  omega

theorem Stands.deliver (h : x.Stands ready waiting)
    (hl : (x.step w .deliver).lone.scene.lapsed = false) :
    (x.step w .deliver).Stands [] waiting := by
  obtain ⟨hcount, hdelivered⟩ := deliver_delivers h hl
  have hcalls : (ready.filter (!·.isDetached)).filterMap (callOf x.lone.station) =
      (x.delivery w).calls := by
    rw [h.live]
    exact filterMap_callOf _ _
  rw [hcalls] at hcount hdelivered
  have hevents : (x.step w .deliver).events = x.events := hdelivered.events
  have houtcomes : (x.step w .deliver).outcomes = x.outcomes := congrArg outcomesIn hevents
  have hregister : (x.step w .deliver).register = x.register := by rw [register, houtcomes]; rfl
  have hlength : x.register.length = x.outcomes.length := by
    rw [register, List.length_zip, Nat.min_eq_right h.paired]
  constructor
  case free => exact hdelivered.held.trans h.free
  case outbox => exact hdelivered.outbox
  case resolved => exact nofun
  case live =>
    rw [hregister, served_deliver, List.drop_eq_nil_of_le (Nat.le_of_eq hlength)]
    rfl
  case waits =>
    rw [houtcomes]
    exact h.waits
  case writers =>
    rw [hevents]
    exact h.writers
  case paired =>
    rw [houtcomes]
    exact h.paired
  case served_le => exact Nat.le_of_eq (served_deliver.trans (congrArg List.length houtcomes.symm))
  case since =>
    have hlast :=
      List.dropLast_concat_getLast (List.cons_ne_nil 0 (x.rounds.map (·.outcomes.length)))
    rw [List.getLast_eq_getLastD] at hlast
    simp only [step, List.map_append, List.map_cons, List.map_nil]
    rw [h.since, ← List.cons_append, List.dropLast_concat]
    exact hlast
  case tells =>
    intro r hr
    rcases List.mem_append.mp hr with hr | hr
    · exact h.tells r hr
    · rw [List.mem_singleton.mp hr]
      exact ⟨hdelivered.tells, hcount⟩
  case silent => exact h.silent
  case once =>
    have hnew : (x.delivery w).calls.Sublist
        ((x.register.drop x.served).map fun (p, ack) => (p.writer, ack)) :=
      List.filter_sublist.map _
    have hall : x.register.take x.outcomes.length = x.register.take x.served ++
        x.register.drop x.served := by
      rw [List.take_append_drop, List.take_of_length_le (Nat.le_of_eq hlength)]
    rw [hregister, served_deliver, hall, List.map_append]
    simpa [step] using h.once.append hnew

theorem zip_append_of_le {α β : Type} {l m : List α} {l' : List β} (h : l'.length ≤ l.length) :
    (l ++ m).zip l' = l.zip l' := by
  induction l generalizing l' with
  | nil =>
    rw [List.eq_nil_of_length_eq_zero (Nat.le_zero.mp h), List.zip_nil_right, List.zip_nil_right]
  | cons a l ih =>
    cases l' with
    | nil => rfl
    | cons b l' => exact congrArg ((a, b) :: ·) (ih (Nat.le_of_succ_le_succ h))

theorem zip_concat {α β : Type} {l : List α} {l' : List β} {a : α} (h : l[l'.length]? = some a)
    (b : β) :
    l.zip (l' ++ [b]) = l.zip l' ++ [(a, b)] := by
  induction l generalizing l' with
  | nil => simp at h
  | cons c l ih =>
    cases l' with
    | nil =>
      cases h
      rw [List.nil_append, List.zip_cons_cons, List.zip_nil_right, List.zip_nil_right]
      rfl
    | cons d l' => exact congrArg ((c, d) :: ·) (ih (by simpa using h))

theorem filter_live (address : Address) (l : List (AcceptedFrame × Ack)) :
    ((l.filter (!·.1.released)).map fun (p, ack) =>
      ({ p.entry with outcome := some ack } : OutboxEntry)).filter
        (fun e => decide (e.address ≠ address)) =
      ((l.map fun (p, ack) => (p.release address, ack)).filter (!·.1.released)).map fun (p, ack) =>
        { p.entry with outcome := some ack } := by
  induction l with
  | nil => rfl
  | cons t l ih =>
    obtain ⟨p, ack⟩ := t
    cases hr : p.released with
    | true =>
      rw [List.filter_cons_of_neg (by simp [hr]), ih, List.map_cons,
        List.filter_cons_of_neg (by simp [AcceptedFrame.release, hr])]
    | false =>
      rw [List.filter_cons_of_pos (by simp [hr]), List.map_cons, List.map_cons]
      by_cases ha : p.address = address
      · rw [List.filter_cons_of_neg (by simp [AcceptedFrame.entry, ha]), ih,
          List.filter_cons_of_neg (by simp [AcceptedFrame.release, ha])]
      · rw [List.filter_cons_of_pos (by simp [AcceptedFrame.entry, ha]), ih,
          List.filter_cons_of_pos (by simp [AcceptedFrame.release, ha, hr]), List.map_cons]
        simp [AcceptedFrame.release, AcceptedFrame.entry, ha, hr]

theorem filter_resolved {e : OutboxEntry} {p : AcceptedFrame}
    (h : ({ e with detachedAt := none }, e.isDetached) = (p.entry, p.released)) (ack : Ack) :
    [({ e with outcome := some ack } : OutboxEntry)].filter (!·.isDetached) =
      ([(p, ack)].filter (!·.1.released)).map fun (p, ack) =>
      ({ p.entry with outcome := some ack } : OutboxEntry) := by
  obtain ⟨hentry, hreleased⟩ := Prod.mk.inj h
  cases hr : p.released with
  | true =>
    have hgone : ({ e with outcome := some ack } : OutboxEntry).isDetached = true :=
      hreleased.trans hr
    rw [List.filter_cons_of_neg (by simp [hgone]), List.filter_cons_of_neg (by simp [hr])]
    rfl
  | false =>
    have hlive : ({ e with outcome := some ack } : OutboxEntry).isDetached = false :=
      hreleased.trans hr
    have hnever : e.detachedAt = none := by simpa [OutboxEntry.isDetached] using hlive
    rw [List.filter_cons_of_pos (by simp [hlive]), List.filter_cons_of_pos (by simp [hr]),
      List.map_cons]
    dsimp only
    rw [← hentry, hnever]
    rfl

def shed (address : Address) (t : OutboxEntry × Bool) : OutboxEntry × Bool :=
  if decide (t.1.address = address) && !t.2 then ({ t.1 with writer := none }, true) else t

theorem shed_free (address : Address) (now : Micros) (e : OutboxEntry) :
    ({ Outbox.free address now e with detachedAt := none },
        (Outbox.free address now e).isDetached) =
      shed address ({ e with detachedAt := none }, e.isDetached) := by
  unfold Outbox.free shed
  dsimp only
  split <;> rfl

theorem shed_release (address : Address) (p : AcceptedFrame) :
    ((p.release address).entry, (p.release address).released) =
      shed address (p.entry, p.released) := by
  unfold shed
  by_cases ha : p.address = address
  · cases hr : p.released <;> simp [AcceptedFrame.release, AcceptedFrame.entry, ha, hr]
  · cases hr : p.released <;> simp [AcceptedFrame.release, AcceptedFrame.entry, ha, hr]

section Steps
variable {x' : Session δ} {writer : EndpointId} {address : Address} {frame : Frame} {ack : Ack}

/-- A frame accepted waits for its outcome. -/
theorem Stands.accept (h : x.Stands ready waiting) (hf : x'.lone.scene.held = [])
    (ho : x'.lone.station.outbox = x.lone.station.outbox.push address writer)
    (he : x'.events = x.events ++ [.accepted writer frame])
    (hp : x'.accepted = x.accepted ++ [⟨writer, address, false⟩]) (hr : x'.rounds = x.rounds)
    (hs : ∀ p ∈ x'.others, p.Silent) :
    x'.Stands ready (waiting ++ [{ address, writer := some writer }]) := by
  have houtcomes : x'.outcomes = x.outcomes := by
    rw [outcomes, he, outcomesIn_append_of_none _ rfl, outcomes]
  have hregister : x'.register = x.register := by
    rw [register, hp, houtcomes, zip_append_of_le h.paired, register]
  have hserved : x'.served = x.served := by rw [served, hr, served]
  constructor
  case free => exact hf
  case outbox => rw [ho, h.outbox, Outbox.push, List.append_assoc]
  case resolved => exact h.resolved
  case live =>
    rw [hregister, hserved]
    exact h.live
  case waits =>
    rw [houtcomes, hp, List.drop_append_of_le_length h.paired, List.map_append,
      List.map_append, h.waits]
    rfl
  case writers =>
    rw [hp, he, writesIn_accepted, List.map_append, List.map_append, h.writers]
    rfl
  case paired =>
    rw [houtcomes, hp, List.length_append]
    exact Nat.le_add_right_of_le h.paired
  case served_le =>
    rw [houtcomes, hserved]
    exact h.served_le
  case since =>
    rw [hr]
    exact h.since
  case tells =>
    rw [hr]
    exact h.tells
  case silent => exact hs
  case once =>
    rw [hr, hregister, hserved]
    exact h.once

/-- An outcome makes the oldest entry that waits a ready one. -/
theorem Stands.resolve (h : x.Stands ready waiting) (hlt : x.outcomes.length < x.accepted.length)
    (hf : x'.lone.scene.held = [])
    (ho : x'.lone.station.outbox = (x.lone.station.outbox.record? ack).getD x.lone.station.outbox)
    (he : x'.events = x.events ++ [.reported ack]) (hp : x'.accepted = x.accepted)
    (hr : x'.rounds = x.rounds) (hs : ∀ p ∈ x'.others, p.Silent) :
    ∃ ready waiting, x'.Stands ready waiting := by
  have hframe : x.accepted[x.outcomes.length]? = some x.accepted[x.outcomes.length] :=
    List.getElem?_eq_getElem hlt
  have hdrop := List.drop_eq_getElem_cons hlt
  generalize x.accepted[x.outcomes.length] = p at hframe hdrop
  have hwaits := h.waits
  rw [hdrop] at hwaits
  obtain ⟨e, waiting, rfl, hentry, hwaits⟩ := List.map_eq_cons_iff.mp hwaits
  have hwaiting : e.isResolved = false := h.unresolved e List.mem_cons_self
  have houtcomes : x'.outcomes = x.outcomes ++ [ack] := by
    rw [outcomes, he, outcomesIn_append]
    rfl
  have hregister : x'.register = x.register ++ [(p, ack)] := by
    rw [register, hp, houtcomes, zip_concat hframe]
    rfl
  have hserved : x'.served = x.served := by rw [served, hr, served]
  have hle : x.served ≤ x.register.length := by
    rw [register, List.length_zip, Nat.min_eq_right h.paired]
    exact h.served_le
  refine ⟨ready ++ [{ e with outcome := some ack }], waiting, ?_⟩
  constructor
  case free => exact hf
  case outbox =>
    rw [ho, h.outbox, Outbox.record?_append h.resolved hwaiting,
      Option.getD_some, List.append_assoc]
    rfl
  case resolved =>
    intro e' he'
    rcases List.mem_append.mp he' with he' | he'
    · exact h.resolved e' he'
    · rw [List.mem_singleton.mp he']
      rfl
  case live =>
    rw [hregister, hserved, List.drop_append_of_le_length hle, List.filter_append,
      List.filter_append, List.map_append, h.live]
    exact congrArg _ (filter_resolved hentry ack)
  case waits =>
    rw [houtcomes, hp, List.length_append]
    exact hwaits
  case writers =>
    rw [hp, he, writesIn_append_of_none _ rfl]
    exact h.writers
  case paired =>
    rw [houtcomes, hp, List.length_append]
    exact hlt
  case served_le =>
    rw [houtcomes, hserved, List.length_append]
    exact Nat.le_add_right_of_le h.served_le
  case since =>
    rw [hr]
    exact h.since
  case tells =>
    rw [hr]
    exact h.tells
  case silent => exact hs
  case once =>
    rw [hr, hregister, hserved, List.take_append_of_le_length hle]
    exact h.once

/-- What is let go of stays in the register. -/
theorem Stands.letGo {now : Micros} (h : x.Stands ready waiting) (hf : x'.lone.scene.held = [])
    (ho : x'.lone.station.outbox = (x.lone.station.outbox.release address now).2)
    (he : x'.events = x.events) (hp : x'.accepted = x.accepted.map (·.release address))
    (hr : x'.rounds = x.rounds) (hs : ∀ p ∈ x'.others, p.Silent) :
    ∃ ready waiting, x'.Stands ready waiting := by
  have houtcomes : x'.outcomes = x.outcomes := by rw [outcomes, he, outcomes]
  have hregister : x'.register = x.register.map fun (p, ack) => (p.release address, ack) := by
    rw [register, hp, houtcomes, List.zip_map_left]
    rfl
  have hserved : x'.served = x.served := by rw [served, hr, served]
  have hwriter : (AcceptedFrame.writer ∘ AcceptedFrame.release address) = AcceptedFrame.writer :=
    rfl
  refine ⟨ready.filter (fun e => decide (e.address ≠ address)),
    waiting.map (Outbox.free address now), ?_⟩
  constructor
  case free => exact hf
  case outbox => rw [ho, h.outbox, Outbox.release_append h.resolved h.unresolved]
  case resolved => exact fun e he => h.resolved e (List.mem_filter.mp he).1
  case live =>
    rw [hregister, hserved, ← List.map_drop, ← filter_live, ← h.live,
      List.filter_filter, List.filter_filter]
    exact List.filter_congr fun e _ => Bool.and_comm _ _
  case waits =>
    calc (waiting.map (Outbox.free address now)).map
          (fun e => ({ e with detachedAt := none }, e.isDetached))
        = (waiting.map fun e => ({ e with detachedAt := none }, e.isDetached)).map
          (shed address) := by
          rw [List.map_map, List.map_map]
          exact List.map_congr_left fun e _ => shed_free address now e
      _ = ((x.accepted.drop x.outcomes.length).map fun p => (p.entry, p.released)).map
          (shed address) := by rw [h.waits]
      _ = (x'.accepted.drop x'.outcomes.length).map fun p => (p.entry, p.released) := by
          rw [houtcomes, hp, ← List.map_drop, List.map_map, List.map_map]
          exact List.map_congr_left fun p _ => (shed_release address p).symm
  case writers =>
    rw [hp, he, List.map_map]
    exact h.writers
  case paired =>
    rw [houtcomes, hp, List.length_map]
    exact h.paired
  case served_le =>
    rw [houtcomes, hserved]
    exact h.served_le
  case since =>
    rw [hr]
    exact h.since
  case tells =>
    rw [hr]
    exact h.tells
  case silent => exact hs
  case once =>
    rw [hr, hregister, hserved, ← List.map_take, List.map_map]
    exact h.once

end Steps

theorem Stands.silent_append (h : x.Stands ready waiting) {p : Action α}
    (hp : p.AsksOnly Query.Sparing) (ho : (p.run w.alone x.lone).2.station =
      { x.lone.station with outbox := (p.run w.alone x.lone).2.station.outbox }) :
    ∀ q ∈ x.others ++ [passage w p x.lone], q.Silent := by
  intro q hq
  rcases List.mem_append.mp hq with hq | hq
  · exact h.silent q hq
  · rw [List.mem_singleton.mp hq]
    exact ⟨visits_sparing hp (by simp [h.free]), ho⟩

theorem Stands.write (h : x.Stands ready waiting) (writer : EndpointId) (address : Address)
    (frame : Frame) :
    ∃ waiting, (x.step w (.write writer address frame)).Stands ready waiting := by
  have hrun := run_send (w := w) (x := x.lone) (by simp [h.free]) writer address frame
  have hsilent := h.silent_append (w := w) (send_sparing writer address frame) (by
    rw [hrun, offer]
    cases (w.write x.lone.device frame).1 <;> rfl)
  generalize hx : x.step w (.write writer address frame) = x'
  rw [step] at hx
  rw [hrun, offer] at hx
  cases haccepted : (w.write x.lone.device frame).1 with
  | false =>
    rw [haccepted] at hx
    subst hx
    exact ⟨waiting, { h with silent := hsilent }⟩
  | true =>
    rw [haccepted] at hx
    subst hx
    exact ⟨_, h.accept h.free rfl rfl rfl rfl hsilent⟩

theorem Stands.poll (h : x.Stands ready waiting) (ha : Attributable (x.step w .poll).events) :
    ∃ ready waiting, (x.step w .poll).Stands ready waiting := by
  have hrun := run_pollOutcome (w := w) h.free
  have hsilent := h.silent_append (w := w) pollOutcome_sparing (by
    rw [hrun]
    cases (w.outcome x.lone.device).1 with
    | none => rfl
    | some ack =>
      change (x.lone.station.record ack).2 =
        { x.lone.station with outbox := (x.lone.station.record ack).2.outbox }
      rw [Station.record_outbox])
  generalize hx : x.step w .poll = x' at ha ⊢
  rw [step, hrun] at hx
  cases hr : (w.outcome x.lone.device).1 with
  | none =>
    rw [hr] at hx
    subst hx
    exact ⟨ready, waiting, { h with silent := hsilent }⟩
  | some ack =>
    rw [hr] at hx
    subst hx
    have hlt : x.outcomes.length < x.accepted.length := by
      have haccepted : x.accepted.length = (writesIn x.events).length := by
        simpa using congrArg List.length h.writers
      rw [haccepted]
      exact ha x.events ack [] rfl
    exact h.resolve hlt h.free (congrArg Station.outbox (x.lone.station.record_outbox ack)) rfl rfl
      rfl hsilent

theorem Stands.release (h : x.Stands ready waiting) (address : Address) :
    ∃ ready waiting, (x.step w (.release address)).Stands ready waiting := by
  have hrun := run_forget (w := w) (x := x.lone) (by simp [h.free]) address
  have hsilent := h.silent_append (w := w) (forget_sparing address) (by rw [hrun]; rfl)
  generalize hx : x.step w (.release address) = x'
  rw [step, hrun] at hx
  subst hx
  exact h.letGo h.free rfl rfl rfl rfl hsilent

theorem Stands.drop (h : x.Stands ready waiting) (id : EndpointId) :
    (x.step w (.drop id)).Stands ready waiting := by
  have hbox : (x.lone.station.drop id).outbox = x.lone.station.outbox := by
    unfold Station.drop
    split <;> rfl
  exact { h with outbox := hbox.trans h.outbox }

theorem Stands.adopt (h : x.Stands ready waiting) (r : Endpoint) (budget : Budget) :
    (x.step w (.adopt r budget)).Stands ready waiting := { h with }

theorem Stands.step (h : x.Stands ready waiting) (operation : OutboxOperation)
    (ha : Attributable (x.step w operation).events)
    (hl : (x.step w operation).lone.scene.lapsed = false) : ∃ ready waiting,
    (x.step w operation).Stands ready waiting := by
  cases operation with
  | write writer address frame =>
    obtain ⟨waiting, h⟩ := h.write writer address frame
    exact ⟨ready, waiting, h⟩
  | poll => exact h.poll ha
  | deliver => exact ⟨[], waiting, h.deliver hl⟩
  | release address => exact h.release address
  | drop id => exact ⟨ready, waiting, h.drop id⟩
  | adopt r budget => exact ⟨ready, waiting, h.adopt r budget⟩

theorem Stands.correlated (h : x.Stands ready waiting) : x.Correlated where
  writers := h.writers
  since := h.since
  tells := h.tells
  silent := h.silent
  once := by
    have hpairs : x.register.map (fun (p, ack) => (p.writer, ack)) =
        ((writesIn x.events).map (·.1)).zip (outcomesIn x.events) := by
      rw [← h.writers, List.zip_map_left]
      rfl
    rw [← hpairs]
    exact h.once.trans ((List.take_sublist _ _).map _)

theorem precedes_step (operation : OutboxOperation) :
    x.lone.Precedes (x.step w operation).lone := by
  have hrun {α : Type} (p : Action α) : x.lone.Precedes (p.run w.alone x.lone).2 :=
    precedes_run (fun _ _ => .refl) p x.lone
  cases operation with
  | write writer address frame => exact hrun (Station.send writer address frame)
  | poll => exact hrun Station.pollOutcome
  | deliver => exact hrun Station.deliver
  | release address => exact hrun (Station.forget address)
  | drop id => exact hrun (Action.modify (·.drop id))
  | adopt r budget => exact hrun (Action.modify fun s => (s.adopt r budget).2)

theorem precedes_operations (operations : List OutboxOperation) :
    x.lone.Precedes (x.run w operations).lone := by
  induction operations generalizing x with
  | nil => exact .refl _
  | cons operation operations ih => exact (precedes_step operation).trans ih

theorem Stands.run (h : x.Stands ready waiting) (operations : List OutboxOperation)
    (ha : Attributable (x.run w operations).events)
    (hl : (x.run w operations).lone.scene.lapsed = false) : ∃ ready waiting,
    (x.run w operations).Stands ready waiting := by
  induction operations generalizing x ready waiting with
  | nil => exact ⟨ready, waiting, h⟩
  | cons operation operations ih =>
    have hrest : (x.step w operation).lone.Precedes (x.run w (operation :: operations)).lone :=
      precedes_operations operations
    obtain ⟨more, hmore⟩ := hrest.events
    have hall : Attributable (x.run w (operation :: operations)).lone.scene.events := ha
    rw [hmore] at hall
    have ha' : Attributable (x.step w operation).events := hall.of_append
    obtain ⟨ready, waiting, h⟩ := h.step operation ha' (hrest.lapsed hl)
    exact ih h ha hl

def start (s : Station) (device : δ) : Session δ :=
  { lone := { scene := { station := { s with outbox := [] } }, device } }

theorem stands_start (s : Station) (device : δ) : (start s device).Stands [] [] where
  free := rfl
  outbox := rfl
  resolved := nofun
  live := rfl
  waits := rfl
  writers := rfl
  paired := Nat.le_refl _
  served_le := Nat.le_refl _
  since := rfl
  tells := nofun
  silent := nofun
  once := .slnil

/-- Whatever is asked of an outbox, and whatever the clock shows: as long as the controller reports
an outcome only of a frame accepted before, one for each, and no entry is given up, every outcome
goes to the writer of its frame. -/
theorem outcomes_correlated (w : Device δ) (s : Station) (device : δ)
    (operations : List OutboxOperation)
    (ha : Attributable ((start s device).run w operations).events)
    (hl : ((start s device).run w operations).lone.scene.lapsed = false) :
    ((start s device).run w operations).Correlated := by
  obtain ⟨ready, waiting, h⟩ := (stands_start s device).run operations ha hl
  exact h.correlated

def scripted : Device (List Ack) where
  now d := (0, d)
  isActive d := (true, d)
  available d := (0, d)
  read d := (none, d)
  write d _ := (true, d)
  outcome d := (d.head?, d.tail)

def lateOutcome : List OutboxOperation :=
  let first : Address := .physical 0x10 0xF1
  let second : Address := .physical 0x11 0xF1
  let sender (address : Address) : Endpoint := .sender
    { address, kind := .diagnostics, message := [1], waitLimit := none, phase := .awaitSingleAck }
  [.adopt (sender first) ⟨900⟩, .adopt (sender second) ⟨800⟩,
    .write 0 first (Pdu.flowControl first .wait 0 .zero), .release first,
    .write 1 second (Pdu.flowControl second .wait 0 .zero), .poll, .deliver,
    .poll, .deliver, .drop 0]

def lateSession : Session (List Ack) :=
  (start { settings := { source := 0xF1 }, budget := ⟨1000⟩ } [.failure, .success]).run scripted
    lateOutcome

/-- Nobody is told of the failure, and the second sender of the success. -/
theorem outcomes_correlated_late :
    lateSession.rounds.map (fun r => (r.calls, r.visits.map (·.id))) =
        [([], []), ([(1, .success)], [1])] ∧
      lateSession.Correlated := by
  refine ⟨rfl, outcomes_correlated _ _ _ _ ?_ rfl⟩
  have hevents : lateSession.events =
      [.accepted 0 (Pdu.flowControl (.physical 0x10 0xF1) .wait 0 .zero),
      .accepted 1 (Pdu.flowControl (.physical 0x11 0xF1) .wait 0 .zero), .reported .failure,
        .reported .success] := rfl
  change Attributable lateSession.events
  rw [hevents]
  intro before ack after h
  rcases before with _ | ⟨e₁, _ | ⟨e₂, _ | ⟨e₃, _ | ⟨e₄, before⟩⟩⟩⟩ <;> simp at h
  · obtain ⟨rfl, rfl, -⟩ := h
    decide
  · obtain ⟨rfl, rfl, rfl, -⟩ := h
    decide

end Session
end CanTransport
