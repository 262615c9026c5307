import CanTransport.Proofs.Attribution
import CanTransport.Proofs.Questions
import CanTransport.Proofs.LoneStation

/-! # Who is told of an outcome

An endpoint is told of an outcome under its own lock. Whatever program is run, what it does to an
endpoint whose lock it has taken last can be seen as a visit. A delivery makes one visit for each
entry that has both its outcome and its writer, in the order of the entries, and does nothing else
but take entries out.
-/
namespace CanTransport

namespace Outbox
variable {ready waiting : Outbox} {e : OutboxEntry}

theorem pop?_waiting (h : ∀ e ∈ waiting, e.isResolved = false) : pop? waiting = none := by
  induction waiting with
  | nil => rfl
  | cons e waiting ih =>
    rw [pop?, ih fun e' he' => h e' (List.mem_cons_of_mem _ he'), h e List.mem_cons_self]
    cases e.isDetached <;> rfl

theorem unresolvedCount_ready (h : ∀ e ∈ ready, e.isResolved = true) : unresolvedCount ready = 0 :=
  List.countP_eq_zero.mpr fun e he => by simp [h e he]

theorem unresolvedCount_waiting (h : ∀ e ∈ waiting, e.isResolved = false) :
    unresolvedCount waiting = waiting.length :=
  List.countP_eq_length.mpr fun e he => by simp [h e he]

theorem dropSpent_ready (h : ∀ e ∈ ready, e.isResolved = true) (now : Micros) :
    dropSpent ready now = ready.filter (!·.isDetached) := by
  apply List.filter_congr
  intro e he
  rw [OutboxEntry.isSpent, OutboxEntry.isDetached]
  cases hd : e.detachedAt <;> simp [h e he]

theorem dropSpent_append (hr : ∀ e ∈ ready, e.isResolved = true)
    (hw : ∀ e ∈ waiting, e.isResolved = false) {now : Micros}
    (hg : givesUp (ready ++ waiting) (next (ready ++ waiting) now).2 = false) :
    dropSpent (ready ++ waiting) now = ready.filter (!·.isDetached) ++ waiting := by
  have hsplit : dropSpent (ready ++ waiting) now = dropSpent ready now ++ dropSpent waiting now :=
    List.filter_append ..
  have hkept := Keeps.unresolvedCount_of_sublist (next_sublist (ready ++ waiting) now) hg
  have hle : unresolvedCount (next (ready ++ waiting) now).2 ≤
      unresolvedCount (dropSpent (ready ++ waiting) now) :=
    (next_sublist_dropSpent _ now).countP_le
  have hsub : (dropSpent waiting now).Sublist waiting := List.filter_sublist
  have hready : unresolvedCount (dropSpent ready now) = 0 :=
    unresolvedCount_ready fun e he => hr e (List.mem_filter.mp he).1
  have hwaiting : unresolvedCount (dropSpent waiting now) ≤ (dropSpent waiting now).length :=
    List.countP_le_length
  have hall : unresolvedCount (ready ++ waiting) = waiting.length := by
    rw [unresolvedCount, List.countP_append]
    rw [← unresolvedCount, ← unresolvedCount, unresolvedCount_ready hr, unresolvedCount_waiting hw,
      Nat.zero_add]
  have hsum : unresolvedCount (dropSpent (ready ++ waiting) now) =
      unresolvedCount (dropSpent ready now) + unresolvedCount (dropSpent waiting now) := by
    rw [hsplit]
    exact List.countP_append
  rw [hsplit, dropSpent_ready hr, hsub.eq_of_length_le (by omega)]

/-- Where nothing is given up, what is delivered next is the oldest entry that has both its outcome
and its writer. -/
theorem next_append (hr : ∀ e ∈ ready, e.isResolved = true)
    (hw : ∀ e ∈ waiting, e.isResolved = false) {now : Micros}
    (hg : givesUp (ready ++ waiting) (next (ready ++ waiting) now).2 = false) :
    next (ready ++ waiting) now = match ready.filter (!·.isDetached) with
      | [] => (none, waiting)
      | e :: rest => (some e, rest ++ waiting) := by
  rw [next, dropSpent_append hr hw hg]
  cases hl : ready.filter (!·.isDetached) with
  | nil => simp [pop?_waiting hw]
  | cons e rest =>
    have he : e ∈ ready.filter (!·.isDetached) := hl ▸ List.mem_cons_self
    obtain ⟨hmem, hlive⟩ := List.mem_filter.mp he
    have hlive : e.isDetached = false := by simpa using hlive
    rw [List.cons_append, pop?, hlive, hr e hmem]
    rfl

theorem record?_append (hr : ∀ e ∈ ready, e.isResolved = true) (he : e.isResolved = false)
    (ack : Ack) :
    record? ack (ready ++ e :: waiting) =
      some (ready ++ { e with outcome := some ack } :: waiting) := by
  induction ready with
  | nil => rw [List.nil_append, record?, he]; rfl
  | cons e' ready ih =>
    rw [List.cons_append, record?, hr e' List.mem_cons_self, if_pos rfl, ih fun e he =>
      hr e (List.mem_cons_of_mem _ he)]
    rfl

end Outbox

/-- What is done to an endpoint in one access under its lock. -/
structure Visit where
  id : EndpointId
  before : Option Endpoint
  after : Option Endpoint

/-- What a question does to the endpoint whose lock was taken last. -/
def LoneStation.visit {δ : Type} (x : LoneStation δ) : Query → List Visit
  | .access change => match x.scene.held with
    | .endpoint id :: _ => [⟨id, x.station.endpoint? id, (change x.station).endpoint? id⟩]
    | _ => []
  | _ => []

/-- What a run does to endpoints under their locks. -/
def Program.visits {δ α : Type} (w : Device δ) : Action α → LoneStation δ → List Visit
  | .done _, _ => []
  | .ask q next, x => x.visit q ++ (next (w.alone q x).1).visits w (w.alone q x).2

/-- From the first station to the second these endpoints have been told these outcomes, each in one
visit, and nothing else has been done. -/
inductive Told : Station → List (EndpointId × Ack) → List Visit → Station → Prop
  | nobody (s : Station) : Told s [] [] s
  | next {s s' : Station} {id : EndpointId} {r : Endpoint} {clock : Micros} {ack : Ack}
      {calls : List (EndpointId × Ack)} {visits : List Visit} (found : s.endpoint? id = some r)
      (others : Told (s.modifyEndpoint id (·.onAck clock ack)) calls visits s') :
    Told s ((id, ack) :: calls) (⟨id, some r, some (r.onAck clock ack)⟩ :: visits) s'

namespace Told
variable {s s₁ s₂ : Station} {calls calls' : List (EndpointId × Ack)} {visits visits' : List Visit}

theorem trans (h : Told s calls visits s₁) (h' : Told s₁ calls' visits' s₂) :
    Told s (calls ++ calls') (visits ++ visits') s₂ := by
  induction h with
  | nobody => exact h'
  | next found _ ih => exact .next found (ih h')

theorem withOutbox (h : Told s calls visits s₁) (o : Outbox) :
    Told { s with outbox := o } calls visits { s₁ with outbox := o } := by
  induction h with
  | nobody => exact .nobody _
  | next found _ ih => exact .next found ih

theorem alive (h : Told s calls visits s₁) (id : EndpointId) :
    (s₁.endpoint? id).isSome = (s.endpoint? id).isSome := by
  induction h with
  | nobody => rfl
  | next _ _ ih => rw [ih, Station.endpoint?_modifyEndpoint, Option.isSome_map]

end Told

def Query.Sparing (q : Query) : Prop := ∀ id, q ≠ .acquire (.endpoint id)

namespace LoneStation
open CanTransport.Action CanTransport.Station
variable {α β δ : Type} {w : Device δ} {x y z : LoneStation δ}

theorem visits_bind (p : Action α) (f : α → Action β) (x : LoneStation δ) :
    (p.bind f).visits w x = p.visits w x ++ (f (p.run w.alone x).1).visits w
      (p.run w.alone x).2 := by
  induction p generalizing x with
  | done a => rfl
  | ask q next ih => simp only [Program.bind, Program.visits, Program.run, ih, List.append_assoc]

theorem visits_withLock {lock : Lock} (body : Action α) (h : lock ∉ x.scene.held) :
    (withLock lock body).visits w x = body.visits w (x.lock lock) := by
  have hacquire : (acquire lock).run w.alone x = (true, x.lock lock) := by
    change (if lock ∈ x.scene.held then (false, x.miss lock) else (true, x.lock lock)) = _
    rw [if_neg h]
  unfold withLock
  rw [Program.bind_eq, visits_bind, hacquire]
  dsimp only
  rw [if_pos rfl, Program.bind_eq, visits_bind]
  exact List.append_nil _

theorem visits_get (h : x.scene.held = []) : get.visits w x = [] := by
  change x.visit (.access id) ++ [] = []
  rw [List.append_nil, visit, h]

theorem visit_eq_nil (hx : ∀ id, .endpoint id ∉ x.scene.held) (q : Query) : x.visit q = [] := by
  unfold visit
  split
  · split
    · next id _ hheld => exact absurd (hheld ▸ List.mem_cons_self) (hx id)
    · rfl
  · rfl

theorem spared_answer {q : Query} (hq : q.Sparing) (hx : ∀ id, .endpoint id ∉ x.scene.held)
    (id : EndpointId) :
    .endpoint id ∉ (w.alone q x).2.scene.held := by
  cases q with
  | acquire lock =>
    change _ ∉ (if lock ∈ x.scene.held then (false, x.miss lock) else
      (true, x.lock lock)).2.scene.held
    split
    · dsimp only [miss]
      split <;> exact hx id
    · intro hmem
      rcases List.mem_cons.mp hmem with rfl | hmem
      · exact hq id rfl
      · exact hx id hmem
  | release lock => exact fun hmem => hx id (List.mem_of_mem_erase hmem)
  | access | now | isActive | available | read | notify => exact hx id
  | write writer frame =>
    change _ ∉ (if (w.write x.device frame).1 then (x.ask (w.write · frame)).2.note
      (.accepted writer frame)
      else (x.ask (w.write · frame)).2).scene.held
    split <;> exact hx id
  | outcome =>
    change _ ∉ ((w.outcome x.device).1.elim (x.ask w.outcome).2 fun ack =>
      (x.ask w.outcome).2.note (.reported ack)).scene.held
    cases (w.outcome x.device).1 <;> exact hx id

theorem visits_sparing {p : Action α} (hp : p.AsksOnly Query.Sparing)
    (hx : ∀ id, .endpoint id ∉ x.scene.held) :
    p.visits w x = [] := by
  induction p generalizing x with
  | done a => rfl
  | ask q next ih =>
    rw [Program.visits, visit_eq_nil hx, ih _ (hp.2 _) (spared_answer hp.1 hx)]
    rfl

theorem sparing_withLock {lock : Lock} {body : Action α} (hl : ∀ id, lock ≠ .endpoint id)
    (hb : body.AsksOnly Query.Sparing) : (withLock lock body).AsksOnly Query.Sparing := by
  refine ⟨fun id heq => hl id (by cases heq; rfl), fun had => ?_⟩
  cases had with
  | false => exact asks_done _
  | true =>
    change Program.AsksOnly _ (body.bind fun a => (release lock).bind fun _ =>
      .done (Except.ok a : Except LockTimeout α))
    exact asks_bind hb fun a => asks_one nofun

theorem send_sparing (writer : EndpointId) (address : Address) (frame : Frame) :
    (send writer address frame).AsksOnly Query.Sparing := by
  refine asks_bind (sparing_withLock nofun ⟨nofun, fun accepted => ?_⟩) fun _ => asks_done _
  cases accepted with
  | false => exact asks_done _
  | true => exact asks_one nofun

theorem pollOutcome_sparing : pollOutcome.AsksOnly Query.Sparing := by
  refine asks_bind (sparing_withLock nofun ⟨nofun, fun ack => ?_⟩) fun _ => asks_done _
  cases ack with
  | none => exact asks_done _
  | some ack => exact asks_one nofun

theorem forget_sparing (address : Address) : (forget address).AsksOnly Query.Sparing :=
  sparing_withLock nofun (asks_bind (asks_one nofun) fun _ => asks_one nofun)

/-- From one to the other these endpoints have been told these outcomes; only the outbox is a
different one. -/
structure Delivers (x : LoneStation δ) (calls : List (EndpointId × Ack)) (visits : List Visit)
    (left : Outbox) (y : LoneStation δ) : Prop where
  told : ∃ s, Told x.station calls visits s ∧ y.station = { s with outbox := left }
  held : y.scene.held = x.scene.held
  events : y.scene.events = x.scene.events

theorem Delivers.trans {calls calls' : List (EndpointId × Ack)} {visits visits' : List Visit}
    {left left' : Outbox} (h : x.Delivers calls visits left y)
    (h' : y.Delivers calls' visits' left' z) :
    x.Delivers (calls ++ calls') (visits ++ visits') left' z := by
  obtain ⟨s, hs, hy⟩ := h.told
  obtain ⟨s', hs', hz⟩ := h'.told
  rw [hy] at hs'
  exact ⟨⟨_, hs.trans (hs'.withOutbox s.outbox), hz⟩, h'.held.trans h.held,
    h'.events.trans h.events⟩

theorem Delivers.alive {calls : List (EndpointId × Ack)} {visits : List Visit} {left : Outbox}
    (h : x.Delivers calls visits left y) (id : EndpointId) :
    (y.station.endpoint? id).isSome = (x.station.endpoint? id).isSome := by
  obtain ⟨s, hs, hy⟩ := h.told
  rw [hy]
  exact hs.alive id

theorem Delivers.outbox {calls : List (EndpointId × Ack)} {visits : List Visit} {left : Outbox}
    (h : x.Delivers calls visits left y) : y.station.outbox = left := by
  obtain ⟨s, -, hy⟩ := h.told
  rw [hy]

theorem Delivers.tells {calls : List (EndpointId × Ack)} {visits : List Visit} {left : Outbox}
    (h : x.Delivers calls visits left y) :
    ∃ s, Told x.station calls visits s ∧ y.station = { s with outbox := y.station.outbox } := by
  obtain ⟨s, hs, hy⟩ := h.told
  exact ⟨s, hs, h.outbox ▸ hy⟩

def callOf (s : Station) (e : OutboxEntry) : Option (EndpointId × Ack) :=
  match e.writer.filter fun id => (s.endpoint? id).isSome, e.outcome with
  | some id, some ack => some (id, ack)
  | _, _ => none

theorem callOf_congr {s s' : Station}
    (h : ∀ id, (s'.endpoint? id).isSome = (s.endpoint? id).isSome) :
    callOf s' = callOf s := by
  funext e
  simp only [callOf, h]

theorem run_ackEndpoint (hfree : x.scene.held = []) (id : EndpointId) (ack : Ack) :
    (ackEndpoint id ack).run w.alone x =
      ((), (x.ask w.now).2.access (·.modifyEndpoint id (·.onAck (w.now x.device).1 ack))) := by
  have h := run_withLock_clock w (fun _ _ x => x) x (.endpoint id)
    (fun clock s => ((), s.modifyEndpoint id (·.onAck clock ack))) (by simp [hfree])
  unfold ackEndpoint
  rw [Program.bind_eq, Program.run_bind]
  exact congrArg (fun r => ((), r.2)) h

theorem visits_ackEndpoint (hfree : x.scene.held = []) {id : EndpointId} {r : Endpoint}
    (found : x.station.endpoint? id = some r) (ack : Ack) :
    (ackEndpoint id ack).visits w x = [⟨id, some r, some (r.onAck (w.now x.device).1 ack)⟩] := by
  have hvisit :
      (withLock (.endpoint id)
        (now.bind fun clock => modify (·.modifyEndpoint id (·.onAck clock ack)))).visits w x =
      [⟨id, x.station.endpoint? id,
        (x.station.modifyEndpoint id (·.onAck (w.now x.device).1 ack)).endpoint? id⟩] :=
    visits_withLock _ (by simp [hfree])
  unfold ackEndpoint
  rw [Program.bind_eq, visits_bind, Program.bind_eq, hvisit, endpoint?_modifyEndpoint, found]
  simp [Program.visits]

/-- An entry whose writer is there is delivered to it, and another to nobody. -/
theorem deliverEntry_delivers (w : Device δ) (hfree : x.scene.held = []) (e : OutboxEntry) :
    ((deliverEntry e).run w.alone x).1 = (callOf x.station e).isSome ∧
      ((deliverEntry e).run w.alone x).2.scene.lapsed = x.scene.lapsed ∧
        x.Delivers (callOf x.station e).toList ((deliverEntry e).visits w x) x.station.outbox
          ((deliverEntry e).run w.alone x).2 := by
  have hget : get.run w.alone x = (x.station, x) := run_get w _ x
  rw [deliverEntry, Program.bind_eq, Program.run_bind, hget, visits_bind, visits_get hfree, hget,
    callOf]
  dsimp only
  cases hw : e.writer.filter fun id => (x.station.endpoint? id).isSome with
  | none => exact ⟨rfl, rfl, ⟨_, .nobody _, rfl⟩, rfl, rfl⟩
  | some id =>
    cases e.outcome with
    | none => exact ⟨rfl, rfl, ⟨_, .nobody _, rfl⟩, rfl, rfl⟩
    | some ack =>
      obtain ⟨r, found⟩ := Option.isSome_iff_exists.mp (Option.filter_eq_some_iff.mp hw).2
      dsimp only
      rw [Program.bind_eq, Program.run_bind, run_ackEndpoint hfree, visits_bind,
        visits_ackEndpoint hfree found]
      refine ⟨rfl, ?_, ⟨_, .next found (.nobody _), rfl⟩, rfl, rfl⟩
      change (x.scene.lapsed || Outbox.givesUp x.station.outbox x.station.outbox) = _
      simp [Outbox.givesUp]

/-- Where nothing is given up, the oldest entry that has its outcome and its writer is delivered
next, and those that have none are dropped. -/
theorem deliverNext_delivers {ready waiting live : Outbox} (hfree : x.scene.held = [])
    (ho : x.station.outbox = ready ++ waiting) (hr : ∀ e ∈ ready, e.isResolved = true)
    (hw : ∀ e ∈ waiting, e.isResolved = false) (hlive : ready.filter (!·.isDetached) = live)
    (hl : (deliverNext.run w.alone x).2.scene.lapsed = false) :
    (deliverNext.run w.alone x).1 = live.head?.map (fun e => (callOf x.station e).isSome) ∧
      x.Delivers (live.head?.bind (callOf x.station)).toList (deliverNext.visits w x)
        (live.tail ++ waiting) (deliverNext.run w.alone x).2 := by
  generalize ht : (w.now x.device).1 = clock
  generalize hy : (x.ask w.now).2.access (fun s => (s.nextDelivery clock).2) = y
  have htake : (withLock .outbox do
      let clock ← now
      modifyGet (·.nextDelivery clock)).run w.alone x =
      (.ok (x.station.outbox.next clock).1, y) := by
    rw [← hy, ← ht]
    exact run_withLock_clock w _ x .outbox (fun clock s => s.nextDelivery clock) (by simp [hfree])
  have hsilent : (withLock .outbox do
      let clock ← now
      modifyGet (·.nextDelivery clock)).visits w x = [] :=
    visits_sparing (sparing_withLock nofun (asks_bind (asks_one nofun) fun _ => asks_one nofun))
      (by simp [hfree])
  rw [deliverNext, Program.bind_eq, Program.run_bind, htake] at hl ⊢
  rw [visits_bind, hsilent, htake]
  dsimp only [Except.toOption, Option.join_some] at hl ⊢
  have hgiven : Outbox.givesUp (ready ++ waiting) (Outbox.next (ready ++ waiting) clock).2 =
      false := by
    have hlapsed : y.scene.lapsed = false := (precedes_run (fun _ _ => .refl) _ y).lapsed hl
    rw [← ho]
    rw [← hy] at hlapsed
    exact (Bool.or_eq_false_iff.mp hlapsed).2
  have hnext := Outbox.next_append hr hw hgiven
  rw [hlive] at hnext
  have htaken : x.Delivers [] [] (Outbox.next (ready ++ waiting) clock).2 y := by
    rw [← hy, ← ho]
    exact ⟨⟨_, .nobody _, rfl⟩, rfl, rfl⟩
  rw [hnext] at htaken
  rw [ho, hnext] at hl ⊢
  cases live with
  | nil => exact ⟨rfl, htaken⟩
  | cons e rest =>
    obtain ⟨hcall, -, hcalled⟩ := deliverEntry_delivers w (htaken.held.trans hfree) e
    rw [callOf_congr htaken.alive, htaken.outbox] at hcalled
    rw [callOf_congr htaken.alive] at hcall
    dsimp only
    rw [Program.bind_eq, Program.run_bind, visits_bind]
    refine ⟨congrArg some hcall, ?_⟩
    simpa [Program.visits] using htaken.trans hcalled

/-- A delivery goes through all entries that have their outcome and their writer. -/
theorem deliverUpTo_delivers {fuel : Nat} {ready waiting : Outbox} (hfree : x.scene.held = [])
    (ho : x.station.outbox = ready ++ waiting) (hr : ∀ e ∈ ready, e.isResolved = true)
    (hw : ∀ e ∈ waiting, e.isResolved = false)
    (hfuel : (ready.filter (!·.isDetached)).length < fuel)
    (hl : ((deliverUpTo fuel).run w.alone x).2.scene.lapsed = false) :
    ((deliverUpTo fuel).run w.alone x).1 =
      ((ready.filter (!·.isDetached)).filterMap (callOf x.station)).length ∧
      x.Delivers ((ready.filter (!·.isDetached)).filterMap (callOf x.station))
        ((deliverUpTo fuel).visits w x) waiting ((deliverUpTo fuel).run w.alone x).2 := by
  -- on the fuel: each turn takes the first live entry off those ready, and those waiting stay
  induction fuel generalizing x ready with
  | zero => omega
  | succ fuel ih =>
    rw [deliverUpTo, Program.bind_eq, Program.run_bind] at hl ⊢
    rw [visits_bind]
    have hlapsed : (deliverNext.run w.alone x).2.scene.lapsed = false :=
      (precedes_run (fun _ _ => .refl) _ (deliverNext.run w.alone x).2).lapsed hl
    obtain ⟨hturn, hdelivered⟩ := deliverNext_delivers hfree ho hr hw rfl hlapsed
    cases hlive : ready.filter (!·.isDetached) with
    | nil =>
      rw [hlive] at hturn hdelivered
      rw [hturn]
      exact ⟨rfl, by simpa [Program.visits] using hdelivered⟩
    | cons e rest =>
      rw [hlive] at hturn hdelivered hfuel
      rw [hturn] at hl ⊢
      have hmem : ∀ e' ∈ rest, e' ∈ ready ∧ e'.isDetached = false := fun e' he' => by
        obtain ⟨hm, hlive'⟩ := List.mem_filter.mp (hlive ▸ List.mem_cons_of_mem e he')
        exact ⟨hm, by simpa using hlive'⟩
      have hrest : rest.filter (!·.isDetached) = rest :=
        List.filter_eq_self.mpr fun e' he' => by simpa using (hmem e' he').2
      have hfuel' : (rest.filter (!·.isDetached)).length < fuel := by
        rw [hrest]
        exact Nat.lt_of_succ_lt_succ hfuel
      dsimp only [List.head?_cons, Option.map_some, List.tail_cons,
        Option.bind_some] at hdelivered hl ⊢
      rw [Program.bind_eq, Program.run_bind] at hl ⊢
      obtain ⟨hcount, hothers⟩ := ih (hdelivered.held.trans hfree) hdelivered.outbox
        (fun e' he' => hr e' (hmem e' he').1) hfuel' hl
      rw [hrest, callOf_congr hdelivered.alive] at hcount hothers
      rw [visits_bind]
      have hall := hdelivered.trans hothers
      rw [Program.pure_eq, Program.run_done, hcount, List.filterMap_cons]
      cases hc : callOf x.station e with
      | none => exact ⟨rfl, by simpa [Program.visits, hc] using hall⟩
      | some call => exact ⟨rfl, by simpa [Program.visits, hc] using hall⟩

end LoneStation
end CanTransport
