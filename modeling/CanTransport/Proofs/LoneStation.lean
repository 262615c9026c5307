import CanTransport.Proofs.Chronicle

/-! # A station that has its surroundings to itself

Nobody else holds a lock or changes the station, and what the station meets are its clock, its
controller and its listener, each of which may do anything. A lock that is free is then had at once,
and one that is held is not had at all.
-/
namespace CanTransport

/-- A clock and a controller, as an automaton. -/
structure Device (δ : Type) where
  now : δ → Micros × δ
  isActive : δ → Bool × δ
  available : δ → Nat × δ
  read : δ → Option Frame × δ
  write : δ → Frame → Bool × δ
  outcome : δ → Option Ack × δ

/-- A station with its device. -/
structure LoneStation (δ : Type) where
  scene : Scene
  device : δ
  /-- Locks waited for in vain, latest first; the gate is never waited for. -/
  missed : List Lock := []

namespace LoneStation
variable {δ α : Type}

def station (x : LoneStation δ) : Station := x.scene.station

def access (x : LoneStation δ) (change : Station → Station) : LoneStation δ :=
  { x with scene := x.scene.access change }

def lock (x : LoneStation δ) (lock : Lock) : LoneStation δ := { x with scene := x.scene.lock lock }

def unlock (x : LoneStation δ) (lock : Lock) : LoneStation δ :=
  { x with scene := x.scene.unlock lock }

def note (x : LoneStation δ) (event : Event) : LoneStation δ :=
  { x with scene := x.scene.note event }

def miss (x : LoneStation δ) (lock : Lock) : LoneStation δ :=
  if lock = .gate then x else { x with missed := lock :: x.missed }

/-- Takes an answer out of the device. -/
def ask (x : LoneStation δ) (question : δ → α × δ) : α × LoneStation δ :=
  ((question x.device).1, { x with device := (question x.device).2 })

end LoneStation

/-- What a device answers; `tell` is what the listener does. -/
def Device.answer {δ : Type} (w : Device δ)
    (tell : EndpointId → Notice → LoneStation δ → LoneStation δ) :
    (q : Query) → LoneStation δ → q.Answer × LoneStation δ
  | .acquire lock, x => if lock ∈ x.scene.held then (false, x.miss lock) else (true, x.lock lock)
  | .release lock, x => ((), x.unlock lock)
  | .access change, x => (x.station, x.access change)
  | .now, x => x.ask w.now
  | .isActive, x => x.ask w.isActive
  | .available, x => x.ask w.available
  | .read, x => x.ask w.read
  | .write writer frame, x =>
    let (accepted, x) := x.ask (w.write · frame)
    (accepted, if accepted then x.note (.accepted writer frame) else x)
  | .outcome, x =>
    let (ack, x) := x.ask w.outcome
    (ack, ack.elim x fun ack => x.note (.reported ack))
  | .notify source notice, x => ((), tell source notice (x.note (.told source notice)))

namespace LoneStation
open CanTransport.Action
variable {δ α : Type} (w : Device δ) (tell : EndpointId → Notice → LoneStation δ → LoneStation δ)
  (x : LoneStation δ)

@[simp] theorem run_modify (change : Station → Station) :
    (modify change).run (w.answer tell) x = ((), x.access change) := rfl

@[simp] theorem run_modifyGet (change : Station → α × Station) :
    (modifyGet change).run (w.answer tell) x =
      ((change x.station).1, x.access fun s => (change s).2) := rfl

@[simp] theorem run_get : get.run (w.answer tell) x = (x.station, x) := by
  change (x.station, { x with scene := x.scene.access id }) = _
  rw [access_id]

@[simp] theorem run_now : now.run (w.answer tell) x = x.ask w.now := rfl

@[simp] theorem run_outcome : outcome.run (w.answer tell) x =
    ((x.ask w.outcome).1, (x.ask w.outcome).1.elim (x.ask w.outcome).2 fun ack =>
      (x.ask w.outcome).2.note (.reported ack)) :=
  rfl

theorem run_withLock {lock : Lock} (body : Action α) (h : lock ∉ x.scene.held) :
    (withLock lock body).run (w.answer tell) x =
      (.ok (body.run (w.answer tell) (x.lock lock)).1,
        (body.run (w.answer tell) (x.lock lock)).2.unlock lock) := by
  have hacquire : (acquire lock).run (w.answer tell) x = (true, x.lock lock) := by
    change (if lock ∈ x.scene.held then (false, x.miss lock) else (true, x.lock lock)) = _
    rw [if_neg h]
  unfold withLock
  rw [Program.bind_eq, Program.run_bind, hacquire]
  dsimp only
  rw [if_pos rfl, Program.bind_eq, Program.run_bind, Program.bind_eq, Program.run_bind]
  rfl

theorem run_withLock_held {lock : Lock} (body : Action α) (h : lock ∈ x.scene.held) :
    (withLock lock body).run (w.answer tell) x = (.error .expired, x.miss lock) := by
  have hacquire : (acquire lock).run (w.answer tell) x = (false, x.miss lock) := by
    change (if lock ∈ x.scene.held then (false, x.miss lock) else (true, x.lock lock)) = _
    rw [if_pos h]
  unfold withLock
  rw [Program.bind_eq, Program.run_bind, hacquire]
  rfl

@[simp] theorem unlock_lock (lock : Lock) : (x.lock lock).unlock lock = x := by
  change { x with scene := { x.scene with held := (lock :: x.scene.held).erase lock } } = x
  rw [List.erase_cons_head]

theorem run_withLock_clock (lock : Lock) (change : Micros → Station → α × Station)
    (h : lock ∉ x.scene.held) :
    (withLock lock (now.bind fun clock => modifyGet (change clock))).run (w.answer tell) x =
      (.ok (change (w.now x.device).1 x.station).1,
        (x.ask w.now).2.access fun s => (change (w.now x.device).1 s).2) := by
  rw [run_withLock w tell x _ h, Program.run_bind, run_now, run_modifyGet]
  refine congrArg (Prod.mk _) ?_
  exact unlock_lock ((x.ask w.now).2.access fun s => (change (w.now x.device).1 s).2) lock

/-- What is on record stays there, and so does what has been given up. -/
structure Precedes (x y : LoneStation δ) : Prop where
  events : ∃ more, y.scene.events = x.scene.events ++ more
  lapsed : y.scene.lapsed = false → x.scene.lapsed = false

variable {w tell x} {y z : LoneStation δ}

theorem Precedes.refl (x : LoneStation δ) : x.Precedes x := ⟨⟨[], (List.append_nil _).symm⟩, id⟩

theorem Precedes.trans (h : x.Precedes y) (h' : y.Precedes z) : x.Precedes z := by
  obtain ⟨more, hm⟩ := h.events
  obtain ⟨more', hm'⟩ := h'.events
  exact ⟨⟨more ++ more', by rw [hm', hm, List.append_assoc]⟩, h.lapsed ∘ h'.lapsed⟩

theorem Precedes.of_eq (he : y.scene.events = x.scene.events)
    (hl : y.scene.lapsed = x.scene.lapsed) : x.Precedes y :=
  ⟨⟨[], by rw [he, List.append_nil]⟩, fun h => hl ▸ h⟩

theorem precedes_note (x : LoneStation δ) (event : Event) :
    x.Precedes (x.note event) := ⟨⟨[event], rfl⟩, id⟩

theorem precedes_answer
    (ht : ∀ source notice (x : LoneStation δ), x.Precedes (tell source notice x))
    (q : Query) (x : LoneStation δ) :
    x.Precedes (w.answer tell q x).2 := by
  cases q with
  | acquire lock =>
    change x.Precedes (if lock ∈ x.scene.held then (false, x.miss lock) else (true, x.lock lock)).2
    split
    · dsimp only [miss]
      split <;> exact .of_eq rfl rfl
    · exact .of_eq rfl rfl
  | access change =>
    refine ⟨⟨[], (List.append_nil _).symm⟩, fun h => ?_⟩
    exact (Bool.or_eq_false_iff.mp h).1
  | release | now | isActive | available | read => exact .of_eq rfl rfl
  | write writer frame =>
    change x.Precedes (if (w.write x.device frame).1 then (x.ask (w.write · frame)).2.note
      (.accepted writer frame)
      else (x.ask (w.write · frame)).2)
    split
    · exact ⟨⟨_, rfl⟩, id⟩
    · exact .of_eq rfl rfl
  | outcome =>
    change x.Precedes ((w.outcome x.device).1.elim (x.ask w.outcome).2 fun ack =>
      (x.ask w.outcome).2.note (.reported ack))
    cases (w.outcome x.device).1 with
    | none => exact .of_eq rfl rfl
    | some ack => exact ⟨⟨_, rfl⟩, id⟩
  | notify source notice => exact (precedes_note x _).trans (ht source notice _)

theorem precedes_run (ht : ∀ source notice (x : LoneStation δ), x.Precedes (tell source notice x))
    (p : Action α) (x : LoneStation δ) :
    x.Precedes (p.run (w.answer tell) x).2 := by
  induction p generalizing x with
  | done value => exact .refl x
  | ask q next ih => exact (precedes_answer ht q x).trans (ih _ _)

end LoneStation

def Device.alone {δ : Type} (w : Device δ) :
    (q : Query) → LoneStation δ → q.Answer × LoneStation δ := w.answer fun _ _ x => x

namespace LoneStation
open CanTransport.Action CanTransport.Station
variable {δ α : Type} {w : Device δ} {x : LoneStation δ}

/-- A run is one of those that may come about, if what the listener does may. -/
theorem ends_answer {inner : Scene → Scene → Prop}
    {tell : EndpointId → Notice → LoneStation δ → LoneStation δ} (hrefl : ∀ c, inner c c)
    (ht : ∀ source notice (x : LoneStation δ), inner x.scene (tell source notice x).scene)
    (p : Action α) (x : LoneStation δ) :
    p.Ends inner x.scene (p.run (w.answer tell) x).1 (p.run (w.answer tell) x).2.scene := by
  induction p generalizing x with
  | done value => exact ⟨rfl, rfl⟩
  | ask q next ih =>
    refine ⟨(w.answer tell q x).1, (w.answer tell q x).2.scene, ?_, ih _ _⟩
    cases q with
    | acquire lock =>
      unfold Device.answer
      dsimp only
      split
      · refine .inr ⟨rfl, ?_⟩
        unfold miss
        split <;> rfl
      · next hfree => exact .inl ⟨rfl, hfree, rfl⟩
    | release => rfl
    | access change => exact ⟨rfl, rfl⟩
    | now | isActive | available | read => exact hrefl x.scene
    | notify source notice => exact ht source notice (x.note (.told source notice))
    | write writer frame =>
      refine ⟨x.scene, hrefl x.scene, ?_⟩
      change (if (w.write x.device frame).1 then (x.ask (w.write · frame)).2.note
        (.accepted writer frame)
          else (x.ask (w.write · frame)).2).scene =
        if (w.write x.device frame).1 then x.scene.note (.accepted writer frame) else x.scene
      cases (w.write x.device frame).1 <;> rfl
    | outcome =>
      refine ⟨x.scene, hrefl x.scene, ?_⟩
      change ((w.outcome x.device).1.elim (x.ask w.outcome).2 fun ack =>
        (x.ask w.outcome).2.note (.reported ack)).scene =
        match (w.outcome x.device).1 with
          | some ack => x.scene.note (.reported ack)
          | none => x.scene
      cases (w.outcome x.device).1 <;> rfl

theorem ends_alone (p : Action α) (x : LoneStation δ) :
    p.Ends (Episode 0) x.scene (p.run w.alone x).1 (p.run w.alone x).2.scene := by
  apply ends_answer
  · exact fun _ => rfl
  · exact fun _ _ _ => rfl

theorem run_look {lock : Lock} (hfree : lock ∉ x.scene.held) :
    (withLock lock get).run w.alone x = (.ok x.station, x) := by
  rw [Device.alone, run_withLock w _ x _ hfree, run_get]
  exact congrArg (Prod.mk _) (unlock_lock x lock)

/-- What comes of a frame that is offered to the controller: an entry, if it is accepted. -/
def offer (w : Device δ) (x : LoneStation δ) (writer : EndpointId) (address : Address)
    (frame : Frame) : Bool × LoneStation δ :=
  ((w.write x.device frame).1, if (w.write x.device frame).1 then
      ((x.ask (w.write · frame)).2.note (.accepted writer frame)).access fun s =>
        { s with outbox := s.outbox.push address writer }
    else (x.ask (w.write · frame)).2)

theorem offer_lock (x : LoneStation δ) (lock : Lock) (writer : EndpointId) (address : Address)
    (frame : Frame) :
    (x.lock lock).offer w writer address frame =
      ((x.offer w writer address frame).1, (x.offer w writer address frame).2.lock lock) := by
  have hwrite : (w.write (x.lock lock).device frame).1 = (w.write x.device frame).1 := rfl
  unfold offer
  rw [hwrite]
  cases (w.write x.device frame).1 <;> rfl

theorem run_send (hfree : .outbox ∉ x.scene.held) (writer : EndpointId) (address : Address)
    (frame : Frame) :
    (send writer address frame).run w.alone x = x.offer w writer address frame := by
  have hwrite : (write writer frame).run w.alone (x.lock .outbox) = ((w.write x.device frame).1,
      if (w.write x.device frame).1 then
        ((x.ask (w.write · frame)).2.note (.accepted writer frame)).lock .outbox
      else (x.ask (w.write · frame)).2.lock .outbox) := rfl
  unfold send offer
  rw [Program.bind_eq, Program.run_bind, Device.alone, run_withLock w _ x _ hfree,
    Program.bind_eq, Program.run_bind]
  rw [← Device.alone, hwrite]
  cases (w.write x.device frame).1 with
  | false => exact congrArg (Prod.mk _) (unlock_lock _ _)
  | true =>
    exact congrArg (Prod.mk true)
      (unlock_lock (((x.ask (w.write · frame)).2.note (.accepted writer frame)).access fun s =>
      { s with outbox := s.outbox.push address writer }) .outbox)

theorem run_forget (hfree : .outbox ∉ x.scene.held) (address : Address) :
    ((forget address).run w.alone x).2 = (x.ask w.now).2.access fun s =>
      (s.releaseEntries address (w.now x.device).1).2 := by
  unfold forget
  exact congrArg Prod.snd
    (run_withLock_clock w _ x .outbox (fun clock s => s.releaseEntries address clock) hfree)

end LoneStation

end CanTransport
