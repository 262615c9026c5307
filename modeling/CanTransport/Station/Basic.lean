import CanTransport.Outbox
import CanTransport.Endpoint.Basic
import CanTransport.Settings

/-! # Stations

A station keeps its endpoints in one store, each under a number of its own. Everything else refers
to an endpoint by a handle: accepted requests wait in order, running conversations are keyed by
identifier, and a finished endpoint is listed until the end of the tick that saw it finish. An
endpoint holds its bytes of the budget until it is dropped from the store.
-/
namespace CanTransport

/-- An endpoint's number and the facts about it that never change. -/
structure Handle where
  id : EndpointId
  address : Address
  role : Role
  kind : MessageType
deriving DecidableEq

/-- A receiver listens on its own identifier, a sender on the way back from its target. -/
def Handle.accepts (h : Handle) (id : Address) : Bool :=
  match h.role with
  | .receiver => id = h.address
  | .sender => id = h.address.reversed

def Endpoint.handle (r : Endpoint) (id : EndpointId) : Handle :=
  { id, address := r.address, role := r.role, kind := r.kind }

/-- Whether a frame is addressed to this station: physical frames by its own address, functional
ones by its groups. -/
def Settings.admits (settings : Settings) (frame : Frame) : Bool :=
  frame.isRelevant && frame.id.isValid &&
    match frame.id.targetType? with
    | some .physical => frame.id.target = settings.source
    | some .functional => settings.functional.contains frame.id.target
    | none => false

/-- Running conversations, ascending by identifier and at most one for each. -/
abbrev ActiveSet := List (Address × Handle)

namespace ActiveSet

def find? (active : ActiveSet) (key : Address) : Option Handle := List.lookup key active

def insert (key : Address) (h : Handle) : ActiveSet → ActiveSet
  | [] => [(key, h)]
  | (k, g) :: rest =>
    if key.raw < k.raw then (key, h) :: (k, g) :: rest
    else if key = k then (key, h) :: rest
    else (k, g) :: insert key h rest

def erase (active : ActiveSet) (key : Address) : ActiveSet := active.filter (·.1 ≠ key)

def handles (active : ActiveSet) : List Handle := active.map (·.2)

theorem mem_insert {p : Address × Handle} {key : Address} {h : Handle} {active : ActiveSet}
    (hp : p ∈ active.insert key h) : p = (key, h) ∨ p ∈ active := by
  induction active with
  | nil => simpa [insert] using hp
  | cons q rest ih =>
    rw [insert] at hp
    split at hp
    · simpa using hp
    · split at hp
      · rcases List.mem_cons.mp hp with rfl | hp
        · exact .inl rfl
        · exact .inr (List.mem_cons_of_mem _ hp)
      · rcases List.mem_cons.mp hp with rfl | hp
        · exact .inr List.mem_cons_self
        · exact (ih hp).imp_right (List.mem_cons_of_mem _)

theorem find?_insert (key : Address) (h : Handle) (active : ActiveSet) (k : Address) :
    (active.insert key h).find? k = if k = key then some h else active.find? k := by
  induction active with
  | nil =>
    rw [insert, find?, List.lookup_cons]
    by_cases hk : k = key
    · simp [hk]
    · rw [beq_eq_false_iff_ne.mpr hk, if_neg hk]
      rfl
  | cons q rest ih =>
    obtain ⟨k', g⟩ := q
    rw [find?] at ih ⊢
    rw [insert]
    split
    · rw [List.lookup_cons]
      by_cases hk : k = key
      · simp [hk]
      · rw [beq_eq_false_iff_ne.mpr hk, if_neg hk]
        rfl
    · split
      · next heq =>
        subst heq
        rw [List.lookup_cons, find?, List.lookup_cons]
        by_cases hk : k = key
        · simp [hk]
        · rw [beq_eq_false_iff_ne.mpr hk, if_neg hk]
      · next hne =>
        rw [List.lookup_cons, ih, find?, find?, List.lookup_cons]
        by_cases hk : k = k'
        · subst hk
          simp [Ne.symm hne]
        · rw [beq_eq_false_iff_ne.mpr hk]

theorem find?_erase (key : Address) (active : ActiveSet) (k : Address) :
    (active.erase key).find? k = if k = key then none else active.find? k := by
  induction active with
  | nil => simp [erase, find?]
  | cons q rest ih =>
    obtain ⟨k', g⟩ := q
    rw [find?, erase] at ih ⊢
    rw [List.filter_cons, find?, List.lookup_cons]
    by_cases hk : k' = key
    · rw [if_neg (by simp [hk]), ih, find?]
      subst hk
      split
      · rfl
      · next h => rw [beq_eq_false_iff_ne.mpr h]
    · rw [if_pos (by simp [hk]), List.lookup_cons, ih, find?]
      by_cases h : k = k'
      · simp [h, hk]
      · rw [beq_eq_false_iff_ne.mpr h]

end ActiveSet

structure Station where
  settings : Settings
  budget : Budget
  runPeriod : Micros := Timing.runPeriod
  ackPeriod : Micros := Timing.ackPeriod
  waitLimit : Option UInt8 := none
  endpoints : List (EndpointId × Endpoint) := []
  fresh : EndpointId := 0
  pending : List Handle := []
  active : ActiveSet := []
  finished : List Handle := []
  outbox : Outbox := []
  lastTick : Option Micros := none

namespace Station

def ofConfig (c : Config) : Except ConfigError Station := do
  c.validate
  return {
    settings := c.toSettings
    budget := .ofBytes c.memoryBudget
    runPeriod := c.runPeriod
    ackPeriod := c.ackPeriod
    waitLimit := c.waitLimit }

theorem ofConfig_eq {c : Config} {s : Station} (h : ofConfig c = .ok s) :
    c.separation.isValid = true ∧
    s = { settings := c.toSettings, budget := .ofBytes c.memoryBudget, runPeriod := c.runPeriod,
          ackPeriod := c.ackPeriod, waitLimit := c.waitLimit } := by
  cases hv : c.separation.isValid with
  | false =>
    have hvalidate : c.validate = .error (.invalidSeparation c.separation) := by
      simp [Config.validate, SeparationTime.validate, hv]
    rw [ofConfig, hvalidate] at h
    cases h
  | true =>
    have hvalidate : c.validate = .ok () := by simp [Config.validate, SeparationTime.validate, hv]
    rw [ofConfig, hvalidate] at h
    cases h
    exact ⟨rfl, rfl⟩

def endpoint? (s : Station) (id : EndpointId) : Option Endpoint := s.endpoints.lookup id

def modifyEndpoint (s : Station) (id : EndpointId) (f : Endpoint → Endpoint) : Station :=
  { s with endpoints := s.endpoints.map fun (i, r) => (i, if i = id then f r else r) }

theorem endpoint?_modifyEndpoint (s : Station) (id i : EndpointId) (f : Endpoint → Endpoint) :
    (s.modifyEndpoint id f).endpoint? i = (s.endpoint? i).map fun r =>
      if i = id then f r else r := by
  rw [endpoint?, endpoint?, modifyEndpoint]
  induction s.endpoints with
  | nil => rfl
  | cons p rest ih =>
    obtain ⟨j, r⟩ := p
    rw [List.map_cons, List.lookup_cons, List.lookup_cons]
    by_cases h : i = j
    · simp [h]
    · rw [beq_eq_false_iff_ne.mpr h]
      exact ih

/-- Puts a new endpoint into the store. -/
def adopt (s : Station) (r : Endpoint) (budget : Budget) : Handle × Station :=
  (r.handle s.fresh,
    { s with budget, fresh := s.fresh + 1, endpoints := s.endpoints ++ [(s.fresh, r)] })

/-- Lets go of an endpoint, which gives back the bytes it held. -/
def drop (s : Station) (id : EndpointId) : Station :=
  match s.endpoint? id with
  | none => s
  | some r =>
    { s with endpoints := s.endpoints.filter (·.1 ≠ id), budget := s.budget.release r.footprint }

def addSender (s : Station) (address : Address) (message : List UInt8) (kind : MessageType)
    (waitLimit : Option UInt8) : Except RequestError Handle × Station :=
  match Sender.create address message kind waitLimit s.budget with
  | .error e => (.error e, s)
  | .ok (sender, rest) =>
    let (h, s) := s.adopt (.sender sender) rest
    (.ok h, s)

def addReceiver (s : Station) (address : Address) (blockSize : UInt8)
    (separation : SeparationTime) :
    Except BudgetError Handle × Station :=
  match Receiver.create address blockSize separation s.budget with
  | .error e => (.error e, s)
  | .ok (receiver, rest) =>
    let (h, s) := s.adopt (.receiver receiver) rest
    (.ok h, s)

/-- Starts a receiver on an identifier, unless that one is busy or the budget does not hold it. -/
def openReception (s : Station) (address : Address) (settings : Settings) :
    Option Handle × Station :=
  if (s.active.find? address).isSome then (none, s)
  else match s.addReceiver address settings.blockSize settings.separation with
    | (.error _, s) => (none, s)
    | (.ok h, s) => (some h, { s with active := s.active.insert address h })

def enqueue (s : Station) (h : Handle) : Station := { s with pending := s.pending ++ [h] }

/-- Moves one request on: to the running conversations, or back into the queue if its identifier is
busy. -/
def startOrEnqueue (s : Station) (h : Handle) : Station :=
  if (s.active.find? h.address).isSome then s.enqueue h
  else { s with active := s.active.insert h.address h }

/-- Starts what can be started, oldest request first; the others keep their order. -/
def startPending (s : Station) : Station :=
  s.pending.foldl startOrEnqueue { s with pending := [] }

def markFinished (s : Station) (h : Handle) : Station := { s with finished := s.finished ++ [h] }

def isCurrent (s : Station) (h : Handle) : Bool := (s.active.find? h.address).any (·.id = h.id)

/-- Ends the conversation of a finished endpoint, if it is still the one on its identifier. -/
def retireOne : List Handle × Station → Handle → List Handle × Station
  | (retired, s), h =>
    if s.isCurrent h then (retired ++ [h], { s with active := s.active.erase h.address })
    else (retired, s)

/-- Empties the list of finished endpoints; answers those whose conversation ends now. -/
def takeFinished (s : Station) : List Handle × Station :=
  s.finished.foldl retireOne ([], { s with finished := [] })

/-- One step of an endpoint. A step that writes nothing is taken at once; one that writes leaves the
endpoint as it was until the write has been answered. -/
def beginStep (s : Station) (id : EndpointId) (frame : Option Frame) (now : Micros) :
    Option (Address × Move Endpoint) × Station :=
  match s.endpoint? id with
  | none => (none, s)
  | some r =>
    let (move, budget) := r.step now frame s.budget
    let s := { s with budget }
    match move with
    | .rest next outcome =>
      (some (r.address, .rest next outcome), s.modifyEndpoint id fun _ => next)
    | .write f next => (some (r.address, .write f next), s)

def record (s : Station) (ack : Ack) : Bool × Station :=
  match s.outbox.record? ack with
  | none => (false, s)
  | some outbox => (true, { s with outbox })

theorem record_outbox (s : Station) (ack : Ack) :
    (s.record ack).2 = { s with outbox := (s.outbox.record? ack).getD s.outbox } := by
  unfold record
  cases s.outbox.record? ack <;> rfl

def nextDelivery (s : Station) (now : Micros) : Option OutboxEntry × Station :=
  let (entry, outbox) := s.outbox.next now
  (entry, { s with outbox })

def releaseEntries (s : Station) (address : Address) (now : Micros) : Nat × Station :=
  let (count, outbox) := s.outbox.release address now
  (count, { s with outbox })

/-- Neither requests waiting nor conversations running. -/
def isQuiet (s : Station) : Bool := s.pending.isEmpty && s.active.isEmpty

end Station
end CanTransport
