import CanTransport.Address
import CanTransport.Stopwatch
import CanTransport.Timing
import CanTransport.Transfer

/-! # Outbox

The controller reports outcomes in write order without saying of which frame. Each accepted write
leaves an entry with its writer's number, and an outcome goes to the oldest entry without one.
Entries are delivered in write order. An entry whose endpoint has retired is detached: it still
takes its outcome, so that this is not credited to a newer frame, but it is never delivered and
holds nothing back.
-/
namespace CanTransport

/-- Number of an endpoint, unique among those of its station. -/
abbrev EndpointId := Nat

structure OutboxEntry where
  address : Address
  /-- The endpoint that wrote the frame; none once the entry is detached. -/
  writer : Option EndpointId
  outcome : Option Ack := none
  detachedAt : Option Micros := none
deriving DecidableEq

namespace OutboxEntry

def isDetached (e : OutboxEntry) : Bool := e.detachedAt.isSome

def isResolved (e : OutboxEntry) : Bool := e.outcome.isSome

/-- Detached, and resolved or past its lifetime. -/
def isSpent (e : OutboxEntry) (now : Micros) : Bool :=
  e.detachedAt.any fun since => e.isResolved || decide (Timing.detachedLifetime ≤ now - since)

def detach (e : OutboxEntry) (now : Micros) : OutboxEntry :=
  { e with writer := none, detachedAt := some now }

end OutboxEntry

/-- Entries, oldest first. -/
abbrev Outbox := List OutboxEntry

namespace Outbox

def push (o : Outbox) (address : Address) (writer : EndpointId) : Outbox :=
  o ++ [{ address, writer := some writer }]

/-- Gives an outcome to the oldest unresolved entry, if there is one. -/
def record? (ack : Ack) : Outbox → Option Outbox
  | [] => none
  | e :: o =>
    if e.isResolved then (record? ack o).map (e :: ·) else
      some ({ e with outcome := some ack } :: o)

def dropSpent (o : Outbox) (now : Micros) : Outbox := o.filter fun e => !e.isSpent now

/-- Takes out the oldest entry that is not detached, if it is resolved. -/
def pop? : Outbox → Option (OutboxEntry × Outbox)
  | [] => none
  | e :: o =>
    if e.isDetached then (pop? o).map fun (head, rest) => (head, e :: rest)
    else if e.isResolved then some (e, o)
    else none

/-- Next entry to deliver at `now`, and what is left of the outbox. -/
def next (o : Outbox) (now : Micros) : Option OutboxEntry × Outbox :=
  let o := o.dropSpent now
  match pop? o with
  | some (head, rest) => (some head, rest)
  | none => (none, o)

/-- Lets go of a conversation: its resolved entries are dropped and the others are detached. Also
tells how many entries that were. -/
def release (o : Outbox) (address : Address) (now : Micros) : Nat × Outbox :=
  let kept := o.filter fun e => !(decide (e.address = address) && e.isResolved)
  let isFreed := fun (e : OutboxEntry) => decide (e.address = address) && !e.isDetached
  ((o.length - kept.length) + kept.countP isFreed,
    -- what was detached before keeps its time
    kept.map fun e => if isFreed e then e.detach now else e)

/-- Entries of running conversations, not yet delivered. -/
def liveCount (o : Outbox) : Nat := o.countP (!·.isDetached)

def detachedCount (o : Outbox) : Nat := o.countP (·.isDetached)

def unresolvedCount (o : Outbox) : Nat := o.countP (!·.isResolved)

/-- An outcome that is taken resolves one entry. -/
theorem unresolvedCount_record {ack : Ack} {o o' : Outbox} (h : o.record? ack = some o') :
    o'.unresolvedCount + 1 = o.unresolvedCount := by
  induction o generalizing o' with
  | nil => simp [record?] at h
  | cons e o ih =>
    rw [record?] at h
    split at h
    · next hr =>
      obtain ⟨o₁, h₁, rfl⟩ := Option.map_eq_some_iff.mp h
      simpa [unresolvedCount, hr] using ih h₁
    · next hr =>
      cases h
      simp [unresolvedCount, OutboxEntry.isResolved] at hr ⊢
      simp [hr]

theorem record?_eq_none {ack : Ack} {o : Outbox} :
    o.record? ack = none ↔ o.unresolvedCount = 0 := by
  induction o with
  | nil => simp [record?, unresolvedCount]
  | cons e o ih =>
    rw [record?]
    split
    · next hr => simpa [unresolvedCount, hr] using ih
    · next hr => simp [unresolvedCount, hr]

theorem length_pop {o rest : Outbox} {head : OutboxEntry} (h : o.pop? = some (head, rest)) :
    rest.length + 1 = o.length := by
  induction o generalizing rest with
  | nil => simp [pop?] at h
  | cons e o ih =>
    rw [pop?] at h
    split at h
    · obtain ⟨⟨head₁, rest₁⟩, h₁, h₂⟩ := Option.map_eq_some_iff.mp h
      cases h₂
      simpa using ih h₁
    · split at h <;> cases h
      rfl

/-- Every delivery takes an entry out. -/
theorem length_next {o rest : Outbox} {head : OutboxEntry} {now : Micros}
    (h : o.next now = (some head, rest)) : rest.length < o.length := by
  have kept : (o.dropSpent now).length ≤ o.length := List.length_filter_le _ _
  rw [next] at h
  split at h
  · next hp =>
    cases h
    have := length_pop hp
    omega
  · simp at h

end Outbox
end CanTransport
