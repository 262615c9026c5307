import Mathlib.Logic.Relation
import CanTransport.Proofs.Expiries
import CanTransport.Proofs.OutboxOrder

/-! # Settling accounts comes to an end

When a station settles its accounts it polls its controller until an outcome is not taken, and then
delivers entries until none is ready. Neither loop has a bound of its own. As long as nobody writes
a frame meanwhile, what there is in the outbox bounds both: each outcome taken leaves an entry less
without one, and each delivery leaves an entry less.
-/
namespace CanTransport
open CanTransport.Action CanTransport.Station

section Repetition
variable {α : Type} {answers : (q : Query) → Scene → q.Answer → Scene → Prop}
  {body : Action α} {again : α → Bool} {c c' : Scene} {values : List α}

/-- Does the same over and over, as long as the value is one to go on with. The values are listed,
the last one included. -/
inductive Program.Repeats (answers : (q : Query) → Scene → q.Answer → Scene → Prop)
    (body : Action α) (again : α → Bool) :
    Scene → List α → Scene → Prop
  | stops {c c' : Scene} {a : α} (last : body.Yields answers c a c') (enough : again a = false) :
      Repeats answers body again c [a] c'
  | goesOn {c c₁ c' : Scene} {a : α} {values : List α} (turn : body.Yields answers c a c₁)
      (more : again a = true) (rest : Repeats answers body again c₁ values c') :
    Repeats answers body again c (a :: values) c'

def Program.Turn (answers : (q : Query) → Scene → q.Answer → Scene → Prop) (body : Action α)
    (again : α → Bool) (c c' : Scene) :
    Prop :=
  ∃ a, body.Yields answers c a c' ∧ again a = true

def Program.Halts (answers : (q : Query) → Scene → q.Answer → Scene → Prop) (body : Action α)
    (again : α → Bool) (c : Scene) :
    Prop :=
  Acc (fun c' c => body.Turn answers again c c') c

/-- Of a loop every turn after which there is another lowers the measure. -/
def Program.Lowers (answers : (q : Query) → Scene → q.Answer → Scene → Prop)
    (body : Action α) (again : α → Bool) (measure : Scene → Nat) : Prop :=
  ∀ c c', body.Turn answers again c c' → measure c' < measure c

theorem halts_of_lowers {measure : Scene → Nat} (h : body.Lowers answers again measure)
    (c : Scene) :
    body.Halts answers again c :=
  Subrelation.accessible (fun {c' c} turn => h c c' turn)
    (InvImage.accessible measure (Nat.lt_wfRel.wf.apply (measure c)))

theorem repeats_length_le {measure : Scene → Nat} (h : body.Lowers answers again measure)
    (r : body.Repeats answers again c values c') : values.length ≤ measure c + 1 := by
  induction r with
  | stops => exact Nat.succ_le_succ (Nat.zero_le _)
  | @goesOn c c₁ c' a values turn more _ ih =>
    have lower := h c c₁ ⟨a, turn, more⟩
    rw [List.length_cons]
    omega

/-- All values but the last are to go on with. -/
theorem repeats_countP_lt (r : body.Repeats answers again c values c') :
    values.countP again < values.length := by
  induction r with
  | stops last enough => simp [enough]
  | goesOn turn more _ ih =>
    rw [List.countP_cons, if_pos more, List.length_cons]
    omega

theorem repeats_keeps {R : Scene → Scene → Prop} (htrans : ∀ {c c₁ c'}, R c c₁ → R c₁ c' → R c c')
    (hbody : ∀ {c a c'}, body.Yields answers c a c' → R c c')
    (r : body.Repeats answers again c values c') : R c c' := by
  induction r with
  | stops last => exact hbody last
  | goesOn turn _ _ ih => exact htrans (hbody turn) ih

theorem repeats_last {P : Scene → Prop}
    (hbody : ∀ {c a c'}, body.Yields answers c a c' → P c → P c')
    (r : body.Repeats answers again c values c') (h : P c) : ∃ c₁ a, P c₁ ∧
    body.Yields answers c₁ a c' ∧ again a = false := by
  induction r with
  | stops last enough => exact ⟨_, _, h, last, enough⟩
  | goesOn turn _ _ ih => exact ih (hbody turn h)

/-- A loop that cannot go on for ever comes to its end among surroundings that answer every
question. -/
theorem exists_repeats (total : ∀ q c, ∃ a c', answers q c a c') (h : body.Halts answers again c) :
    ∃ values c', body.Repeats answers again c values c' := by
  induction h with
  | intro c _ ih =>
    obtain ⟨a, c₁, turn⟩ := Pacer.yields_of_total total body c
    cases more : again a with
    | false => exact ⟨[a], c₁, .stops turn more⟩
    | true =>
      obtain ⟨values, c', rest⟩ := ih c₁ ⟨a, turn, more⟩
      exact ⟨a :: values, c', .goesOn turn more rest⟩

/-- With fuel for every turn a loop with a bound is the loop without one. Here `add` makes its value
up from those of the turns. -/
theorem yields_iff_repeats {β : Type} {loop : Nat → Action β} {add : α → β → β} {zero : β}
    {measure : Scene → Nat} (hloop : ∀ fuel, loop (fuel + 1) = body.bind fun a =>
      if again a then (loop fuel).bind fun b => .done (add a b) else .done (add a zero))
    (hl : body.Lowers answers again measure) {fuel : Nat} {b : β} (hfuel : measure c < fuel) :
    (loop fuel).Yields answers c b c' ↔ ∃ values, body.Repeats answers again c values c' ∧
    b = values.foldr add zero := by
  induction fuel generalizing c b with
  | zero => omega
  | succ fuel ih =>
    -- a turn costs one unit of fuel and lowers the measure, so the fuel stays enough
    have left {a : α} {c₁ : Scene} (turn : body.Yields answers c a c₁) (more : again a = true) :
        measure c₁ < fuel := by
      have := hl c c₁ ⟨a, turn, more⟩
      omega
    rw [hloop, yields_bind]
    constructor
    · rintro ⟨a, c₁, turn, h⟩
      cases more : again a with
      | false =>
        rw [more] at h
        obtain ⟨rfl, rfl⟩ := h
        exact ⟨[a], .stops turn more, rfl⟩
      | true =>
        rw [more] at h
        obtain ⟨b, c₂, h, rfl, rfl⟩ := yields_bind.mp h
        obtain ⟨values, rest, rfl⟩ := (ih (left turn more)).mp h
        exact ⟨a :: values, .goesOn turn more rest, rfl⟩
    · rintro ⟨values, h, rfl⟩
      cases h with
      | @stops _ _ a last enough =>
        refine ⟨a, c', last, ?_⟩
        rw [enough]
        exact ⟨rfl, rfl⟩
      | @goesOn _ c₁ _ a values turn more rest =>
        refine ⟨a, c₁, turn, ?_⟩
        rw [more]
        exact yields_bind.mpr ⟨_, c', (ih (left turn more)).mpr ⟨values, rest, rfl⟩, rfl, rfl⟩

end Repetition

/-- From one scene to the other nobody has written, and every lock is held that was held before. -/
structure Scene.Dwindles (c c' : Scene) : Prop where
  held : c'.held = c.held
  outbox : Relation.ReflTransGen Outbox.Settles c.station.outbox c'.station.outbox

/-- Surroundings in which nobody writes while a program runs, and the station can be looked at.
Locks may be missed, the clock may show anything, endpoints may be gone, and whatever else is called
may poll, deliver and let go as well. -/
structure Unwritten (answers : (q : Query) → Scene → q.Answer → Scene → Prop) : Prop where
  possible : ∀ {q c a c'}, answers q c a c' → c.Answers Scene.Dwindles q a c'
  seen : ∀ c, answers (.access id) c c.station c

namespace Scene.Dwindles
variable {c c₁ c' : Scene} {lock : Lock}

theorem refl (c : Scene) : c.Dwindles c := ⟨rfl, .refl⟩

theorem trans (h : c.Dwindles c₁) (h' : c₁.Dwindles c') : c.Dwindles c' :=
  ⟨h'.held.trans h.held, h.outbox.trans h'.outbox⟩

theorem note (h : c.Dwindles c₁) (event : Event) : c.Dwindles (c₁.note event) := ⟨h.held, h.outbox⟩

theorem access (h : c.Dwindles c₁) {change : Station → Station}
    (s : c₁.station.outbox.Settles (change c₁.station).outbox) : c.Dwindles (c₁.access change) :=
  ⟨h.held, h.outbox.tail s⟩

theorem access_same (h : c.Dwindles c₁) {change : Station → Station}
    (same : (change c₁.station).outbox = c₁.station.outbox) : c.Dwindles (c₁.access change) := by
  refine ⟨h.held, ?_⟩
  rw [access_station, same]
  exact h.outbox

theorem unlock (h : (c.lock lock).Dwindles c₁) : c.Dwindles (c₁.unlock lock) := by
  refine ⟨?_, h.outbox⟩
  have held : c₁.held = lock :: c.held := h.held
  change c₁.held.erase lock = c.held
  rw [held, List.erase_cons_head]

theorem keeps {P : Outbox → Prop} (hP : ∀ o o', o.Settles o' → P o → P o') (h : c.Dwindles c')
    (hc : P c.station.outbox) :
    P c'.station.outbox := by
  have run {o o' : Outbox} (h : Relation.ReflTransGen Outbox.Settles o o') (ho : P o) : P o' := by
    induction h with
    | refl => exact ho
    | tail _ s ih => exact hP _ _ s ih
  exact run h.outbox hc

theorem resolvedFirst (h : c.Dwindles c') (hc : c.station.outbox.ResolvedFirst) :
    c'.station.outbox.ResolvedFirst :=
  h.keeps (fun _ _ s => s.resolvedFirst) hc

theorem unresolvedCount_le (h : c.Dwindles c') :
    c'.station.outbox.unresolvedCount ≤ c.station.outbox.unresolvedCount :=
  h.keeps (P := fun o => o.unresolvedCount ≤ c.station.outbox.unresolvedCount)
    (fun _ _ s ho => Nat.le_trans s.unresolvedCount_le ho) (Nat.le_refl _)

theorem length_le (h : c.Dwindles c') : c'.station.outbox.length ≤ c.station.outbox.length :=
  h.keeps (P := fun o => o.length ≤ c.station.outbox.length)
    (fun _ _ s ho => Nat.le_trans s.length_le ho) (Nat.le_refl _)

end Scene.Dwindles

namespace Station
variable {answers : (q : Query) → Scene → q.Answer → Scene → Prop} {c c₁ c' : Scene}

/-- A poll goes by the outbox, and an outcome that is taken leaves an entry less without one. -/
theorem poll_dwindles {taken : Bool} (h : pollOutcome.Ends Scene.Dwindles c taken c') :
    c.Dwindles c' ∧
    (taken = true → c'.station.outbox.unresolvedCount < c.station.outbox.unresolvedCount) := by
  obtain ⟨polled, c₁, h₁, rfl, rfl⟩ := ends_bind.mp h
  rcases ends_withLock.mp h₁ with ⟨rfl, rfl⟩ | ⟨-, taken, c₂, hbody, rfl, rfl⟩
  · exact ⟨.refl _, nofun⟩
  obtain ⟨ack, c₃, hask, hbody⟩ := ends_bind.mp hbody
  obtain ⟨_, rfl, c₄, within, rfl⟩ := ends_ask.mp hask
  cases ack with
  | none =>
    obtain ⟨rfl, rfl⟩ := hbody
    exact ⟨within.unlock, nofun⟩
  | some ack =>
    obtain ⟨rfl, rfl⟩ := ends_modifyGet.mp hbody
    have recorded : (c₄.station.record ack).2.outbox = (c₄.station.outbox.record? ack).getD
        c₄.station.outbox := by
      rw [record_outbox]
    constructor
    · apply Scene.Dwindles.unlock
      apply (within.note (.reported ack)).access
      change c₄.station.outbox.Settles (c₄.station.record ack).2.outbox
      rw [recorded]
      exact .record ack
    · intro took
      have took : (c₄.station.record ack).1 = true := took
      have before : c₄.station.outbox.unresolvedCount ≤ c.station.outbox.unresolvedCount :=
        within.unresolvedCount_le
      change (c₄.station.record ack).2.outbox.unresolvedCount < _
      cases hr : c₄.station.outbox.record? ack with
      | none =>
        rw [record, hr] at took
        cases took
      | some outbox =>
        have := Outbox.unresolvedCount_record hr
        rw [recorded, hr, Option.getD_some]
        omega

theorem deliverEntry_dwindles {e : OutboxEntry} {delivered : Bool}
    (h : (deliverEntry e).Ends Scene.Dwindles c delivered c') :
    c.Dwindles c' := by
  rcases deliverEntry_proceeds h with rfl | ⟨id, ack, -, -, -, clock, c₁, hnow, rfl⟩
  · exact .refl _
  · obtain ⟨_, -, within⟩ := ends_ask.mp hnow
    exact (within.access_same rfl).unlock

/-- A turn goes by the outbox, and takes an entry out if one is ready. -/
theorem deliverNext_dwindles {delivered : Option Bool}
    (h : deliverNext.Ends Scene.Dwindles c delivered c') :
    c.Dwindles c' ∧
    (delivered.isSome = true → c'.station.outbox.length < c.station.outbox.length) := by
  obtain ⟨entry, c₁, h₁, h₂⟩ := ends_bind.mp h
  rcases ends_withLock.mp h₁ with ⟨rfl, rfl⟩ | ⟨-, entry, c₂, hbody, rfl, rfl⟩
  · obtain ⟨rfl, rfl⟩ := h₂
    exact ⟨.refl _, nofun⟩
  obtain ⟨clock, c₃, hnow, hbody⟩ := ends_bind.mp hbody
  obtain ⟨_, -, within⟩ := ends_ask.mp hnow
  obtain ⟨rfl, rfl⟩ := ends_modifyGet.mp hbody
  have after : c.Dwindles ((c₃.access fun s => (s.nextDelivery clock).2).unlock .outbox) :=
    (within.access (.next clock)).unlock
  cases ready : (c₃.station.nextDelivery clock).1 with
  | none =>
    rw [ready] at h₂
    obtain ⟨rfl, rfl⟩ := h₂
    exact ⟨after, nofun⟩
  | some e =>
    rw [ready] at h₂
    obtain ⟨delivered, c₄, handed, rfl, rfl⟩ := ends_bind.mp h₂
    have handing := deliverEntry_dwindles handed
    refine ⟨after.trans handing, fun _ => ?_⟩
    have before : c₃.station.outbox.length ≤ c.station.outbox.length := within.length_le
    have taken : (c₃.station.outbox.next clock).2.length < c₃.station.outbox.length :=
      Outbox.length_next (Prod.ext ready rfl)
    have : c'.station.outbox.length ≤ (c₃.station.outbox.next clock).2.length := handing.length_le
    omega

end Station

/-- The lock is had where it is free. -/
def Lock.Granted (lock : Lock) (answers : (q : Query) → Scene → q.Answer → Scene → Prop) : Prop :=
  ∀ {c : Scene} {had : Bool} {c' : Scene}, lock ∉ c.held → answers (.acquire lock) c had c' →
    had = true

/-- How settling goes from `c`. -/
structure Settlement (answers : (q : Query) → Scene → q.Answer → Scene → Prop) (c : Scene) :
    Prop where
  /-- It is one loop run to its end, and then the other. -/
  settles {n : Nat} {c' : Scene} : Station.settle.Yields answers c n c' ↔ ∃ taken c₁ handed,
    Station.pollOutcome.Repeats answers id c taken c₁ ∧
    Station.deliverNext.Repeats answers Option.isSome c₁ handed c' ∧
      n = handed.count (some true)
  /-- A delivery by itself is a run of the second. -/
  delivers {n : Nat} {c' : Scene} : Station.deliver.Yields answers c n c' ↔
    ∃ handed, Station.deliverNext.Repeats answers Option.isSome c handed c' ∧
      n = handed.count (some true)
  polling : Station.pollOutcome.Halts answers id c
  delivering : Station.deliverNext.Halts answers Option.isSome c
  /-- At most one more poll is made than there are entries without an outcome. -/
  polled {taken : List Bool} {c₁ : Scene}
    (polls : Station.pollOutcome.Repeats answers id c taken c₁) :
    taken.length ≤ c.station.outbox.unresolvedCount + 1
  /-- No more entries are delivered after the polls than there were at the beginning. -/
  handed {taken : List Bool} {handed : List (Option Bool)} {c₁ c' : Scene}
    (polls : Station.pollOutcome.Repeats answers id c taken c₁)
    (deliveries : Station.deliverNext.Repeats answers Option.isSome c₁ handed c') :
    handed.count (some true) ≤ c.station.outbox.length
  /-- Where the lock of the outbox is had, no outcome is left in it. -/
  emptied (granted : Lock.outbox.Granted answers) (free : .outbox ∉ c.held)
    (arises : Outbox.Arises c.station.outbox) {handed : List (Option Bool)} {c' : Scene}
    (deliveries : Station.deliverNext.Repeats answers Option.isSome c handed c') :
    ∀ e ∈ c'.station.outbox, e.isResolved = false
  /-- Where every question is answered, either loop comes to its end. -/
  ends (total : ∀ q c, ∃ a c', answers q c a c') :
    (∃ taken c', Station.pollOutcome.Repeats answers id c taken c') ∧
      ∃ handed c', Station.deliverNext.Repeats answers Option.isSome c handed c'

section Loops
open Station
variable {answers : (q : Query) → Scene → q.Answer → Scene → Prop} {c c' : Scene}

theorem drainUpTo_succ (fuel : Nat) : drainUpTo (fuel + 1) = pollOutcome.bind fun taken =>
    if id taken then (drainUpTo fuel).bind fun _ => .done () else .done () := by
  rw [drainUpTo, Program.bind_eq]
  congr 1
  funext taken
  rw [Program.bind_done]
  rfl

theorem deliverUpTo_succ (fuel : Nat) : deliverUpTo (fuel + 1) = deliverNext.bind fun delivered =>
    if delivered.isSome then (deliverUpTo fuel).bind fun rest =>
      .done (rest + if delivered = some true then 1 else 0)
    else .done (0 + if delivered = some true then 1 else 0) := by
  rw [deliverUpTo, Program.bind_eq]
  congr 1
  funext delivered
  cases delivered with
  | none => rfl
  | some delivered => cases delivered <;> rfl

/-- How many were handed over, as the loop counts them. -/
theorem foldr_count (handed : List (Option Bool)) :
    handed.foldr (fun delivered n => n + if delivered = some true then 1 else 0) 0 =
      handed.count (some true) := by
  induction handed with
  | nil => rfl
  | cons delivered handed ih => simp only [List.foldr_cons, ih, List.count_cons, beq_iff_eq]

namespace Unwritten

theorem poll (hw : Unwritten answers) {taken : Bool} (h : pollOutcome.Yields answers c taken c') :
    c.Dwindles c' ∧
    (taken = true → c'.station.outbox.unresolvedCount < c.station.outbox.unresolvedCount) :=
  poll_dwindles (ends_of_yields (fun _ _ _ _ => hw.possible) h)

theorem turn (hw : Unwritten answers) {delivered : Option Bool}
    (h : deliverNext.Yields answers c delivered c') :
    c.Dwindles c' ∧
    (delivered.isSome = true → c'.station.outbox.length < c.station.outbox.length) :=
  deliverNext_dwindles (ends_of_yields (fun _ _ _ _ => hw.possible) h)

theorem poll_lowers (hw : Unwritten answers) :
    pollOutcome.Lowers answers id (·.station.outbox.unresolvedCount) := by
  rintro c c' ⟨taken, turn, more⟩
  exact (hw.poll turn).2 more

theorem turn_lowers (hw : Unwritten answers) :
    deliverNext.Lowers answers Option.isSome (·.station.outbox.length) := by
  rintro c c' ⟨delivered, turn, more⟩
  exact (hw.turn turn).2 more

theorem get_bind (hw : Unwritten answers) {α : Type} {f : Station → Action α} {a : α} :
    (get.bind f).Yields answers c a c' ↔ (f c.station).Yields answers c a c' := by
  constructor
  · intro h
    obtain ⟨s, c₁, look, h⟩ := yields_bind.mp h
    obtain ⟨rfl, rfl⟩ := ends_get.mp (ends_of_yields (fun _ _ _ _ => hw.possible) look)
    exact h
  · intro h
    exact yields_bind.mpr ⟨c.station, c, yields_ask.mpr ⟨c.station, rfl, hw.seen c⟩, h⟩

theorem drain_iff (hw : Unwritten answers) :
    drain.Yields answers c () c' ↔ ∃ taken, pollOutcome.Repeats answers id c taken c' := by
  have loop : (drainUpTo (c.station.outbox.unresolvedCount + 1)).Yields answers c () c' ↔
      ∃ taken, pollOutcome.Repeats answers id c taken c' ∧ () = taken.foldr (fun _ _ => ()) () :=
    yields_iff_repeats drainUpTo_succ hw.poll_lowers (Nat.lt_succ_self _)
  apply hw.get_bind.trans
  apply loop.trans
  exact exists_congr fun _ => and_iff_left rfl

theorem deliver_iff (hw : Unwritten answers) {n : Nat} : deliver.Yields answers c n c' ↔
    ∃ handed, deliverNext.Repeats answers Option.isSome c handed c' ∧
      n = handed.count (some true) := by
  apply hw.get_bind.trans
  simp only [← foldr_count]
  exact yields_iff_repeats deliverUpTo_succ hw.turn_lowers (Nat.lt_succ_self _)

theorem settle_iff (hw : Unwritten answers) {n : Nat} :
    settle.Yields answers c n c' ↔ ∃ taken c₁ handed, pollOutcome.Repeats answers id c taken c₁ ∧
    deliverNext.Repeats answers Option.isSome c₁ handed c' ∧
      n = handed.count (some true) := by
  constructor
  · intro h
    obtain ⟨_, c₁, hdrain, hdeliver⟩ := yields_bind.mp h
    obtain ⟨taken, polls⟩ := hw.drain_iff.mp hdrain
    obtain ⟨handed, deliveries, hn⟩ := hw.deliver_iff.mp hdeliver
    exact ⟨taken, c₁, handed, polls, deliveries, hn⟩
  · rintro ⟨taken, c₁, handed, polls, deliveries, hn⟩
    exact yields_bind.mpr
      ⟨(), c₁, hw.drain_iff.mpr ⟨taken, polls⟩, hw.deliver_iff.mpr ⟨handed, deliveries, hn⟩⟩

theorem turn_none (hw : Unwritten answers) (granted : Lock.outbox.Granted answers)
    (free : .outbox ∉ c.held) (hc : c.station.outbox.ResolvedFirst)
    (h : deliverNext.Yields answers c none c') :
    ∀ e ∈ c'.station.outbox, e.isResolved = false := by
  obtain ⟨entry, c₁, h₁, h₂⟩ := yields_bind.mp h
  obtain ⟨got, c₂, lock, h₃⟩ := yields_bind.mp h₁
  obtain ⟨_, rfl, lock⟩ := yields_ask.mp lock
  obtain rfl := granted free lock
  obtain ⟨-, -, rfl⟩ | ⟨lost, -⟩ := hw.possible lock
  · obtain ⟨ready, c₃, hbody, h₄⟩ := yields_bind.mp h₃
    obtain ⟨_, c₄, release, rfl, rfl⟩ := yields_bind.mp h₄
    obtain ⟨_, -, release⟩ := yields_ask.mp release
    obtain rfl := hw.possible release
    obtain ⟨clock, c₅, hnow, hbody⟩ :=
      ends_bind.mp (ends_of_yields (fun _ _ _ _ => hw.possible) hbody)
    obtain ⟨_, -, within⟩ := ends_ask.mp hnow
    obtain ⟨rfl, rfl⟩ := ends_modifyGet.mp hbody
    have ordered : c₅.station.outbox.ResolvedFirst := Scene.Dwindles.resolvedFirst within hc
    cases next : (c₅.station.nextDelivery clock).1 with
    | none =>
      rw [next] at h₂
      obtain ⟨-, rfl⟩ := h₂
      exact ordered.isResolved_of_next_none next
    | some e =>
      rw [next] at h₂
      obtain ⟨_, _, _, h, -⟩ := yields_bind.mp h₂
      cases h
  · cases lost

theorem settlement (hw : Unwritten answers) (c : Scene) : Settlement answers c where
  settles := hw.settle_iff
  delivers := hw.deliver_iff
  polling := halts_of_lowers hw.poll_lowers c
  delivering := halts_of_lowers hw.turn_lowers c
  polled polls := repeats_length_le hw.poll_lowers polls
  handed {taken handed c₁ c'} polls deliveries := by
    have dwindles : c.Dwindles c₁ :=
      repeats_keeps Scene.Dwindles.trans (fun turn => (hw.poll turn).1) polls
    have := dwindles.length_le
    have := repeats_length_le hw.turn_lowers deliveries
    have := repeats_countP_lt deliveries
    have : handed.count (some true) ≤ handed.countP Option.isSome :=
      List.countP_mono_left fun delivered _ same => by rw [eq_of_beq same, Option.isSome_some]
    omega
  emptied granted free arises {handed c'} deliveries := by
    obtain ⟨c₁, delivered, ⟨free, ordered⟩, last, enough⟩ := repeats_last
      (P := fun c => .outbox ∉ c.held ∧ c.station.outbox.ResolvedFirst)
      (fun turn ⟨free, ordered⟩ =>
        ⟨(hw.turn turn).1.held ▸ free, (hw.turn turn).1.resolvedFirst ordered⟩)
      deliveries ⟨free, arises.resolvedFirst⟩
    obtain rfl : delivered = none := Option.not_isSome_iff_eq_none.mp (ne_true_of_eq_false enough)
    exact hw.turn_none granted free ordered last
  ends total := ⟨exists_repeats total (halts_of_lowers hw.poll_lowers c),
    exists_repeats total (halts_of_lowers hw.turn_lowers c)⟩

end Unwritten

/-- Entries that have their outcomes stand before all that wait, whatever comes to an outbox. If
nobody writes meanwhile, settling comes to its end among any surroundings, and takes no more turns
than there are entries to take. -/
theorem settling_ends :
    (∀ passed x, Dealings passed x → Outbox.Arises x.scene.station.outbox) ∧
    (∀ o, Outbox.Arises o → o.ResolvedFirst) ∧
    ∀ answers, Unwritten answers → ∀ c, Settlement answers c := by
  refine ⟨?_, ?_, ?_⟩
  · intro passed x dealings
    exact dealings.outbox_arises
  · intro o arises
    exact arises.resolvedFirst
  · intro answers hw c
    exact hw.settlement c

def relentless : (q : Query) → Scene → q.Answer × Scene
  | .outcome, c => (some .success, c.note (.reported .success))
  | q, c => Scene.oblige q c

def Relentless (q : Query) (c : Scene) (a : q.Answer) (c' : Scene) : Prop :=
      (a, c') = relentless q c

theorem unwritten_relentless : Unwritten Relentless where
  possible {q c a c'} h := by
    obtain ⟨rfl, rfl⟩ := Prod.mk.inj h
    cases q with
    | outcome => exact ⟨c, .refl c, rfl⟩
    | _ =>
      apply Scene.Answers.mono _ (answers_oblige _ c)
      rintro c c' rfl
      exact .refl c'
  seen c := congrArg (Prod.mk c.station) (access_id c).symm

theorem granted_relentless (lock : Lock) : lock.Granted Relentless := by
  intro c had c' free h
  change (had, c') = (if lock ∈ c.held then (false, c) else (true, c.lock lock)) at h
  rw [if_neg free] at h
  exact congrArg Prod.fst h

def twoWritten : Scene :=
  [Call.request 0x10 .physical (List.replicate 20 1) .diagnostics,
    .request 0x11 .physical (List.replicate 20 1) .diagnostics, .pacedTick].foldl
    (fun c call => Call.perform call c)
    { station := { settings := { source := 0xF1 }, budget := .ofBytes (64 * 1024) } }

def halfReported : Scene :=
  (twoWritten.note (.reported .success)).access fun s => (s.record .success).2

theorem settling_ends_relentless :
    halfReported.station.outbox.map (·.isResolved) = [true, false] ∧
    halfReported.station.outbox.ResolvedFirst ∧
    (∃ c', deliver.Yields Relentless halfReported 1 c' ∧ ∀ e ∈ c'.station.outbox,
      e.isResolved = false) ∧
    ∃ taken c₁ handed c', pollOutcome.Repeats Relentless id halfReported taken c₁ ∧
      taken.length ≤ 2 ∧ deliverNext.Repeats Relentless Option.isSome c₁ handed c' ∧
      handed.count (some true) = 2 := by
  have hreaches : Reaches { source := 0xF1 } twoWritten := reaches_perform rfl _
  obtain ⟨passed, hpassed⟩ := hreaches.dealings
  have hreported := hpassed.next (.call (.poll .success))
  obtain ⟨harises, hordered, hsettlement⟩ := settling_ends
  have arises : Outbox.Arises halfReported.station.outbox := harises _ _ hreported
  have s := hsettlement Relentless unwritten_relentless halfReported
  have answered (q : Query) (c : Scene) : Relentless q c (relentless q c).1 (relentless q c).2 :=
    rfl
  have delivered := yields_run answered deliver halfReported
  have settled := yields_run answered settle halfReported
  have one : (deliver.run relentless halfReported).1 = 1 := by decide
  have two : (settle.run relentless halfReported).1 = 2 := by decide
  rw [one] at delivered
  rw [two] at settled
  obtain ⟨handed, deliveries, -⟩ := s.delivers.mp delivered
  obtain ⟨taken, c₁, handed', polls, deliveries', hn⟩ := s.settles.mp settled
  refine ⟨by decide, hordered _ arises, ⟨_, delivered, ?_⟩, ?_⟩
  · exact s.emptied (granted_relentless .outbox) (by decide) arises deliveries
  · exact ⟨taken, c₁, handed', _, polls, s.polled polls, deliveries', hn.symm⟩

end Loops

end CanTransport
