import CanTransport.Proofs.Histories

/-! # Outcomes are known in the order of the entries

An outcome goes to the oldest entry without one, so entries that have theirs stand before all that
wait. Entries may be taken out from anywhere, when they are delivered, let go of or too old, and
nothing of this puts one that waits before one that does not.
-/
namespace CanTransport
open Station

namespace Outbox

/-- What becomes of an outbox at once, if nobody writes. -/
inductive Settles (o : Outbox) : Outbox → Prop
  | record (ack : Ack) : Settles o ((o.record? ack).getD o)
  | next (now : Micros) : Settles o (o.next now).2
  | release (address : Address) (now : Micros) : Settles o (o.release address now).2

/-- The outboxes that come of writing, polling, delivering and letting go, in any order and at any
time. That an endpoint is gone is not to be seen in its entries. -/
inductive Arises : Outbox → Prop
  | empty : Arises []
  | push {o : Outbox} (before : Arises o) (address : Address) (writer : EndpointId) :
    Arises (o.push address writer)
  | settle {o o' : Outbox} (before : Arises o) (settles : o.Settles o') : Arises o'

/-- No entry waits before one that has its outcome. -/
def ResolvedFirst (o : Outbox) : Prop :=
  o.Pairwise fun e e' => e'.isResolved = true → e.isResolved = true

variable {o o' : Outbox}

theorem record_cons (e : OutboxEntry) (o : Outbox) (ack : Ack) :
    (record? ack (e :: o)).getD (e :: o) =
    if e.isResolved then e :: (record? ack o).getD o else { e with outcome := some ack } :: o := by
  rw [record?]
  split
  · cases record? ack o <;> rfl
  · rfl

theorem length_record (o : Outbox) (ack : Ack) : ((o.record? ack).getD o).length = o.length := by
  induction o with
  | nil => rfl
  | cons e o ih =>
    rw [record_cons]
    split
    · rw [List.length_cons, List.length_cons, ih]
    · rfl

theorem ResolvedFirst.push (h : o.ResolvedFirst) (address : Address) (writer : EndpointId) :
    (o.push address writer).ResolvedFirst := by
  apply List.pairwise_append.mpr
  refine ⟨h, List.pairwise_singleton _ _, ?_⟩
  intro e _ e' he' resolved
  rw [List.mem_singleton.mp he'] at resolved
  cases resolved

theorem ResolvedFirst.record (h : o.ResolvedFirst) (ack : Ack) :
    ((o.record? ack).getD o).ResolvedFirst := by
  induction o with
  | nil => exact h
  | cons e o ih =>
    obtain ⟨head, tail⟩ := List.pairwise_cons.mp h
    rw [record_cons]
    split
    · next resolved =>
      apply List.pairwise_cons.mpr
      exact ⟨fun _ _ _ => resolved, ih tail⟩
    · apply List.pairwise_cons.mpr
      exact ⟨fun _ _ _ => rfl, tail⟩

theorem ResolvedFirst.next (h : o.ResolvedFirst) (now : Micros) : (o.next now).2.ResolvedFirst :=
  h.sublist (next_sublist o now)

theorem ResolvedFirst.release (h : o.ResolvedFirst) (address : Address) (now : Micros) :
    (o.release address now).2.ResolvedFirst := by
  obtain ⟨kept, f, he, hs, -, hf⟩ := release_eq o address now
  have same (e : OutboxEntry) : (f e).isResolved = e.isResolved := congrArg Option.isSome (hf e).1
  rw [he]
  apply List.pairwise_map.mpr
  apply (h.sublist hs).imp
  intro e e' implies
  rwa [same e, same e']

namespace Settles

theorem resolvedFirst (s : o.Settles o') (h : o.ResolvedFirst) : o'.ResolvedFirst := by
  cases s with
  | record ack => exact h.record ack
  | next now => exact h.next now
  | release address now => exact h.release address now

theorem unresolvedCount_le (s : o.Settles o') : o'.unresolvedCount ≤ o.unresolvedCount := by
  cases s with
  | record ack =>
    cases hr : o.record? ack with
    | none => exact Nat.le_refl _
    | some o' =>
      have := unresolvedCount_record hr
      rw [Option.getD_some]
      omega
  | next now => exact (next_sublist o now).countP_le
  | release address now =>
    obtain ⟨kept, f, he, -, hu, hf⟩ := release_eq o address now
    have same (e : OutboxEntry) : (f e).isResolved = e.isResolved := congrArg Option.isSome (hf e).1
    rw [he, ← hu, unresolvedCount, List.countP_map, unresolvedCount]
    apply Nat.le_of_eq
    apply List.countP_congr
    intro e _
    rw [Function.comp_apply, same]

theorem length_le (s : o.Settles o') : o'.length ≤ o.length := by
  cases s with
  | record ack => exact Nat.le_of_eq (length_record o ack)
  | next now => exact (next_sublist o now).length_le
  | release address now =>
    obtain ⟨kept, f, he, hs, -, -⟩ := release_eq o address now
    rw [he, List.length_map]
    exact hs.length_le

end Settles

theorem Arises.resolvedFirst (h : Arises o) : o.ResolvedFirst := by
  induction h with
  | empty => exact .nil
  | push _ address writer ih => exact ih.push address writer
  | settle _ settles ih => exact settles.resolvedFirst ih

theorem isResolved_of_pop?_none (h : o.ResolvedFirst) (hn : o.pop? = none) :
    ∀ e ∈ o, e.isDetached = false → e.isResolved = false := by
  induction o with
  | nil => exact fun e he => absurd he List.not_mem_nil
  | cons e₀ o ih =>
    obtain ⟨head, tail⟩ := List.pairwise_cons.mp h
    intro e he live
    rw [pop?] at hn
    split at hn
    · next detached =>
      rcases List.mem_cons.mp he with rfl | he
      · rw [detached] at live
        cases live
      · exact ih tail (Option.map_eq_none_iff.mp hn) e he live
    · split at hn
      · cases hn
      · next waits =>
        have waits : e₀.isResolved = false := Bool.eq_false_iff.mpr waits
        rcases List.mem_cons.mp he with rfl | he
        · exact waits
        · exact Bool.eq_false_iff.mpr fun resolved => absurd (head e he resolved)
            (ne_true_of_eq_false waits)

/-- Where no entry is ready, none that is left has its outcome. -/
theorem ResolvedFirst.isResolved_of_next_none (h : o.ResolvedFirst) {now : Micros}
    (hn : (o.next now).1 = none) :
    ∀ e ∈ (o.next now).2, e.isResolved = false := by
  have dropped : (o.dropSpent now).ResolvedFirst := h.sublist List.filter_sublist
  cases hp : (o.dropSpent now).pop? with
  | some p =>
    simp only [Outbox.next, hp] at hn
    cases hn
  | none =>
    simp only [Outbox.next, hp]
    intro e he
    have kept := (List.mem_filter.mp he).2
    cases detached : e.isDetached with
    | false => exact isResolved_of_pop?_none dropped hp e he detached
    | true =>
      obtain ⟨since, hd⟩ := Option.isSome_iff_exists.mp detached
      simp only [OutboxEntry.isSpent, hd, Option.any_some, Bool.not_or, Bool.and_eq_true,
        Bool.not_eq_true'] at kept
      exact kept.1

end Outbox

variable {passed : List Stage} {x y : Stage}

/-- All that a dealing can make of the outbox. -/
theorem Dealing.outbox (d : Dealing x y) :
    y.scene.station.outbox = x.scene.station.outbox ∨
      (∃ address writer, y.scene.station.outbox = x.scene.station.outbox.push address writer) ∨
      x.scene.station.outbox.Settles y.scene.station.outbox := by
  cases d with
  | call t =>
    cases t with
    | locks | configure | adjust | request | acknowledge | rest | announce | begin | finish
    | openReception | mark | tell =>
      exact .inl rfl
    | turnDown =>
      left
      rw [access_station, access_station, drop_outbox]
      rfl
    | start | retire | drop =>
      left
      simp
    | @poll c g ack =>
      right; right
      rw [access_station, note_station, record_outbox]
      exact .record ack
    | discard now => exact .inr (.inr (.next now))
    | @collect c g now => exact .inr (.inr (.next now))
    | accept address => exact .inr (.inl ⟨address, _, rfl⟩)
    | forget address now => exact .inr (.inr (.release address now))
  | make | rest | spend => exact .inl rfl
  | dismiss =>
    left
    simp

theorem Dealings.outbox_arises (h : Dealings passed x) : Outbox.Arises x.scene.station.outbox := by
  induction h with
  | start blank =>
    rw [blank.outbox]
    exact .empty
  | next _ d ih =>
    rcases d.outbox with same | ⟨address, writer, pushed⟩ | settles
    · rwa [same]
    · rw [pushed]
      exact ih.push address writer
    · exact ih.settle settles

end CanTransport
