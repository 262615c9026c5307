import Mathlib.Data.List.Nodup
import CanTransport.Proofs.InternalErrors
import CanTransport.Proofs.Outstanding

/-! # Outcomes come when they are waited for

Whatever is done to endpoints that share an outbox, an outcome is handed to an endpoint that waits
for one or is at its end, and it is that of a frame of its own. An internal error is therefore never
the fault of the order in which outcomes come.
-/
namespace CanTransport
open Station

structure Station.IsBlank (s : Station) : Prop where
  endpoints : s.endpoints = []
  pending : s.pending = []
  active : s.active = []
  finished : s.finished = []
  outbox : s.outbox = []

/-- Dealings one after the other, from a blank station on. The stages passed are listed, earliest
first. -/
inductive Dealings : List Stage → Stage → Prop
  | start {s : Station} (blank : s.IsBlank) : Dealings [] ⟨{ station := s }, {}⟩
  | next {passed : List Stage} {x y : Stage} (before : Dealings passed x) (d : Dealing x y) :
      Dealings (passed ++ [x]) y

def Endpoint.ReadyForOutcome : Endpoint → Prop
  | sender s => s.phase ∈ [.awaitSingleAck, .awaitFirstAck, .awaitConsecutiveAck, .sent, .failed]
  | receiver r => r.phase ∈ [.awaitFlowAck, .received, .failed]

namespace Stage

/-- From `a` to `b` an entry of the endpoint is taken out of the outbox, for its outcome to be
handed over. -/
structure Collects (a b : Stage) (id : EndpointId) (ack : Ack) : Prop where
  tasks : b.hand.tasks = .ack id ack :: a.hand.tasks
  entry : ∃ e now, a.scene.station.nextDelivery now = (some e, b.scene.station) ∧
    e.writer = some id ∧ e.outcome = some ack

/-- From `a` to `b` the endpoint is handed the outcome. -/
def Hands (a b : Stage) (id : EndpointId) (ack : Ack) : Prop :=
      a.hand.tasks = .ack id ack :: b.hand.tasks

/-- What an endpoint with an internal error has met with: it has been handed a failure that an entry
of its own had taken, or is a receiver whose first step was made without a frame. -/
inductive Blames (stages : List Stage) (id : EndpointId) : Prop
  | failure {before : List Stage} {a b c d : Stage} (collected : [a, b] <:+: before ++ [c])
      (own : a.Collects b id .failure) (handed : before ++ [c, d] <+: stages)
      (hands : c.Hands d id .failure)
  | frameless {a b : Stage} {q next : Receiver} {now : Micros} {outcome : StepOutcome}
      (passed : [a, b] <:+: stages) (found : a.scene.station.endpoint? id = some (.receiver q))
      (first : q.phase = .fresh)
      (step : (q.step now none a.scene.station.budget).1 = .rest next outcome)
      (ended : b.scene.station.endpoint? id = some (.receiver next))

/-- What is known of every stage. -/
structure Regular (x : Stage) : Prop where
  orderly : Orderly x
  single : x.Single
  tidy : Holds Endpoint.Tidy x
  sendable : Holds Endpoint.Sendable x

end Stage

variable {passed : List Stage} {x y a b : Stage} {id : EndpointId} {ack : Ack} {r : Endpoint}

theorem Stage.Blames.mono {stages more : List Stage} (h : Blames stages id) (hs : stages <+: more) :
    Blames more id := by
  cases h with
  | failure collected own handed hands => exact .failure collected own (handed.trans hs) hands
  | frameless passed found first step ended =>
    exact .frameless (passed.trans hs.isInfix) found first step ended

namespace Endpoint

theorem Silent.ready (h : r.Silent) (tidy : r.Tidy) : r.ReadyForOutcome := by
  cases r with
  | sender s =>
    rcases h with waiting | latched
    · change s.awaitsOutcome = true at waiting
      cases phase : s.phase <;> simp_all [ReadyForOutcome, Sender.awaitsOutcome]
    · obtain ⟨result, hr⟩ := Option.ne_none_iff_exists'.mp latched
      obtain ⟨-, hp | hp⟩ := Sender.Tidy.ended tidy hr <;> simp [ReadyForOutcome, hp]
  | receiver q =>
    rcases h with waiting | latched
    · have hp : q.phase = .awaitFlowAck := of_decide_eq_true waiting
      simp [ReadyForOutcome, hp]
    · obtain ⟨result, hr⟩ := Option.ne_none_iff_exists'.mp latched
      obtain ⟨-, hp | hp⟩ := Receiver.Tidy.ended tidy hr <;> simp [ReadyForOutcome, hp]

theorem IsNew.result (h : r.IsNew) : r.result = none := by
  cases h with
  | sender created =>
    obtain rfl := Sender.create_ok created
    rfl
  | receiver => rfl

theorem Setter.result {change : Endpoint → Endpoint} (h : Setter change) (r : Endpoint) :
    (change r).result = r.result := by
  cases h <;> cases r <;> rfl

end Endpoint

theorem Stage.regular_of_blank {s : Station} (h : s.IsBlank) :
    Stage.Regular ⟨{ station := s }, {}⟩ := by
  have hnone (id : EndpointId) : s.endpoint? id = none := by rw [endpoint?, h.endpoints]; rfl
  have hzero (id : EndpointId) : owed ⟨{ station := s }, {}⟩ id = 0 := by
    change s.outbox.writtenBy id + 0 = 0
    rw [h.outbox]
    rfl
  have holds {Q : Endpoint → Prop} : Stage.Holds Q ⟨{ station := s }, {}⟩ :=
    ⟨fun id r hr => absurd (hr.symm.trans (hnone id)) (Option.some_ne_none r), fun b hb =>
      absurd hb List.not_mem_nil⟩
  refine ⟨⟨fun p hp => ?_, fun g hg => ?_, fun b hb => absurd hb List.not_mem_nil⟩,
    ⟨fun id h => ?_, fun id => ?_, .nil, fun id r hr => ?_, fun b hb => absurd hb List.not_mem_nil⟩,
    holds, holds⟩
  · rw [h.endpoints] at hp
    cases hp
  · simp [Stage.handles, h.pending, h.active, h.finished, ActiveSet.handles] at hg
  · exact absurd h (by rw [hzero]; exact Nat.lt_irrefl 0)
  · rw [hzero]
    exact Nat.zero_le 1
  · exact absurd (hr.symm.trans (hnone id)) (Option.some_ne_none r)

namespace Dealing

theorem regular (d : Dealing x y) (h : x.Regular) : y.Regular where
  orderly := (d.follows h.orderly).orderly
  single := h.single.deal d h.orderly
  tidy := h.tidy.deal Endpoint.kept_tidy d h.orderly
  sendable := h.sendable.deal Endpoint.kept_sendable d h.orderly

/-- What is in hand grows or shrinks by one thing at a time; an outcome in hand has been collected.
-/
theorem collects (d : Dealing x y) (h : .ack id ack ∈ y.hand.tasks) :
    .ack id ack ∈ x.hand.tasks ∨ x.Collects y id ack := by
  cases d with
  | call t =>
    cases t with
    | @collect c g now e i ack' ready writer outcome =>
      rcases List.mem_cons.mp h with h | h
      · cases h
        exact .inr ⟨rfl, e, now, Prod.ext ready rfl, writer, outcome⟩
      · exact .inl h
    | acknowledge now under => exact .inl (under ▸ List.mem_cons_of_mem _ h)
    | begin => exact .inl (by simpa using h)
    | accept address under =>
      refine .inl (under ▸ List.mem_cons_of_mem _ ?_)
      simpa using h
    | finish after under => exact .inl (under ▸ List.mem_cons_of_mem _ h)
    | locks | configure | adjust | request | turnDown | poll | discard | start | rest | announce
    | openReception | mark
    | retire | forget | tell | drop => exact .inl h
  | make | rest | dismiss | spend => exact .inl h

theorem hands (d : Dealing x y) (h : x.Hands y id ack) :
    ∃ now, y.scene.station = x.scene.station.modifyEndpoint id (·.onAck now ack) := by
  have hlonger {g g' : Hand} (hg : ∃ more, g'.tasks = more ++ g.tasks) : g.tasks ≠
      .ack id ack :: g'.tasks := by
    obtain ⟨more, hg⟩ := hg
    exact fun h => absurd (congrArg List.length h) (by simp [hg]; omega)
  cases d with
  | call t =>
    cases t with
    | acknowledge now under =>
      cases under.symm.trans h
      exact ⟨now, rfl⟩
    | finish after under => cases under.symm.trans h
    | accept address under => exact absurd (congrArg List.length (under.symm.trans h)) (by simp)
    | collect | begin => exact absurd h (hlonger ⟨[_], rfl⟩)
    | locks | configure | adjust | request | turnDown | poll | discard | start | rest | announce
    | openReception | mark
    | retire | forget | tell | drop => exact absurd h (hlonger ⟨[], rfl⟩)
  | make | rest | dismiss | spend => exact absurd h (hlonger ⟨[], rfl⟩)

end Dealing

/-- Whose outcome is in hand waits for it or is at its end. -/
theorem Stage.Regular.ready (h : x.Regular) (hand : .ack id ack ∈ x.hand.tasks)
    (found : x.scene.station.endpoint? id = some r) : r.Silent := by
  have howed : 0 < x.owed id := by
    refine Nat.add_pos_right _ (List.countP_pos_iff.mpr ⟨_, hand, ?_⟩)
    simp [Task.acks]
  refine (h.single.silent id r found howed).resolve_left ?_
  rintro ⟨b, hb, hid⟩
  have same : (Task.step b) = .ack id ack := List.inj_on_of_nodup_map h.single.apart hb hand hid
  cases same

namespace Dealings

theorem regular (h : Dealings passed x) : x.Regular := by
  induction h with
  | start blank => exact Stage.regular_of_blank blank
  | next _ d ih => exact d.regular ih

theorem between (h : Dealings passed x) (hab : [a, b] <:+: passed ++ [x]) :
    ∃ before, Dealings before a ∧ Dealing a b ∧ before ++ [a, b] <+: passed ++ [x] := by
  induction h with
  | start => exact absurd hab.length_le (by simp)
  | @next passed x y before d ih =>
    rcases List.infix_concat_iff.mp hab with hab | hab
    · obtain ⟨t, hpair, ht⟩ := (List.suffix_concat_iff.mp hab).resolve_left nofun
      obtain ⟨rfl, rfl⟩ : t = [a] ∧ b = y := by
        have hpair : [a] ++ [b] = t ++ [y] := hpair
        obtain ⟨ht, hb⟩ := List.append_inj' hpair rfl
        exact ⟨ht.symm, List.singleton_inj.mp hb⟩
      obtain ⟨u, hlast, -⟩ := (List.suffix_concat_iff.mp ht).resolve_left nofun
      obtain rfl : a = x := by simpa using congrArg List.getLast? hlast
      exact ⟨passed, before, d, by simp⟩
    · obtain ⟨earlier, hearlier, d', hprefix⟩ := ih hab
      exact ⟨earlier, hearlier, d', hprefix.trans (List.prefix_append _ _)⟩

/-- An outcome in hand has been collected from an entry of the endpoint. -/
theorem collected (h : Dealings passed x) (hand : .ack id ack ∈ x.hand.tasks) :
    ∃ a b, [a, b] <:+: passed ++ [x] ∧ a.Collects b id ack := by
  induction h with
  | start => cases hand
  | @next passed x y before d ih =>
    rcases d.collects hand with hand | own
    · obtain ⟨a, b, hab, own⟩ := ih hand
      exact ⟨a, b, hab.trans (List.prefix_append _ _).isInfix, own⟩
    · exact ⟨x, y, ⟨passed, [], by simp⟩, own⟩

/-- An internal error comes of a failure of the endpoint's own frame, or of a first step without a
frame. -/
theorem blames (h : Dealings passed x) (found : x.scene.station.endpoint? id = some r)
    (internal : r.result = some (.error .internal)) : Stage.Blames (passed ++ [x]) id := by
  induction h generalizing r with
  | start blank =>
    rw [endpoint?, blank.endpoints] at found
    cases found
  | @next passed x y before d ih =>
    have hx := before.regular
    have hlast : passed ++ [x] <+: passed ++ [x] ++ [y] := List.prefix_append _ _
    cases d.evolves hx.orderly found with
    | stays found => exact (ih found internal).mono hlast
    | new _ new => exact absurd (internal.symm.trans new.result) (Option.some_ne_none _)
    | set found setter next =>
      rw [next, setter.result] at internal
      exact (ih found internal).mono hlast
    | @steps r₀ now frame outcome idle found₀ rests =>
      -- running, it can only have been asked for its first frame, without one; what is over stays as it is
      by_cases running : r₀.result = none
      · obtain ⟨q, rfl, first, rfl⟩ :=
          Endpoint.step_internal (hx.sendable.stored _ _ found₀) running rests internal
        obtain ⟨q', hq, rfl⟩ := Endpoint.map_eq_rest rests
        exact .frameless ⟨passed, [], by simp⟩ found₀ first hq found
      · obtain ⟨result, latched⟩ := Option.ne_none_iff_exists'.mp running
        rw [Endpoint.step_latched latched] at rests
        cases rests
        exact (ih found₀ internal).mono hlast
    | @ends b under own after next =>
      rw [next] at internal
      exact absurd internal (Endpoint.write_not_internal b.writes b.accepted after)
    | @learns r₀ ack under found₀ now next =>
      have hand : .ack id ack ∈ x.hand.tasks := under ▸ List.mem_cons_self
      by_cases before₀ : r₀.result = some (.error .internal)
      · exact (ih found₀ before₀).mono hlast
      · rw [next] at internal
        obtain rfl := Endpoint.onAck_internal (hx.tidy.stored _ _ found₀)
            (hx.ready hand found₀) before₀ internal
        obtain ⟨a, b, hab, own⟩ := before.collected hand
        exact .failure hab own (by simp) under

theorem path (h : Dealings passed x) (p : Path x y) : ∃ more, Dealings (passed ++ more) y := by
  induction p with
  | refl => exact ⟨[], by rwa [List.append_nil]⟩
  | tail _ t ih =>
    obtain ⟨more, hmore⟩ := ih
    exact ⟨more ++ [_], by rw [← List.append_assoc]; exact hmore.next (.call t)⟩

end Dealings
end CanTransport
