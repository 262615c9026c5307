import Mathlib.Data.List.Perm.Subperm
import CanTransport.Proofs.Housing
import CanTransport.Proofs.Stages
import CanTransport.Proofs.Histories

/-! # Frames outstanding

At every stage of a run an endpoint has at most one frame outstanding and is ready for its outcome.
Between calls there are no more of them than running conversations, as long as the outbox can be
locked whenever a conversation that is over lets go of it.
-/
namespace CanTransport
open CanTransport.Action Station

/-- What is so of dealings that have led through these stages to `x`. -/
structure OneFrame (passed : List Stage) (x : Stage) : Prop where
  once : ∀ id, x.owed id ≤ 1
  /-- While its step is not at its end, an endpoint is still as it was when it wrote. -/
  waits : ∀ id r, x.scene.station.endpoint? id = some r → 0 < x.owed id →
    x.Stepping id ∨ r.ReadyForOutcome
  /-- The outcome handed over is that of an entry of the endpoint, and the endpoint is ready for it.
  -/
  handed : ∀ a b id ack, [a, b] <:+: passed ++ [x] → a.Hands b id ack →
    (∃ c d, [c, d] <:+: passed ++ [x] ∧ c.Collects d id ack) ∧
      ∀ r, a.scene.station.endpoint? id = some r →
        r.ReadyForOutcome ∧ ∃ now, b.scene.station.endpoint? id = some (r.onAck now ack)
  blamed : ∀ id r, x.scene.station.endpoint? id = some r → r.result = some (.error .internal) →
    Stage.Blames (passed ++ [x]) id

variable {passed : List Stage} {x : Stage} {s : Station} {c c' : Scene}

theorem Dealings.oneFrame (h : Dealings passed x) : OneFrame passed x where
  once := h.regular.single.once
  waits id r found howed := (h.regular.single.silent id r found howed).imp_right fun silent =>
    silent.ready (h.regular.tidy.stored id r found)
  handed a b id ack hab hands := by
    obtain ⟨before, ha, d, hprefix⟩ := h.between hab
    have hand : .ack id ack ∈ a.hand.tasks := by
      rw [hands]
      exact List.mem_cons_self
    obtain ⟨c, d', hcd, collects⟩ := ha.collected hand
    refine ⟨⟨c, d', ?_, collects⟩, fun r found => ⟨?_, ?_⟩⟩
    · refine hcd.trans (List.IsPrefix.trans ⟨[b], ?_⟩ hprefix).isInfix
      rw [List.append_assoc]
      rfl
    · exact (ha.regular.ready hand found).ready (ha.regular.tidy.stored id r found)
    · obtain ⟨now, hb⟩ := d.hands hands
      refine ⟨now, ?_⟩
      rw [hb, endpoint?_modifyEndpoint, found, Option.map_some, if_pos rfl]
  blamed id r found internal := h.blames found internal

namespace Station

/-- Where nobody has written twice, no more entries count than conversations run. -/
theorem liveCount_le (hs : s.Houses []) (hone : ∀ id, s.outbox.writtenBy id ≤ 1) :
    s.outbox.liveCount ≤ s.active.length := by
  let live := s.outbox.filter (!·.isDetached)
  have housed (e : OutboxEntry) (he : e ∈ live) : ∃ h ∈ s.active.handles, e.writer = some h.id := by
    obtain ⟨hmem, hlive⟩ := List.mem_filter.mp he
    simpa using hs e hmem (by simpa using hlive)
  have hnodup : (live.map (·.writer)).Nodup := by
    refine List.nodup_iff_count_le_one.mpr fun writer => ?_
    by_cases hmem : writer ∈ live.map (·.writer)
    · obtain ⟨e, he, rfl⟩ := List.mem_map.mp hmem
      obtain ⟨h, -, hw⟩ := housed e he
      rw [hw, List.count, List.countP_map]
      refine Nat.le_trans ?_ (hone h.id)
      refine Nat.le_trans (List.filter_sublist.countP_le) (List.countP_mono_left fun e' _ hw' => ?_)
      simpa using hw'
    · rw [List.count_eq_zero.mpr hmem]
      exact Nat.zero_le 1
  have hsub : live.map (·.writer) ⊆ s.active.handles.map fun h => some h.id := by
    intro writer hmem
    obtain ⟨e, he, rfl⟩ := List.mem_map.mp hmem
    obtain ⟨h, hh, hw⟩ := housed e he
    exact List.mem_map.mpr ⟨h, hh, hw.symm⟩
  calc s.outbox.liveCount = (live.map (·.writer)).length := by
        rw [List.length_map]
        exact List.countP_eq_length_filter
    _ ≤ (s.active.handles.map fun h => some h.id).length :=
      (List.subperm_of_subset hnodup hsub).length_le
    _ = s.active.length := by rw [List.length_map, ActiveSet.handles, List.length_map]

theorem kept_of_config {config : Config} (h : ofConfig config = .ok s) :
    Kept {} { station := s } where
  fits := ⟨orderly_of_config h, fun _ hid => absurd hid List.not_mem_nil, .inr ⟨rfl, rfl⟩⟩
  accounted := Reaches.accounted ⟨s, 0, h, rfl⟩
  owned := (Reaches.inOrder ⟨s, 0, h, rfl⟩).owned

/-- Between calls every entry that counts belongs to a conversation that runs. -/
theorem houses_of_unhindered {config : Config} {depth : Nat} (hs : ofConfig config = .ok s)
    (h : Unhindered depth { station := s } c) : c.station.Houses [] := by
  refine unhindered_keepsHouses depth {} _ c (kept_of_config hs) List.not_mem_nil (fun e he => ?_) h
  obtain ⟨-, rfl⟩ := ofConfig_eq hs
  cases he

theorem unacknowledgedCount_le {config : Config} {depth frames running : Nat} {c₁ c₂ : Scene}
    {inner : Scene → Scene → Prop} (hs : ofConfig config = .ok s)
    (h : Unhindered depth { station := s } c)
    (hframes : unacknowledgedCount.Ends inner c (.ok frames) c₁)
    (hrunning : activeCount.Ends inner c₁ (.ok running) c₂) :
    frames ≤ running := by
  obtain ⟨rfl, hframes⟩ := ends_read hframes
  obtain ⟨-, hrunning⟩ := ends_read hrunning
  obtain ⟨passed, hpassed⟩ := Reaches.dealings ⟨s, depth, hs, unhindered_episode depth _ c₁ h⟩
  rw [hframes _ rfl, hrunning _ rfl]
  exact liveCount_le (houses_of_unhindered hs h) fun id => hpassed.regular.single.once id

end Station

/-- At every stage of a run of a station, and of what is made of endpoints that share an outbox, an
endpoint has at most one frame outstanding and waits for its outcome or does not care; it is handed
that of a frame of its own, and an internal error has its cause there or in a first step without a
frame. Between calls what counts as unacknowledged belongs to conversations that run, so there is
not more of it, as long as the lock of the outbox is always had. -/
theorem one_frame_outstanding :
    (∀ passed x, Dealings passed x → OneFrame passed x) ∧
    (∀ c, (∃ config, Reaches config c) ∨ HandDriven c →
      (∃ passed, Dealings passed ⟨c, {}⟩) ∧
        ∀ id r, c.station.endpoint? id = some r →
          c.station.outbox.writtenBy id ≤ 1 ∧
          (0 < c.station.outbox.writtenBy id → r.ReadyForOutcome)) ∧
    ∀ config s depth c, ofConfig config = .ok s → Unhindered depth { station := s } c →
      (∀ e ∈ c.station.outbox, e.isDetached = false → ∃ h ∈ c.station.active.handles,
        e.writer = some h.id) ∧ ∀ inner frames running c₁ c₂, unacknowledgedCount.Ends
        inner c (.ok frames) c₁ →
          activeCount.Ends inner c₁ (.ok running) c₂ → frames ≤ running := by
  refine ⟨fun passed x h => h.oneFrame, fun c h => ?_, fun config s depth c hs h =>
    ⟨fun e he live => ?_, ?_⟩⟩
  · obtain ⟨passed, hpassed⟩ : ∃ passed, Dealings passed ⟨c, {}⟩ := by
      rcases h with ⟨config, h⟩ | h
      · exact h.dealings
      · exact h.dealings
    refine ⟨⟨passed, hpassed⟩, fun id r found => ⟨hpassed.oneFrame.once id, fun hwritten => ?_⟩⟩
    refine (hpassed.oneFrame.waits id r found hwritten).resolve_left ?_
    rintro ⟨b, hb, -⟩
    cases hb
  · simpa using houses_of_unhindered hs h e he live
  · exact fun inner frames running c₁ c₂ => unacknowledgedCount_le hs h

def Program.freely {α : Type} : Action α → Scene → Bool
  | .done _, _ => true
  | .ask q next, c =>
    (match q with
      | .acquire .outbox => decide (.outbox ∉ c.held)
      | _ => true) && (next (Scene.oblige q c).1).freely (Scene.oblige q c).2

theorem Action.yields_oblige {α : Type} (p : Action α) (c : Scene) (h : p.freely c = true) :
    p.Yields (Scene.Serves (Unhindered 0)) c (p.run Scene.oblige c).1 (p.run Scene.oblige c).2 := by
  induction p generalizing c with
  | done value => exact ⟨rfl, rfl⟩
  | ask q next ih =>
    obtain ⟨hq, hp⟩ := Bool.and_eq_true_iff.mp h
    refine ⟨_, _, ⟨answers_oblige q c, ?_⟩, ih _ _ hp⟩
    cases q with
    | acquire lock =>
      cases lock with
      | outbox =>
        have hfree : .outbox ∉ c.held := of_decide_eq_true hq
        change (if Lock.outbox ∈ c.held then (false, c) else (true, c.lock .outbox)).1 = true
        rw [if_neg hfree]
      | _ => trivial
    | _ => trivial

namespace Station

def Use.obliged (c : Scene) (u : Use) : Scene :=
  let made := u.action.run Scene.oblige c
  { made.2 with events := made.2.events ++ u.record c.station made.1 }

theorem Unhindered.obliged {s : Station} {c : Scene} (h : Unhindered 1 { station := s } c) (u : Use)
    (free : u.action.freely c = true) : Unhindered 1 { station := s } (u.obliged c) :=
  Relation.ReflTransGen.tail h ⟨u, _, _, yields_oblige u.action c free, rfl⟩

end Station

def firstWritten : Scene :=
  [Use.request 0x10 .physical (List.replicate 20 1) .diagnostics, .pacedTick].foldl Use.obliged
    { station := { settings := { source := 0xF1 }, budget := .ofBytes (64 * 1024) } }

theorem unhindered_firstWritten :
    Unhindered 1 { station := { settings := { source := 0xF1 }, budget := .ofBytes (64 * 1024) } }
      firstWritten :=
  .obliged (.obliged .refl _ rfl) .pacedTick rfl

def offering : Begun where
  id := 0
  origin := .sender
    { address := .physical 0x10 0xF1, kind := .diagnostics, message := [1], waitLimit := none, phase := .sendSingle }
  clock := 0
  input := none
  budget := ⟨1000 - 1 - labelBytes⟩
  frame := _
  next := _
  writes := rfl

theorem dealings_refused : ∃ passed x r, Dealings passed x ∧ x.scene.station.endpoint? 0 = some r ∧
    r.result = some (.error .internal) := by
  have start : Dealings []
      ⟨{ station := { settings := { source := 0xF1 }, budget := ⟨1000⟩ } }, {}⟩ :=
    .start ⟨rfl, rfl, rfl, rfl, rfl⟩
  have created : Sender.create (.physical 0x10 0xF1) [1] .diagnostics none ⟨1000⟩ =
      .ok (_, ⟨1000 - 1 - labelBytes⟩) := rfl
  have made := start.next (.make ⟨1000 - 1 - labelBytes⟩ (.sender created))
  have begun := made.next (.call (.begin offering List.not_mem_nil rfl rfl rfl))
  have accepted := begun.next (.call (.accept (.physical 0x10 0xF1) rfl rfl rfl))
  have finished := accepted.next (.call (.finish 0 rfl))
  have reported := finished.next (.call (.poll .failure))
  have collected :=
    reported.next (.call (@Transition.collect _ _ 0 _ _ _ rfl rfl rfl List.not_mem_nil))
  have handed := collected.next (.call (.acknowledge 0 rfl))
  exact ⟨_, _, _, handed, rfl, rfl⟩

theorem one_frame_outstanding_refused :
    (∃ passed x r, Dealings passed x ∧ x.scene.station.endpoint? 0 = some r ∧
      r.result = some (.error .internal) ∧ Stage.Blames (passed ++ [x]) 0) ∧
    firstWritten.station.outbox.writtenBy 0 = 1 ∧
    (∃ r, firstWritten.station.endpoint? 0 = some r ∧ r.ReadyForOutcome) ∧
    (∀ e ∈ firstWritten.station.outbox, e.isDetached = false →
      ∃ h ∈ firstWritten.station.active.handles, e.writer = some h.id) ∧
    firstWritten.station.outbox.liveCount ≤ firstWritten.station.active.length := by
  have hconfig : ofConfig { source := 0xF1 } =
      .ok { settings := { source := 0xF1 }, budget := .ofBytes (64 * 1024) } := rfl
  have hreaches : Reaches { source := 0xF1 } firstWritten :=
    ⟨_, 1, hconfig, unhindered_episode 1 _ _ unhindered_firstWritten⟩
  obtain ⟨passed, x, r, history, found, internal⟩ := dealings_refused
  obtain ⟨hstages, hbetween, hhoused⟩ := one_frame_outstanding
  obtain ⟨-, hready⟩ := hbetween firstWritten (.inl ⟨_, hreaches⟩)
  obtain ⟨hentries, hcounts⟩ := hhoused _ _ 1 firstWritten hconfig unhindered_firstWritten
  refine ⟨⟨passed, x, r, history, found, internal, (hstages passed x history).blamed 0 r found
    internal⟩, rfl, ?_, hentries, ?_⟩
  · exact ⟨_, rfl, (hready 0 _ rfl).2 (by decide)⟩
  · exact hcounts (Episode 0) _ _ firstWritten firstWritten (ends_run answers_oblige _ _)
      (ends_run answers_oblige _ _)

end CanTransport
