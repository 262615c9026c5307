import CanTransport.Proofs.Accounts

/-! # Every transition keeps the accounts

Endpoints stand as their frames and outcomes tell, except while a step of theirs is in progress.
-/
namespace CanTransport

def Hand.Unstepped (g : Hand) (id : EndpointId) : Prop := ∀ b, .step b ∈ g.tasks → b.id ≠ id

/-- Every endpoint stands as its frames tell, except while a step of it is in progress. -/
structure Balanced (x : Stage) : Prop where
  kept : Keeps (ticketsIn x.scene.events) x.scene.station.outbox
  paired : (outcomesIn x.scene.events).length ≤ (writesIn x.scene.events).length
  written_lt : ∀ id, framesOf id x.scene.events ≠ [] → id < x.scene.station.fresh
  admitted_lt : ∀ id address message kind, .admitted id address message kind ∈ x.scene.events →
    id < x.scene.station.fresh
  nodup : x.hand.busy.Nodup
  tasks : ∀ t ∈ x.hand.tasks, t.Sound x.scene
  described : ∀ id r, x.scene.station.endpoint? id = some r → Described x.scene id r
  accounted : ∀ id r, x.scene.station.endpoint? id = some r → x.hand.Unstepped id →
    Accounted x.scene id r
  settled : ∀ id, Confirmed x.scene id → Settled x.scene id ∧ x.hand.Unstepped id

variable {x y : Stage} {c : Scene} {g : Hand} {id : EndpointId} {r : Endpoint}

theorem Hand.unstepped_of_idle (h : id ∉ g.busy) : g.Unstepped id :=
  fun _ hb he => h (he ▸ List.mem_map.mpr ⟨_, hb, rfl⟩)

/-- Where nothing is written, and endpoints stay as they are or are let go of. -/
theorem Balanced.calm (hx : Balanced x) (hs : ∀ id, Still id x.scene y.scene)
    (hk : Keeps (ticketsIn y.scene.events) y.scene.station.outbox)
    (hp : (outcomesIn y.scene.events).length ≤ (writesIn y.scene.events).length)
    (hf : x.scene.station.fresh ≤ y.scene.station.fresh)
    (he : ∀ id r, y.scene.station.endpoint? id = some r → x.scene.station.endpoint? id = some r)
    (hn : y.hand.busy.Nodup) (hall : ∀ t ∈ x.hand.tasks, t ∈ y.hand.tasks)
    (hnew : ∀ t ∈ y.hand.tasks, t ∈ x.hand.tasks ∨ t.Sound y.scene)
    (hfree : ∀ id, Confirmed x.scene id → x.hand.Unstepped id → y.hand.Unstepped id)
    (hc : ∀ id, Confirmed y.scene id → Confirmed x.scene id ∨ Settled y.scene id ∧
      y.hand.Unstepped id) :
    Balanced y where
  kept := hk
  paired := hp
  written_lt id hw := Nat.lt_of_lt_of_le (hx.written_lt id ((hs id).frames ▸ hw)) hf
  admitted_lt id _ _ _ hadm :=
    Nat.lt_of_lt_of_le (hx.admitted_lt id _ _ _ ((hs id).admitted _ _ _ hadm)) hf
  nodup := hn
  tasks t ht := (hnew t ht).elim (fun ht => (hx.tasks t ht).still (hs t.id)) id
  described id r hr := (hx.described id r (he id r hr)).still (hs id)
  accounted id r hr hu :=
    (hx.accounted id r (he id r hr) fun b hb => hu b (hall _ hb)).still (hs id)
  settled id hy := by
    rcases hc id hy with hc | hc
    · obtain ⟨hold, hu⟩ := hx.settled id hc
      exact ⟨hold.still (hs id) hf (he id), hfree id hc hu⟩
    · exact hc

theorem Balanced.quiet (hx : Balanced x) (hs : ∀ id, Still id x.scene y.scene)
    (hk : Keeps (ticketsIn y.scene.events) y.scene.station.outbox)
    (hp : (outcomesIn y.scene.events).length ≤ (writesIn y.scene.events).length)
    (hf : x.scene.station.fresh ≤ y.scene.station.fresh)
    (he : ∀ id r, y.scene.station.endpoint? id = some r → x.scene.station.endpoint? id = some r)
    (ht : y.hand.tasks = x.hand.tasks) (hc : ∀ id, Confirmed y.scene id → Confirmed x.scene id) :
    Balanced y := by
  refine hx.calm hs hk hp hf he ?_ (fun t h => ht ▸ h) (fun t h => .inl (ht ▸ h)) ?_ fun id hy =>
    .inl (hc id hy)
  · rw [Hand.busy, ht]
    exact hx.nodup
  · intro id _ hu b hb
    exact hu b (ht ▸ hb)

/-- Where one endpoint changes, and what was in hand about it is done. -/
theorem Balanced.modify {f : Endpoint → Endpoint} (hx : Balanced x)
    (hev : y.scene.events = x.scene.events) (hout : y.scene.station.outbox = x.scene.station.outbox)
    (hf : y.scene.station.fresh = x.scene.station.fresh) (hget : ∀ i, y.scene.station.endpoint? i =
      (x.scene.station.endpoint? i).map fun r => if i = id then f r else r)
    (hsub : y.hand.tasks.Sublist x.hand.tasks)
    (hfree : ∀ b, .step b ∈ x.hand.tasks → b.id = id ∨ .step b ∈ y.hand.tasks)
    (hd : ∀ r, x.scene.station.endpoint? id = some r → Described x.scene id (f r))
    (ha : ∀ r, x.scene.station.endpoint? id = some r → y.hand.Unstepped id →
      Accounted x.scene id (f r))
    (ho : Confirmed x.scene id → ∀ s, x.scene.station.endpoint? id = some (.sender s) →
      s.phase = .sent → s.result ≠ none → f (.sender s) = .sender s) : Balanced y := by
  have hs : ∀ i, Still i x.scene y.scene := fun i => .of_eq hout hev
  have hget : ∀ i r', y.scene.station.endpoint? i = some r' →
      ∃ r, x.scene.station.endpoint? i = some r ∧ (if i = id then f r else r) = r' := by
    intro i r' hr'
    rw [hget] at hr'
    exact Option.map_eq_some_iff.mp hr'
  constructor
  case kept =>
    rw [hev, hout]
    exact hx.kept
  case paired =>
    rw [hev]
    exact hx.paired
  case written_lt =>
    rw [hev, hf]
    exact hx.written_lt
  case admitted_lt =>
    rw [hev, hf]
    exact hx.admitted_lt
  case nodup => exact (hsub.map _).nodup hx.nodup
  case tasks =>
    intro t ht
    exact (hx.tasks t (hsub.subset ht)).still (hs _)
  case described =>
    intro i r' hr'
    obtain ⟨r, hr, rfl⟩ := hget i r' hr'
    split
    · next hi =>
      subst hi
      exact (hd r hr).still (hs i)
    · exact (hx.described i r hr).still (hs i)
  case accounted =>
    intro i r' hr' hu
    obtain ⟨r, hr, rfl⟩ := hget i r' hr'
    split
    · next hi =>
      subst hi
      exact (ha r hr hu).still (hs i)
    · next hi =>
      refine (hx.accounted i r hr fun b hb => ?_).still (hs i)
      rcases hfree b hb with he | hb
      · intro hi'
        exact hi (hi' ▸ he)
      · exact hu b hb
  case settled =>
    intro i hc
    have hc : Confirmed x.scene i := by rwa [Confirmed, hev] at hc
    obtain ⟨hold, hu⟩ := hx.settled i hc
    refine ⟨hold.still (hs i) (Nat.le_of_eq hf.symm) fun r' hr' => ?_, fun b hb =>
      hu b (hsub.subset hb)⟩
    obtain ⟨r, hr, rfl⟩ := hget i r' hr'
    obtain ⟨s, rfl, hp, hres⟩ := hold.spent r hr
    split
    · next hi =>
      subst hi
      rw [ho hc s hr hp hres]
      exact hr
    · exact hr

theorem Balanced.framesOf_fresh (hx : Balanced x) :
    framesOf x.scene.station.fresh x.scene.events = [] :=
  Classical.byContradiction fun hne => Nat.lt_irrefl _ (hx.written_lt _ hne)

theorem Balanced.unlisted_fresh (hx : Balanced x) :
    ∀ e ∈ x.scene.station.outbox, e.writer ≠ some x.scene.station.fresh := by
  intro e hmem hwr
  obtain ⟨before, hb⟩ := hx.kept.last hmem hwr
  have hnil : outcomesOf x.scene.station.fresh x.scene.events = [] :=
    outcomesOf_eq_nil hx.framesOf_fresh
  rw [outcomesOf, hb] at hnil
  simp at hnil

theorem Balanced.idle_fresh (hx : Balanced x) (ho : Orderly x) :
    ∀ t ∈ x.hand.tasks, t.id ≠ x.scene.station.fresh := by
  intro t ht
  cases t with
  | step b => exact Nat.ne_of_lt (ho.begun b ht).1
  | ack id a =>
    rintro rfl
    have hlast := (hx.tasks _ ht).2
    have hnil : outcomesOf x.scene.station.fresh x.scene.events = [] :=
      outcomesOf_eq_nil hx.framesOf_fresh
    rw [hnil] at hlast
    cases hlast

theorem Balanced.adopt (hx : Balanced x) (ho : Orderly x)
    (hs : ∀ id, id ≠ x.scene.station.fresh → Still id x.scene y.scene)
    (hout : y.scene.station.outbox = x.scene.station.outbox)
    (hw : writesIn y.scene.events = writesIn x.scene.events)
    (hout' : outcomesIn y.scene.events = outcomesIn x.scene.events)
    (hf : y.scene.station.fresh = x.scene.station.fresh + 1)
    (hadm : ∀ id address message kind, .admitted id address message kind ∈ y.scene.events →
      id < x.scene.station.fresh ∨ id = x.scene.station.fresh ∧ ∃ s, r = .sender s ∧
      s.subject = (address, message, kind))
    (hem : ∀ s, r = .sender s → s.Emitted [])
    (he : ∀ i, y.scene.station.endpoint? i = if i = x.scene.station.fresh then some r else
      x.scene.station.endpoint? i)
    (hh : y.hand = x.hand) (hc : ∀ id, Confirmed y.scene id → Confirmed x.scene id) :
    Balanced y := by
  have hframes : ∀ i, framesOf i y.scene.events = framesOf i x.scene.events :=
    fun i => by rw [framesOf, hw, framesOf]
  have htickets : ticketsIn y.scene.events = ticketsIn x.scene.events := by
    rw [ticketsIn, hw, hout', ticketsIn]
  have hold : framesOf x.scene.station.fresh y.scene.events = [] :=
    (hframes _).trans hx.framesOf_fresh
  constructor
  case kept =>
    rw [htickets, hout]
    exact hx.kept
  case paired =>
    rw [hw, hout']
    exact hx.paired
  case written_lt =>
    intro i hi
    rw [hframes] at hi
    exact hf ▸ Nat.lt_succ_of_lt (hx.written_lt i hi)
  case admitted_lt =>
    intro i _ _ _ hi
    rcases hadm i _ _ _ hi with hi | ⟨rfl, -⟩
    · exact hf ▸ Nat.lt_succ_of_lt hi
    · exact hf ▸ Nat.lt_succ_self _
  case nodup =>
    rw [hh]
    exact hx.nodup
  case tasks =>
    intro t ht
    rw [hh] at ht
    exact (hx.tasks t ht).still (hs _ (hx.idle_fresh ho t ht))
  case described =>
    intro i r' hr'
    rw [he] at hr'
    split at hr'
    · next hi =>
      cases hr'
      intro address message kind hmem
      exact ((hadm i _ _ _ hmem).resolve_left (hi ▸ Nat.lt_irrefl _)).2
    · next hi => exact (hx.described i r' hr').still (hs i hi)
  case accounted =>
    intro i r' hr' hu
    rw [he] at hr'
    split at hr'
    · next hi =>
      cases hr'
      subst hi
      constructor
      · intro e hmem hwr
        exact absurd hwr (hx.unlisted_fresh e (hout ▸ hmem))
      · intro s hr
        rw [hold]
        exact hem s hr
      · intro s _ _ k hk
        rw [outcomesOf_eq_nil hold] at hk
        simp at hk
    · next hi =>
      rw [hh] at hu
      exact (hx.accounted i r' hr' hu).still (hs i hi)
  case settled =>
    intro i hy
    obtain ⟨hset, hu⟩ := hx.settled i (hc i hy)
    have hi : i ≠ x.scene.station.fresh := Nat.ne_of_lt hset.lt
    refine ⟨hset.still (hs i hi) (hf ▸ Nat.le_succ _) fun r' hr' => ?_, hh ▸ hu⟩
    rwa [he, if_neg hi] at hr'

open Station in
theorem Balanced.poll {a : Ack} (hx : Balanced ⟨c, g⟩)
    (hf : (outcomesIn c.events).length < (writesIn c.events).length) :
    Balanced ⟨(c.note (.reported a)).access fun s => (s.record a).2, g⟩ := by
  have hw : writesIn (c.events ++ [.reported a]) = writesIn c.events :=
    writesIn_append_of_none _ rfl
  have ht : ticketsIn (c.events ++ [.reported a]) = resolve a (ticketsIn c.events) := by
    rw [ticketsIn, hw, outcomesIn_append]
    exact tickets_resolve hf a
  have ho : (c.station.record a).2.outbox = (c.station.outbox.record? a).getD c.station.outbox := by
    rw [record_outbox]
  have hfresh : (c.station.record a).2.fresh = c.station.fresh := by
    rw [record_outbox]
  refine hx.quiet (fun i => ?_) ?_ ?_ (Nat.le_of_eq hfresh.symm) (fun i r hr => ?_) rfl ?_
  · constructor
    · intro e hmem hid
      obtain ⟨e', hmem', hid'⟩ := Outbox.mem_record (ho ▸ hmem)
      exact ⟨e', hmem', hid'.trans hid⟩
    · exact congrArg (fun ws => (List.filter (·.1 = i) ws).map (·.2)) hw
    · change (((ticketsIn (c.events ++ [.reported a])).filter _).map _).length = _
      rw [ht]
      exact (resolve_filter a i _).1
    · intro k b hk
      change (((ticketsIn (c.events ++ [.reported a])).filter _).map _)[k]? = _
      rw [ht]
      exact (resolve_filter a i _).2 k b hk
    · intro address message kind hadm
      simpa [Scene.access, Scene.note] using hadm
  · change Keeps (ticketsIn (c.events ++ [.reported a])) (c.station.record a).2.outbox
    rw [ht, ho]
    exact hx.kept.record a
  · change (outcomesIn (c.events ++ [.reported a])).length ≤
      (writesIn (c.events ++ [.reported a])).length
    rw [hw, outcomesIn_append, List.length_append]
    exact hf
  · rwa [access_station, note_station, endpoint?_record] at hr
  · rintro i ⟨address, kind, hmem⟩
    exact ⟨address, kind, by simpa [Scene.access, Scene.note] using hmem⟩

theorem kept_note {e : Event} (h : Keeps (ticketsIn c.events) c.station.outbox)
    (hw : e.write? = none) (ho : e.outcome? = none) :
    Keeps (ticketsIn (c.note e).events) (c.note e).station.outbox := by
  rw [Scene.note, ticketsIn, writesIn_append_of_none _ hw, outcomesIn_append_of_none _ ho]
  exact h

theorem paired_note {e : Event} (h : (outcomesIn c.events).length ≤ (writesIn c.events).length)
    (hw : e.write? = none) (ho : e.outcome? = none) :
    (outcomesIn (c.note e).events).length ≤ (writesIn (c.note e).events).length := by
  rw [Scene.note, writesIn_append_of_none _ hw, outcomesIn_append_of_none _ ho]
  exact h

theorem Balanced.release {o : Outbox} (hx : Balanced ⟨c, g⟩)
    (hk : Keeps (ticketsIn c.events) o)
    (ho : ∀ e ∈ o, ∀ i, e.writer = some i → ∃ e ∈ c.station.outbox, e.writer = some i) :
    Balanced ⟨c.access fun s => { s with outbox := o }, g⟩ := by
  refine hx.quiet (fun i => .release rfl fun e he hi => ho e he i hi) hk hx.paired (Nat.le_refl _)
    (fun i r hr => hr) rfl fun i hc => hc

theorem Balanced.collect {now : Micros} {entry : OutboxEntry} {a : Ack} (hx : Balanced ⟨c, g⟩)
    (hk : Keeps (ticketsIn c.events) (c.station.outbox.next now).2)
    (ready : (c.station.outbox.next now).1 = some entry) (writer : entry.writer = some id)
    (outcome : entry.outcome = some a) (idle : id ∉ g.busy) :
    Balanced ⟨c.access fun s => (s.nextDelivery now).2,
      { g with tasks := .ack id a :: g.tasks }⟩ := by
  obtain ⟨hmem, -, hlast⟩ := Outbox.next_eq_some ready
  have hs : ∀ i, Still i c (c.access fun s => (s.nextDelivery now).2) := fun i =>
    .release rfl fun e he hi => ⟨e, (Outbox.next_sublist _ now).subset he, hi⟩
  refine hx.calm hs hk hx.paired (Nat.le_refl _)
    (fun i r hr => hr) ?_ (fun t ht => List.mem_cons_of_mem _ ht) ?_ ?_ fun i hc => .inl hc
  · exact List.nodup_cons.mpr ⟨idle, hx.nodup⟩
  · intro t ht
    rcases List.mem_cons.mp ht with rfl | ht
    · refine .inr ⟨fun e he => hlast hx.kept.pairwise id writer e he, ?_⟩
      obtain ⟨before, hb⟩ := hx.kept.last hmem writer
      change (((ticketsIn c.events).filter _).map _).getLast? = _
      rw [hb, List.getLast?_append, outcome]
      rfl
    · exact .inl ht
  · intro i _ hu b hb
    exact hu b (by simpa using hb)

/-- A step that offers a frame is taken in hand. -/
theorem Balanced.begin (hx : Balanced ⟨c, g⟩) (b : Begun) (idle : b.id ∉ g.busy)
    (found : c.station.endpoint? b.id = some b.origin) (fresh : b.accepted = false) :
    Balanced ⟨c.access (·.setBudget (b.origin.step b.clock b.input b.budget).2),
      { g with tasks := .step b :: g.tasks }⟩ := by
  have hs : ∀ i, Still i c (c.access (·.setBudget (b.origin.step b.clock b.input b.budget).2)) :=
    fun i => .of_eq rfl rfl
  have hfree : g.Unstepped b.id := Hand.unstepped_of_idle idle
  refine hx.calm hs hx.kept hx.paired (Nat.le_refl _)
    (fun i r hr => hr) ?_ (fun t ht => List.mem_cons_of_mem _ ht) ?_ ?_ fun i hc => .inl hc
  · exact List.nodup_cons.mpr ⟨idle, hx.nodup⟩
  · intro t ht
    rcases List.mem_cons.mp ht with rfl | ht
    · refine .inr ⟨(hx.described _ _ found).still (hs _), fun _ =>
        (hx.accounted _ _ found hfree).still (hs _), ?_⟩
      rw [fresh]
      exact nofun
    · exact .inl ht
  · intro i hc hu b' hb'
    rcases List.mem_cons.mp hb' with hb' | hb'
    · cases hb'
      rintro rfl
      obtain ⟨s, hr, -, hres⟩ := (hx.settled _ hc).1.spent _ found
      refine (Endpoint.step_writes b.writes).1 (.inr ?_)
      rw [hr]
      exact hres
    · exact hu b' hb'

open Station in
theorem Balanced.accept {b : Begun} {tasks : List Task} (hx : Balanced ⟨c, g⟩) (ho : Orderly ⟨c, g⟩)
    (address : Address) (under : g.tasks = .step b :: tasks) (offered : b.accepted = false) :
    Balanced ⟨(c.note (.accepted b.id b.frame)).access fun s =>
      { s with outbox := s.outbox.push address b.id },
        { g with tasks := .step { b with accepted := true } :: tasks }⟩ := by
  obtain ⟨hdesc, hacc, -⟩ := hx.tasks (.step b) (under ▸ List.mem_cons_self)
  have hnodup := hx.nodup
  rw [Hand.busy, under, List.map_cons, List.nodup_cons] at hnodup
  have hother : ∀ t ∈ tasks, t.id ≠ b.id := fun t ht he => hnodup.1 (List.mem_map.mpr ⟨t, ht, he⟩)
  have hadm : ∀ i address message kind, .admitted i address message kind ∈ c.events ++
      [.accepted b.id b.frame] →
      .admitted i address message kind ∈ c.events := by
    intro i address message kind hmem
    simpa using hmem
  have hs : ∀ i, i ≠ b.id → Still i c
      ((c.note (.accepted b.id b.frame)).access fun s =>
        { s with outbox := s.outbox.push address b.id }) :=
    fun i hi => .accept hi hx.paired b.frame address
  constructor
  case kept =>
    change Keeps (ticketsIn (c.events ++ [.accepted b.id b.frame]))
      (c.station.outbox.push address b.id)
    rw [ticketsIn_accepted hx.paired]
    exact hx.kept.push ((hacc offered).unwritten b.writes) address
  case paired =>
    change (outcomesIn (c.events ++ [_])).length ≤
      (writesIn (c.events ++ [.accepted b.id b.frame])).length
    rw [writesIn_accepted, outcomesIn_append_of_none _ rfl, List.length_append]
    exact Nat.le_succ_of_le hx.paired
  case written_lt =>
    intro i hi
    by_cases hb : b.id = i
    · exact hb ▸ (ho.begun b (under ▸ List.mem_cons_self)).1
    · exact hx.written_lt i ((hs i (Ne.symm hb)).frames ▸ hi)
  case admitted_lt =>
    intro i _ _ _ hmem
    exact hx.admitted_lt i _ _ _ (hadm i _ _ _ hmem)
  case nodup => exact List.nodup_cons.mpr hnodup
  case tasks =>
    intro t hmem
    rcases List.mem_cons.mp hmem with rfl | hmem
    · refine ⟨fun a m k h => hdesc a m k (hadm _ _ _ _ h), fun hf =>
        Bool.noConfusion hf, fun _ after => ?_⟩
      refine (hacc offered).accept b.writes ((framesOf_accepted _ _ _ _).trans ?_)
        ((outcomesOf_accepted hx.paired _ _ _).trans ?_)
      · rw [if_pos rfl]
      · rw [if_pos rfl]
    · exact (hx.tasks t (under ▸ List.mem_cons_of_mem _ hmem)).still (hs _ (hother t hmem))
  case described =>
    intro i r hr a m k h
    exact hx.described i r hr a m k (hadm i _ _ _ h)
  case accounted =>
    intro i r hr hu
    have hi : b.id ≠ i := hu { b with accepted := true } List.mem_cons_self
    refine (hx.accounted i r hr fun b' hb' => ?_).still (hs i (Ne.symm hi))
    rw [under] at hb'
    rcases List.mem_cons.mp hb' with hb' | hb'
    · cases hb'
      exact hi
    · exact hu b' (List.mem_cons_of_mem _ hb')
  case settled =>
    rintro i ⟨n, k, hmem⟩
    have hmem : .told i (.confirm n (.ok ()) k) ∈ c.events ++ [.accepted b.id b.frame] := hmem
    obtain ⟨hset, hu⟩ := hx.settled i ⟨n, k, by simpa using hmem⟩
    have hi : b.id ≠ i := hu b (under ▸ List.mem_cons_self)
    refine ⟨hset.still (hs i (Ne.symm hi)) (Nat.le_refl _) fun r hr => hr, fun b' hb' => ?_⟩
    rcases List.mem_cons.mp hb' with hb' | hb'
    · cases hb'
      exact hi
    · exact hu b' (under ▸ List.mem_cons_of_mem _ hb')

/-- What is said to succeed has succeeded. -/
theorem Balanced.tell {h : Handle} {untold : List Handle} {seen : Option Endpoint}
    (hx : Balanced ⟨c, g⟩) (sight : seen = none ∨ seen = c.station.endpoint? h.id ∧ h.id ∉ g.busy)
    (ho : Orderly ⟨c, g⟩) :
    Balanced ⟨c.note (.told h.id (Station.completion h seen)),
      { g with untold, told := g.told ++ [h] }⟩ := by
  have hs : ∀ i, Still i c (c.note (.told h.id (Station.completion h seen))) :=
    fun i => .note rfl rfl (by simp) rfl rfl
  refine hx.calm hs ?_ ?_ (Nat.le_refl _) (fun i r hr => hr) hx.nodup (fun t ht => ht)
    (fun t ht => .inl ht) (fun i _ hu => hu) ?_
  · exact kept_note hx.kept rfl rfl
  · exact paired_note hx.paired rfl rfl
  · rintro i ⟨n, k, hmem⟩
    rcases List.mem_append.mp hmem with hmem | hmem
    · exact .inl ⟨n, k, hmem⟩
    · right
      obtain ⟨rfl, hc⟩ : i = h.id ∧ Notice.confirm n (.ok ()) k = Station.completion h seen := by
        simpa using hmem
      obtain ⟨s, rfl, hres⟩ := Station.completion_success hc
      obtain ⟨hfound, hidle⟩ := sight.resolve_left nofun
      have hu : g.Unstepped h.id := Hand.unstepped_of_idle hidle
      have hset := (hx.accounted h.id _ hfound.symm hu).settled (hx.described _ _ hfound.symm)
          ho.numbered hfound.symm hres
      exact ⟨hset.still (hs _) (Nat.le_refl _) fun r hr => hr, hu⟩

theorem Balanced.acknowledge {a : Ack} {tasks : List Task} (hx : Balanced ⟨c, g⟩) (now : Micros)
    (under : g.tasks = .ack id a :: tasks) :
    Balanced ⟨c.access (·.modifyEndpoint id (·.onAck now a)), { g with tasks }⟩ := by
  have hsound : Task.Sound c (.ack id a) := hx.tasks _ (under ▸ List.mem_cons_self)
  refine hx.modify rfl rfl rfl (Station.endpoint?_modifyEndpoint _ _ · _)
    (under ▸ List.sublist_cons_self _ _) ?_ ?_ ?_ ?_
  · intro b hb
    rw [under] at hb
    exact .inr (by simpa using hb)
  · intro r hr
    apply (hx.described id r hr).follow
    intro s hs
    subst hs
    exact ⟨_, rfl, s.subject_onAck now a⟩
  · intro r hr hu
    refine (hx.accounted id r hr fun b hb => ?_).acknowledge hsound now
    rw [under] at hb
    exact hu b (by simpa using hb)
  · intro _ s _ hp _
    simp [Endpoint.onAck, Sender.onAck, hp]

theorem Balanced.finish {b : Begun} {tasks : List Task} (hx : Balanced ⟨c, g⟩) (after : Micros)
    (under : g.tasks = .step b :: tasks) :
    Balanced ⟨c.access (·.modifyEndpoint b.id fun _ => (b.next b.accepted after).1),
      { g with tasks }⟩ := by
  obtain ⟨hdesc, hoffered, htaken⟩ := hx.tasks (.step b) (under ▸ List.mem_cons_self)
  refine hx.modify rfl rfl rfl (Station.endpoint?_modifyEndpoint _ _ · _)
    (under ▸ List.sublist_cons_self _ _) ?_ ?_ ?_ ?_
  · intro b' hb'
    rw [under] at hb'
    rcases List.mem_cons.mp hb' with hb' | hb'
    · cases hb'
      exact .inl rfl
    · exact .inr hb'
  · intro _ _
    have hstep := hdesc.step b.clock after b.input b.budget b.accepted
    rwa [b.writes] at hstep
  · intro _ _ _
    cases hb : b.accepted with
    | true => exact htaken hb after
    | false => exact (hoffered hb).refuse b.writes
  · intro hc
    exact absurd rfl ((hx.settled b.id hc).2 b (under ▸ List.mem_cons_self))

theorem Balanced.rest {next : Endpoint} {frame : Option Frame} {now : Micros}
    {outcome : StepOutcome} {budget : Budget} (hx : Balanced ⟨c, g⟩) (idle : id ∉ g.busy)
    (found : c.station.endpoint? id = some r)
    (rests : r.step now frame c.station.budget = (.rest next outcome, budget)) :
    Balanced ⟨c.access fun s => (s.setBudget budget).modifyEndpoint id fun _ => next, g⟩ := by
  have hfree : g.Unstepped id := Hand.unstepped_of_idle idle
  have hmove : (r.step now frame c.station.budget).1 = .rest next outcome := by rw [rests]
  refine hx.modify rfl rfl rfl (Station.endpoint?_modifyEndpoint (c.station.setBudget budget) _ · _)
    (.refl _) (fun b hb => .inr hb) ?_ ?_ ?_
  · intro r' hr'
    have hstep := (hx.described id r found).step now now frame c.station.budget true
    rwa [hmove] at hstep
  · intro _ _ _
    exact (hx.accounted id r found hfree).rest hmove
  · intro _ s hs _ hres
    rw [found] at hs
    cases hs
    obtain ⟨res, hres⟩ := Option.ne_none_iff_exists'.mp hres
    obtain ⟨s', hm, rfl⟩ := Endpoint.map_eq_rest hmove
    rw [Sender.step, hres] at hm
    cases hm
    rfl

theorem Station.endpoint?_of_dropAll {s : Station} {handles : List Handle}
    (h : (s.dropAll handles).endpoint? id = some r) :
    s.endpoint? id = some r := by
  unfold dropAll at h
  induction handles generalizing s with
  | nil => exact h
  | cons g rest ih =>
    have hd := ih h
    rw [endpoint?_drop] at hd
    split at hd
    · cases hd
    · exact hd

theorem Balanced.rearrange (hx : Balanced x) (hev : y.scene.events = x.scene.events)
    (hout : y.scene.station.outbox = x.scene.station.outbox)
    (hf : x.scene.station.fresh ≤ y.scene.station.fresh)
    (he : ∀ id r, y.scene.station.endpoint? id = some r → x.scene.station.endpoint? id = some r)
    (ht : y.hand.tasks = x.hand.tasks) : Balanced y := by
  refine hx.quiet (fun i => .of_eq hout hev) ?_ ?_ hf he ht fun i hc => ?_
  · rw [hev, hout]
    exact hx.kept
  · rw [hev]
    exact hx.paired
  · rwa [Confirmed, hev] at hc

theorem Balanced.announce (hx : Balanced ⟨c, g⟩) (source : EndpointId)
    (address : Address) (length : Nat) (kind : MessageType) :
    Balanced ⟨c.note (.told source (.firstFrame address length kind)), g⟩ := by
  refine hx.quiet (fun i => .note rfl rfl (by simp) rfl rfl) (kept_note hx.kept rfl rfl)
    (paired_note hx.paired rfl rfl) (Nat.le_refl _) (fun i r hr => hr) rfl ?_
  rintro i ⟨n, k, hmem⟩
  exact ⟨n, k, by simpa [Scene.note] using hmem⟩

theorem Balanced.adjust {change : Endpoint → Endpoint} (hx : Balanced ⟨c, g⟩) (idle : id ∉ g.busy)
    (setter : Endpoint.Setter change) : Balanced ⟨c.access (·.modifyEndpoint id change), g⟩ := by
  refine hx.modify rfl rfl rfl (Station.endpoint?_modifyEndpoint _ _ · _) (.refl _)
    (fun b hb => .inr hb) ?_ ?_ ?_
  · intro r hr
    refine (hx.described id r hr).follow fun s hs => ⟨s, ?_, rfl⟩
    subst hs
    exact setter.sender s
  · intro r hr _
    exact (hx.accounted id r hr (Hand.unstepped_of_idle idle)).adjust setter
  · intro _ s _ _ _
    exact setter.sender s

theorem Balanced.forget (hx : Balanced ⟨c, g⟩) (address : Address) (now : Micros) :
    Balanced ⟨c.access fun s => (s.releaseEntries address now).2, g⟩ := by
  obtain ⟨kept, f, he, hs, hu, hw⟩ := Outbox.release_eq c.station.outbox address now
  have hall := hx.release (o := kept.map f) ((hx.kept.sublist hs hu).map hw) fun e hmem i hi => by
    obtain ⟨e', he', rfl⟩ := List.mem_map.mp hmem
    refine ⟨e', hs.subset he', ?_⟩
    rcases (hw e').2 with hw | hw
    · exact hw ▸ hi
    · rw [hw] at hi
      cases hi
  rw [← he] at hall
  exact hall

open Station in
theorem Balanced.turnDown (hx : Balanced ⟨c, g⟩) (hn : c.station.Numbered)
    (sender : Sender) (rest : Budget) :
    Balanced ⟨(c.access fun s => (s.adopt (.sender sender) rest).2).access (·.drop c.station.fresh),
      g⟩ := by
  refine hx.rearrange rfl ?_ ?_ (fun i r hr => ?_) rfl
  · rw [access_station, access_station, drop_outbox]
    rfl
  · rw [access_station, access_station, fresh_drop]
    exact Nat.le_succ _
  · rw [access_station, access_station, endpoint?_drop, endpoint?_adopt hn] at hr
    split at hr
    · cases hr
    · exact hr

open Station in
theorem Balanced.request {sender : Sender} {rest : Budget} {address : Address}
    {message : List UInt8} {kind : MessageType} {waitLimit : Option UInt8} (hx : Balanced ⟨c, g⟩)
    (ho : Orderly ⟨c, g⟩)
    (created : Sender.create address message kind waitLimit c.station.budget = .ok (sender, rest)) :
    Balanced ⟨((c.access fun s => (s.adopt (.sender sender) rest).2).access
      (·.enqueue ((Endpoint.sender sender).handle c.station.fresh))).note
        (.admitted c.station.fresh address message kind), g⟩ := by
  have hsub := Sender.subject_create created
  have hem : ∀ s, Endpoint.sender sender = .sender s → s.Emitted [] := by
    rintro s ⟨⟩
    exact Sender.emitted_of_create created
  refine hx.adopt (r := .sender sender) ho ?_ rfl (writesIn_append_of_none _ rfl)
    (outcomesIn_append_of_none _ rfl) rfl ?_ hem (endpoint?_adopt ho.numbered _ rest) rfl ?_
  · intro i hi
    refine .note rfl rfl ?_ rfl rfl
    rintro a m k ⟨⟩
    exact hi rfl
  · intro i a m k hmem
    rcases List.mem_append.mp hmem with hmem | hmem
    · exact .inl (hx.admitted_lt i a m k hmem)
    · cases List.mem_singleton.mp hmem
      exact .inr ⟨rfl, sender, rfl, hsub⟩
  · rintro i ⟨n, k, hmem⟩
    exact ⟨n, k, by simpa [Scene.access, Scene.note] using hmem⟩

open Station in
theorem Balanced.step (t : Transition x y) (ho : Orderly x) (hf : Attributable y.scene.events)
    (hl : y.scene.lapsed = false) (hx : Balanced x) : Balanced y := by
  cases t with
  | locks | configure | mark => exact hx.rearrange rfl rfl (Nat.le_refl _) (fun i r hr => hr) rfl
  | start | retire =>
    exact hx.rearrange rfl (by simp) (by simp) (fun i r hr => by simpa using hr) rfl
  | drop => exact hx.rearrange rfl (by simp) (by simp) (fun i r hr => endpoint?_of_dropAll hr) rfl
  | adjust idle setter => exact hx.adjust idle setter
  | @poll c g ack => exact hx.poll (hf c.events ack [] rfl)
  | @discard c g now =>
    have hg : Outbox.givesUp c.station.outbox (c.station.outbox.next now).2 = false :=
      (Bool.or_eq_false_iff.mp hl).2
    have hs := Outbox.next_sublist c.station.outbox now
    exact hx.release (hx.kept.sublist hs (Keeps.unresolvedCount_of_sublist hs hg))
      fun e he i hi => ⟨e, hs.subset he, hi⟩
  | @collect c g now entry id ack ready writer outcome idle =>
    have hg : Outbox.givesUp c.station.outbox (c.station.outbox.next now).2 = false :=
      (Bool.or_eq_false_iff.mp hl).2
    have hs := Outbox.next_sublist c.station.outbox now
    exact hx.collect (hx.kept.sublist hs (Keeps.unresolvedCount_of_sublist hs hg))
      ready writer outcome idle
  | forget address now => exact hx.forget address now
  | acknowledge now under => exact hx.acknowledge now under
  | rest idle found rests => exact hx.rest idle found rests
  | announce idle found rests => exact (hx.rest idle found rests).announce _ _ _ _
  | begin b idle found budget fresh => exact hx.begin b idle found fresh
  | accept address under offered => exact hx.accept ho address under offered
  | finish after under => exact hx.finish after under
  | tell next sight => exact hx.tell sight ho
  | turnDown sender rest => exact hx.turnDown ho.numbered sender rest
  | request created => exact hx.request ho created
  | @openReception c g receiver rest address blockSize separation quiet created =>
    have hem : ∀ s, Endpoint.receiver receiver = .sender s → s.Emitted [] := by
      rintro s ⟨⟩
    refine hx.adopt (r := .receiver receiver) ho (fun i _ => .of_eq rfl rfl) rfl rfl rfl rfl ?_ hem
      (endpoint?_adopt ho.numbered _ rest) rfl fun i hc => hc
    intro i _ _ _ hmem
    exact .inl (hx.admitted_lt i _ _ _ hmem)

end CanTransport
