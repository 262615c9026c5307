import CanTransport.Proofs.Queueing

/-! # Requests accepted, confirmed, running and waiting

While a tick reports what is over, the conversations still to be reported stand between those
confirmed and the one that runs.
-/
namespace CanTransport

/-- Every handle taken is in one place, under a number of its own. -/
structure Custody (x : Stage) : Prop where
  nodup : ((x.hand.untold ++ x.scene.station.custody).map (·.id)).Nodup
  unconfirmed : ∀ h ∈ x.hand.untold ++ x.scene.station.custody, ∀ p ∈ x.scene.confirmed, h.id ≠ p.1
  told : ∀ h ∈ x.hand.told, ∀ g ∈ x.scene.station.custody, h.id ≠ g.id
  live : ∀ h ∈ x.scene.station.custody, x.scene.station.Live h

/-- How requests accepted, confirmed, running and waiting stand to each other. -/
structure Ledger (x : Stage) : Prop where
  order : ∀ n, x.scene.admittedOn n =
    x.scene.confirmedOn n ++ sendersOn n x.hand.untold ++ x.scene.station.ordersOn n
  admitted_nodup : (x.scene.admitted.map (·.1)).Nodup
  admitted_lt : ∀ p ∈ x.scene.admitted, p.1 < x.scene.station.fresh
  confirmed_nodup : (x.scene.confirmed.map (·.1)).Nodup
  confirmed_lt : ∀ p ∈ x.scene.confirmed, p.1 < x.scene.station.fresh
  custody : Custody x
  senders : ∀ h ∈ x.scene.station.pending, h.role = .sender
  keyed : ∀ p ∈ x.scene.station.active, p.2.address = p.1

variable {x y : Stage} {c : Scene} {g : Hand}

theorem Station.Live.descend {s s' : Station} {h : Handle} (hl : s.Live h)
    (hn : s.Numbered) (hd : s.Descends s') (hs : (s'.endpoint? h.id).isSome) : s'.Live h := by
  obtain ⟨r, hr, hh⟩ := hl
  obtain ⟨r', hr'⟩ := Option.isSome_iff_exists.mp hs
  obtain ⟨r₀, hr₀, hh'⟩ := hd.2 h.id (hn.lt hr) r' hr'
  rw [hr, Option.some.injEq] at hr₀
  exact ⟨r', hr', by rw [hh', ← hr₀, hh]⟩

theorem Custody.move (hx : Custody x) (ho : Orderly x)
    (hd : x.scene.station.Descends y.scene.station)
    (hn : ((y.hand.untold ++ y.scene.station.custody).map (·.id)).Nodup)
    (hm : ∀ h ∈ y.hand.untold ++ y.scene.station.custody, h ∈ x.hand.untold ++
      x.scene.station.custody)
    (hc : ∀ h ∈ y.scene.station.custody, h ∈ x.scene.station.custody)
    (hconf : y.scene.confirmed = x.scene.confirmed) (ht : ∀ h ∈ y.hand.told, h ∈ x.hand.told)
    (hs : ∀ h ∈ y.scene.station.custody, (x.scene.station.endpoint? h.id).isSome →
      (y.scene.station.endpoint? h.id).isSome) : Custody y where
  nodup := hn
  unconfirmed h hh := hconf ▸ hx.unconfirmed h (hm h hh)
  told h hh h' hh' := hx.told h (ht h hh) h' (hc h' hh')
  live h hh := by
    obtain ⟨r, hr, -⟩ := hx.live h (hc h hh)
    exact (hx.live h (hc h hh)).descend ho.numbered hd (hs h hh (by rw [hr]; rfl))

theorem Custody.adopt {r : Endpoint} (hx : Custody x) (ho : Orderly x)
    (hlt : ∀ p ∈ x.scene.confirmed, p.1 < x.scene.station.fresh)
    (hd : x.scene.station.Descends y.scene.station) (hu : y.hand.untold = x.hand.untold)
    (hc : y.scene.station.custody.Perm
      (x.scene.station.custody ++ [r.handle x.scene.station.fresh]))
    (hconf : y.scene.confirmed = x.scene.confirmed) (ht : y.hand.told = x.hand.told)
    (hs : ∀ i, y.scene.station.endpoint? i =
      if i = x.scene.station.fresh then some r else x.scene.station.endpoint? i) : Custody y := by
  have hold : ∀ h ∈ x.hand.untold ++ x.scene.station.custody, h.id < x.scene.station.fresh := by
    intro h hh
    refine (ho.genuine h (Stage.mem_handles.mpr ?_)).1
    simp only [Station.custody, List.mem_append] at hh
    grind
  have hnew : ∀ h ∈ y.scene.station.custody, h ∈ x.scene.station.custody ∨
      h = r.handle x.scene.station.fresh := by
    intro h hh
    simpa using hc.mem_iff.mp hh
  have hperm : (y.hand.untold ++ y.scene.station.custody).Perm
      (x.hand.untold ++ x.scene.station.custody ++ [r.handle x.scene.station.fresh]) := by
    rw [hu, List.append_assoc]
    exact hc.append_left _
  constructor
  · apply (hperm.map _).nodup_iff.mpr
    rw [List.map_append, List.nodup_append]
    refine ⟨hx.nodup, by simp, fun id hid id' hid' => ?_⟩
    obtain ⟨h, hh, rfl⟩ := List.mem_map.mp hid
    obtain rfl : id' = x.scene.station.fresh := by simpa [Endpoint.handle] using hid'
    exact Nat.ne_of_lt (hold h hh)
  · intro h hh p hp
    rw [hconf] at hp
    rcases List.mem_append.mp (hperm.mem_iff.mp hh) with hh | hh
    · exact hx.unconfirmed h hh p hp
    · rw [List.mem_singleton.mp hh]
      exact Nat.ne_of_gt (hlt p hp)
  · intro h hh h' hh'
    rw [ht] at hh
    rcases hnew h' hh' with hh' | rfl
    · exact hx.told h hh h' hh'
    · exact Nat.ne_of_lt (ho.genuine h (Stage.mem_handles.mpr (.inr (.inr (.inr (.inr hh)))))).1
  · intro h hh
    rcases hnew h hh with hh | rfl
    · apply (hx.live h hh).descend ho.numbered hd
      obtain ⟨r', hr', -⟩ := hx.live h hh
      rw [hs, if_neg (Nat.ne_of_lt (ho.numbered.lt hr')), hr']
      rfl
    · exact ⟨r, by rw [hs]; exact if_pos rfl, rfl⟩

/-- Where requests and conversations stay as they are. -/
theorem Ledger.congr (hx : Ledger x) (ho : Orderly x)
    (hd : x.scene.station.Descends y.scene.station) (hadm : y.scene.admitted = x.scene.admitted)
    (hconf : y.scene.confirmed = x.scene.confirmed)
    (hp : y.scene.station.pending = x.scene.station.pending)
    (ha : y.scene.station.active = x.scene.station.active) (hu : y.hand.untold = x.hand.untold)
    (ht : ∀ h ∈ y.hand.told, h ∈ x.hand.told)
    (hs : ∀ h ∈ x.scene.station.custody, (x.scene.station.endpoint? h.id).isSome →
      (y.scene.station.endpoint? h.id).isSome) : Ledger y := by
  have hc : y.scene.station.custody = x.scene.station.custody := by
    rw [Station.custody, hp, ha, Station.custody]
  constructor
  case order =>
    intro n
    have := hx.order n
    rwa [Scene.admittedOn, Scene.confirmedOn, Station.ordersOn, Station.sendingOn,
      Station.waitingOn, hadm, hconf, hp, ha, hu]
  case admitted_nodup =>
    rw [hadm]
    exact hx.admitted_nodup
  case admitted_lt =>
    rw [hadm]
    intro p hp
    exact Nat.lt_of_lt_of_le (hx.admitted_lt p hp) hd.1
  case confirmed_nodup =>
    rw [hconf]
    exact hx.confirmed_nodup
  case confirmed_lt =>
    rw [hconf]
    intro p hp
    exact Nat.lt_of_lt_of_le (hx.confirmed_lt p hp) hd.1
  case custody =>
    refine hx.custody.move ho hd ?_ ?_ ?_ hconf ht ?_
    · rw [hu, hc]
      exact hx.custody.nodup
    · rw [hu, hc]
      intro h hh
      exact hh
    · rw [hc]
      intro h hh
      exact hh
    · rw [hc]
      exact hs
  case senders =>
    rw [hp]
    exact hx.senders
  case keyed =>
    rw [ha]
    exact hx.keyed

theorem Scene.admitted_note (c : Scene) (e : Event) :
    (c.note e).admitted = c.admitted ++ e.admission?.toList := by
  rw [admitted, note, List.filterMap_append]
  cases h : e.admission? <;> simp [h, admitted]

theorem Scene.confirmed_note (c : Scene) (e : Event) :
    (c.note e).confirmed = c.confirmed ++ e.confirmation?.toList := by
  rw [confirmed, note, List.filterMap_append]
  cases h : e.confirmation? <;> simp [h, confirmed]

theorem Ledger.modify {f : Endpoint → Endpoint} {id : EndpointId} {g' : Hand} (hx : Ledger ⟨c, g⟩)
    (ho : Orderly ⟨c, g⟩) (hd : c.station.Descends (c.station.modifyEndpoint id f))
    (hu : g'.untold = g.untold) (ht : g'.told = g.told) :
    Ledger ⟨c.access (·.modifyEndpoint id f), g'⟩ := by
  refine hx.congr ho hd rfl rfl rfl rfl hu (fun h hh => ht ▸ hh) fun h _ hh => ?_
  change ((c.station.modifyEndpoint id f).endpoint? h.id).isSome
  rw [Station.endpoint?_modifyEndpoint, Option.isSome_map]
  exact hh

section Steps
open Station

/-- An accepted request goes to the end of the queue. -/
theorem Ledger.request {r : Endpoint} (hx : Ledger x) (ho : Orderly x)
    (hd : x.scene.station.Descends y.scene.station) (hr : r.role = .sender)
    (hs : ∀ i, y.scene.station.endpoint? i =
      if i = x.scene.station.fresh then some r else x.scene.station.endpoint? i)
    (hf : y.scene.station.fresh = x.scene.station.fresh + 1)
    (hp : y.scene.station.pending = x.scene.station.pending ++ [r.handle x.scene.station.fresh])
    (ha : y.scene.station.active = x.scene.station.active)
    (hadm : y.scene.admitted = x.scene.admitted ++ [(x.scene.station.fresh, r.address)])
    (hconf : y.scene.confirmed = x.scene.confirmed) (hh : y.hand = x.hand) : Ledger y := by
  have hlt : ∀ p ∈ y.scene.admitted, p.1 < x.scene.station.fresh ∨
      p = (x.scene.station.fresh, r.address) := by
    intro p hp
    rw [hadm] at hp
    rcases List.mem_append.mp hp with hp | hp
    · exact .inl (hx.admitted_lt p hp)
    · exact .inr (List.mem_singleton.mp hp)
  have hc : y.scene.station.custody.Perm
      (x.scene.station.custody ++ [r.handle x.scene.station.fresh]) := by
    rw [Station.custody, Station.custody, ha, hp, List.append_assoc]
  constructor
  case order =>
    intro n
    have hold := hx.order n
    have hw : y.scene.station.waitingOn n =
        x.scene.station.waitingOn n ++ if r.address = n then [x.scene.station.fresh] else [] := by
      by_cases hn : r.address = n <;> simp [waitingOn, hp, Endpoint.handle, hn]
    have hs : y.scene.station.sendingOn n = x.scene.station.sendingOn n := by
      rw [sendingOn, ha, sendingOn]
    have hadm : y.scene.admittedOn n =
        x.scene.admittedOn n ++ if r.address = n then [x.scene.station.fresh] else [] := by
      by_cases hn : r.address = n <;> simp [Scene.admittedOn, hadm, hn]
    have hconf : y.scene.confirmedOn n = x.scene.confirmedOn n := by
      rw [Scene.confirmedOn, hconf, Scene.confirmedOn]
    rw [hadm, hold, hconf, hh, ordersOn, ordersOn, hs, hw]
    simp only [List.append_assoc]
  case admitted_nodup =>
    rw [hadm, List.map_append, List.nodup_append]
    refine ⟨hx.admitted_nodup, by simp, fun id hid id' hid' => ?_⟩
    obtain ⟨p, hp, rfl⟩ := List.mem_map.mp hid
    obtain rfl : id' = x.scene.station.fresh := by simpa using hid'
    exact Nat.ne_of_lt (hx.admitted_lt p hp)
  case admitted_lt =>
    intro p hp
    rw [hf]
    rcases hlt p hp with hp | rfl
    · exact Nat.lt_succ_of_lt hp
    · exact Nat.lt_succ_self _
  case confirmed_nodup =>
    rw [hconf]
    exact hx.confirmed_nodup
  case confirmed_lt =>
    rw [hconf, hf]
    intro p hp
    exact Nat.lt_succ_of_lt (hx.confirmed_lt p hp)
  case custody => exact hx.custody.adopt ho hx.confirmed_lt hd (by rw [hh]) hc hconf (by rw [hh]) hs
  case senders =>
    intro h hmem
    rw [hp] at hmem
    rcases List.mem_append.mp hmem with hmem | hmem
    · exact hx.senders h hmem
    · rw [List.mem_singleton.mp hmem]
      exact hr
  case keyed =>
    rw [ha]
    exact hx.keyed

theorem Ledger.openReception {r : Endpoint} (hx : Ledger x) (ho : Orderly x)
    (hd : x.scene.station.Descends y.scene.station) (hr : r.role = .receiver)
    (hs : ∀ i, y.scene.station.endpoint? i =
      if i = x.scene.station.fresh then some r else x.scene.station.endpoint? i)
    (hf : y.scene.station.fresh = x.scene.station.fresh + 1)
    (hp : y.scene.station.pending = x.scene.station.pending)
    (ha : y.scene.station.active = x.scene.station.active.insert r.address
      (r.handle x.scene.station.fresh))
    (hq : x.scene.station.active.find? r.address = none)
    (hadm : y.scene.admitted = x.scene.admitted) (hconf : y.scene.confirmed = x.scene.confirmed)
    (hh : y.hand = x.hand) : Ledger y := by
  have hc : y.scene.station.custody.Perm
      (x.scene.station.custody ++ [r.handle x.scene.station.fresh]) := by
    rw [Station.custody, Station.custody, ha, hp]
    exact ((ActiveSet.handles_insert_perm hq).append_right _).trans
      (List.perm_append_singleton _ _).symm
  constructor
  case order =>
    intro n
    have hsend : y.scene.station.sendingOn n = x.scene.station.sendingOn n := by
      rw [sendingOn, ha, sendingOn, ActiveSet.find?_insert]
      by_cases hn : n = r.address
      · rw [if_pos hn, hn, hq]
        simp [Endpoint.handle, hr]
      · rw [if_neg hn]
    rw [Scene.admittedOn, hadm, Scene.confirmedOn, hconf, hh, ordersOn, hsend, waitingOn, hp]
    exact hx.order n
  case admitted_nodup =>
    rw [hadm]
    exact hx.admitted_nodup
  case admitted_lt =>
    rw [hadm, hf]
    intro p hp
    exact Nat.lt_succ_of_lt (hx.admitted_lt p hp)
  case confirmed_nodup =>
    rw [hconf]
    exact hx.confirmed_nodup
  case confirmed_lt =>
    rw [hconf, hf]
    intro p hp
    exact Nat.lt_succ_of_lt (hx.confirmed_lt p hp)
  case custody => exact hx.custody.adopt ho hx.confirmed_lt hd (by rw [hh]) hc hconf (by rw [hh]) hs
  case senders =>
    rw [hp]
    exact hx.senders
  case keyed =>
    intro p hmem
    rw [ha] at hmem
    rcases ActiveSet.mem_insert hmem with rfl | hmem
    · rfl
    · exact hx.keyed p hmem

theorem Ledger.start (hx : Ledger ⟨c, g⟩) (ho : Orderly ⟨c, g⟩) :
    Ledger ⟨c.access startPending, g⟩ := by
  have hd := ((Transition.start (c := c) (g := g)).follows ho).descends
  have horders : ∀ n, c.station.startPending.ordersOn n = c.station.ordersOn n :=
    startPending_ordersOn hx.senders
  have hperm : c.station.startPending.custody.Perm c.station.custody :=
    startPending_custody c.station
  have hall := hperm.append_left g.untold
  have hf : c.station.startPending.fresh = c.station.fresh := c.station.startPending_fresh
  constructor
  case order =>
    intro n
    exact (hx.order n).trans (by rw [← horders n]; rfl)
  case admitted_nodup => exact hx.admitted_nodup
  case admitted_lt => exact hf ▸ hx.admitted_lt
  case confirmed_nodup => exact hx.confirmed_nodup
  case confirmed_lt => exact hf ▸ hx.confirmed_lt
  case custody =>
    refine hx.custody.move ho hd ((hall.map _).nodup_iff.mpr hx.custody.nodup)
      (fun h => hall.mem_iff.mp) (fun h => hperm.mem_iff.mp) rfl (fun h hh => hh) fun h _ hh => ?_
    rwa [access_station, endpoint?_startPending]
  case senders => exact fun h hh => hx.senders h (mem_pending_of_startPending hh)
  case keyed =>
    intro p hmem
    rcases mem_active_of_startPending hmem with ⟨-, hk⟩ | hmem
    · exact hk.symm
    · exact hx.keyed p hmem

theorem Custody.retires (hx : Custody ⟨c, g⟩) (ho : Orderly ⟨c, g⟩) :
    (∀ n, sendersOn n c.station.takeFinished.1 ++ c.station.takeFinished.2.sendingOn n =
      c.station.sendingOn n) ∧
      ((c.station.takeFinished.1 ++ c.station.takeFinished.2.active.handles).map (·.id)).Nodup ∧
      ∀ h ∈ c.station.takeFinished.1 ++ c.station.takeFinished.2.active.handles, h ∈
      c.station.active.handles := by
  apply takeFinished_order
  · intro h hh
    exact hx.live h (List.mem_append_left _ hh)
  · intro h hh
    exact ho.genuine h (Stage.mem_handles.mpr (.inr (.inr (.inl hh))))
  · have hall := hx.nodup
    rw [List.map_append, List.nodup_append] at hall
    exact ((List.sublist_append_left _ _).map _).nodup hall.2.1

/-- What is retired goes from its identifier to the hand of the tick. -/
theorem Custody.retire (hx : Custody ⟨c, g⟩) (ho : Orderly ⟨c, g⟩) (hu : g.untold = [])
    (ht : g.told = []) :
    Custody ⟨c.access fun s => s.takeFinished.2,
      { g with untold := c.station.takeFinished.1 }⟩ := by
  have hd := ((Transition.retire hu ht).follows ho).descends
  obtain ⟨-, hnodup, hmoved⟩ := hx.retires ho
  have hall := hx.nodup
  rw [hu, List.nil_append] at hall
  have hcustody : (c.access fun s => s.takeFinished.2).station.custody =
      c.station.takeFinished.2.active.handles ++ c.station.pending := by
    rw [access_station, custody, takeFinished_pending]
  refine hx.move ho hd ?_ ?_ ?_ rfl (fun h hh => hh) fun h _ hh => ?_
  · rw [hcustody, ← List.append_assoc, List.map_append, List.nodup_append]
    rw [Station.custody, List.map_append, List.nodup_append] at hall
    refine ⟨hnodup, hall.2.1, fun id hid id' hid' => ?_⟩
    obtain ⟨h, hh, rfl⟩ := List.mem_map.mp hid
    exact hall.2.2 _ (List.mem_map.mpr ⟨h, hmoved h hh, rfl⟩) id' hid'
  · intro h hh
    rw [hcustody, ← List.append_assoc] at hh
    apply List.mem_append_right _
    rcases List.mem_append.mp hh with hh | hh
    · exact List.mem_append_left _ (hmoved h hh)
    · exact List.mem_append_right _ hh
  · intro h hh
    rw [hcustody] at hh
    rcases List.mem_append.mp hh with hh | hh
    · exact List.mem_append_left _ (hmoved h (List.mem_append_right _ hh))
    · exact List.mem_append_right _ hh
  · rwa [access_station, endpoint?_takeFinished]

theorem Ledger.retire (hx : Ledger ⟨c, g⟩) (ho : Orderly ⟨c, g⟩) (hu : g.untold = [])
    (ht : g.told = []) :
    Ledger ⟨c.access fun s => s.takeFinished.2, { g with untold := c.station.takeFinished.1 }⟩ := by
  obtain ⟨horder, -, -⟩ := hx.custody.retires ho
  constructor
  case order =>
    intro n
    have hold := hx.order n
    have hw : c.station.takeFinished.2.waitingOn n = c.station.waitingOn n := by
      rw [waitingOn, takeFinished_pending, waitingOn]
    rw [hu, ordersOn, ← horder n, ← hw] at hold
    apply hold.trans
    change c.confirmedOn n ++ [] ++ _ = c.confirmedOn n ++ _ ++ c.station.takeFinished.2.ordersOn n
    simp only [ordersOn, List.append_nil, List.append_assoc]
  case admitted_nodup => exact hx.admitted_nodup
  case admitted_lt =>
    rw [access_station, takeFinished_fresh]
    exact hx.admitted_lt
  case confirmed_nodup => exact hx.confirmed_nodup
  case confirmed_lt =>
    rw [access_station, takeFinished_fresh]
    exact hx.confirmed_lt
  case custody => exact hx.custody.retire ho hu ht
  case senders =>
    rw [access_station, takeFinished_pending]
    exact hx.senders
  case keyed => exact fun p hp => hx.keyed p (mem_active_of_takeFinished hp)

theorem confirmation?_completion {s : Station} {h : Handle} {seen : Option Endpoint}
    (hg : s.Genuine h) (hs : seen = none ∨ seen = s.endpoint? h.id) :
    Event.confirmation? (.told h.id (completion h seen)) =
      if h.role = .sender then some (h.id, h.address) else none := by
  have hrole : ∀ r, seen = some r → r.role = h.role := by
    rintro r rfl
    rcases hs with hs | hs
    · cases hs
    · rw [← hg.2 r hs.symm]
      rfl
  cases seen with
  | none => cases hr : h.role <;> simp [completion, Event.confirmation?, hr]
  | some r =>
    have hr := hrole r rfl
    cases r with
    | sender s => simp [completion, Event.confirmation?, ← hr, Endpoint.role]
    | receiver r => simp [completion, Event.confirmation?, ← hr, Endpoint.role]

section Telling
variable {h : Handle} {untold : List Handle} {seen : Option Endpoint}

theorem Custody.apart (hx : Custody ⟨c, g⟩) (hn : g.untold = h :: untold) :
    ((untold ++ c.station.custody).map (·.id)).Nodup ∧
    ∀ g' ∈ untold ++ c.station.custody, g'.id ≠ h.id := by
  have hnodup := hx.nodup
  rw [hn, List.cons_append, List.map_cons, List.nodup_cons] at hnodup
  exact ⟨hnodup.2, fun g' hg' heq => hnodup.1 (List.mem_map.mpr ⟨g', hg', heq⟩)⟩

theorem confirmed_tell (hg : c.station.Genuine h)
    (hs : seen = none ∨ seen = c.station.endpoint? h.id) :
    (c.note (.told h.id (completion h seen))).confirmed =
      c.confirmed ++ if h.role = .sender then [(h.id, h.address)] else [] := by
  rw [Scene.confirmed_note, confirmation?_completion hg hs]
  by_cases hr : h.role = .sender <;> simp [hr]

theorem mem_confirmed_tell (hg : c.station.Genuine h)
    (hs : seen = none ∨ seen = c.station.endpoint? h.id) {p : EndpointId × Address}
    (hp : p ∈ (c.note (.told h.id (completion h seen))).confirmed) :
    p ∈ c.confirmed ∨ p = (h.id, h.address) := by
  rw [confirmed_tell hg hs] at hp
  rcases List.mem_append.mp hp with hp | hp
  · exact .inl hp
  · split at hp
    · exact .inr (List.mem_singleton.mp hp)
    · cases hp

/-- What is told goes from one hand to the other. -/
theorem Custody.tell (hx : Custody ⟨c, g⟩) (hg : c.station.Genuine h) (hn : g.untold = h :: untold)
    (hs : seen = none ∨ seen = c.station.endpoint? h.id) :
    Custody ⟨c.note (.told h.id (completion h seen)),
      { g with untold, told := g.told ++ [h] }⟩ := by
  obtain ⟨hnodup, hne⟩ := hx.apart hn
  constructor
  · exact hnodup
  · intro g' hg' p hp
    rcases mem_confirmed_tell hg hs hp with hp | rfl
    · refine hx.unconfirmed g' ?_ p hp
      rw [hn]
      exact List.mem_cons_of_mem _ hg'
    · exact hne g' hg'
  · intro h' hh' g' hg'
    rcases List.mem_append.mp hh' with hh' | hh'
    · exact hx.told h' hh' g' hg'
    · rw [List.mem_singleton.mp hh']
      exact (hne g' (List.mem_append_right _ hg')).symm
  · exact hx.live

theorem Ledger.tell (hx : Ledger ⟨c, g⟩) (ho : Orderly ⟨c, g⟩) (hn : g.untold = h :: untold)
    (hs : seen = none ∨ seen = c.station.endpoint? h.id) :
    Ledger ⟨c.note (.told h.id (completion h seen)), { g with untold, told := g.told ++ [h] }⟩ := by
  have hg : c.station.Genuine h :=
    ho.genuine h (Stage.mem_handles.mpr (.inr (.inr (.inr (.inl (hn ▸ List.mem_cons_self))))))
  have hadm : (c.note (.told h.id (completion h seen))).admitted = c.admitted :=
    (Scene.admitted_note _ _).trans (List.append_nil _)
  have hconf := confirmed_tell hg hs
  constructor
  case order =>
    intro n
    have hold := hx.order n
    rw [hn, show h :: untold = [h] ++ untold from rfl, sendersOn_append] at hold
    have hc : (c.note (.told h.id (completion h seen))).confirmedOn n =
        c.confirmedOn n ++ sendersOn n [h] := by
      by_cases hr : h.role = .sender <;> by_cases ha : h.address = n <;>
        simp [Scene.confirmedOn, hconf, sendersOn, hr, ha]
    rw [Scene.admittedOn, hadm, hc]
    apply hold.trans
    simp only [List.append_assoc, note_station]
  case admitted_nodup =>
    rw [hadm]
    exact hx.admitted_nodup
  case admitted_lt =>
    rw [hadm]
    exact hx.admitted_lt
  case confirmed_nodup =>
    rw [hconf, List.map_append, List.nodup_append]
    refine ⟨hx.confirmed_nodup, by split <;> simp, fun id hid id' hid' => ?_⟩
    obtain ⟨p, hp, rfl⟩ := List.mem_map.mp hid
    obtain rfl : id' = h.id := by
      split at hid'
      · simpa using hid'
      · simp at hid'
    exact (hx.custody.unconfirmed h (List.mem_append_left _ (hn ▸ List.mem_cons_self)) p hp).symm
  case confirmed_lt =>
    intro p hp
    rcases mem_confirmed_tell hg hs hp with hp | rfl
    · exact hx.confirmed_lt p hp
    · exact hg.1
  case custody => exact hx.custody.tell hg hn hs
  case senders => exact hx.senders
  case keyed => exact hx.keyed

end Telling

theorem endpoint?_dropAll {s : Station} {handles : List Handle} {id : EndpointId}
    (h : ∀ g ∈ handles, g.id ≠ id) :
    (s.dropAll handles).endpoint? id = s.endpoint? id := by
  unfold dropAll
  induction handles generalizing s with
  | nil => rfl
  | cons g rest ih =>
    rw [List.foldl_cons, ih fun g hg => h g (List.mem_cons_of_mem _ hg), endpoint?_drop,
      if_neg (Ne.symm (h g List.mem_cons_self))]

theorem Ledger.rest {id : EndpointId} {next : Endpoint} {budget : Budget} (hx : Ledger ⟨c, g⟩)
    (ho : Orderly ⟨c, g⟩)
    (hd : c.station.Descends ((c.station.setBudget budget).modifyEndpoint id fun _ => next)) :
    Ledger ⟨c.access fun s => (s.setBudget budget).modifyEndpoint id fun _ => next, g⟩ := by
  refine hx.congr (y := ⟨_, g⟩) ho hd rfl rfl rfl rfl rfl (fun _ hh => hh) fun h _ hh => ?_
  rw [access_station, endpoint?_modifyEndpoint, Option.isSome_map]
  exact hh

theorem Ledger.step (t : Transition x y) (ho : Orderly x) (hx : Ledger x) : Ledger y := by
  have hd := (t.follows ho).descends
  cases t with
  | locks | configure | discard | collect | begin | mark | forget =>
    exact hx.congr ho hd rfl rfl rfl rfl rfl (fun _ hh => hh) fun _ _ hh => hh
  | @poll c g ack =>
    refine hx.congr ho hd ?_ ?_ ?_ ?_ rfl (fun _ hh => hh) fun _ _ hh => ?_
    · exact (Scene.admitted_note _ _).trans (List.append_nil _)
    · exact (Scene.confirmed_note _ _).trans (List.append_nil _)
    · simp [record_outbox]
    · simp [record_outbox]
    · simpa using hh
  | accept address under offered =>
    refine hx.congr ho hd ?_ ?_ rfl rfl rfl (fun _ hh => hh) fun _ _ hh => hh
    · exact (Scene.admitted_note _ _).trans (List.append_nil _)
    · exact (Scene.confirmed_note _ _).trans (List.append_nil _)
  | adjust idle setter => exact hx.modify ho hd rfl rfl
  | acknowledge now under => exact hx.modify ho hd rfl rfl
  | finish after under => exact hx.modify ho hd rfl rfl
  | rest idle found rests => exact hx.rest ho hd
  | announce idle found rests =>
    have hrest := ho.rest found rests
    refine (hx.rest ho hd).congr hrest.orderly (.refl _) ?_ ?_ rfl rfl rfl
      (fun _ hh => hh) fun _ _ hh => hh
    · exact (Scene.admitted_note _ _).trans (List.append_nil _)
    · exact (Scene.confirmed_note _ _).trans (List.append_nil _)
  | @turnDown c g sender rest =>
    refine hx.congr ho hd rfl rfl ?_ ?_ rfl (fun _ hh => hh) fun h hmem hh => ?_
    · rw [access_station, access_station, drop_pending]
      rfl
    · rw [access_station, access_station, drop_active]
      rfl
    · obtain ⟨r, hr, -⟩ := hx.custody.live h hmem
      have hne := Nat.ne_of_lt (ho.numbered.lt hr)
      rw [access_station, access_station, endpoint?_drop, if_neg hne, endpoint?_adopt ho.numbered,
        if_neg hne]
      exact hh
  | @request c g sender rest address message kind created =>
    have ha : (Endpoint.sender sender).address = address :=
      congrArg Prod.fst (Sender.subject_create created)
    refine hx.request (r := .sender sender) ho hd rfl (endpoint?_adopt ho.numbered _ rest) rfl rfl
      rfl ?_ ?_ rfl
    · rw [ha]
      exact Scene.admitted_note _ _
    · exact (Scene.confirmed_note _ _).trans (List.append_nil _)
  | @start c g => exact hx.start ho
  | @openReception c g receiver rest address blockSize separation quiet created =>
    have ha : (Endpoint.receiver receiver).address = address := Receiver.address_create created
    exact hx.openReception (r := .receiver receiver) ho hd rfl (endpoint?_adopt ho.numbered _ rest)
      rfl rfl (by rw [ha]; rfl) (ha ▸ quiet) rfl rfl rfl
  | @retire c g untold told => exact hx.retire ho untold told
  | @tell c g h untold seen next sight => exact hx.tell ho next (sight.imp_right (·.1))
  | @drop c g untold =>
    refine hx.congr ho hd rfl rfl (by simp) (by simp) rfl (fun _ hh => absurd hh List.not_mem_nil)
      fun h hmem hh => ?_
    rw [access_station, endpoint?_dropAll fun g' hg' => hx.custody.told g' hg' h hmem]
    exact hh

end Steps

end CanTransport
