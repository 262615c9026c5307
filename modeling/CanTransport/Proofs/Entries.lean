import CanTransport.Proofs.Keeping
import CanTransport.Proofs.Ownership
import CanTransport.Proofs.RequestOrder

/-! # Entries bear the addresses of their writers

A frame is entered under the address of the endpoint that steps, and an endpoint keeps its address.
A conversation that is let go of by its address has no entry left from which an outcome would be
delivered to it.
-/
namespace CanTransport

/-- An entry that has a writer is not detached and bears the writer's address, and what is still to
be reported is there. -/
structure Stage.Addressed (x : Stage) : Prop where
  attached : ∀ e ∈ x.scene.station.outbox, ∀ id, e.writer = some id → e.isDetached = false
  bears : ∀ e ∈ x.scene.station.outbox, ∀ id, e.writer = some id →
    ∀ r, x.scene.station.endpoint? id = some r → r.address = e.address
  live : ∀ h ∈ x.hand.untold, x.scene.station.Live h

variable {x y : Stage} {c : Scene} {g : Hand}

namespace Stage.Addressed
open Station

theorem congr (hx : Addressed x) (ho : Orderly x) (hs : Signed x)
    (hd : x.scene.station.Descends y.scene.station)
    (hout : ∀ e ∈ y.scene.station.outbox, ∀ id, e.writer = some id →
      ∃ e' ∈ x.scene.station.outbox, e' = { e with outcome := e'.outcome })
    (hu : ∀ h ∈ y.hand.untold, h ∈ x.hand.untold)
    (hkept : ∀ h ∈ y.hand.untold, (x.scene.station.endpoint? h.id).isSome →
      (y.scene.station.endpoint? h.id).isSome) :
    Addressed y := by
  refine ⟨fun e he id hw => ?_, fun e he id hw r hr => ?_, fun h hh => ?_⟩
  · obtain ⟨e', he', hsame⟩ := hout e he id hw
    have hold := hx.attached e' he' id (by rw [hsame]; exact hw)
    rwa [hsame] at hold
  · obtain ⟨e', he', hsame⟩ := hout e he id hw
    have hw' : e'.writer = some id := by rw [hsame]; exact hw
    obtain ⟨r₀, hr₀, hhandle⟩ := hd.2 id (hs.entries e' he' id hw') r hr
    have haddress : r.address = r₀.address := congrArg Handle.address hhandle
    rw [haddress, hx.bears e' he' id hw' r₀ hr₀, hsame]
  · have hlive := hx.live h (hu h hh)
    refine hlive.descend ho.numbered hd (hkept h hh ?_)
    obtain ⟨r, hr, -⟩ := hlive
    rw [hr]
    rfl

theorem still (hx : Addressed x) (ho : Orderly x) (hs : Signed x)
    (hd : x.scene.station.Descends y.scene.station)
    (hout : y.scene.station.outbox = x.scene.station.outbox)
    (hu : ∀ h ∈ y.hand.untold, h ∈ x.hand.untold)
    (hkept : ∀ h ∈ y.hand.untold, (x.scene.station.endpoint? h.id).isSome →
      (y.scene.station.endpoint? h.id).isSome) :
    Addressed y := hx.congr ho hs hd (fun e he _ _ => ⟨e, hout ▸ he, rfl⟩) hu hkept

theorem modify {id : EndpointId} {f : Endpoint → Endpoint} {g' : Hand} (hx : Addressed ⟨c, g⟩)
    (ho : Orderly ⟨c, g⟩) (hs : Signed ⟨c, g⟩)
    (hd : c.station.Descends (c.station.modifyEndpoint id f)) (hu : g'.untold = g.untold) :
    Addressed ⟨c.access (·.modifyEndpoint id f), g'⟩ := by
  refine hx.still ho hs hd rfl (fun h hh => hu ▸ hh) fun h _ hsome => ?_
  rw [access_station, endpoint?_modifyEndpoint, Option.isSome_map]
  exact hsome

theorem adopt {r : Endpoint} (hx : Addressed x) (ho : Orderly x) (hs : Signed x)
    (hd : x.scene.station.Descends y.scene.station)
    (hout : y.scene.station.outbox = x.scene.station.outbox)
    (he : ∀ i, y.scene.station.endpoint? i = if i = x.scene.station.fresh then some r else
      x.scene.station.endpoint? i)
    (hh : y.hand = x.hand) : Addressed y := by
  refine hx.still ho hs hd hout (fun h hmem => hh ▸ hmem) fun h _ hsome => ?_
  rw [he]
  split
  · rfl
  · exact hsome

theorem turnDown {sender : Sender} {rest : Budget} (hx : Addressed ⟨c, g⟩) (ho : Orderly ⟨c, g⟩)
    (hs : Signed ⟨c, g⟩)
    (hd : c.station.Descends ((c.station.adopt (.sender sender) rest).2.drop c.station.fresh)) :
    Addressed ⟨(c.access fun s => (s.adopt (.sender sender) rest).2).access
      (·.drop c.station.fresh), g⟩ := by
  refine hx.still ho hs hd ?_ (fun _ hh => hh) fun h hh hsome => ?_
  · rw [access_station, access_station, drop_outbox]
    rfl
  · have hlt := (ho.genuine h (Stage.mem_handles.mpr (.inr (.inr (.inr (.inl hh)))))).1
    rw [access_station, access_station, endpoint?_drop, if_neg (Nat.ne_of_lt hlt),
      endpoint?_adopt ho.numbered, if_neg (Nat.ne_of_lt hlt)]
    exact hsome

theorem accept {b : Begun} {tasks : List Task} {address : Address} (hx : Addressed ⟨c, g⟩)
    (ho : Orderly ⟨c, g⟩) (under : g.tasks = .step b :: tasks) (own : address = b.origin.address) :
    Addressed ⟨(c.note (.accepted b.id b.frame)).access fun s =>
      { s with outbox := s.outbox.push address b.id },
        { g with tasks := .step { b with accepted := true } :: tasks }⟩ := by
  obtain ⟨-, hgenuine⟩ := ho.begun b (under ▸ List.mem_cons_self)
  have hnew (e : OutboxEntry) (hmem : e ∈ c.station.outbox.push address b.id) :
      e ∈ c.station.outbox ∨ e = { address, writer := some b.id } :=
    (List.mem_append.mp hmem).imp_right List.mem_singleton.mp
  refine ⟨fun e hmem id hw => ?_, fun e hmem id hw r hr => ?_, hx.live⟩
  · rcases hnew e hmem with hmem | rfl
    · exact hx.attached e hmem id hw
    · rfl
  · rcases hnew e hmem with hmem | rfl
    · exact hx.bears e hmem id hw r hr
    · cases hw
      exact (congrArg Handle.address (hgenuine r hr)).trans own.symm

/-- What is retired has run. -/
theorem retire (hx : Addressed ⟨c, g⟩) (ho : Orderly ⟨c, g⟩) (hl : Ledger ⟨c, g⟩) :
    Addressed ⟨c.access fun s => s.takeFinished.2,
      { g with untold := c.station.takeFinished.1 }⟩ := by
  refine ⟨fun e hmem => hx.attached e (by simpa using hmem), fun e hmem id hw r hr =>
    ?_, fun h hh => ?_⟩
  · exact hx.bears e (by simpa using hmem) id hw r (by simpa using hr)
  · have hran := (hl.custody.retires ho).2.2 h (List.mem_append_left _ hh)
    obtain ⟨r, hr, hhandle⟩ := hl.custody.live h (List.mem_append_left _ hran)
    exact ⟨r, (endpoint?_takeFinished c.station h.id).trans hr, hhandle⟩

theorem step (t : Transition x y) (ho : Orderly x) (hl : Ledger x) (hs : Signed x)
    (hx : Addressed x) : Addressed y := by
  have hd := (t.follows ho).descends
  cases t with
  | locks | configure | begin | mark =>
    exact hx.still ho hs hd rfl (fun _ hh => hh) fun _ _ hh => hh
  | adjust | acknowledge | finish => exact hx.modify ho hs hd rfl
  | @poll c g ack =>
    refine hx.congr ho hs hd (fun e hmem id _ => ?_) (fun _ hh => hh) fun h _ hsome => by
      simpa using hsome
    rw [access_station, note_station, record_outbox] at hmem
    exact Outbox.eq_of_mem_record hmem
  | @discard c g now | @collect c g now =>
    refine hx.congr ho hs hd (fun e hmem id _ => ⟨e, ?_, rfl⟩) (fun _ hh => hh) fun _ _ hh => hh
    exact (Outbox.next_sublist _ _).subset hmem
  | @forget c g address now =>
    refine hx.congr ho hs hd (fun e hmem id hw => ⟨e, ?_, rfl⟩) (fun _ hh => hh) fun _ _ hh => hh
    exact (Outbox.mem_of_mem_release hmem hw).1
  | start =>
    exact hx.still ho hs hd (by simp) (fun _ hh => hh) fun h _ hsome => by simpa using hsome
  | @request c g sender rest =>
    exact hx.adopt (r := .sender sender) ho hs hd rfl (endpoint?_adopt ho.numbered _ rest) rfl
  | @openReception c g receiver rest =>
    exact hx.adopt (r := .receiver receiver) ho hs hd rfl (endpoint?_adopt ho.numbered _ rest) rfl
  | turnDown => exact hx.turnDown ho hs hd
  | @rest c g id r next frame now outcome budget
  | @announce c g id r next frame now length budget =>
    refine hx.still ho hs hd rfl (fun _ hh => hh) fun h _ hsome => ?_
    have hmodified : ((c.station.setBudget budget).modifyEndpoint id fun _ => next).endpoint? h.id =
        (c.station.endpoint? h.id).map fun r => if h.id = id then next else r :=
        endpoint?_modifyEndpoint _ _ _ _
    change (((c.station.setBudget budget).modifyEndpoint id fun _ => next).endpoint? h.id).isSome
    rw [hmodified, Option.isSome_map]
    exact hsome
  | accept address under offered own => exact hx.accept ho under own
  | retire => exact hx.retire ho hl
  | @tell c g h untold seen next sight =>
    exact hx.still ho hs hd rfl (fun h' hh => next ▸ List.mem_cons_of_mem _ hh) fun _ _ hh => hh
  | @drop c g untold =>
    refine hx.still ho hs hd (by simp) (fun _ hh => hh) fun h hh _ => ?_
    change h ∈ g.untold at hh
    rw [untold] at hh
    cases hh

end Stage.Addressed

/-- What is known of entries and handles at every stage, whatever is in hand. -/
structure Stage.Accounted (x : Stage) : Prop where
  orderly : Orderly x
  ledger : Ledger x
  signed : Stage.Signed x
  addressed : Stage.Addressed x

theorem Path.accounted (h : Path x y) (hx : x.Accounted) : y.Accounted :=
  h.keeps hx fun _ _ t hx =>
    ⟨(t.follows hx.orderly).orderly, hx.ledger.step t hx.orderly, hx.signed.step t hx.orderly,
      hx.addressed.step t hx.orderly hx.ledger hx.signed⟩

theorem Station.Reaches.accounted {config : Config} (h : Reaches config c) :
    Stage.Accounted ⟨c, {}⟩ := by
  refine h.invariant (fun s hs => ?_) fun x y t _ hx => (Path.single t).accounted hx
  refine ⟨orderly_of_config hs, ledger_of_config hs, signed_of_config hs, ?_⟩
  obtain ⟨-, rfl⟩ := ofConfig_eq hs
  exact ⟨nofun, nofun, nofun⟩

/-- Once a conversation that is over has been let go of, nothing is delivered to it, and it neither
runs nor waits. -/
theorem Stage.Accounted.apart_of_forget {h : Handle} {untold : List Handle}
    (hx : Stage.Accounted ⟨c, g⟩) (hu : g.untold = h :: untold) (now : Micros) :
    h.id < c.station.fresh ∧ (∀ g ∈ c.station.custody, g.id ≠ h.id) ∧
      ∀ e ∈ (c.station.releaseEntries h.address now).2.outbox, e.writer ≠ some h.id := by
  have hmem : h ∈ g.untold := hu ▸ List.mem_cons_self
  have hgenuine := hx.orderly.genuine h (Stage.mem_handles.mpr (.inr (.inr (.inr (.inl hmem)))))
  refine ⟨hgenuine.1, fun g' hg' => ?_, fun e he hw => ?_⟩
  · have hn := hx.ledger.custody.nodup
    rw [List.map_append, List.nodup_append] at hn
    exact (hn.2.2 h.id (List.mem_map_of_mem hmem) g'.id (List.mem_map_of_mem hg')).symm
  · obtain ⟨r, hr, hhandle⟩ := hx.addressed.live h hmem
    obtain ⟨hold, hdetached⟩ := Outbox.mem_of_mem_release he hw
    have haddress : e.address = h.address := by
      rw [← hx.addressed.bears e hold h.id hw r hr]
      exact congrArg Handle.address hhandle
    have hfree := hx.addressed.attached e hold h.id hw
    rw [hdetached haddress] at hfree
    cases hfree

namespace Station
variable {c' : Scene}

/-- What is known where a call may be made, apart from what belongs to running conversations. -/
structure Kept (g : Hand) (c : Scene) : Prop where
  fits : Fits g c
  accounted : Stage.Accounted ⟨c, g⟩
  owned : Owned ⟨c, g⟩

namespace Kept

theorem follow {g' : Hand} (h : Kept g c) (path : Path ⟨c, g⟩ ⟨c', g'⟩) (fits : Fits g' c') :
    Kept g' c' :=
  ⟨fits, path.accounted h.accounted, path.maintains h.fits.orderly h.owned fun _ _ t ho hx =>
    hx.step t ho⟩

theorem proceed (h : Kept g c) (p : Proceeds g c c') :
    Kept g c' := h.follow p.path (h.fits.proceed p)

theorem lock (h : Kept g c) (lock : Lock) :
    Kept g (c.lock lock) := h.follow (.single (.locks _)) (h.fits.lock lock)

end Kept

end Station
end CanTransport
