import CanTransport.Proofs.Balance
import CanTransport.Proofs.Ledger

/-! # No endpoint is forgotten

An endpoint stays in the store only as long as a handle of it waits, runs or is in the hand of the
tick that ends it.
-/
namespace CanTransport

theorem lookup_of_mem {α β : Type} [BEq α] [LawfulBEq α] {l : List (α × β)} {k : α} {v : β}
    (hn : (l.map (·.1)).Nodup) (hm : (k, v) ∈ l) : l.lookup k = some v := by
  induction l with
  | nil => cases hm
  | cons p rest ih =>
    obtain ⟨k', v'⟩ := p
    have hrest := List.nodup_cons.mp hn
    rw [List.lookup_cons]
    rcases List.mem_cons.mp hm with hm | hm
    · cases hm
      rw [beq_self_eq_true]
    · have hne : k ≠ k' := fun he => hrest.1 (List.mem_map.mpr ⟨(k, v), hm, he⟩)
      rw [beq_eq_false_iff_ne.mpr hne]
      exact ih hrest.2 hm

namespace ActiveSet
variable {active : ActiveSet} {key : Address} {h : Handle}

def Distinct (active : ActiveSet) : Prop := (active.map (·.1)).Nodup

theorem Distinct.insert (hd : active.Distinct) (hf : active.find? key = none) :
    (active.insert key h).Distinct := by
  have hnew : key ∉ active.map (·.1) := by
    intro hmem
    obtain ⟨p, hp, rfl⟩ := List.mem_map.mp hmem
    exact absurd rfl (bne_iff_ne.mp (List.lookup_eq_none_iff.mp hf p hp))
  exact ((insert_perm hf).map Prod.fst).nodup_iff.mpr (List.nodup_cons.mpr ⟨hnew, hd⟩)

theorem Distinct.erase (hd : active.Distinct) (key : Address) : (active.erase key).Distinct :=
  (List.filter_sublist.map _).nodup hd

theorem Distinct.find?_of_mem (hd : active.Distinct) (hm : (key, h) ∈ active) :
    active.find? key = some h :=
  lookup_of_mem hd hm

end ActiveSet

namespace Station
variable {s : Station}

theorem foldl_startOrEnqueue_distinct {waiting : List Handle} (hd : s.active.Distinct) :
    (waiting.foldl startOrEnqueue s).active.Distinct := by
  induction waiting generalizing s with
  | nil => exact hd
  | cons h rest ih =>
    apply ih
    unfold startOrEnqueue
    split
    · exact hd
    · next hfree => exact hd.insert (by simpa using hfree)

/-- What runs goes on running, or is retired under its number. -/
theorem foldl_retireOne_keeps {retired finished : List Handle} (hd : s.active.Distinct) :
    (finished.foldl retireOne (retired, s)).2.active.Distinct ∧
      (∀ g ∈ retired, g ∈ (finished.foldl retireOne (retired, s)).1) ∧
      ∀ g ∈ s.active.handles, g ∈ (finished.foldl retireOne (retired, s)).2.active.handles ∨
        ∃ h ∈ (finished.foldl retireOne (retired, s)).1, h.id = g.id := by
  induction finished generalizing s retired with
  | nil => exact ⟨hd, fun g hg => hg, fun g hg => .inl hg⟩
  | cons h rest ih =>
    rw [List.foldl_cons, retireOne]
    split
    · next hc =>
      obtain ⟨hd', hold, hkept⟩ := @ih { s with active := s.active.erase h.address }
          (retired ++ [h]) (hd.erase _)
      refine ⟨hd', fun g hg => hold g (List.mem_append_left _ hg), fun g hg => ?_⟩
      obtain ⟨key, hmem⟩ := mem_handles.mp hg
      by_cases hkey : key = h.address
      · rw [isCurrent, ← hkey, hd.find?_of_mem hmem] at hc
        have hid : g.id = h.id := by simpa using hc
        exact .inr ⟨h, hold h (List.mem_append_right _ List.mem_cons_self), hid.symm⟩
      · exact hkept g (mem_handles.mpr ⟨key, List.mem_filter.mpr ⟨hmem, by simpa using hkey⟩⟩)
    · exact ih hd

theorem endpoint?_dropAll_of_mem {handles : List Handle} {h : Handle} (hm : h ∈ handles) :
    (s.dropAll handles).endpoint? h.id = none := by
  induction handles generalizing s with
  | nil => cases hm
  | cons g rest ih =>
    rcases List.mem_cons.mp hm with rfl | hm
    · refine Option.eq_none_iff_forall_ne_some.mpr fun r hr => ?_
      have hdropped : (s.drop h.id).endpoint? h.id = some r := endpoint?_of_dropAll hr
      rw [endpoint?_drop, if_pos rfl] at hdropped
      cases hdropped
    · exact ih hm

end Station

open Station

/-- Identifiers are in use once, and every endpoint of the store has a handle that something is to
be done with. -/
structure Owned (x : Stage) : Prop where
  distinct : x.scene.station.active.Distinct
  owner : ∀ id r, x.scene.station.endpoint? id = some r →
    ∃ h ∈ x.scene.station.custody ++ x.hand.untold ++ x.hand.told, h.id = id

variable {x y : Stage} {c : Scene} {g : Hand}

theorem Owned.keep (hx : Owned x) (hd : y.scene.station.active.Distinct)
    (he : ∀ id r, y.scene.station.endpoint? id = some r → ∃ r, x.scene.station.endpoint? id =
      some r)
    (hh : ∀ h ∈ x.scene.station.custody ++ x.hand.untold ++ x.hand.told,
      ∃ h' ∈ y.scene.station.custody ++ y.hand.untold ++ y.hand.told, h'.id = h.id) : Owned y := by
  refine ⟨hd, fun id r hr => ?_⟩
  obtain ⟨r, hr⟩ := he id r hr
  obtain ⟨h, hmem, rfl⟩ := hx.owner id r hr
  exact hh h hmem

theorem Owned.congr (hx : Owned x) (ha : y.scene.station.active = x.scene.station.active)
    (hp : y.scene.station.pending = x.scene.station.pending)
    (he : ∀ id r, y.scene.station.endpoint? id = some r → ∃ r, x.scene.station.endpoint? id =
      some r)
    (hu : y.hand.untold = x.hand.untold) (ht : y.hand.told = x.hand.told) : Owned y := by
  refine hx.keep ?_ he fun h hh => ⟨h, ?_, rfl⟩
  · rw [ha]
    exact hx.distinct
  · rwa [Station.custody, ha, hp, hu, ht]

theorem Owned.modify {f : Endpoint → Endpoint} {id : EndpointId} {g' : Hand} (hx : Owned ⟨c, g⟩)
    (hu : g'.untold = g.untold) (ht : g'.told = g.told) :
    Owned ⟨c.access (·.modifyEndpoint id f), g'⟩ := by
  refine hx.congr rfl rfl (fun i r hr => ?_) hu ht
  change (c.station.modifyEndpoint id f).endpoint? i = some r at hr
  rw [endpoint?_modifyEndpoint] at hr
  obtain ⟨r, hr, -⟩ := Option.map_eq_some_iff.mp hr
  exact ⟨r, hr⟩

theorem Owned.adopt {r : Endpoint} (hx : Owned x) (hd : y.scene.station.active.Distinct)
    (hc : y.scene.station.custody.Perm
      (x.scene.station.custody ++ [r.handle x.scene.station.fresh]))
    (hs : ∀ i, y.scene.station.endpoint? i =
      if i = x.scene.station.fresh then some r else x.scene.station.endpoint? i)
        (hh : y.hand = x.hand) : Owned y := by
  refine ⟨hd, fun id r' hr => ?_⟩
  rw [hs] at hr
  rw [hh]
  split at hr
  · next hid =>
    refine ⟨r.handle x.scene.station.fresh, ?_, hid.symm⟩
    simp [hc.mem_iff]
  · obtain ⟨h, hmem, hid⟩ := hx.owner id r' hr
    refine ⟨h, ?_, hid⟩
    simp only [List.mem_append, hc.mem_iff] at hmem ⊢
    grind

theorem Owned.retire (hx : Owned ⟨c, g⟩) (hu : g.untold = []) :
    Owned ⟨c.access fun s => s.takeFinished.2, { g with untold := c.station.takeFinished.1 }⟩ := by
  obtain ⟨hd, -, hkept⟩ := @foldl_retireOne_keeps { c.station with finished := [] }
      [] c.station.finished hx.distinct
  refine hx.keep hd (fun id r hr => ⟨r, by simpa using hr⟩) fun h hh => ?_
  change h ∈ c.station.active.handles ++ c.station.pending ++ g.untold ++ g.told at hh
  change ∃ h' ∈ c.station.takeFinished.2.active.handles ++ c.station.takeFinished.2.pending ++
    c.station.takeFinished.1 ++ g.told, _
  simp only [hu, takeFinished_pending, List.append_nil, List.mem_append] at hh ⊢
  rcases hh with (hh | hh) | hh
  · rcases hkept h hh with hh | ⟨h', hh', hid⟩
    · exact ⟨h, .inl (.inl (.inl hh)), rfl⟩
    · exact ⟨h', .inl (.inr hh'), hid⟩
  · exact ⟨h, .inl (.inl (.inr hh)), rfl⟩
  · exact ⟨h, .inr hh, rfl⟩

theorem Owned.step (t : Transition x y) (ho : Orderly x) (hx : Owned x) : Owned y := by
  have hsame : ∀ id r, x.scene.station.endpoint? id = some r →
      ∃ r, x.scene.station.endpoint? id = some r :=
    fun _ r hr => ⟨r, hr⟩
  cases t with
  | locks | configure | discard | mark | forget | collect | begin | accept =>
    exact hx.congr rfl rfl hsame rfl rfl
  | poll =>
    exact hx.congr (by simp [record_outbox]) (by simp [record_outbox])
      (fun id r hr => ⟨r, by simpa using hr⟩) rfl rfl
  | adjust idle setter => exact hx.modify rfl rfl
  | acknowledge now under => exact hx.modify rfl rfl
  | finish after under => exact hx.modify rfl rfl
  | @rest c g id r next frame now outcome budget idle found rests
  | @announce c g id r next frame now length budget idle found rests =>
    have hpaid : Owned ⟨c.access (·.setBudget budget), g⟩ := hx.congr rfl rfl hsame rfl rfl
    exact ⟨hpaid.distinct, (hpaid.modify (f := fun _ => next) rfl rfl).owner⟩
  | @start c g =>
    have hperm := startPending_custody c.station
    refine hx.keep (foldl_startOrEnqueue_distinct hx.distinct)
      (fun id r hr => ⟨r, by simpa using hr⟩) fun h hh => ⟨h, ?_, rfl⟩
    simp only [access_station, List.mem_append, hperm.mem_iff] at hh ⊢
    exact hh
  | @request c g sender rest address message kind created =>
    refine hx.adopt (r := .sender sender) hx.distinct ?_ (endpoint?_adopt ho.numbered _ rest) rfl
    change (c.station.active.handles ++ (c.station.pending ++ [_])).Perm
      (c.station.active.handles ++ c.station.pending ++ [_])
    rw [List.append_assoc]
  | @turnDown c g sender rest address message kind created =>
    refine hx.congr ?_ ?_ (fun id r hr => ⟨r, ?_⟩) rfl rfl
    · rw [access_station, access_station, drop_active]
      rfl
    · rw [access_station, access_station, drop_pending]
      rfl
    · rw [access_station, access_station, endpoint?_drop, endpoint?_adopt ho.numbered] at hr
      split at hr
      · cases hr
      · exact hr
  | @openReception c g receiver rest address blockSize separation quiet created =>
    refine hx.adopt (r := .receiver receiver) (hx.distinct.insert quiet)
      ?_ (endpoint?_adopt ho.numbered _ rest) rfl
    exact ((ActiveSet.handles_insert_perm quiet).append_right _).trans
      (List.perm_append_singleton _ _).symm
  | retire untold told => exact hx.retire untold
  | @tell c g h untold seen next sight =>
    refine hx.keep hx.distinct hsame fun h' hh => ⟨h', ?_, rfl⟩
    simp only [next, Station.custody, note_station, List.mem_append, List.mem_cons] at hh ⊢
    grind
  | @drop c g untold =>
    refine ⟨by simpa using hx.distinct, fun id r hr => ?_⟩
    obtain ⟨h, hmem, rfl⟩ := hx.owner id r (endpoint?_of_dropAll hr)
    have hkept : h ∉ g.told :=
      fun hm => Option.some_ne_none r (hr.symm.trans (endpoint?_dropAll_of_mem hm))
    refine ⟨h, ?_, rfl⟩
    simp only [access_station, custody, dropAll_active, dropAll_pending, untold, List.append_nil,
      List.mem_append] at hmem ⊢
    exact hmem.resolve_right hkept

end CanTransport
