import CanTransport.Proofs.Holdings
import CanTransport.Proofs.Orderliness

/-! # What is left of the budget and what is held of it make the whole

Adopting an endpoint, stepping it and dropping it move bytes between the counter and the endpoints
of the store. None of them is lost, and giving back never brings the counter to its top.
-/
namespace CanTransport

/-- The memory budget as it is configured, as far as the counter reaches. -/
def Config.granted (c : Config) : Int := min c.memoryBudget Budget.top

theorem Config.granted_le_top (c : Config) : c.granted ≤ Budget.top := Int.min_le_right _ _

theorem Config.granted_nonneg (c : Config) :
    0 ≤ c.granted := Int.le_min.mpr ⟨Int.natCast_nonneg _, by decide⟩

namespace Station
variable {s : Station} {id : EndpointId} {r : Endpoint} {f : Endpoint → Endpoint}
  {rest : Budget} {whole : Int}

theorem footprints_perm {l l' : List (EndpointId × Endpoint)} (h : l.Perm l') :
    footprints l = footprints l' := by
  induction h with
  | nil => rfl
  | cons p _ ih => rw [footprints_cons, footprints_cons, ih]
  | swap p q l => simp only [footprints_cons, Nat.add_left_comm]
  | trans _ _ ih ih' => exact ih.trans ih'

theorem perm_of_lookup {l : List (EndpointId × Endpoint)} (hn : (l.map (·.1)).Nodup)
    (h : l.lookup id = some r) :
    l.Perm ((id, r) :: l.filter (·.1 ≠ id)) := by
  induction l with
  | nil => cases h
  | cons p l ih =>
    obtain ⟨i, q⟩ := p
    rw [List.map_cons, List.nodup_cons] at hn
    rw [List.lookup_cons] at h
    by_cases hi : id = i
    · subst hi
      rw [beq_self_eq_true] at h
      cases h
      have hrest : l.filter (·.1 ≠ id) = l := by
        refine List.filter_eq_self.mpr fun p hp => ?_
        have hne : p.1 ≠ id := fun he => hn.1 (List.mem_map.mpr ⟨p, hp, he⟩)
        simpa using hne
      rw [List.filter_cons_of_neg (by simp), hrest]
    · rw [beq_eq_false_iff_ne.mpr hi] at h
      rw [List.filter_cons_of_pos (by simpa using Ne.symm hi)]
      exact ((ih hn.2 h).cons _).trans (.swap _ _ _)

/-- What is left and what is held make the whole, and no endpoint holds bytes for a message it does
not know of. -/
structure Solvent (whole : Int) (s : Station) : Prop where
  balance : s.budget.remaining + footprints s.endpoints = whole
  covered : 0 ≤ s.budget.remaining
  nodup : (s.endpoints.map (·.1)).Nodup
  modest : ∀ id r, s.endpoint? id = some r → r.Modest

theorem Solvent.congr {s' : Station} (h : s.Solvent whole) (he : s'.endpoints = s.endpoints)
    (hb : s'.budget = s.budget) : s'.Solvent whole := by
  refine ⟨?_, ?_, ?_, fun id r hr => h.modest id r ?_⟩
  · rw [he, hb]
    exact h.balance
  · rw [hb]
    exact h.covered
  · rw [he]
    exact h.nodup
  · rwa [endpoint?, he] at hr

theorem Solvent.of_lookup (h : s.Solvent whole) (hr : s.endpoint? id = some r) :
    s.budget.remaining + r.footprint + footprints (s.endpoints.filter (·.1 ≠ id)) = whole := by
  have hperm := footprints_perm (perm_of_lookup h.nodup hr)
  rw [footprints_cons] at hperm
  have hbalance := h.balance
  dsimp only at hperm
  omega

theorem map_fst_modifyEndpoint (s : Station) (id : EndpointId) (f : Endpoint → Endpoint) :
    (s.modifyEndpoint id f).endpoints.map (·.1) = s.endpoints.map (·.1) := by
  simp [modifyEndpoint]

theorem modifyEndpoint_of_none (h : s.endpoint? id = none) : s.modifyEndpoint id f = s := by
  have hkept := map_others (f := f) fun p hp =>
      Ne.symm (bne_iff_ne.mp (List.lookup_eq_none_iff.mp h p hp))
  rw [modifyEndpoint, hkept]

theorem footprints_modify (h : s.Solvent whole) (hr : s.endpoint? id = some r) :
    footprints (s.modifyEndpoint id f).endpoints + r.footprint =
      footprints s.endpoints + (f r).footprint := by
  have hothers : (s.modifyEndpoint id f).endpoints.filter (·.1 ≠ id) =
      s.endpoints.filter (·.1 ≠ id) := by
    rw [modifyEndpoint, List.filter_map]
    exact map_others fun p hp => by simpa using (List.mem_filter.mp hp).2
  have hafter : (s.modifyEndpoint id f).endpoint? id = some (f r) := by
    rw [endpoint?_modifyEndpoint, hr]
    simp
  have hn : ((s.modifyEndpoint id f).endpoints.map (·.1)).Nodup := by
    rw [map_fst_modifyEndpoint]
    exact h.nodup
  have hold := footprints_perm (perm_of_lookup h.nodup hr)
  have hnew := footprints_perm (perm_of_lookup hn hafter)
  rw [hothers] at hnew
  rw [footprints_cons] at hold hnew
  dsimp only at hold hnew
  omega

theorem Solvent.pay (h : s.Solvent whole) (hr : s.endpoint? id = some r)
    (hp : rest.remaining + (f r).footprint = s.budget.remaining + r.footprint)
    (hc : 0 ≤ rest.remaining) (hm : (f r).Modest) :
    ((s.setBudget rest).modifyEndpoint id f).Solvent whole := by
  refine ⟨?_, hc, ?_, fun i r' hr' => ?_⟩
  · have hbalance := h.balance
    have hmodify := footprints_modify (f := f) h hr
    change rest.remaining + footprints (s.modifyEndpoint id f).endpoints = whole
    omega
  · change ((s.modifyEndpoint id f).endpoints.map _).Nodup
    rw [map_fst_modifyEndpoint]
    exact h.nodup
  · change (s.modifyEndpoint id f).endpoint? i = some r' at hr'
    rw [endpoint?_modifyEndpoint] at hr'
    obtain ⟨q, hq, rfl⟩ := Option.map_eq_some_iff.mp hr'
    split
    · next hi =>
      subst hi
      rw [Option.some.inj (hq.symm.trans hr)]
      exact hm
    · exact h.modest i q hq

theorem Solvent.modify (h : s.Solvent whole)
    (hf : ∀ r, s.endpoint? id = some r → (f r).footprint = r.footprint ∧ (f r).Modest) :
    (s.modifyEndpoint id f).Solvent whole := by
  cases hr : s.endpoint? id with
  | none =>
    rw [modifyEndpoint_of_none hr]
    exact h
  | some r =>
    obtain ⟨hfoot, hm⟩ := hf r hr
    have hpaid : ((s.setBudget s.budget).modifyEndpoint id f).Solvent whole :=
      h.pay hr (by rw [hfoot]) h.covered hm
    exact hpaid

theorem Solvent.adopt (h : s.Solvent whole) (hn : s.Numbered)
    (hr : s.budget.reserve r.footprint = .ok rest) (hm : r.Modest) :
    (s.adopt r rest).2.Solvent whole := by
  obtain ⟨hc, hp⟩ := Budget.reserve_ok hr
  refine ⟨?_, hc, ?_, fun i q hq => ?_⟩
  · change rest.remaining + footprints (s.endpoints ++ [(s.fresh, r)]) = whole
    have hbalance := h.balance
    rw [footprints_append, footprints_cons, footprints_nil]
    dsimp only
    omega
  · change ((s.endpoints ++ [(s.fresh, r)]).map _).Nodup
    rw [List.map_append, List.nodup_append]
    refine ⟨h.nodup, by simp, fun i hi j hj => ?_⟩
    obtain ⟨p, hp, rfl⟩ := List.mem_map.mp hi
    obtain rfl : j = s.fresh := by simpa using hj
    exact Nat.ne_of_lt (hn p hp)
  · rw [endpoint?_adopt hn] at hq
    split at hq
    · cases hq
      exact hm
    · exact h.modest i q hq

/-- An endpoint that is dropped gives back all that it held. -/
theorem Solvent.remaining_drop (h : s.Solvent whole) (ht : whole ≤ Budget.top)
    (hr : s.endpoint? id = some r) :
    (s.drop id).budget.remaining = s.budget.remaining + r.footprint := by
  have hsplit := h.of_lookup hr
  rw [drop, hr]
  exact Budget.release_eq h.covered (by omega)

theorem Solvent.drop (h : s.Solvent whole) (ht : whole ≤ Budget.top) (id : EndpointId) :
    (s.drop id).Solvent whole := by
  cases hr : s.endpoint? id with
  | none =>
    rw [Station.drop, hr]
    exact h
  | some r =>
    have hsplit := h.of_lookup hr
    have hrest := h.remaining_drop ht hr
    have hkept : (s.drop id).endpoints = s.endpoints.filter (·.1 ≠ id) := by rw [Station.drop, hr]
    refine ⟨?_, ?_, ?_, fun i q hq => ?_⟩
    · rw [hrest, hkept]
      exact hsplit
    · rw [hrest]
      have hc := h.covered
      omega
    · rw [hkept]
      exact (List.filter_sublist.map _).nodup h.nodup
    · rw [endpoint?_drop] at hq
      split at hq
      · cases hq
      · exact h.modest i q hq

theorem Solvent.dropAll (h : s.Solvent whole) (ht : whole ≤ Budget.top) (handles : List Handle) :
    (s.dropAll handles).Solvent whole := by
  unfold Station.dropAll
  induction handles generalizing s with
  | nil => exact h
  | cons g handles ih => exact ih (h.drop ht g.id)

theorem solvent_of_config {config : Config} (h : ofConfig config = .ok s) :
    s.Solvent config.granted := by
  obtain ⟨-, rfl⟩ := ofConfig_eq h
  refine ⟨?_, config.granted_nonneg, .nil, fun id r hr =>
    absurd (mem_of_endpoint? hr) List.not_mem_nil⟩
  rw [footprints_nil]
  exact Int.add_zero _

end Station
end CanTransport
