import CanTransport.Proofs.Orderliness

/-! # What runs and what waits on an identifier

The first request on an identifier that is free runs, those behind it wait in their order. Starting
and retiring conversations moves handles between the queue and the identifiers, and loses none.
-/
namespace CanTransport

def Event.admission? : Event → Option (EndpointId × Address)
  | .admitted id address _ _ => some (id, address)
  | _ => none

def Event.confirmation? : Event → Option (EndpointId × Address)
  | .told id (.confirm address _ _) => some (id, address)
  | _ => none

namespace Scene

def admitted (c : Scene) : List (EndpointId × Address) := c.events.filterMap Event.admission?

def confirmed (c : Scene) : List (EndpointId × Address) := c.events.filterMap Event.confirmation?

def admittedOn (c : Scene) (n : Address) : List EndpointId :=
  (c.admitted.filter (·.2 = n)).map (·.1)

def confirmedOn (c : Scene) (n : Address) : List EndpointId :=
  (c.confirmed.filter (·.2 = n)).map (·.1)

end Scene

def sendersOn (n : Address) (handles : List Handle) : List EndpointId :=
  (handles.filter fun h => h.role = .sender ∧ h.address = n).map (·.id)

namespace Station

def sendingOn (s : Station) (n : Address) : List EndpointId :=
  ((s.active.find? n).toList.filter (·.role = .sender)).map (·.id)

def waitingOn (s : Station) (n : Address) : List EndpointId :=
  (s.pending.filter (·.address = n)).map (·.id)

/-- First the one that runs and then those that wait. -/
def ordersOn (s : Station) (n : Address) : List EndpointId := s.sendingOn n ++ s.waitingOn n

end Station

namespace ActiveSet

theorem mem_of_find? {key : Address} {h : Handle} {active : ActiveSet}
    (hf : active.find? key = some h) :
    (key, h) ∈ active := by
  induction active with
  | nil => simp [find?] at hf
  | cons p rest ih =>
    obtain ⟨k, g⟩ := p
    rw [find?, List.lookup_cons] at hf
    by_cases hk : key = k
    · rw [hk, beq_self_eq_true] at hf
      cases hf
      exact hk ▸ List.mem_cons_self
    · rw [beq_eq_false_iff_ne.mpr hk] at hf
      exact List.mem_cons_of_mem _ (ih hf)

theorem insert_perm {key : Address} {h : Handle} {active : ActiveSet}
    (hf : active.find? key = none) :
    (active.insert key h).Perm ((key, h) :: active) := by
  induction active with
  | nil => exact .refl _
  | cons p rest ih =>
    obtain ⟨k, g⟩ := p
    rw [find?, List.lookup_cons] at hf
    by_cases hk : key = k
    · rw [hk, beq_self_eq_true] at hf
      cases hf
    · rw [beq_eq_false_iff_ne.mpr hk] at hf
      rw [insert]
      split
      · exact .refl _
      · exact ((ih hf).cons (k, g)).trans (.swap _ _ _)

theorem handles_insert_perm {key : Address} {h : Handle} {active : ActiveSet}
    (hf : active.find? key = none) :
    (active.insert key h).handles.Perm (h :: active.handles) := (insert_perm hf).map Prod.snd

theorem nodup_erase {key : Address} {h : Handle} {active : ActiveSet} {retired : List Handle}
    (hf : active.find? key = some h) (hd : ((retired ++ active.handles).map (·.id)).Nodup) :
    ((retired ++ [h] ++ (active.erase key).handles).map (·.id)).Nodup := by
  have hsplit : (active.filter (·.1 = key) ++ active.erase key).Perm active := by
    have := List.filter_append_perm (fun p => decide (p.1 = key)) active
    simpa [erase] using this
  have hmem : h ∈ (active.filter (·.1 = key)).map (·.2) := by
    refine List.mem_map.mpr ⟨(key, h), List.mem_filter.mpr ⟨mem_of_find? hf, by simp⟩, rfl⟩
  have hsub : ([h] ++ (active.erase key).handles).Sublist
      ((active.filter (·.1 = key) ++ active.erase key).map (·.2)) := by
    rw [List.map_append]
    exact (List.singleton_sublist.mpr hmem).append_right _
  have hperm : ((active.filter (·.1 = key) ++ active.erase key).map (·.2)).Perm active.handles :=
    hsplit.map _
  have hall : ((retired ++ (active.filter (·.1 = key) ++ active.erase key).map (·.2)).map
      (·.id)).Nodup :=
    ((hperm.append_left retired).map _).nodup_iff.mpr hd
  rw [List.append_assoc]
  exact ((hsub.append_left retired).map _).nodup hall

end ActiveSet

theorem sendersOn_append (n : Address) (handles more : List Handle) :
    sendersOn n (handles ++ more) = sendersOn n handles ++ sendersOn n more := by
  simp [sendersOn]

namespace Station
variable {s : Station} {h : Handle}

/-- A request goes behind all that were there before it on its identifier. -/
theorem startOrEnqueue_ordersOn (hs : h.role = .sender)
    (hq : ∀ n, s.active.find? n = none → s.waitingOn n = []) :
    (∀ n, (s.startOrEnqueue h).ordersOn n = s.ordersOn n ++ if h.address = n then [h.id] else []) ∧
      ∀ n, (s.startOrEnqueue h).active.find? n = none → (s.startOrEnqueue h).waitingOn n = [] := by
  unfold startOrEnqueue
  split
  · next hbusy =>
    have hw : ∀ n, (s.enqueue h).waitingOn n = s.waitingOn n ++ if h.address =
        n then [h.id] else [] := by
      intro n
      by_cases hn : h.address = n <;> simp [waitingOn, enqueue, hn]
    refine ⟨fun n => ?_, fun n hn => ?_⟩
    · rw [ordersOn, ordersOn, hw, ← List.append_assoc]
      rfl
    · have hne : h.address ≠ n := by
        rintro rfl
        change s.active.find? h.address = none at hn
        simp [hn] at hbusy
      rw [hw, if_neg hne, hq n hn]
      rfl
  · next hfree =>
    have hnone : s.active.find? h.address = none := by simpa using hfree
    refine ⟨fun n => ?_, fun n hn => ?_⟩
    · rw [ordersOn, ordersOn, sendingOn, sendingOn, ActiveSet.find?_insert]
      by_cases hn : n = h.address
      · have hw := hq n (hn ▸ hnone)
        simp only [waitingOn] at hw ⊢
        rw [if_pos hn, if_pos hn.symm, hw, hn, hnone]
        simp [hs]
      · rw [if_neg hn, if_neg (Ne.symm hn), List.append_nil]
        rfl
    · rw [ActiveSet.find?_insert] at hn
      split at hn
      · cases hn
      · exact hq n hn

theorem foldl_startOrEnqueue_ordersOn {waiting : List Handle} (hs : ∀ h ∈ waiting, h.role = .sender)
    (hq : ∀ n, s.active.find? n = none → s.waitingOn n = []) (n : Address) :
    (waiting.foldl startOrEnqueue s).ordersOn n =
      s.ordersOn n ++ (waiting.filter (·.address = n)).map (·.id) := by
  induction waiting generalizing s with
  | nil => simp
  | cons h rest ih =>
    obtain ⟨ho, hq'⟩ := startOrEnqueue_ordersOn (hs h List.mem_cons_self) hq
    rw [List.foldl_cons, ih (fun g hg => hs g (List.mem_cons_of_mem _ hg)) hq',
      ho, List.append_assoc]
    by_cases hn : h.address = n <;> simp [hn]

theorem startPending_ordersOn (hs : ∀ h ∈ s.pending, h.role = .sender) (n : Address) :
    s.startPending.ordersOn n = s.ordersOn n := by
  rw [startPending, foldl_startOrEnqueue_ordersOn hs (fun _ _ => rfl)]
  have hw : waitingOn { s with pending := [] } n = [] := rfl
  rw [ordersOn, hw, List.append_nil]
  rfl

/-- All handles of requests that wait and of conversations that run. -/
def custody (s : Station) : List Handle := s.active.handles ++ s.pending

theorem startOrEnqueue_custody (s : Station) (h : Handle) :
    (s.startOrEnqueue h).custody.Perm (s.custody ++ [h]) := by
  unfold startOrEnqueue
  split
  · rw [custody, custody, List.append_assoc]
    exact .refl _
  · next hfree =>
    have hp := ActiveSet.handles_insert_perm (h := h)
        (show s.active.find? h.address = none by simpa using hfree)
    exact (hp.append_right s.pending).trans (List.perm_append_singleton h _).symm

theorem startPending_custody (s : Station) : s.startPending.custody.Perm s.custody := by
  have hfold : ∀ (waiting : List Handle) (s : Station),
      (waiting.foldl startOrEnqueue s).custody.Perm (s.custody ++ waiting) := by
    intro waiting
    induction waiting with
    | nil =>
      intro s
      rw [List.append_nil]
      exact .refl _
    | cons h rest ih =>
      intro s
      have hh := (startOrEnqueue_custody s h).append_right rest
      rw [List.append_assoc] at hh
      exact (ih (s.startOrEnqueue h)).trans hh
  have hp := hfold s.pending { s with pending := [] }
  have hnone : custody { s with pending := [] } = s.active.handles := List.append_nil _
  rwa [hnone] at hp

def Live (s : Station) (h : Handle) : Prop := ∃ r, s.endpoint? h.id = some r ∧ r.handle h.id = h

theorem find?_of_isCurrent (hl : ∀ g ∈ s.active.handles, s.Live g) (hg : s.Genuine h)
    (hc : s.isCurrent h = true) : s.active.find? h.address = some h := by
  rw [isCurrent, Option.any_eq_true] at hc
  obtain ⟨g, hf, hid⟩ := hc
  obtain ⟨r, hr, hh⟩ := hl g (List.mem_map_of_mem (ActiveSet.mem_of_find? hf))
  have hid : g.id = h.id := by simpa using hid
  rw [hf, ← hh, hid, hg.2 r (hid ▸ hr)]

/-- Retiring takes conversations off their identifiers and keeps the others. -/
theorem foldl_retireOne_order {retired finished : List Handle}
    (hl : ∀ g ∈ s.active.handles, s.Live g) (hg : ∀ h ∈ finished, s.Genuine h)
    (hd : ((retired ++ s.active.handles).map (·.id)).Nodup) :
    (∀ n, sendersOn n (finished.foldl retireOne (retired, s)).1 ++
        (finished.foldl retireOne (retired, s)).2.sendingOn n =
      sendersOn n retired ++ s.sendingOn n) ∧
    (((finished.foldl retireOne (retired, s)).1 ++
      (finished.foldl retireOne (retired, s)).2.active.handles).map (·.id)).Nodup ∧
    ∀ h ∈ (finished.foldl retireOne (retired, s)).1, h ∈ retired ∨ h ∈ s.active.handles := by
  -- over what is listed as finished; those retired so far stand in the statement
  induction finished generalizing s retired with
  | nil => exact ⟨fun n => rfl, hd, fun h hh => .inl hh⟩
  | cons h rest ih =>
    rw [List.foldl_cons, retireOne]
    split
    · next hc =>
      have hf := find?_of_isCurrent hl (hg h List.mem_cons_self) hc
      have hsub : ∀ g ∈ (s.active.erase h.address).handles, g ∈ s.active.handles := fun g hg' =>
        mem_handles.mpr ((mem_handles.mp hg').imp fun _ hp => (List.mem_filter.mp hp).1)
      obtain ⟨ho, hd', hm⟩ := @ih { s with active := s.active.erase h.address } (retired ++ [h])
        (fun g hg' => hl g (hsub g hg')) (fun g hg' => hg g (List.mem_cons_of_mem _ hg'))
        (ActiveSet.nodup_erase hf hd)
      refine ⟨fun n => (ho n).trans ?_, hd', fun g hg' => ?_⟩
      rotate_left
      · rcases hm g hg' with hg' | hg'
        · rcases List.mem_append.mp hg' with hg' | hg'
          · exact .inl hg'
          · rw [List.mem_singleton.mp hg']
            exact .inr (mem_handles.mpr ⟨_, ActiveSet.mem_of_find? hf⟩)
        · exact .inr (hsub g hg')
      rw [sendersOn_append, List.append_assoc, sendingOn, sendingOn, ActiveSet.find?_erase]
      congr 1
      by_cases hn : n = h.address
      · rw [if_pos hn, hn, hf]
        by_cases hr : h.role = .sender <;> simp [sendersOn, hr]
      · rw [if_neg hn]
        simp [sendersOn, Ne.symm hn]
    · exact ih hl (fun g hg' => hg g (List.mem_cons_of_mem _ hg')) hd

/-- What is retired ran, and is one with what runs on. -/
theorem takeFinished_order (hl : ∀ g ∈ s.active.handles, s.Live g)
    (hg : ∀ h ∈ s.finished, s.Genuine h) (hd : (s.active.handles.map (·.id)).Nodup) :
    (∀ n, sendersOn n s.takeFinished.1 ++ s.takeFinished.2.sendingOn n = s.sendingOn n) ∧
      ((s.takeFinished.1 ++ s.takeFinished.2.active.handles).map (·.id)).Nodup ∧
      ∀ h ∈ s.takeFinished.1 ++ s.takeFinished.2.active.handles, h ∈ s.active.handles := by
  obtain ⟨horder, hnodup, hm⟩ := @foldl_retireOne_order { s with finished := [] } [] _ hl hg hd
  refine ⟨horder, hnodup, fun h hh => ?_⟩
  rcases List.mem_append.mp hh with hh | hh
  · exact (hm h hh).resolve_left List.not_mem_nil
  · exact mem_handles.mpr ((mem_handles.mp hh).imp fun _ => mem_active_of_takeFinished)

end Station

end CanTransport
