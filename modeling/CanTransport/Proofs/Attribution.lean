import CanTransport.Proofs.Chronicle

/-! # Outcomes find their frames

An outcome does not say of which frame it is. The frames that a controller has accepted are numbered
by their order, the outcomes by theirs, and the outbox is what is left of the frames: entries let go
of are those whose outcome has come. An outcome that goes to the oldest entry without one is
therefore that entry's own.
-/
namespace CanTransport

def Event.write? : Event → Option (EndpointId × Frame)
  | .accepted writer frame => some (writer, frame)
  | _ => none

def Event.outcome? : Event → Option Ack
  | .reported ack => some ack
  | _ => none

def writesIn (events : List Event) : List (EndpointId × Frame) := events.filterMap Event.write?

def outcomesIn (events : List Event) : List Ack := events.filterMap Event.outcome?

def framesOf (id : EndpointId) (events : List Event) : List Frame :=
  ((writesIn events).filter (·.1 = id)).map (·.2)

/-- An outcome is reported only of a frame accepted before it, one for each. -/
def Attributable (events : List Event) : Prop :=
  ∀ before ack after, events = before ++ .reported ack :: after →
    (outcomesIn before).length < (writesIn before).length

/-- Writers of frames, each with the outcome of its frame if that has come. -/
def tickets : List (EndpointId × Frame) → List Ack → List (EndpointId × Option Ack)
  | [], _ => []
  | w :: writes, [] => (w.1, none) :: tickets writes []
  | w :: writes, ack :: outcomes => (w.1, some ack) :: tickets writes outcomes

def ticketsIn (events : List Event) : List (EndpointId × Option Ack) :=
      tickets (writesIn events) (outcomesIn events)

/-- What is known of the outcomes of one endpoint's frames. -/
def outcomesOf (id : EndpointId) (events : List Event) : List (Option Ack) :=
  ((ticketsIn events).filter (·.1 = id)).map (·.2)

def resolve (ack : Ack) : List (EndpointId × Option Ack) → List (EndpointId × Option Ack)
  | [] => []
  | (w, none) :: ts => (w, some ack) :: ts
  | (w, some a) :: ts => (w, some a) :: resolve ack ts

theorem tickets_getElem? (writes : List (EndpointId × Frame)) (outcomes : List Ack) (k : Nat) :
    (tickets writes outcomes)[k]? = writes[k]?.map fun w => (w.1, outcomes[k]?) := by
  induction writes generalizing outcomes k with
  | nil => simp [tickets]
  | cons w writes ih => cases outcomes <;> cases k <;> simp [tickets, ih]

theorem tickets_append {writes : List (EndpointId × Frame)} {outcomes : List Ack}
    (h : outcomes.length ≤ writes.length) (w : EndpointId × Frame) :
    tickets (writes ++ [w]) outcomes = tickets writes outcomes ++ [(w.1, none)] := by
  induction writes generalizing outcomes with
  | nil => cases outcomes <;> simp_all [tickets]
  | cons v writes ih =>
    cases outcomes with
    | nil => simpa [tickets] using @ih [] (Nat.zero_le _)
    | cons ack outcomes => simp [tickets, ih (Nat.le_of_succ_le_succ h)]

theorem tickets_resolve {writes : List (EndpointId × Frame)} {outcomes : List Ack}
    (h : outcomes.length < writes.length) (ack : Ack) :
    tickets writes (outcomes ++ [ack]) = resolve ack (tickets writes outcomes) := by
  induction writes generalizing outcomes with
  | nil => simp at h
  | cons v writes ih =>
    cases outcomes with
    | nil => cases writes <;> rfl
    | cons a outcomes => simp [tickets, resolve, ih (Nat.lt_of_succ_lt_succ h)]

theorem length_outcomesOf (id : EndpointId) (events : List Event) :
    (outcomesOf id events).length = (framesOf id events).length := by
  rw [outcomesOf, framesOf, ticketsIn]
  generalize writesIn events = writes
  generalize outcomesIn events = outcomes
  induction writes generalizing outcomes with
  | nil => rfl
  | cons w writes ih =>
    cases outcomes with
    | nil => by_cases hw : w.1 = id <;> simpa [tickets, hw] using ih []
    | cons a outcomes => by_cases hw : w.1 = id <;> simpa [tickets, hw] using ih outcomes

theorem writesIn_append (events more : List Event) :
    writesIn (events ++ more) = writesIn events ++ writesIn more :=
  List.filterMap_append

theorem outcomesIn_append (events more : List Event) :
    outcomesIn (events ++ more) = outcomesIn events ++ outcomesIn more :=
  List.filterMap_append

theorem writesIn_append_of_none {e : Event} (events : List Event) (h : e.write? = none) :
    writesIn (events ++ [e]) = writesIn events := by
  rw [writesIn_append, writesIn, writesIn, List.filterMap_cons_none h]
  exact List.append_nil _

theorem outcomesIn_append_of_none {e : Event} (events : List Event) (h : e.outcome? = none) :
    outcomesIn (events ++ [e]) = outcomesIn events := by
  rw [outcomesIn_append, outcomesIn, outcomesIn, List.filterMap_cons_none h]
  exact List.append_nil _

theorem writesIn_accepted (events : List Event) (writer : EndpointId) (frame : Frame) :
    writesIn (events ++ [.accepted writer frame]) = writesIn events ++ [(writer, frame)] :=
  writesIn_append _ _

theorem framesOf_accepted (events : List Event) (writer : EndpointId)
    (frame : Frame) (id : EndpointId) :
    framesOf id (events ++ [.accepted writer frame]) = framesOf id events ++ if writer =
      id then [frame] else [] := by
  rw [framesOf, writesIn_accepted]
  by_cases hw : writer = id <;> simp [framesOf, hw]

theorem ticketsIn_accepted {events : List Event}
    (h : (outcomesIn events).length ≤ (writesIn events).length) (writer : EndpointId)
    (frame : Frame) :
    ticketsIn (events ++ [.accepted writer frame]) = ticketsIn events ++ [(writer, none)] := by
  rw [ticketsIn, writesIn_accepted, outcomesIn_append_of_none _ rfl, tickets_append h]
  rfl

theorem outcomesOf_accepted {events : List Event}
    (h : (outcomesIn events).length ≤ (writesIn events).length) (writer : EndpointId)
    (frame : Frame) (id : EndpointId) :
    outcomesOf id (events ++ [.accepted writer frame]) = outcomesOf id events ++ if writer =
      id then [none] else [] := by
  rw [outcomesOf, ticketsIn_accepted h]
  by_cases hw : writer = id <;> simp [outcomesOf, hw]

theorem outcomesOf_eq_nil {id : EndpointId} {events : List Event} (h : framesOf id events = []) :
    outcomesOf id events = [] := by
  apply List.eq_nil_of_length_eq_zero
  rw [length_outcomesOf, h]
  rfl

theorem Attributable.of_append {events more : List Event} (h : Attributable (events ++ more)) :
    Attributable events :=
  fun before ack after he => h before ack (after ++ more)
    (by rw [he, List.append_assoc, List.cons_append])

theorem mem_resolve {ack : Ack} {t : EndpointId × Option Ack} {ts : List (EndpointId × Option Ack)}
    (h : t ∈ resolve ack ts) : ∃ t' ∈ ts, t'.1 = t.1 := by
  induction ts with
  | nil => cases h
  | cons v ts ih =>
    obtain ⟨w, o⟩ := v
    cases o with
    | none =>
      rcases List.mem_cons.mp h with rfl | h
      · exact ⟨_, List.mem_cons_self, rfl⟩
      · exact ⟨t, List.mem_cons_of_mem _ h, rfl⟩
    | some a =>
      rcases List.mem_cons.mp h with rfl | h
      · exact ⟨_, List.mem_cons_self, rfl⟩
      · obtain ⟨t', ht', he⟩ := ih h
        exact ⟨t', List.mem_cons_of_mem _ ht', he⟩

theorem resolve_filter (ack : Ack) (id : EndpointId) (ts : List (EndpointId × Option Ack)) :
    (((resolve ack ts).filter (·.1 = id)).map (·.2)).length =
      ((ts.filter (·.1 = id)).map (·.2)).length ∧
      ∀ (k : Nat) (a : Ack), ((ts.filter (·.1 = id)).map (·.2))[k]? = some (some a) →
        (((resolve ack ts).filter (·.1 = id)).map (·.2))[k]? = some (some a) := by
  induction ts with
  | nil => exact ⟨rfl, fun _ _ h => h⟩
  | cons t ts ih =>
    obtain ⟨w, o⟩ := t
    cases o with
    | none =>
      by_cases hw : w = id
      · refine ⟨by simp [resolve, hw], fun k a hk => ?_⟩
        cases k with
        | zero => simp [hw] at hk
        | succ k => simpa [resolve, hw] using hk
      · exact ⟨by simp [resolve, hw], fun k a hk => by simpa [resolve, hw] using hk⟩
    | some b =>
      by_cases hw : w = id
      · refine ⟨by simpa [resolve, hw] using ih.1, fun k a hk => ?_⟩
        cases k with
        | zero => simpa [resolve, hw] using hk
        | succ k => simpa [resolve, hw] using ih.2 k a (by simpa [hw] using hk)
      · exact ⟨by simpa [resolve, hw] using ih.1, fun k a hk => by
          simpa [resolve, hw] using ih.2 k a (by simpa [hw] using hk)⟩

/-- The outbox is what is left of the tickets: an entry shows the outcome of its ticket and belongs
to nobody or to its writer, whose last ticket it then is, and a ticket without an entry has its
outcome. -/
inductive Keeps : List (EndpointId × Option Ack) → Outbox → Prop
  | nil : Keeps [] []
  | keep {t : EndpointId × Option Ack} {ts : List (EndpointId × Option Ack)}
      {e : OutboxEntry} {o : Outbox}
    (rest : Keeps ts o) (outcome : e.outcome = t.2)
    (writer : ∀ w, e.writer = some w → t.1 = w ∧ ∀ t' ∈ ts, t'.1 ≠ w) : Keeps (t :: ts) (e :: o)
  | skip {t : EndpointId × Option Ack} {ts : List (EndpointId × Option Ack)}
      {o : Outbox} (rest : Keeps ts o)
    (outcome : t.2.isSome) : Keeps (t :: ts) o

namespace Keeps
variable {ts : List (EndpointId × Option Ack)} {o o' : Outbox} {id : EndpointId}

theorem push (h : Keeps ts o) (hn : ∀ e ∈ o, e.writer ≠ some id) (address : Address) :
    Keeps (ts ++ [(id, none)]) (o.push address id) := by
  induction h with
  | nil =>
    exact .keep .nil rfl fun w hw => ⟨Option.some.inj hw, fun t ht => absurd ht List.not_mem_nil⟩
  | @keep t ts e o _ outcome writer ih =>
    refine .keep (ih fun e' he' => hn e' (List.mem_cons_of_mem _ he')) outcome fun w hw =>
      ⟨(writer w hw).1, ?_⟩
    intro t' ht'
    rcases List.mem_append.mp ht' with ht' | ht'
    · exact (writer w hw).2 t' ht'
    · rw [List.mem_singleton.mp ht']
      rintro rfl
      exact hn e List.mem_cons_self hw
  | skip _ outcome ih => exact .skip (ih hn) outcome

theorem record (h : Keeps ts o) (ack : Ack) : Keeps (resolve ack ts) ((o.record? ack).getD o) := by
  induction h with
  | nil => exact .nil
  | @keep t ts e o rest outcome writer ih =>
    obtain ⟨w, a⟩ := t
    cases a with
    | none =>
      have hr : e.isResolved = false := by simp [OutboxEntry.isResolved, outcome]
      rw [resolve, Outbox.record?, hr]
      exact .keep rest rfl writer
    | some a =>
      have hr : e.isResolved = true := by simp [OutboxEntry.isResolved, outcome]
      have ho : (Outbox.record? ack (e :: o)).getD (e :: o) = e ::
          (Outbox.record? ack o).getD o := by
        rw [Outbox.record?, if_pos hr]
        cases Outbox.record? ack o <;> rfl
      rw [resolve, ho]
      refine .keep ih outcome fun w' hw => ⟨(writer w' hw).1, fun t' ht' => ?_⟩
      obtain ⟨t, ht, he⟩ := mem_resolve ht'
      exact he ▸ (writer w' hw).2 t ht
  | @skip t ts o rest outcome ih =>
    obtain ⟨w, a⟩ := t
    cases a with
    | none => cases outcome
    | some a => exact .skip ih rfl

/-- Entries may be let go of as long as none without an outcome is. -/
theorem sublist (h : Keeps ts o) (hs : o'.Sublist o)
    (hu : Outbox.unresolvedCount o' = Outbox.unresolvedCount o) :
    Keeps ts o' := by
  induction h generalizing o' with
  | nil =>
    rw [List.sublist_nil.mp hs]
    exact .nil
  | @keep t ts e o _ outcome writer ih =>
    cases hs with
    | cons _ hs =>
      have hle : Outbox.unresolvedCount o' ≤ Outbox.unresolvedCount o := hs.countP_le
      have hr : e.isResolved = true := by
        cases hr : e.isResolved with
        | true => rfl
        | false =>
          simp only [Outbox.unresolvedCount, List.countP_cons, hr] at hu hle
          simp at hu
          omega
      refine .skip (ih hs ?_) (outcome ▸ hr)
      simpa [Outbox.unresolvedCount, hr] using hu
    | cons_cons _ hs =>
      refine .keep (ih hs ?_) outcome writer
      simpa [Outbox.unresolvedCount, List.countP_cons] using hu
  | skip _ outcome ih => exact .skip (ih hs hu) outcome

theorem unresolvedCount_of_sublist (hs : o'.Sublist o) (hg : Outbox.givesUp o o' = false) :
    Outbox.unresolvedCount o' = Outbox.unresolvedCount o := by
  have hle : Outbox.unresolvedCount o' ≤ Outbox.unresolvedCount o := hs.countP_le
  simp only [Outbox.givesUp, Bool.and_eq_false_iff, decide_eq_false_iff_not] at hg
  rcases hg with hg | hg
  · rw [hs.eq_of_length_le (Nat.le_of_not_lt hg)]
  · omega

theorem map (h : Keeps ts o) {f : OutboxEntry → OutboxEntry}
    (hf : ∀ e, (f e).outcome = e.outcome ∧ ((f e).writer = e.writer ∨ (f e).writer = none)) :
    Keeps ts (o.map f) := by
  induction h with
  | nil => exact .nil
  | @keep t ts e o _ outcome writer ih =>
    refine .keep ih ((hf e).1.trans outcome) fun w hw => ?_
    rcases (hf e).2 with he | he
    · exact writer w (he ▸ hw)
    · rw [he] at hw
      cases hw
  | skip _ outcome ih => exact .skip ih outcome

theorem last (h : Keeps ts o) {e : OutboxEntry} (he : e ∈ o) (hw : e.writer = some id) :
    ∃ before, (ts.filter (·.1 = id)).map (·.2) = before ++ [e.outcome] := by
  induction h with
  | nil => cases he
  | @keep t ts e' o _ outcome writer ih =>
    rcases List.mem_cons.mp he with rfl | he
    · obtain ⟨ht, hlast⟩ := writer id hw
      refine ⟨[], ?_⟩
      have hnone : ts.filter (·.1 = id) = [] := List.filter_eq_nil_iff.mpr fun t' ht' => by
        simpa using hlast t' ht'
      simp [ht, hnone, outcome]
    · obtain ⟨before, hb⟩ := ih he
      by_cases ht : t.1 = id
      · exact ⟨t.2 :: before, by simp [ht, hb]⟩
      · exact ⟨before, by simp [ht, hb]⟩
  | @skip t ts o _ outcome ih =>
    obtain ⟨before, hb⟩ := ih he
    by_cases ht : t.1 = id
    · exact ⟨t.2 :: before, by simp [ht, hb]⟩
    · exact ⟨before, by simp [ht, hb]⟩

theorem mem_ticket (h : Keeps ts o) {e : OutboxEntry} (he : e ∈ o) (hw : e.writer = some id) :
    ∃ t ∈ ts, t.1 = id := by
  obtain ⟨before, hb⟩ := h.last he hw
  have hmem : e.outcome ∈ (ts.filter (·.1 = id)).map (·.2) := by
    rw [hb]
    simp
  obtain ⟨t, ht, -⟩ := List.mem_map.mp hmem
  exact ⟨t, (List.mem_filter.mp ht).1, by simpa using (List.mem_filter.mp ht).2⟩

/-- No writer has two entries. -/
theorem pairwise (h : Keeps ts o) : o.Pairwise fun e e' => ∀ w, e.writer = some w →
    e'.writer ≠ some w := by
  induction h with
  | nil => exact .nil
  | @keep t ts e o rest outcome writer ih =>
    refine List.pairwise_cons.mpr ⟨fun e' he' w hw hw' => ?_, ih⟩
    obtain ⟨t', ht', hid⟩ := rest.mem_ticket he' hw'
    exact (writer w hw).2 t' ht' hid
  | skip _ _ ih => exact ih

end Keeps

namespace Outbox
variable {o rest : Outbox} {e : OutboxEntry}

theorem eq_of_mem_record {ack : Ack} (h : e ∈ (o.record? ack).getD o) :
    ∃ e' ∈ o, e' = { e with outcome := e'.outcome } := by
  induction o with
  | nil => exact ⟨e, h, rfl⟩
  | cons e₁ o ih =>
    rw [record?] at h
    split at h
    · have ho : ((record? ack o).map (e₁ :: ·)).getD (e₁ :: o) = e₁ :: (record? ack o).getD o := by
        cases record? ack o <;> rfl
      rw [ho] at h
      rcases List.mem_cons.mp h with rfl | h
      · exact ⟨e, List.mem_cons_self, rfl⟩
      · obtain ⟨e', he', hw⟩ := ih h
        exact ⟨e', List.mem_cons_of_mem _ he', hw⟩
    · rcases List.mem_cons.mp h with rfl | h
      · exact ⟨e₁, List.mem_cons_self, rfl⟩
      · exact ⟨e, List.mem_cons_of_mem _ h, rfl⟩

theorem mem_record {ack : Ack} (h : e ∈ (o.record? ack).getD o) :
    ∃ e' ∈ o, e'.writer = e.writer := by
  obtain ⟨e', he', hsame⟩ := eq_of_mem_record h
  exact ⟨e', he', by rw [hsame]⟩

/-- Letting a conversation go drops entries that have their outcome and takes others from their
writers. -/
theorem release_eq (o : Outbox) (address : Address) (now : Micros) :
    ∃ (kept : Outbox) (f : OutboxEntry → OutboxEntry), (o.release address now).2 = kept.map f ∧
      kept.Sublist o ∧ Outbox.unresolvedCount kept = Outbox.unresolvedCount o ∧
        ∀ e, (f e).outcome = e.outcome ∧ ((f e).writer = e.writer ∨ (f e).writer = none) := by
  refine ⟨_, _, rfl, List.filter_sublist, ?_, fun e => ?_⟩
  · rw [unresolvedCount, unresolvedCount, List.countP_filter]
    apply List.countP_congr
    intro e _
    cases e.isResolved <;> simp
  · dsimp only
    split
    · exact ⟨rfl, .inr rfl⟩
    · exact ⟨rfl, .inl rfl⟩

theorem mem_of_mem_release {address : Address} {now : Micros} {id : EndpointId}
    (he : e ∈ (o.release address now).2) (hw : e.writer = some id) :
    e ∈ o ∧ (e.address = address → e.isDetached = true) := by
  obtain ⟨e₀, he₀, rfl⟩ := List.mem_map.mp he
  dsimp only at hw ⊢
  split at hw
  · cases hw
  · next hfreed =>
    rw [if_neg hfreed]
    refine ⟨(List.mem_filter.mp he₀).1, fun ha => ?_⟩
    simpa [ha] using hfreed

theorem mem_release {address : Address} {now : Micros} {id : EndpointId}
    (he : e ∈ (o.release address now).2) (hw : e.writer = some id) : ∃ e ∈ o, e.writer = some id :=
      ⟨e, (mem_of_mem_release he hw).1, hw⟩

/-- What is delivered has its outcome and leaves the other entries as they are. -/
theorem pop?_eq_some (h : o.pop? = some (e, rest)) :
    e.outcome.isSome ∧ ∃ before after, o = before ++ e :: after ∧ rest = before ++ after := by
  induction o generalizing rest with
  | nil => cases h
  | cons e' o ih =>
    rw [pop?] at h
    split at h
    · obtain ⟨⟨e₁, rest₁⟩, h₁, h₂⟩ := Option.map_eq_some_iff.mp h
      cases h₂
      obtain ⟨ho, before, after, rfl, rfl⟩ := ih h₁
      exact ⟨ho, e' :: before, after, rfl, rfl⟩
    · split at h
      · next hr =>
        cases h
        exact ⟨hr, [], _, rfl, rfl⟩
      · cases h

theorem next_sublist_dropSpent (o : Outbox) (now : Micros) :
    (o.next now).2.Sublist (o.dropSpent now) := by
  unfold next
  dsimp only
  split
  · next e rest hp =>
    obtain ⟨-, before, after, ho, hr⟩ := pop?_eq_some hp
    change rest.Sublist _
    rw [ho, hr]
    exact (List.sublist_cons_self e after).append_left before
  · exact .refl _

theorem next_sublist (o : Outbox) (now : Micros) : (o.next now).2.Sublist o :=
  (next_sublist_dropSpent o now).trans List.filter_sublist

theorem next_eq_some {now : Micros} (h : (o.next now).1 = some e) :
    e ∈ o ∧ e.outcome.isSome ∧
    (o.Pairwise (fun e e' => ∀ w, e.writer = some w → e'.writer ≠ some w) →
      ∀ id, e.writer = some id → ∀ e' ∈ (o.next now).2, e'.writer ≠ some id) := by
  have hd : (o.dropSpent now).Sublist o := List.filter_sublist
  unfold next at h ⊢
  dsimp only at h ⊢
  split at h
  · next e₁ rest hp =>
    cases h
    obtain ⟨hs, before, after, ho, hr⟩ := pop?_eq_some hp
    refine ⟨hd.subset (ho ▸ by simp), hs, fun hpair id hw e' he' => ?_⟩
    have hpair := hpair.sublist hd
    rw [ho, List.pairwise_append] at hpair
    change e' ∈ rest at he'
    rw [hr] at he'
    rcases List.mem_append.mp he' with he' | he'
    · intro hw'
      exact hpair.2.2 e' he' e List.mem_cons_self id hw' hw
    · exact (List.pairwise_cons.mp hpair.2.1).1 e' he' id hw
  · cases h

end Outbox
end CanTransport
