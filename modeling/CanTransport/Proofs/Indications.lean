import CanTransport.Proofs.Announcements
import CanTransport.Proofs.Succession

/-! # What the application is told of receptions

On an identifier one reception follows another. A long message is announced, and in the end every
reception is indicated, once. That of a receiver that is still running is the last one, and it has
been announced at most.
-/
namespace CanTransport
open Station

inductive ReceptionEvent
  | announced (id : EndpointId) (length : Nat)
  | indicated (id : EndpointId) (message : List UInt8) (result : TransferResult)
deriving DecidableEq

def Event.reception? (n : Address) : Event → Option ReceptionEvent
  | .told id (.firstFrame address length _) =>
    if address = n then some (.announced id length) else none
  | .told id (.indication address message result _) =>
    if address = n then some (.indicated id message result) else none
  | _ => none

def receptionsOn (n : Address) (events : List Event) : List ReceptionEvent :=
  events.filterMap (Event.reception? n)

/-- The receivers on an identifier. -/
def receiversOn (n : Address) (handles : List Handle) : List Handle :=
  handles.filter fun h => h.role = .receiver ∧ h.address = n

/-- What has been told of a receiver that has not been indicated. -/
def announcements (events : List Event) (h : Handle) : List ReceptionEvent :=
  (announcedBy h.id events).toList.map (.announced h.id)

/-- What the application is told of a reception from its beginning to its end. -/
structure Reception where
  receiver : Handle
  announced : Option Nat
  message : List UInt8
  result : TransferResult

namespace Reception

def events (b : Reception) : List ReceptionEvent :=
  b.announced.toList.map (.announced b.receiver.id) ++ [.indicated b.receiver.id b.message b.result]

/-- What is indicated fits what has been announced, and of a reception that has failed no message is
handed over. -/
structure Sound (b : Reception) : Prop where
  whole : b.result = .ok () → (b.announced.isSome = true ↔ 7 < b.message.length) ∧
    ∀ length, b.announced = some length → length = b.message.length
  failed : b.result ≠ .ok () → b.message = []

end Reception

namespace Stage

/-- The receivers on an identifier that run, or have run and are still to be indicated. -/
def current (x : Stage) (n : Address) : List Handle :=
  receiversOn n (x.hand.untold ++ x.scene.station.active.handles)

end Stage

/-- What has been told of receptions on an identifier are the blocks of the receivers admitted there
before the current ones, and what of these has been announced. -/
def Recounted (n : Address) (events : List Event) (opened current : List Handle) : Prop :=
  ∃ blocks : List Reception,
    receptionsOn n events = blocks.flatMap Reception.events ++
    current.flatMap (announcements events) ∧
      receiversOn n opened = blocks.map (·.receiver) ++ current ∧ ∀ b ∈ blocks, b.Sound

/-- Receivers are admitted once, and on each identifier one after the other, and this is how they
have been told of. -/
structure Narrated (x : Stage) : Prop where
  given : ∀ h ∈ x.scene.opened, h.id < x.scene.station.fresh
  nodup : (x.scene.opened.map (·.id)).Nodup
  single : ∀ n, (x.current n).length ≤ 1
  told : ∀ n, Recounted n x.scene.events x.scene.opened (x.current n)

section Lists
variable {n : Address} {handles more : List Handle} {h : Handle}

theorem receiversOn_append (n : Address) (handles more : List Handle) :
    receiversOn n (handles ++ more) = receiversOn n handles ++ receiversOn n more :=
      List.filter_append ..

theorem mem_receiversOn : h ∈ receiversOn n handles ↔ h ∈ handles ∧ h.role = .receiver ∧
    h.address = n := by
  simp [receiversOn]

theorem receiversOn_singleton (n : Address) (hr : h.role = .receiver) :
    receiversOn n [h] = if h.address = n then [h] else [] := by
  split <;> simp [receiversOn, *]

theorem receiversOn_eq_nil {active : ActiveSet} (hkeyed : ∀ p ∈ active, p.2.address = p.1)
    (quiet : active.find? n = none) :
    receiversOn n active.handles = [] := by
  refine List.filter_eq_nil_iff.mpr fun g hg => ?_
  obtain ⟨key, hmem⟩ := mem_handles.mp hg
  have hkey : g.address = key := hkeyed _ hmem
  have hne : n ≠ key := bne_iff_ne.mp (List.lookup_eq_none_iff.mp quiet _ hmem)
  simp [hkey, hne.symm]

theorem eq_of_perm {α : Type} {l l' : List α} (h : l.Perm l') (hl : l'.length ≤ 1) : l = l' := by
  match l', hl with
  | [], _ => exact h.eq_nil
  | [a], _ => exact List.perm_singleton.mp h

theorem receptionsOn_append (n : Address) (events : List Event) (e : Event) :
    receptionsOn n (events ++ [e]) = receptionsOn n events ++ (e.reception? n).toList := by
  rw [receptionsOn, List.filterMap_append]
  cases hr : e.reception? n <;> simp [receptionsOn, hr]

theorem announcements_append_of_none (events : List Event) {e : Event}
    (he : e.announcement? h.id = none) :
    announcements (events ++ [e]) h = announcements events h := by
  rw [announcements, announcedBy_append_of_none events he]
  rfl

end Lists

namespace Recounted
variable {n : Address} {events : List Event} {opened current : List Handle} {h : Handle}

theorem pass {e : Event} (hr : Recounted n events opened current) (he : e.reception? n = none)
    (ha : ∀ g ∈ current, e.announcement? g.id = none) :
    Recounted n (events ++ [e]) opened current := by
  obtain ⟨blocks, htold, hall, hsound⟩ := hr
  refine ⟨blocks, ?_, hall, hsound⟩
  rw [receptionsOn_append, he, htold, List.flatMap_congr fun g hg =>
    announcements_append_of_none events (ha g hg)]
  exact List.append_nil _

theorem enter (hr : Recounted n events opened current) (hnone : announcedBy h.id events = none) :
    Recounted n events (opened ++ [h]) (current ++ receiversOn n [h]) := by
  obtain ⟨blocks, htold, hall, hsound⟩ := hr
  have hsilent : (receiversOn n [h]).flatMap (announcements events) = [] := by
    refine List.flatMap_eq_nil_iff.mpr fun g hg => ?_
    rw [List.mem_singleton.mp (mem_receiversOn.mp hg).1, announcements, hnone]
    rfl
  refine ⟨blocks, ?_, ?_, hsound⟩
  · rw [List.flatMap_append, hsilent, List.append_nil, htold]
  · rw [receiversOn_append, hall, List.append_assoc]

theorem announce (hr : Recounted n events opened [h]) (hnone : announcedBy h.id events = none)
    (length : Nat) (kind : MessageType) :
    Recounted n (events ++ [.told h.id (.firstFrame n length kind)]) opened [h] := by
  obtain ⟨blocks, htold, hall, hsound⟩ := hr
  refine ⟨blocks, ?_, hall, hsound⟩
  rw [receptionsOn_append, htold]
  simp [announcements, announcedBy_append, hnone, Event.reception?, Event.announcement?]

/-- With its indication the last receiver has a block. -/
theorem indicate {message : List UInt8} {result : TransferResult}
    (hr : Recounted n events opened [h])
    (hs : (Reception.mk h (announcedBy h.id events) message result).Sound) (kind : MessageType) :
    Recounted n (events ++ [.told h.id (.indication n message result kind)]) opened [] := by
  obtain ⟨blocks, htold, hall, hsound⟩ := hr
  refine ⟨blocks ++ [⟨h, announcedBy h.id events, message, result⟩], ?_, ?_, ?_⟩
  · rw [receptionsOn_append, htold]
    simp [Reception.events, announcements, Event.reception?]
  · rw [hall, List.map_append, List.append_nil]
    rfl
  · intro b hb
    rcases List.mem_append.mp hb with hb | hb
    · exact hsound b hb
    · rw [List.mem_singleton.mp hb]
      exact hs

end Recounted

theorem receiversOn_startPending {s : Station} (hs : ∀ h ∈ s.pending, h.role = .sender)
    (n : Address) :
    (receiversOn n s.startPending.active.handles).Perm (receiversOn n s.active.handles) := by
  have hnone : ∀ handles : List Handle, (∀ h ∈ handles, h.role = .sender) →
      receiversOn n handles = [] := by
    intro handles hall
    refine List.filter_eq_nil_iff.mpr fun h hh => ?_
    simp [hall h hh]
  have hperm : (receiversOn n s.startPending.custody).Perm (receiversOn n s.custody) :=
    (startPending_custody s).filter _
  have hwaiting : receiversOn n s.startPending.pending = [] :=
    hnone _ fun h hh => hs h (mem_pending_of_startPending hh)
  rwa [custody, custody, receiversOn_append, receiversOn_append, hnone s.pending hs,
    hwaiting, List.append_nil, List.append_nil] at hperm

theorem takeFinished_perm {c : Scene} {g : Hand} (ho : Orderly ⟨c, g⟩) (hl : Ledger ⟨c, g⟩)
    (hw : Owned ⟨c, g⟩) :
    (c.station.takeFinished.1 ++ c.station.takeFinished.2.active.handles).Perm
      c.station.active.handles := by
  obtain ⟨-, hnodup, hfrom⟩ := hl.custody.retires ho
  have hn : (c.station.active.handles.map (·.id)).Nodup := by
    have hall := hl.custody.nodup
    rw [List.map_append, List.nodup_append] at hall
    exact ((List.sublist_append_left _ _).map _).nodup hall.2.1
  refine (List.perm_ext_iff_of_nodup (.of_map _ hnodup) (.of_map _ hn)).mpr fun h =>
    ⟨hfrom h, fun hh => ?_⟩
  have hkeeps : h ∈ c.station.takeFinished.2.active.handles ∨
      ∃ g ∈ c.station.takeFinished.1, g.id = h.id :=
    (@foldl_retireOne_keeps { c.station with finished := [] } [] c.station.finished hw.distinct).2.2
      h hh
  rcases hkeeps with hafter | ⟨g, hg, hid⟩
  · exact List.mem_append_right _ hafter
  · have hmem := List.mem_append_left c.station.takeFinished.2.active.handles hg
    exact List.inj_on_of_nodup_map hn (hfrom g hmem) hh hid ▸ hmem

variable {x y : Stage} {c : Scene} {g : Hand} {h : Handle} {change : Station → Station}

/-- What is told has to do with no reception. -/
def Event.Quiet (e : Event) : Prop := ∀ n, e.reception? n = none

theorem Event.Quiet.announcement? {e : Event} (h : e.Quiet) (id : EndpointId) :
    e.announcement? id = none := by
  cases e with
  | told source notice =>
    cases notice with
    | firstFrame address length kind =>
      have := h address
      simp [reception?] at this
    | confirm | indication => rfl
  | admitted | accepted | reported => rfl

theorem Event.quiet_of_confirmation {e : Event} {p : EndpointId × Address}
    (h : e.confirmation? = some p) : e.Quiet := by
  cases e with
  | told id notice => cases notice with
    | confirm => exact fun _ => rfl
    | firstFrame | indication => cases h
  | admitted | accepted | reported => cases h

namespace Narrated

theorem still (hx : Narrated x) (hf : x.scene.station.fresh ≤ y.scene.station.fresh)
    (he : y.scene.events = x.scene.events ∨
      ∃ e : Event, e.Quiet ∧ y.scene.events = x.scene.events ++ [e])
    (ho : y.scene.opened = x.scene.opened) (hc : ∀ n, y.current n = x.current n) : Narrated y := by
  constructor
  case given => exact fun h hh => Nat.lt_of_lt_of_le (hx.given h (ho ▸ hh)) hf
  case nodup => exact ho ▸ hx.nodup
  case single => exact fun n => hc n ▸ hx.single n
  intro n
  rw [hc, ho]
  rcases he with he | ⟨e, hq, he⟩
  · exact he ▸ hx.told n
  · exact he ▸ (hx.told n).pass (hq n) fun _ _ => hq.announcement? _

theorem idle (hx : Narrated x) (hf : x.scene.station.fresh ≤ y.scene.station.fresh)
    (he : y.scene.events = x.scene.events ∨
      ∃ e : Event, e.Quiet ∧ y.scene.events = x.scene.events ++ [e])
    (ho : y.scene.opened = x.scene.opened) (ha : y.scene.station.active = x.scene.station.active)
    (hu : y.hand.untold = x.hand.untold) : Narrated y :=
  hx.still hf he ho fun n => by rw [Stage.current, Stage.current, ha, hu]

theorem current_eq {n : Address} (hx : Narrated x) (hh : h ∈ x.current n) : x.current n = [h] := by
  obtain ⟨g, hg⟩ :=
    List.length_eq_one_iff.mp (Nat.le_antisymm (hx.single n) (List.length_pos_of_mem hh))
  rw [hg] at hh ⊢
  rw [List.mem_singleton.mp hh]

theorem start (hx : Narrated ⟨c, g⟩) (hl : Ledger ⟨c, g⟩) :
    Narrated ⟨c.access startPending, g⟩ := by
  have hstay : (c.access startPending).opened = c.opened := Scene.opened_of_stay fun h hh hr => by
    obtain ⟨key, hmem⟩ := mem_handles.mp hh
    refine mem_handles.mpr ⟨key, (mem_active_of_startPending hmem).resolve_left fun ⟨hp, _⟩ => ?_⟩
    rw [hl.senders h hp] at hr
    cases hr
  refine hx.still (sheds_startPending _).fresh (.inl rfl) hstay fun n => eq_of_perm ?_ (hx.single n)
  rw [Stage.current, Stage.current, receiversOn_append, receiversOn_append]
  exact (receiversOn_startPending hl.senders n).append_left _

theorem retire (hx : Narrated ⟨c, g⟩) (ho : Orderly ⟨c, g⟩) (hl : Ledger ⟨c, g⟩) (hw : Owned ⟨c, g⟩)
    (hu : g.untold = []) :
    Narrated ⟨c.access fun s => s.takeFinished.2,
      { g with untold := c.station.takeFinished.1 }⟩ := by
  have hstay : (c.access fun s => s.takeFinished.2).opened =
      c.opened := Scene.opened_of_stay fun h hh _ =>
    (hl.custody.retires ho).2.2 h (List.mem_append_right _ hh)
  refine hx.still (sheds_takeFinished _).fresh (.inl rfl) hstay fun n => eq_of_perm ?_ (hx.single n)
  rw [Stage.current, Stage.current, hu]
  exact (takeFinished_perm ho hl hw).filter _

/-- A receiver that is admitted is the only one on its identifier, and nothing has been told of it.
-/
theorem enter (hx : Narrated x) (ho : Orderly x) (hl : Ledger x) (hs : Storied x)
    (hid : h.id = x.scene.station.fresh) (hr : h.role = .receiver)
    (quiet : x.scene.station.active.find? h.address = none)
    (ha : y.scene.station.active = x.scene.station.active.insert h.address h)
    (hf : y.scene.station.fresh = x.scene.station.fresh + 1) (he : y.scene.events = x.scene.events)
    (hopened : y.scene.opened = x.scene.opened ++ x.scene.station.entrants y.scene.station)
    (hu : x.hand.untold = []) (hu' : y.hand.untold = []) : Narrated y := by
  have hperm : y.scene.station.active.handles.Perm (h :: x.scene.station.active.handles) := by
    rw [ha]
    exact ActiveSet.handles_insert_perm quiet
  have hnew : h ∉ x.scene.station.active.handles := fun hh => by
    have hlt := (ho.genuine h (Stage.mem_handles.mpr (.inr (.inl hh)))).1
    exact absurd hlt (by rw [hid]; exact Nat.lt_irrefl _)
  have hbefore : x.current h.address = [] := by
    rw [Stage.current, hu]
    exact receiversOn_eq_nil hl.keyed quiet
  have hsingle : ∀ n, (x.current n ++ receiversOn n [h]).length ≤ 1 := by
    intro n
    rw [receiversOn_singleton n hr]
    split
    · next hn =>
      rw [← hn, hbefore]
      exact Nat.le_refl 1
    · rw [List.append_nil]
      exact hx.single n
  have hcurrent : ∀ n, y.current n = x.current n ++ receiversOn n [h] := by
    refine fun n => eq_of_perm ?_ (hsingle n)
    rw [Stage.current, Stage.current, hu, hu']
    exact ((hperm.trans (List.perm_append_singleton h _).symm).filter _).trans
      (.of_eq (receiversOn_append n _ [h]))
  rw [Station.entrants_insert hr hnew hperm] at hopened
  constructor
  case given =>
    intro g hg
    rw [hopened] at hg
    rw [hf]
    rcases List.mem_append.mp hg with hg | hg
    · exact Nat.lt_succ_of_lt (hx.given g hg)
    · rw [List.mem_singleton.mp hg, hid]
      exact Nat.lt_succ_self _
  case nodup =>
    rw [hopened, List.map_append, List.nodup_append]
    refine ⟨hx.nodup, List.nodup_singleton _, fun i hi j hj => ?_⟩
    obtain ⟨g, hg, rfl⟩ := List.mem_map.mp hi
    obtain rfl : j = h.id := List.mem_singleton.mp hj
    exact Nat.ne_of_lt (hid.symm ▸ hx.given g hg)
  case single => exact fun n => (hcurrent n).symm ▸ hsingle n
  case told =>
    intro n
    rw [he, hcurrent, hopened]
    exact (hx.told n).enter (hs.fresh h.id (Nat.le_of_eq hid.symm))

/-- What is announced is announced of the only receiver on the identifier, and for the first time.
-/
theorem announce {id : EndpointId} {r next : Endpoint} {length : Nat} {budget : Budget}
    {frame : Option Frame} {now : Micros} (hx : Narrated ⟨c, g⟩) (ho : Orderly ⟨c, g⟩)
    (hl : Ledger ⟨c, g⟩) (hw : Owned ⟨c, g⟩) (hs : Storied ⟨c, g⟩) (idle : id ∉ g.busy)
    (found : c.station.endpoint? id = some r)
    (rests : r.step now frame c.station.budget = (.rest next (.firstFrame length), budget))
    (hu : g.untold = []) (ht : g.told = []) :
    Narrated ⟨(c.access fun s => (s.setBudget budget).modifyEndpoint id fun _ => next).note
        (.told id (.firstFrame r.address length r.kind)), g⟩ := by
  have hnone := (hs.announce ho idle found rests).1
  have hrole := Endpoint.receiver_of_announces rests
  obtain ⟨h, hmem, rfl⟩ := hw.owner id r found
  have howner : h ∈ Stage.current ⟨c, g⟩ r.address := by
    rw [hu, ht, List.append_nil, List.append_nil] at hmem
    have hhandle : r.handle h.id = h := by
      refine (ho.genuine h (Stage.mem_handles.mpr ?_)).2 r found
      exact (List.mem_append.mp hmem).symm.imp_right .inl
    have hh : h.role = .receiver ∧ h.address = r.address := ⟨hhandle ▸ hrole, hhandle ▸ rfl⟩
    refine mem_receiversOn.mpr
      ⟨List.mem_append_right _ ((List.mem_append.mp hmem).resolve_right fun hp => ?_), hh⟩
    rw [hl.senders h hp] at hh
    cases hh.1
  have hstay : (c.access fun s => (s.setBudget budget).modifyEndpoint h.id fun _ => next).opened =
      c.opened :=
    Scene.opened_of_active rfl
  refine ⟨hstay ▸ hx.given, hstay ▸ hx.nodup, hx.single, fun n => ?_⟩
  dsimp only [Scene.note]
  rw [hstay]
  have htold : Recounted n c.events c.opened (Stage.current ⟨c, g⟩ n) := hx.told n
  by_cases hn : r.address = n
  · subst hn
    rw [hx.current_eq howner] at htold
    exact hx.current_eq howner ▸ htold.announce hnone length r.kind
  · refine htold.pass (if_neg hn) fun g' hg' => if_neg fun hid => hn ?_
    obtain ⟨hg', -, hgn⟩ := mem_receiversOn.mp hg'
    rw [hu] at hg'
    have genuine := ho.genuine g' (Stage.mem_handles.mpr (.inr (.inl hg')))
    rw [← hgn, ← genuine.2 r (hid ▸ found)]
    rfl

/-- What is indicated fits what has been announced of the receiver. -/
theorem indicates {seen : Option Endpoint} (hs : Storied ⟨c, g⟩) (genuine : c.station.Genuine h)
    (hr : h.role = .receiver) (sight : seen = none ∨ seen = c.station.endpoint? h.id) :
    ∃ message result, completion h seen = .indication h.address message result h.kind ∧
      (Reception.mk h (announcedBy h.id c.events) message result).Sound := by
  cases seen with
  | none =>
    have hcompletion : completion h none = .indication h.address [] (.error .internal) h.kind := by
      simp [completion, hr]
    exact ⟨[], .error .internal, hcompletion, by simp, fun _ => rfl⟩
  | some r =>
    have hfound := (sight.resolve_left (Option.some_ne_none r)).symm
    have hhandle := genuine.2 r hfound
    cases r with
    | sender s =>
      rw [← hhandle] at hr
      cases hr
    | receiver q =>
      obtain ⟨hwhole, hfailed⟩ := Receiver.Story.message (hs.stored h.id _ hfound)
      have hresult : q.result.getD (.error .internal) = .ok () ↔ q.result = some (.ok ()) := by
        cases q.result <;> simp
      exact ⟨q.message, q.result.getD (.error .internal), rfl, fun hok => hwhole (hresult.mp hok),
        fun hne => hfailed fun hok => hne (hresult.mpr hok)⟩

theorem tell {untold : List Handle} {seen : Option Endpoint} (hx : Narrated ⟨c, g⟩)
    (ho : Orderly ⟨c, g⟩) (hs : Storied ⟨c, g⟩) (next : g.untold = h :: untold)
    (sight : seen = none ∨ seen = c.station.endpoint? h.id) :
    Narrated ⟨c.note (.told h.id (completion h seen)),
      { g with untold, told := g.told ++ [h] }⟩ := by
  have genuine : c.station.Genuine h := ho.genuine h (Stage.mem_handles.mpr (by simp [next]))
  have hcurrent : ∀ n, Stage.current ⟨c, g⟩ n = receiversOn n [h] ++
      receiversOn n (untold ++ c.station.active.handles) := by
    intro n
    rw [Stage.current, next, ← receiversOn_append]
    rfl
  have hfew : ∀ n,
      (receiversOn n [h] ++ receiversOn n (untold ++ c.station.active.handles)).length ≤ 1 :=
    fun n => hcurrent n ▸ hx.single n
  by_cases hr : h.role = .receiver
  · obtain ⟨message, result, hcompletion, hsound⟩ := indicates hs genuine hr sight
    rw [hcompletion]
    refine ⟨hx.given, hx.nodup, fun n => ?_, fun n => ?_⟩
    · have hn := hfew n
      rw [List.length_append] at hn
      exact Nat.le_trans (Nat.le_add_left _ _) hn
    · have htold : Recounted n c.events c.opened (Stage.current ⟨c, g⟩ n) := hx.told n
      rw [hcurrent] at htold
      by_cases hn : h.address = n
      · subst hn
        have hmine : receiversOn h.address [h] = [h] :=
          (receiversOn_singleton _ hr).trans (if_pos rfl)
        have hlast : receiversOn h.address (untold ++ c.station.active.handles) = [] := by
          have hfew := hfew h.address
          rw [hmine, List.length_append] at hfew
          exact List.eq_nil_of_length_eq_zero (Nat.le_zero.mp (Nat.le_of_add_le_add_left hfew))
        rw [hmine, hlast] at htold
        exact hlast ▸ htold.indicate hsound h.kind
      · rw [receiversOn_singleton n hr, if_neg hn] at htold
        exact htold.pass (if_neg hn) fun _ _ => rfl
  · have hno : ∀ n, receiversOn n [h] = [] := fun n => by simp [receiversOn, hr]
    have hsender : h.role = .sender := by
      cases hrole : h.role with
      | sender => rfl
      | receiver => exact absurd hrole hr
    have hquiet : Event.Quiet (.told h.id (completion h seen)) :=
      Event.quiet_of_confirmation ((confirmation?_completion genuine sight).trans (if_pos hsender))
    refine hx.still (Nat.le_refl _) (.inr ⟨_, hquiet, rfl⟩) rfl fun n => ?_
    rw [hcurrent, hno]
    rfl

theorem step (t : Transition x y) (ho : Orderly x) (hl : Ledger x) (hw : Owned x) (hs : Storied x)
    (hx : Narrated x) : Narrated y := by
  cases t with
  | locks => exact hx.idle (Nat.le_refl _) (.inl rfl) rfl rfl rfl
  | configure | adjust | discard | collect | acknowledge | rest | begin | finish | mark | forget =>
    exact hx.idle (Nat.le_refl _) (.inl rfl) (Scene.opened_of_active rfl) rfl rfl
  | accept =>
    exact hx.idle (Nat.le_refl _) (.inr ⟨_, fun _ => rfl, rfl⟩) (Scene.opened_of_active rfl) rfl rfl
  | @request c g sender rest =>
    have hadopted : (c.access fun s => (s.adopt (.sender sender) rest).2).opened = c.opened :=
      Scene.opened_of_active rfl
    refine hx.idle (Nat.le_succ _) (.inr ⟨_, fun _ => rfl, rfl⟩) (Eq.trans ?_ hadopted) rfl rfl
    dsimp only [Scene.note]
    exact Scene.opened_of_active rfl
  | @turnDown c g sender rest =>
    have hadopted : (c.access fun s => (s.adopt (.sender sender) rest).2).opened = c.opened :=
      Scene.opened_of_active rfl
    refine hx.idle (sheds_turnDown ho.numbered _ _).fresh (.inl rfl) (Eq.trans ?_ hadopted) ?_ rfl
    · exact Scene.opened_of_active (drop_active _ _)
    · rw [access_station, access_station, drop_active]
      rfl
  | @poll c g ack =>
    have hactive : (c.station.record ack).2.active = c.station.active := by rw [record_outbox]
    exact hx.idle (sheds_record _ _).fresh (.inr ⟨.reported ack, fun _ => rfl, rfl⟩)
      (Scene.opened_of_active hactive) hactive rfl
  | drop =>
    exact hx.idle (sheds_dropAll _ _).fresh (.inl rfl) (Scene.opened_of_active (by simp))
      (by simp) rfl
  | start => exact hx.start hl
  | @openReception c g q rest address blockSize separation quiet created untold =>
    obtain ⟨rfl, -⟩ := Receiver.create_ok created
    exact hx.enter
      (h := (Endpoint.receiver (.initial address blockSize separation)).handle c.station.fresh)
      ho hl hs
      rfl rfl quiet rfl rfl rfl rfl untold untold
  | announce idle found rests untold told =>
    exact hx.announce ho hl hw hs idle found rests untold told
  | retire untold => exact hx.retire ho hl hw untold
  | tell next sight => exact hx.tell ho hs next (sight.imp_right And.left)

end Narrated

theorem narrated_of_config {config : Config} {s : Station} (h : ofConfig config = .ok s) :
    Narrated ⟨{ station := s }, {}⟩ := by
  obtain ⟨-, rfl⟩ := ofConfig_eq h
  exact ⟨nofun, .nil, fun _ => Nat.zero_le 1, fun _ => ⟨[], rfl, rfl, nofun⟩⟩

/-- At every stage receptions have been told of in their order. -/
theorem Station.Reaches.narrated {config : Config} (h : Reaches config c) : Narrated ⟨c, {}⟩ := by
  refine (h.invariant (P := fun x => Ledger x ∧ Owned x ∧ Storied x ∧ Narrated x)
    (fun s hs => ?_) ?_).2.2.2
  · exact ⟨ledger_of_config hs, owned_of_config hs, storied_of_config hs, narrated_of_config hs⟩
  · rintro x y t ho ⟨hl, hw, hs, hx⟩
    exact ⟨hl.step t ho, hw.step t ho, hs.step t ho, hx.step t ho hl hw hs⟩

namespace Station

/-- Receivers are admitted once each. What the application is told of receptions on an identifier
falls into one block for each receiver ever admitted there that does not run any more, in this
order, and of the one that runs, if there is one, at most the announcement follows. -/
theorem receptions_in_blocks {config : Config} (h : Reaches config c) :
    (c.opened.map (·.id)).Nodup ∧ ∀ n, (receiversOn n c.station.active.handles).length ≤ 1 ∧
      ∃ blocks : List Reception,
        receptionsOn n c.events = blocks.flatMap Reception.events ++
          (receiversOn n c.station.active.handles).flatMap (announcements c.events) ∧
        blocks.map (·.receiver) = (receiversOn n c.opened).filter (· ∉ c.station.active.handles) ∧
        ∀ b ∈ blocks, b.Sound := by
  have hx := h.narrated
  refine ⟨hx.nodup, fun n => ⟨hx.single n, ?_⟩⟩
  obtain ⟨blocks, htold, hall, hsound⟩ := hx.told n
  refine ⟨blocks, htold, ?_, hsound⟩
  have hall : receiversOn n c.opened = blocks.map (·.receiver) ++
      receiversOn n c.station.active.handles := hall
  have hover : ∀ g ∈ blocks.map (·.receiver), g ∉ c.station.active.handles := by
    intro g hg hruns
    have hn : ((receiversOn n c.opened).map (·.id)).Nodup :=
      (List.filter_sublist.map _).nodup hx.nodup
    have hopened : g ∈ receiversOn n c.opened := hall ▸ List.mem_append_left _ hg
    rw [hall, List.map_append, List.nodup_append] at hn
    exact hn.2.2 _ (List.mem_map_of_mem hg) _
      (List.mem_map_of_mem (mem_receiversOn.mpr ⟨hruns, (mem_receiversOn.mp hopened).2⟩)) rfl
  rw [hall, List.filter_append, List.filter_eq_self.mpr fun g hg => decide_eq_true (hover g hg)]
  rw [List.filter_eq_nil_iff.mpr fun g hg => by
    simpa using (mem_receiversOn.mp hg).1, List.append_nil]

def answered : Scene := ({ clock := 300000, inbound := some following } : Calm).tick true id holding

theorem reaches_answered : Reaches { source := 0xF1 } answered :=
  reaches_holding.tick (w := { clock := 300000, inbound := some following }) rfl rfl
    (Calm.ticks_tick (fun _ => rfl) (fun _ => rfl) true holding)

/-- The message that the outcome made whole has been announced with its eight bytes and indicated
with them. Of the one that followed, which was dropped, nothing has been told. -/
theorem receptions_in_blocks_answered : answered.opened.map (·.id) = [0] ∧
    ∃ blocks : List Reception, [.announced 0 8, .indicated 0 [1, 2, 3, 4, 5, 6, 7, 8] (.ok ())] =
      blocks.flatMap Reception.events ∧
    blocks.map (·.receiver) = receiversOn (.physical 0xF1 0x10) answered.opened ∧
    ∀ b ∈ blocks, b.Sound := by
  obtain ⟨-, hall⟩ := receptions_in_blocks reaches_answered
  obtain ⟨-, blocks, htold, hreceivers, hsound⟩ := hall (.physical 0xF1 0x10)
  have hidle : answered.station.active.handles = [] := rfl
  have hevents : receptionsOn (.physical 0xF1 0x10) answered.events =
      [.announced 0 8, .indicated 0 [1, 2, 3, 4, 5, 6, 7, 8] (.ok ())] := rfl
  rw [hidle, hevents] at htold
  rw [hidle] at hreceivers
  refine ⟨rfl, blocks, by simpa [receiversOn] using htold, ?_, hsound⟩
  simpa using hreceivers

end Station
end CanTransport
