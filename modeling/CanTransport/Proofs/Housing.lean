import Mathlib.Logic.Relation
import CanTransport.Proofs.Callbacks
import CanTransport.Proofs.Entries
import CanTransport.Proofs.Interludes

/-! # Frames belong to running conversations

Whoever writes runs, and while the gate is held nobody else ends conversations. A conversation that
is over lets go of its entries before it is reported, as long as the outbox can be locked then.
Between calls every entry that is not detached is therefore one of a conversation that runs.
-/
namespace CanTransport
open CanTransport.Action

def Query.Served : (q : Query) → q.Answer → Prop
  | .acquire .outbox, had => had = true
  | _, _ => True

def Scene.Serves (inner : Scene → Scene → Prop) (q : Query) (c : Scene) (a : q.Answer)
    (c' : Scene) : Prop :=
  c.Answers inner q a c' ∧ q.Served a

namespace Station

/-- The call may lead from `c` to `c'`. -/
def Use.Leads (answers : (q : Query) → Scene → q.Answer → Scene → Prop) (u : Use)
    (c c' : Scene) : Prop :=
  ∃ a c₁, u.action.Yields answers c a c₁ ∧
    c' = { c₁ with events := c₁.events ++ u.record c.station a }

/-- Any number of calls, nested less than `depth` deep, of which none has to do without the outbox.
-/
def Unhindered : Nat → Scene → Scene → Prop
  | 0, c, c' => c' = c
  | depth + 1, c, c' =>
    Relation.ReflTransGen (fun c c' => ∃ u : Use, u.Leads (Scene.Serves (Unhindered depth)) c c')
      c c'

/-- An entry that is not detached has been written by an endpoint that runs or is among those in
`besides`. -/
def Houses (besides : List Handle) (s : Station) : Prop :=
  ∀ e ∈ s.outbox, e.isDetached = false → ∃ h ∈ s.active.handles ++ besides, e.writer = some h.id

/-- Conversations go on, and only those in `taking` come to have entries. -/
structure Continues (taking : List Handle) (s s' : Station) : Prop where
  runs : ∀ h ∈ s.active.handles, h ∈ s'.active.handles
  writes : ∀ e ∈ s'.outbox, e.isDetached = false → (∃ h ∈ taking, e.writer = some h.id) ∨
    ∃ e₀ ∈ s.outbox, e₀.isDetached = false ∧ e₀.writer = e.writer

end Station

open Station

variable {inner : Scene → Scene → Prop} {c c' c₁ c₂ : Scene} {g : Hand} {s s' s'' : Station}
  {taking besides : List Handle} {outside begins : Prop} {told : EndpointId → Prop} {α : Type}

namespace Station

theorem Continues.refl (s : Station) :
    s.Continues taking s := ⟨fun _ hh => hh, fun e he live => .inr ⟨e, he, live, rfl⟩⟩

theorem Continues.trans (h : s.Continues taking s') (h' : s'.Continues taking s'') :
    s.Continues taking s'' := by
  refine ⟨fun g hg => h'.runs g (h.runs g hg), fun e he live => ?_⟩
  rcases h'.writes e he live with own | ⟨e₁, he₁, live₁, hw₁⟩
  · exact .inl own
  · rcases h.writes e₁ he₁ live₁ with own | ⟨e₀, he₀, live₀, hw₀⟩
    · exact .inl (hw₁ ▸ own)
    · exact .inr ⟨e₀, he₀, live₀, hw₀.trans hw₁⟩

theorem Continues.of_none (h : s.Continues [] s') : s.Continues taking s' :=
  ⟨h.runs, fun e he live =>
    .inr ((h.writes e he live).resolve_left fun ⟨_, hh, _⟩ => List.not_mem_nil hh)⟩

theorem Houses.continues (h : s.Houses besides) (hl : s.Continues taking s')
    (ht : ∀ h ∈ taking, h ∈ s'.active.handles ++ besides) :
    s'.Houses besides := by
  intro e he live
  rcases hl.writes e he live with ⟨h', hh, hw⟩ | ⟨e₀, he₀, live₀, hw₀⟩
  · exact ⟨h', ht h' hh, hw⟩
  · obtain ⟨h', hh, hw⟩ := h e₀ he₀ live₀
    refine ⟨h', ?_, hw₀.symm.trans hw⟩
    exact List.mem_append.mpr ((List.mem_append.mp hh).imp_left (hl.runs h'))

theorem Houses.still (h : s.Houses besides) (hl : s.Continues [] s') : s'.Houses besides :=
  h.continues hl fun _ hh => absurd hh List.not_mem_nil

theorem addSender_outbox (s : Station) (address : Address) (message : List UInt8)
    (kind : MessageType) (waitLimit : Option UInt8) :
    (s.addSender address message kind waitLimit).2.outbox = s.outbox := by
  unfold addSender
  split <;> rfl

theorem openReception_outbox (s : Station) (address : Address) (settings : Settings) :
    (s.openReception address settings).2.outbox = s.outbox := by
  cases ho : s.openReception address settings with
  | mk opened s' =>
    cases opened with
    | none => exact congrArg outbox (openReception_none ho)
    | some h =>
      obtain ⟨receiver, rest, -, -, -, rfl⟩ := openReception_some ho
      rfl

theorem beginStep_outbox (s : Station) (id : EndpointId) (frame : Option Frame) (clock : Micros) :
    (s.beginStep id frame clock).2.outbox = s.outbox := by
  unfold beginStep
  dsimp only
  split
  · rfl
  · split <;> rfl

end Station

theorem Query.Usual.continues {change : Station → Station}
    (hq : (Query.access change).Usual taking outside begins told) (s : Station) :
    s.Continues taking (change s) := by
  have hruns := (hq.mild s).1
  have same (h : (change s).outbox = s.outbox) : s.Continues taking (change s) :=
    ⟨hruns, fun e he live => .inr ⟨e, h ▸ he, live, rfl⟩⟩
  cases hq with
  | look | configure | stamp | enqueue | adjust | acknowledge | finish | mark => exact same rfl
  | adopt => exact same (addSender_outbox _ _ _ _ _)
  | start => exact same s.startPending_outbox
  | openReception => exact same (openReception_outbox _ _ _)
  | drop id => exact same (s.drop_outbox id)
  | dropAll handles => exact same (s.dropAll_outbox handles)
  | begin => exact same (beginStep_outbox _ _ _ _)
  | @push h own address =>
    refine ⟨hruns, fun e he live => ?_⟩
    rcases List.mem_append.mp he with he | he
    · exact .inr ⟨e, he, live, rfl⟩
    · rw [List.mem_singleton.mp he]
      exact .inl ⟨h, own, rfl⟩
  | record ack =>
    refine ⟨hruns, fun e he live => .inr ?_⟩
    have he : e ∈ (s.record ack).2.outbox := he
    rw [record_outbox] at he
    obtain ⟨e', he', hsame⟩ := Outbox.eq_of_mem_record he
    refine ⟨e', he', ?_, (congrArg OutboxEntry.writer hsame).trans rfl⟩
    rw [hsame]
    exact live
  | deliver clock =>
    exact ⟨hruns, fun e he live => .inr ⟨e, (Outbox.next_sublist _ _).subset he, live, rfl⟩⟩
  | forget address clock =>
    refine ⟨hruns, fun e he live => .inr ?_⟩
    obtain ⟨e₀, he₀, rfl⟩ := List.mem_map.mp he
    split at live
    · cases live
    · next hkept =>
      rw [if_neg hkept]
      exact ⟨e₀, (List.mem_filter.mp he₀).1, live, rfl⟩

theorem Station.Houses.usual {change : Station → Station} (h : s.Houses besides)
    (hq : (Query.access change).Usual [] True True fun _ => True) :
    (change s).Houses besides := h.still (hq.continues s)

/-- From `c` to `c'` conversations go on, only those in `taking` come to have entries, and the gate
is not let go of. -/
structure Scene.Continues (taking : List Handle) (c c' : Scene) : Prop where
  gate : .gate ∈ c.held → .gate ∈ c'.held
  station : c.station.Continues taking c'.station

/-- While the gate is held calls from within write nothing and end nothing. -/
def QuietUnderGate (inner : Scene → Scene → Prop) : Prop :=
  ∀ c c', .gate ∈ c.held → inner c c' → Scene.Continues [] c c'

theorem Scene.Continues.refl (c : Scene) : Scene.Continues taking c c := ⟨id, .refl _⟩

theorem Scene.Continues.trans (h : Scene.Continues taking c c₁)
    (h' : Scene.Continues taking c₁ c') : Scene.Continues taking c c' :=
  ⟨fun hg => h'.gate (h.gate hg), h.station.trans h'.station⟩

theorem QuietUnderGate.continues (hi : QuietUnderGate inner) (hgate : .gate ∈ c.held)
    (h : inner c c') :
    Scene.Continues taking c c' :=
  ⟨(hi c c' hgate h).gate, (hi c c' hgate h).station.of_none⟩

theorem spans_continues : Scene.Spans (fun c => outside → .gate ∈ c.held) (Scene.Continues taking)
      (Query.Usual taking outside begins told) where
  keeps hc h ho := h.gate (hc ho)
  refl _ := .refl _
  trans := .trans
  note _ _ := ⟨id, .refl _⟩
  lock _ _ := ⟨List.mem_cons_of_mem _, .refl _⟩
  unlock _ hq := ⟨(List.mem_erase_of_ne (Ne.symm hq.mild)).mpr, .refl _⟩
  access {c _} _ hq := ⟨id, hq.continues c.station⟩

theorem continues_of_usual {p : Action α} {a : α}
    (hi : outside → .gate ∈ c.held ∧ QuietUnderGate inner) (hp : p.Usual taking outside begins told)
    (h : p.Ends inner c a c') :
    Scene.Continues taking c c' := by
  refine spans_continues.ends ?_ (fun ho => (hi ho).1) hp h
  rintro ⟨q, hq, hout⟩ c c' hin hc
  exact (hi (hq.outside hout)).2.continues (hc (hq.outside hout)) hin

theorem QuietUnderGate.run {p : Action α} {a : α} (hi : QuietUnderGate inner)
    (hgate : .gate ∈ c.held) (hp : p.Usual taking True True fun _ => True)
    (h : p.Ends inner c a c') :
    Scene.Continues taking c c' := continues_of_usual (fun _ => ⟨hgate, hi⟩) hp h

section Served

theorem ends_of_serves {p : Action α} {a : α} (h : p.Yields (Scene.Serves inner) c a c') :
    p.Ends inner c a c' :=
  ends_of_yields (fun _ _ _ _ h => h.1) h

/-- A body under a lock runs with the lock held, or not at all, which does not happen with the lock
of the outbox. -/
theorem serves_withLock {lock : Lock} {body : Action α} {a : Except LockTimeout α}
    (h : (withLock lock body).Yields (Scene.Serves inner) c a c') :
    lock ≠ .outbox ∧ a = .error .expired ∧ c' = c ∨
      lock ∉ c.held ∧ ∃ b c₁, body.Yields (Scene.Serves inner) (c.lock lock) b c₁ ∧ a = .ok b ∧
      c' = c₁.unlock lock := by
  unfold withLock at h
  simp only [Program.bind_eq, Program.pure_eq] at h
  obtain ⟨had, c₁, hl, h₁⟩ := yields_bind.mp h
  obtain ⟨had, rfl, hl, hserved⟩ := yields_ask.mp hl
  rcases hl with ⟨rfl, hfree, rfl⟩ | ⟨rfl, rfl⟩
  · obtain ⟨b, c₂, hb, h₂⟩ := yields_bind.mp h₁
    obtain ⟨_, c₃, hr, rfl, rfl⟩ := yields_bind.mp h₂
    obtain ⟨_, _, rfl, -⟩ := yields_ask.mp hr
    exact .inr ⟨hfree, b, c₂, hb, rfl, rfl⟩
  · refine .inl ⟨?_, h₁⟩
    rintro rfl
    cases hserved

end Served

theorem Scene.Continues.houses (h : Scene.Continues [] c c') (hs : c.station.Houses besides) :
    c'.station.Houses besides := hs.still h.station

namespace Station

section Tick
variable {tasks : List Task} {handles : List Handle} {a : Unit}

theorem openReceiver_houses {frame : Frame} {settings : Settings} (hi : QuietUnderGate inner)
    (hgate : .gate ∈ c.held) (hs : c.station.Houses besides)
    (h : (openReceiver frame settings).Ends inner c a c') : c'.station.Houses besides := by
  obtain ⟨opened, c₁, h₁, h₂⟩ := ends_bind.mp h
  have hopen : Scene.Continues [] c c₁ := hi.run hgate (opening_usual trivial _ _) h₁
  have hopened := hopen.houses hs
  cases hsome : opened.toOption.join with
  | none =>
    rw [hsome] at h₂
    obtain ⟨-, rfl⟩ := h₂
    exact hopened
  | some h' =>
    rw [hsome] at h₂
    have hstep := hi.run (hopen.gate hgate)
      (stepAndPassOn_usual trivial (List.mem_singleton_self h') _) h₂
    refine hopened.continues hstep.station fun g hg =>
      List.mem_append_left _ (hstep.station.runs g ?_)
    rw [List.mem_singleton.mp hg]
    exact opening_runs h₁ hsome

/-- Whoever has its turn in a tick runs. -/
theorem conduct_houses {whole : Bool} (hi : QuietUnderGate inner) (hgate : .gate ∈ c.held)
    (hs : c.station.Houses []) (h : conduct.Ends inner c whole c') : c'.station.Houses [] := by
  obtain ⟨seen, c₁, h₁, h₂⟩ := ends_bind.mp h
  rw [(ends_look h₁).1] at h₂
  cases seen with
  | error e =>
    obtain ⟨-, rfl⟩ := h₂
    exact hs
  | ok s =>
    obtain ⟨_, c₂, h₃, h₄⟩ := ends_bind.mp h₂
    obtain ⟨_, c₃, h₅, h₆⟩ := ends_bind.mp h₄
    obtain ⟨frame, c₄, h₇, h₈⟩ := ends_bind.mp h₆
    have p₂ : Scene.Continues [] c c₂ := hi.run hgate (settle_usual trivial fun _ => trivial) h₃
    have p₃ : Scene.Continues [] c₂ c₃ := hi.run (p₂.gate hgate) (startWaiting_usual trivial) h₅
    have p₄ : Scene.Continues [] c c₄ := (p₂.trans p₃).trans
      (hi.run (p₃.gate (p₂.gate hgate)) (receiveFrame_usual trivial _) h₇)
    obtain ⟨running, c₅, h₉, h₁₀⟩ := ends_bind.mp h₈
    obtain ⟨hc₅, hrunning⟩ := ends_look h₉
    rw [hc₅] at h₁₀
    cases running with
    | error e =>
      obtain ⟨-, rfl⟩ := h₁₀
      exact p₄.houses hs
    | ok running =>
      rw [hrunning running rfl] at h₁₀
      obtain ⟨tickAt, c₆, h₁₁, h₁₂⟩ := ends_bind.mp h₁₀
      have p₆ : Scene.Continues [] c₄ c₆ := hi.run (p₄.gate hgate) (usual_now trivial) h₁₁
      have hgate₆ := p₆.gate (p₄.gate hgate)
      obtain ⟨left, c₇, h₁₃, h₁₄⟩ := ends_bind.mp h₁₂
      have p₇ : Scene.Continues c₄.station.active.handles c₆ c₇ :=
        hi.run hgate₆ (dispatch_usual trivial (fun h hh => hh) _ _) h₁₃
      have hs₇ : c₇.station.Houses [] := ((p₄.trans p₆).houses hs).continues p₇.station fun h' hh =>
        List.mem_append_left _ (p₇.station.runs h' (p₆.station.runs h' hh))
      cases left with
      | none =>
        obtain ⟨-, rfl⟩ := h₁₄
        exact hs₇
      | some f =>
        obtain ⟨_, c₈, h₁₅, -, rfl⟩ := ends_bind.mp h₁₄
        exact openReceiver_houses hi (p₇.gate hgate₆) hs₇ h₁₅

/-- A conversation that is over lets go of its entries. -/
theorem forget_houses {h' : Handle} {untold : List Handle} {released : Except LockTimeout Nat}
    (hs : Sound inner) (hi : QuietUnderGate inner) (hk : Kept { g with untold := h' :: untold } c)
    (hgate : .gate ∈ c.held) (hc : c.station.Houses (h' :: untold))
    (h : (forget h'.address).Yields (Scene.Serves inner) c released c') :
    c'.station.Houses untold := by
  rcases serves_withLock h with ⟨hne, -⟩ | ⟨-, b, c₁, hb, -, rfl⟩
  · exact absurd rfl hne
  · obtain ⟨clock, c₂, hnow, hb⟩ := ends_bind.mp (ends_of_serves hb)
    obtain ⟨-, rfl⟩ := ends_modifyGet.mp hb
    have hk₂ := (hk.lock .outbox).proceed (hs.now (hk.lock .outbox).fits hnow)
    have p : Scene.Continues [] (c.lock .outbox) c₂ :=
      hi.run (List.mem_cons_of_mem _ hgate) (usual_now trivial) hnow
    have hreleased : (c₂.station.releaseEntries h'.address clock).2.Houses (h' :: untold) :=
      (p.houses hc).usual (.forget h'.address clock)
    intro e he live
    obtain ⟨owner, hmem, hw⟩ := hreleased e he live
    have hother : owner ≠ h' :=
      fun heq => (hk₂.accounted.apart_of_forget rfl clock).2.2 e he (heq ▸ hw)
    refine ⟨owner, ?_, hw⟩
    simp only [List.mem_append, List.mem_cons] at hmem ⊢
    exact hmem.imp_right fun hmem => hmem.resolve_left hother

theorem report_houses (hs : Sound inner) (hi : QuietUnderGate inner)
    (hk : Kept { g with untold := handles } c) (hgate : .gate ∈ c.held)
    (hc : c.station.Houses handles) (h : (report handles).Yields (Scene.Serves inner) c a c') :
    c'.station.Houses [] := by
  induction handles generalizing c g with
  | nil =>
    obtain ⟨-, rfl⟩ := h
    exact hc
  | cons h' rest ih =>
    rw [report] at h
    obtain ⟨released, c₁, h₁, h₂⟩ := yields_bind.mp h
    obtain ⟨_, c₂, h₃, h₄⟩ := yields_bind.mp h₂
    have h₃ := ends_of_serves h₃
    have hc₁ := forget_houses hs hi hk hgate hc h₁
    have hk₁ := hk.proceed (forget_proceeds hs hk.fits (ends_of_serves h₁))
    have p : Scene.Continues [] c c₁ := hi.run hgate (forget_usual trivial _) (ends_of_serves h₁)
    have hgate₁ := p.gate hgate
    obtain ⟨path, hheld⟩ := reportEnd_path hs hk₁.fits hgate₁ h₃
    have hk₂ := hk₁.follow path (hk₁.fits.turn hgate₁ path rfl hheld)
    have p₂ : Scene.Continues [] c₁ c₂ := hi.run hgate₁ (reportEnd_usual trivial _) h₃
    exact ih (g := { g with told := g.told ++ [h'] }) hk₂ (p₂.gate hgate₁) (p₂.houses hc₁) h₄

theorem takeFinished_houses (hd : s.active.Distinct) (hs : s.Houses []) :
    s.takeFinished.2.Houses s.takeFinished.1 := by
  obtain ⟨-, -, hkept⟩ := @foldl_retireOne_keeps { s with finished := [] } [] s.finished hd
  intro e hmem live
  rw [takeFinished_outbox] at hmem
  obtain ⟨h', hh, hw⟩ := hs e hmem live
  rw [List.append_nil] at hh
  rcases hkept h' hh with hruns | ⟨h'', hretired, hid⟩
  · exact ⟨h', List.mem_append_left _ hruns, hw⟩
  · exact ⟨h'', List.mem_append_right _ hretired, hw.trans (congrArg some hid.symm)⟩

theorem retire_houses (hs : Sound inner) (hi : QuietUnderGate inner) (hk : Kept { tasks } c)
    (hgate : .gate ∈ c.held) (hc : c.station.Houses [])
    (h : retire.Yields (Scene.Serves inner) c a c') : c'.station.Houses [] := by
  obtain ⟨taken, c₁, h₁, h₂⟩ := yields_bind.mp h
  rcases ends_withLock.mp (ends_of_serves h₁) with ⟨rfl, rfl⟩ | ⟨-, retired, c₂, hb, rfl, rfl⟩
  · obtain ⟨-, rfl⟩ := h₂
    exact hc
  · obtain ⟨rfl, rfl⟩ := ends_modifyGet.mp hb
    rw [unlock_access_lock] at h₂
    obtain ⟨_, c₂, h₃, h₄⟩ := yields_bind.mp h₂
    have path := Path.single (.retire (c := c) (g := { tasks }) rfl rfl)
    have hk₁ := hk.follow path (hk.fits.turn hgate path rfl rfl)
    have hreported :=
      report_houses (g := { tasks }) hs hi hk₁ hgate (takeFinished_houses hk.owned.distinct hc) h₃
    rw [ends_modify.mp (ends_of_serves h₄)]
    exact hreported.usual (.dropAll c.station.takeFinished.1)

theorem tick_houses (hs : Sound inner) (hi : QuietUnderGate inner) (hk : Kept { tasks } c)
    (hgate : .gate ∈ c.held) (hc : c.station.Houses [])
    (h : tick.Yields (Scene.Serves inner) c a c') : c'.station.Houses [] := by
  rw [tick_eq_conduct] at h
  obtain ⟨whole, c₁, h₁, h₂⟩ := yields_bind.mp h
  have h₁ := ends_of_serves h₁
  have p := conduct_proceeds hs hk.fits h₁
  have hc₁ := conduct_houses hi hgate hc h₁
  cases whole with
  | false =>
    obtain ⟨-, rfl⟩ := h₂
    exact hc₁
  | true => exact retire_houses hs hi (hk.proceed p) (p.held ▸ hgate) hc₁ h₂

end Tick

/-- Calls made from within while nobody has the gate. -/
def KeepsHouses (inner : Scene → Scene → Prop) : Prop :=
  ∀ g c c', Kept g c → .gate ∉ c.held → c.station.Houses [] → inner c c' → c'.station.Houses []

section Settle

theorem gate_free {lock : Lock} (hl : lock ≠ .gate) (hfree : .gate ∉ c.held) :
    .gate ∉ (c.lock lock).held := by
  intro hm
  rcases List.mem_cons.mp hm with hm | hm
  · exact hl hm.symm
  · exact hfree hm

theorem pollOutcome_houses {taken : Bool} (hh : KeepsHouses inner) (hk : Kept g c)
    (hfree : .gate ∉ c.held) (hc : c.station.Houses []) (h : pollOutcome.Ends inner c taken c') :
    c'.station.Houses [] := by
  obtain ⟨polled, c₁, h₁, -, rfl⟩ := ends_bind.mp h
  rcases ends_withLock.mp h₁ with ⟨-, rfl⟩ | ⟨-, b, c₂, hb, -, rfl⟩
  · exact hc
  · obtain ⟨ack, c₃, ha, hb⟩ := ends_bind.mp hb
    obtain ⟨_, rfl, c₄, hin, rfl⟩ := ends_ask.mp ha
    have hc₄ := hh g _ c₄ (hk.lock .outbox) (gate_free (by decide) hfree) hc hin
    cases ack with
    | none =>
      obtain ⟨-, rfl⟩ := hb
      exact hc₄
    | some ack =>
      obtain ⟨-, rfl⟩ := ends_modifyGet.mp hb
      exact hc₄.usual (.record ack)

theorem drainUpTo_houses {fuel : Nat} {a : Unit} (hs : Sound inner) (hh : KeepsHouses inner)
    (hk : Kept g c) (hfree : .gate ∉ c.held) (hc : c.station.Houses [])
    (h : (drainUpTo fuel).Ends inner c a c') : c'.station.Houses [] := by
  induction fuel generalizing c with
  | zero =>
    obtain ⟨-, rfl⟩ := h
    exact hc
  | succ fuel ih =>
    obtain ⟨taken, c₁, h₁, h₂⟩ := ends_bind.mp h
    have hc₁ := pollOutcome_houses hh hk hfree hc h₁
    cases taken with
    | false =>
      obtain ⟨-, rfl⟩ := h₂
      exact hc₁
    | true =>
      have p := pollOutcome_proceeds hs hk.fits h₁
      exact ih (hk.proceed p) (p.held ▸ hfree) hc₁ h₂

theorem deliverEntry_houses {e : OutboxEntry} {delivered : Bool} (hh : KeepsHouses inner)
    (hk : Kept g c) (hfree : .gate ∉ c.held) (hc : c.station.Houses [])
    (h : (deliverEntry e).Ends inner c delivered c') : c'.station.Houses [] := by
  rcases deliverEntry_proceeds h with rfl | ⟨id, ack, -, -, -, clock, c₁, hnow, rfl⟩
  · exact hc
  · obtain ⟨_, -, hin⟩ := ends_ask.mp hnow
    have hc₁ := hh g _ c₁ (hk.lock (.endpoint id)) (gate_free nofun hfree) hc hin
    exact hc₁.usual (.acknowledge trivial clock ack)

theorem deliverNext_houses {delivered : Option Bool} (hs : Sound inner) (hh : KeepsHouses inner)
    (hk : Kept g c) (hfree : .gate ∉ c.held) (hc : c.station.Houses [])
    (h : deliverNext.Ends inner c delivered c') :
    c'.station.Houses [] := by
  obtain ⟨entry, c₁, h₁, h₂⟩ := ends_bind.mp h
  rcases ends_withLock.mp h₁ with ⟨rfl, rfl⟩ | ⟨-, entry, c₂, hb, rfl, rfl⟩
  · obtain ⟨-, rfl⟩ := h₂
    exact hc
  obtain ⟨clock, c₃, hnow, hb⟩ := ends_bind.mp hb
  obtain ⟨rfl, rfl⟩ := ends_modifyGet.mp hb
  obtain ⟨_, -, hin⟩ := ends_ask.mp hnow
  have hc₃ := hh g _ c₃ (hk.lock .outbox) (gate_free (by decide) hfree) hc hin
  have hc₄ : (c₃.station.nextDelivery clock).2.Houses [] := hc₃.usual (.deliver clock)
  cases he : (c₃.station.nextDelivery clock).1 with
  | none =>
    rw [he] at h₂
    obtain ⟨-, rfl⟩ := h₂
    exact hc₄
  | some e =>
    rw [he] at h₂
    obtain ⟨delivered, c₄, hd, -, rfl⟩ := ends_bind.mp h₂
    have taken : Proceeds g c ((c₃.access fun s => (s.nextDelivery clock).2).unlock .outbox) :=
      ((hs.now (hk.fits.lock .outbox) hnow).trans (.single (.discard clock) rfl)).under
    exact deliverEntry_houses hh (hk.proceed taken) (taken.held ▸ hfree) hc₄ hd

theorem deliverUpTo_houses {fuel count : Nat} (hs : Sound inner) (hh : KeepsHouses inner)
    (hk : Kept g c) (hfree : .gate ∉ c.held) (hc : c.station.Houses [])
    (h : (deliverUpTo fuel).Ends inner c count c') :
    c'.station.Houses [] := by
  induction fuel generalizing c count with
  | zero =>
    obtain ⟨-, rfl⟩ := h
    exact hc
  | succ fuel ih =>
    obtain ⟨delivered, c₁, h₁, h₂⟩ := ends_bind.mp h
    have hc₁ := deliverNext_houses hs hh hk hfree hc h₁
    cases delivered with
    | none =>
      obtain ⟨-, rfl⟩ := h₂
      exact hc₁
    | some delivered =>
      obtain ⟨rest, c₂, hr, -, rfl⟩ := ends_bind.mp h₂
      have p := deliverNext_proceeds hs hk.fits h₁
      exact ih (hk.proceed p) (p.held ▸ hfree) hc₁ hr

theorem settle_houses {count : Nat} (hs : Sound inner) (hh : KeepsHouses inner) (hk : Kept g c)
    (hfree : .gate ∉ c.held) (hc : c.station.Houses []) (h : settle.Ends inner c count c') :
    c'.station.Houses [] := by
  obtain ⟨_, c₁, hd, hr⟩ := ends_bind.mp h
  obtain ⟨s, c₂, hget, hdrain⟩ := ends_bind.mp hd
  obtain ⟨rfl, rfl⟩ := ends_get.mp hget
  have p := drainUpTo_proceeds hs hk.fits hdrain
  have hc₁ := drainUpTo_houses hs hh hk hfree hc hdrain
  obtain ⟨s, c₃, hget, hdeliver⟩ := ends_bind.mp hr
  obtain ⟨rfl, rfl⟩ := ends_get.mp hget
  exact deliverUpTo_houses hs hh (hk.proceed p) (p.held ▸ hfree) hc₁ hdeliver

end Settle

section Calls
variable {u : Use} {a : Unit}

theorem Use.usual (hu : u.isTick = false) (ho : u = .settle → outside) :
    u.action.Usual taking outside begins fun _ => True := by
  cases u with
  | tickIfDue | pacedTick => cases hu
  | request target type message kind => exact request_usual target type message kind
  | settle => exact settle_usual (ho rfl) fun _ => trivial
  | source | hasGroup | blockSize | separation => exact reading_usual .settings nofun _
  | pendingCount => exact reading_usual .pending nofun _
  | activeCount => exact reading_usual .conversations nofun _
  | unacknowledgedCount => exact reading_usual .outbox nofun _
  | setSource value => exact changeSettings_usual fun s => { s with source := value }
  | addGroup group => exact addGroup_usual group
  | removeGroup group => exact removeGroup_usual group
  | setBlockSize value => exact setBlockSize_usual value
  | setSeparation value => exact setSeparation_usual value
  | availableMemory => exact asks_bind usual_get fun _ => asks_done _

theorem Use.continues (hi : QuietUnderGate inner) (hgate : .gate ∈ c.held)
    (h : u.Leads (Scene.Serves inner) c c') : Scene.Continues [] c c' := by
  obtain ⟨answer, c₁, h, rfl⟩ := h
  have h := ends_of_serves h
  suffices hcontinues : Scene.Continues [] c c₁ from ⟨hcontinues.gate, hcontinues.station⟩
  cases hu : u.isTick with
  | false => exact hi.run hgate (Use.usual hu fun _ => trivial) h
  | true =>
    cases u with
    | tickIfDue =>
      obtain ⟨active, c₂, h₁, h₂⟩ := ends_bind.mp h
      obtain ⟨_, -, hin⟩ := ends_ask.mp h₁
      have p := hi c c₂ hgate hin
      cases active with
      | false =>
        obtain ⟨-, rfl⟩ := h₂
        exact p
      | true =>
        obtain rfl := throughGate_refused (p.gate hgate) h₂
        exact p
    | pacedTick =>
      obtain rfl := throughGate_refused hgate h
      exact .refl _
    | _ => cases hu

theorem throughGate_houses {body : Action Unit} (hk : Kept g c) (hc : c.station.Houses [])
    (h : (throughGate body).Yields (Scene.Serves inner) c a c')
    (hbody : ∀ tasks a c₁, Kept { tasks } (c.lock .gate) → body.Yields (Scene.Serves inner)
      (c.lock .gate) a c₁ → c₁.station.Houses []) : c'.station.Houses [] := by
  obtain ⟨b, c₁, h₁, -, rfl⟩ := yields_bind.mp h
  rcases serves_withLock h₁ with ⟨-, -, rfl⟩ | ⟨hfree, b, c₂, hb, -, rfl⟩
  · exact hc
  · obtain ⟨hu, ht⟩ := hk.fits.gated.resolve_left hfree
    obtain ⟨tasks, untold, told⟩ := g
    cases hu
    cases ht
    exact hbody tasks b c₂ (hk.lock .gate) hb

theorem stampedTick_houses {tasks : List Task} {clock : Micros} (hs : Sound inner)
    (hi : QuietUnderGate inner) (hk : Kept { tasks } c) (hgate : .gate ∈ c.held)
    (hc : c.station.Houses []) (hnow : now.Ends inner c clock c₁)
    (h : ((Action.modify fun s => { s with lastTick := some clock }) >>= fun _ => tick).Yields
      (Scene.Serves inner) c₁ a c') :
    c'.station.Houses [] := by
  have p : Scene.Continues [] c c₁ := hi.run hgate (usual_now trivial) hnow
  obtain ⟨_, c₂, h₁, h₂⟩ := yields_bind.mp h
  obtain rfl := ends_modify.mp (ends_of_serves h₁)
  have q := (hs.now hk.fits hnow).trans (stamp_proceeds _ c₁ clock)
  exact tick_houses hs hi (hk.proceed q) (q.held ▸ hgate) ((p.houses hc).usual (.stamp clock)) h₂

theorem Use.houses (hs : Sound inner) (hi : QuietUnderGate inner) (hh : KeepsHouses inner)
    (hk : Kept g c) (hfree : .gate ∉ c.held) (hc : c.station.Houses [])
    (h : u.Leads (Scene.Serves inner) c c') :
    c'.station.Houses [] := by
  obtain ⟨answer, c₁, h, rfl⟩ := h
  suffices hhouses : c₁.station.Houses [] from hhouses
  have hgate : .gate ∈ (c.lock .gate).held := List.mem_cons_self
  -- settling and the ticks have lemmas of their own; every other call asks usual questions only
  by_cases hsettle : u = .settle
  · subst hsettle
    exact settle_houses hs hh hk hfree hc (ends_of_serves h)
  cases hu : u.isTick with
  | false =>
    have quiet : u.action.Usual [] False True fun _ => True := Use.usual hu hsettle
    exact (continues_of_usual False.elim quiet (ends_of_serves h)).houses hc
  | true =>
    cases u with
    | tickIfDue =>
      obtain ⟨active, c₂, h₁, h₂⟩ := yields_bind.mp h
      obtain ⟨_, -, hin, -⟩ := yields_ask.mp h₁
      have p := hs g c c₂ hk.fits hin
      have hc₂ := hh g c c₂ hk hfree hc hin
      cases active with
      | false =>
        obtain ⟨-, rfl⟩ := h₂
        exact hc₂
      | true =>
        refine throughGate_houses (hk.proceed p) hc₂ h₂ fun tasks a c₃ hk hb => ?_
        obtain ⟨clock, c₄, hnow, hb⟩ := yields_bind.mp hb
        obtain ⟨s, c₅, hget, hb⟩ := yields_bind.mp hb
        obtain ⟨rfl, rfl⟩ := ends_get.mp (ends_of_serves hget)
        split at hb
        · obtain ⟨-, rfl⟩ := hb
          exact (hi.run List.mem_cons_self (usual_now trivial) (ends_of_serves hnow)).houses hc₂
        · exact stampedTick_houses hs hi hk List.mem_cons_self hc₂ (ends_of_serves hnow) hb
    | pacedTick =>
      refine throughGate_houses hk hc h fun tasks a c₂ hk hb => ?_
      obtain ⟨clock, c₃, hnow, hb⟩ := yields_bind.mp hb
      exact stampedTick_houses hs hi hk hgate hc (ends_of_serves hnow) hb
    | _ => cases hu

end Calls

section Unhindered

theorem unhindered_quiet (depth : Nat) : QuietUnderGate (Unhindered depth) := by
  induction depth with
  | zero =>
    rintro c c' - rfl
    exact .refl c'
  | succ depth ih =>
    intro c c' hgate h
    induction h with
    | refl => exact .refl c
    | tail _ h p =>
      obtain ⟨u, h⟩ := h
      exact p.trans (Use.continues ih (p.gate hgate) h)

theorem unhindered_episode (depth : Nat) : ∀ c c', Unhindered depth c c' → Episode depth c c' := by
  induction depth with
  | zero => exact fun c c' h => h
  | succ depth ih =>
    intro c c' h
    induction h with
    | refl => exact ⟨[], rfl⟩
    | tail _ h p =>
      obtain ⟨calls, p⟩ := p
      obtain ⟨u, answer, c₁, h, rfl⟩ := h
      obtain ⟨more, hmore⟩ :=
        Use.calls (u := u) (ends_of_yields (fun _ _ _ _ ha => Scene.Answers.mono ih ha.1) h)
      exact ⟨calls ++ more, p.append hmore⟩

theorem unhindered_sound (depth : Nat) : Sound (Unhindered depth) :=
  fun g c c' hg h => episode_sound depth g c c' hg (unhindered_episode depth c c' h)

theorem unhindered_keepsHouses (depth : Nat) : KeepsHouses (Unhindered depth) := by
  induction depth with
  | zero =>
    rintro g c c' - - hc rfl
    exact hc
  | succ depth ih =>
    intro g c c' hk hfree hc h
    have hall : Kept g c' ∧ c'.held = c.held ∧ c'.station.Houses [] := by
      induction h with
      | refl => exact ⟨hk, rfl, hc⟩
      | @tail c₁ c₂ _ h p =>
        obtain ⟨hk₁, hheld, hc₁⟩ := p
        obtain ⟨u, h⟩ := h
        have single : Unhindered (depth + 1) c₁ c₂ := .single ⟨u, h⟩
        have p := unhindered_sound (depth + 1) g c₁ c₂ hk₁.fits single
        exact ⟨hk₁.proceed p, p.held.trans hheld,
          Use.houses (unhindered_sound depth) (unhindered_quiet depth) ih hk₁ (hheld ▸ hfree)
          hc₁ h⟩
    exact hall.2.2

end Unhindered

end Station
end CanTransport
