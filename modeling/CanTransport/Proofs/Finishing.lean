import CanTransport.Proofs.Execution
import CanTransport.Proofs.Questions
import CanTransport.Proofs.Queueing

/-! # What is finished still runs until it is retired

A tick lists conversations that it has found running, and while it has the gate nobody takes them
off their identifiers. Between calls everything listed as finished is therefore still running.
-/
namespace CanTransport

namespace Station

/-- The change ends no conversation, and lists as finished at most those in `marked`. -/
def Mild (marked : List Handle) (change : Station → Station) : Prop :=
  ∀ s, (∀ h ∈ s.active.handles, h ∈ (change s).active.handles) ∧
    ∀ h ∈ (change s).finished, h ∈ s.finished ∨ h ∈ marked

def Listed (s : Station) : Prop := ∀ h ∈ s.finished, h ∈ s.active.handles

end Station

def Query.Mild (marked : List Handle) : Query → Prop
  | .acquire lock | .release lock => lock ≠ .gate
  | .access change => Station.Mild marked change
  | _ => True

/-- What runs goes on running as long as the gate is held, and what is listed runs. -/
structure Stands (c c' : Scene) : Prop where
  listed : c.station.Listed → c'.station.Listed
  gate : .gate ∈ c.held → .gate ∈ c'.held
  runs : .gate ∈ c.held → ∀ h ∈ c.station.active.handles, h ∈ c'.station.active.handles

namespace Stands
variable {c c₁ c' : Scene}

theorem refl (c : Scene) : Stands c c := ⟨id, id, fun _ _ hh => hh⟩

theorem trans (h : Stands c c₁) (h' : Stands c₁ c') : Stands c c' :=
  ⟨fun hl => h'.listed (h.listed hl), fun hg => h'.gate (h.gate hg),
    fun hg a ha => h'.runs (h.gate hg) a (h.runs hg a ha)⟩

theorem note (c : Scene) (event : Event) : Stands c (c.note event) :=
  ⟨id, id, fun _ _ hh => hh⟩

end Stands

variable {marked : List Handle}

namespace Station

theorem mild_of_eq {change : Station → Station} (ha : ∀ s, (change s).active = s.active)
    (hf : ∀ s, (change s).finished = s.finished) : Mild marked change :=
  fun s => ⟨fun _ hh => by rwa [ha], fun _ hh => .inl (by rwa [hf] at hh)⟩

theorem startPending_mild : Mild marked startPending := by
  intro s
  have hfold : ∀ (waiting : List Handle) (s : Station), ∀ h ∈ s.active.handles,
      h ∈ (waiting.foldl startOrEnqueue s).active.handles := by
    intro waiting
    induction waiting with
    | nil => exact fun s h hh => hh
    | cons g rest ih =>
      intro s h hh
      apply ih
      unfold startOrEnqueue
      split
      · exact hh
      · next hfree =>
        have hp := ActiveSet.handles_insert_perm (h := g)
            (show s.active.find? g.address = none by simpa using hfree)
        exact hp.mem_iff.mpr (List.mem_cons_of_mem _ hh)
  refine ⟨hfold s.pending { s with pending := [] }, fun h hh => .inl ?_⟩
  rwa [startPending_finished] at hh

theorem beginStep_active (s : Station) (id : EndpointId) (frame : Option Frame) (clock : Micros) :
    (s.beginStep id frame clock).2.active = s.active := by
  unfold beginStep
  dsimp only
  split
  · rfl
  · split <;> rfl

theorem beginStep_mild (id : EndpointId) (frame : Option Frame) (clock : Micros) :
    Mild marked fun s => (s.beginStep id frame clock).2 := by
  refine mild_of_eq (fun s => s.beginStep_active id frame clock) fun s => ?_
  unfold beginStep
  dsimp only
  split
  · rfl
  · split <;> rfl

theorem mild_drop (id : EndpointId) : Mild marked (·.drop id) := by
  exact mild_of_eq (fun s => s.drop_active id) fun s => s.drop_finished id

theorem mild_dropAll (handles : List Handle) : Mild marked (·.dropAll handles) := by
  exact mild_of_eq (fun s => s.dropAll_active handles) fun s => s.dropAll_finished handles

theorem openReception_mild (address : Address) (settings : Settings) :
    Mild marked fun s => (s.openReception address settings).2 := by
  intro s
  dsimp only
  cases ho : s.openReception address settings with
  | mk opened s' =>
    cases opened with
    | none =>
      cases openReception_none ho
      exact ⟨fun h hh => hh, fun h hh => .inl hh⟩
    | some h' =>
      obtain ⟨receiver, rest, hq, -, rfl, rfl⟩ := openReception_some ho
      exact ⟨fun h hh => (ActiveSet.handles_insert_perm hq).mem_iff.mpr (List.mem_cons_of_mem _ hh),
        fun h hh => .inl hh⟩

theorem addSender_active (s : Station) (address : Address) (message : List UInt8)
    (kind : MessageType) (waitLimit : Option UInt8) :
    (s.addSender address message kind waitLimit).2.active = s.active := by
  unfold addSender
  split <;> rfl

theorem addSender_mild (address : Address) (message : List UInt8) (kind : MessageType) :
    Mild marked fun s => (s.addSender address message kind s.waitLimit).2 := by
  refine mild_of_eq (fun s => s.addSender_active address message kind _) fun s => ?_
  unfold addSender
  split <;> rfl

theorem record_mild (ack : Ack) : Mild marked fun s => (s.record ack).2 := by
  refine mild_of_eq (fun s => ?_) fun s => ?_
  · rw [record_outbox]
  · rw [record_outbox]

theorem markFinished_mild {h : Handle} (hm : h ∈ marked) : Mild marked (·.markFinished h) := by
  refine fun s => ⟨fun _ hh => hh, fun g hg => ?_⟩
  rcases List.mem_append.mp hg with hg | hg
  · exact .inl hg
  · rw [List.mem_singleton.mp hg]
    exact .inr hm

end Station

open Station in
theorem Query.Usual.mild {q : Query} {outside begins : Prop} {told : EndpointId → Prop}
    (hq : q.Usual marked outside begins told) : q.Mild marked := by
  cases hq with
  | acquire other => exact other
  | release other => exact other
  | now | available | read | outcome | notify | write => trivial
  | look | configure | stamp | enqueue | adjust | acknowledge | finish | push | deliver | forget =>
    exact mild_of_eq (fun _ => rfl) fun _ => rfl
  | adopt => exact addSender_mild _ _ _
  | start => exact startPending_mild
  | openReception => exact openReception_mild _ _
  | drop => exact mild_drop _
  | dropAll => exact mild_dropAll _
  | begin => exact beginStep_mild _ _ _
  | mark own => exact markFinished_mild own
  | record => exact record_mild _

/-- What is listed was running when the first question was asked, and still runs when the last is.
-/
theorem spans_stands {outside begins : Prop} {told : EndpointId → Prop} :
    Scene.Spans (fun c => ∀ h ∈ marked, .gate ∈ c.held ∧ h ∈ c.station.active.handles) Stands
      (Query.Usual marked outside begins told) where
  keeps hm h g hg := ⟨h.gate (hm g hg).1, h.runs (hm g hg).1 g (hm g hg).2⟩
  refl _ := .refl _
  trans := .trans
  note _ event := .note _ event
  lock _ _ := ⟨id, List.mem_cons_of_mem _, fun _ _ hh => hh⟩
  unlock _ hq := ⟨id, fun hg => (List.mem_erase_of_ne (Ne.symm hq.mild)).mpr hg, fun _ _ hh => hh⟩
  access {c _} hm hq := by
    obtain ⟨hactive, hfinished⟩ := hq.mild c.station
    refine ⟨fun hl h hh => hactive h ?_, id, fun _ => hactive⟩
    exact (hfinished h hh).elim (hl h) fun hmem => (hm h hmem).2

namespace Action
variable {α : Type} {inner : Scene → Scene → Prop} {c c' : Scene}

theorem stands_of_usual {p : Action α} {a : α} (hi : ∀ c c', inner c c' → Stands c c')
    (hp : p.Usual marked True True fun _ => True)
    (hm : ∀ h ∈ marked, .gate ∈ c.held ∧ h ∈ c.station.active.handles) (h : p.Ends inner c a c') :
    Stands c c' := spans_stands.ends (fun _ c c' hin _ => hi c c' hin) hm hp h

theorem stands_of_plain {p : Action α} {a : α} (hi : ∀ c c', inner c c' → Stands c c')
    (hp : p.Usual [] True True fun _ => True) (h : p.Ends inner c a c') :
    Stands c c' := stands_of_usual hi hp nofun h

end Action

namespace Station
open CanTransport.Action

variable {inner : Scene → Scene → Prop} {c c' : Scene}

theorem opening_runs {address : Address} {settings : Settings}
    {opened : Except LockTimeout (Option Handle)} {h' : Handle}
    (h : (withLock .conversations (modifyGet (·.openReception address settings))).Ends inner c
      opened c')
    (hsome : opened.toOption.join = some h') : h' ∈ c'.station.active.handles := by
  rcases ends_withLock.mp h with ⟨rfl, -⟩ | ⟨-, opened, c₂, hb, rfl, rfl⟩
  · cases hsome
  · obtain ⟨rfl, rfl⟩ := ends_modifyGet.mp hb
    change ((c.station.openReception address settings).1) = some h' at hsome
    change h' ∈ ((c.station.openReception address settings).2).active.handles
    cases ho : c.station.openReception address settings with
    | mk opened s' =>
      rw [ho] at hsome
      cases hsome
      obtain ⟨receiver, rest, hq, -, rfl, rfl⟩ := openReception_some ho
      exact (ActiveSet.handles_insert_perm hq).mem_iff.mpr List.mem_cons_self

theorem openReceiver_stands {frame : Frame} {settings : Settings} {a : Unit}
    (hi : ∀ c c', inner c c' → Stands c c') (hgate : .gate ∈ c.held)
    (h : (openReceiver frame settings).Ends inner c a c') : Stands c c' := by
  obtain ⟨opened, c₁, h₁, h₂⟩ := ends_bind.mp h
  have hopen := stands_of_plain hi (opening_usual trivial _ _) h₁
  refine hopen.trans ?_
  cases hsome : opened.toOption.join with
  | none =>
    rw [hsome] at h₂
    obtain ⟨-, rfl⟩ := h₂
    exact .refl c'
  | some h' =>
    rw [hsome] at h₂
    refine stands_of_usual hi (stepAndPassOn_usual trivial (List.mem_singleton_self h') _)
      (fun g hg => ⟨hopen.gate hgate, ?_⟩) h₂
    rw [List.mem_singleton.mp hg]
    exact opening_runs h₁ hsome

theorem retire_listed {a : Unit} (hi : ∀ c c', inner c c' → Stands c c') (hl : c.station.Listed)
    (h : retire.Ends inner c a c') : c'.station.Listed := by
  obtain ⟨taken, c₁, h₁, h₂⟩ := ends_bind.mp h
  rcases ends_withLock.mp h₁ with ⟨rfl, rfl⟩ | ⟨-, retired, c₂, hb, rfl, rfl⟩
  · obtain ⟨-, rfl⟩ := h₂
    exact hl
  · obtain ⟨rfl, rfl⟩ := ends_modifyGet.mp hb
    rw [unlock_access_lock] at h₂
    have hempty : (c.access fun s => s.takeFinished.2).station.Listed := by
      intro h hh
      rw [access_station, takeFinished_finished] at hh
      cases hh
    exact (stands_of_plain hi (asks_bind (report_usual trivial _) fun _ => asks_one (.dropAll _))
      h₂).listed hempty

/-- A tick lists what it has found running, and its list is empty or still runs at the end. -/
theorem tick_listed {a : Unit} (hi : ∀ c c', inner c c' → Stands c c') (hgate : .gate ∈ c.held)
    (hl : c.station.Listed) (h : tick.Ends inner c a c') : c'.station.Listed := by
  obtain ⟨seen, c₁, h₁, h₂⟩ := ends_bind.mp h
  rw [(ends_look h₁).1] at h₂
  cases seen with
  | error e =>
    obtain ⟨-, rfl⟩ := h₂
    exact hl
  | ok s =>
    obtain ⟨_, c₂, h₃, h₄⟩ := ends_bind.mp h₂
    obtain ⟨_, c₃, h₅, h₆⟩ := ends_bind.mp h₄
    obtain ⟨frame, c₄, h₇, h₈⟩ := ends_bind.mp h₆
    have p₄ : Stands c c₄ :=
      ((stands_of_plain hi (settle_usual trivial fun _ => trivial) h₃).trans
        (stands_of_plain hi (startWaiting_usual trivial) h₅)).trans
      (stands_of_plain hi (receiveFrame_usual trivial _) h₇)
    obtain ⟨running, c₅, h₉, h₁₀⟩ := ends_bind.mp h₈
    obtain ⟨hc₅, hrunning⟩ := ends_look h₉
    rw [hc₅] at h₁₀
    cases running with
    | error e =>
      obtain ⟨-, rfl⟩ := h₁₀
      exact p₄.listed hl
    | ok running =>
      rw [hrunning running rfl] at h₁₀
      obtain ⟨tickAt, c₆, h₁₁, h₁₂⟩ := ends_bind.mp h₁₀
      have p₆ : Stands c₄ c₆ := stands_of_plain hi (usual_now trivial) h₁₁
      obtain ⟨left, c₇, h₁₃, h₁₄⟩ := ends_bind.mp h₁₂
      have p₇ : Stands c₆ c₇ := stands_of_usual hi (dispatch_usual trivial (fun h hh => hh) _ _)
        (fun h hh => ⟨p₆.gate (p₄.gate hgate), p₆.runs (p₄.gate hgate) h hh⟩) h₁₃
      have p := (p₄.trans p₆).trans p₇
      cases left with
      | none => exact retire_listed hi (p.listed hl) h₁₄
      | some f =>
        obtain ⟨_, c₈, h₁₅, h₁₆⟩ := ends_bind.mp h₁₄
        exact retire_listed hi ((openReceiver_stands hi (p.gate hgate) h₁₅).listed (p.listed hl))
          h₁₆

theorem throughGate_stands {body : Action Unit} {a : Unit}
    (h : (throughGate body).Ends inner c a c')
    (hbody : ∀ a c₁, (c.lock .gate).station.Listed → body.Ends inner (c.lock .gate) a c₁ →
      c₁.station.Listed) :
    Stands c c' := by
  obtain ⟨b, c₁, h₁, -, rfl⟩ := ends_bind.mp h
  rcases ends_withLock.mp h₁ with ⟨-, rfl⟩ | ⟨hfree, b, c₂, hb, -, rfl⟩
  · exact .refl c'
  · exact ⟨fun hl => hbody b c₂ hl hb, fun hg => absurd hg hfree, fun hg => absurd hg hfree⟩

theorem pacedTick_stands {a : Unit} (hi : ∀ c c', inner c c' → Stands c c')
    (h : pacedTick.Ends inner c a c') :
    Stands c c' := by
  refine throughGate_stands h fun a c₁ hl hb => ?_
  obtain ⟨clock, c₂, h₁, h₂⟩ := ends_bind.mp hb
  obtain ⟨_, c₃, h₃, h₄⟩ := ends_bind.mp h₂
  have p := (stands_of_plain hi (usual_now trivial) h₁).trans
      (stands_of_plain hi (asks_one (.stamp clock)) h₃)
  exact tick_listed hi (p.gate List.mem_cons_self) (p.listed hl) h₄

theorem tickIfDue_stands {a : Unit} (hi : ∀ c c', inner c c' → Stands c c')
    (h : tickIfDue.Ends inner c a c') :
    Stands c c' := by
  obtain ⟨active, c₁, h₁, h₂⟩ := ends_bind.mp h
  obtain ⟨_, -, hin⟩ := ends_ask.mp h₁
  apply (hi _ _ hin).trans
  cases active with
  | false =>
    obtain ⟨-, rfl⟩ := h₂
    exact .refl c'
  | true =>
    refine throughGate_stands h₂ fun a c₂ hl hb => ?_
    obtain ⟨clock, c₃, h₃, h₄⟩ := ends_bind.mp hb
    have p₃ := stands_of_plain hi (usual_now trivial) h₃
    obtain ⟨s, c₄, h₅, h₆⟩ := ends_bind.mp h₄
    obtain ⟨rfl, rfl⟩ := ends_get.mp h₅
    split at h₆
    · obtain ⟨-, rfl⟩ := h₆
      exact p₃.listed hl
    · obtain ⟨_, c₅, h₇, h₈⟩ := ends_bind.mp h₆
      have p := p₃.trans (stands_of_plain hi (asks_one (.stamp clock)) h₇)
      exact tick_listed hi (p.gate List.mem_cons_self) (p.listed hl) h₈

theorem call_stands {call : Call} (hi : ∀ c c', inner c c' → Stands c c')
    (h : call.Ends inner c c') :
    Stands c c' := by
  cases call with
  | request target type message kind =>
    obtain ⟨answer, c₁, h, rfl⟩ := h
    obtain ⟨hlisted, hgate, hruns⟩ := stands_of_plain hi (request_usual _ _ _ _) h
    exact ⟨hlisted, hgate, hruns⟩
  | tickIfDue =>
    obtain ⟨_, h⟩ := h
    exact tickIfDue_stands hi h
  | pacedTick =>
    obtain ⟨_, h⟩ := h
    exact pacedTick_stands hi h
  | settle =>
    obtain ⟨_, h⟩ := h
    exact stands_of_plain hi (settle_usual trivial fun _ => trivial) h
  | setSource source =>
    obtain ⟨_, h⟩ := h
    exact stands_of_plain hi (changeSettings_usual _) h
  | addGroup group =>
    obtain ⟨_, h⟩ := h
    exact stands_of_plain hi (addGroup_usual _) h
  | removeGroup group =>
    obtain ⟨_, h⟩ := h
    exact stands_of_plain hi (removeGroup_usual _) h
  | setBlockSize blockSize =>
    obtain ⟨_, h⟩ := h
    exact stands_of_plain hi (setBlockSize_usual _) h
  | setSeparation separation =>
    obtain ⟨_, h⟩ := h
    exact stands_of_plain hi (setSeparation_usual _) h

theorem episode_stands (depth : Nat) : ∀ c c', Episode depth c c' → Stands c c' := by
  induction depth with
  | zero =>
    rintro c c' rfl
    exact .refl c'
  | succ depth ih =>
    rintro c c' ⟨calls, h⟩
    induction calls generalizing c with
    | nil =>
      cases h
      exact .refl c'
    | cons call rest ihr =>
      obtain ⟨c₁, h₁, h₂⟩ := h
      exact (call_stands ih h₁).trans (ihr c₁ h₂)

/-- Between calls everything listed as finished runs. -/
theorem Reaches.listed {config : Config} (h : Reaches config c) : c.station.Listed := by
  obtain ⟨s, depth, hs, he⟩ := h
  refine (episode_stands depth _ _ he).listed ?_
  obtain ⟨-, rfl⟩ := ofConfig_eq hs
  exact nofun

end Station
end CanTransport
