import CanTransport.Proofs.Ticking

/-! # Calm surroundings

A lock is had unless the tick holds it already. Calls are made from within while a frame is read, or
when the listener has been told something. Which frames are accepted and which outcomes are reported
stays open, and how far the clock moves on.
-/
namespace CanTransport
open CanTransport.Action

/-- From `c` the program may end with value `a` in `c'`, if `answers` says how questions are
answered. -/
def Program.Yields {α : Type} (answers : (q : Query) → Scene → q.Answer → Scene → Prop) :
    Action α → Scene → α → Scene → Prop
  | .done value, c, a, c' => a = value ∧ c' = c
  | .ask q next, c, a, c' =>
    ∃ answer c₁, answers q c answer c₁ ∧ (next answer).Yields answers c₁ a c'

structure Calm where
  clock : Micros
  /-- The clock may move on. -/
  moving : Bool := false
  /-- The frame that is there to be read. -/
  inbound : Option Frame := none
  /-- What comes about while it is read. -/
  reading : Scene → Scene → Prop := Eq
  /-- What comes about when the listener has been told something. -/
  heeding : Scene → Scene → Prop := Eq
  /-- Every frame is accepted. -/
  willing : Bool := false

namespace Calm

/-- What the clock may show. -/
def Shows (w : Calm) (clock : Micros) : Prop :=
  w.clock ≤ clock ∧ (w.moving = false → clock = w.clock)

structure Still (w : Calm) : Prop where
  clock : w.moving = false
  listener : w.heeding = Eq

/-- Whatever is called goes by `inner`. -/
structure GoesBy (w : Calm) (inner : Scene → Scene → Prop) : Prop where
  reading : ∀ c c', w.reading c c' → inner c c'
  heeding : ∀ c c', w.heeding c c' → inner c c'
  nothing : ∀ c, inner c c

def Answers (w : Calm) : (q : Query) → Scene → q.Answer → Scene → Prop
  | .acquire lock, c, had, c' => had = decide (lock ∉ c.held) ∧ c' = if had then c.lock lock else c
  | .release lock, c, _, c' => c' = c.unlock lock
  | .access change, c, before, c' => before = c.station ∧ c' = c.access change
  | .now, c, clock, c' => w.Shows clock ∧ c' = c
  | .isActive, c, active, c' => active = true ∧ c' = c
  | .available, c, count, c' => (w.inbound ≠ none → count ≠ 0) ∧ c' = c
  | .read, c, frame, c' => frame = w.inbound ∧ w.reading c c'
  | .write writer frame, c, accepted, c' =>
    (w.willing = true → accepted = true) ∧
      c' = if accepted then c.note (.accepted writer frame) else c
  | .outcome, c, ack, c' => c' = match ack with
    | some ack => c.note (.reported ack)
    | none => c
  | .notify source notice, c, _, c' => w.heeding (c.note (.told source notice)) c'

/-- A tick in these surroundings leads from `c` to `c'`. -/
inductive Ticks (w : Calm) (c c' : Scene) : Prop
  | paced (h : Station.pacedTick.Yields w.Answers c () c')
  | due (rested : c.station.Rested w.clock) (h : Station.tickIfDue.Yields w.Answers c () c')

end Calm

namespace Action
variable {α β : Type} {answers : (q : Query) → Scene → q.Answer → Scene → Prop}
  {inner : Scene → Scene → Prop} {c c' : Scene} {w : Calm} {lock : Lock}

theorem yields_bind {p : Action α} {f : α → Action β} {b : β} :
    (p.bind f).Yields answers c b c' ↔ ∃ a c₁, p.Yields answers c a c₁ ∧
    (f a).Yields answers c₁ b c' := by
  induction p generalizing c with
  | done value =>
    constructor
    · intro h
      exact ⟨value, c, ⟨rfl, rfl⟩, h⟩
    · rintro ⟨a, c₁, ⟨rfl, rfl⟩, h⟩
      exact h
  | ask q next ih =>
    constructor
    · rintro ⟨answer, c₁, ha, h⟩
      obtain ⟨a, c₂, hp, hf⟩ := (ih answer).mp h
      exact ⟨a, c₂, ⟨answer, c₁, ha, hp⟩, hf⟩
    · rintro ⟨a, c₂, ⟨answer, c₁, ha, hp⟩, hf⟩
      exact ⟨answer, c₁, ha, (ih answer).mpr ⟨a, c₂, hp, hf⟩⟩

theorem yields_ask {q : Query} {f : q.Answer → α} {a : α} :
    (Program.ask q fun answer => .done (f answer) : Action α).Yields answers c a c' ↔
      ∃ answer, a = f answer ∧ answers q c answer c' := by
  constructor
  · rintro ⟨answer, c₁, ha, rfl, rfl⟩
    exact ⟨answer, rfl, ha⟩
  · rintro ⟨answer, rfl, ha⟩
    exact ⟨answer, c', ha, rfl, rfl⟩

/-- What may come about in surroundings that are known may come about. -/
theorem ends_of_yields (h : ∀ q (c : Scene) a c', answers q c a c' → c.Answers inner q a c')
    {p : Action α} {a : α} (hp : p.Yields answers c a c') : p.Ends inner c a c' := by
  induction p generalizing c with
  | done value => exact hp
  | ask q next ih =>
    obtain ⟨answer, c₁, ha, hp⟩ := hp
    exact ⟨answer, c₁, h q c answer c₁ ha, ih answer hp⟩

theorem yields_run {answer : (q : Query) → Scene → q.Answer × Scene}
    (h : ∀ q (c : Scene), answers q c (answer q c).1 (answer q c).2) (p : Action α) (c : Scene) :
    p.Yields answers c (p.run answer c).1 (p.run answer c).2 := by
  induction p generalizing c with
  | done value => exact ⟨rfl, rfl⟩
  | ask q next ih => exact ⟨_, _, h q c, ih _ _⟩

theorem calm_modify {change : Station → Station} {a : Unit} :
    (modify change).Yields w.Answers c a c' ↔ c' = c.access change :=
  yields_ask.trans ⟨fun ⟨_, _, _, h⟩ => h, fun h => ⟨c.station, rfl, rfl, h⟩⟩

theorem calm_modifyGet {change : Station → α × Station} {a : α} :
    (modifyGet change).Yields w.Answers c a c' ↔
      a = (change c.station).1 ∧ c' = c.access fun s => (change s).2 := by
  refine yields_ask.trans ⟨?_, ?_⟩
  · rintro ⟨_, rfl, rfl, h⟩
    exact ⟨rfl, h⟩
  · rintro ⟨rfl, h⟩
    exact ⟨c.station, rfl, rfl, h⟩

theorem calm_get {a : Station} : get.Yields w.Answers c a c' ↔ a = c.station ∧ c' = c := by
  refine yields_ask.trans ⟨?_, ?_⟩
  · rintro ⟨_, rfl, rfl, h⟩
    exact ⟨rfl, h.trans (access_id c)⟩
  · rintro ⟨rfl, h⟩
    exact ⟨_, rfl, rfl, h.trans (access_id c).symm⟩

theorem calm_now {clock : Micros} : now.Yields w.Answers c clock c' ↔ w.Shows clock ∧ c' = c :=
  yields_ask.trans ⟨fun ⟨_, rfl, h⟩ => h, fun h => ⟨clock, rfl, h⟩⟩

theorem calm_notify {source : EndpointId} {notice : Notice} {a : Unit} :
    (notify source notice).Yields w.Answers c a c' ↔ w.heeding (c.note (.told source notice)) c' :=
  yields_ask.trans ⟨fun ⟨_, _, h⟩ => h, fun h => ⟨(), rfl, h⟩⟩

theorem calm_withLock {body : Action α} {a : Except LockTimeout α} (hfree : lock ∉ c.held) :
    (withLock lock body).Yields w.Answers c a c' ↔
      ∃ b c₁, body.Yields w.Answers (c.lock lock) b c₁ ∧ a = .ok b ∧ c' = c₁.unlock lock := by
  unfold withLock
  simp only [Program.bind_eq, Program.pure_eq]
  rw [yields_bind]
  constructor
  · rintro ⟨had, c₁, hl, h⟩
    obtain ⟨had, rfl, rfl, rfl⟩ := yields_ask.mp hl
    rw [if_pos (by simpa using hfree), if_pos (by simpa using hfree)] at h
    obtain ⟨b, c₂, hb, h⟩ := yields_bind.mp h
    obtain ⟨_, c₃, hr, rfl, rfl⟩ := yields_bind.mp h
    obtain ⟨_, _, rfl⟩ := yields_ask.mp hr
    exact ⟨b, c₂, hb, rfl, rfl⟩
  · rintro ⟨b, c₁, hb, rfl, rfl⟩
    refine ⟨true, c.lock lock, yields_ask.mpr ⟨true, rfl, by simpa using hfree, rfl⟩, ?_⟩
    exact yields_bind.mpr
      ⟨b, c₁, hb, yields_bind.mpr ⟨(), _, yields_ask.mpr ⟨(), rfl, rfl⟩, rfl, rfl⟩⟩

theorem calm_withLock_cases {body : Action α} {a : Except LockTimeout α}
    (h : (withLock lock body).Yields w.Answers c a c') :
    a = .error .expired ∧ c' = c ∨
      ∃ b c₁, body.Yields w.Answers (c.lock lock) b c₁ ∧ a = .ok b ∧ c' = c₁.unlock lock := by
  by_cases hl : lock ∈ c.held
  · obtain ⟨had, c₁, ⟨rfl, rfl⟩, h₁⟩ := h
    rw [decide_eq_false (not_not_intro hl)] at h₁
    exact .inl h₁
  · exact .inr ((calm_withLock hl).mp h)

theorem calm_look {a : Except LockTimeout Station} (hfree : lock ∉ c.held)
    (h : (withLock lock get).Yields w.Answers c a c') : a = .ok c.station ∧ c' = c := by
  obtain ⟨b, c₁, hb, rfl, rfl⟩ := (calm_withLock hfree).mp h
  obtain ⟨rfl, rfl⟩ := calm_get.mp hb
  exact ⟨rfl, unlock_lock c lock⟩

end Action

namespace Calm
variable {w : Calm} {inner : Scene → Scene → Prop} {c c' : Scene}

theorem Still.shows (hw : w.Still) {clock : Micros} (h : w.Shows clock) :
    clock = w.clock := h.2 hw.clock

theorem shows_clock (w : Calm) : w.Shows w.clock := ⟨Nat.le_refl _, fun _ => rfl⟩

theorem goesBy_of_eq (hr : w.reading = Eq) (hh : w.heeding = Eq) (hi : ∀ c, inner c c) :
    w.GoesBy inner where
  reading c c' h := by
    rw [hr] at h
    exact h ▸ hi c
  heeding c c' h := by
    rw [hh] at h
    exact h ▸ hi c
  nothing := hi

theorem Answers.possible (hi : w.GoesBy inner) {q : Query} {a : q.Answer} (h : w.Answers q c a c') :
    c.Answers inner q a c' := by
  cases q with
  | acquire lock =>
    obtain ⟨rfl, rfl⟩ := h
    by_cases hl : lock ∈ c.held
    · exact .inr ⟨by simpa using hl, by simp [hl]⟩
    · exact .inl ⟨by simpa using hl, hl, by simp [hl]⟩
  | release lock => exact h
  | access change => exact h
  | now | isActive | available =>
    obtain ⟨-, rfl⟩ := h
    exact hi.nothing _
  | read => exact hi.reading _ _ h.2
  | write writer frame => exact ⟨c, hi.nothing c, h.2⟩
  | outcome => exact ⟨c, hi.nothing c, h⟩
  | notify source notice => exact hi.heeding _ _ h

theorem ends {α : Type} {p : Action α} {a : α} (hi : w.GoesBy inner)
    (h : p.Yields w.Answers c a c') :
    p.Ends inner c a c' :=
  ends_of_yields (fun _ _ _ _ => Answers.possible hi) h

open Station in
/-- A tick in calm surroundings is a call like others. -/
theorem Ticks.call (hi : w.GoesBy inner) (h : w.Ticks c c') :
    ∃ call : Call, call.Ends inner c c' := by
  cases h with
  | paced h => exact ⟨.pacedTick, (), ends hi h⟩
  | due rested h => exact ⟨.tickIfDue, (), ends hi h⟩

theorem calm_throughGate {body : Action Unit} {a : Unit} (hfree : .gate ∉ c.held)
    (h : (Station.throughGate body).Yields w.Answers c a c') :
    ∃ c₁, body.Yields w.Answers (c.lock .gate) () c₁ ∧ c' = c₁.unlock .gate := by
  obtain ⟨_, c₁, h₁, -, rfl⟩ := yields_bind.mp h
  obtain ⟨_, c₂, h₂, -, rfl⟩ := (calm_withLock hfree).mp h₁
  exact ⟨c₂, h₂, rfl⟩

theorem Ticks.begun (hfree : .gate ∉ c.held) (h : w.Ticks c c') : ∃ clock c₁, w.Shows clock ∧
    Station.tick.Yields w.Answers ((c.lock .gate).access (·.ticked clock)) () c₁ ∧
    c' = c₁.unlock .gate := by
  cases h with
  | paced h =>
    obtain ⟨c₁, h₁, rfl⟩ := calm_throughGate hfree h
    obtain ⟨clock, c₂, hnow, h₂⟩ := yields_bind.mp h₁
    obtain ⟨hshown, rfl⟩ := calm_now.mp hnow
    obtain ⟨_, c₃, hstamp, h₃⟩ := yields_bind.mp h₂
    obtain rfl := calm_modify.mp hstamp
    exact ⟨clock, c₁, hshown, h₃, rfl⟩
  | due rested h =>
    obtain ⟨_, c₁, hactive, h₁⟩ := yields_bind.mp h
    obtain ⟨_, rfl, rfl, rfl⟩ := yields_ask.mp hactive
    obtain ⟨c₂, h₂, rfl⟩ := calm_throughGate hfree h₁
    obtain ⟨clock, c₃, hnow, h₃⟩ := yields_bind.mp h₂
    obtain ⟨hshown, rfl⟩ := calm_now.mp hnow
    obtain ⟨_, c₄, hget, h₄⟩ := yields_bind.mp h₃
    obtain ⟨rfl, rfl⟩ := calm_get.mp hget
    have hdue : ¬ (c₁.station.lastTick.any fun last => clock - last < c₁.station.runPeriod) =
        true := by
      cases hl : c₁.station.lastTick with
      | none => exact Bool.false_ne_true
      | some last =>
        have hrested := Nat.le_trans (rested last hl) (Nat.sub_le_sub_right hshown.1 last)
        simpa using hrested
    have h₅ : Program.Yields w.Answers _ (c₁.lock .gate) () c₂ := (if_neg hdue) ▸ h₄
    obtain ⟨_, c₅, hstamp, h₆⟩ := yields_bind.mp h₅
    obtain rfl := calm_modify.mp hstamp
    exact ⟨clock, c₂, hshown, h₆, rfl⟩

deriving instance DecidableEq for Event, Station, Scene

/-- A responder for calm surroundings: every frame is accepted, outcomes are successes and reported
or not, and `during` comes about while a frame is read. -/
def respond (w : Calm) (reports : Bool) (during : Scene → Scene) :
    (q : Query) → Scene → q.Answer × Scene
  | .acquire lock, c => if lock ∈ c.held then (false, c) else (true, c.lock lock)
  | .release lock, c => ((), c.unlock lock)
  | .access change, c => (c.station, c.access change)
  | .now, c => (w.clock, c)
  | .isActive, c => (true, c)
  | .available, c => (if w.inbound.isSome then 1 else 0, c)
  | .read, c => (w.inbound, during c)
  | .write writer frame, c => (true, c.note (.accepted writer frame))
  | .outcome, c =>
    if reports ∧ 0 < c.station.outbox.unresolvedCount then
      (some .success, c.note (.reported .success)) else (none, c)
  | .notify source notice, c => ((), c.note (.told source notice))

def tick (w : Calm) (reports : Bool) (during : Scene → Scene) (c : Scene) : Scene :=
  (Station.pacedTick.run (w.respond reports during) c).2

variable {reports : Bool} {during : Scene → Scene} {fits : Scene → Bool} {α : Type}

theorem answers_respond (hh : ∀ c, w.heeding c c) (q : Query)
    (h : q = .read → w.reading c (during c)) :
    w.Answers q c (w.respond reports during q c).1 (w.respond reports during q c).2 := by
  cases q with
  | acquire lock =>
    unfold respond
    dsimp only
    split
    · next hl => exact ⟨by simp [hl], rfl⟩
    · next hl => exact ⟨by simp [hl], rfl⟩
  | release lock => rfl
  | access change => exact ⟨rfl, rfl⟩
  | now => exact ⟨w.shows_clock, rfl⟩
  | isActive => exact ⟨rfl, rfl⟩
  | available =>
    refine ⟨fun hf => ?_, rfl⟩
    obtain ⟨f, hf⟩ := Option.ne_none_iff_exists'.mp hf
    simp [respond, hf]
  | read => exact ⟨rfl, h rfl⟩
  | write writer frame => exact ⟨fun _ => rfl, rfl⟩
  | outcome =>
    unfold respond
    dsimp only
    split
    · rfl
    · rfl
  | notify source notice => exact hh _

theorem ticks_tick (h : ∀ c, w.reading c (during c)) (hh : ∀ c, w.heeding c c)
    (reports : Bool) (c : Scene) :
    w.Ticks c (w.tick reports during c) :=
  .paced (yields_run (fun q c => answers_respond hh q fun _ => h c) _ c)

/-- Whether `fits` holds of the scenes in which this responder is asked for a frame. -/
def readsIn (w : Calm) (reports : Bool) (during : Scene → Scene) (fits : Scene → Bool) :
    Action α → Scene → Bool
  | .done _, _ => true
  | .ask q next, c =>
    (match q with
      | .read => fits c
      | _ =>
        true) && w.readsIn reports during fits (next (w.respond reports during q c).1)
          (w.respond reports during q c).2

theorem yields_of_readsIn (h : ∀ c, fits c = true → w.reading c (during c))
    (hh : ∀ c, w.heeding c c) (p : Action α) (c : Scene)
    (hp : w.readsIn reports during fits p c = true) :
    p.Yields w.Answers c (p.run (w.respond reports during) c).1
      (p.run (w.respond reports during) c).2 := by
  induction p generalizing c with
  | done value => exact ⟨rfl, rfl⟩
  | ask q next ih =>
    obtain ⟨hq, hp⟩ := Bool.and_eq_true_iff.mp hp
    refine ⟨_, _, answers_respond hh q fun hread => ?_, ih _ _ hp⟩
    subst hread
    exact h c hq

theorem ticks_of_readsIn (h : ∀ c, fits c = true → w.reading c (during c)) (hh : ∀ c, w.heeding c c)
    (c : Scene) (hc : w.readsIn reports during fits Station.pacedTick c = true) :
    w.Ticks c (w.tick reports during c) :=
  .paced (yields_of_readsIn h hh _ c hc)

end Calm

namespace Station
variable {w : Calm} {config : Config} {c c' : Scene} {inner : Scene → Scene → Prop}

theorem Calls.append {calls calls' : List Call} {c₁ : Scene} (h : Calls inner calls c c₁)
    (h' : Calls inner calls' c₁ c') :
    Calls inner (calls ++ calls') c c' := by
  induction calls generalizing c with
  | nil =>
    obtain rfl : c₁ = c := h
    exact h'
  | cons call rest ih =>
    obtain ⟨c₂, h₁, h₂⟩ := h
    exact ⟨c₂, h₁, ih h₂⟩

theorem episode_refl (depth : Nat) (c : Scene) : Episode depth c c := by
  cases depth with
  | zero => rfl
  | succ depth => exact ⟨[], rfl⟩

/-- Where nothing is called from within, a tick leads from one scene that is reached to another. -/
theorem Reaches.tick (h : Reaches config c) (hr : w.reading = Eq) (hh : w.heeding = Eq)
    (ht : w.Ticks c c') :
    Reaches config c' := by
  have hcall (depth : Nat) : ∃ call : Call, call.Ends (Episode depth) c c' :=
    ht.call (Calm.goesBy_of_eq hr hh (episode_refl depth))
  obtain ⟨s, depth, hs, he⟩ := h
  cases depth with
  | zero =>
    obtain rfl : c = { station := s } := he
    obtain ⟨call, hcall⟩ := hcall 0
    exact ⟨s, 1, hs, [call], c', hcall, rfl⟩
  | succ depth =>
    obtain ⟨calls, he⟩ := he
    obtain ⟨call, hcall⟩ := hcall depth
    exact ⟨s, depth + 1, hs, calls ++ [call], he.append ⟨c', hcall, rfl⟩⟩

end Station
end CanTransport
