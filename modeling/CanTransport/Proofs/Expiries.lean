import CanTransport.Proofs.Calm
import CanTransport.Proofs.Execution
import CanTransport.Station.Pacer

/-! # No expiry is lost and none is taken twice

The loop of a pacer has no bound of its own: it goes on as long as an expiry is due. A poll is one
run of this loop to its end. However late the polls come, the ticks and the ack steps that were made
by then are as many as whole periods have gone by.
-/
namespace CanTransport

inductive PacedCall
  | tick
  | settle
deriving DecidableEq

/-- The clock stands still, and a tick can begin at any time: the controller is active, and the gate
is had where it is free. Calls from within are nested less than `depth` deep. -/
structure Punctual (depth : Nat) (clock : Micros)
    (answers : (q : Query) → Scene → q.Answer → Scene → Prop) : Prop where
  total : ∀ q c, ∃ a c', answers q c a c'
  possible : ∀ {q c a c'}, answers q c a c' → c.Answers (Station.Episode depth) q a c'
  still : ∀ {c instant c'}, answers .now c instant c' → instant = clock
  active : ∀ {c active c'}, answers .isActive c active c' → active = true
  gate : ∀ {c had c'}, .gate ∉ c.held → answers (.acquire .gate) c had c' → had = true

/-- A tick is made under the gate and leaves a stamp. -/
def PacedCall.Done (answers : (q : Query) → Scene → q.Answer → Scene → Prop) (clock : Micros) :
    PacedCall → Scene → Scene → Prop
  | tick, c, c' => ∃ c₁ c₂ c₃ c₄, answers (.acquire .gate) c true c₁ ∧ answers .now c₁ clock c₂ ∧
      (Action.modify (·.ticked clock)).Yields answers c₂ () c₃ ∧
      Station.tick.Yields answers c₃ () c₄ ∧ answers (.release .gate) c₄ () c'
  | settle, c, c' => ∃ delivered, Station.settle.Yields answers c delivered c'

namespace Ticker
variable {t : Ticker} {period start clock n : Nat}

def after (period start : Micros) (n : Nat) : Ticker := ⟨period, start + (n + 1) * period⟩

def taken (t : Ticker) (n : Nat) : Ticker := { t with expiry := t.expiry + n * t.period }

theorem taken_advance (t : Ticker) (n : Nat) : t.advance.taken n = t.taken (n + 1) := by
  simp only [taken, advance, Nat.add_mul, Nat.one_mul, Nat.add_assoc, Nat.add_comm t.period]

theorem taken_zero (t : Ticker) : t.taken 0 = t := by simp [taken]

theorem taken_after (k : Nat) : (after period start n).taken k = after period start (n + k) := by
  simp only [taken, after, Nat.add_mul, Nat.add_assoc, Nat.add_comm, Nat.add_left_comm]

theorem isDue_eq_false : t.isDue clock = false ↔ t.dueCount clock = 0 := by
  rw [Bool.eq_false_iff, ne_eq, isDue_iff, Nat.not_lt, Nat.le_zero_eq]

/-- Those that are due are the whole periods that have gone by, less those that have been taken. -/
theorem dueCount_after (hp : 0 < period) (hs : start ≤ clock) :
    (after period start n).dueCount clock = (clock - start) / period - n := by
  have hdue : start + (n + 1) * period ≤ clock ↔ n + 1 ≤ (clock - start) / period :=
    (Nat.le_sub_iff_add_le' hs).symm.trans (Nat.le_div_iff_mul_le hp).symm
  have hrest : (clock - (start + (n + 1) * period)) / period =
      (clock - start) / period - (n + 1) := by
    rw [← Nat.sub_sub, Nat.mul_comm, Nat.sub_mul_div]
  change (if start + (n + 1) * period ≤ clock then (clock - (start + (n + 1) * period)) /
    period + 1 else 0) = _
  rw [hrest]
  generalize (clock - start) / period = gone at hdue
  by_cases h : n + 1 ≤ gone
  · rw [if_pos (hdue.mpr h)]
    omega
  · rw [if_neg (mt hdue.mp h)]
    omega

end Ticker

namespace Pacer
open CanTransport.Action CanTransport.Station
variable {answers : (q : Query) → Scene → q.Answer → Scene → Prop} {clock start : Micros}
  {depth : Nat} {p p' : Pacer} {c c' c₀ : Scene} {calls : List PacedCall}

/-- The loop, from the point where it looks for an expiry to where it finds none. Due ticks go
first. -/
inductive Turns (answers : (q : Query) → Scene → q.Answer → Scene → Prop) (clock : Micros) :
    Pacer → Scene → List PacedCall → Pacer → Scene → Prop
  | rests {p : Pacer} {c : Scene} (run : p.run.isDue clock = false)
      (ack : p.ack.isDue clock = false) :
      Turns answers clock p c [] p c
  | ticks {p p' : Pacer} {c c₁ c₂ c₃ c' : Scene} {calls : List PacedCall}
      (run : p.run.isDue clock = true) (look : answers .now c clock c₁)
      (active : answers .isActive c₁ true c₂) (done : PacedCall.tick.Done answers clock c₂ c₃)
      (more : Turns answers clock { p with run := p.run.advance } c₃ calls p' c') :
      Turns answers clock p c (.tick :: calls) p' c'
  | settles {p p' : Pacer} {c c₁ c₂ c' : Scene} {calls : List PacedCall}
      (run : p.run.isDue clock = false) (ack : p.ack.isDue clock = true)
      (look : answers .now c clock c₁) (done : PacedCall.settle.Done answers clock c₁ c₂)
      (more : Turns answers clock { p with ack := p.ack.advance } c₂ calls p' c') :
      Turns answers clock p c (.settle :: calls) p' c'

/-- One poll, and what is done in it. -/
def Polls (answers : (q : Query) → Scene → q.Answer → Scene → Prop) (clock : Micros)
    (p : Pacer) (c : Scene) (calls : List PacedCall) (p' : Pacer) (c' : Scene) : Prop :=
  ∃ c₁, answers .now c clock c₁ ∧ p.Turns answers clock c₁ calls p' c'


theorem Turns.eq (h : p.Turns answers clock c calls p' c') (hr : 0 < p.run.period)
    (ha : 0 < p.ack.period) :
    calls = List.replicate (p.run.dueCount clock) .tick ++
      List.replicate (p.ack.dueCount clock) .settle ∧
      p' = ⟨p.run.taken (p.run.dueCount clock), p.ack.taken (p.ack.dueCount clock)⟩ := by
  induction h with
  | rests run ack =>
    rw [Ticker.isDue_eq_false.mp run, Ticker.isDue_eq_false.mp ack,
      Ticker.taken_zero, Ticker.taken_zero]
    exact ⟨rfl, rfl⟩
  | ticks run look active done more ih =>
    obtain ⟨rfl, rfl⟩ := ih hr ha
    rw [← Ticker.dueCount_advance hr run, Ticker.taken_advance]
    exact ⟨rfl, rfl⟩
  | settles run ack look done more ih =>
    obtain ⟨rfl, rfl⟩ := ih hr ha
    dsimp only at ih ⊢
    rw [Ticker.isDue_eq_false.mp run, ← Ticker.dueCount_advance ha ack, Ticker.taken_advance]
    exact ⟨rfl, rfl⟩

theorem pacedTick_iff (hw : Punctual depth clock answers) (hfree : .gate ∉ c.held) :
    pacedTick.Yields answers c () c' ↔ PacedCall.tick.Done answers clock c c' := by
  constructor
  · intro h
    obtain ⟨_, c₁, h₁, -, rfl⟩ := yields_bind.mp h
    obtain ⟨had, c₂, hl, h₂⟩ := yields_bind.mp h₁
    obtain ⟨_, rfl, hl⟩ := yields_ask.mp hl
    obtain rfl := hw.gate hfree hl
    obtain ⟨_, c₃, hbody, h₃⟩ := yields_bind.mp h₂
    obtain ⟨_, c₄, hrelease, -, rfl⟩ := yields_bind.mp h₃
    obtain ⟨_, -, hrelease⟩ := yields_ask.mp hrelease
    obtain ⟨_, c₅, hnow, h₄⟩ := yields_bind.mp hbody
    obtain ⟨_, rfl, hnow⟩ := yields_ask.mp hnow
    obtain rfl := hw.still hnow
    obtain ⟨_, c₆, hstamp, htick⟩ := yields_bind.mp h₄
    exact ⟨c₂, c₅, c₆, c₃, hl, hnow, hstamp, htick, hrelease⟩
  · rintro ⟨c₁, c₂, c₃, c₄, hl, hnow, hstamp, htick, hrelease⟩
    refine yields_bind.mpr
      ⟨.ok (), c', yields_bind.mpr ⟨true, c₁, yields_ask.mpr ⟨true, rfl, hl⟩, ?_⟩, rfl, rfl⟩
    refine yields_bind.mpr
      ⟨(), c₄, ?_, yields_bind.mpr ⟨(), c', yields_ask.mpr ⟨(), rfl, hrelease⟩, rfl, rfl⟩⟩
    exact yields_bind.mpr ⟨clock, c₂, yields_ask.mpr ⟨clock, rfl, hnow⟩,
      yields_bind.mpr ⟨(), c₃, hstamp, htick⟩⟩

/-- Nothing is in hand, and no tick is in progress. -/
structure Open (c : Scene) : Prop where
  fits : Fits {} c
  gate : .gate ∉ c.held

theorem Open.proceed (h : Open c) (hp : Proceeds {} c c') :
    Open c' := ⟨h.fits.proceed hp, hp.held ▸ h.gate⟩

theorem Open.episode (h : Open c) (he : Episode depth c c') :
    Open c' := h.proceed (episode_sound depth {} c c' h.fits he)

theorem Open.tick (h : Open c) (hw : Punctual depth clock answers)
    (hd : PacedCall.tick.Done answers clock c c') : Open c' :=
  h.proceed (pacedTick_proceeds (episode_sound depth) h.fits
    (ends_of_yields (fun _ _ _ _ => hw.possible) ((pacedTick_iff hw h.gate).mpr hd)))

theorem Open.settle (h : Open c) (hw : Punctual depth clock answers)
    (hd : PacedCall.settle.Done answers clock c c') : Open c' := by
  obtain ⟨delivered, hs⟩ := hd
  exact h.proceed
    (settle_proceeds (episode_sound depth) h.fits (ends_of_yields (fun _ _ _ _ => hw.possible) hs))

theorem Open.look (h : Open c) (hw : Punctual depth clock answers) (hn : answers .now c clock c') :
    Open c' :=
  h.episode (hw.possible hn)

theorem pollUpTo_tick (hw : Punctual depth clock answers) (hc : Open c)
    (run : p.run.isDue clock = true) (fuel : Nat) :
    (pollUpTo (fuel + 1) p).Yields answers c p' c' ↔ ∃ c₁ c₂ c₃, answers .now c clock c₁ ∧
    answers .isActive c₁ true c₂ ∧
      PacedCall.tick.Done answers clock c₂ c₃ ∧
        (pollUpTo fuel { p with run := p.run.advance }).Yields answers c₃ p' c' := by
  constructor
  · intro h
    obtain ⟨_, c₁, hnow, h₁⟩ := yields_bind.mp h
    obtain ⟨_, rfl, hnow⟩ := yields_ask.mp hnow
    obtain rfl := hw.still hnow
    rw [if_pos run] at h₁
    obtain ⟨_, c₂, hactive, h₂⟩ := yields_bind.mp h₁
    obtain ⟨_, rfl, hactive⟩ := yields_ask.mp hactive
    obtain rfl := hw.active hactive
    obtain ⟨_, c₃, htick, h₃⟩ := yields_bind.mp h₂
    have hopen : Open c₂ := (hc.look hw hnow).episode (hw.possible hactive)
    exact ⟨c₁, c₂, c₃, hnow, hactive, (pacedTick_iff hw hopen.gate).mp htick, h₃⟩
  · rintro ⟨c₁, c₂, c₃, hnow, hactive, htick, h⟩
    have hopen : Open c₂ := (hc.look hw hnow).episode (hw.possible hactive)
    refine yields_bind.mpr ⟨clock, c₁, yields_ask.mpr ⟨clock, rfl, hnow⟩, ?_⟩
    rw [if_pos run]
    refine yields_bind.mpr ⟨true, c₂, yields_ask.mpr ⟨true, rfl, hactive⟩, ?_⟩
    exact yields_bind.mpr ⟨(), c₃, (pacedTick_iff hw hopen.gate).mpr htick, h⟩

theorem pollUpTo_settle (hw : Punctual depth clock answers) (run : p.run.isDue clock = false)
    (ack : p.ack.isDue clock = true) (fuel : Nat) :
    (pollUpTo (fuel + 1) p).Yields answers c p' c' ↔ ∃ c₁ c₂, answers .now c clock c₁ ∧
      PacedCall.settle.Done answers clock c₁ c₂ ∧
        (pollUpTo fuel { p with ack := p.ack.advance }).Yields answers c₂ p' c' := by
  have hrun : ¬p.run.isDue clock = true := by simp [run]
  constructor
  · intro h
    obtain ⟨_, c₁, hnow, h₁⟩ := yields_bind.mp h
    obtain ⟨_, rfl, hnow⟩ := yields_ask.mp hnow
    obtain rfl := hw.still hnow
    rw [if_neg hrun, if_pos ack] at h₁
    obtain ⟨delivered, c₂, hsettle, h₂⟩ := yields_bind.mp h₁
    exact ⟨c₁, c₂, hnow, ⟨delivered, hsettle⟩, h₂⟩
  · rintro ⟨c₁, c₂, hnow, ⟨delivered, hsettle⟩, h⟩
    refine yields_bind.mpr ⟨clock, c₁, yields_ask.mpr ⟨clock, rfl, hnow⟩, ?_⟩
    rw [if_neg hrun, if_pos ack]
    exact yields_bind.mpr ⟨delivered, c₂, hsettle, h⟩

theorem turns_rest_iff (run : p.run.isDue clock = false) (ack : p.ack.isDue clock = false) :
    (∃ calls, p.Turns answers clock c calls p' c') ↔ p' = p ∧ c' = c := by
  constructor
  · rintro ⟨calls, h⟩
    cases h with
    | rests => exact ⟨rfl, rfl⟩
    | ticks run' => exact absurd (run.symm.trans run') nofun
    | settles _ ack' => exact absurd (ack.symm.trans ack') nofun
  · rintro ⟨rfl, rfl⟩
    exact ⟨[], .rests run ack⟩

theorem turns_tick_iff (run : p.run.isDue clock = true) :
    (∃ calls, p.Turns answers clock c calls p' c') ↔ ∃ c₁ c₂ c₃, answers .now c clock c₁ ∧
    answers .isActive c₁ true c₂ ∧
      PacedCall.tick.Done answers clock c₂ c₃ ∧
      ∃ calls, ({ p with run := p.run.advance } : Pacer).Turns answers clock c₃ calls p' c' := by
  constructor
  · rintro ⟨calls, h⟩
    cases h with
    | rests run' | settles run' => exact absurd (run.symm.trans run') nofun
    | ticks _ look active done more => exact ⟨_, _, _, look, active, done, _, more⟩
  · rintro ⟨c₁, c₂, c₃, look, active, done, calls, more⟩
    exact ⟨_, .ticks run look active done more⟩

theorem turns_settle_iff (run : p.run.isDue clock = false) (ack : p.ack.isDue clock = true) :
    (∃ calls, p.Turns answers clock c calls p' c') ↔ ∃ c₁ c₂, answers .now c clock c₁ ∧
    PacedCall.settle.Done answers clock c₁ c₂ ∧
      ∃ calls, ({ p with ack := p.ack.advance } : Pacer).Turns answers clock c₂ calls p' c' := by
  constructor
  · rintro ⟨calls, h⟩
    cases h with
    | rests _ ack' => exact absurd (ack.symm.trans ack') nofun
    | ticks run' => exact absurd (run.symm.trans run') nofun
    | settles _ _ look done more => exact ⟨_, _, look, done, _, more⟩
  · rintro ⟨c₁, c₂, look, done, calls, more⟩
    exact ⟨_, .settles run ack look done more⟩

/-- As many turns as there are expiries due are enough for the loop, and it takes as many. -/
theorem pollUpTo_iff (hw : Punctual depth clock answers) (hr : 0 < p.run.period)
    (ha : 0 < p.ack.period) (hc : Open c) {fuel : Nat}
    (hfuel : p.run.dueCount clock + p.ack.dueCount clock = fuel) :
    (pollUpTo fuel p).Yields answers c p' c' ↔ ∃ calls, p.Turns answers clock c calls p' c' := by
  induction fuel generalizing p c with
  | zero =>
    have run : p.run.isDue clock = false :=
      Ticker.isDue_eq_false.mpr (Nat.eq_zero_of_add_eq_zero_right hfuel)
    have ack : p.ack.isDue clock = false :=
      Ticker.isDue_eq_false.mpr (Nat.eq_zero_of_add_eq_zero_left hfuel)
    exact (turns_rest_iff run ack).symm
  | succ fuel ih =>
    cases run : p.run.isDue clock with
    | true =>
      have hleft : p.run.advance.dueCount clock + p.ack.dueCount clock = fuel := by
        have := Ticker.dueCount_advance hr run
        omega
      rw [pollUpTo_tick hw hc run, turns_tick_iff run]
      refine exists_congr fun c₁ => exists_congr fun c₂ => exists_congr fun c₃ =>
        and_congr_right fun look =>
        and_congr_right fun active => and_congr_right fun done => ?_
      have hopen : Open c₃ := ((hc.look hw look).episode (hw.possible active)).tick hw done
      exact ih (p := { p with run := p.run.advance }) hr ha hopen hleft
    | false =>
      have hcount := Ticker.isDue_eq_false.mp run
      have ack : p.ack.isDue clock = true := Ticker.isDue_iff.mpr (by omega)
      have hleft : p.run.dueCount clock + p.ack.advance.dueCount clock = fuel := by
        have := Ticker.dueCount_advance ha ack
        omega
      rw [pollUpTo_settle hw run ack, turns_settle_iff run ack]
      refine exists_congr fun c₁ => exists_congr fun c₂ => and_congr_right fun look =>
        and_congr_right fun done => ?_
      exact ih (p := { p with ack := p.ack.advance }) hr ha ((hc.look hw look).settle hw done) hleft

/-- A poll is a run of the loop to its end. -/
theorem poll_iff (hw : Punctual depth clock answers) (hr : 0 < p.run.period) (ha : 0 < p.ack.period)
    (hc : Open c) :
    p.poll.Yields answers c p' c' ↔ ∃ calls, p.Polls answers clock c calls p' c' := by
  constructor
  · intro h
    obtain ⟨_, c₁, hnow, h₁⟩ := yields_bind.mp h
    obtain ⟨_, rfl, hnow⟩ := yields_ask.mp hnow
    obtain rfl := hw.still hnow
    obtain ⟨calls, hturns⟩ := (pollUpTo_iff hw hr ha (hc.look hw hnow) rfl).mp h₁
    exact ⟨calls, c₁, hnow, hturns⟩
  · rintro ⟨calls, c₁, hnow, hturns⟩
    exact yields_bind.mpr ⟨clock, c₁, yields_ask.mpr ⟨clock, rfl, hnow⟩,
      (pollUpTo_iff hw hr ha (hc.look hw hnow) rfl).mpr ⟨calls, hturns⟩⟩

/-- Surroundings that answer every question leave no program without an end. -/
theorem yields_of_total {α : Type} (h : ∀ q c, ∃ a c', answers q c a c')
    (action : Action α) (c : Scene) :
    ∃ a c', action.Yields answers c a c' := by
  induction action generalizing c with
  | done a => exact ⟨a, c, rfl, rfl⟩
  | ask q next ih =>
    obtain ⟨answer, c₁, ha⟩ := h q c
    obtain ⟨a, c', hnext⟩ := ih answer c₁
    exact ⟨a, c', answer, c₁, ha, hnext⟩

/-- A pacer that was made at `start` and has been polled since. The log has the instants of the
polls and what was done in each. Others make calls between polls and from within them. -/
inductive Driven (depth : Nat) (start : Micros) (c₀ : Scene) :
    List (Micros × List PacedCall) → Pacer → Scene → Prop
  | made : Driven depth start c₀ [] (.start c₀.station start) c₀
  | polled {log : List (Micros × List PacedCall)} {p p' : Pacer} {c c₁ c₂ : Scene} {clock : Micros}
      {calls : List PacedCall} {answers : (q : Query) → Scene → q.Answer → Scene → Prop}
      (driven : Driven depth start c₀ log p c) (since : start ≤ clock)
      (later : ∀ poll ∈ log, poll.1 ≤ clock) (between : Episode depth c c₁)
      (punctual : Punctual depth clock answers) (polls : p.Polls answers clock c₁ calls p' c₂) :
      Driven depth start c₀ (log ++ [(clock, calls)]) p' c₂

def latest (start : Micros) (log : List (Micros × List PacedCall)) : Micros :=
  (log.getLast?.map (·.1)).getD start

def made (log : List (Micros × List PacedCall)) (call : PacedCall) : Nat :=
      (log.flatMap (·.2)).count call

variable {log : List (Micros × List PacedCall)} {runPeriod ackPeriod : Nat}

theorem latest_append (start clock : Micros) (log : List (Micros × List PacedCall))
    (calls : List PacedCall) :
    latest start (log ++ [(clock, calls)]) = clock := by simp [latest]

theorem latest_le (hs : start ≤ clock) (h : ∀ poll ∈ log, poll.1 ≤ clock) :
    latest start log ≤ clock := by
  unfold latest
  cases hl : log.getLast? with
  | none => exact hs
  | some poll => exact h poll (List.mem_of_getLast? hl)

theorem made_append (log : List (Micros × List PacedCall)) (clock : Micros) (calls : List PacedCall)
    (call : PacedCall) :
    made (log ++ [(clock, calls)]) call = made log call + calls.count call := by
  simp [made, List.count_append]

theorem count_tick (m n : Nat) :
    (List.replicate m PacedCall.tick ++ List.replicate n PacedCall.settle).count .tick = m := by
  simp [List.count_append, List.count_replicate]

theorem count_settle (m n : Nat) :
    (List.replicate m PacedCall.tick ++ List.replicate n PacedCall.settle).count .settle = n := by
  simp [List.count_append, List.count_replicate]

theorem Turns.open_ (h : p.Turns answers clock c calls p' c') (hw : Punctual depth clock answers)
    (hc : Open c) : Open c' := by
  induction h with
  | rests => exact hc
  | ticks _ look active done _ ih =>
    exact ih (((hc.look hw look).episode (hw.possible active)).tick hw done)
  | settles _ _ look done _ ih => exact ih ((hc.look hw look).settle hw done)

theorem every_eq (period start : Nat) :
    Ticker.every period start = .after (max period Timing.tickerFloor) start 0 := by
  simp [Ticker.every, Ticker.after]

theorem floor_pos (period : Nat) : 0 < max period Timing.tickerFloor :=
      Nat.lt_of_lt_of_le (by decide) (Nat.le_max_right _ _)

/-- What a pacer has done, and where its tickers stand, after the polls of a log. -/
structure Timely (runPeriod ackPeriod start : Micros) (log : List (Micros × List PacedCall))
    (p : Pacer) (c : Scene) : Prop where
  open_ : Open c
  ticks : made log .tick = (latest start log - start) / runPeriod
  settles : made log .settle = (latest start log - start) / ackPeriod
  pacer : p = ⟨.after runPeriod start (made log .tick), .after ackPeriod start (made log .settle)⟩

/-- A poll takes exactly the expiries that have come since the one before. -/
theorem Timely.poll (h : Timely runPeriod ackPeriod start log p c) (hr : 0 < runPeriod)
    (ha : 0 < ackPeriod) (hs : start ≤ clock) (hl : ∀ poll ∈ log, poll.1 ≤ clock) {c₁ : Scene}
    (he : Episode depth c c₁) (hw : Punctual depth clock answers)
    (hp : p.Polls answers clock c₁ calls p' c') :
    Timely runPeriod ackPeriod start (log ++ [(clock, calls)]) p' c' ∧
      ∃ m n, calls = List.replicate m .tick ++ List.replicate n .settle := by
  obtain ⟨c₂, hnow, hturns⟩ := hp
  have hopen : Open c₂ := (h.open_.episode he).look hw hnow
  have hpacer := h.pacer
  subst hpacer
  obtain ⟨rfl, rfl⟩ := hturns.eq hr ha
  have hlatest := latest_le hs hl
  have sum {period n : Nat} (hn : n = (latest start log - start) / period) :
      n + ((clock - start) / period - n) = (clock - start) / period := by
    refine Nat.add_sub_of_le (hn ▸ Nat.div_le_div_right (Nat.sub_le_sub_right hlatest start))
  have hticks := sum h.ticks
  have hsettles := sum h.settles
  refine ⟨⟨hturns.open_ hw hopen, ?_, ?_, ?_⟩, _, _, rfl⟩
  · rw [made_append, count_tick, latest_append, Ticker.dueCount_after hr hs, hticks]
  · rw [made_append, count_settle, latest_append, Ticker.dueCount_after ha hs, hsettles]
  · rw [made_append, made_append, count_tick, count_settle, Ticker.taken_after, Ticker.taken_after]

theorem Driven.timely (h : Driven depth start c₀ log p c) (hc : Open c₀) :
    Timely (max c₀.station.runPeriod Timing.tickerFloor)
      (max c₀.station.ackPeriod Timing.tickerFloor) start log p c := by
  induction h with
  | made =>
    refine ⟨hc, ?_, ?_, ?_⟩
    · simp [Pacer.made, latest]
    · simp [Pacer.made, latest]
    · rw [Pacer.start, every_eq, every_eq]
      rfl
  | polled _ since later between punctual polls ih =>
    exact (ih.poll (floor_pos _) (floor_pos _) since later between punctual polls).1

theorem Open.of_reaches {config : Config} (h : Reaches config c) : Open c where
  fits := ⟨h.invariant (fun _ hs => orderly_of_config hs) fun _ _ t ho _ => (t.follows ho).orderly,
    nofun, .inr ⟨rfl, rfl⟩⟩
  gate := by
    rw [h.free]
    exact List.not_mem_nil

/-- However late a pacer is polled: each poll is a run of the loop that comes to its end, the due
ticks of one poll come before its due ack steps, and after it as many of each have been made as
periods have gone by since the start. -/
theorem no_expiry_lost {config : Config} (hreach : Reaches config c₀)
    (hdriven : Driven depth start c₀ log p c) :
    (∀ earlier clock calls, log = earlier ++ [(clock, calls)] →
      made log .tick = (clock - start) / max c₀.station.runPeriod Timing.tickerFloor ∧
      made log .settle = (clock - start) / max c₀.station.ackPeriod Timing.tickerFloor ∧
      ∃ m n, calls = List.replicate m .tick ++ List.replicate n .settle) ∧
    ∀ clock answers c₁, start ≤ clock → (∀ poll ∈ log, poll.1 ≤ clock) → Episode depth c c₁ →
      Punctual depth clock answers → (∃ p' c', p.poll.Yields answers c₁ p' c') ∧
      ∀ p' c', p.poll.Yields answers c₁ p' c' ↔ ∃ calls, p.Polls answers clock c₁ calls p' c' := by
  have hopen := Open.of_reaches hreach
  constructor
  · rintro earlier clock calls rfl
    have hshape : ∃ m n, calls = List.replicate m .tick ++ List.replicate n .settle := by
      generalize hlog : earlier ++ [(clock, calls)] = log at hdriven
      cases hdriven with
      | made => simp at hlog
      | polled driven since later between punctual polls =>
        obtain ⟨-, hlast⟩ := List.append_inj' hlog rfl
        cases hlast
        exact ((driven.timely hopen).poll (floor_pos _)
          (floor_pos _) since later between punctual polls).2
    have htimely := hdriven.timely hopen
    refine ⟨?_, ?_, hshape⟩
    · rw [htimely.ticks, latest_append]
    · rw [htimely.settles, latest_append]
  · intro clock answers c₁ since later between punctual
    have htimely := hdriven.timely hopen
    refine ⟨yields_of_total punctual.total _ _, fun p' c' =>
      poll_iff punctual ?_ ?_ (htimely.open_.episode between)⟩
    · rw [htimely.pacer]
      exact floor_pos _
    · rw [htimely.pacer]
      exact floor_pos _

def obligeAt (clock : Micros) : (q : Query) → Scene → q.Answer → Scene → Prop
  | .now, c, instant, c' => instant = clock ∧ c' = c
  | q, c, a, c' => (a, c') = Scene.oblige q c

theorem punctual_obligeAt (clock : Micros) : Punctual 0 clock (obligeAt clock) where
  total q c := by
    cases q with
    | now => exact ⟨clock, c, rfl, rfl⟩
    | _ => exact ⟨_, _, rfl⟩
  possible {q c a c'} h := by
    cases q with
    | now => exact h.2
    | _ =>
      obtain ⟨rfl, rfl⟩ := Prod.mk.inj h
      exact answers_oblige _ _
  still h := h.1
  active h := congrArg Prod.fst h
  gate hfree h := by
    change _ = (if _ then _ else _) at h
    rw [if_neg hfree] at h
    exact congrArg Prod.fst h

def prompt : Scene :=
  { station := { settings := { source := 0xF1 }, budget := .ofBytes (64 * 1024), runPeriod := 10000, ackPeriod := 0 } }

/-- After one poll that comes late, two ticks have been made, and twenty-five ack steps. -/
theorem no_expiry_lost_late : ∃ log p c, Driven 0 500 prompt log p c ∧ made log .tick = 2 ∧
    made log .settle = 25 := by
  have hreach : Reaches { source := 0xF1, runPeriod := 10000, ackPeriod := 0 } prompt :=
    ⟨_, 0, rfl, rfl⟩
  have hstart : Driven 0 500 prompt [] (.start prompt.station 500) prompt := .made
  have hnone : ∀ poll ∈ ([] : List (Micros × List PacedCall)), poll.1 ≤ 25500 :=
    fun _ h => absurd h List.not_mem_nil
  have hw := punctual_obligeAt 25500
  obtain ⟨⟨p, c, hyields⟩, hpolls⟩ :=
    (no_expiry_lost hreach hstart).2 25500 _ _ (by decide) hnone rfl hw
  obtain ⟨calls, hp⟩ := (hpolls p c).mp hyields
  have hdriven := hstart.polled (by decide) hnone rfl hw hp
  obtain ⟨hticks, hsettles, -⟩ := (no_expiry_lost hreach hdriven).1 [] 25500 calls rfl
  exact ⟨_, p, c, hdriven, hticks, hsettles⟩

end Pacer
end CanTransport
