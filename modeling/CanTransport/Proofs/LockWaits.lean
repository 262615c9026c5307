import Mathlib.Order.Monotone.Basic
import CanTransport.Bench.Contention

/-! # No wait for a lock is unbounded

Others may hold a lock, let go of it, take it again and change what it guards at any time, also
between an attempt and the reading of the clock after it. Whatever they do, a wait comes to its end
if the clock comes to the deadline, which counts from the first reading: with the lock if an attempt
finds it free, and with nothing if none does.
-/
namespace CanTransport

namespace Waiting
variable {σ : Type} {answer : (q : WaitQuery) → σ → q.Answer × σ} {s s₁ s₂ : σ} {instant : Micros}

def turn (next : Micros → Waiting Wait) : Waiting Wait :=
  attempt.bind fun had => if had then .done .acquired else reading.bind next

theorem retry_succ (deadline : Micros) (fuel : Nat) : retry deadline (fuel + 1) =
    turn fun instant => if deadline ≤ instant then .done .expired else retry deadline fuel := rfl

theorem run_turn (failed : answer .attempt s = (false, s₁))
    (read : answer .reading s₁ = (instant, s₂)) (next : Micros → Waiting Wait) :
    (turn next).run answer s = (next instant).run answer s₂ := by
  have tried : attempt.run answer s = (false, s₁) := failed
  have shown : reading.run answer s₁ = (instant, s₂) := read
  rw [turn, Program.run_bind, tried, if_neg Bool.false_ne_true, Program.run_bind, shown]

theorem run_turn_had (had : answer .attempt s = (true, s₁)) (next : Micros → Waiting Wait) :
    (turn next).run answer s = (.acquired, s₁) := by
  have tried : attempt.run answer s = (true, s₁) := had
  rw [turn, Program.run_bind, tried, if_pos rfl, Program.run_done]

end Waiting

inductive WaitStep (α : Type)
  /-- An attempt, and how it found the lock. -/
  | attempt (found : TimedLock α)
  | reading (instant : Micros)

def WaitStep.isReading {α : Type} : WaitStep α → Bool
  | attempt _ => false
  | reading _ => true

/-- A lock that somebody waits for, and the steps of the wait so far. -/
structure Contest (α : Type) where
  lock : TimedLock α
  steps : List (WaitStep α) := []

/-- What others do to the lock before each step of a wait, and what the readings of the clock show.
-/
structure Rivals (α : Type) where
  meddle : Nat → TimedLock α → TimedLock α
  clock : Nat → Micros

namespace Rivals
variable {α : Type}

def answer (r : Rivals α) : (q : WaitQuery) → Contest α → q.Answer × Contest α
  | .attempt, x =>
    let found := r.meddle x.steps.length x.lock
    let steps := x.steps ++ [.attempt found]
    match found.tryLock with
    | .ok lock => (true, { lock, steps })
    | .error _ => (false, { lock := found, steps })
  | .reading, x =>
    let instant := r.clock (x.steps.countP (·.isReading))
    (instant, { lock := r.meddle x.steps.length x.lock, steps := x.steps ++ [.reading instant] })

/-- What the others alone make of a lock until the step with this number. -/
def left (r : Rivals α) (lock : TimedLock α) : Nat → TimedLock α
  | 0 => lock
  | n + 1 => r.meddle n (r.left lock n)

/-- These steps have been taken, and the lock is as the others have left it. -/
def after (r : Rivals α) (lock : TimedLock α) (steps : List (WaitStep α)) : Contest α :=
  ⟨r.left lock steps.length, steps⟩

def found (r : Rivals α) (lock : TimedLock α) (steps : List (WaitStep α)) : TimedLock α :=
  r.left lock (steps.length + 1)

def instant (r : Rivals α) (steps : List (WaitStep α)) : Micros :=
  r.clock (steps.countP (·.isReading))

def taken (r : Rivals α) (lock : TimedLock α) (steps : List (WaitStep α)) : Contest α :=
  ⟨{ r.found lock steps with held := true }, steps ++ [.attempt (r.found lock steps)]⟩

def turn (r : Rivals α) (lock : TimedLock α) (steps : List (WaitStep α)) : List (WaitStep α) :=
  steps ++ [.attempt (r.found lock steps), .reading (r.instant steps)]

/-- Tries again and again until the deadline is read: how a wait goes on after these steps, in so
many turns. -/
inductive Retries (r : Rivals α) (lock : TimedLock α) (deadline : Micros) :
    Nat → List (WaitStep α) → Wait → Contest α → Prop
  | had {steps : List (WaitStep α)} (free : (r.found lock steps).held = false) :
      Retries r lock deadline 1 steps .acquired (r.taken lock steps)
  | late {steps : List (WaitStep α)} (held : (r.found lock steps).held = true)
      (due : deadline ≤ r.instant steps) :
      Retries r lock deadline 1 steps .expired (r.after lock (r.turn lock steps))
  | again {n : Nat} {steps : List (WaitStep α)} {result : Wait} {x : Contest α}
      (held : (r.found lock steps).held = true) (early : r.instant steps < deadline)
      (rest : Retries r lock deadline n (r.turn lock steps) result x) :
      Retries r lock deadline (n + 1) steps result x

/-- A wait from its first attempt on. -/
inductive Waits (r : Rivals α) (lock : TimedLock α) : Nat → Wait → Contest α → Prop
  | atOnce (free : (r.found lock []).held = false) : Waits r lock 0 .acquired (r.taken lock [])
  | retries {n : Nat} {result : Wait} {x : Contest α} (held : (r.found lock []).held = true)
      (rest : r.Retries lock (r.clock 0 + lock.timeout) n (r.turn lock []) result x) :
    Waits r lock n result x

variable {r : Rivals α} {lock : TimedLock α} {deadline : Micros} {steps : List (WaitStep α)}
  {result : Wait} {n k : Nat} {x : Contest α}

def Seen (r : Rivals α) (lock : TimedLock α) (steps : List (WaitStep α)) : Prop :=
  ∀ n found, steps[n]? = some (.attempt found) → found = r.left lock (n + 1)

/-- How a wait has come to its end. -/
structure Over (r : Rivals α) (lock : TimedLock α) (result : Wait) (x : Contest α) : Prop where
  ended : result ≠ .unfinished
  seen : r.Seen lock x.steps
  /-- The wait succeeds if the lock is free at one of the attempts. -/
  acquired_iff : result = .acquired ↔ ∃ found, .attempt found ∈ x.steps ∧ found.held = false
  /-- If it is free at the first one, nobody looks at the clock. -/
  at_once (free : (r.left lock 1).held = false) : x.steps = [.attempt (r.left lock 1)]
  /-- A lock that is had is as the others have left it. -/
  had (h : result = .acquired) : x.lock = { r.left lock x.steps.length with held := true }
  /-- Who gives up has read the deadline after an attempt made once it was known, which was not the
  first one. -/
  expired (h : result = .expired) : ∃ first between last instant,
    x.steps = .attempt first :: .reading (r.clock 0) ::
    (between ++ [.attempt last, .reading instant]) ∧
      first.held = true ∧ last.held = true ∧ r.clock 0 + lock.timeout ≤ instant
  /-- Who gives up has done nothing to the lock. -/
  kept (h : result = .expired) : x.lock = r.left lock x.steps.length
  /-- The value is what it was, unless the others have changed it. -/
  unchanged (h : ∀ n (l : TimedLock α), (r.meddle n l).value = l.value) : x.lock.value = lock.value

theorem after_append (r : Rivals α) (lock : TimedLock α) (steps : List (WaitStep α))
    (step : WaitStep α) :
    r.after lock (steps ++ [step]) = ⟨r.left lock (steps.length + 1), steps ++ [step]⟩ := by
  rw [after, List.length_append]
  rfl

theorem meddle_after (r : Rivals α) (lock : TimedLock α) (steps : List (WaitStep α)) :
    r.meddle (r.after lock steps).steps.length (r.after lock steps).lock = r.found lock steps := rfl

theorem answer_held (held : (r.found lock steps).held = true) :
    r.answer .attempt (r.after lock steps) =
      (false, r.after lock (steps ++ [.attempt (r.found lock steps)])) := by
  rw [after_append]
  simp only [answer, meddle_after, TimedLock.tryLock, held]
  rfl

theorem answer_free (free : (r.found lock steps).held = false) :
    r.answer .attempt (r.after lock steps) = (true, r.taken lock steps) := by
  simp only [answer, meddle_after, TimedLock.tryLock, free]
  rfl

theorem answer_reading (r : Rivals α) (lock : TimedLock α) (steps : List (WaitStep α)) :
    r.answer .reading (r.after lock steps) =
      (r.instant steps, r.after lock (steps ++ [.reading (r.instant steps)])) := by
  rw [after_append]
  rfl

/-- A turn that does not find the lock free leads to the next question with what the clock shows. -/
theorem run_turn (held : (r.found lock steps).held = true) (next : Micros → Waiting Wait) :
    (Waiting.turn next).run r.answer (r.after lock steps) =
      (next (r.instant steps)).run r.answer (r.after lock (r.turn lock steps)) := by
  have unread : r.instant (steps ++ [.attempt (r.found lock steps)]) = r.instant steps := by
    rw [instant, List.countP_append]
    rfl
  have read := r.answer_reading lock (steps ++ [.attempt (r.found lock steps)])
  rw [unread, List.append_assoc] at read
  exact Waiting.run_turn (answer_held held) read next

theorem run_free (free : (r.found lock steps).held = false) (next : Micros → Waiting Wait) :
    (Waiting.turn next).run r.answer (r.after lock steps) = (.acquired, r.taken lock steps) :=
  Waiting.run_turn_had (answer_free free) next

/-- With fuel for its turns the wait with a bound is the wait without one. -/
theorem Retries.run (h : r.Retries lock deadline n steps result x) {fuel : Nat} (hfuel : n ≤ fuel) :
    (Waiting.retry deadline fuel).run r.answer (r.after lock steps) = (result, x) := by
  induction h generalizing fuel with
  | had free =>
    obtain ⟨fuel, rfl⟩ := Nat.exists_eq_add_one.mpr hfuel
    rw [Waiting.retry_succ, run_free free]
  | late held due =>
    obtain ⟨fuel, rfl⟩ := Nat.exists_eq_add_one.mpr hfuel
    rw [Waiting.retry_succ, run_turn held, if_pos due, Program.run_done]
  | again held early rest ih =>
    obtain ⟨fuel, rfl⟩ := Nat.exists_eq_add_one.mpr (Nat.lt_of_lt_of_le (Nat.succ_pos _) hfuel)
    rw [Waiting.retry_succ, run_turn held, if_neg (Nat.not_le.mpr early)]
    exact ih (Nat.le_of_succ_le_succ hfuel)

theorem Waits.run (h : r.Waits lock n result x) {fuel : Nat} (hfuel : n ≤ fuel) :
    (Waiting.acquire lock.timeout fuel).run r.answer { lock } = (result, x) := by
  cases h with
  | atOnce free => exact run_free free _
  | retries held rest => exact (run_turn held _).trans (rest.run hfuel)

/-- A clock that comes to the deadline ends it. -/
theorem exists_retries (steady : Monotone r.clock) (reached : deadline ≤ r.clock k)
    (lock : TimedLock α) (steps : List (WaitStep α)) :
    ∃ n result x, n ≤ k - steps.countP (·.isReading) + 1 ∧
      r.Retries lock deadline n steps result x := by
  induction hd : k - steps.countP (·.isReading) generalizing steps with
  | zero =>
    have due : deadline ≤ r.instant steps :=
      Nat.le_trans reached (steady (Nat.le_of_sub_eq_zero hd))
    cases held : (r.found lock steps).held with
    | false => exact ⟨1, _, _, Nat.le_refl _, .had held⟩
    | true => exact ⟨1, _, _, Nat.le_refl _, .late held due⟩
  | succ d ih =>
    have later : (r.turn lock steps).countP (·.isReading) = steps.countP (·.isReading) + 1 :=
      List.countP_append
    cases held : (r.found lock steps).held with
    | false => exact ⟨1, _, _, Nat.succ_le_succ (Nat.zero_le _), .had held⟩
    | true =>
      rcases Nat.lt_or_ge (r.instant steps) deadline with early | due
      · obtain ⟨n, result, x, hn, rest⟩ := ih (r.turn lock steps) (by omega)
        exact ⟨n + 1, result, x, Nat.succ_le_succ hn, .again held early rest⟩
      · exact ⟨1, _, _, Nat.succ_le_succ (Nat.zero_le _), .late held due⟩

theorem exists_waits (steady : Monotone r.clock) (reached : r.clock 0 + lock.timeout ≤ r.clock k) :
    ∃ n result x, n ≤ k + 1 ∧ r.Waits lock n result x := by
  cases held : (r.found lock []).held with
  | false => exact ⟨0, _, _, Nat.zero_le _, .atOnce held⟩
  | true =>
    obtain ⟨n, result, x, hn, rest⟩ := exists_retries steady reached lock (r.turn lock [])
    have once : (r.turn lock []).countP (·.isReading) = 1 := rfl
    exact ⟨n, result, x, by omega, .retries held rest⟩

theorem left_value (h : ∀ n (l : TimedLock α), (r.meddle n l).value = l.value) (lock : TimedLock α)
    (n : Nat) :
    (r.left lock n).value = lock.value := by
  induction n with
  | zero => rfl
  | succ n ih => exact (h n _).trans ih

theorem Seen.append (h : r.Seen lock steps) {step : WaitStep α}
    (truth : ∀ found, step = .attempt found → found = r.found lock steps) :
    r.Seen lock (steps ++ [step]) := by
  intro n found hn
  rcases Nat.lt_trichotomy n steps.length with before | rfl | beyond
  · rw [List.getElem?_append_left before] at hn
    exact h n found hn
  · rw [List.getElem?_concat_length] at hn
    exact truth found (Option.some.inj hn)
  · have none : (steps ++ [step])[n]? = none := by
      apply List.getElem?_eq_none
      rw [List.length_append]
      exact beyond
    cases hn.symm.trans none

theorem Seen.attempt (h : r.Seen lock steps) :
    r.Seen lock (steps ++ [.attempt (r.found lock steps)]) := by
  apply h.append
  intro found same
  cases same
  rfl

theorem Seen.turn (h : r.Seen lock steps) : r.Seen lock (r.turn lock steps) := by
  have both : r.Seen lock (steps ++ [.attempt (r.found lock steps)] ++
      [.reading (r.instant steps)]) := h.attempt.append nofun
  rwa [List.append_assoc] at both

theorem held_turn (hs : ∀ found, .attempt found ∈ steps → found.held = true)
    (held : (r.found lock steps).held = true) :
    ∀ found, .attempt found ∈ r.turn lock steps → found.held = true := by
  intro found hm
  rcases List.mem_append.mp hm with hm | hm
  · exact hs found hm
  · rcases List.mem_cons.mp hm with same | hm
    · cases same
      exact held
    · cases List.mem_singleton.mp hm

namespace Retries

theorem ended (h : r.Retries lock deadline n steps result x) : result ≠ .unfinished := by
  induction h with
  | had | late => nofun
  | again _ _ _ ih => exact ih

theorem seen (h : r.Retries lock deadline n steps result x) (hs : r.Seen lock steps) :
    r.Seen lock x.steps := by
  induction h with
  | had => exact hs.attempt
  | late => exact hs.turn
  | again _ _ _ ih => exact ih hs.turn

/-- If no attempt so far has found the lock free, it is had if a later one does. -/
theorem acquired_iff (h : r.Retries lock deadline n steps result x)
    (hs : ∀ found, .attempt found ∈ steps → found.held = true) :
    result = .acquired ↔ ∃ found, .attempt found ∈ x.steps ∧ found.held = false := by
  induction h with
  | had free => exact ⟨fun _ => ⟨_, List.mem_append_right _ List.mem_cons_self, free⟩, fun _ => rfl⟩
  | late held =>
    constructor
    · nofun
    · rintro ⟨found, hm, free⟩
      exact absurd (held_turn hs held found hm) (ne_true_of_eq_false free)
  | again held _ _ ih => exact ih (held_turn hs held)

theorem expired (h : r.Retries lock deadline n steps result x) (hr : result = .expired) :
    ∃ between last instant, x.steps = steps ++ (between ++ [.attempt last, .reading instant]) ∧
      last.held = true ∧ deadline ≤ instant := by
  induction h with
  | had => cases hr
  | late held due => exact ⟨[], _, _, rfl, held, due⟩
  | again _ _ _ ih =>
    obtain ⟨between, last, instant, hx, held, due⟩ := ih hr
    exact ⟨_ :: _ :: between, last, instant, hx.trans (List.append_assoc _ _ _), held, due⟩

theorem had_lock (h : r.Retries lock deadline n steps result x) (hr : result = .acquired) :
    x.lock = { r.left lock x.steps.length with held := true } := by
  induction h with
  | had => rw [taken, List.length_append, List.length_singleton, found]
  | late => cases hr
  | again _ _ _ ih => exact ih hr

theorem kept (h : r.Retries lock deadline n steps result x) (hr : result = .expired) :
    x.lock = r.left lock x.steps.length := by
  induction h with
  | had => cases hr
  | late => rfl
  | again _ _ _ ih => exact ih hr

theorem value (h : r.Retries lock deadline n steps result x) :
    x.lock.value = (r.left lock x.steps.length).value := by
  cases hr : result with
  | acquired => rw [h.had_lock hr]
  | expired => rw [h.kept hr]
  | unfinished => exact absurd hr h.ended

end Retries

theorem Waits.concludes (h : r.Waits lock n result x) : r.Over lock result x := by
  have blank : r.Seen lock [] := nofun
  cases h with
  | atOnce free =>
    have hm : WaitStep.attempt (r.found lock []) ∈ (r.taken lock []).steps := List.mem_cons_self
    exact {
      ended := nofun
      seen := blank.attempt
      acquired_iff := ⟨fun _ => ⟨_, hm, free⟩, fun _ => rfl⟩
      at_once := fun _ => rfl
      had := fun _ => rfl
      expired := nofun
      kept := nofun
      unchanged := fun alone => left_value alone lock 1 }
  | retries held rest =>
    exact {
      ended := rest.ended
      seen := rest.seen blank.turn
      acquired_iff := rest.acquired_iff (held_turn nofun held)
      at_once := fun free => absurd held (ne_true_of_eq_false free)
      had := rest.had_lock
      expired := fun hr => by
        obtain ⟨between, last, instant, hx, hlast, due⟩ := rest.expired hr
        exact ⟨_, between, last, instant, hx, held, hlast, due⟩
      kept := rest.kept
      unchanged := fun alone => rest.value.trans (left_value alone lock _) }

/-- Whatever others do to a lock, and however the clock goes on, as long as it does not go back and
comes to the deadline: a wait comes to its end within so many readings, in one of the two ways. -/
theorem wait_bounded (r : Rivals α) (lock : TimedLock α) (steady : Monotone r.clock) {k : Nat}
    (reached : r.clock 0 + lock.timeout ≤ r.clock k) : ∃ result x, r.Over lock result x ∧
      ∀ fuel, k < fuel → (Waiting.acquire lock.timeout fuel).run r.answer { lock } =
        (result, x) := by
  obtain ⟨n, result, x, hn, waits⟩ := exists_waits steady reached
  refine ⟨result, x, waits.concludes, ?_⟩
  intro fuel enough
  apply waits.run
  omega

def lastMoment : Rivals Int where
  meddle n lock := if n = 5 then lock.unlock else lock
  clock k := 10 * k

theorem wait_bounded_last_moment :
    Monotone lastMoment.clock ∧ lastMoment.clock 0 + 20 ≤ lastMoment.clock 2 ∧
      ∃ x, lastMoment.Over { value := 5, timeout := 20, held := true } .expired x ∧
      x.lock = { value := 5, timeout := 20 } ∧ (Waiting.acquire 20 3).run lastMoment.answer
      { lock := { value := 5, timeout := 20, held := true } } = (.expired, x) := by
  have steady : Monotone lastMoment.clock := fun _ _ h => Nat.mul_le_mul_left 10 h
  have reached : lastMoment.clock 0 + 20 ≤ lastMoment.clock 2 := by decide
  obtain ⟨result, x, concluded, hrun⟩ :=
    wait_bounded lastMoment { value := 5, timeout := 20, held := true } steady reached
  have run := hrun 3 (by decide)
  obtain ⟨hresult, hx⟩ := Prod.mk.inj run
  obtain rfl : result = .expired := hresult.symm.trans (by decide)
  refine ⟨steady, reached, x, concluded, ?_, run⟩
  rw [← hx]
  decide

end Rivals

namespace Bench.Contention
variable {lock : TimedLock Int} {releaseAfter : Option Micros}

def holder (releaseAfter : Option Micros) : Rivals Int where
  meddle n lock := if n % 2 = 1 ∧ releaseAfter.any (· ≤ n / 2) then lock.unlock else lock
  clock := id

def later (lock : TimedLock Int) (releaseAfter : Option Micros) (turns : Nat) : Contention where
  lock := (holder releaseAfter).left lock (2 * turns)
  clock := turns
  releaseAt := releaseAfter

theorem left_attempt (lock : TimedLock Int) (releaseAfter : Option Micros) (turns : Nat) :
    (holder releaseAfter).left lock (2 * turns + 1) =
      (holder releaseAfter).left lock (2 * turns) := by
  rw [Rivals.left, holder]
  apply if_neg
  omega

theorem left_reading (lock : TimedLock Int) (releaseAfter : Option Micros) (turns : Nat) :
    (holder releaseAfter).left lock (2 * (turns + 1)) =
      if releaseAfter.any (· ≤ turns) then ((holder releaseAfter).left lock (2 * turns)).unlock
      else (holder releaseAfter).left lock (2 * turns) := by
  have odd : (2 * turns + 1) % 2 = 1 := by omega
  have half : (2 * turns + 1) / 2 = turns := by omega
  rw [Nat.mul_succ, Rivals.left, left_attempt]
  simp only [holder, odd, half, true_and]

theorem run_turn {turns : Nat} (held : ((holder releaseAfter).left lock (2 * turns)).held = true)
    (next : Micros → Waiting Wait) :
    (Waiting.turn next).run answer (later lock releaseAfter turns) =
      (next turns).run answer (later lock releaseAfter (turns + 1)) := by
  have failed : answer .attempt (later lock releaseAfter turns) =
      (false, later lock releaseAfter turns) := by
    simp only [answer, later, TimedLock.tryLock, held]
    rfl
  have read : answer .reading (later lock releaseAfter turns) =
      (turns, later lock releaseAfter (turns + 1)) := by
    rw [later, later, left_reading]
    rfl
  exact Waiting.run_turn failed read next

theorem run_free {turns : Nat} (free : ((holder releaseAfter).left lock (2 * turns)).held = false)
    (next : Micros → Waiting Wait) :
    (Waiting.turn next).run answer (later lock releaseAfter turns) =
      (.acquired, { later lock releaseAfter turns with
        lock := { (holder releaseAfter).left lock (2 * turns) with held := true } }) := by
  apply Waiting.run_turn_had
  simp only [answer, later, TimedLock.tryLock, free]
  rfl

theorem run_retry {deadline : Micros} {n turns : Nat} {steps : List (WaitStep Int)}
    {result : Wait} {x : Contest Int}
    (h : (holder releaseAfter).Retries lock deadline n steps result x)
    (hread : steps.countP (·.isReading) = turns) (hsteps : steps.length = 2 * turns)
    {fuel : Nat} (hfuel : n ≤ fuel) :
    ((Waiting.retry deadline fuel).run answer (later lock releaseAfter turns)).1 = result ∧
      ((Waiting.retry deadline fuel).run answer (later lock releaseAfter turns)).2.lock =
      x.lock := by
  have found (steps : List (WaitStep Int)) {turns : Nat} (hsteps : steps.length = 2 * turns) :
      (holder releaseAfter).found lock steps = (holder releaseAfter).left lock (2 * turns) := by
    rw [Rivals.found, hsteps, left_attempt]
  -- before every turn there have been as many readings as turns, and twice as many steps
  induction h generalizing turns fuel with
  | @had steps free =>
    obtain ⟨fuel, rfl⟩ := Nat.exists_eq_add_one.mpr hfuel
    have free := found steps hsteps ▸ free
    rw [Waiting.retry_succ, run_free free, Rivals.taken, found steps hsteps]
    exact ⟨rfl, rfl⟩
  | @late steps held due =>
    obtain ⟨fuel, rfl⟩ := Nat.exists_eq_add_one.mpr hfuel
    have held := found steps hsteps ▸ held
    have due : deadline ≤ turns := hread ▸ due
    rw [Waiting.retry_succ, run_turn held, if_pos due, Rivals.after, Rivals.turn,
      List.length_append, hsteps]
    exact ⟨rfl, rfl⟩
  | @again n steps result x held early rest ih =>
    obtain ⟨fuel, rfl⟩ := Nat.exists_eq_add_one.mpr (Nat.lt_of_lt_of_le (Nat.succ_pos _) hfuel)
    have held := found steps hsteps ▸ held
    have early : ¬deadline ≤ turns := Nat.not_le.mpr (hread ▸ early)
    rw [Waiting.retry_succ, run_turn held, if_neg early]
    apply ih
    · rw [Rivals.turn, List.countP_append, hread]
      rfl
    · rw [Rivals.turn, List.length_append, hsteps]
      rfl
    · exact Nat.le_of_succ_le_succ hfuel

/-- A wait against a holder that lets go at its own time is never cut off, and comes to its end in
one of the two ways. -/
theorem wait_over (lock : TimedLock Int) (releaseAfter : Option Micros) :
    ∃ x, (holder releaseAfter).Over lock (wait lock releaseAfter).1 x ∧
      (wait lock releaseAfter).2 = x.lock := by
  have reached : (holder releaseAfter).clock 0 + lock.timeout ≤
      (holder releaseAfter).clock lock.timeout :=
    Nat.le_of_eq (Nat.zero_add _)
  obtain ⟨n, result, x, hn, waits⟩ := Rivals.exists_waits monotone_id reached
  have concluded := waits.concludes
  refine ⟨x, ?_⟩
  suffices hwait : (wait lock releaseAfter).1 = result ∧ (wait lock releaseAfter).2 = x.lock from
    ⟨hwait.1.symm ▸ concluded, hwait.2⟩
  have first : (holder releaseAfter).found lock [] = lock := left_attempt lock releaseAfter 0
  cases waits with
  | atOnce free =>
    have free : ((holder releaseAfter).left lock (2 * 0)).held = false := first ▸ free
    have ran : (Waiting.acquire lock.timeout (lock.timeout + 1)).run answer
        { lock, releaseAt := releaseAfter } =
        (.acquired, { lock := { lock with held := true }, releaseAt := releaseAfter }) :=
        run_free free _
    rw [Rivals.taken, first]
    exact ⟨congrArg Prod.fst ran, congrArg (·.2.lock) ran⟩
  | retries held rest =>
    have held : ((holder releaseAfter).left lock (2 * 0)).held = true := first ▸ held
    have ran : (Waiting.acquire lock.timeout (lock.timeout + 1)).run answer
        { lock, releaseAt := releaseAfter } =
        (Waiting.retry (0 + lock.timeout) (lock.timeout + 1)).run answer
        (later lock releaseAfter 1) := run_turn held _
    obtain ⟨hresult, hlock⟩ := run_retry rest rfl rfl hn
    exact ⟨(congrArg Prod.fst ran).trans hresult, (congrArg (·.2.lock) ran).trans hlock⟩

end Bench.Contention
end CanTransport
