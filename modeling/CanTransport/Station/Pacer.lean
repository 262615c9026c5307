import CanTransport.Station.Scheduler

/-! # Pacer

Drives a station for ever by two tickers, one for ticks and one for outcomes. A ticker keeps the
instant of its next expiry; each expiry taken moves that by one period, so a late poll takes all
that are due. Due ticks go before due ack steps.
-/
namespace CanTransport

structure Ticker where
  period : Micros
  expiry : Micros
deriving DecidableEq

namespace Ticker

/-- Expires for the first time one period from `now`; no period is shorter than a millisecond. -/
def every (period now : Micros) : Ticker :=
  let period := max period Timing.tickerFloor
  ⟨period, now + period⟩

def isDue (t : Ticker) (now : Micros) : Bool := t.expiry ≤ now

def advance (t : Ticker) : Ticker := { t with expiry := t.expiry + t.period }

/-- How many expiries are due. -/
def dueCount (t : Ticker) (now : Micros) : Nat :=
  if t.expiry ≤ now then (now - t.expiry) / t.period + 1 else 0

theorem isDue_iff {t : Ticker} {now : Micros} : t.isDue now = true ↔ 0 < t.dueCount now := by
  simp only [isDue, dueCount, decide_eq_true_eq]
  split <;> simp_all

theorem expiry_advance (t : Ticker) : t.advance.expiry = t.expiry + t.period := rfl

theorem period_advance (t : Ticker) : t.advance.period = t.period := rfl

/-- Taking an expiry leaves one less to take. -/
theorem dueCount_advance {t : Ticker} {now : Micros} (hp : 0 < t.period) (h : t.isDue now = true) :
    t.advance.dueCount now + 1 = t.dueCount now := by
  have hd : t.expiry ≤ now := by simpa [isDue] using h
  rw [dueCount, dueCount, expiry_advance, period_advance, if_pos hd]
  by_cases hn : t.expiry + t.period ≤ now
  · rw [if_pos hn, Nat.div_eq_sub_div hp (Nat.le_sub_of_add_le' hn), Nat.sub_sub]
  · have hlt : now - t.expiry < t.period := Nat.sub_lt_left_of_lt_add hd (Nat.not_le.mp hn)
    rw [if_neg hn, Nat.div_eq_of_lt hlt]

end Ticker

structure Pacer where
  run : Ticker
  ack : Ticker
deriving DecidableEq

namespace Pacer
open CanTransport.Action

def start (s : Station) (now : Micros) : Pacer :=
  ⟨.every s.runPeriod now, .every s.ackPeriod now⟩

/-- Instant from which on there is something to do. -/
def nextExpiry (p : Pacer) : Micros := min p.run.expiry p.ack.expiry

/-- Takes expiries until none is due, at most `fuel` of them. -/
def pollUpTo : Nat → Pacer → Action Pacer
  | 0, p => return p
  | fuel + 1, p => do
    let clock ← now
    if p.run.isDue clock then
      if ← isActive then Station.pacedTick
      pollUpTo fuel { p with run := p.run.advance }
    else if p.ack.isDue clock then
      let _ ← Station.settle
      pollUpTo fuel { p with ack := p.ack.advance }
    else return p

/-- Takes all expiries that are due. -/
def poll (p : Pacer) : Action Pacer := do
  let clock ← now
  pollUpTo (p.run.dueCount clock + p.ack.dueCount clock) p

end Pacer
end CanTransport
