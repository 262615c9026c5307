import CanTransport.Stopwatch

/-! # Limits of the network layer

Hard limits end a transfer, soft ones are only noted. Limits read by a stopwatch are in
milliseconds, periods of the scheduler in microseconds.
-/
namespace CanTransport.Timing

/-- N_As and N_Ar: a written frame is confirmed. -/
def confirmLimit : Nat := 1000

/-- N_Bs: flow control arrives. -/
def flowControlLimit : Nat := 1000

/-- N_Cr: the next consecutive frame arrives. -/
def consecutiveLimit : Nat := 1000

/-- N_Br, soft: the receiver's next flow control; nine tenths of N_Bs. -/
def replySoftLimit : Nat := flowControlLimit * 9 / 10

/-- N_Cs, soft: the sender's next consecutive frame; nine tenths of N_Cr. -/
def paceSoftLimit : Nat := consecutiveLimit * 9 / 10

def runPeriod : Micros := 100 * 1000

def ackPeriod : Micros := 1 * 1000

def lockTimeout : Micros := 100 * 1000

/-- How long an entry without an endpoint waits for its outcome. -/
def detachedLifetime : Micros := confirmLimit * 1000

/-- Shortest period of a ticker. -/
def tickerFloor : Micros := 1000

end CanTransport.Timing
