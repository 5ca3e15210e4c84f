import CestWriter.Exchange.Manifest
import CestWriter.Exchange.Wire
import CestWriter.Recorder.Duration

/-! Keeping the recorder aware of the plugin. A recorder forgets its plugins when it restarts, so
its health answer is asked for from time to time, and the plugin is registered again unless the
answer is positive. -/

namespace CestWriter.Registration

open Wire (Failure Peer)

/-! ## Checks -/

inductive Outcome
  | healthy
  | registered
  deriving DecidableEq

/-- A request to the recorder, and what the recorder does on it. -/
structure Exchange where
  request : HostRequest
  peer : Peer

def Exchange.answer (x : Exchange) : Except Failure Json :=
  Wire.receive x.peer

/-- Any JSON other than null and false. -/
def isHealthy : Except Failure Json → Bool
  | .ok reply => !reply.isNegative
  | .error _ => false

/-- A recorder's behaviour: what it does on its n-th request of each kind. -/
structure Recorder where
  health : Nat → Peer
  register : Nat → Peer

/-- How many requests of each kind were made. -/
structure Progress where
  healths : Nat
  registers : Nat

def Progress.none : Progress :=
  ⟨0, 0⟩

/-- What is done in one check and what comes of it. -/
structure Check where
  exchanges : List Exchange
  result : Except Failure Outcome

/-- The requests that arrive: those to an absent recorder do not. -/
def Check.arrived (c : Check) : List HostRequest :=
  (c.exchanges.filter (·.peer ≠ .absent)).map (·.request)

/-- One check, and the progress after it. A failed health answer is no error by itself. -/
def check (r : Recorder) (p : Progress) : Check × Progress :=
  let health : Exchange := ⟨.health, r.health p.healths⟩
  if isHealthy health.answer then (⟨[health], .ok .healthy⟩, ⟨p.healths + 1, p.registers⟩)
  else
    let register : Exchange := ⟨.register .own, r.register p.registers⟩
    (⟨[health, register], register.answer.map fun _ => .registered⟩,
      ⟨p.healths + 1, p.registers + 1⟩)

/-- Checks one after another: the requests that arrive, and the results in order. -/
def checks (r : Recorder) : Nat → Progress → List HostRequest × List (Except Failure Outcome)
  | 0, _ => ([], [])
  | n + 1, p =>
    let (c, p) := check r p
    let (requests, results) := checks r n p
    (c.arrived ++ requests, c.result :: results)

/-! ## Polling -/

/-- A power of two in 32 bits; beyond them the largest number there is. -/
def multiplier (errors : UInt32) : UInt32 :=
  if errors < 32 then 1 <<< errors else 0xFFFFFFFF

def longestWait : Duration :=
  .ofMillis 30000

/-- How long to wait after a number of failures in a row. -/
def backoff (interval : Duration) (errors : UInt32) : Duration :=
  (interval.scale (multiplier errors)).shorter longestWait

/-- Failures in a row after one more check. The count stops at the largest number there is. -/
def errorsAfter (errors : UInt32) : Except Failure Outcome → UInt32
  | .ok _ => 0
  | .error _ => if errors = 0xFFFFFFFF then errors else errors + 1

/-- A check and the wait before it. -/
structure Poll where
  waited : Duration
  check : Check

/-- What a poller keeps between two polls. -/
structure Poller where
  errors : UInt32
  progress : Progress

def Poller.start : Poller :=
  ⟨0, .none⟩

def Poller.poll (r : Recorder) (interval : Duration) (s : Poller) : Poll × Poller :=
  let (c, progress) := check r s.progress
  (⟨backoff interval s.errors, c⟩, ⟨errorsAfter s.errors c.result, progress⟩)

/-- The polls before `stop` and their moments in milliseconds, from a moment on. Every wait takes
time, so the number of milliseconds is fuel enough. -/
def pollsFrom (r : Recorder) (interval : Duration) (stop : Nat) :
    Nat → Nat → Poller → List (Nat × Poll)
  | 0, _, _ => []
  | fuel + 1, now, s =>
    let (p, s) := s.poll r interval
    let now := now + p.waited.millis
    if stop ≤ now then [] else (now, p) :: pollsFrom r interval stop fuel now s

/-- The polls of a poller with an interval of so many milliseconds that is stopped at `stop`. -/
def polls (r : Recorder) (interval stop : Nat) : List (Nat × Poll) :=
  pollsFrom r (.ofMillis (.ofNat interval)) stop stop 0 .start

/-- The moments of all requests that arrive from a poller. -/
def run (r : Recorder) (interval stop : Nat) : List (Nat × HostRequest) :=
  (polls r interval stop).flatMap fun (now, p) => p.check.arrived.map (now, ·)

end CestWriter.Registration
