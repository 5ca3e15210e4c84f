import CestWriter.Proofs.Recorder.Waits
import CestWriter.Settings

/-! # Runs of the poller

A poller waits twice as long after each failure in a row, up to half a minute, and asks to be
registered whenever the recorder does not say that it knows the plugin. -/

namespace CestWriter.Registration

open Wire (Failure Peer)

/-! ## Checks -/

/-- The recorder replies, and not with null or false. -/
def Positive (peer : Peer) : Prop :=
  ∃ reply, Wire.receive peer = .ok reply ∧ reply ≠ .null ∧ reply ≠ .bool false

/-- What a check is, by what the recorder does when asked for its health and when sent the
registration. -/
inductive Check.Lawful (health register : Peer) : Check → Prop
  | healthy (h : Positive health) : Lawful health register ⟨[⟨.health, health⟩], .ok .healthy⟩
  | registered (h : ¬Positive health) {reply : Json} (hreply : Wire.receive register = .ok reply) :
    Lawful health register ⟨[⟨.health, health⟩, ⟨.register .own, register⟩], .ok .registered⟩
  | failed (h : ¬Positive health) {e : Failure} (herror : Wire.receive register = .error e) :
    Lawful health register ⟨[⟨.health, health⟩, ⟨.register .own, register⟩], .error e⟩

theorem isHealthy_receive_iff {peer : Peer} : isHealthy (Wire.receive peer) = true ↔ Positive peer := by
  rw [Positive]
  cases Wire.receive peer with
  | error e => simp [isHealthy]
  | ok reply =>
      have hnegative : reply.isNegative = true ↔ reply = .null ∨ reply = .bool false := by
        unfold Json.isNegative
        split <;> simp_all
      simp [isHealthy, ← Bool.not_eq_true, hnegative]

variable {r : Recorder} {p : Progress}

theorem lawful_check : (check r p).1.Lawful (r.health p.healths) (r.register p.registers) := by
  rw [check]
  dsimp only
  split_ifs with h
  · exact .healthy (isHealthy_receive_iff.mp h)
  · have hnot : ¬Positive (r.health p.healths) := fun hpos => h (isHealthy_receive_iff.mpr hpos)
    cases hreply : Wire.receive (r.register p.registers) with
    | error e =>
        rw [Exchange.answer, hreply]
        exact .failed hnot hreply
    | ok reply =>
        rw [Exchange.answer, hreply]
        exact .registered hnot hreply

/-! ## Polls -/

/-- How many failures come after the last success, or in all if there is none. -/
def failuresInARow (earlier : List Poll) : Nat :=
  (earlier.reverse.takeWhile fun p => !p.check.result.isOk).length

/-- How many requests for a path were made. -/
def requestsMade (uri : String) (earlier : List Poll) : Nat :=
  (earlier.flatMap (·.check.exchanges)).countP (·.request.uri = uri)

/-- Polls with their moments after earlier ones, up to `stop`. Each comes after a wait that the
failures in a row before it tell, and meets what the recorder does next. -/
inductive Follows (r : Recorder) (interval stop : Nat) :
    List Poll → Nat → List (Nat × Poll) → Prop
  | stopped {earlier : List Poll} {now : Nat}
    (h : stop ≤ now + lawfulWait interval (failuresInARow earlier)) :
    Follows r interval stop earlier now []
  | polled {earlier : List Poll} {now next : Nat} {p : Poll} {later : List (Nat × Poll)}
    (hnext : next = now + lawfulWait interval (failuresInARow earlier)) (h : next < stop)
    (hwaited : p.waited.nanos = lawfulWait interval (failuresInARow earlier) * 10 ^ 6)
    (hcheck : p.check.Lawful (r.health (requestsMade "/health" earlier))
      (r.register (requestsMade "/register" earlier)))
    (hlater : Follows r interval stop (earlier ++ [p]) next later) :
    Follows r interval stop earlier now ((next, p) :: later)

theorem failuresInARow_concat (earlier : List Poll) (p : Poll) : failuresInARow (earlier ++ [p]) =
    if p.check.result.isOk then 0 else failuresInARow earlier + 1 := by
  rw [failuresInARow, List.reverse_concat, List.takeWhile_cons]
  cases p.check.result.isOk <;> rfl

theorem requestsMade_concat (uri : String) (earlier : List Poll) (p : Poll) :
    requestsMade uri (earlier ++ [p]) =
      requestsMade uri earlier + p.check.exchanges.countP (·.request.uri = uri) := by
  simp [requestsMade]

/-- What a poller keeps is what the polls before tell. -/
structure Remembers (s : Poller) (earlier : List Poll) : Prop where
  errors : Counts s.errors (failuresInARow earlier)
  healths : s.progress.healths = requestsMade "/health" earlier
  registers : s.progress.registers = requestsMade "/register" earlier

theorem remembers_start : Remembers .start [] :=
  ⟨.zero, rfl, rfl⟩

variable {s : Poller} {earlier : List Poll} {interval stop : Nat}

theorem progress_check : (check r p).2 =
    ⟨p.healths + (check r p).1.exchanges.countP (·.request.uri = "/health"),
      p.registers + (check r p).1.exchanges.countP (·.request.uri = "/register")⟩ := by
  rw [check]
  dsimp only
  split_ifs <;> rfl

/-- The next poll is as the law has it, and is remembered like those before it. -/
theorem Remembers.poll (h : Remembers s earlier) (hpos : 0 < interval) (hfits : interval < 2 ^ 64) :
    let (p, s') := s.poll r (.ofMillis (.ofNat interval))
    p.waited.nanos = lawfulWait interval (failuresInARow earlier) * 10 ^ 6 ∧
      p.check.Lawful (r.health (requestsMade "/health" earlier))
        (r.register (requestsMade "/register" earlier)) ∧
      Remembers s' (earlier ++ [p]) := by
  refine ⟨nanos_backoff hpos hfits h.errors, ?_, ?_, ?_, ?_⟩
  · rw [← h.healths, ← h.registers]
    exact lawful_check
  · rw [failuresInARow_concat]
    show Counts (errorsAfter s.errors (check r s.progress).1.result)
      (if (check r s.progress).1.result.isOk then 0 else _)
    cases (check r s.progress).1.result with
    | ok _ => exact .zero
    | error e => exact h.errors.succ e
  · rw [requestsMade_concat, ← h.healths]
    exact congrArg Progress.healths progress_check
  · rw [requestsMade_concat, ← h.registers]
    exact congrArg Progress.registers progress_check

/-- The law holds of all polls, as it holds of each after those before it. -/
theorem Remembers.follows (h : Remembers s earlier) (hpos : 0 < interval) (hfits : interval < 2 ^ 64)
    {fuel now : Nat} (hfuel : stop ≤ now + fuel) :
    Follows r interval stop earlier now
      (pollsFrom r (.ofMillis (.ofNat interval)) stop fuel now s) := by
  induction fuel generalizing s earlier now with
  | zero => exact .stopped (by omega)
  | succ fuel ih =>
      have hpoll := h.poll (r := r) hpos hfits
      rw [pollsFrom]
      cases hp : s.poll r (.ofMillis (.ofNat interval)) with
      | mk p s' =>
          rw [hp] at hpoll
          obtain ⟨hwaited, hcheck, hnext⟩ := hpoll
          have hmillis : p.waited.millis = lawfulWait interval (failuresInARow earlier) := by
            rw [Duration.millis, hwaited]
            exact Nat.mul_div_cancel _ (by decide)
          have hwait := lawfulWait_pos hpos (failuresInARow earlier)
          dsimp only
          rw [hmillis]
          split_ifs with hstop
          · exact .stopped hstop
          · exact .polled rfl (Nat.not_le.mp hstop) hwaited hcheck (ih hnext (by omega))

/-- In a run under the law each poll keeps it. -/
theorem Follows.waited {now moment : Nat} {before after all : List (Nat × Poll)} {p : Poll}
    (h : Follows r interval stop earlier now all) (hall : all = before ++ (moment, p) :: after) :
    p.waited.nanos =
      lawfulWait interval (failuresInARow (earlier ++ before.map Prod.snd)) * 10 ^ 6 := by
  induction h generalizing before with
  | stopped => simp at hall
  | polled _ _ hwaited _ _ ih =>
      cases before with
      | nil =>
          obtain ⟨⟨-, rfl⟩, -⟩ := by simpa using hall
          simpa using hwaited
      | cons first before =>
          obtain ⟨rfl, hrest⟩ := List.cons.inj hall
          simpa using ih hrest

theorem polls_follow (r : Recorder) (hpos : 0 < interval) (hfits : interval < 2 ^ 64) (stop : Nat) :
    Follows r interval stop [] 0 (polls r interval stop) :=
  remembers_start.follows hpos hfits (by omega)

/-! ## The configured interval -/

theorem interval_of_unset {s : Settings} (h : s.healthInterval.getD 0 = 0) : s.interval = 1000 := by
  rw [Settings.interval]
  cases hs : s.healthInterval with
  | none => rfl
  | some ms =>
      obtain rfl : ms = 0 := by simpa [hs] using h
      rfl

theorem interval_of_set {s : Settings} {ms : Nat} (hs : s.healthInterval = some ms) (h : 0 < ms) :
    s.interval = ms := by
  rw [Settings.interval, hs]
  exact if_pos h

/-- Whatever the recorder does, a poller with any settings waits before each poll as long as the law
says, and each poll is a lawful check. -/
theorem polls_back_off (r : Recorder) (s : Settings) (hfits : ∀ ms ∈ s.healthInterval, ms < 2 ^ 64)
    (stop : Nat) :
    (s.healthInterval.getD 0 = 0 → s.interval = 1000) ∧
    (∀ ms, s.healthInterval = some ms → 0 < ms → s.interval = ms) ∧
    Follows r s.interval stop [] 0 (polls r s.interval stop) := by
  refine ⟨interval_of_unset, fun ms => interval_of_set, ?_⟩
  by_cases hunset : s.healthInterval.getD 0 = 0
  · rw [interval_of_unset hunset]
    exact polls_follow r (by decide) (by decide) stop
  · obtain ⟨ms, hs⟩ : ∃ ms, s.healthInterval = some ms := by
      cases hs : s.healthInterval with
      | none => simp [hs] at hunset
      | some ms => exact ⟨ms, rfl⟩
    have hpos : 0 < ms := Nat.pos_of_ne_zero (by simpa [hs] using hunset)
    rw [interval_of_set hs hpos]
    exact polls_follow r hpos (hfits ms hs) stop

/-- The longest interval there is, and a recorder that is never there. -/
theorem polls_back_off_of_longest :
    let s : Settings := ⟨none, none, some (2 ^ 64 - 1)⟩
    let r : Recorder := ⟨fun _ => .absent, fun _ => .absent⟩
    (∀ ms ∈ s.healthInterval, ms < 2 ^ 64) ∧ s.interval = 2 ^ 64 - 1 ∧
      Follows r s.interval 70000 [] 0 (polls r s.interval 70000) ∧
      (polls r s.interval 70000).map Prod.fst = [30000, 60000] := by
  intro s r
  have hfits : ∀ ms ∈ s.healthInterval, ms < 2 ^ 64 := by
    rintro ms ⟨⟩
    decide
  obtain ⟨-, hset, hfollows⟩ := polls_back_off r s hfits 70000
  exact ⟨hfits, hset _ rfl (by decide), hfollows, by decide +kernel⟩

/-- The configured interval is waited for where no check has failed, and no wait is shorter, if the
interval is not beyond the longest wait. If it is, every wait is the longest one. -/
theorem interval_kept_iff (r : Recorder) {s : Settings} {ms : Nat} (hs : s.healthInterval = some ms)
    (hpos : 0 < ms) (hfits : ms < 2 ^ 64) (stop : Nat) {before after : List (Nat × Poll)} {now : Nat}
    {p : Poll} (h : polls r s.interval stop = before ++ (now, p) :: after) :
    (failuresInARow (before.map Prod.snd) = 0 → (p.waited.nanos = ms * 10 ^ 6 ↔ ms ≤ 30000)) ∧
    (ms * 10 ^ 6 ≤ p.waited.nanos ↔ ms ≤ 30000) ∧
    (30000 ≤ ms → p.waited.nanos = 30000 * 10 ^ 6) := by
  rw [interval_of_set hs hpos] at h
  have hwaited := (polls_follow r hpos hfits stop).waited h
  rw [List.nil_append] at hwaited
  have hle : ms ≤ ms * 2 ^ failuresInARow (before.map Prod.snd) :=
    Nat.le_mul_of_pos_right _ (Nat.two_pow_pos _)
  refine ⟨fun hnone => ?_, ?_, fun hlong => ?_⟩
  · rw [hwaited, hnone, lawfulWait, pow_zero, Nat.mul_one]
    omega
  · rw [hwaited, lawfulWait]
    omega
  · rw [hwaited, lawfulWait_eq_longest (hlong.trans hle)]

/-- With an interval of a minute the first poll comes after half a minute. -/
theorem interval_kept_iff_of_minute :
    let s : Settings := ⟨none, none, some 60000⟩
    let r : Recorder := ⟨fun _ => .absent, fun _ => .absent⟩
    ∃ p, polls r s.interval 50000 = [] ++ (30000, p) :: [] ∧
      p.waited.nanos = 30000 * 10 ^ 6 ∧ p.waited.nanos ≠ 60000 * 10 ^ 6 := by
  intro s r
  have hs : s.healthInterval = some 60000 := rfl
  have hmoments : (polls r s.interval 50000).map Prod.fst = [30000] := by decide +kernel
  obtain ⟨⟨now, p⟩, hp, rfl⟩ := List.map_eq_singleton_iff.mp hmoments
  have hone : polls r s.interval 50000 = [] ++ (30000, p) :: [] := hp
  obtain ⟨hkept, -, hlong⟩ := interval_kept_iff r hs (by decide) (by decide) 50000 hone
  refine ⟨p, hp, hlong (by decide), fun h => ?_⟩
  exact absurd ((hkept rfl).mp h) (by decide)

end CestWriter.Registration
