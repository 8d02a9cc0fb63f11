import Rlaas.Store.CircuitBreaker

/-! How many probes a half-open breaker admits. `Allow` compares with the number of recorded
successes, so a client that has not reported back yet does not count, and the number of clients
bounds how far the admissions run ahead. -/

set_option autoImplicit false

namespace Rlaas.Store.Redis

open Go Effect Function

variable {observed : Observed}

/-- Where a client is within a call. -/
inductive CallStage where
  | idle
  | admitted
  | answered (err : Option String)

namespace CallStage

def busy : CallStage → Bool
  | .idle => false
  | _ => true

def guard : CallStage → BreakerOp → Prop
  | .idle, op => op = .allow
  | .admitted, op => op = .fn
  | .answered (some _), op => op = .recordFailure
  | .answered none, op => op = .recordSuccess

def advance : CallStage → (op : BreakerOp) → BreakerRes op → CallStage
  | _, .allow, allowed => if allowed then .admitted else .idle
  | _, .fn, err => .answered err
  | _, .recordSuccess, _ => .idle
  | _, .recordFailure, _ => .idle

end CallStage

def clientWatch : Monitor BreakerOp BreakerRes CallStage (Option Unit) where
  expects _ _ _ := True
  guard := CallStage.guard
  advance := CallStage.advance
  accept stage _ := stage = .idle

theorem client_watched (calls : Nat) : clientWatch.Accepts .idle (client calls) := by
  refine Monitor.accepts_rounds (fun stage idle => ?_) calls rfl
  cases idle
  refine ⟨rfl, fun allowed _ => ?_⟩
  cases allowed with
  | false => rfl
  | true =>
      refine ⟨rfl, fun err _ => ?_⟩
      cases err with
      | none => exact ⟨rfl, fun _ _ => rfl⟩
      | some message => exact ⟨rfl, fun _ _ => rfl⟩

/-- `Allow` admits in a closed breaker, makes an open one half open, admits below the number
of probes in a half-open one, or refuses and changes nothing. -/
theorem Observed.allow_cases (now : Time) (observed : Observed) :
    observed.breaker.state = .closed ∧ observed.allow now = (true, observed) ∨
    observed.breaker.state = .opened ∧ observed.breaker.halfOpenAfter <
        Arith.machine.wrap (now.unixNano .machine - observed.breaker.openedAt) ∧
      observed.allow now =
        (true, ⟨{ observed.breaker with state := .halfOpen, probeCount := 0 }, 1⟩) ∨
    observed.breaker.state = .halfOpen ∧ observed.breaker.probeCount < observed.breaker.maxProbe ∧
      observed.allow now = (true, ⟨observed.breaker, observed.probes + 1⟩) ∨
    observed.allow now = (false, observed) := by
  unfold Observed.allow CircuitBreaker.allow
  cases state : observed.breaker.state with
  | closed => simp
  | opened =>
      generalize Arith.machine.wrap (now.unixNano .machine - observed.breaker.openedAt) = elapsed
      by_cases late : elapsed > observed.breaker.halfOpenAfter
      · simp [late]
      · simp [late]
  | halfOpen =>
      by_cases room : observed.breaker.probeCount < observed.breaker.maxProbe
      · simp [room]
      · simp [room]

/-- The admissions of the current period are the successes recorded in it and calls that have
not reported back. -/
structure Bounded (maxProbe : Int) (clients : Nat) (observed : Observed)
    (stages : Nat → CallStage) : Prop where
  limit : observed.breaker.maxProbe = maxProbe
  room : observed.breaker.state = .halfOpen → observed.breaker.probeCount < maxProbe
  covered : observed.breaker.state = .halfOpen →
    (observed.probes : Int) ≤
      observed.breaker.probeCount + headcount CallStage.busy clients stages

namespace Bounded

variable {maxProbe : Int} {clients thread : Nat} {observed : Observed} {stages : Nat → CallStage}

theorem keep {after : Observed} {next : CallStage} (limit : after.breaker.maxProbe = maxProbe)
    (closed : after.breaker.state ≠ .halfOpen) :
    Bounded maxProbe clients after (update stages thread next) where
  limit
  room half := absurd half closed
  covered half := absurd half closed

section

variable (bounded : Bounded maxProbe clients observed stages)

include bounded

theorem allow (positive : 1 ≤ maxProbe) (inside : thread < clients) (now : Time)
    (idle : stages thread = .idle) :
    Bounded maxProbe clients (observed.allow now).2
      (update stages thread (if (observed.allow now).1 then .admitted else .idle)) := by
  have entered := headcount_update CallStage.busy inside stages .admitted
  rw [idle] at entered
  simp only [CallStage.busy, Bool.toNat_false, Bool.toNat_true, Nat.add_zero] at entered
  obtain ⟨closed, same⟩ | ⟨_, _, same⟩ | ⟨half, room, same⟩ | same :=
    observed.allow_cases now
  · rw [same]
    exact keep bounded.limit (by rw [closed]; decide)
  · rw [same]
    refine ⟨bounded.limit, fun _ => positive, fun _ => ?_⟩
    simp only [if_true, entered]
    omega
  · rw [same]
    refine ⟨bounded.limit, bounded.room, fun _ => ?_⟩
    have covered := bounded.covered half
    simp only [if_true, entered]
    push_cast
    omega
  · rw [same]
    have unchanged : update stages thread .idle = stages := by
      rw [← idle, update_eq_self]
    simpa [unchanged] using bounded

theorem fn (inside : thread < clients) (admitted : stages thread = .admitted)
    (err : Option String) :
    Bounded maxProbe clients observed (update stages thread (.answered err)) := by
  have answered := headcount_update CallStage.busy inside stages (.answered err)
  rw [admitted] at answered
  refine ⟨bounded.limit, bounded.room, fun half => ?_⟩
  rw [Nat.add_right_cancel answered]
  exact bounded.covered half

theorem recordSuccess (inside : thread < clients) {err : Option String}
    (answered : stages thread = .answered err) :
    Bounded maxProbe clients { observed with breaker := observed.breaker.recordSuccess }
      (update stages thread .idle) := by
  have left := headcount_update CallStage.busy inside stages .idle
  rw [answered] at left
  simp only [CallStage.busy, Bool.toNat_false, Bool.toNat_true, Nat.add_zero] at left
  unfold CircuitBreaker.recordSuccess
  cases state : observed.breaker.state with
  | closed => exact keep bounded.limit (by simp)
  | opened => exact keep bounded.limit (by simp [state])
  | halfOpen =>
      dsimp only
      split_ifs with full
      · exact keep bounded.limit (by simp)
      · have covered := bounded.covered state
        refine ⟨bounded.limit, fun _ => ?_, fun _ => ?_⟩
        · rw [← bounded.limit]
          exact not_le.mp full
        · dsimp only
          omega

theorem recordFailure (now : Time) (next : CallStage) :
    Bounded maxProbe clients { observed with breaker := observed.breaker.recordFailure now }
      (update stages thread next) := by
  unfold CircuitBreaker.recordFailure
  cases state : observed.breaker.state with
  | closed =>
      dsimp only
      split_ifs
      · exact keep bounded.limit (by simp)
      · exact keep bounded.limit (by simp)
  | opened => exact keep bounded.limit (by simp [state])
  | halfOpen => exact keep bounded.limit (by simp)

theorem step (positive : 1 ≤ maxProbe) (inside : thread < clients) (reading : BreakerReading)
    (op : BreakerOp) (guarded : (stages thread).guard op) :
    Bounded maxProbe clients (observed.perform reading op).2
      (update stages thread
        ((stages thread).advance op (observed.perform reading op).1)) := by
  cases stage : stages thread with
  | idle =>
      rw [stage] at guarded
      cases guarded
      exact bounded.allow positive inside reading.now stage
  | admitted =>
      rw [stage] at guarded
      cases guarded
      exact bounded.fn inside stage reading.outcome
  | answered err =>
      rw [stage] at guarded
      cases err with
      | some message =>
          cases guarded
          exact bounded.recordFailure reading.now .idle
      | none =>
          cases guarded
          exact bounded.recordSuccess inside stage

end

end Bounded

section Run

variable (threshold : Int) (halfOpenAfter : Duration) (maxProbe : Int) (calls : List Nat)
  (schedule : List (Nat × BreakerReading))

/-- A half-open breaker has admitted fewer calls than it has probes and clients. -/
theorem probes_lt (positive : 1 ≤ maxProbe)
    (half : ((BreakerPool.begin (newCircuitBreaker threshold halfOpenAfter maxProbe) calls).run
      Observed.perform schedule).state.breaker.state = .halfOpen) :
    (((BreakerPool.begin (newCircuitBreaker threshold halfOpenAfter maxProbe) calls).run
      Observed.perform schedule).state.probes : Int) < maxProbe + calls.length := by
  have followed : (BreakerPool.begin (newCircuitBreaker threshold halfOpenAfter maxProbe)
      calls).Followed (fun _ => clientWatch) fun _ => .idle := by
    refine Pool.followed_start fun thread program found => ?_
    rw [List.getElem?_map] at found
    obtain ⟨count, _, rfl⟩ := Option.map_eq_some_iff.mp found
    exact client_watched count
  obtain ⟨_, bounded⟩ := Pool.run_stages Observed.perform (fun _ => clientWatch) (fun _ => .idle)
    (Bounded maxProbe calls.length)
    (fun observed history thread reading op inside bounded _ guarded =>
      ⟨trivial, bounded.step positive inside reading op guarded⟩)
    schedule _ (List.length_map _) followed
    ⟨rfl, (fun half => by cases half), (fun half => by cases half)⟩ (Pool.along_trivial _ _)
  have room := bounded.room half
  have covered := bounded.covered half
  have most := headcount_le CallStage.busy calls.length
    (Pool.stages (fun _ => clientWatch) (fun _ => .idle)
      ((BreakerPool.begin (newCircuitBreaker threshold halfOpenAfter maxProbe) calls).run
        Observed.perform schedule).history)
  omega

end Run

/-! ## Two clients are enough to exceed the limit -/

section Calls

variable {pool : BreakerPool} {thread : Nat} {rest : Nat}

def failAt (now : Int) : BreakerReading := ⟨⟨now, utc⟩, some "connection refused"⟩

def succeedAt (now : Int) : BreakerReading := ⟨⟨now, utc⟩, none⟩

theorem allow_closed (now : Time) (closed : observed.breaker.state = .closed) :
    observed.allow now = (true, observed) := by
  simp [Observed.allow, CircuitBreaker.allow, closed]

theorem allow_halfOpen (now : Time) (half : observed.breaker.state = .halfOpen)
    (room : observed.breaker.probeCount < observed.breaker.maxProbe) :
    observed.allow now = (true, ⟨observed.breaker, observed.probes + 1⟩) := by
  simp [Observed.allow, CircuitBreaker.allow, half, room]

theorem recordFailure_closed (now : Time) {cb : CircuitBreaker} (closed : cb.state = .closed) :
    cb.recordFailure now =
      if cb.failures + 1 ≥ cb.threshold then
        { cb with state := .opened, failures := cb.failures + 1, openedAt := now.unixNano .machine }
      else { cb with failures := cb.failures + 1 } := by
  rw [CircuitBreaker.recordFailure, closed]

theorem recordSuccess_halfOpen {cb : CircuitBreaker} (half : cb.state = .halfOpen) :
    cb.recordSuccess =
      if cb.probeCount + 1 ≥ cb.maxProbe then
        { cb with state := .closed, failures := 0, probeCount := 0 }
      else { cb with probeCount := cb.probeCount + 1 } := by
  rw [CircuitBreaker.recordSuccess, half]

/-- A call that is admitted and reports its outcome at once. -/
def Observed.report (reading : BreakerReading) (observed : Observed) : Observed where
  breaker :=
    match reading.outcome with
    | some _ => observed.breaker.recordFailure reading.now
    | none => observed.breaker.recordSuccess
  probes := observed.probes

theorem exec_doCall {before observed : Observed} {reading : BreakerReading}
    (admitted : before.allow reading.now = (true, observed)) :
    ((doCall true).bind fun _ => .done (none : Option Unit)).exec Observed.perform
      (fun _ => reading) before = (none, observed.report reading) := by
  change (Program.bind (if !(before.allow reading.now).1 then _ else _) _).exec Observed.perform
    (fun _ => reading) (before.allow reading.now).2 = _
  rw [admitted]
  change (Program.bind (match reading.outcome with | some _ => _ | none => _) _).exec
    Observed.perform (fun _ => reading) observed = _
  rw [Observed.report]
  cases reading.outcome with
  | some message => rfl
  | none => rfl

theorem run_call (found : pool.threads[thread]? = some (client (rest + 1)))
    (reading : BreakerReading) (admitted : pool.state.allow reading.now = (true, observed)) :
    ∃ turns, (pool.run Observed.perform (List.replicate turns (thread, reading))).state =
        observed.report reading ∧
      (pool.run Observed.perform (List.replicate turns (thread, reading))).threads =
        pool.threads.set thread (client rest) := by
  obtain ⟨turns, state, threads⟩ := Pool.run_bind Observed.perform reading thread
    ((doCall true).bind fun _ => .done none) _ pool found
  rw [exec_doCall admitted] at state threads
  exact ⟨turns, state, threads⟩

theorem run_admission (found : pool.threads[thread]? = some (client (rest + 1)))
    (reading : BreakerReading) (admitted : pool.state.allow reading.now = (true, observed)) :
    (pool.step Observed.perform (thread, reading)).state = observed ∧
      ∃ program, (pool.step Observed.perform (thread, reading)).threads =
        pool.threads.set thread program := by
  rw [Pool.step_of_call (show pool.threads[thread]? = some (.call .allow _) from found)]
  refine ⟨?_, _, rfl⟩
  change (pool.state.allow reading.now).2 = observed
  rw [admitted]

/-- A closed breaker opens with the failure that reaches the threshold. -/
theorem run_failures (count : Nat) (pool : BreakerPool)
    (found : pool.threads[thread]? = some (client (rest + (count + 1))))
    (closed : pool.state.breaker.state = .closed)
    (reaches : pool.state.breaker.failures + (count + 1) = pool.state.breaker.threshold) :
    ∃ schedule,
      (pool.run Observed.perform schedule).state.breaker =
        { pool.state.breaker with
          state := .opened
          failures := pool.state.breaker.threshold
          openedAt := 0 } ∧
      (pool.run Observed.perform schedule).threads = pool.threads.set thread (client rest) := by
  have inside : thread < pool.threads.length := (List.getElem?_eq_some_iff.mp found).1
  induction count generalizing pool with
  | zero =>
      obtain ⟨turns, state, threads⟩ := run_call found (failAt 0) (allow_closed _ closed)
      refine ⟨_, ?_, threads⟩
      rw [state]
      change pool.state.breaker.recordFailure ⟨0, utc⟩ = _
      rw [recordFailure_closed _ closed, if_pos (by omega)]
      have last : pool.state.breaker.failures + 1 = pool.state.breaker.threshold := by omega
      rw [last]
      rfl
  | succ count ih =>
      have next : pool.threads[thread]? = some (client (rest + (count + 1) + 1)) := found
      obtain ⟨turns, state, threads⟩ := run_call next (failAt 0) (allow_closed _ closed)
      have failed : (pool.run Observed.perform (List.replicate turns (thread, failAt 0))).state.breaker
          = { pool.state.breaker with failures := pool.state.breaker.failures + 1 } := by
        rw [state]
        change pool.state.breaker.recordFailure ⟨0, utc⟩ = _
        rw [recordFailure_closed _ closed, if_neg (by push_cast at reaches; omega)]
      obtain ⟨later, opened, after⟩ := ih
        (pool.run Observed.perform (List.replicate turns (thread, failAt 0)))
        (by rw [threads, List.getElem?_set_self inside])
        (by rw [failed]; exact closed)
        (by rw [failed]; push_cast at reaches ⊢; omega)
        (by rw [threads, List.length_set]; exact inside)
      refine ⟨List.replicate turns (thread, failAt 0) ++ later, ?_, ?_⟩
      · rw [Pool.run_append, opened, failed]
      · rw [Pool.run_append, after, threads, List.set_set]

/-- Successes below the number of probes keep the breaker half open. -/
theorem run_successes (count : Nat) (pool : BreakerPool)
    (found : pool.threads[thread]? = some (client (rest + count)))
    (half : pool.state.breaker.state = .halfOpen)
    (below : pool.state.breaker.probeCount + count < pool.state.breaker.maxProbe) :
    ∃ schedule,
      (pool.run Observed.perform schedule).state =
        ⟨{ pool.state.breaker with probeCount := pool.state.breaker.probeCount + count },
          pool.state.probes + count⟩ ∧
      (pool.run Observed.perform schedule).threads = pool.threads.set thread (client rest) := by
  have inside : thread < pool.threads.length := (List.getElem?_eq_some_iff.mp found).1
  induction count generalizing pool with
  | zero =>
      refine ⟨[], by simp [Pool.run], ?_⟩
      obtain ⟨_, here⟩ := List.getElem?_eq_some_iff.mp found
      change pool.threads = pool.threads.set thread (client (rest + 0))
      rw [← here, List.set_getElem_self]
  | succ count ih =>
      have next : pool.threads[thread]? = some (client (rest + count + 1)) := found
      obtain ⟨turns, state, threads⟩ := run_call next (succeedAt 0)
        (allow_halfOpen _ half (by omega))
      have moved : (pool.run Observed.perform (List.replicate turns (thread, succeedAt 0))).state =
          ⟨{ pool.state.breaker with probeCount := pool.state.breaker.probeCount + 1 },
            pool.state.probes + 1⟩ := by
        rw [state]
        change Observed.mk pool.state.breaker.recordSuccess _ = _
        rw [recordSuccess_halfOpen half, if_neg (by push_cast at below; omega)]
      obtain ⟨later, reached, after⟩ := ih
        (pool.run Observed.perform (List.replicate turns (thread, succeedAt 0)))
        (by rw [threads, List.getElem?_set_self inside])
        (by rw [moved]; exact half)
        (by rw [moved]; push_cast at below ⊢; omega)
        (by rw [threads, List.length_set]; exact inside)
      refine ⟨List.replicate turns (thread, succeedAt 0) ++ later, ?_, ?_⟩
      · rw [Pool.run_append, reached, moved]
        have total : pool.state.breaker.probeCount + 1 + count =
            pool.state.breaker.probeCount + (count + 1 : Nat) := by push_cast; omega
        have admitted : pool.state.probes + 1 + count = pool.state.probes + (count + 1) := by omega
        dsimp only
        rw [total, admitted]
      · rw [Pool.run_append, after, threads, List.set_set]

end Calls

theorem allow_opened (opened : observed.breaker.state = .opened)
    (since : observed.breaker.openedAt = 0) (range : IsInt64 observed.breaker.halfOpenAfter)
    (finite : (observed.breaker.halfOpenAfter : Int) ≠ 2 ^ 63 - 1) :
    observed.allow ⟨2 ^ 63 - 1, utc⟩ =
      (true, ⟨{ observed.breaker with state := .halfOpen, probeCount := 0 }, 1⟩) := by
  have late : Arith.machine.wrap (Time.unixNano .machine ⟨2 ^ 63 - 1, utc⟩ - 0) >
      observed.breaker.halfOpenAfter := by
    have elapsed : Arith.machine.wrap (Time.unixNano .machine ⟨2 ^ 63 - 1, utc⟩ - 0) = 2 ^ 63 - 1 := by
      decide
    rw [elapsed]
    exact lt_of_le_of_ne (Int.le_sub_one_of_lt range.2) finite
  simp only [Observed.allow, CircuitBreaker.allow, opened, since, if_pos late]
  rfl

/-- One client opens the breaker, asks again and does not report back; the other reports all
successes but the last, and asks again. -/
theorem probes_exceed {threshold : Int} {halfOpenAfter : Duration} {maxProbe : Int}
    (failing : 1 ≤ threshold) (probing : 1 ≤ maxProbe) (range : IsInt64 halfOpenAfter)
    (finite : halfOpenAfter ≠ 2 ^ 63 - 1) (others : Nat) :
    ∃ calls schedule, calls.length = others + 2 ∧
      ((BreakerPool.begin (newCircuitBreaker threshold halfOpenAfter maxProbe) calls).run
        Observed.perform schedule).state.breaker.state = .halfOpen ∧
      (((BreakerPool.begin (newCircuitBreaker threshold halfOpenAfter maxProbe) calls).run
        Observed.perform schedule).state.probes : Int) = maxProbe + 1 := by
  obtain ⟨failures, rfl⟩ : ∃ failures : Nat, threshold = failures + 1 :=
    ⟨(threshold - 1).toNat, by omega⟩
  obtain ⟨successes, rfl⟩ : ∃ successes : Nat, maxProbe = successes + 1 :=
    ⟨(maxProbe - 1).toNat, by omega⟩
  let breaker := newCircuitBreaker (failures + 1) halfOpenAfter (successes + 1)
  let calls := (1 + (failures + 1)) :: (1 + successes) :: List.replicate others 0
  obtain ⟨first, opened, threads⟩ := run_failures failures (BreakerPool.begin breaker calls)
    (show (BreakerPool.begin breaker calls).threads[0]? = some (client (1 + (failures + 1))) from rfl)
    rfl (Int.zero_add _)
  let failed := (BreakerPool.begin breaker calls).run Observed.perform first
  have asking : failed.threads[0]? = some (client (0 + 1)) := by
    rw [threads]
    rfl
  obtain ⟨halved, program, waiting⟩ := run_admission asking (succeedAt (2 ^ 63 - 1))
    (allow_opened (by rw [opened]) (by rw [opened]) (by rw [opened]; exact range)
      (by rw [opened]; exact finite))
  let half := failed.step Observed.perform (0, succeedAt (2 ^ 63 - 1))
  have second : half.threads[1]? = some (client (1 + successes)) := by
    rw [waiting, threads]
    rfl
  have fits : half.state.breaker.probeCount + successes < half.state.breaker.maxProbe := by
    rw [halved, opened]
    change (0 : Int) + successes < successes + 1
    omega
  obtain ⟨reports, reached, after⟩ := run_successes successes half second (by rw [halved]) fits
  let probed := half.run Observed.perform reports
  have last : probed.threads[1]? = some (client (0 + 1)) := by
    rw [after, waiting, threads]
    rfl
  obtain ⟨exceeded, _⟩ := run_admission last (succeedAt 0)
    (allow_halfOpen _ (by rw [reached, halved]) (by rw [reached]; exact fits))
  refine ⟨calls, first ++ (0, succeedAt (2 ^ 63 - 1)) :: (reports ++ [(1, succeedAt 0)]),
    by simp [calls], ?_⟩
  have final : (BreakerPool.begin breaker calls).run Observed.perform
      (first ++ (0, succeedAt (2 ^ 63 - 1)) :: (reports ++ [(1, succeedAt 0)])) =
        probed.step Observed.perform (1, succeedAt 0) := by
    rw [Pool.run_append]
    exact Pool.run_append Observed.perform reports _ half
  rw [final, exceeded, reached, halved]
  refine ⟨rfl, ?_⟩
  push_cast
  omega

/-- A breaker that no time in the range of an `int64` makes half open. -/
def Observed.Shut (observed : Observed) : Prop :=
  observed.breaker.halfOpenAfter = 2 ^ 63 - 1 ∧ observed.breaker.state ≠ .halfOpen

theorem Observed.Shut.perform (shut : observed.Shut) (reading : BreakerReading) (op : BreakerOp) :
    (observed.perform reading op).2.Shut := by
  obtain ⟨longest, never⟩ := shut
  cases op with
  | allow =>
      change (observed.allow reading.now).2.Shut
      obtain ⟨_, same⟩ | ⟨_, late, _⟩ | ⟨half, _⟩ | same := observed.allow_cases reading.now
      · rw [same]
        exact ⟨longest, never⟩
      · rw [longest] at late
        exact absurd late (not_lt.mpr (wrapInt64_le _))
      · exact absurd half never
      · rw [same]
        exact ⟨longest, never⟩
  | fn => exact ⟨longest, never⟩
  | recordSuccess =>
      change Observed.Shut ⟨observed.breaker.recordSuccess, observed.probes⟩
      unfold CircuitBreaker.recordSuccess
      cases state : observed.breaker.state with
      | closed => exact ⟨longest, by simp⟩
      | opened => exact ⟨longest, never⟩
      | halfOpen => exact absurd state never
  | recordFailure =>
      change Observed.Shut ⟨observed.breaker.recordFailure reading.now, observed.probes⟩
      cases state : observed.breaker.state with
      | closed =>
          rw [recordFailure_closed _ state]
          split_ifs
          · exact ⟨longest, by simp⟩
          · exact ⟨longest, never⟩
      | opened =>
          rw [CircuitBreaker.recordFailure, state]
          exact ⟨longest, never⟩
      | halfOpen => exact absurd state never

/-- A half-open breaker admits at most `maxProbe` calls exactly if it has a single client, or if
no time that fits in an `int64` is long enough for it to become half open. -/
theorem probes_bounded_iff {threshold : Int} {halfOpenAfter : Duration} {maxProbe : Int}
    (failing : 1 ≤ threshold) (probing : 1 ≤ maxProbe) (range : IsInt64 halfOpenAfter)
    (clients : Nat) :
    (∀ calls : List Nat, calls.length = clients → ∀ schedule,
      let final := (BreakerPool.begin (newCircuitBreaker threshold halfOpenAfter maxProbe) calls).run
        Observed.perform schedule
      final.state.breaker.state = .halfOpen → (final.state.probes : Int) ≤ maxProbe) ↔
    clients ≤ 1 ∨ halfOpenAfter = 2 ^ 63 - 1 := by
  constructor
  · intro bounded
    by_contra more
    obtain ⟨several, finite⟩ := not_or.mp more
    obtain ⟨others, rfl⟩ : ∃ others, clients = others + 2 := ⟨clients - 2, by omega⟩
    obtain ⟨calls, schedule, size, half, exceeded⟩ :=
      probes_exceed failing probing range finite others
    have within := bounded calls size schedule half
    omega
  · intro condition calls size schedule final half
    cases condition with
    | inl single =>
        have less : (final.state.probes : Int) < maxProbe + calls.length :=
          probes_lt threshold halfOpenAfter maxProbe calls schedule probing half
        omega
    | inr longest =>
        have shut : final.state.Shut := Pool.run_kept Observed.Shut
          (fun reading op observed shut => shut.perform reading op) schedule
          ⟨longest, by simp [BreakerPool.begin, Pool.start, Observed.start, newCircuitBreaker]⟩
        exact absurd half shut.2

/-- A single client, whose second probe comes after the first has reported back. -/
theorem probes_bounded_of_one_client :
    let final := (BreakerPool.begin (newCircuitBreaker 1 0 2) [3]).run Observed.perform
      (List.replicate 3 (0, failAt 0) ++ List.replicate 4 (0, succeedAt 1))
    final.state.breaker.state = .halfOpen ∧ (final.state.probes : Int) ≤ 2 := by
  intro final
  have half : final.state.breaker.state = .halfOpen := by decide +kernel
  exact ⟨half, (probes_bounded_iff (by decide) (by decide) (by decide) 1).mpr (.inl le_rfl) [3] rfl
    _ half⟩

/-- With one probe allowed, three clients are admitted before the first reports back. -/
theorem probes_exceed_limit :
    let final := (BreakerPool.begin (newCircuitBreaker 1 0 1) [2, 1, 1]).run Observed.perform
      [(0, failAt 0), (0, failAt 0), (0, failAt 0), (0, succeedAt 1), (1, succeedAt 1),
        (2, succeedAt 1)]
    final.state.breaker.state = .halfOpen ∧ final.state.breaker.maxProbe = 1 ∧
      final.state.probes = 3 := by
  decide +kernel

end Rlaas.Store.Redis
