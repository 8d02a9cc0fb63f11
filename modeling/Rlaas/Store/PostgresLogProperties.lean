import Rlaas.Lib.ReadCommittedProperties
import Rlaas.Store.PostgresLog

/-! The calls of `CheckAndAddTimestamps` of package `postgres` come one after the other, in the
order of their commits, whatever keys they are for and whatever fails; and what the limit then
says about the calls that were allowed. -/

set_option autoImplicit false

namespace Rlaas.Store.Postgres

open Go Effect ReadCommitted

/-- The calls whose commits have succeeded, one after another. -/
def logAfter (A : Arith) (calls : Nat → LogCall) (rows : List Timestamp)
    (committed : List (Nat × Bool)) : List Timestamp :=
  committed.foldl (fun rows commit =>
    if commit.2 then (calls commit.1).leaves A rows else rows) rows

section Job

variable (A : Arith) (hashtext : String → Int)

def LogCall.job (call : LogCall) : Job Timestamp Int where
  lock := hashtext call.key
  mine row := row.key == call.key
  stale := stale call.key call.cutoff
  recent := recent call.key call.cutoff
  rule count :=
    if call.allowed A count then some (List.replicate call.cost.toNat call.row) else none
  stale_mine row old := (Bool.and_eq_true_iff.mp old).1
  recent_mine row seen := (Bool.and_eq_true_iff.mp seen).1
  recent_kept row seen := by
    have late := of_decide_eq_true (Bool.and_eq_true_iff.mp seen).2
    rw [stale, decide_eq_false (not_lt.mpr late), Bool.and_false]
  inserts_mine count rows chosen row member := by
    split_ifs at chosen
    rw [← Option.some.inj chosen] at member
    rw [(List.mem_replicate.mp member).2]
    exact beq_self_eq_true call.key

theorem job_effect (call : LogCall) (rows : List Timestamp) :
    (call.job A hashtext).effect rows = call.leaves A rows := by
  unfold Job.effect LogCall.leaves
  refine congrArg (List.append _) ?_
  change (if call.allowed A (call.counted rows) then some _ else none).getD [] = _
  split_ifs
  · rfl
  · rfl

theorem replay_jobs (calls : Nat → LogCall) (rows : List Timestamp)
    (committed : List (Nat × Bool)) :
    replay (fun tx => (calls tx).job A hashtext) rows committed =
      logAfter A calls rows committed := by
  unfold replay logAfter
  simp only [job_effect]

theorem apart_jobs (calls : Nat → LogCall) : Apart fun tx => (calls tx).job A hashtext := by
  intro tx other different row mine
  have key : row.key = (calls tx).key := of_decide_eq_true mine
  refine Bool.eq_false_iff.mpr fun theirs => different ?_
  have other : row.key = (calls other).key := of_decide_eq_true theirs
  change hashtext (calls tx).key = hashtext _
  rw [← key, other]

end Job

section Accepts

/-- What a result reports: nothing if it is an error. -/
def reported : Except String (Int × Bool) → Report
  | .ok answer => some answer
  | .error _ => none

variable (A : Arith) (hashtext : String → Int) (call : LogCall) (tx : Nat)

abbrev LogCall.watch := ReadCommitted.watch (call.job A hashtext) reported tx

theorem leaveLog_accepts (result : Except String (Int × Bool)) :
    (call.watch A hashtext tx).Accepts (.leaving (reported result))
      (leaveLog tx result) :=
  ⟨.leave, fun _ _ => rfl⟩

theorem insertRows_accepts {count : Int} {after : LogTransaction}
    (continues : (call.watch A hashtext tx).Accepts (.adding count []) after)
    (n : Nat) :
    (call.watch A hashtext tx).Accepts
      (.adding count (List.replicate n call.row)) (insertRows tx call.row after n) := by
  induction n with
  | zero => exact continues
  | succ n ih =>
      refine ⟨.insert, fun result _ => ?_⟩
      cases result with
      | error err => exact leaveLog_accepts A hashtext call tx (.error _)
      | ok _ => exact ih

theorem addRows_accepts (count : Int) :
    (call.watch A hashtext tx).Accepts
      ((call.watch A hashtext tx).advance .trimmed
        (.count tx (recent call.key call.cutoff)) (.ok count))
      (addRows A tx call.limit call.cost call.row count) := by
  unfold addRows
  by_cases fits : A.wrap (count + call.cost) ≤ call.limit
  · have rule : (call.job A hashtext).rule count =
        some (List.replicate call.cost.toNat call.row) := if_pos (decide_eq_true fits)
    simp only [LogCall.watch, ReadCommitted.watch, rule]
    rw [if_neg (not_lt.mpr fits)]
    refine insertRows_accepts A hashtext call tx ?_ _
    refine ⟨.commit, fun result _ => ?_⟩
    cases result with
    | error err => exact leaveLog_accepts A hashtext call tx (.error err)
    | ok _ => exact leaveLog_accepts A hashtext call tx (.ok (count, true))
  · have rule : (call.job A hashtext).rule count = none :=
      if_neg fun allowed => fits (of_decide_eq_true allowed)
    simp only [LogCall.watch, ReadCommitted.watch, rule]
    rw [if_pos (not_le.mp fits)]
    exact ⟨.refuse, fun _ _ => leaveLog_accepts A hashtext call tx (.ok (count, false))⟩

theorem countAndAdd_accepts {stage : Stage Timestamp} (next : stage = .trimmed ∨ stage = .aborted) :
    (call.watch A hashtext tx).Accepts stage
      (countAndAdd A tx call.cutoff call.limit call.cost call.row) := by
  rcases next with rfl | rfl
  · refine ⟨.count, fun result _ => ?_⟩
    cases result with
    | error err => exact leaveLog_accepts A hashtext call tx (.error _)
    | ok count => exact addRows_accepts A hashtext call tx count
  · -- Nothing can be counted in a transaction that is aborted.
    refine ⟨.countAborted, fun result expected => ?_⟩
    cases result with
    | error err => exact leaveLog_accepts A hashtext call tx (.error _)
    | ok count => exact expected.elim

theorem transaction_accepts :
    (call.watch A hashtext tx).Accepts .idle (call.transaction A hashtext tx) := by
  refine ⟨.begin, fun result _ => ?_⟩
  cases result with
  | error err => exact rfl
  | ok _ =>
      refine ⟨.lock, fun locked _ => ?_⟩
      cases locked with
      | error err =>
          refine ⟨.deleteAborted, fun deleted _ => countAndAdd_accepts A hashtext call tx (.inr ?_)⟩
          cases deleted <;> rfl
      | ok _ =>
          refine ⟨.delete, fun deleted _ => ?_⟩
          cases deleted with
          | error err => exact countAndAdd_accepts A hashtext call tx (.inr rfl)
          | ok _ => exact countAndAdd_accepts A hashtext call tx (.inl rfl)

end Accepts

/-- One transaction for each call. -/
def transactions (A : Arith) (hashtext : String → Int) (count : Nat) (calls : Nat → LogCall) :
    List LogTransaction :=
  (List.range count).map fun tx => (calls tx).transaction A hashtext tx

/-- The result is what the call answers at the place of its commit, and an error means that
the call has left nothing. -/
def InPlace (A : Arith) (calls : Nat → LogCall) (rows : List Timestamp)
    (committed : List (Nat × Bool)) (tx : Nat) : Except String (Int × Bool) → Prop
  | .error _ => (tx, true) ∉ committed
  | .ok (count, allowed) => ∃ before kept after, committed = before ++ (tx, kept) :: after ∧
      (count, allowed) = (calls tx).answer A (logAfter A calls rows before) ∧
      (allowed = true → kept = true)

section Serializable

variable {A : Arith} {hashtext : String → Int} {calls : Nat → LogCall} {count : Nat}
  {table : Snapshot.Table Timestamp} {schedule first second : List (Nat × Option String)}

theorem inPlace_of_placed {rows : List Timestamp} {committed : List (Nat × Bool)} {tx : Nat}
    {result : Except String (Int × Bool)}
    (placed : Placed (fun tx => (calls tx).job A hashtext) rows committed tx (reported result)) :
    InPlace A calls rows committed tx result := by
  cases result with
  | error err => exact fun member => Bool.noConfusion (placed true member)
  | ok answer =>
      obtain ⟨before, kept, after, split, counted, chosen, success⟩ := placed
      refine ⟨before, kept, after, split, ?_, success⟩
      rw [replay_jobs] at counted
      refine Prod.ext counted ?_
      rw [chosen, counted]
      change (if (calls tx).allowed A _ then some _ else none).isSome = (calls tx).allowed A _
      split_ifs with allowed
      · exact allowed.symm
      · exact (Bool.eq_false_iff.mpr allowed).symm

theorem transactions_accepted (tx : Nat) (program : LogTransaction)
    (found : (transactions A hashtext count calls)[tx]? = some program) :
    (watch ((calls tx).job A hashtext) reported tx).Accepts .idle program := by
  rw [transactions, List.getElem?_map] at found
  obtain ⟨index, ranged, rfl⟩ := Option.map_eq_some_iff.mp found
  obtain ⟨inside, rfl⟩ := List.getElem?_eq_some_iff.mp ranged
  rw [List.getElem_range]
  exact transaction_accepts A hashtext (calls tx) tx

theorem transactions_serial (legal : Legal (transactions A hashtext count calls) table schedule) :
    let pool := outcome (transactions A hashtext count calls) table schedule
    ((commits pool.history).map Prod.fst).Nodup ∧
      entries pool.state.table = logAfter A calls (entries table) (commits pool.history) ∧
      ∀ tx result, pool.results[tx]? = some (some result) →
        InPlace A calls (entries table) (commits pool.history) tx result := by
  obtain ⟨once, rows, placed⟩ := outcome_serial (apart_jobs A hashtext calls)
    transactions_accepted legal
  refine ⟨once, ?_, fun tx result found => ?_⟩
  · rw [rows, replay_jobs]
  · exact inPlace_of_placed (placed tx result (Pool.results_eq_some.mp found))

/-- At every moment of every interleaving the rows are those left by the calls whose commits
have succeeded, executed one after the other in the order of their commits, and whoever has
returned has the answer of its place in this order, given that a commit which reports an
error has not happened. What commits later comes after all who have returned, so that the
order is that of real time. -/
theorem checkAndAddTimestamps_linearizable (A : Arith) (hashtext : String → Int) (count : Nat)
    (calls : Nat → LogCall) (table : Snapshot.Table Timestamp)
    (first second : List (Nat × Option String))
    (legal : Legal (transactions A hashtext count calls) table (first ++ second)) :
    let now := outcome (transactions A hashtext count calls) table first
    let later := outcome (transactions A hashtext count calls) table (first ++ second)
    entries now.state.table = logAfter A calls (entries table) (commits now.history) ∧
      (∀ tx result, now.results[tx]? = some (some result) →
        InPlace A calls (entries table) (commits now.history) tx result) ∧
      ∃ more, commits later.history = commits now.history ++ more ∧
        ((commits later.history).map Prod.fst).Nodup ∧
        ∀ tx result, now.results[tx]? = some (some result) → tx ∉ more.map Prod.fst := by
  intro now later
  obtain ⟨_, rows, placed⟩ := transactions_serial legal.of_append.1
  obtain ⟨once, _, _⟩ := transactions_serial legal
  obtain ⟨more, grown, active⟩ := Pool.run_history Database.perform second now
  have history : later.history = now.history ++ more := by
    rw [← grown]
    exact congrArg Pool.history (Pool.run_append _ first second _)
  refine ⟨rows, placed, commits more, ?_, once, fun tx result ended member => ?_⟩
  · rw [history, commits, List.filterMap_append]
    rfl
  · obtain ⟨⟨other, kept⟩, picked, rfl⟩ := List.mem_map.mp member
    obtain ⟨entry, taken, tried⟩ := List.mem_filterMap.mp picked
    have same : entry.thread = other := thread_of_tried tried
    exact active entry taken result (same ▸ Pool.results_eq_some.mp ended)

/-- Two calls on one key, of which one is let in. -/
private def rival (tx : Nat) : LogCall := ⟨"k", 5 + tx, 1, 1, 10 + tx, none⟩

private def noRows : Snapshot.Table Timestamp := ⟨[], 0, nofun⟩

/-- The second call begins before the first one commits, and has to wait for its lock. -/
private def alternating : List (Nat × Option String) :=
  [(0, none), (0, none), (1, none), (0, none), (0, none), (0, none), (0, none), (1, none),
    (0, none), (1, none), (1, none), (1, none), (1, none)]

theorem checkAndAddTimestamps_linearizable_rivals :
    Legal (transactions .machine (fun _ => 0) 2 rival) noRows (alternating ++ []) ∧
      (outcome (transactions .machine (fun _ => 0) 2 rival) noRows alternating).results =
        [some (.ok (0, true)), some (.ok (1, false))] ∧
      entries (outcome (transactions .machine (fun _ => 0) 2 rival) noRows alternating).state.table =
        logAfter .machine rival [] (commits
          (outcome (transactions .machine (fun _ => 0) 2 rival) noRows alternating).history) := by
  have legal : Legal (transactions .machine (fun _ => 0) 2 rival) noRows (alternating ++ []) := by
    decide
  exact ⟨legal, by decide, (checkAndAddTimestamps_linearizable .machine (fun _ => 0) 2 rival noRows
    alternating [] legal).1⟩

/-- The calls never block one another for good: whatever has happened, and whatever has failed,
all of them can return without a further failure. -/
theorem checkAndAddTimestamps_completes (A : Arith) (hashtext : String → Int) (count : Nat)
    (calls : Nat → LogCall) (table : Snapshot.Table Timestamp)
    (schedule : List (Nat × Option String))
    (legal : Legal (transactions A hashtext count calls) table schedule) :
    ∃ more, (outcome (transactions A hashtext count calls) table schedule).Along Database.perform
        (fun db => Succeeds db) more ∧
      (outcome (transactions A hashtext count calls) table (schedule ++ more)).finished = true :=
  exists_finishing (apart_jobs A hashtext calls) transactions_accepted legal

theorem checkAndAddTimestamps_completes_rivals :
    Legal (transactions .machine (fun _ => 0) 2 rival) noRows (alternating.take 5) ∧
      ∃ more, (outcome (transactions .machine (fun _ => 0) 2 rival) noRows
          (alternating.take 5)).Along Database.perform (fun db => Succeeds db) more ∧
        (outcome (transactions .machine (fun _ => 0) 2 rival) noRows
          (alternating.take 5 ++ more)).finished = true := by
  have legal : Legal (transactions .machine (fun _ => 0) 2 rival) noRows (alternating.take 5) := by
    decide
  exact ⟨legal, checkAndAddTimestamps_completes .machine (fun _ => 0) 2 rival noRows _ legal⟩

end Serializable

section Window

/-- The cost of a call that is on the key and at a time that passes the test. -/
def weight (calls : Nat → LogCall) (key : String) (test : Int → Bool) (tx : Nat) : Nat :=
  if (calls tx).key = key ∧ test (calls tx).ts then (calls tx).cost.toNat else 0

def spent (calls : Nat → LogCall) (key : String) (test : Int → Bool) (txs : List Nat) : Nat :=
  (txs.map (weight calls key test)).sum

def within (low high : Int) (ts : Int) : Bool := low ≤ ts && ts ≤ high

/-- The calls that are allowed when the successful commits are executed in their order. -/
def admissions (calls : Nat → LogCall) : List Timestamp → List (Nat × Bool) → List Nat
  | _, [] => []
  | rows, (_, false) :: rest => admissions calls rows rest
  | rows, (tx, true) :: rest =>
      (if (calls tx).allowed .exact ((calls tx).counted rows) then [tx] else []) ++
        admissions calls ((calls tx).leaves .exact rows) rest

variable {calls : Nat → LogCall} {key : String} {test other : Int → Bool} {window : Int}
  {limit : Nat} {rows : List Timestamp} {committed : List (Nat × Bool)} {tx : Nat}
  {past admitted : List Nat}

theorem spent_append (first second : List Nat) :
    spent calls key test (first ++ second) =
      spent calls key test first + spent calls key test second := by
  rw [spent, List.map_append, List.sum_append]
  rfl

theorem spent_singleton (tx : Nat) : spent calls key test [tx] = weight calls key test tx :=
  List.sum_singleton

theorem spent_le_of_imp (weaker : ∀ ts, test ts = true → other ts = true) (txs : List Nat) :
    spent calls key test txs ≤ spent calls key other txs := by
  refine List.sum_le_sum fun tx _ => ?_
  unfold weight
  split_ifs with seen hidden
  · exact le_rfl
  · exact absurd ⟨seen.1, weaker _ seen.2⟩ hidden
  · exact Nat.zero_le _
  · exact le_rfl

theorem admissions_sublist (calls : Nat → LogCall) (rows : List Timestamp)
    (committed : List (Nat × Bool)) :
    (admissions calls rows committed).Sublist (committed.map Prod.fst) := by
  induction committed generalizing rows with
  | nil => exact List.nil_sublist _
  | cons commit rest ih =>
      obtain ⟨tx, kept⟩ := commit
      cases kept with
      | false => exact (ih rows).cons tx
      | true =>
          rw [admissions]
          split_ifs
          · exact (ih _).cons_cons tx
          · exact (ih _).cons tx

theorem mem_admissions {before after : List (Nat × Bool)}
    (allowed : (calls tx).allowed .exact
      ((calls tx).counted (logAfter .exact calls rows before)) = true) :
    tx ∈ admissions calls rows (before ++ (tx, true) :: after) := by
  induction before generalizing rows with
  | nil =>
      have now : (calls tx).allowed .exact ((calls tx).counted rows) = true := allowed
      rw [List.nil_append, admissions, if_pos now]
      exact List.mem_append_left _ (List.mem_singleton_self tx)
  | cons commit rest ih =>
      obtain ⟨earlier, kept⟩ := commit
      cases kept with
      | false => exact ih allowed
      | true => exact List.mem_append_right _ (ih allowed)

theorem countP_leaves (call : LogCall) {low : Int}
    (kept : ∀ row, recent key low row = true → stale call.key call.cutoff row = false) :
    (call.leaves .exact rows).countP (recent key low) = rows.countP (recent key low) +
      if call.allowed .exact (call.counted rows) ∧ recent key low call.row then call.cost.toNat
      else 0 := by
  have old : (rows.filter fun row => !stale call.key call.cutoff row).countP (recent key low) =
      rows.countP (recent key low) := by
    rw [List.countP_filter]
    refine List.countP_congr fun row _ => ?_
    rw [Bool.and_eq_true_iff, Bool.not_eq_true', and_iff_left_iff_imp]
    exact kept row
  rw [LogCall.leaves, List.countP_append, old]
  by_cases allowed : call.allowed .exact (call.counted rows) = true
  · simp only [allowed, true_and, if_true, List.countP_replicate]
  · rw [if_neg allowed, if_neg fun both => allowed both.1, List.countP_nil]

/-- What the log still shows of the calls so far: those not older than the last cutoff. -/
structure LogShows (calls : Nat → LogCall) (key : String) (window : Int) (limit : Nat)
    (rows : List Timestamp) (past admitted : List Nat) : Prop where
  covered : ∀ low, (∀ tx ∈ past, (calls tx).key = key → (calls tx).ts - window ≤ low) →
    spent calls key (fun ts => low ≤ ts) admitted ≤ rows.countP (recent key low)
  bounded : ∀ low, spent calls key (within low (low + window)) admitted ≤ limit

/-- A window ends with its last call, which has counted all the others in it. -/
theorem LogShows.allow (shows : LogShows calls key window limit rows past admitted)
    (here : (calls tx).key = key) (cutoff : (calls tx).cutoff = (calls tx).ts - window)
    (smaller : (calls tx).limit ≤ limit)
    (ordered : ∀ earlier ∈ past, (calls earlier).key = key → (calls earlier).ts ≤ (calls tx).ts)
    (allowed : (calls tx).allowed .exact ((calls tx).counted rows) = true) (low : Int) :
    spent calls key (within low (low + window)) admitted +
      weight calls key (within low (low + window)) tx ≤ limit := by
  unfold weight
  split_ifs with inside
  · obtain ⟨after, before⟩ := Bool.and_eq_true_iff.mp inside.2
    have after := of_decide_eq_true after
    have before := of_decide_eq_true before
    have seen := shows.covered low fun earlier member same => by
      have := ordered earlier member same
      omega
    have less : spent calls key (within low (low + window)) admitted ≤
        spent calls key (fun ts => low ≤ ts) admitted :=
      spent_le_of_imp (fun ts both => (Bool.and_eq_true_iff.mp both).1) admitted
    have more : rows.countP (recent key low) ≤ rows.countP (recent key (calls tx).cutoff) := by
      refine List.countP_mono_left fun row _ counted => ?_
      obtain ⟨same, late⟩ := Bool.and_eq_true_iff.mp counted
      have late := of_decide_eq_true late
      exact Bool.and_eq_true_iff.mpr ⟨same, decide_eq_true (by omega)⟩
    have room : (rows.countP (recent key (calls tx).cutoff) : Int) + (calls tx).cost ≤
        (calls tx).limit := by
      have fits := of_decide_eq_true allowed
      rw [exact_wrap, LogCall.counted, here] at fits
      exact fits
    by_cases positive : 0 < (calls tx).cost
    · omega
    · have nothing : (calls tx).cost.toNat = 0 := by omega
      rw [nothing]
      exact shows.bounded low
  · exact shows.bounded low

theorem LogShows.commit (shows : LogShows calls key window limit rows past admitted)
    (paced : (calls tx).key = key →
      (calls tx).cutoff = (calls tx).ts - window ∧ (calls tx).limit ≤ limit)
    (ordered : (calls tx).key = key → ∀ earlier ∈ past, (calls earlier).key = key →
      (calls earlier).ts ≤ (calls tx).ts) :
    LogShows calls key window limit ((calls tx).leaves .exact rows) (past ++ [tx])
      (admitted ++ if (calls tx).allowed .exact ((calls tx).counted rows) then [tx] else []) := by
  refine ⟨fun low late => ?_, fun low => ?_⟩
  · have before := shows.covered low fun earlier member same =>
      late earlier (List.mem_append_left _ member) same
    rw [countP_leaves, spent_append]
    · refine Nat.add_le_add before ?_
      by_cases allowed : (calls tx).allowed .exact ((calls tx).counted rows) = true
      · rw [if_pos allowed, spent_singleton, weight]
        split_ifs with seen missed
        · exact le_rfl
        · refine absurd ⟨allowed, Bool.and_eq_true_iff.mpr ⟨?_, seen.2⟩⟩ missed
          exact beq_iff_eq.mpr seen.1
        · exact Nat.zero_le _
        · exact le_rfl
      · rw [if_neg allowed]
        exact Nat.zero_le _
    · intro row counted
      obtain ⟨same, later⟩ := Bool.and_eq_true_iff.mp counted
      refine Bool.eq_false_iff.mpr fun old => ?_
      obtain ⟨theirs, earlier⟩ := Bool.and_eq_true_iff.mp old
      have here : (calls tx).key = key := (beq_iff_eq.mp theirs).symm.trans (beq_iff_eq.mp same)
      have last := late tx (List.mem_append_right _ (List.mem_singleton_self tx)) here
      have later := of_decide_eq_true later
      have earlier := of_decide_eq_true earlier
      rw [(paced here).1] at earlier
      omega
  · rw [spent_append]
    by_cases allowed : (calls tx).allowed .exact ((calls tx).counted rows) = true
    · rw [if_pos allowed, spent_singleton]
      by_cases here : (calls tx).key = key
      · exact shows.allow here (paced here).1 (paced here).2 (ordered here) allowed low
      · rw [weight, if_neg fun both => here both.1]
        exact shows.bounded low
    · rw [if_neg allowed]
      exact shows.bounded low

/-- The calls on the key commit in the order of their times. -/
def Ordered (calls : Nat → LogCall) (key : String) (committed : List (Nat × Bool)) : Prop :=
  committed.Pairwise fun earlier later => earlier.2 = true → later.2 = true →
    (calls earlier.1).key = key → (calls later.1).key = key →
      (calls earlier.1).ts ≤ (calls later.1).ts

instance : Decidable (Ordered calls key committed) := by
  unfold Ordered
  infer_instance

theorem LogShows.commits (shows : LogShows calls key window limit rows past admitted)
    (paced : ∀ tx, (calls tx).key = key →
      (calls tx).cutoff = (calls tx).ts - window ∧ (calls tx).limit ≤ limit)
    (ordered : Ordered calls key committed)
    (continues : ∀ earlier ∈ past, (calls earlier).key = key → ∀ later ∈ committed,
      later.2 = true → (calls later.1).key = key → (calls earlier).ts ≤ (calls later.1).ts)
    (low : Int) :
    spent calls key (within low (low + window)) (admitted ++ admissions calls rows committed) ≤
      limit := by
  induction committed generalizing rows past admitted with
  | nil =>
      rw [admissions, List.append_nil]
      exact shows.bounded low
  | cons commit rest ih =>
      obtain ⟨tx, kept⟩ := commit
      obtain ⟨first, remaining⟩ := List.pairwise_cons.mp ordered
      cases kept with
      | false =>
          exact ih shows remaining fun earlier member same later among =>
            continues earlier member same later (List.mem_cons_of_mem _ among)
      | true =>
          have after := shows.commit (paced tx) fun here earlier member same =>
            continues earlier member same (tx, true) List.mem_cons_self rfl here
          rw [admissions, ← List.append_assoc]
          refine ih after remaining fun earlier member same later among kept here => ?_
          rcases List.mem_append.mp member with before | last
          · exact continues earlier before same later (List.mem_cons_of_mem _ among) kept here
          · rw [List.mem_singleton.mp last] at same ⊢
            exact first later among rfl kept same here

end Window

section Admitted

abbrev LogPool :=
  Pool (Op Timestamp Int) Res (Except String (Int × Bool)) (Database Timestamp Int) (Option String)

/-- The call has been answered that it is allowed. -/
def grants (pool : LogPool) (tx : Nat) : Bool :=
  match pool.results[tx]? with
  | some (some (.ok (_, allowed))) => allowed
  | _ => false

theorem grants_iff {pool : LogPool} {tx : Nat} :
    grants pool tx = true ↔ ∃ counted, pool.results[tx]? = some (some (.ok (counted, true))) := by
  unfold grants
  split
  · next counted allowed found =>
      rw [found]
      simp
  · next other =>
      refine ⟨nofun, fun ⟨counted, found⟩ => absurd found (other counted true)⟩

/-- Whatever servers share the database: if the calls on a key commit in the order of their
times, the calls that were allowed in any window together cost no more than the limit. -/
theorem checkAndAddTimestamps_within_limit (hashtext : String → Int) (count : Nat)
    (calls : Nat → LogCall) (key : String) (window : Int) (limit : Nat)
    (paced : ∀ tx, (calls tx).key = key →
      (calls tx).cutoff = (calls tx).ts - window ∧ (calls tx).limit ≤ limit)
    (table : Snapshot.Table Timestamp) (schedule : List (Nat × Option String))
    (legal : Legal (transactions .exact hashtext count calls) table schedule)
    (ordered : Ordered calls key
      (commits (outcome (transactions .exact hashtext count calls) table schedule).history))
    (low : Int) :
    spent calls key (within low (low + window)) ((List.range count).filter
      (grants (outcome (transactions .exact hashtext count calls) table schedule))) ≤ limit := by
  obtain ⟨once, _, placed⟩ := transactions_serial legal
  generalize outcome (transactions .exact hashtext count calls) table schedule = pool at *
  have start : LogShows calls key window limit (entries table) [] [] :=
    ⟨fun _ _ => Nat.zero_le _, fun _ => Nat.zero_le _⟩
  have bound := start.commits paced ordered (fun _ member => nomatch member) low
  refine le_trans ?_ bound
  have nodup := (admissions_sublist calls (entries table) (commits pool.history)).nodup once
  rw [List.nil_append, spent, spent, ← List.sum_toFinset _ nodup,
    ← List.sum_toFinset _ (List.nodup_range.filter _)]
  refine Finset.sum_le_sum_of_subset fun tx member => ?_
  rw [List.mem_toFinset] at member ⊢
  obtain ⟨counted, found⟩ := grants_iff.mp (List.mem_filter.mp member).2
  obtain ⟨before, kept, after, split, answer, success⟩ := placed tx _ found
  rw [split, success rfl]
  exact mem_admissions (congrArg Prod.snd answer).symm

theorem checkAndAddTimestamps_within_limit_rivals :
    (List.range 2).filter (grants (outcome (transactions .exact (fun _ => 0) 2 rival) noRows
        alternating)) = [0] ∧
      spent rival "k" (within 9 (9 + 5)) ((List.range 2).filter
        (grants (outcome (transactions .exact (fun _ => 0) 2 rival) noRows alternating))) ≤ 1 := by
  refine ⟨by decide, checkAndAddTimestamps_within_limit (fun _ => 0) 2 rival "k" 5 1 ?_ noRows
    alternating (by decide) (by decide) 9⟩
  intro tx _
  refine ⟨?_, le_rfl⟩
  simp only [rival]
  omega

end Admitted

end Rlaas.Store.Postgres
