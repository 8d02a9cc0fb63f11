import Rlaas.Algorithm.Runs
import Rlaas.Lib.Steps

/-! The sliding log over whole runs of calls, with sweeps at any moment: which calls it
admits, read off the admissions so far. A sweep that comes between the evaluator's reading
and the operation on the store can drop a log that the reading still counts on. -/

set_option autoImplicit false

namespace Rlaas.Algorithm

open Go Model Store Effect

namespace SlidingLog

variable {cell : Cell}

def logKey (key : String) : String := key ++ ":swl"

/-- When a call runs: the sweeps since the call before, those between the evaluator's reading
of the clock and the operation on the store, and the readings of its operations. -/
structure Timing where
  before : List Int := []
  between : List Int := []
  clock : Nat → Time

namespace Timing

/-- The reading of the evaluator. -/
def read (timing : Timing) : Int := (timing.clock 0).nanos

/-- The reading of the store. -/
def stored (timing : Timing) : Int := (timing.clock 1).nanos

/-- The sweeps that come before an operation, and its reading. -/
def turn (timing : Timing) : Nat → List Int × Time
  | 0 => (timing.before, timing.clock 0)
  | 1 => (timing.between, timing.clock 1)
  | n + 2 => ([], timing.clock (n + 2))

def instants (timing : Timing) : List Int :=
  timing.before ++ timing.read :: timing.between ++ [timing.stored]

end Timing

def InOrder (timings : List Timing) : Prop := (timings.flatMap Timing.instants).Pairwise (· ≤ ·)

instance (timings : List Timing) : Decidable (InOrder timings) :=
  inferInstanceAs (Decidable (List.Pairwise _ _))

structure LogCall where
  req : RequestContext
  timing : Timing

/-- An operation after some sweeps. -/
def sweptEnv (turn : List Int × Time) (op : EnvOp) (store : MemoryStore) :
    EnvRes op × MemoryStore :=
  MemoryStore.env .exact turn.2 op (turn.1.foldl (fun store now => store.sweep now) store)

structure LogRun where
  store : MemoryStore
  admitted : List Admission := []

def execute (policy : Policy) (key : String) (store : MemoryStore) (next : LogCall) :
    Answer × MemoryStore :=
  (evaluate .exact true policy next.req key).exec sweptEnv next.timing.turn store

def admits (policy : Policy) (key : String) (store : MemoryStore) (next : LogCall) : Bool :=
  answered "within_sliding_log" (execute policy key store next).1

def step (policy : Policy) (key : String) (run : LogRun) (next : LogCall) : LogRun where
  store := (execute policy key run.store next).2
  admitted :=
    if admits policy key run.store next then
      run.admitted ++ [⟨next.timing.read, cost next.req policy.algorithm⟩]
    else run.admitted

def runs (policy : Policy) (key : String) (store : MemoryStore) (calls : List LogCall) : LogRun :=
  calls.foldl (step policy key) { store }

def costWithin (low high : Int) (admitted : List Admission) : Int :=
  (admitted.map fun admission =>
    if low ≤ admission.time ∧ admission.time ≤ high then admission.cost else 0).sum

/-- The cost admitted in the window that ends at an instant. -/
def spent (policy : Policy) (instant : Int) (admitted : List Admission) : Int :=
  costWithin (instant - windowDuration policy.algorithm) instant admitted

/-- Each call is admitted just if the cost admitted so far in its window leaves room for it,
and no window holds more than the limit. -/
def Exact (policy : Policy) (key : String) (store : MemoryStore) (calls : List LogCall) : Prop :=
  (∀ past next rest, calls = past ++ next :: rest →
    (admits policy key (runs policy key store past).store next = true ↔
      spent policy next.timing.read (runs policy key store past).admitted +
        cost next.req policy.algorithm ≤ effectiveLimit policy.algorithm)) ∧
  ∀ instant, spent policy instant (runs policy key store calls).admitted ≤
    effectiveLimit policy.algorithm

/-- No sweep between the reading of a call and its operation on the store comes more than a
window after an earlier call has stored, unless the reading does. -/
def Spared (window : Duration) (timings : List Timing) : Prop :=
  timings.Pairwise fun earlier later => ∀ sweep ∈ later.between,
    earlier.stored + window < sweep → earlier.read + window < later.read

instance (window : Duration) (timings : List Timing) : Decidable (Spared window timings) :=
  inferInstanceAs (Decidable (List.Pairwise _ _))

/-! ## What a call does -/

/-- What the sweeps of a call leave of a cell. -/
def Timing.sweeps (timing : Timing) (cell : Cell) : Cell :=
  (timing.before ++ timing.between).foldl (fun cell now => cell.sweep now) cell

theorem exec_unswept {α : Type} (program : Evaluation α) (clock : Nat → Time)
    (store : MemoryStore) :
    program.exec sweptEnv (fun n => ([], clock n)) store =
      program.exec (MemoryStore.env .exact) clock store := by
  induction program generalizing clock store with
  | done result => rfl
  | call op next ih => exact ih _ _ _

/-- The evaluator's reading does not touch the store, so that all sweeps of a call may as well
come before it. -/
theorem execute_eq (policy : Policy) (key : String) (store : MemoryStore) (next : LogCall) :
    execute policy key store next =
      (evaluate .exact true policy next.req key).exec (MemoryStore.env .exact) next.timing.clock
        ((next.timing.before ++ next.timing.between).foldl (fun store now => store.sweep now)
          store) := by
  rw [List.foldl_append]
  exact exec_unswept _ (fun n => next.timing.clock (n + 2)) _

theorem sweeps_cells (sweeps : List Int) (store : MemoryStore) (key : String) :
    (sweeps.foldl (fun store now => store.sweep now) store).cells key =
      sweeps.foldl (fun cell now => cell.sweep now) (store.cells key) :=
  (List.foldl_hom (fun store : MemoryStore => store.cells key) fun _ _ => rfl).symm

section Step

variable {policy : Policy} {key : String} {run : LogRun} {next : LogCall} {cell : Cell}

/-- The timestamps a call counts. -/
def recent (policy : Policy) (next : LogCall) (cell : Cell) : List Int :=
  kept (next.timing.read - windowDuration policy.algorithm) (next.timing.sweeps cell).timestamps

/-- A call is refused and trims the log, or it is admitted and adds to it. -/
theorem step_cases (lasting : 0 < windowDuration policy.algorithm)
    (found : run.store.cells (logKey key) = cell) :
    (effectiveLimit policy.algorithm <
          (recent policy next cell).length + cost next.req policy.algorithm ∧
        admits policy key run.store next = false ∧
        (step policy key run next).admitted = run.admitted ∧
        (step policy key run next).store.cells (logKey key) =
          { next.timing.sweeps cell with timestamps := recent policy next cell }) ∨
      ((recent policy next cell).length + cost next.req policy.algorithm ≤
          effectiveLimit policy.algorithm ∧
        admits policy key run.store next = true ∧
        (step policy key run next).admitted =
          run.admitted ++ [⟨next.timing.read, cost next.req policy.algorithm⟩] ∧
        (step policy key run next).store.cells (logKey key) =
          { next.timing.sweeps cell with
            timestamps := (recent policy next cell ++ List.replicate
              (cost next.req policy.algorithm).toNat next.timing.read).insertionSort (· ≤ ·)
            tsExpiry := next.timing.stored + windowDuration policy.algorithm }) := by
  have viewed := MemoryStore.exec_cells .exact (evaluate .exact true policy next.req key)
    next.timing.clock ((next.timing.before ++ next.timing.between).foldl
      (fun store now => store.sweep now) run.store)
  rw [← execute_eq] at viewed
  have counted := Cells.checkAndAddTimestamps_eq .exact next.timing.stored
    (next.timing.read - windowDuration policy.algorithm) (effectiveLimit policy.algorithm)
    (cost next.req policy.algorithm) next.timing.read (windowDuration policy.algorithm) (logKey key)
    ((next.timing.before ++ next.timing.between).foldl (fun store now => store.sweep now)
      run.store).cells
  rw [exact_wrap, sweeps_cells, found] at counted
  by_cases above : effectiveLimit policy.algorithm <
      (recent policy next cell).length + cost next.req policy.algorithm
  · obtain ⟨result, after⟩ := Prod.mk.inj (viewed.symm.trans (exec_attempt_ok (Cells.env .exact) _
      (fun n => next.timing.clock (n + 1)) (counted.trans (if_pos above))))
    have refused : admits policy key run.store next = false := by
      rw [admits, result]
      simp [exceeded, refuse, Program.exec_call, answered, overLimitDecision_reason]
    refine .inl ⟨above, refused, if_neg (Bool.eq_false_iff.mp refused), ?_⟩
    exact (congrFun after (logKey key)).trans (Function.update_self ..)
  · obtain ⟨result, after⟩ := Prod.mk.inj (viewed.symm.trans (exec_attempt_ok (Cells.env .exact) _
      (fun n => next.timing.clock (n + 1)) (counted.trans (if_neg above))))
    have taken : admits policy key run.store next = true := by
      rw [admits, result]
      rfl
    refine .inr ⟨not_lt.mp above, taken, if_pos taken, ?_⟩
    refine (congrFun after (logKey key)).trans ((Function.update_self ..).trans ?_)
    rw [if_pos lasting]
    rfl

end Step

/-! ## Runs that no sweep disturbs -/

/-- The log and the admissions agree on everything the next cutoffs leave, and the log is as
old as the call that has written it last. -/
structure LogKept (limit : Int) (window : Duration) (cell : Cell) (admitted : List Admission)
    (done : List Timing) (clock : Int) : Prop where
  costs : ∀ admission ∈ admitted, 0 < admission.cost
  past : ∀ admission ∈ admitted, admission.time ≤ clock
  entries : cell.timestamps = [] ∨ ∃ latest ∈ done, cell.tsExpiry = latest.stored + window ∧
    ∀ t ∈ cell.timestamps, t ≤ latest.read
  log : ∀ cutoff, clock - window ≤ cutoff →
    ((kept cutoff cell.timestamps).length : Int) = costWithin cutoff clock admitted
  bounded : ∀ instant, costWithin (instant - window) instant admitted ≤ limit

theorem costWithin_snoc (low high : Int) (admitted : List Admission) (last : Admission) :
    costWithin low high (admitted ++ [last]) = costWithin low high admitted +
      if low ≤ last.time ∧ last.time ≤ high then last.cost else 0 := by
  simp [costWithin]

theorem costWithin_mono {low high low' high' : Int} {admitted : List Admission}
    (costs : ∀ admission ∈ admitted, 0 < admission.cost)
    (covers : ∀ admission ∈ admitted, low ≤ admission.time → admission.time ≤ high →
      low' ≤ admission.time ∧ admission.time ≤ high') :
    costWithin low high admitted ≤ costWithin low' high' admitted := by
  refine List.sum_le_sum fun admission member => ?_
  have positive := costs admission member
  by_cases inside : low ≤ admission.time ∧ admission.time ≤ high
  · rw [if_pos inside, if_pos (covers admission member inside.1 inside.2)]
  · rw [if_neg inside]
    split <;> omega

theorem kept_replicate_length {cutoff now cost : Int} (positive : 0 < cost) :
    ((kept cutoff (List.replicate cost.toNat now)).length : Int) =
      if cutoff ≤ now then cost else 0 := by
  have units : (cost.toNat : Int) = cost := Int.toNat_of_nonneg (le_of_lt positive)
  by_cases early : cutoff ≤ now
  · simp [kept, early, units]
  · simp [kept, early]

namespace LogKept

variable {limit : Int} {window : Duration} {cell : Cell} {admitted : List Admission}
  {done : List Timing} {clock now : Int}

theorem later (tracks : LogKept limit window cell admitted done clock) (passed : clock ≤ now) :
    LogKept limit window cell admitted done now where
  costs := tracks.costs
  past admission member := (tracks.past admission member).trans passed
  entries := tracks.entries
  log cutoff recent := by
    rw [tracks.log cutoff (by omega)]
    refine congrArg List.sum (List.map_congr_left fun admission member => ?_)
    have before := tracks.past admission member
    simp [before, before.trans passed]
  bounded := tracks.bounded

/-- A log that a sweep drops was written more than a window before it. -/
theorem swept (tracks : LogKept limit window cell admitted done clock)
    (harmless : ∀ earlier ∈ done, earlier.stored + window < now → earlier.read + window < clock) :
    LogKept limit window (cell.sweep now) admitted done clock := by
  by_cases gone : cell.tsExpiry ≠ zeroNanos ∧ cell.tsExpiry < now
  · have emptied : (cell.sweep now).timestamps = [] := if_pos gone
    refine ⟨tracks.costs, tracks.past, .inl emptied, fun cutoff recent => ?_, tracks.bounded⟩
    have none : kept cutoff cell.timestamps = [] := by
      refine List.filter_eq_nil_iff.mpr fun t member => ?_
      rcases tracks.entries with empty | ⟨latest, listed, expiry, early⟩
      · rw [empty] at member
        cases member
      · have old := harmless latest listed (expiry ▸ gone.2)
        have below : t < cutoff := by linarith [early t member]
        simp [below]
    rw [← tracks.log cutoff recent, emptied, none]
    rfl
  · have left : (cell.sweep now).timestamps = cell.timestamps ∧
        (cell.sweep now).tsExpiry = cell.tsExpiry := ⟨if_neg gone, if_neg gone⟩
    exact ⟨tracks.costs, tracks.past, by rw [left.1, left.2]; exact tracks.entries,
      by rw [left.1]; exact tracks.log, tracks.bounded⟩

theorem trimmed (tracks : LogKept limit window cell admitted done now) (next : Timing) :
    LogKept limit window { cell with timestamps := kept (now - window) cell.timestamps } admitted
      (done ++ [next]) now where
  costs := tracks.costs
  past := tracks.past
  entries := by
    rcases tracks.entries with empty | ⟨latest, listed, expiry, early⟩
    · exact .inl (by rw [empty]; rfl)
    · exact .inr ⟨latest, List.mem_append_left _ listed, expiry,
        fun t member => early t (List.mem_of_mem_filter member)⟩
  log cutoff recent := by
    simp only [kept_kept recent]
    exact tracks.log cutoff recent
  bounded := tracks.bounded

/-- Of the windows that hold the new admission, the one that ends with it holds the most. -/
theorem bounded_snoc (tracks : LogKept limit window cell admitted done now) {cost : Int}
    (fits : costWithin (now - window) now admitted + cost ≤ limit) (instant : Int) :
    costWithin (instant - window) instant (admitted ++ [⟨now, cost⟩]) ≤ limit := by
  rw [costWithin_snoc]
  simp only
  split
  · next inside =>
      have earlier : costWithin (instant - window) instant admitted ≤
          costWithin (now - window) now admitted := by
        refine costWithin_mono tracks.costs fun admission member low _ =>
          ⟨?_, tracks.past admission member⟩
        omega
      omega
  · rw [Int.add_zero]
    exact tracks.bounded instant

theorem admits (tracks : LogKept limit window cell admitted done now) {cost : Int} {next : Timing}
    (positive : 0 < cost) (reading : next.read = now) (ordered : ∀ earlier ∈ done, earlier.read ≤ now)
    (fits : ((kept (now - window) cell.timestamps).length : Int) + cost ≤ limit) :
    LogKept limit window
      { cell with
        timestamps := (kept (now - window) cell.timestamps ++
          List.replicate cost.toNat now).insertionSort (· ≤ ·)
        tsExpiry := next.stored + window }
      (admitted ++ [⟨now, cost⟩]) (done ++ [next]) now where
  costs := List.forall_mem_append.mpr ⟨tracks.costs, by simpa using positive⟩
  past := List.forall_mem_append.mpr ⟨tracks.past, by simp⟩
  entries := by
    refine .inr ⟨next, by simp, rfl, fun t member => reading ▸ ?_⟩
    rcases List.mem_append.mp ((List.mem_insertionSort _).mp member) with older | latest
    · have held := List.mem_of_mem_filter older
      rcases tracks.entries with empty | ⟨latest, listed, _, early⟩
      · rw [empty] at held
        cases held
      · exact (early t held).trans (ordered latest listed)
    · exact le_of_eq (List.eq_of_mem_replicate latest)
  log cutoff recent := by
    have sorted := ((List.perm_insertionSort (· ≤ ·) (kept (now - window) cell.timestamps ++
      List.replicate cost.toNat now)).filter fun t => !decide (t < cutoff)).length_eq
    rw [kept, sorted, List.filter_append, List.length_append, Nat.cast_add]
    change ((kept cutoff (kept _ _)).length : Int) + ((kept cutoff _).length : Int) = _
    rw [kept_kept recent, tracks.log cutoff recent, kept_replicate_length positive, costWithin_snoc]
    simp
  bounded := by
    rw [tracks.log _ (le_refl _)] at fits
    exact tracks.bounded_snoc fits

end LogKept

theorem InOrder.snoc {past : List Timing} {next : Timing} (ordered : InOrder (past ++ [next])) :
    InOrder past ∧ (∀ earlier ∈ past, earlier.read ≤ earlier.stored ∧ earlier.read ≤ next.read) ∧
      ∀ sweep ∈ next.before, sweep ≤ next.read := by
  obtain ⟨own, across⟩ := List.pairwise_flatMap.mp ordered
  obtain ⟨_, _, pairs⟩ := List.pairwise_append.mp across
  refine ⟨ordered.sublist (by simp), fun earlier member => ⟨?_, ?_⟩, ?_⟩
  · have inside := own earlier (by simp [member])
    simp only [Timing.instants, List.append_assoc, List.cons_append] at inside
    exact List.rel_of_pairwise_cons (List.pairwise_append.mp inside).2.1 (by simp)
  · exact pairs earlier member next (by simp) earlier.read (by simp [Timing.instants]) next.read
      (by simp [Timing.instants])
  · have inside := own next (by simp)
    simp only [Timing.instants, List.append_assoc, List.cons_append] at inside
    exact fun sweep member => (List.pairwise_append.mp inside).2.2 sweep member _ (by simp)

/-- The sweeps of a call leave what it counts. -/
theorem LogKept.sweeps {limit : Int} {window : Duration} {admitted : List Admission}
    {done : List Timing} {next : Timing} (ordered : InOrder (done ++ [next]))
    (spared : Spared window (done ++ [next]))
    (tracks : LogKept limit window cell admitted done next.read) :
    LogKept limit window (next.sweeps cell) admitted done next.read := by
  obtain ⟨_, readings, sweptBefore⟩ := ordered.snoc
  refine List.foldlRecOn (motive := fun cell => LogKept limit window cell admitted done next.read)
    _ _ tracks fun cell tracks sweep member => tracks.swept fun earlier listed expired => ?_
  rcases List.mem_append.mp member with before | between
  · linarith [sweptBefore sweep before, (readings earlier listed).1]
  · exact (List.pairwise_append.mp spared).2.2 earlier listed next List.mem_cons_self sweep between
      expired

section Runs

variable {policy : Policy} {key : String} {store : MemoryStore}

theorem runs_snoc (policy : Policy) (key : String) (store : MemoryStore) (past : List LogCall)
    (next : LogCall) :
    runs policy key store (past ++ [next]) = step policy key (runs policy key store past) next := by
  rw [runs, List.foldl_concat]
  rfl

theorem runs_kept (lasting : 0 < windowDuration policy.algorithm)
    (empty : (store.cells (logKey key)).timestamps = []) {calls : List LogCall} {clock : Int}
    (ordered : InOrder (calls.map LogCall.timing))
    (spared : Spared (windowDuration policy.algorithm) (calls.map LogCall.timing))
    (reached : ∀ earlier ∈ calls, earlier.timing.read ≤ clock) :
    LogKept (effectiveLimit policy.algorithm) (windowDuration policy.algorithm)
      ((runs policy key store calls).store.cells (logKey key)) (runs policy key store calls).admitted
      (calls.map LogCall.timing) clock := by
  induction calls using List.reverseRecOn generalizing clock with
  | nil =>
      exact ⟨nofun, nofun, .inl empty, fun cutoff _ => by simp [runs, empty, kept, costWithin],
        fun _ => (effectiveLimit_pos policy.algorithm).le⟩
  | append_singleton past next ih =>
      rw [List.map_append, List.map_singleton] at ordered spared ⊢
      obtain ⟨inOrder, readings, _⟩ := ordered.snoc
      have swept := (ih inOrder (List.pairwise_append.mp spared).1 fun earlier member =>
        (readings _ (List.mem_map_of_mem member)).2).sweeps ordered spared
      have passed := reached next (by simp)
      rw [runs_snoc]
      rcases step_cases lasting rfl with ⟨_, _, same, after⟩ | ⟨fits, _, grown, after⟩
      · rw [same, after]
        exact (swept.trimmed next.timing).later passed
      · rw [grown, after]
        exact (swept.admits (cost_pos _ _) rfl (fun earlier listed => (readings earlier listed).2)
          fits).later passed

theorem exact_of_spared (lasting : 0 < windowDuration policy.algorithm)
    (empty : (store.cells (logKey key)).timestamps = []) {calls : List LogCall}
    (ordered : InOrder (calls.map LogCall.timing))
    (spared : Spared (windowDuration policy.algorithm) (calls.map LogCall.timing)) :
    Exact policy key store calls := by
  constructor
  · rintro past next rest rfl
    rw [List.map_append, List.map_cons] at ordered spared
    have first : (past.map LogCall.timing ++ [next.timing]).Sublist
        (past.map LogCall.timing ++ next.timing :: rest.map LogCall.timing) := by simp
    have inOrder : InOrder (past.map LogCall.timing ++ [next.timing]) :=
      ordered.sublist (first.flatMap _)
    have sparedFirst := spared.sublist first
    obtain ⟨inOrderPast, readings, _⟩ := inOrder.snoc
    have counted := (((runs_kept lasting empty inOrderPast (List.pairwise_append.mp sparedFirst).1
      fun earlier member => (readings _ (List.mem_map_of_mem member)).2).sweeps inOrder
        sparedFirst).log _ le_rfl)
    rw [spent, ← counted]
    rcases step_cases lasting rfl with ⟨above, refused, _⟩ | ⟨fits, taken, _⟩
    · rw [refused]
      exact iff_of_false nofun (not_le.mpr above)
    · exact iff_of_true taken fits
  · intro instant
    rcases List.eq_nil_or_concat' calls with rfl | ⟨past, next, rfl⟩
    · exact (effectiveLimit_pos policy.algorithm).le
    · have reached : ∀ earlier ∈ past ++ [next], earlier.timing.read ≤ next.timing.read := by
        rw [List.map_append, List.map_singleton] at ordered
        obtain ⟨_, readings, _⟩ := ordered.snoc
        refine List.forall_mem_append.mpr ⟨fun earlier member => ?_, by simp⟩
        exact (readings _ (List.mem_map_of_mem member)).2
      exact (runs_kept lasting empty ordered spared reached).bounded instant

/-! ## A sweep that drops too much -/

/-- Calls that ask for more than the limit only sweep and trim. -/
theorem runs_refused (lasting : 0 < windowDuration policy.algorithm) {fading : Cell → Prop}
    (sweeps : ∀ cell now, fading cell → fading (cell.sweep now))
    (trims : ∀ (cell : Cell) cutoff, fading cell →
      fading { cell with timestamps := kept cutoff cell.timestamps })
    {calls : List LogCall}
    (refused : ∀ next ∈ calls, effectiveLimit policy.algorithm < cost next.req policy.algorithm)
    {run : LogRun} (initial : fading (run.store.cells (logKey key))) :
    (calls.foldl (step policy key) run).admitted = run.admitted ∧
      fading ((calls.foldl (step policy key) run).store.cells (logKey key)) := by
  induction calls generalizing run with
  | nil => exact ⟨rfl, initial⟩
  | cons next rest ih =>
      obtain ⟨exceeds, others⟩ := List.forall_mem_cons.mp refused
      rcases step_cases lasting rfl with ⟨_, _, same, after⟩ | ⟨fits, _⟩
      · have swept : fading (next.timing.sweeps (run.store.cells (logKey key))) :=
          List.foldlRecOn _ _ initial fun cell fades now _ => sweeps cell now fades
        have trimmed : fading ((step policy key run next).store.cells (logKey key)) :=
          after ▸ trims _ _ swept
        obtain ⟨kept, fades⟩ := ih others trimmed
        exact ⟨kept.trans same, fades⟩
      · omega

/-- A log that is gone or expires at an instant. -/
def Fading (expiry : Int) (cell : Cell) : Prop := cell.timestamps = [] ∨ cell.tsExpiry = expiry

theorem Fading.sweep {expiry : Int} (now : Int) (fades : Fading expiry cell) :
    Fading expiry (cell.sweep now) := by
  by_cases gone : cell.tsExpiry ≠ zeroNanos ∧ cell.tsExpiry < now
  · exact .inl (if_pos gone)
  · exact fades.imp (if_neg gone).trans (if_neg gone).trans

theorem sweep_empty (now : Int) (empty : cell.timestamps = []) :
    (cell.sweep now).timestamps = [] := by
  simp [Cell.sweep, empty]

theorem Fading.swept {expiry : Int} (later : zeroNanos < expiry) {sweeps : List Int} {sweep : Int}
    (fades : Fading expiry cell) (member : sweep ∈ sweeps) (past : expiry < sweep) :
    (sweeps.foldl (fun cell now => cell.sweep now) cell).timestamps = [] := by
  obtain ⟨before, after, rfl⟩ := List.append_of_mem member
  rw [List.foldl_append, List.foldl_cons]
  refine List.foldlRecOn (motive := fun cell : Cell => cell.timestamps = []) _ _ ?_
    fun cell empty now _ => sweep_empty now empty
  rcases List.foldlRecOn (motive := Fading expiry) before (fun cell now => cell.sweep now) fades
    fun cell fades now _ => fades.sweep now with empty | expires
  · exact sweep_empty sweep empty
  · exact if_pos ⟨expires ▸ later.ne', expires ▸ past⟩

end Runs

private def oneEntry (window : String) : Policy := { algorithm := { limit := 1, window } }

private def asks (quantity : Int) (timing : Timing) : LogCall := ⟨{ quantity }, timing⟩

/-- A call that finds no log is admitted if it asks for one unit. -/
private theorem step_one {window : String} {run : LogRun} {timing : Timing}
    (lasting : 0 < windowDuration (oneEntry window).algorithm)
    (empty : (timing.sweeps (run.store.cells (logKey "k"))).timestamps = []) :
    admits (oneEntry window) "k" run.store (asks 1 timing) = true ∧
      (step (oneEntry window) "k" run (asks 1 timing)).admitted = run.admitted ++ [⟨timing.read, 1⟩] ∧
      ((step (oneEntry window) "k" run (asks 1 timing)).store.cells (logKey "k")).tsExpiry =
        timing.stored + windowDuration (oneEntry window).algorithm := by
  have none : recent (oneEntry window) (asks 1 timing) (run.store.cells (logKey "k")) = [] := by
    rw [recent, asks, empty]
    rfl
  rcases step_cases lasting rfl with ⟨above, _⟩ | ⟨_, taken, grown, after⟩
  · rw [none] at above
    exact absurd (show (1 : Int) < 0 + 1 from above) (by decide)
  · exact ⟨taken, grown, congrArg Cell.tsExpiry after⟩

/-- One call takes the only unit, all others but the last one ask for more than there is. -/
private theorem spared_of_exact {window : String}
    (lasting : 0 < windowDuration (oneEntry window).algorithm) (front middle rest : List Timing)
    {first last : Timing} (modern : zeroNanos ≤ first.stored)
    (ordered : first.read ≤ last.read)
    (exact : ∀ calls : List LogCall,
      calls.map LogCall.timing = front ++ first :: (middle ++ last :: rest) →
        Exact (oneEntry window) "k" (.newSharded 1) calls)
    {sweep : Int} (between : sweep ∈ last.between)
    (expired : first.stored + windowDuration (oneEntry window).algorithm < sweep) :
    first.read + windowDuration (oneEntry window).algorithm < last.read := by
  have greedy : ∀ timings : List Timing, ∀ next ∈ timings.map (asks 2),
      effectiveLimit (oneEntry window).algorithm < cost next.req (oneEntry window).algorithm := by
    intro timings next member
    obtain ⟨timing, _, rfl⟩ := List.mem_map.mp member
    exact (by decide : (1 : Int) < 2)
  let idle := runs (oneEntry window) "k" (.newSharded 1) (front.map (asks 2))
  have quiet : idle.admitted = [] ∧ (idle.store.cells (logKey "k")).timestamps = [] :=
    runs_refused lasting (fun cell now => sweep_empty now)
      (fun cell cutoff (empty : cell.timestamps = []) => by rw [empty]; rfl) (greedy front) rfl
  have swept : (first.sweeps (idle.store.cells (logKey "k"))).timestamps = [] :=
    List.foldlRecOn (motive := fun cell : Cell => cell.timestamps = []) _ _ quiet.2
      fun cell empty now _ => sweep_empty now empty
  obtain ⟨_, taken, expires⟩ := step_one lasting swept
  obtain ⟨same, fades⟩ := runs_refused lasting (fun cell now => Fading.sweep now)
    (fun cell cutoff (fades : Fading _ cell) => fades.imp (fun empty => by rw [empty]; rfl) id)
    (greedy middle) (.inr expires)
  have again := (step_one lasting (fades.swept (by linarith)
    (List.mem_append_right _ between) expired)).1
  have answer := (exact (front.map (asks 2) ++ asks 1 first :: (middle.map (asks 2) ++
    asks 1 last :: rest.map (asks 1))) (by simp [Function.comp_def, asks])).1
      (front.map (asks 2) ++ asks 1 first :: middle.map (asks 2)) (asks 1 last)
      (rest.map (asks 1)) (by simp)
  rw [runs, List.foldl_append, List.foldl_cons] at answer
  have fits : spent (oneEntry window) last.read ((middle.map (asks 2)).foldl (step (oneEntry window) "k")
      (step (oneEntry window) "k" idle (asks 1 first))).admitted + 1 ≤ 1 := answer.mp again
  rw [same, taken, quiet.1, spent, costWithin_snoc] at fits
  refine lt_of_not_ge fun near => ?_
  have inside : last.read - windowDuration (oneEntry window).algorithm ≤ first.read := by linarith
  rw [if_pos ⟨inside, ordered⟩] at fits
  exact absurd (show (0 + 1 + 1 : Int) ≤ 1 from fits) (by decide)

/-- Calls on one clock, with sweeps at any moment, are admitted by the cost in their windows,
whatever they ask for, just if no sweep inside a call drops what the call still counts. -/
theorem exact_iff_spared (window : String) (timings : List Timing)
    (lasting : 0 < windowDuration { window }) (ordered : InOrder timings)
    (modern : ∀ timing ∈ timings, zeroNanos ≤ timing.stored) :
    (∀ (policy : Policy) (key : String) (store : MemoryStore) (calls : List LogCall),
        policy.algorithm.window = window → (store.cells (logKey key)).timestamps = [] →
          calls.map LogCall.timing = timings → Exact policy key store calls) ↔
      Spared (windowDuration { window }) timings := by
  constructor
  · intro exact
    refine List.pairwise_iff_forall_sublist.mpr fun {first last} listed sweep between expired => ?_
    have readings := (List.pairwise_flatMap.mp ordered).2.sublist listed
    obtain ⟨head, tail, rfl, inHead, inTail⟩ := List.cons_sublist_iff.mp listed
    obtain ⟨front, middle, rfl⟩ := List.append_of_mem inHead
    obtain ⟨middle', rest, rfl⟩ := List.append_of_mem (List.singleton_sublist.mp inTail)
    have early : first.read ≤ last.read :=
      List.rel_of_pairwise_cons readings (List.mem_singleton_self last) first.read
        (by simp [Timing.instants]) last.read (by simp [Timing.instants])
    refine spared_of_exact lasting front (middle ++ middle') rest (modern first (by simp)) early
      (fun calls timed => ?_) between expired
    exact exact (oneEntry window) "k" (.newSharded 1) calls rfl rfl (timed.trans (by simp))
  · rintro spared policy key store calls rfl empty rfl
    exact exact_of_spared lasting empty ordered spared

private def readAt (seconds extra : Int) : Time := ⟨seconds * second + extra, utc⟩

/-- A sweep inside the call exactly one window after an admission leaves it refused. -/
theorem exact_of_minute :
    admits (oneEntry "1m") "k" (runs (oneEntry "1m") "k" (.newSharded 2)
      [asks 1 { clock := fun _ => readAt 1 0 }]).store
        (asks 1 { between := [61 * second], clock := fun _ => readAt 61 0 }) = false := by
  have exact := (exact_iff_spared "1m" [{ clock := fun _ => readAt 1 0 },
    { between := [61 * second], clock := fun _ => readAt 61 0 }] (by decide) (by decide) (by decide)).mpr
      (by decide) (oneEntry "1m") "k" (.newSharded 2) [asks 1 _, asks 1 _] rfl rfl rfl
  exact Bool.eq_false_iff.mpr fun taken => absurd ((exact.1 [_] _ [] rfl).mp taken) (by decide +kernel)

/-- A sweep just after the reading, one window after the admission, drops the log that the
reading counts on. -/
theorem slidingLog_admits_twice :
    InOrder [{ clock := fun _ => readAt 1 0 },
        { between := [61 * second + 1], clock := fun n => readAt 61 (2 * n) }] ∧
      (runs (oneEntry "1m") "k" (.newSharded 2) [asks 1 { clock := fun _ => readAt 1 0 },
        asks 1 { between := [61 * second + 1], clock := fun n => readAt 61 (2 * n) }]).admitted =
          [⟨1 * second, 1⟩, ⟨61 * second, 1⟩] ∧
      ¬spent (oneEntry "1m") (61 * second) [⟨1 * second, 1⟩, ⟨61 * second, 1⟩] ≤
        effectiveLimit (oneEntry "1m").algorithm := by
  refine ⟨by decide, by decide +kernel, by decide⟩

end SlidingLog

end Rlaas.Algorithm
