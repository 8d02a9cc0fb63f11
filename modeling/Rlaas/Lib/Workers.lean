import Mathlib.Data.List.FinRange
import Mathlib.Tactic.Abel
import Rlaas.Lib.Channel
import Rlaas.Lib.Pool

/-! A batch of jobs shared out among workers. The jobs wait in a closed channel; a worker takes
one, has it answered by the environment and makes the writes that follow, until it finds the
channel empty. If the writes commute, the outcome is that of doing the jobs one by one. -/

set_option autoImplicit false

namespace Effect

/-- What is asked for a job and what is written once it is answered. -/
structure Batch (n : Nat) (Req Ans W : Type) where
  request : Fin n → Req
  writes : Fin n → Ans → List W

inductive BatchOp (n : Nat) (Req W : Type) where
  /-- The receive from the closed channel. -/
  | next
  | evaluate (job : Fin n) (request : Req)
  | store (write : W)

variable {n : Nat} {Req Ans W T : Type}

@[reducible] def BatchRes (Ans : Type) : BatchOp n Req W → Type
  | .next => Option (Fin n)
  | .evaluate _ _ => Ans
  | .store _ => Unit

abbrev BatchSteps (n : Nat) (Req Ans W : Type) := Program (BatchOp n Req W) (BatchRes Ans)

def storeAll : List W → BatchSteps n Req Ans W (Option Unit)
  | [] => .done none
  | write :: rest => .call (.store write) fun _ => storeAll rest

/-- The channel and what the workers write to. -/
structure Shared (n : Nat) (T : Type) where
  jobs : Channel (Fin n)
  target : T

def Shared.perform (apply : T → W → T) (answer : Ans) :
    (op : BatchOp n Req W) → Shared n T → BatchRes Ans op × Shared n T
  | .next, shared => (shared.jobs.tryReceive.1, { shared with jobs := shared.jobs.tryReceive.2 })
  | .evaluate _ _, shared => (answer, shared)
  | .store write, shared => ((), { shared with target := apply shared.target write })

abbrev BatchPool (n : Nat) (Req Ans W T : Type) :=
  Pool (BatchOp n Req W) (BatchRes Ans) (Option Unit) (Shared n T) Ans

abbrev BatchHistory (n : Nat) (Req Ans W : Type) :=
  List (Entry (BatchOp n Req W) (BatchRes Ans) Ans)

@[ext] structure Evaluation (n : Nat) (Req Ans : Type) where
  job : Fin n
  request : Req
  answer : Ans
  deriving DecidableEq

def evaluation? : (op : BatchOp n Req W) → BatchRes Ans op → Option (Evaluation n Req Ans)
  | .evaluate job request, answer => some ⟨job, request, answer⟩
  | _, _ => none

def write? : BatchOp n Req W → Option W
  | .store write => some write
  | _ => none

variable (history : BatchHistory n Req Ans W)

/-- The evaluations made, in that order. -/
def evaluations : List (Evaluation n Req Ans) :=
  history.filterMap fun entry => evaluation? entry.event.op entry.event.result

/-- The writes made, in that order. -/
def writesMade : List W :=
  history.filterMap fun entry => write? entry.event.op

theorem evaluations_snoc (entry : Entry (BatchOp n Req W) (BatchRes Ans) Ans) :
    evaluations (history ++ [entry]) =
      evaluations history ++ (evaluation? entry.event.op entry.event.result).toList :=
  filterMap_snoc _ history entry

theorem writesMade_snoc (entry : Entry (BatchOp n Req W) (BatchRes Ans) Ans) :
    writesMade (history ++ [entry]) = writesMade history ++ (write? entry.event.op).toList :=
  filterMap_snoc _ history entry

namespace Batch

/-- One round of a worker, which ends the loop when no job is left. -/
def round (batch : Batch n Req Ans W) : BatchSteps n Req Ans W (Option Unit) :=
  .call .next fun received =>
    match received with
    | none => .done (some ())
    | some job =>
        .call (.evaluate job (batch.request job)) fun answer => storeAll (batch.writes job answer)

/-- A worker. There are `n` jobs, so it is never cut off. -/
def worker (batch : Batch n Req Ans W) : BatchSteps n Req Ans W (Option Unit) :=
  batch.round.rounds (n + 1)

def begin (batch : Batch n Req Ans W) (workers : Nat) (target : T) : BatchPool n Req Ans W T :=
  Pool.start (List.replicate workers batch.worker) ⟨.filled (List.finRange n), target⟩

/-- What is written and evaluated once every worker has returned. -/
def outcome (batch : Batch n Req Ans W) (apply : T → W → T) (initial : T) (workers : Nat)
    (schedule : List (Nat × Ans)) : Option (T × List (Evaluation n Req Ans)) :=
  let final := (batch.begin workers initial).run (Shared.perform apply) schedule
  if final.finished then some (final.state.target, evaluations final.history) else none

/-- The evaluation of every job with these answers, in the order of the jobs. -/
def serial (batch : Batch n Req Ans W) (answers : Fin n → Ans) : List (Evaluation n Req Ans) :=
  (List.finRange n).map fun job => ⟨job, batch.request job, answers job⟩

/-- The writes of doing the jobs one by one. -/
def serialWrites (batch : Batch n Req Ans W) (answers : Fin n → Ans) : List W :=
  (List.finRange n).flatMap fun job => batch.writes job (answers job)

end Batch

/-- Where a worker is, and how many jobs it has taken. -/
inductive WorkerStage (n : Nat) (W : Type) where
  /-- It takes the next job once it has made these writes. -/
  | writing (took : Nat) (pending : List W)
  | holding (took : Nat) (job : Fin n)
  | left (took : Nat)

namespace WorkerStage

def took : WorkerStage n W → Nat
  | .writing took _ => took
  | .holding took _ => took
  | .left took => took

def held : WorkerStage n W → Multiset (Fin n)
  | .holding _ job => {job}
  | _ => 0

def pending : WorkerStage n W → Multiset W
  | .writing _ pending => pending
  | _ => 0

def guard (batch : Batch n Req Ans W) : WorkerStage n W → BatchOp n Req W → Prop
  | .writing _ [], op => op = .next
  | .writing _ (write :: _), op => op = .store write
  | .holding _ job, op => op = .evaluate job (batch.request job)
  | .left _, _ => False

def advance (batch : Batch n Req Ans W) :
    WorkerStage n W → (op : BatchOp n Req W) → BatchRes Ans op → WorkerStage n W
  | .writing took _, .next, some job => .holding (took + 1) job
  | .writing took _, .next, none => .left took
  | .writing took (_ :: rest), .store _, _ => .writing took rest
  | .holding took job, .evaluate _ _, answer => .writing took (batch.writes job answer)
  | stage, _, _ => stage

def accept : WorkerStage n W → Option Unit → Prop
  | .left _, result => result = some ()
  | .writing took [], result => result = none ∧ took = n + 1
  | _, _ => False

end WorkerStage

namespace Batch

variable (batch : Batch n Req Ans W)
variable {apply : T → W → T} {shared : Shared n T}
variable {op : BatchOp n Req W}

def watch : Monitor (BatchOp n Req W) (BatchRes Ans) (WorkerStage n W) (Option Unit) where
  expects _ _ _ := True
  guard := WorkerStage.guard batch
  advance := WorkerStage.advance batch
  accept := WorkerStage.accept

variable {batch}

theorem storeAll_watched {ended : WorkerStage n W → Option Unit → Prop} {took : Nat}
    (after : ended (.writing took []) none) (pending : List W) :
    (batch.watch.returning ended).Accepts (.writing took pending) (storeAll pending) := by
  induction pending with
  | nil => exact after
  | cons write rest ih => exact ⟨rfl, fun _ _ => ih⟩

/-- Where a worker takes its next job, by the number of rounds left. -/
def Taking (left : Nat) (stage : WorkerStage n W) : Prop :=
  ∃ took, stage = .writing took [] ∧ took + left = n + 1

theorem worker_watched : batch.watch.Accepts (.writing 0 []) batch.worker := by
  refine Monitor.accepts_rounds_left Taking (fun left stage taking => ?_) (fun stage taking => ?_)
    (n + 1) ⟨0, rfl, Nat.zero_add _⟩
  · obtain ⟨took, rfl, rounds⟩ := taking
    refine ⟨rfl, fun received _ => ?_⟩
    cases received with
    | none => exact (rfl : some () = some ())
    | some job =>
        exact ⟨rfl, fun answer _ => storeAll_watched ⟨took + 1, rfl, by omega⟩ _⟩
  · obtain ⟨took, rfl, rounds⟩ := taking
    exact ⟨rfl, rounds⟩

/-- Every job is answered, held by a worker or in the channel, and every write that follows
from an answer is made or pending. -/
structure Balanced (batch : Batch n Req Ans W) (apply : T → W → T) (initial : T)
    (shared : Shared n T) (answered : List (Evaluation n Req Ans)) (made : List W)
    (held : Multiset (Fin n)) (pending : Multiset W) (took : Nat) : Prop where
  jobs : Multiset.ofList (answered.map (·.job)) + held + Multiset.ofList shared.jobs.queue =
    Multiset.ofList (List.finRange n)
  requests : ∀ evaluation ∈ answered, evaluation.request = batch.request evaluation.job
  writes : Multiset.ofList made + pending = Multiset.ofList (answered.flatMap fun evaluation =>
    batch.writes evaluation.job evaluation.answer)
  target : shared.target = made.foldl apply initial
  taken : took + shared.jobs.queue.length = n

namespace Balanced

variable {apply : T → W → T} {initial : T} {shared : Shared n T}
  {answered : List (Evaluation n Req Ans)} {made : List W} {held : Multiset (Fin n)}
  {pending : Multiset W} {took : Nat}

theorem start (initial : T) :
    Balanced batch apply initial ⟨.filled (List.finRange n), initial⟩ [] [] 0 0 0 where
  jobs := by
    rw [add_zero]
    exact zero_add _
  requests _ member := by cases member
  writes := add_zero _
  target := rfl
  taken := by
    rw [Nat.zero_add]
    exact List.length_finRange

theorem take (balanced : Balanced batch apply initial shared answered made held pending took)
    {job : Fin n} {after : Channel (Fin n)} (head : shared.jobs.queue = job :: after.queue) :
    Balanced batch apply initial { shared with jobs := after } answered made ({job} + held) pending
      (took + 1) where
  jobs := by
    rw [← balanced.jobs, head, ← Multiset.cons_coe, ← Multiset.singleton_add]
    abel
  requests := balanced.requests
  writes := balanced.writes
  target := balanced.target
  taken := by
    have taken := balanced.taken
    rw [head, List.length_cons] at taken
    dsimp only
    omega

theorem answer {job : Fin n}
    (balanced : Balanced batch apply initial shared answered made ({job} + held) pending took)
    (answer : Ans) :
    Balanced batch apply initial shared (answered ++ [⟨job, batch.request job, answer⟩]) made held
      (Multiset.ofList (batch.writes job answer) + pending) took where
  jobs := by
    rw [← balanced.jobs, List.map_append, ← Multiset.coe_add]
    change _ + {job} + held + _ = _
    abel
  requests evaluation member := by
    cases List.mem_append.mp member with
    | inl before => exact balanced.requests evaluation before
    | inr last =>
        obtain rfl := List.mem_singleton.mp last
        rfl
  writes := by
    rw [List.flatMap_append, ← Multiset.coe_add, ← balanced.writes, List.flatMap_singleton]
    abel
  target := balanced.target
  taken := balanced.taken

theorem store {write : W} {rest : List W}
    (balanced : Balanced batch apply initial shared answered made held
      (Multiset.ofList (write :: rest) + pending) took) :
    Balanced batch apply initial { shared with target := apply shared.target write } answered
      (made ++ [write]) held (Multiset.ofList rest + pending) took where
  jobs := balanced.jobs
  requests := balanced.requests
  writes := by
    rw [← balanced.writes, ← Multiset.coe_add, ← Multiset.cons_coe write rest,
      ← Multiset.singleton_add]
    change _ + {write} + _ = _
    abel
  target := by
    rw [List.foldl_append, ← balanced.target]
    rfl
  taken := balanced.taken

theorem step {stage : WorkerStage n W} (guarded : stage.guard batch op) (answer : Ans)
    (balanced : Balanced batch apply initial shared answered made (stage.held + held)
      (stage.pending + pending) (stage.took + took)) :
    Balanced batch apply initial (Shared.perform apply answer op shared).2
      (answered ++ (evaluation? op (Shared.perform apply answer op shared).1).toList)
      (made ++ (write? op).toList)
      ((stage.advance batch op (Shared.perform apply answer op shared).1).held + held)
      ((stage.advance batch op (Shared.perform apply answer op shared).1).pending + pending)
      ((stage.advance batch op (Shared.perform apply answer op shared).1).took + took) := by
  cases stage with
  | left count => cases guarded
  | holding count job =>
      cases guarded
      change Balanced batch apply initial shared answered made _ (0 + pending) _ at balanced
      change Balanced batch apply initial shared _ (made ++ []) (0 + held) _ _
      rw [zero_add] at balanced
      rw [List.append_nil, zero_add]
      exact balanced.answer answer
  | writing count writes =>
      cases writes with
      | cons write rest =>
          cases guarded
          change Balanced batch apply initial _ (answered ++ []) _ _ _ _
          rw [List.append_nil]
          exact balanced.store
      | nil =>
          cases guarded
          change Balanced batch apply initial _ (answered ++ []) (made ++ []) _ _ _
          rw [List.append_nil, List.append_nil]
          cases Channel.tryReceive_cases shared.jobs with
          | inl empty =>
              rw [Shared.perform, empty.2]
              exact balanced
          | inr received =>
              obtain ⟨job, after, received, head, _⟩ := received
              change Balanced batch apply initial shared answered made (0 + held) _ (count + took)
                at balanced
              rw [zero_add] at balanced
              have moved := balanced.take head
              rw [Nat.add_right_comm] at moved
              rw [Shared.perform, received]
              exact moved

end Balanced

/-- The balance over all workers; one that has left found the channel empty. -/
structure Conserved (batch : Batch n Req Ans W) (apply : T → W → T) (initial : T) (workers : Nat)
    (shared : Shared n T) (answered : List (Evaluation n Req Ans)) (made : List W)
    (stages : Nat → WorkerStage n W) : Prop where
  balanced : Balanced batch apply initial shared answered made
    (gathered WorkerStage.held workers stages) (gathered WorkerStage.pending workers stages)
    (gathered WorkerStage.took workers stages)
  emptied : ∀ worker took, stages worker = .left took → shared.jobs.queue = []

namespace Conserved

variable {apply : T → W → T} {initial : T} {workers worker : Nat} {shared after : Shared n T}
  {answered answered' : List (Evaluation n Req Ans)} {made made' : List W}
  {stages : Nat → WorkerStage n W} {next : WorkerStage n W}

theorem move (conserved : Conserved batch apply initial workers shared answered made stages)
    (inside : worker < workers)
    (balance : ∀ held pending took,
      Balanced batch apply initial shared answered made ((stages worker).held + held)
        ((stages worker).pending + pending) ((stages worker).took + took) →
      Balanced batch apply initial after answered' made' (next.held + held)
        (next.pending + pending) (next.took + took))
    (leaves : ∀ took, next = .left took → after.jobs.queue = [])
    (kept : shared.jobs.queue = [] → after.jobs.queue = []) :
    Conserved batch apply initial workers after answered' made'
      (Function.update stages worker next) := by
  obtain ⟨held, heldBefore, heldAfter⟩ := gathered_update WorkerStage.held inside stages
  obtain ⟨pending, pendingBefore, pendingAfter⟩ :=
    gathered_update WorkerStage.pending inside stages
  obtain ⟨took, tookBefore, tookAfter⟩ := gathered_update WorkerStage.took inside stages
  refine ⟨?_, fun other count located => ?_⟩
  · have balanced := conserved.balanced
    rw [heldBefore, pendingBefore, tookBefore] at balanced
    rw [heldAfter, pendingAfter, tookAfter]
    exact balance held pending took balanced
  · cases update_cases located with
    | inl moved => exact leaves count moved.2
    | inr stayed => exact kept (conserved.emptied other count stayed.2)

end Conserved

def stagesOf (batch : Batch n Req Ans W) (history : BatchHistory n Req Ans W) :
    Nat → WorkerStage n W :=
  Pool.stages (fun _ => batch.watch) (fun _ => .writing 0 []) history

/-- The balance of a run so far. -/
def Accounted (batch : Batch n Req Ans W) (apply : T → W → T) (initial : T) (workers : Nat)
    (shared : Shared n T) (history : BatchHistory n Req Ans W) : Prop :=
  Conserved batch apply initial workers shared (evaluations history) (writesMade history)
    (batch.stagesOf history)

theorem empty_of_left {stage : WorkerStage n W} (guarded : stage.guard batch op) (answer : Ans)
    {took : Nat}
    (left : stage.advance batch op (Shared.perform apply answer op shared).1 = .left took) :
    (Shared.perform apply answer op shared).2.jobs.queue = [] := by
  cases stage with
  | left count => cases guarded
  | holding count job =>
      cases guarded
      cases left
  | writing count writes =>
      cases writes with
      | cons write rest =>
          cases guarded
          cases left
      | nil =>
          cases guarded
          cases Channel.tryReceive_cases shared.jobs with
          | inl empty =>
              rw [Shared.perform, empty.2]
              exact empty.1
          | inr received =>
              obtain ⟨job, after, received, _⟩ := received
              rw [Shared.perform, received] at left
              cases left

theorem empty_perform (answer : Ans) (op : BatchOp n Req W) (empty : shared.jobs.queue = []) :
    (Shared.perform apply answer op shared).2.jobs.queue = [] := by
  cases op with
  | next => exact (congrArg List.tail empty : shared.jobs.queue.tail = [])
  | evaluate job request => exact empty
  | store write => exact empty

theorem Accounted.step {initial : T} {workers : Nat} {history : BatchHistory n Req Ans W}
    (accounted : batch.Accounted apply initial workers shared history) {worker : Nat}
    (inside : worker < workers) (answer : Ans)
    (guarded : (batch.stagesOf history worker).guard batch op) :
    batch.Accounted apply initial workers (Shared.perform apply answer op shared).2
      (history ++ [⟨worker, answer, op, (Shared.perform apply answer op shared).1⟩]) := by
  unfold Accounted stagesOf
  rw [Pool.stages_snoc, evaluations_snoc, writesMade_snoc]
  exact accounted.move inside (fun _ _ _ => Balanced.step guarded answer)
    (fun _ => empty_of_left guarded answer) (empty_perform answer op)

theorem accounted_start (initial : T) (workers : Nat) :
    batch.Accounted apply initial workers ⟨.filled (List.finRange n), initial⟩ [] := by
  have none : ∀ {M : Type} [AddCommMonoid M] (view : WorkerStage n W → M),
      view (.writing 0 []) = 0 → gathered view workers (batch.stagesOf []) = 0 :=
    fun view empty => Finset.sum_eq_zero fun _ _ => empty
  refine ⟨?_, fun worker took left => by cases left⟩
  rw [none WorkerStage.held rfl, none WorkerStage.pending rfl, none WorkerStage.took rfl]
  exact Balanced.start initial

theorem run_accounted (batch : Batch n Req Ans W) (apply : T → W → T) (initial : T) (workers : Nat)
    (schedule : List (Nat × Ans)) :
    let final := (batch.begin workers initial).run (Shared.perform apply) schedule
    final.Followed (fun _ => batch.watch) (fun _ => .writing 0 []) ∧
      batch.Accounted apply initial workers final.state final.history := by
  refine Pool.run_invariant (Shared.perform apply) (fun _ => batch.watch)
    (fun _ => .writing 0 []) (batch.Accounted apply initial workers) ?_ schedule
    (batch.begin workers initial) List.length_replicate ?_ (accounted_start initial workers)
    (Pool.along_trivial schedule _)
  · intro shared history worker answer op inside accounted _ guarded
    exact ⟨trivial, accounted.step inside answer guarded⟩
  · intro worker program found
    obtain rfl := List.eq_of_mem_replicate (List.mem_of_getElem? found)
    exact worker_watched

theorem left_of_done {initial : T} {workers worker : Nat}
    {history : BatchHistory n Req Ans W}
    (accounted : batch.Accounted apply initial workers shared history) (inside : worker < workers)
    {result : Option Unit} (accepted : (batch.stagesOf history worker).accept result) :
    ∃ took, batch.stagesOf history worker = .left took := by
  obtain ⟨others, total, _⟩ := gathered_update WorkerStage.took inside (batch.stagesOf history)
  have taken := accounted.balanced.taken
  rw [total] at taken
  cases here : batch.stagesOf history worker with
  | left took => exact ⟨took, rfl⟩
  | holding took job =>
      rw [here] at accepted
      cases accepted
  | writing took pending =>
      rw [here] at accepted taken
      cases pending with
      | cons write rest => cases accepted
      | nil =>
          have most : took = n + 1 := accepted.2
          change took + others + shared.jobs.queue.length = n at taken
          omega

theorem exists_answers {answered : List (Evaluation n Req Ans)}
    (jobs : (answered.map (·.job)).Perm (List.finRange n))
    (requests : ∀ evaluation ∈ answered, evaluation.request = batch.request evaluation.job) :
    ∃ answers, answered.Perm (batch.serial answers) := by
  have complete : ∀ job, ∃ evaluation ∈ answered, evaluation.job = job := fun job =>
    List.mem_map.mp (jobs.mem_iff.mpr (List.mem_finRange job))
  choose evaluation member same using complete
  have distinct : (answered.map (·.job)).Nodup := jobs.nodup_iff.mpr (List.nodup_finRange n)
  have back : ∀ other ∈ answered, evaluation other.job = other := fun other here =>
    List.inj_on_of_nodup_map distinct (member _) here (same _)
  refine ⟨fun job => (evaluation job).answer, ?_⟩
  have first : answered = (answered.map (·.job)).map evaluation := by
    rw [List.map_map]
    exact ((List.map_congr_left back).trans (List.map_id answered)).symm
  have last : (List.finRange n).map evaluation =
      batch.serial fun job => (evaluation job).answer := by
    refine List.map_congr_left fun job _ => Evaluation.ext (same job) ?_ rfl
    exact (requests _ (member job)).trans (congrArg batch.request (same job))
  rw [first, ← last]
  exact jobs.map evaluation

/-- Workers that have all returned did what doing the jobs one by one does with the same
answers. -/
theorem outcome_serial (batch : Batch n Req Ans W) (apply : T → W → T) (initial : T)
    {workers : Nat} (employed : 0 < workers)
    (commute : ∀ answers, ∀ first ∈ batch.serialWrites answers,
      ∀ second ∈ batch.serialWrites answers, ∀ target,
        apply (apply target first) second = apply (apply target second) first)
    {schedule : List (Nat × Ans)} {target : T} {evaluated : List (Evaluation n Req Ans)}
    (returned : batch.outcome apply initial workers schedule = some (target, evaluated)) :
    ∃ answers, evaluated.Perm (batch.serial answers) ∧
      target = (batch.serialWrites answers).foldl apply initial := by
  obtain ⟨finished, same⟩ := Option.ite_none_right_eq_some.mp returned
  obtain ⟨rfl, rfl⟩ := Prod.mk.inj (Option.some.inj same)
  obtain ⟨followed, accounted⟩ := batch.run_accounted apply initial workers schedule
  have size : ((batch.begin workers initial).run (Shared.perform apply) schedule).threads.length =
      workers :=
    (Pool.run_threads_length _ schedule _).trans List.length_replicate
  generalize (batch.begin workers initial).run (Shared.perform apply) schedule = final
    at size followed accounted finished ⊢
  have left : ∀ worker < workers, ∃ took, batch.stagesOf final.history worker = .left took := by
    intro worker inside
    have found := List.getElem?_eq_getElem (size.symm ▸ inside : worker < final.threads.length)
    obtain ⟨result, ended⟩ := Pool.finished_iff.mp finished worker _ found
    rw [ended] at found
    exact left_of_done accounted inside (followed worker _ found)
  have none : ∀ {M : Type} [AddCommMonoid M] (view : WorkerStage n W → M),
      (∀ took, view (.left took) = 0) →
        gathered view workers (batch.stagesOf final.history) = 0 := by
    intro M _ view empty
    refine Finset.sum_eq_zero fun worker inside => ?_
    obtain ⟨took, here⟩ := left worker (Finset.mem_range.mp inside)
    rw [here]
    exact empty took
  obtain ⟨_, first⟩ := left 0 employed
  have jobs := accounted.balanced.jobs
  have writes := accounted.balanced.writes
  rw [accounted.emptied 0 _ first, none WorkerStage.held fun _ => rfl, add_zero] at jobs
  rw [none WorkerStage.pending fun _ => rfl, add_zero] at writes
  obtain ⟨answers, once⟩ := exists_answers (Multiset.coe_eq_coe.mp ((add_zero _).symm.trans jobs))
    accounted.balanced.requests
  have made : (batch.serialWrites answers).Perm (writesMade final.history) := by
    refine List.Perm.symm ((Multiset.coe_eq_coe.mp writes).trans ?_)
    refine (once.flatMap_right _).trans ?_
    rw [serial, List.flatMap_map]
    exact List.Perm.refl _
  refine ⟨answers, once, ?_⟩
  rw [accounted.balanced.target]
  exact (made.foldl_eq' (commute answers) initial).symm

theorem outcome_view {T' : Type} (batch : Batch n Req Ans W) {narrow : T' → W → T'} (view : T → T')
    (commutes : ∀ target write, narrow (view target) write = view (apply target write))
    (initial : T) (workers : Nat) (schedule : List (Nat × Ans)) :
    batch.outcome narrow (view initial) workers schedule =
      (batch.outcome apply initial workers schedule).map
        fun outcome => (view outcome.1, outcome.2) := by
  have handled : ∀ (answer : Ans) (op : BatchOp n Req W) (shared : Shared n T),
      Shared.perform narrow answer op ⟨shared.jobs, view shared.target⟩ =
        ((Shared.perform apply answer op shared).1,
          ⟨(Shared.perform apply answer op shared).2.jobs,
            view (Shared.perform apply answer op shared).2.target⟩) := by
    intro answer op shared
    cases op with
    | next => rfl
    | evaluate job request => rfl
    | store write => simp only [Shared.perform, commutes]
  have run := Pool.run_view
    (fun shared : Shared n T => (⟨shared.jobs, view shared.target⟩ : Shared n T')) handled schedule
    (batch.begin workers initial)
  change (batch.begin workers (view initial)).run (Shared.perform narrow) schedule = _ at run
  unfold outcome
  rw [run]
  generalize (batch.begin workers initial).run (Shared.perform apply) schedule = final
  change (if final.finished = true then some (view final.state.target, evaluations final.history)
    else none) = _
  cases finished : final.finished with
  | true => simp [finished]
  | false => simp [finished]

/-- The workers can always be brought to return. -/
theorem exists_outcome (batch : Batch n Req Ans W) (apply : T → W → T) (initial : T)
    (workers : Nat) (answer : Ans) (schedule : List (Nat × Ans)) :
    ∃ rest, (batch.outcome apply initial workers (schedule ++ rest)).isSome = true := by
  obtain ⟨rest, finished⟩ := Pool.exists_finished (Shared.perform apply) answer
    ((batch.begin workers initial).run (Shared.perform apply) schedule)
  rw [← Pool.run_append] at finished
  exact ⟨rest, by rw [outcome, if_pos finished, Option.isSome_some]⟩

end Batch

end Effect
