import Rlaas.Lib.Monitor
import Mathlib.Algebra.BigOperators.Fin

/-! Interleaved execution of several programs over one shared state. A schedule
names, step by step, which program performs its next operation and at which
reading; every operation is atomic. The rule at the end reduces an invariant of
all interleavings to one guarded step. -/

set_option autoImplicit false

namespace Effect

open Function

structure Entry (Op : Type) (Res : Op → Type) (τ : Type) where
  thread : Nat
  time : τ
  event : Event Op Res

/-- Programs in progress, the state they share and everything done so far. -/
structure Pool (Op : Type) (Res : Op → Type) (α σ τ : Type) where
  threads : List (Program Op Res α)
  state : σ
  history : List (Entry Op Res τ)

variable {Op : Type} {Res : Op → Type} {S α β σ τ : Type}

def own (history : List (Entry Op Res τ)) (thread : Nat) : List (Event Op Res) :=
  (history.filter fun entry => entry.thread == thread).map (·.event)

@[simp] theorem own_nil (thread : Nat) : own ([] : List (Entry Op Res τ)) thread = [] := rfl

theorem own_snoc_self (history : List (Entry Op Res τ)) (thread : Nat) (time : τ)
    (event : Event Op Res) :
    own (history ++ [⟨thread, time, event⟩]) thread = own history thread ++ [event] := by
  simp [own]

theorem own_snoc_other (history : List (Entry Op Res τ)) {thread other : Nat} (time : τ)
    (event : Event Op Res) (different : other ≠ thread) :
    own (history ++ [⟨thread, time, event⟩]) other = own history other := by
  simp [own, different.symm]

theorem foldl_own_snoc (advance : Nat → S → Event Op Res → S) (initial : Nat → S)
    (history : List (Entry Op Res τ)) (thread : Nat) (time : τ) (event : Event Op Res) :
    (fun other => (own (history ++ [⟨thread, time, event⟩]) other).foldl (advance other)
        (initial other)) =
      update (fun other => (own history other).foldl (advance other) (initial other)) thread
        (advance thread ((own history thread).foldl (advance thread) (initial thread)) event) := by
  refine Function.eq_update_iff.mpr ⟨?_, ?_⟩
  · rw [own_snoc_self, List.foldl_append]
    rfl
  · intro other different
    rw [own_snoc_other _ _ _ different]

section Update

variable {ι κ : Type} [DecidableEq ι] {stage : ι → S} {thread other : ι} {next : S}

theorem view_update_cases (view : S → κ) {seen : κ}
    (located : view (update stage thread next other) = seen) :
    (other = thread ∧ view next = seen) ∨ (other ≠ thread ∧ view (stage other) = seen) := by
  rw [update_apply, apply_ite view] at located
  exact ite_eq_iff.mp located

theorem update_cases {reached : S} (located : update stage thread next other = reached) :
    (other = thread ∧ next = reached) ∨ (other ≠ thread ∧ stage other = reached) :=
  view_update_cases id located

theorem view_update_same (view : S → κ) (same : view next = view (stage thread)) (other : ι) :
    view (update stage thread next other) = view (stage other) := by
  rw [update_apply]
  split_ifs with here
  · rw [here, same]
  · rfl

end Update

theorem filterMap_snoc (pick : α → Option β) (items : List α) (last : α) :
    (items ++ [last]).filterMap pick = items.filterMap pick ++ (pick last).toList := by
  rw [List.filterMap_append, List.filterMap_cons]
  cases pick last with
  | none => rfl
  | some item => rfl

theorem mem_own {history : List (Entry Op Res τ)} {thread : Nat} {event : Event Op Res} :
    event ∈ own history thread ↔ ∃ entry ∈ history, entry.thread = thread ∧ entry.event = event := by
  simp [own, and_assoc]

/-- What the first `count` threads have, added up. -/
def gathered {M : Type} [AddCommMonoid M] (view : S → M) (count : Nat) (stages : Nat → S) : M :=
  ∑ thread ∈ Finset.range count, view (stages thread)

theorem gathered_update {M : Type} [AddCommMonoid M] (view : S → M) {count thread : Nat}
    (inside : thread < count) (stages : Nat → S) :
    ∃ others, gathered view count stages = view (stages thread) + others ∧
      ∀ next, gathered view count (update stages thread next) = view next + others := by
  have member := Finset.mem_range.mpr inside
  refine ⟨∑ other ∈ Finset.range count \ {thread}, view (stages other), ?_, fun next => ?_⟩
  · exact Finset.sum_eq_add_sum_sdiff_singleton_of_mem member fun other => view (stages other)
  · rw [← Finset.sum_update_of_mem member (fun other => view (stages other)) (view next)]
    exact Finset.sum_congr rfl fun other _ =>
      Function.apply_update (fun _ => view) stages thread next other

theorem gathered_list {M : Type} [AddCommMonoid M] (view : S → M) (items : List S)
    {stages : Nat → S} (here : ∀ (thread : Nat) stage, items[thread]? = some stage →
      stages thread = stage) :
    gathered view items.length stages = (items.map view).sum := by
  induction items using List.reverseRecOn with
  | nil => rfl
  | append_singleton items last ih =>
      have before := ih fun thread stage found => here thread stage
        (by rw [List.getElem?_append_left (List.getElem?_eq_some_iff.mp found).1, found])
      rw [List.length_append, List.length_singleton, gathered, Finset.sum_range_succ,
        here items.length last List.getElem?_concat_length, List.map_append, List.sum_append,
        ← before, List.map_singleton, List.sum_singleton]
      rfl

/-- How many of the first `count` threads are at a stage with a property. -/
def headcount (test : S → Bool) : Nat → (Nat → S) → Nat :=
  gathered fun stage => (test stage).toNat

theorem headcount_le (test : S → Bool) (count : Nat) (stages : Nat → S) :
    headcount test count stages ≤ count := by
  induction count with
  | zero => exact le_refl 0
  | succ count ih =>
      have one := Bool.toNat_le (test (stages count))
      rw [headcount, gathered, Finset.sum_range_succ]
      exact Nat.add_le_add ih one

theorem headcount_update (test : S → Bool) {count thread : Nat} (inside : thread < count)
    (stages : Nat → S) (next : S) :
    headcount test count (update stages thread next) + (test (stages thread)).toNat =
      headcount test count stages + (test next).toNat := by
  obtain ⟨others, before, after⟩ :=
    gathered_update (fun stage => (test stage).toNat) inside stages
  rw [headcount, before, after next]
  omega

def counted (counts : (op : Op) → Res op → Bool) (history : List (Entry Op Res τ)) (thread : Nat) :
    Bool :=
  (own history thread).any fun event => counts event.op event.result

/-- The weights of the threads that have counted, added up. -/
def tally {M : Type} [AddCommMonoid M] {count : Nat} (counts : (op : Op) → Res op → Bool)
    (weight : Fin count → M) (history : List (Entry Op Res τ)) : M :=
  ∑ thread : Fin count, if counted counts history thread then weight thread else 0

section Tally

variable {M : Type} [AddCommMonoid M] {count : Nat} {counts : (op : Op) → Res op → Bool}
  {weight : Fin count → M} {history : List (Entry Op Res τ)} {time : τ} {event : Event Op Res}

theorem tally_nil : tally counts weight ([] : List (Entry Op Res τ)) = 0 := by
  simp [tally, counted]

theorem tally_snoc_uncounted {thread : Nat} (silent : counts event.op event.result = false) :
    tally counts weight (history ++ [⟨thread, time, event⟩]) = tally counts weight history := by
  refine Finset.sum_congr rfl fun other _ => ?_
  by_cases same : (other : Nat) = thread
  · simp [counted, same, own_snoc_self, silent]
  · simp [counted, own_snoc_other _ _ _ same]

theorem tally_snoc_counted (thread : Fin count) (fresh : counted counts history thread = false)
    (loud : counts event.op event.result = true) :
    tally counts weight (history ++ [⟨thread, time, event⟩]) =
      tally counts weight history + weight thread := by
  have others : ∀ other ∈ Finset.univ.erase thread,
      (if counted counts (history ++ [⟨thread, time, event⟩]) other then weight other else 0) =
        if counted counts history other then weight other else 0 := by
    intro other member
    have different : (other : Nat) ≠ thread := fun same =>
      (Finset.mem_erase.mp member).1 (Fin.ext same)
    simp [counted, own_snoc_other _ _ _ different]
  unfold tally
  rw [← Finset.sum_erase_add _ _ (Finset.mem_univ thread),
    ← Finset.sum_erase_add Finset.univ (fun other : Fin count =>
      if counted counts history other then weight other else 0) (Finset.mem_univ thread),
    Finset.sum_congr rfl others]
  simp only [fresh]
  simp [counted, own_snoc_self, loud]

end Tally

namespace Pool

variable {handler : Handler Op Res σ τ} {pool : Pool Op Res α σ τ} {thread : Nat}
  {schedule : List (Nat × τ)} {condition : σ → List (Entry Op Res τ) → Nat → τ → Op → Prop}

def start (threads : List (Program Op Res α)) (state : σ) : Pool Op Res α σ τ where
  threads
  state
  history := []

/-- Further programs start. -/
def spawn (programs : List (Program Op Res α)) (pool : Pool Op Res α σ τ) : Pool Op Res α σ τ :=
  { pool with threads := pool.threads ++ programs }

/-- The results of the threads that have ended, by thread. -/
def results (pool : Pool Op Res α σ τ) : List (Option α) := pool.threads.map Program.result?

theorem results_eq_some {result : α} :
    pool.results[thread]? = some (some result) ↔ pool.threads[thread]? = some (.done result) := by
  rw [results, List.getElem?_map]
  cases pool.threads[thread]? with
  | none => simp
  | some program => simp [Program.result?_eq_some]

/-- Every thread has ended. -/
def finished (pool : Pool Op Res α σ τ) : Bool := pool.results.all Option.isSome

theorem finished_iff :
    pool.finished = true ↔ ∀ (thread : Nat) program, pool.threads[thread]? = some program →
      ∃ result, program = .done result := by
  simp only [finished, results, List.all_map, List.all_eq_true, Function.comp_apply,
    Option.isSome_iff_exists, Program.result?_eq_some, List.mem_iff_getElem?]
  exact ⟨fun ended thread program found => ended program ⟨thread, found⟩,
    fun ended program ⟨thread, found⟩ => ended thread program found⟩

theorem exists_call_of_unfinished (running : pool.finished = false) :
    ∃ (thread : Nat) (op : Op) (next : Res op → Program Op Res α),
      pool.threads[thread]? = some (.call op next) := by
  by_contra none
  push Not at none
  rw [Bool.eq_false_iff, Ne, finished_iff] at running
  refine running fun thread program found => ?_
  cases program with
  | done result => exact ⟨result, rfl⟩
  | call op next => exact absurd found (none thread op next)

/-- Let one thread perform its next operation. A finished or unknown thread
has none, and the pool stays as it is. -/
def step (handler : Handler Op Res σ τ) (pool : Pool Op Res α σ τ) (choice : Nat × τ) :
    Pool Op Res α σ τ :=
  match pool.threads[choice.1]? with
  | some (.call op next) =>
      { threads := pool.threads.set choice.1 (next (handler choice.2 op pool.state).1)
        state := (handler choice.2 op pool.state).2
        history := pool.history ++
          [⟨choice.1, choice.2, ⟨op, (handler choice.2 op pool.state).1⟩⟩] }
  | _ => pool

def run (handler : Handler Op Res σ τ) (pool : Pool Op Res α σ τ) (schedule : List (Nat × τ)) :
    Pool Op Res α σ τ :=
  schedule.foldl (step handler) pool

/-- Every step the schedule makes from this pool satisfies a condition on the
state before the step and the operation about to be performed. -/
def Along (handler : Handler Op Res σ τ)
    (condition : σ → List (Entry Op Res τ) → Nat → τ → Op → Prop) :
    Pool Op Res α σ τ → List (Nat × τ) → Prop
  | _, [] => True
  | pool, choice :: rest =>
      (∀ op next, pool.threads[choice.1]? = some (.call op next) →
        condition pool.state pool.history choice.1 choice.2 op) ∧
      Along handler condition (pool.step handler choice) rest

instance Along.decide (handler : Handler Op Res σ τ)
    (condition : σ → List (Entry Op Res τ) → Nat → τ → Op → Prop)
    [∀ state history thread time op, Decidable (condition state history thread time op)] :
    (pool : Pool Op Res α σ τ) → (schedule : List (Nat × τ)) →
      Decidable (pool.Along handler condition schedule)
  | _, [] => isTrue trivial
  | pool, choice :: rest =>
      have := Along.decide handler condition (pool.step handler choice) rest
      have : Decidable (∀ op next, pool.threads[choice.1]? = some (.call op next) →
          condition pool.state pool.history choice.1 choice.2 op) :=
        match pool.threads[choice.1]? with
        | some (.call op next) =>
            decidable_of_iff (condition pool.state pool.history choice.1 choice.2 op)
              ⟨fun holds _ _ found => by cases found; exact holds, fun all => all op next rfl⟩
        | some (.done _) => isTrue (fun _ _ found => by cases found)
        | none => isTrue (fun _ _ found => by cases found)
      inferInstanceAs (Decidable (_ ∧ _))

/-- Each thread is accepted by its monitor in the state its own operations
have brought the monitor to. -/
def Followed (monitors : Nat → Monitor Op Res S α) (initial : Nat → S)
    (pool : Pool Op Res α σ τ) : Prop :=
  ∀ thread program, pool.threads[thread]? = some program →
    (monitors thread).Accepts
      ((monitors thread).follow (initial thread) (own pool.history thread)) program

theorem followed_start {monitors : Nat → Monitor Op Res S α} {initial : Nat → S}
    {threads : List (Program Op Res α)} {state : σ}
    (accepted : ∀ thread program, threads[thread]? = some program →
      (monitors thread).Accepts (initial thread) program) :
    (start threads state : Pool Op Res α σ τ).Followed monitors initial :=
  accepted

theorem step_of_call {time : τ} {op : Op} {next : Res op → Program Op Res α}
    (found : pool.threads[thread]? = some (.call op next)) :
    pool.step handler (thread, time) =
      { threads := pool.threads.set thread (next (handler time op pool.state).1)
        state := (handler time op pool.state).2
        history := pool.history ++ [⟨thread, time, ⟨op, (handler time op pool.state).1⟩⟩] } := by
  simp [step, found]

theorem step_of_idle {choice : Nat × τ}
    (idle : ∀ op next, pool.threads[choice.1]? ≠ some (.call op next)) :
    pool.step handler choice = pool := by
  unfold step
  split
  · next op next found => exact absurd found (idle op next)
  · rfl

theorem step_threads_other (handler : Handler Op Res σ τ) (pool : Pool Op Res α σ τ)
    {choice : Nat × τ} {other : Nat} (different : other ≠ choice.1) :
    (pool.step handler choice).threads[other]? = pool.threads[other]? := by
  unfold step
  split
  · exact List.getElem?_set_ne (Ne.symm different)
  · rfl

theorem Along.of_call
    {time : τ} {op : Op} {next : Res op → Program Op Res α} {rest : List (Nat × τ)}
    (found : pool.threads[thread]? = some (.call op next))
    (holds : condition pool.state pool.history thread time op)
    (later : (pool.step handler (thread, time)).Along handler condition rest) :
    pool.Along handler condition ((thread, time) :: rest) := by
  refine ⟨fun other after same => ?_, later⟩
  cases found.symm.trans same
  exact holds

theorem Followed.step {monitors : Nat → Monitor Op Res S α} {initial : Nat → S}
       {time : τ} {op : Op} {next : Res op → Program Op Res α}
    (followed : pool.Followed monitors initial)
    (found : pool.threads[thread]? = some (.call op next))
    (expected : (monitors thread).expects
      ((monitors thread).follow (initial thread) (own pool.history thread)) op
      (handler time op pool.state).1) :
    (pool.step handler (thread, time)).Followed monitors initial := by
  rw [step_of_call found]
  intro other program lookup
  by_cases same : other = thread
  · subst other
    have inRange : thread < pool.threads.length := (List.getElem?_eq_some_iff.mp found).1
    simp only [List.getElem?_set_self inRange, Option.some.injEq] at lookup
    subst program
    rw [own_snoc_self, Monitor.follow_append]
    exact (followed thread _ found).2 _ expected
  · rw [own_snoc_other _ _ _ same]
    simp only [List.getElem?_set_ne (Ne.symm same)] at lookup
    exact followed other program lookup

theorem step_threads_length (handler : Handler Op Res σ τ) (pool : Pool Op Res α σ τ)
    (choice : Nat × τ) : (pool.step handler choice).threads.length = pool.threads.length := by
  unfold step
  split <;> simp

/-- An invariant of the shared state and the history that every guarded step
keeps holds after every schedule whose steps meet the condition. -/
theorem run_invariant {count : Nat} (handler : Handler Op Res σ τ)
    (monitors : Nat → Monitor Op Res S α) (initial : Nat → S)
    (invariant : σ → List (Entry Op Res τ) → Prop)
    (preserve : ∀ state history thread time op, thread < count → invariant state history →
      condition state history thread time op →
      (monitors thread).guard
        ((monitors thread).follow (initial thread) (own history thread)) op →
      (monitors thread).expects
        ((monitors thread).follow (initial thread) (own history thread)) op
        (handler time op state).1 ∧
      invariant (handler time op state).2
        (history ++ [⟨thread, time, ⟨op, (handler time op state).1⟩⟩])) (schedule : List (Nat × τ))
    (pool : Pool Op Res α σ τ) (size : pool.threads.length = count)
    (followed : pool.Followed monitors initial) (valid : invariant pool.state pool.history)
    (along : pool.Along handler condition schedule) :
    (pool.run handler schedule).Followed monitors initial ∧
      invariant (pool.run handler schedule).state (pool.run handler schedule).history := by
  induction schedule generalizing pool with
  | nil => exact ⟨followed, valid⟩
  | cons choice rest ih =>
      obtain ⟨thread, time⟩ := choice
      obtain ⟨holds, remaining⟩ := along
      by_cases active : ∃ op next, pool.threads[thread]? = some (.call op next)
      · obtain ⟨op, next, found⟩ := active
        have inRange : thread < count := size ▸ (List.getElem?_eq_some_iff.mp found).1
        obtain ⟨expected, maintained⟩ := preserve pool.state pool.history thread time op inRange
          valid (holds op next found) (followed thread _ found).1
        refine ih _ ((step_threads_length handler pool _).trans size)
          (followed.step found expected) ?_ remaining
        rw [step_of_call found]
        exact maintained
      · have unchanged : pool.step handler (thread, time) = pool :=
          step_of_idle fun op next found => active ⟨op, next, found⟩
        simp only [run, List.foldl_cons, unchanged]
        rw [unchanged] at remaining
        exact ih pool size followed valid remaining

/-- Where every thread is, as its monitor sees it. -/
def stages (monitors : Nat → Monitor Op Res S α) (initial : Nat → S)
    (history : List (Entry Op Res τ)) (thread : Nat) : S :=
  (monitors thread).follow (initial thread) (own history thread)

theorem stages_snoc (monitors : Nat → Monitor Op Res S α) (initial : Nat → S)
    (history : List (Entry Op Res τ)) (thread : Nat) (time : τ) (event : Event Op Res) :
    stages monitors initial (history ++ [⟨thread, time, event⟩]) =
      update (stages monitors initial history) thread
        ((monitors thread).advance (stages monitors initial history thread) event.op
          event.result) :=
  foldl_own_snoc (fun thread stage event => (monitors thread).advance stage event.op event.result)
    initial history thread time event

/-- The rule for an invariant of the shared state and the stages of the threads. -/
theorem run_stages {count : Nat} (handler : Handler Op Res σ τ)
    (monitors : Nat → Monitor Op Res S α) (initial : Nat → S)
    (invariant : σ → (Nat → S) → Prop)
    (preserve : ∀ state history thread time op, thread < count →
      invariant state (stages monitors initial history) →
      condition state history thread time op →
      (monitors thread).guard (stages monitors initial history thread) op →
      (monitors thread).expects (stages monitors initial history thread) op
        (handler time op state).1 ∧
      invariant (handler time op state).2
        (update (stages monitors initial history) thread
          ((monitors thread).advance (stages monitors initial history thread) op
            (handler time op state).1))) (schedule : List (Nat × τ)) (pool : Pool Op Res α σ τ)
    (size : pool.threads.length = count) (followed : pool.Followed monitors initial)
    (valid : invariant pool.state (stages monitors initial pool.history))
    (along : pool.Along handler condition schedule) :
    (pool.run handler schedule).Followed monitors initial ∧
      invariant (pool.run handler schedule).state
        (stages monitors initial (pool.run handler schedule).history) := by
  refine run_invariant handler monitors initial
    (fun state history => invariant state (stages monitors initial history)) ?_ schedule pool size
    followed valid along
  intro state history thread time op inRange holds allowed guarded
  obtain ⟨expected, kept⟩ := preserve state history thread time op inRange holds allowed guarded
  refine ⟨expected, ?_⟩
  rw [stages_snoc]
  exact kept

theorem run_append (handler : Handler Op Res σ τ) (first second : List (Nat × τ))
    (pool : Pool Op Res α σ τ) :
    pool.run handler (first ++ second) = (pool.run handler first).run handler second :=
  List.foldl_append

theorem run_threads_length (handler : Handler Op Res σ τ) (schedule : List (Nat × τ))
    (pool : Pool Op Res α σ τ) :
    (pool.run handler schedule).threads.length = pool.threads.length := by
  induction schedule generalizing pool with
  | nil => rfl
  | cons choice rest ih =>
      exact (ih (pool.step handler choice)).trans (step_threads_length handler pool choice)

theorem run_of_finished
    (finished : ∀ (thread : Nat) op next, pool.threads[thread]? ≠ some (.call op next))
    (schedule : List (Nat × τ)) : pool.run handler schedule = pool := by
  induction schedule with
  | nil => rfl
  | cons choice rest ih =>
      rw [run, List.foldl_cons, step_of_idle (finished choice.1)]
      exact ih

theorem run_bind (handler : Handler Op Res σ τ) (time : τ) (thread : Nat)
    (program : Program Op Res β) (after : β → Program Op Res α) (pool : Pool Op Res α σ τ)
    (found : pool.threads[thread]? = some (program.bind after)) :
    ∃ turns, (pool.run handler (List.replicate turns (thread, time))).state =
        (program.exec handler (fun _ => time) pool.state).2 ∧
      (pool.run handler (List.replicate turns (thread, time))).threads =
        pool.threads.set thread (after (program.exec handler (fun _ => time) pool.state).1) := by
  induction program generalizing pool with
  | done result =>
      obtain ⟨inside, here⟩ := List.getElem?_eq_some_iff.mp found
      refine ⟨0, rfl, ?_⟩
      rw [Program.exec_done]
      change pool.threads = pool.threads.set thread ((Program.done result).bind after)
      rw [← here, List.set_getElem_self]
  | call op next ih =>
      have inRange : thread < pool.threads.length := (List.getElem?_eq_some_iff.mp found).1
      obtain ⟨turns, state, threads⟩ := ih (handler time op pool.state).1
        (pool.step handler (thread, time)) (by
          rw [step_of_call found]
          exact List.getElem?_set_self inRange)
      refine ⟨turns + 1, ?_, ?_⟩
      · rw [List.replicate_succ]
        refine state.trans ?_
        rw [step_of_call found]
        rfl
      · rw [List.replicate_succ]
        refine threads.trans ?_
        rw [step_of_call found, List.set_set]
        rfl

theorem run_alone (handler : Handler Op Res σ τ) (time : τ) (thread : Nat)
    (program : Program Op Res α) (pool : Pool Op Res α σ τ)
    (found : pool.threads[thread]? = some program) :
    ∃ turns, (pool.run handler (List.replicate turns (thread, time))).state =
        (program.exec handler (fun _ => time) pool.state).2 ∧
      (pool.run handler (List.replicate turns (thread, time))).threads =
        pool.threads.set thread (.done (program.exec handler (fun _ => time) pool.state).1) :=
  run_bind handler time thread program .done pool (by rw [Program.bind_done, found])

/-- Programs are finite, so a pool can always be run to its end. -/
theorem exists_finished (handler : Handler Op Res σ τ) (time : τ) (pool : Pool Op Res α σ τ) :
    ∃ schedule, (pool.run handler schedule).finished = true := by
  have first : ∀ count : Nat, ∃ schedule, ∀ thread < count, ∀ program : Program Op Res α,
      (pool.run handler schedule).threads[thread]? = some program →
        ∃ result, program = .done result := by
    intro count
    induction count with
    | zero => exact ⟨[], fun thread below => absurd below (Nat.not_lt_zero thread)⟩
    | succ count ih =>
        obtain ⟨schedule, ended⟩ := ih
        cases found : (pool.run handler schedule).threads[count]? with
        | none =>
            refine ⟨schedule, fun thread below program here => ?_⟩
            by_cases same : thread = count
            · rw [same, found] at here
              cases here
            · exact ended thread (by omega) program here
        | some program =>
            obtain ⟨turns, _, threads⟩ := run_alone handler time count program _ found
            refine ⟨schedule ++ List.replicate turns (count, time), fun thread below other => ?_⟩
            rw [run_append, threads, List.getElem?_set]
            split_ifs with same inside
            · intro here
              exact ⟨_, (Option.some.inj here).symm⟩
            · intro here
              cases here
            · exact ended thread (by omega) other
  obtain ⟨schedule, ended⟩ := first pool.threads.length
  refine ⟨schedule, finished_iff.mpr fun thread program found => ?_⟩
  have inside := (List.getElem?_eq_some_iff.mp found).1
  exact ended thread (run_threads_length handler schedule pool ▸ inside) program found

theorem along_of_readings {readings : τ → Prop} (schedule : List (Nat × τ))
    (pool : Pool Op Res α σ τ) (timely : ∀ choice ∈ schedule, readings choice.2) :
    pool.Along handler (fun _ _ _ time _ => readings time) schedule := by
  induction schedule generalizing pool with
  | nil => trivial
  | cons choice rest ih =>
      exact ⟨fun _ _ _ => timely choice (by simp),
        ih _ fun later member => timely later (by simp [member])⟩

theorem along_trivial (schedule : List (Nat × τ)) (pool : Pool Op Res α σ τ) :
    pool.Along handler (fun _ _ _ _ _ => True) schedule := by
  induction schedule generalizing pool with
  | nil => trivial
  | cons choice rest ih => exact ⟨fun _ _ _ => trivial, ih _⟩

theorem Along.append
    {first second : List (Nat × τ)}
    (before : pool.Along handler condition first)
    (later : (pool.run handler first).Along handler condition second) :
    pool.Along handler condition (first ++ second) := by
  induction first generalizing pool with
  | nil => exact later
  | cons choice rest ih => exact ⟨before.1, ih before.2 later⟩

theorem Along.of_append
    {first second : List (Nat × τ)}
    (along : pool.Along handler condition (first ++ second)) :
    pool.Along handler condition first ∧
      (pool.run handler first).Along handler condition second := by
  induction first generalizing pool with
  | nil => exact ⟨trivial, along⟩
  | cons choice rest ih =>
      obtain ⟨before, later⟩ := ih along.2
      exact ⟨⟨along.1, before⟩, later⟩

theorem Along.and {first second : σ → List (Entry Op Res τ) → Nat → τ → Op → Prop}
    (left : pool.Along handler first schedule) (right : pool.Along handler second schedule) :
    pool.Along handler (fun state history thread time op =>
      first state history thread time op ∧ second state history thread time op) schedule := by
  induction schedule generalizing pool with
  | nil => trivial
  | cons choice rest ih =>
      exact ⟨fun op next found => ⟨left.1 op next found, right.1 op next found⟩,
        ih left.2 right.2⟩

theorem run_kept (invariant : σ → Prop)
    (preserve : ∀ time op state, invariant state → invariant (handler time op state).2)
    (schedule : List (Nat × τ)) (initial : invariant pool.state) :
    invariant (pool.run handler schedule).state := by
  induction schedule generalizing pool with
  | nil => exact initial
  | cons choice rest ih =>
      refine ih ?_
      unfold step
      split
      · exact preserve _ _ _ initial
      · exact initial

/-- A property of the state that a step keeps exactly under a condition holds throughout
exactly if the condition does at every step. -/
theorem always_iff_along (invariant : σ → Prop)
    (kept : ∀ state history thread time op, invariant state →
      (invariant (handler time op state).2 ↔ condition state history thread time op))
    (schedule : List (Nat × τ)) (initial : invariant pool.state) :
    (∀ first rest, schedule = first ++ rest → invariant (pool.run handler first).state) ↔
      pool.Along handler condition schedule := by
  induction schedule generalizing pool with
  | nil =>
      refine iff_of_true (fun first rest split => ?_) trivial
      obtain ⟨rfl, _⟩ := List.append_eq_nil_iff.mp split.symm
      exact initial
  | cons choice later ih =>
      have moved : invariant (pool.step handler choice).state ↔
          ∀ op next, pool.threads[choice.1]? = some (.call op next) →
            condition pool.state pool.history choice.1 choice.2 op := by
        unfold step
        split
        · next op next found =>
            rw [kept _ pool.history choice.1 _ _ initial]
            constructor
            · intro holds other after same
              cases found.symm.trans same
              exact holds
            · intro all
              exact all op next found
        · next idle => exact iff_of_true initial fun op next found => absurd found (idle op next)
      constructor
      · intro always
        have now := always [choice] later rfl
        refine ⟨moved.mp now, (ih now).mp fun first rest split => ?_⟩
        exact always (choice :: first) rest (congrArg _ split)
      · intro along first rest split
        have now := moved.mpr along.1
        cases first with
        | nil => exact initial
        | cons head first =>
            obtain ⟨rfl, remaining⟩ := List.cons.inj split
            exact (ih now).mpr along.2 first rest remaining

def view {σ' : Type} (abstraction : σ → σ') (pool : Pool Op Res α σ τ) : Pool Op Res α σ' τ where
  threads := pool.threads
  state := abstraction pool.state
  history := pool.history

private theorem step_view {σ' : Type} {abstract : Handler Op Res σ' τ} (abstraction : σ → σ')
    (commutes : ∀ time op state, abstract time op (abstraction state) =
      ((handler time op state).1, abstraction (handler time op state).2)) (pool : Pool Op Res α σ τ)
    (choice : Nat × τ) :
    (pool.view abstraction).step abstract choice = (pool.step handler choice).view abstraction := by
  unfold step
  simp only [view, commutes]
  split <;> rfl

theorem Along.view {σ' : Type} {abstract : Handler Op Res σ' τ} {abstraction : σ → σ'}
    (commutes : ∀ time op state, abstract time op (abstraction state) =
      ((handler time op state).1, abstraction (handler time op state).2))
    {condition : σ' → List (Entry Op Res τ) → Nat → τ → Op → Prop}
    (along : pool.Along handler (fun state => condition (abstraction state)) schedule) :
    (pool.view abstraction).Along abstract condition schedule := by
  induction schedule generalizing pool with
  | nil => trivial
  | cons choice rest ih =>
      refine ⟨along.1, ?_⟩
      rw [step_view abstraction commutes]
      exact ih along.2

theorem run_view {σ' : Type} {abstract : Handler Op Res σ' τ} (abstraction : σ → σ')
    (commutes : ∀ time op state, abstract time op (abstraction state) =
      ((handler time op state).1, abstraction (handler time op state).2))
    (schedule : List (Nat × τ)) (pool : Pool Op Res α σ τ) :
    (pool.view abstraction).run abstract schedule = (pool.run handler schedule).view abstraction := by
  induction schedule generalizing pool with
  | nil => rfl
  | cons choice rest ih =>
      simp only [run, List.foldl_cons, step_view abstraction commutes]
      exact ih (pool.step handler choice)

/-- Every event of a run was the answer to an operation in the state its turn found. -/
theorem exists_turn
    {entry : Entry Op Res τ} (member : entry ∈ (pool.run handler schedule).history) :
    entry ∈ pool.history ∨ ∃ first rest, schedule = first ++ (entry.thread, entry.time) :: rest ∧
      (handler entry.time entry.event.op (pool.run handler first).state).1 =
        entry.event.result := by
  induction schedule generalizing pool with
  | nil => exact .inl member
  | cons choice later ih =>
      cases ih member with
      | inl reached =>
          unfold step at reached
          split at reached
          · cases List.mem_append.mp reached with
            | inl before => exact .inl before
            | inr last =>
                obtain rfl := List.mem_singleton.mp last
                exact .inr ⟨[], later, rfl, rfl⟩
          · exact .inl reached
      | inr turn =>
          obtain ⟨first, rest, split, answered⟩ := turn
          exact .inr ⟨choice :: first, rest, congrArg _ split, answered⟩

/-- The readings of an ordered schedule are no earlier than those before them. -/
theorem along_ordered [Preorder β] (clock : τ → β)
    (ordered : schedule.Pairwise fun earlier later => clock earlier.2 ≤ clock later.2)
    (earlier : ∀ entry ∈ pool.history, ∀ choice ∈ schedule, clock entry.time ≤ clock choice.2) :
    pool.Along handler (fun _ history _ time _ => ∀ entry ∈ history, clock entry.time ≤ clock time)
      schedule := by
  induction schedule generalizing pool with
  | nil => trivial
  | cons choice rest ih =>
      obtain ⟨first, ordered⟩ := List.pairwise_cons.mp ordered
      refine ⟨fun _ _ _ entry member => earlier entry member choice List.mem_cons_self,
        ih ordered fun entry member later after => ?_⟩
      unfold step at member
      split at member
      · cases List.mem_append.mp member with
        | inl before => exact earlier entry before later (List.mem_cons_of_mem _ after)
        | inr last =>
            obtain rfl := List.mem_singleton.mp last
            exact first later after
      · exact earlier entry member later (List.mem_cons_of_mem _ after)

theorem own_run_of_idle (schedule : List (Nat × τ))
    (idle : ∀ choice ∈ schedule, choice.1 = thread → pool.threads.length ≤ thread) :
    own (pool.run handler schedule).history thread = own pool.history thread := by
  induction schedule generalizing pool with
  | nil => rfl
  | cons choice rest ih =>
      have later : ∀ turn ∈ rest, turn.1 = thread →
          (pool.step handler choice).threads.length ≤ thread := fun turn member same =>
        (step_threads_length handler pool choice).le.trans
          (idle turn (List.mem_cons_of_mem _ member) same)
      refine (ih later).trans ?_
      unfold step
      split
      · next op next found =>
          have inside := (List.getElem?_eq_some_iff.mp found).1
          refine own_snoc_other _ _ _ fun same => ?_
          have outside := idle choice List.mem_cons_self same.symm
          omega
      · rfl

theorem step_of_done {result : α} (ended : pool.threads[thread]? = some (.done result))
    (choice : Nat × τ) :
    (pool.step handler choice).threads[thread]? = some (.done result) := by
  by_cases same : thread = choice.1
  · subst same
    rw [step_of_idle, ended]
    rw [ended]
    exact fun _ _ found => by cases found
  · rw [step_threads_other handler pool same, ended]

/-- A thread has that many steps less to make as the schedule has made. -/
theorem run_lasts (handler : Handler Op Res σ τ) {ending : α → Prop}
    {steps : Nat} {program : Program Op Res α} (found : pool.threads[thread]? = some program)
    (lasts : program.Lasts ending (steps + schedule.length)) :
    ∃ program, (pool.run handler schedule).threads[thread]? = some program ∧
      program.Lasts ending steps := by
  induction schedule generalizing pool program with
  | nil => exact ⟨program, found, lasts⟩
  | cons choice rest ih =>
      have fewer : program.Lasts ending (steps + rest.length) := fun events result run ends =>
        (Nat.le_succ _).trans (lasts events result run ends)
      by_cases here : thread = choice.1
      · subst here
        cases program with
        | done result => exact ih (step_of_done found choice) fewer
        | call op next =>
            have moved : (pool.step handler choice).threads[choice.1]? =
                some (next (handler choice.2 op pool.state).1) := by
              rw [step_of_call found]
              exact List.getElem?_set_self (List.getElem?_eq_some_iff.mp found).1
            exact ih moved fun events result run ends =>
              Nat.le_of_succ_le_succ (lasts _ result (.call run) ends)
      · exact ih ((step_threads_other handler pool here).trans found) fewer

/-- What is done later is appended, and none of it by a thread that has ended. -/
theorem run_history (handler : Handler Op Res σ τ) (schedule : List (Nat × τ))
    (pool : Pool Op Res α σ τ) : ∃ more, (pool.run handler schedule).history = pool.history ++ more ∧
      ∀ entry ∈ more, ∀ result, pool.threads[entry.thread]? ≠ some (.done result) := by
  induction schedule generalizing pool with
  | nil => exact ⟨[], (List.append_nil _).symm, fun _ member => nomatch member⟩
  | cons choice rest ih =>
      obtain ⟨more, grown, active⟩ := ih (pool.step handler choice)
      have still : ∀ entry ∈ more, ∀ result, pool.threads[entry.thread]? ≠ some (.done result) :=
        fun entry member result ended => active entry member result (step_of_done ended choice)
      by_cases turn : ∃ op next, pool.threads[choice.1]? = some (.call op next)
      · obtain ⟨op, next, found⟩ := turn
        have stepped : (pool.step handler choice).history = pool.history ++
            [⟨choice.1, choice.2, ⟨op, (handler choice.2 op pool.state).1⟩⟩] := by
          rw [step_of_call found]
        rw [stepped, List.append_assoc] at grown
        refine ⟨_ :: more, grown, ?_⟩
        intro entry member result ended
        rcases List.mem_cons.mp member with rfl | later
        · cases found.symm.trans ended
        · exact still entry later result ended
      · push Not at turn
        have same : (pool.step handler choice).history = pool.history := by rw [step_of_idle turn]
        rw [same] at grown
        exact ⟨more, grown, still⟩

/-- One thread has gone on. -/
def Advanced (after before : List (Program Op Res α)) : Prop :=
  ∃ (thread : Nat) (op : Op) (next : Res op → Program Op Res α) (answer : Res op),
    before[thread]? = some (.call op next) ∧ after = before.set thread (next answer)

theorem acc_advanced (threads : List (Program Op Res α)) : Acc Advanced threads := by
  induction threads with
  | nil => exact ⟨_, fun _ ⟨_, _, _, _, found, _⟩ => nomatch found⟩
  | cons program rest accessible =>
      -- The first thread goes on only finitely often, whatever the others do meanwhile.
      induction program generalizing rest with
      | done result =>
          induction accessible with
          | intro rest _ ih =>
              refine ⟨_, fun after ⟨thread, op, next, answer, found, same⟩ => ?_⟩
              cases thread with
              | zero => cases found
              | succ thread =>
                  rw [same, List.set_cons_succ]
                  exact ih _ ⟨thread, op, next, answer, found, rfl⟩
      | call op next children =>
          induction accessible with
          | intro rest smaller ih =>
              refine ⟨_, fun after ⟨thread, op, next, answer, found, same⟩ => ?_⟩
              cases thread with
              | zero =>
                  cases found
                  rw [same, List.set_cons_zero]
                  exact children answer rest ⟨rest, smaller⟩
              | succ thread =>
                  rw [same, List.set_cons_succ]
                  exact ih _ ⟨thread, op, next, answer, found, rfl⟩

/-- A run can be continued until a goal is reached, if short of it some thread can always go on:
every program ends after finitely many calls. -/
theorem exists_reached_of_enabled
    {condition allowed : σ → List (Entry Op Res τ) → Nat → τ → Op → Prop}
    (stronger : ∀ {state history thread time op}, allowed state history thread time op →
      condition state history thread time op) (goal : Pool Op Res α σ τ → Prop)
    (start : Pool Op Res α σ τ)
    (enabled : ∀ reached, start.Along handler condition reached →
      ¬goal (start.run handler reached) → ∃ thread time op next,
        (start.run handler reached).threads[thread]? = some (.call op next) ∧
          allowed (start.run handler reached).state (start.run handler reached).history thread time
            op) (legal : start.Along handler condition schedule) :
    ∃ more, (start.run handler schedule).Along handler allowed more ∧
      goal (start.run handler (schedule ++ more)) := by
  generalize threads : (start.run handler schedule).threads = programs
  induction acc_advanced programs generalizing schedule with
  | intro programs _ ih =>
      by_cases reached : goal (start.run handler schedule)
      · exact ⟨[], trivial, by rwa [List.append_nil]⟩
      · obtain ⟨thread, time, op, next, found, holds⟩ := enabled schedule legal reached
        have stepped : start.run handler (schedule ++ [(thread, time)]) =
            (start.run handler schedule).step handler (thread, time) := run_append ..
        have extended : start.Along handler condition (schedule ++ [(thread, time)]) :=
          legal.append (Along.of_call found (stronger holds) trivial)
        obtain ⟨more, along, ended⟩ := ih _
          ⟨thread, op, next, (handler time op (start.run handler schedule).state).1,
            threads ▸ found, rfl⟩ extended (by rw [stepped, step_of_call found, threads])
        rw [List.append_assoc] at ended
        exact ⟨(thread, time) :: more, Along.of_call found holds (stepped ▸ along), ended⟩

/-- Two environments that answer alike as long as time does not run backwards, from states
that stay related: the same threads get the same answers and take the same course. -/
theorem run_related {σ' : Type} {κ : Type} [Preorder κ] (clock : τ → κ)
    {other : Handler Op Res σ' τ} {allowed : Op → Prop} {answers : (op : Op) → Res op → Prop}
    {results : α → Prop} (readings : τ → Prop) (relation : κ → σ → σ' → Prop)
    (respects : ∀ before time op left right, relation before left right → before ≤ clock time →
      readings time → allowed op →
      (handler time op left).1 = (other time op right).1 ∧ answers op (handler time op left).1 ∧
        relation (clock time) (handler time op left).2 (other time op right).2)
    (schedule : List (Nat × τ))
    (ordered : schedule.Pairwise fun earlier later => clock earlier.2 ≤ clock later.2)
    (timely : ∀ choice ∈ schedule, readings choice.2) {left : Pool Op Res α σ τ}
    {right : Pool Op Res α σ' τ} (threads : left.threads = right.threads)
    (permitted : ∀ (thread : Nat) program, left.threads[thread]? = some program →
      (Monitor.permits allowed answers results).Accepts () program) {start : κ}
    (early : ∀ choice ∈ schedule, start ≤ clock choice.2)
    (related : relation start left.state right.state) :
    (left.run handler schedule).threads = (right.run other schedule).threads := by
  induction schedule generalizing left right start with
  | nil => exact threads
  | cons choice rest ih =>
      obtain ⟨thread, time⟩ := choice
      obtain ⟨first, ordered⟩ := List.pairwise_cons.mp ordered
      have timely' : ∀ choice ∈ rest, readings choice.2 := fun choice member =>
        timely choice (List.mem_cons_of_mem _ member)
      by_cases turn : ∃ op next, left.threads[thread]? = some (.call op next)
      · obtain ⟨op, next, found⟩ := turn
        have permit := permitted thread _ found
        obtain ⟨same, answered, kept⟩ := respects start time op left.state right.state related
          (early (thread, time) List.mem_cons_self) (timely (thread, time) List.mem_cons_self)
          permit.1
        refine ih ordered timely' ?_ ?_ first (by
          rw [step_of_call found, step_of_call (threads ▸ found)]
          exact kept)
        · rw [step_of_call found, step_of_call (threads ▸ found), threads, same]
        · intro index program lookup
          rw [step_of_call found] at lookup
          by_cases moved : index = thread
          · subst moved
            rw [List.getElem?_set_self (List.getElem?_eq_some_iff.mp found).1] at lookup
            rw [← Option.some.inj lookup]
            exact permit.2 _ answered
          · rw [List.getElem?_set_ne (Ne.symm moved)] at lookup
            exact permitted index program lookup
      · push Not at turn
        have stays : left.step handler (thread, time) = left := step_of_idle turn
        have others : right.step other (thread, time) = right := step_of_idle (threads ▸ turn)
        have early' : ∀ choice ∈ rest, start ≤ clock choice.2 := fun choice member =>
          early choice (List.mem_cons_of_mem _ member)
        refine ih ordered timely' ?_ ?_ early' ?_
        · rw [stays, others, threads]
        · rw [stays]
          exact permitted
        · rw [stays, others]
          exact related

end Pool

end Effect
