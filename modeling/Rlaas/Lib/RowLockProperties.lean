import Rlaas.Lib.RowLock
import Mathlib.Order.Interval.Finset.Nat
import Mathlib.Tactic.SplitIfs

/-! Transactions that select a row for update and write it back. As long as each of them
finds the row they come one after the other; one that finds no row holds no lock, and
writes what it has decided on whatever the others have written meanwhile. -/

set_option autoImplicit false

namespace RowLock

open Effect Function Finset

variable {ρ α : Type}
variable {row : ρ}

/-- Transactions on one row: what each of them sees of it, what it writes, and how many
writes a version of the row leaves. -/
structure Protocol (ρ : Type) where
  count : Nat
  visible : Nat → ρ → Bool
  rule : Nat → Option ρ → Option ρ
  /-- What the first writes is visible to the second. -/
  lasts : Nat → Nat → Bool
  lasting : ∀ tx other seen row, rule tx seen = some row → visible other row = lasts tx other
  /-- Visible when the first transaction starts. -/
  start : ρ → Bool
  earlier : ∀ tx < count, ∀ row, visible tx row = true → start row = true
  left : Option ρ → Nat
  spends : ∀ tx seen row, rule tx seen = some row → left seen = left (some row) + 1
  stops : ∀ tx seen, rule tx seen = none → left seen = 0

namespace Stage

def answered : Stage ρ → Bool
  | .leaving answer => answer
  | .ended answer => answer
  | _ => false

end Stage

namespace Protocol

variable (protocol : Protocol ρ)

/-- The transactions that have committed what they wrote. -/
def successes (stages : Nat → Stage ρ) : Finset Nat :=
  (range protocol.count).filter fun tx => (stages tx).answered = true

/-- A transaction that finds no row does not write, or every one of them finds the row:
the initial one, and what another has written, if anything is. -/
def Steady (initial : Option ρ) : Prop :=
  protocol.left none = 0 ∨
    ((∀ tx < protocol.count, initial.any (protocol.visible tx) = true) ∧
      (protocol.left (initial.filter protocol.start) = 0 ∨
        ∀ tx < protocol.count, ∀ other < protocol.count, tx ≠ other →
          protocol.lasts tx other = true))

/-- What the lock says about a transaction: from its choice to its end it holds the row
and the committed version is the one it has seen. -/
def Fits (cell : Cell ρ) (tx : Nat) : Stage ρ → Prop
  | .chosen seen row => cell.holder = some tx ∧ cell.pending = none ∧
      ∃ old, cell.committed = some old ∧ seen = some old ∧ protocol.start old = true ∧
        protocol.rule tx (some old) = some row
  | .written row => cell.holder = some tx ∧ cell.pending = some row ∧
      ∃ old, cell.committed = some old ∧ protocol.start old = true ∧
        protocol.rule tx (some old) = some row
  | .leaving false => True
  | _ => cell.holder ≠ some tx

def worth (committed : Option ρ) : Nat :=
  committed.elim 0 fun row => if protocol.start row then protocol.left (some row) else 0

structure Orderly (initial : Option ρ) (cell : Cell ρ) (stages : Nat → Stage ρ) : Prop where
  fits : ∀ tx < protocol.count, protocol.Fits cell tx (stages tx)
  clean : cell.holder = none → cell.pending = none
  spent : (protocol.successes stages).card + protocol.worth cell.committed ≤
    protocol.left (initial.filter protocol.start)
  source : cell.committed = initial ∨ ∃ tx ∈ protocol.successes stages, ∃ seen row,
    protocol.rule tx seen = some row ∧ cell.committed = some row

variable {protocol} {initial : Option ρ} {cell after : Cell ρ} {stages : Nat → Stage ρ} {tx : Nat}
  {stage : Stage ρ}

theorem mem_successes : tx ∈ protocol.successes stages ↔
    tx < protocol.count ∧ (stages tx).answered = true := by
  rw [successes, mem_filter, mem_range]

theorem successes_update_of_eq (same : stage.answered = (stages tx).answered) :
    protocol.successes (update stages tx stage) = protocol.successes stages := by
  ext other
  rw [mem_successes, mem_successes]
  by_cases own : other = tx
  · subst own
    rw [update_self, same]
  · rw [update_of_ne own]

theorem successes_update_of_answered (inRange : tx < protocol.count) (yes : stage.answered = true) :
    protocol.successes (update stages tx stage) =
      insert tx (protocol.successes stages) := by
  ext other
  rw [mem_insert, mem_successes, mem_successes]
  by_cases own : other = tx
  · subst own
    rw [update_self]
    simp [inRange, yes]
  · rw [update_of_ne own]
    simp [own]

theorem worth_le_left (row : ρ) : protocol.worth (some row) ≤ protocol.left (some row) := by
  unfold worth
  rw [Option.elim]
  split_ifs
  · exact le_rfl
  · exact Nat.zero_le _

theorem worth_of_start (visible : protocol.start row = true) :
    protocol.worth (some row) = protocol.left (some row) := by
  rw [worth, Option.elim, if_pos visible]

/-- Whoever writes holds the row, so the others are not about to write. -/
theorem Fits.of_other {other : Nat} (fits : protocol.Fits cell other stage)
    (notHeld : cell.holder ≠ some other) (still : after.holder ≠ some other) :
    protocol.Fits after other stage := by
  cases stage with
  | chosen _ _ => exact absurd fits.1 notHeld
  | written _ => exact absurd fits.1 notHeld
  | idle => exact still
  | begun => exact still
  | leaving answer =>
      cases answer with
      | false => trivial
      | true => exact still
  | ended _ => exact still

section

variable (orderly : protocol.Orderly initial cell stages)

include orderly

theorem Orderly.keep (committed : after.committed = cell.committed)
    (answered : stage.answered = (stages tx).answered) (own : protocol.Fits after tx stage)
    (others : ∀ other, other ≠ tx → after.holder = some other → cell.holder = some other)
    (held : ∀ other, other ≠ tx → cell.holder = some other → after = cell)
    (clean : after.holder = none → after.pending = none) :
    protocol.Orderly initial after (update stages tx stage) := by
  refine ⟨?_, clean, ?_, ?_⟩
  · intro other inRange
    by_cases same : other = tx
    · subst same
      rw [update_self]
      exact own
    · rw [update_of_ne same]
      by_cases theirs : cell.holder = some other
      · rw [held other same theirs]
        exact orderly.fits other inRange
      · exact (orderly.fits other inRange).of_other theirs fun now => theirs (others other same now)
  · rw [successes_update_of_eq answered, committed]
    exact orderly.spent
  · rw [successes_update_of_eq answered, committed]
    exact orderly.source

/-- Under a steady protocol nobody writes who has found no row. -/
theorem Orderly.visible_of_choice (steady : protocol.Steady initial) (inRange : tx < protocol.count)
    (begun : stages tx = .begun) (choice : protocol.rule tx none = some row) :
    ∃ old, cell.committed = some old ∧ protocol.visible tx old = true := by
  rcases steady with never | ⟨all, rest⟩
  · rw [protocol.spends tx none row choice] at never
    cases never
  · rcases orderly.source with unchanged | ⟨other, success, seen, new, wrote, committed⟩
    · rw [unchanged]
      exact (Option.any_eq_true _ _).mp (all tx inRange)
    · refine ⟨new, committed, ?_⟩
      obtain ⟨otherInRange, answered⟩ := mem_successes.mp success
      have different : other ≠ tx := by
        rintro rfl
        rw [begun] at answered
        cases answered
      rcases rest with nothing | lasts
      · have spent := orderly.spent
        rw [nothing] at spent
        have positive := card_pos.mpr ⟨other, success⟩
        omega
      · rw [protocol.lasting other tx seen new wrote]
        exact lasts other otherInRange tx inRange different

theorem Orderly.move_on (answered : stage.answered = (stages tx).answered)
    (own : protocol.Fits cell tx stage) :
    protocol.Orderly initial cell (update stages tx stage) :=
  orderly.keep rfl answered own (fun _ _ holds => holds) (fun _ _ _ => rfl) orderly.clean

theorem Orderly.release (answered : stage.answered = (stages tx).answered)
    (own : cell.holder ≠ some tx → protocol.Fits cell tx stage)
    (free : ∀ free : Cell ρ, free.holder = none → protocol.Fits free tx stage) :
    protocol.Orderly initial (cell.release tx) (update stages tx stage) := by
  by_cases holds : cell.holder = some tx
  · rw [Cell.release, if_pos holds]
    refine orderly.keep rfl answered (free _ rfl) nofun ?_ fun _ => rfl
    intro other different theirs
    rw [holds] at theirs
    exact absurd (Option.some.inj theirs).symm different
  · rw [Cell.release, if_neg holds]
    exact orderly.move_on answered (own holds)

theorem Orderly.select (steady : protocol.Steady initial) (inRange : tx < protocol.count)
    (begun : stages tx = .begun)
    (proceeds : cell.waits protocol.visible (.selectForUpdate tx) = false) (granted : α → Bool) :
    let answer := cell.perform protocol.visible none (.selectForUpdate tx)
    protocol.Orderly initial answer.2 (update stages tx
      ((watch (protocol.rule tx) granted tx).advance .begun (.selectForUpdate tx) answer.1)) := by
  have notHeld : cell.holder ≠ some tx := by
    have fits := orderly.fits tx inRange
    rw [begun] at fits
    exact fits
  have found : cell.found protocol.visible tx = cell.committed.filter (protocol.visible tx) := by
    rw [Cell.found, Cell.latest, if_neg notHeld]
  cases seen : cell.committed.filter (protocol.visible tx) with
  | none =>
      simp only [Cell.perform, found, seen, watch]
      cases choice : protocol.rule tx none with
      | none => exact orderly.move_on (by rw [begun]; rfl) trivial
      | some row =>
          obtain ⟨old, committed, visible⟩ := orderly.visible_of_choice steady inRange begun choice
          rw [committed, Option.filter_some, if_pos visible] at seen
          cases seen
  | some old =>
      obtain ⟨committed, visible⟩ := Option.filter_eq_some_iff.mp seen
      have free : cell.holder = none := by
        rw [Cell.waits, found, seen, Option.isSome_some, Bool.and_true, Cell.heldByOther] at proceeds
        cases holder : cell.holder with
        | none => rfl
        | some other =>
            rw [holder] at proceeds notHeld
            simp only [Option.any_some, bne_eq_false_iff_eq] at proceeds
            exact absurd (congrArg some proceeds) notHeld
      simp only [Cell.perform, found, seen, watch]
      refine orderly.keep rfl ?_ ?_ ?_ ?_ ?_
      · cases protocol.rule tx (some old) <;> rw [begun] <;> rfl
      · cases choice : protocol.rule tx (some old) with
        | none => trivial
        | some row => exact ⟨rfl, orderly.clean free, old, committed, rfl,
            protocol.earlier tx inRange old visible, choice⟩
      · intro other different theirs
        exact absurd (Option.some.inj theirs).symm different
      · intro other different theirs
        rw [free] at theirs
        cases theirs
      · intro free
        cases free

theorem Orderly.write {seen : Option ρ} (chosen : stages tx = .chosen seen row)
    (inRange : tx < protocol.count) :
    protocol.Orderly initial (cell.write tx row) (update stages tx (.written row)) := by
  have fits := orderly.fits tx inRange
  rw [chosen] at fits
  obtain ⟨holds, _, old, committed, _, visible, choice⟩ := fits
  refine orderly.keep rfl (by rw [chosen]; rfl) ⟨rfl, rfl, old, committed, visible, choice⟩ ?_ ?_ nofun
  · intro other different theirs
    exact absurd (Option.some.inj theirs).symm different
  · intro other different theirs
    rw [holds] at theirs
    exact absurd (Option.some.inj theirs).symm different

theorem Orderly.publish (written : stages tx = .written row) (inRange : tx < protocol.count) :
    protocol.Orderly initial (cell.publish tx) (update stages tx (.leaving true)) := by
  have fits := orderly.fits tx inRange
  rw [written] at fits
  obtain ⟨holds, pending, old, committed, visible, choice⟩ := fits
  have fresh : tx ∉ protocol.successes stages := by
    intro success
    have answered := (mem_successes.mp success).2
    rw [written] at answered
    cases answered
  have grown : protocol.successes (update stages tx (.leaving true)) =
      insert tx (protocol.successes stages) := successes_update_of_answered inRange rfl
  rw [Cell.publish, if_pos holds, pending, Option.some_or]
  refine ⟨?_, fun _ => rfl, ?_, ?_⟩
  · intro other otherInRange
    by_cases same : other = tx
    · subst same
      rw [update_self]
      exact nofun
    · rw [update_of_ne same]
      refine (orderly.fits other otherInRange).of_other ?_ nofun
      rw [holds]
      exact fun theirs => same (Option.some.inj theirs).symm
  · have spent := orderly.spent
    have atMost := protocol.worth_le_left row
    rw [committed, worth_of_start visible, protocol.spends tx _ row choice] at spent
    rw [grown, card_insert_of_notMem fresh]
    dsimp only
    omega
  · rw [grown]
    exact .inr ⟨tx, mem_insert_self _ _, some old, row, choice, rfl⟩

end

theorem Orderly.step {op : Op ρ} {fault : Option String} (granted : α → Bool)
    (orderly : protocol.Orderly initial cell stages) (steady : protocol.Steady initial)
    (inRange : tx < protocol.count) (move : Move tx (stages tx) op)
    (proceeds : fault ≠ none ∨ cell.waits protocol.visible op = false) :
    let answer := cell.perform protocol.visible fault op
    protocol.Orderly initial answer.2 (update stages tx
      ((watch (protocol.rule tx) granted tx).advance (stages tx) op answer.1)) := by
  have fits := orderly.fits tx inRange
  generalize here : stages tx = stage at move fits
  cases move with
  | begin =>
      cases fault with
      | none => exact orderly.move_on (by rw [here]; rfl) fits
      | some err => exact orderly.move_on (by rw [here]; rfl) fits
  | select =>
      cases fault with
      | none => exact orderly.select steady inRange here (proceeds.resolve_left (· rfl)) granted
      | some err => exact orderly.move_on (by rw [here]; rfl) trivial
  | upsert =>
      cases fault with
      | none => exact orderly.write here inRange
      | some err => exact orderly.move_on (by rw [here]; rfl) trivial
  | update =>
      cases fault with
      | none =>
          obtain ⟨holds, pending, old, committed, _⟩ := fits
          have present : (cell.latest tx).isSome = true := by
            rw [Cell.latest, if_pos holds, pending, committed]
            rfl
          simp only [Cell.perform, if_pos present]
          exact orderly.write here inRange
      | some err => exact orderly.move_on (by rw [here]; rfl) trivial
  | commit =>
      cases fault with
      | none => exact orderly.publish here inRange
      | some err =>
          exact orderly.release (by rw [here]; rfl) (fun _ => trivial) fun _ _ => trivial
  | @leave answer =>
      have freed : ∀ free : Cell ρ, free.holder = none → protocol.Fits free tx (.ended answer) := by
        intro free none held
        rw [none] at held
        cases held
      cases fault with
      | none => exact orderly.release (by rw [here]; rfl) (fun notHeld => notHeld) freed
      | some _ => exact orderly.release (by rw [here]; rfl) (fun notHeld => notHeld) freed

theorem orderly_start (initial : Option ρ) :
    protocol.Orderly initial { committed := initial } fun _ => .idle := by
  refine ⟨fun _ _ => nofun, fun _ => rfl, ?_, .inl rfl⟩
  have none : protocol.successes (fun _ => .idle) = ∅ :=
    filter_eq_empty_iff.mpr fun _ _ => nofun
  rw [none, card_empty, Nat.zero_add]
  cases initial with
  | none => exact Nat.zero_le _
  | some row =>
      by_cases visible : protocol.start row = true
      · rw [worth_of_start visible, Option.filter_some, if_pos visible]
      · rw [worth, Option.elim, if_neg visible]
        exact Nat.zero_le _

end Protocol

variable {σ τ : Type}

namespace Protocol

variable {protocol : Protocol ρ} {granted : α → Bool} {initial : Option ρ}

def monitors (protocol : Protocol ρ) (granted : α → Bool) (tx : Nat) :
    Monitor (Op ρ) Res (Stage ρ) α :=
  watch (protocol.rule tx) granted tx

def stagesOf (protocol : Protocol ρ) (granted : α → Bool) (pool : Pool (Op ρ) Res α σ τ) :
    Nat → Stage ρ :=
  Pool.stages (protocol.monitors granted) (fun _ => .idle) pool.history

theorem ended_of_accept {tx : Nat} {stage : Stage ρ} {result : α}
    (accepted : (protocol.monitors granted tx).accept stage result) :
    stage = .ended (granted result) := by
  cases stage with
  | ended answer => exact congrArg Stage.ended accepted.symm
  | idle => exact accepted.elim
  | begun => exact accepted.elim
  | chosen _ _ => exact accepted.elim
  | written _ => exact accepted.elim
  | leaving _ => exact accepted.elim

theorem returned_subset {pool : Pool (Op ρ) Res α σ τ} (size : pool.threads.length = protocol.count)
    (followed : pool.Followed (protocol.monitors granted) fun _ => .idle) :
    returned granted pool ⊆ protocol.successes (protocol.stagesOf granted pool) := by
  intro tx member
  obtain ⟨inRange, yes⟩ := mem_filter.mp member
  rw [mem_range, size] at inRange
  refine mem_successes.mpr ⟨inRange, ?_⟩
  cases located : pool.threads[tx]? with
  | none =>
      rw [located] at yes
      cases yes
  | some program =>
      have accepted := followed tx program located
      rw [located] at yes
      cases program with
      | call op next => cases yes
      | done result =>
          have ended : protocol.stagesOf granted pool tx = .ended (granted result) :=
            ended_of_accept accepted
          rw [ended]
          exact yes

/-- Under a steady protocol no more transactions succeed than the row leaves writes. -/
theorem returned_le_of_steady {threads : List (Program (Op ρ) Res α)}
    (size : threads.length = protocol.count)
    (accepted : ∀ tx program, threads[tx]? = some program →
      (protocol.monitors granted tx).Accepts .idle program)
    (steady : protocol.Steady initial) {schedule : List (Nat × Option String)}
    (legal : Legal protocol.visible threads initial schedule) :
    (returned granted (outcome protocol.visible threads initial schedule)).card ≤
      protocol.left (initial.filter protocol.start) := by
  obtain ⟨followed, orderly⟩ := Pool.run_stages (Cell.perform protocol.visible)
    (protocol.monitors granted) (fun _ => .idle) (protocol.Orderly initial) (by
      intro cell history tx fault op inRange orderly proceeds move
      exact ⟨trivial, orderly.step granted steady inRange move proceeds⟩)
    schedule _ size (Pool.followed_start accepted) (orderly_start initial) legal
  have size' := (Pool.run_threads_length (Cell.perform protocol.visible) schedule
    (Pool.start threads { committed := initial })).trans size
  have subset := card_le_card (returned_subset size' followed)
  exact subset.trans ((Nat.le_add_right _ _).trans orderly.spent)

/-- Some interleaving brings the row and the transactions there. -/
def Scene (protocol : Protocol ρ) (granted : α → Bool) (threads : List (Program (Op ρ) Res α))
    (initial : Option ρ) (cell : Cell ρ) (stages : Nat → Stage ρ) : Prop :=
  ∃ schedule, Legal protocol.visible threads initial schedule ∧
    let pool := outcome protocol.visible threads initial schedule
    pool.Followed (protocol.monitors granted) (fun _ => .idle) ∧ pool.state = cell ∧
      protocol.stagesOf granted pool = stages

namespace Scene

variable {threads : List (Program (Op ρ) Res α)} {cell : Cell ρ} {stages : Nat → Stage ρ} {tx : Nat}
  {committed : Option ρ}

theorem beginning (initial : Option ρ) (accepted : ∀ tx program, threads[tx]? = some program →
      (protocol.monitors granted tx).Accepts .idle program) :
    protocol.Scene granted threads initial { committed := initial } fun _ => .idle :=
  ⟨[], trivial, Pool.followed_start accepted, rfl, rfl⟩

/-- A transaction that has not finished has a next statement, and gets there if it need not
wait. -/
theorem next (scene : protocol.Scene granted threads initial cell stages)
    (inRange : tx < threads.length) (active : ∀ answer, stages tx ≠ .ended answer) :
    ∃ op, Move tx (stages tx) op ∧ (cell.waits protocol.visible op = false →
      protocol.Scene granted threads initial (cell.perform protocol.visible none op).2
        (update stages tx ((protocol.monitors granted tx).advance (stages tx) op
          (cell.perform protocol.visible none op).1))) := by
  obtain ⟨schedule, legal, followed, rfl, rfl⟩ := scene
  generalize run : outcome protocol.visible threads initial schedule = pool at followed active ⊢
  have size : pool.threads.length = threads.length := by
    rw [← run]
    exact Pool.run_threads_length _ _ _
  obtain ⟨program, located⟩ : ∃ program, pool.threads[tx]? = some program :=
    ⟨_, List.getElem?_eq_getElem (size ▸ inRange)⟩
  have accepted := followed tx program located
  cases program with
  | done result => exact absurd (ended_of_accept accepted) (active _)
  | call op following =>
      refine ⟨op, accepted.1, fun ready => ?_⟩
      have stepped : pool.step (Cell.perform protocol.visible) (tx, none) = _ :=
        Pool.step_of_call located
      refine ⟨schedule ++ [(tx, none)], Pool.Along.append legal ⟨?_, trivial⟩, ?_⟩
      · intro op' next' found
        rw [← outcome, run, located] at found
        cases found
        rw [← outcome, run]
        exact .inr ready
      · rw [outcome, Pool.run_append, ← outcome, run]
        refine ⟨followed.step located trivial, ?_, ?_⟩
        · exact congrArg Pool.state stepped
        · refine (congrArg (fun pool => protocol.stagesOf granted pool) stepped).trans ?_
          exact Pool.stages_snoc _ _ _ _ _ _

theorem begin (scene : protocol.Scene granted threads initial cell stages)
    (inRange : tx < threads.length) (idle : stages tx = .idle) :
    protocol.Scene granted threads initial cell (update stages tx .begun) := by
  obtain ⟨op, move, scene'⟩ := scene.next inRange (by rw [idle]; exact nofun)
  rw [idle] at move scene'
  cases move with
  | begin => exact scene' rfl

theorem leave (scene : protocol.Scene granted threads initial { committed := committed } stages)
    (inRange : tx < threads.length) {answer : Bool} (leaving : stages tx = .leaving answer) :
    protocol.Scene granted threads initial { committed := committed }
      (update stages tx (.ended answer)) := by
  obtain ⟨op, move, scene'⟩ := scene.next inRange (by rw [leaving]; exact nofun)
  rw [leaving] at move scene'
  cases move with
  | leave => exact scene' rfl

theorem commit (scene : protocol.Scene granted threads initial
      ⟨committed, some tx, some row⟩ stages) (inRange : tx < threads.length)
    (written : stages tx = .written row) :
    protocol.Scene granted threads initial { committed := some row }
      (update stages tx (.leaving true)) := by
  obtain ⟨op, move, scene'⟩ := scene.next inRange (by rw [written]; exact nofun)
  rw [written] at move scene'
  cases move with
  | commit =>
      have scene'' := scene' rfl
      rw [Cell.perform, Cell.publish, if_pos rfl] at scene''
      exact scene''

theorem finish {seen : Option ρ} {holder : Option Nat}
    (scene : protocol.Scene granted threads initial ⟨committed, holder, none⟩ stages)
    (inRange : tx < threads.length) (chosen : stages tx = .chosen seen row)
    (free : holder.any (· != tx) = false) (present : seen.isSome = true → committed.isSome = true) :
    protocol.Scene granted threads initial { committed := some row }
      (update stages tx (.ended true)) := by
  have written : protocol.Scene granted threads initial ⟨committed, some tx, some row⟩
      (update stages tx (.written row)) := by
    obtain ⟨op, move, scene'⟩ := scene.next inRange (by rw [chosen]; exact nofun)
    rw [chosen] at move scene'
    cases move with
    | upsert => exact scene' free
    | update =>
        have scene'' := scene' free
        have found : (Cell.latest tx ⟨committed, holder, none⟩).isSome = true := by
          rw [Cell.latest, Option.none_or, ite_self]
          exact present rfl
        simp only [Cell.perform, if_pos found] at scene''
        exact scene''
  have committed' := written.commit inRange (update_self _ _ _)
  rw [update_idem] at committed'
  have ended := committed'.leave inRange (update_self _ _ _)
  rw [update_idem] at ended
  exact ended

theorem choose (scene : protocol.Scene granted threads initial { committed := committed } stages)
    (inRange : tx < threads.length) (idle : stages tx = .idle)
    (choice : protocol.rule tx (committed.filter (protocol.visible tx)) = some row) :
    protocol.Scene granted threads initial
      ⟨committed, (committed.filter (protocol.visible tx)).map fun _ => tx, none⟩
      (update stages tx (.chosen (committed.filter (protocol.visible tx)) row)) := by
  have begun := scene.begin inRange idle
  obtain ⟨op, move, scene'⟩ := begun.next inRange (by rw [update_self]; exact nofun)
  rw [update_self] at move scene'
  rw [update_idem] at scene'
  cases move with
  | select =>
      have scene'' := scene' rfl
      have found : Cell.found protocol.visible tx { committed := committed } =
          committed.filter (protocol.visible tx) := rfl
      cases seen : committed.filter (protocol.visible tx) with
      | none =>
          rw [seen] at found choice
          simp only [Cell.perform, found, monitors, watch, choice] at scene''
          exact scene''
      | some old =>
          rw [seen] at found choice
          simp only [Cell.perform, found, monitors, watch, choice] at scene''
          exact scene''

theorem solo (scene : protocol.Scene granted threads initial { committed := committed } stages)
    (inRange : tx < threads.length) (idle : stages tx = .idle)
    (choice : protocol.rule tx (committed.filter (protocol.visible tx)) = some row) :
    protocol.Scene granted threads initial { committed := some row }
      (update stages tx (.ended true)) := by
  have ended := (scene.choose inRange idle choice).finish inRange (update_self _ _ _)
    (by cases committed.filter (protocol.visible tx) <;> simp) (by
      intro found
      obtain ⟨old, seen⟩ := Option.isSome_iff_exists.mp found
      rw [(Option.filter_eq_some_iff.mp seen).1]
      rfl)
  rw [update_idem] at ended
  exact ended

/-- Transactions one after the other, while there are writes left for all of them in
whatever they can see. -/
theorem many {txs : List Nat} {budget : Nat}
    (scene : protocol.Scene granted threads initial { committed := committed } stages)
    (distinct : txs.Nodup) (waiting : ∀ tx ∈ txs, tx < threads.length ∧ stages tx = .idle)
    (enough : txs.length ≤ budget) (missing : budget ≤ protocol.left none)
    (visible : ∀ tx < threads.length,
      budget ≤ protocol.left (committed.filter (protocol.visible tx))) :
    ∃ committed' stages', protocol.Scene granted threads initial { committed := committed' } stages' ∧
      (∀ tx < threads.length,
        budget - txs.length ≤ protocol.left (committed'.filter (protocol.visible tx))) ∧
      (∀ tx ∈ txs, stages' tx = .ended true) ∧ ∀ tx, tx ∉ txs → stages' tx = stages tx := by
  induction txs generalizing committed stages budget with
  | nil => exact ⟨committed, stages, scene, visible, nofun, fun _ _ => rfl⟩
  | cons tx rest ih =>
      obtain ⟨fresh, distinct'⟩ := List.nodup_cons.mp distinct
      obtain ⟨inRange, idle⟩ := waiting tx List.mem_cons_self
      rw [List.length_cons] at enough
      cases choice : protocol.rule tx (committed.filter (protocol.visible tx)) with
      | none =>
          have stopped := protocol.stops tx _ choice
          have bound := visible tx inRange
          omega
      | some row =>
          have spent := protocol.spends tx _ row choice
          have before := visible tx inRange
          have still : ∀ other ∈ rest, other < threads.length ∧
              update stages tx (.ended true) other = .idle := by
            intro other member
            have different : other ≠ tx := fun same => fresh (same ▸ member)
            rw [update_of_ne different]
            exact waiting other (List.mem_cons_of_mem _ member)
          have visible' : ∀ other < threads.length, budget - 1 ≤
              protocol.left ((some row).filter (protocol.visible other)) := by
            intro other _
            rw [Option.filter_some]
            split_ifs <;> omega
          obtain ⟨committed', stages', scene', after, ended, others⟩ :=
            ih (scene.solo inRange idle choice) distinct' still (by omega) (by omega) visible'
          refine ⟨committed', stages', scene', ?_, ?_, ?_⟩
          · intro other otherInRange
            have bound := after other otherInRange
            rw [List.length_cons]
            omega
          · intro other member
            rcases List.mem_cons.mp member with rfl | later
            · rw [others other fresh, update_self]
            · exact ended other later
          · intro other notListed
            rw [List.mem_cons, not_or] at notListed
            rw [others other notListed.2, update_of_ne notListed.1]

theorem returned_of_ended (group : Finset Nat)
    (scene : protocol.Scene granted threads initial cell stages)
    (ended : ∀ tx ∈ group, tx < threads.length ∧ stages tx = .ended true) :
    ∃ schedule, Legal protocol.visible threads initial schedule ∧
      group.card ≤ (returned granted (outcome protocol.visible threads initial schedule)).card := by
  obtain ⟨schedule, legal, followed, _, rfl⟩ := scene
  refine ⟨schedule, legal, card_le_card ?_⟩
  generalize run : outcome protocol.visible threads initial schedule = pool at followed ended ⊢
  have size : pool.threads.length = threads.length := by
    rw [← run]
    exact Pool.run_threads_length _ _ _
  intro tx member
  obtain ⟨inRange, finished⟩ := ended tx member
  rw [← size] at inRange
  refine mem_filter.mpr ⟨mem_range.mpr inRange, ?_⟩
  obtain ⟨program, located⟩ : ∃ program, pool.threads[tx]? = some program :=
    ⟨_, List.getElem?_eq_getElem inRange⟩
  have accepted := followed tx program located
  rw [located]
  cases program with
  | done result =>
      have same : protocol.stagesOf granted pool tx = .ended (granted result) :=
        ended_of_accept accepted
      exact Stage.ended.inj (same.symm.trans finished)
  | call op following =>
      have move : Move tx (protocol.stagesOf granted pool tx) op := accepted.1
      rw [finished] at move
      cases move

end Scene

/-- In some interleaving more transactions succeed than the row leaves writes at the start. -/
def Outruns (protocol : Protocol ρ) (granted : α → Bool) (threads : List (Program (Op ρ) Res α))
    (initial : Option ρ) : Prop :=
  ∃ schedule, Legal protocol.visible threads initial schedule ∧
    protocol.left (initial.filter protocol.start) <
      (returned granted (outcome protocol.visible threads initial schedule)).card

section Exceeding

variable {threads : List (Program (Op ρ) Res α)} {tx other : Nat}

/-- What a transaction sees at first leaves it as many writes as there were at the start,
if not finding the row does. -/
theorem left_visible (missing : protocol.left (initial.filter protocol.start) ≤ protocol.left none)
    (inRange : tx < protocol.count) : protocol.left (initial.filter protocol.start) ≤
      protocol.left (initial.filter (protocol.visible tx)) := by
  cases seen : initial.filter (protocol.visible tx) with
  | none => exact missing
  | some row =>
      obtain ⟨rfl, visible⟩ := Option.filter_eq_some_iff.mp seen
      rw [Option.filter_some, if_pos (protocol.earlier tx inRange row visible)]

theorem exists_rule {seen : Option ρ} (writes : protocol.left seen ≠ 0) (tx : Nat) :
    ∃ row, protocol.rule tx seen = some row := by
  cases choice : protocol.rule tx seen with
  | none => exact absurd (protocol.stops tx seen choice) writes
  | some row => exact ⟨row, rfl⟩

variable (size : threads.length = protocol.count)
  (accepted : ∀ tx program, threads[tx]? = some program →
    (protocol.monitors granted tx).Accepts .idle program)
  (writes : protocol.left none ≠ 0)
  (missing : protocol.left (initial.filter protocol.start) ≤ protocol.left none)

include size accepted writes missing

/-- A transaction finds no row; as many others as there are writes come and go before it
writes too. -/
theorem exceeds_of_missing (crowded : protocol.left (initial.filter protocol.start) < protocol.count)
    (inRange : tx < protocol.count) (unseen : initial.filter (protocol.visible tx) = none) :
    protocol.Outruns granted threads initial := by
  obtain ⟨row, choice⟩ := exists_rule writes tx
  have room : protocol.left (initial.filter protocol.start) ≤
      ((range protocol.count).erase tx).card := by
    rw [card_erase_of_mem (mem_range.mpr inRange), card_range]
    omega
  obtain ⟨group, among, card⟩ := exists_subset_card_eq room
  have apart : tx ∉ group := fun member => (mem_erase.mp (among member)).1 rfl
  have inside : ∀ other ∈ group, other < threads.length := fun other member =>
    size ▸ mem_range.mp (mem_erase.mp (among member)).2
  have paused := (Scene.beginning initial accepted).choose (size ▸ inRange) rfl (unseen ▸ choice)
  rw [unseen, Option.map_none] at paused
  obtain ⟨committed, stages, scene, _, ended, others⟩ := paused.many (nodup_toList group)
    (by
      intro other member
      rw [mem_toList] at member
      refine ⟨inside other member, update_of_ne ?_ _ _⟩
      rintro rfl
      exact apart member)
    (by rw [length_toList, card]) missing
    fun other otherInRange => left_visible missing (size ▸ otherInRange)
  have chosen : stages tx = .chosen none row := by
    rw [others tx (by rwa [mem_toList]), update_self]
  have final := scene.finish (size ▸ inRange) chosen rfl nofun
  obtain ⟨schedule, legal, bound⟩ := final.returned_of_ended (insert tx group) (by
    intro other member
    rcases mem_insert.mp member with rfl | earlier
    · exact ⟨size ▸ inRange, update_self _ _ _⟩
    · refine ⟨inside other earlier, ?_⟩
      rw [update_of_ne (by rintro rfl; exact apart earlier)]
      exact ended other (mem_toList.mpr earlier))
  refine ⟨schedule, legal, ?_⟩
  rw [card_insert_of_notMem apart, card] at bound
  omega

/-- What the last of as many transactions as there are writes has written is not visible
to one more. -/
theorem exceeds_of_expiring
    (crowded : protocol.left (initial.filter protocol.start) < protocol.count)
    (inRange : tx < protocol.count) (otherInRange : other < protocol.count) (different : tx ≠ other)
    (room : protocol.left (initial.filter protocol.start) ≠ 0)
    (expires : protocol.lasts tx other = false) :
    protocol.Outruns granted threads initial := by
  have space : protocol.left (initial.filter protocol.start) - 1 ≤
      (((range protocol.count).erase tx).erase other).card := by
    rw [card_erase_of_mem (mem_erase.mpr
      ⟨different.symm, mem_range.mpr otherInRange⟩),
      card_erase_of_mem (mem_range.mpr inRange), card_range]
    omega
  obtain ⟨group, among, card⟩ := exists_subset_card_eq space
  have notOther : other ∉ group := fun member => (mem_erase.mp (among member)).1 rfl
  have notTx : tx ∉ group := fun member =>
    (mem_erase.mp (mem_erase.mp (among member)).2).1 rfl
  have inside : ∀ each ∈ group, each < threads.length := fun each member =>
    size ▸ mem_range.mp (mem_erase.mp (mem_erase.mp (among member)).2).2
  obtain ⟨committed, stages, scene, after, ended, others⟩ := (Scene.beginning initial accepted).many
    (nodup_toList group)
    (fun each member => ⟨inside each (mem_toList.mp member), rfl⟩)
    (by rw [length_toList, card]; omega) missing
    fun each eachInRange => left_visible missing (size ▸ eachInRange)
  have one := after tx (size ▸ inRange)
  rw [length_toList, card] at one
  have able : protocol.left (committed.filter (protocol.visible tx)) ≠ 0 := by omega
  obtain ⟨row, choice⟩ := exists_rule able tx
  have last := scene.solo (size ▸ inRange) (others tx (by rwa [mem_toList])) choice
  have unseen : (some row).filter (protocol.visible other) = none := by
    rw [Option.filter_some, protocol.lasting tx other _ row choice, expires]
    rfl
  obtain ⟨another, choice'⟩ := exists_rule writes other
  have idle : update stages tx (.ended true) other = .idle := by
    rw [update_of_ne different.symm, others other (by rwa [mem_toList])]
  have final := last.solo (size ▸ otherInRange) idle (unseen ▸ choice')
  obtain ⟨schedule, legal, bound⟩ := final.returned_of_ended (insert other (insert tx group)) (by
    intro each member
    rcases mem_insert.mp member with rfl | rest
    · exact ⟨size ▸ otherInRange, update_self _ _ _⟩
    · rcases mem_insert.mp rest with rfl | earlier
      · exact ⟨size ▸ inRange, by rw [update_of_ne different, update_self]⟩
      · refine ⟨inside each earlier, ?_⟩
        rw [update_of_ne (by rintro rfl; exact notOther earlier),
          update_of_ne (by rintro rfl; exact notTx earlier)]
        exact ended each (mem_toList.mpr earlier))
  refine ⟨schedule, legal, ?_⟩
  rw [card_insert_of_notMem (by simp [different.symm, notOther]),
    card_insert_of_notMem notTx, card] at bound
  omega

end Exceeding

/-- In every interleaving at most as many transactions succeed as the row leaves writes at
the start, exactly if there are no more of them or they are steady. -/
theorem returned_le_iff {threads : List (Program (Op ρ) Res α)}
    (size : threads.length = protocol.count)
    (accepted : ∀ tx program, threads[tx]? = some program →
      (protocol.monitors granted tx).Accepts .idle program)
    (missing : protocol.left none ≠ 0 →
      protocol.left (initial.filter protocol.start) ≤ protocol.left none) :
    (∀ schedule, Legal protocol.visible threads initial schedule →
      (returned granted (outcome protocol.visible threads initial schedule)).card ≤
        protocol.left (initial.filter protocol.start)) ↔
      protocol.count ≤ protocol.left (initial.filter protocol.start) ∨ protocol.Steady initial := by
  constructor
  · intro bounded
    by_contra neither
    obtain ⟨crowded, unsteady⟩ := not_or.mp neither
    obtain ⟨writes, unsteady⟩ := not_or.mp unsteady
    have contained : ¬ protocol.Outruns granted threads initial := by
      rintro ⟨schedule, legal, exceeded⟩
      exact not_le.mpr exceeded (bounded schedule legal)
    by_cases all : ∀ tx < protocol.count, initial.any (protocol.visible tx) = true
    · obtain ⟨room, expiring⟩ := not_or.mp (not_and.mp unsteady all)
      push Not at expiring
      obtain ⟨tx, inRange, other, otherInRange, different, expires⟩ := expiring
      exact contained (exceeds_of_expiring size accepted writes (missing writes)
        (not_le.mp crowded) inRange otherInRange different room (Bool.eq_false_iff.mpr expires))
    · push Not at all
      obtain ⟨tx, inRange, unseen⟩ := all
      have absent : initial.filter (protocol.visible tx) = none := by
        cases initial with
        | none => rfl
        | some row =>
            rw [Option.filter_some, if_neg]
            exact unseen
      exact contained (exceeds_of_missing size accepted writes (missing writes)
        (not_le.mp crowded) inRange absent)
  · rintro (few | steady) schedule legal
    · refine le_trans ?_ few
      refine (card_filter_le _ _).trans ?_
      rw [card_range, outcome, Pool.run_threads_length]
      exact size.le
    · exact returned_le_of_steady size accepted steady legal

end Protocol

end RowLock
