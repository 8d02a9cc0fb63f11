import Rlaas.Algorithm.BucketRuns
import Rlaas.Lib.Allowance

/-! Token bucket calls one after another: what a run can admit. The stored level
is a budget in thousandths that refills from one admission to the next. -/

set_option autoImplicit false

namespace Rlaas.Algorithm

open Go Model Store Effect Allowance

namespace TokenBucket

/-- An admission and the level it left, in thousandths. -/
abbrev Filling := Admission × Int

def Filling.fill (filling : Filling) : Fill := ⟨filling.2, filling.1.time⟩

def Filling.draw (filling : Filling) : Draw ℚ :=
  ⟨(filling.1.time : ℚ) / 1000000000, filling.1.cost, (filling.2 : ℚ) / 1000⟩

/-- The tokens a call works with after this admission, or in a new bucket. -/
def tokensFound (cfg : AlgorithmConfig) (rate : ℚ) (key : String) (now : Int) (last : Option Fill) :
    ℚ :=
  tokens cfg rate now ((bucket key).item Fill.level ((bucket key).found now last)).value
    ((bucket key).item Fill.stamp ((bucket key).found now last)).value

theorem tokensFound_none (cfg : AlgorithmConfig) (rate : ℚ) (key : String) (now : Int) :
    tokensFound cfg rate key now none = capacity cfg := by
  unfold tokensFound tokens
  exact if_pos rfl

/-- The admission of a call that leaves this level. -/
def filling (policy : Policy) (call : InstantCall) (level : Int) : Filling :=
  (⟨call.now.nanos, cost call.req policy.algorithm⟩, level)

def latest (fillings : List Filling) : Option Fill := fillings.getLast?.map Filling.fill

theorem latest_snoc (fillings : List Filling) (filling : Filling) :
    latest (fillings ++ [filling]) = some filling.fill := by
  rw [latest, List.getLast?_concat, Option.map_some]

def InRange (cfg : AlgorithmConfig) (level : Int) : Prop :=
  0 ≤ level ∧ level ≤ 1000 * capacity cfg

/-- Of the instants of a run: an entry that has expired at one call has expired at all later
ones, and by then the bucket would have refilled. -/
structure Reliable (cfg : AlgorithmConfig) (key : String) (rate : ℚ) (timely : Int → Prop)
    (calls : List InstantCall) : Prop where
  within : ∀ call ∈ calls, timely call.now.nanos
  nonzero : ∀ instant, timely instant → instant ≠ 0
  steady : calls.Pairwise fun earlier later => ∀ fill : Fill, timely fill.stamp →
    (bucket key).expired earlier.now.nanos fill = true →
      (bucket key).expired later.now.nanos fill = true
  fair : ∀ (fill : Fill) (instant : Int), timely fill.stamp → timely instant →
    (bucket key).expired instant fill = true →
      (capacity cfg : ℚ) ≤ rate * elapsed fill.stamp instant

section Run

variable {policy : Policy} {key : String} {rate : ℚ} {timely : Int → Prop}

/-- What a run has admitted so far, and what the calls to come find of it. -/
private structure Tracked (policy : Policy) (key : String) (rate : ℚ) (timely : Int → Prop)
    (past : List (Turn EnvOp EnvRes InstantCall Answer MemoryStore)) (rest : List InstantCall)
    (store : MemoryStore) (fillings : List Filling) (last : Option Fill) : Prop where
  listed : fillings.map Prod.fst = admissionsOf policy "token_available" past
  costs : ∀ filling ∈ fillings, 0 < filling.1.cost
  stamps : ∀ filling ∈ fillings, timely filling.1.time
  funded : Funded (capacity policy.algorithm : ℚ) rate (1 / 2000) (fillings.map Filling.draw)
  levels : ∀ turn ∈ past, InRange policy.algorithm (storedLevel (levelKey key) turn.after)
  holds : (bucket key).Holds store.cells last
  known : last = none ∨ last = latest fillings
  visible : ∀ call ∈ rest,
    (bucket key).found call.now.nanos last = (bucket key).found call.now.nanos (latest fillings)

variable {past : List (Turn EnvOp EnvRes InstantCall Answer MemoryStore)}
  {rest : List InstantCall} {call : InstantCall} {store : MemoryStore} {fillings : List Filling}
  {last : Option Fill}

private theorem inRange_of_holds (costs : ∀ filling ∈ fillings, 0 < filling.1.cost)
    (funded : Funded (capacity policy.algorithm : ℚ) rate (1 / 2000) (fillings.map Filling.draw))
    (holds : (bucket key).Holds store.cells last) (known : last = none ∨ last = latest fillings) :
    InRange policy.algorithm (storedLevel (levelKey key) store) := by
  have full := capacity_pos policy.algorithm
  have stored : storedLevel (levelKey key) store = ((bucket key).item Fill.level last).value :=
    congrArg ValueItem.value holds.level
  rw [stored]
  have origin : last = none ∨ ∃ filling ∈ fillings, last = some filling.fill := by
    rcases known with none | known
    · exact .inl none
    · cases ended : fillings.getLast? with
      | none => exact .inl (by rw [known, latest, ended]; rfl)
      | some filling =>
          exact .inr ⟨filling, List.mem_of_getLast? ended, by rw [known, latest, ended]; rfl⟩
  rcases origin with rfl | ⟨filling, member, rfl⟩
  · exact ⟨le_refl 0, by simp only [Bucket.item]; omega⟩
  · have listed := List.mem_map_of_mem (f := Filling.draw) member
    have solvent := funded.solvent _ listed
    have held := funded.held _ listed
    simp only [Filling.draw] at solvent held
    have least : (1 : ℚ) ≤ filling.1.cost := by exact_mod_cast costs filling member
    refine ⟨?_, ?_⟩
    · have nonneg : (0 : ℚ) ≤ filling.2 := by linarith
      exact_mod_cast nonneg
    · have bounded : (filling.2 : ℚ) ≤ 1000 * capacity policy.algorithm := by linarith
      exact_mod_cast bounded

private theorem Tracked.stamped
    (tracked : Tracked policy key rate timely past rest store fillings last) (fill : Fill)
    (here : fill ∈ last) : timely fill.stamp := by
  rcases tracked.known with none | known
  · rw [none] at here
    cases here
  · rw [known] at here
    obtain ⟨filling, ended, rfl⟩ := Option.map_eq_some_iff.mp here
    exact tracked.stamps filling (List.mem_of_getLast? ended)

section

variable (tracked : Tracked policy key rate timely past (call :: rest) store fillings last)

include tracked

section

variable (reliable : Reliable policy.algorithm key rate timely (call :: rest))

include reliable

/-- What a call finds was left by the admission before it or refilled since. -/
private theorem Tracked.tokensFound_le
    {previous : Draw ℚ} (ended : previous ∈ (fillings.map Filling.draw).getLast?) :
    tokensFound policy.algorithm rate key call.now.nanos last ≤
      previous.left +
        rate * max 0 ((call.now.nanos : ℚ) / 1000000000 - previous.time) := by
  rw [List.getLast?_map] at ended
  obtain ⟨entry, final, rfl⟩ := Option.map_eq_some_iff.mp ended
  have member := List.mem_of_getLast? final
  have stamped := tracked.stamps entry member
  have seconds : max 0 ((call.now.nanos : ℚ) / 1000000000 - entry.draw.time) =
      elapsed entry.fill.stamp call.now.nanos := by
    rw [elapsed, Int.cast_sub, sub_div]
    rfl
  have read : (bucket key).found call.now.nanos last =
      (bucket key).found call.now.nanos (some entry.fill) := by
    rw [tracked.visible call List.mem_cons_self, latest, final]
    rfl
  rw [seconds, tokensFound, read, mul_comm]
  cases gone : (bucket key).expired call.now.nanos entry.fill with
  | true =>
      have solvent := tracked.funded.solvent _ (List.mem_map_of_mem (f := Filling.draw) member)
      have full := reliable.fair entry.fill call.now.nanos stamped
        (reliable.within call List.mem_cons_self) gone
      refine (tokens_le_capacity _ _ _ _ _).trans ?_
      linarith
  | false =>
      rw [(bucket key).found_of_unexpired gone]
      exact tokens_le_refilled (reliable.nonzero _ stamped) _ _ _ _

private theorem Tracked.refused
    (refused : answered "token_available" ((algorithm policy key).visit call store).result = false)
    (kept : (bucket key).Holds ((algorithm policy key).visit call store).after.cells
      ((bucket key).found call.now.nanos last)) :
    Tracked policy key rate timely (past ++ [(algorithm policy key).visit call store]) rest
      ((algorithm policy key).visit call store).after fillings
      ((bucket key).found call.now.nanos last) := by
  have known : (bucket key).found call.now.nanos last = none ∨
      (bucket key).found call.now.nanos last = latest fillings := by
    rcases (bucket key).found_cases call.now.nanos last with none | same
    · exact .inl none
    · rw [same]
      exact tracked.known
  refine ⟨?_, tracked.costs, tracked.stamps, tracked.funded, ?_, kept, known, ?_⟩
  · rw [admissionsOf_snoc, refused, tracked.listed]
    exact (List.append_nil _).symm
  · refine List.forall_mem_append.mpr ⟨tracked.levels, List.forall_mem_singleton.mpr ?_⟩
    exact inRange_of_holds tracked.costs tracked.funded kept known
  · intro later member
    rw [← tracked.visible later (List.mem_cons_of_mem call member)]
    refine (bucket key).found_found fun fill here gone => ?_
    exact List.rel_of_pairwise_cons reliable.steady member fill (tracked.stamped fill here) gone

private theorem Tracked.admitted
    {level : Int}
    (admitted : answered "token_available" ((algorithm policy key).visit call store).result = true)
    (kept : (bucket key).Holds ((algorithm policy key).visit call store).after.cells
      (some ⟨level, call.now.nanos⟩)) (nonneg : 0 ≤ level)
    (bounded : (cost call.req policy.algorithm : ℚ) + level / 1000 ≤
      tokensFound policy.algorithm rate key call.now.nanos last + 1 / 2000) :
    Tracked policy key rate timely (past ++ [(algorithm policy key).visit call store]) rest
      ((algorithm policy key).visit call store).after
      (fillings ++ [filling policy call level])
      (some ⟨level, call.now.nanos⟩) := by
  have costs : ∀ entry ∈ fillings ++ [filling policy call level], 0 < entry.1.cost :=
    List.forall_mem_append.mpr ⟨tracked.costs, List.forall_mem_singleton.mpr (cost_pos _ _)⟩
  have funded : Funded (capacity policy.algorithm : ℚ) rate (1 / 2000)
      ((fillings ++ [filling policy call level]).map Filling.draw) := by
    rw [List.map_append]
    refine tracked.funded.snoc ?_ ?_ ?_
    · have left : (0 : ℚ) ≤ level := by exact_mod_cast nonneg
      exact div_nonneg left (by norm_num)
    · have full : tokensFound policy.algorithm rate key call.now.nanos last ≤
          capacity policy.algorithm := tokens_le_capacity _ _ _ _ _
      exact bounded.trans (by linarith)
    · intro previous ended
      exact bounded.trans (add_le_add (tracked.tokensFound_le reliable ended) le_rfl)
  have known : some (Fill.mk level call.now.nanos) =
      latest (fillings ++ [filling policy call level]) :=
    (latest_snoc fillings (filling policy call level)).symm
  refine ⟨?_, costs, ?_, funded, ?_, kept, .inr known, ?_⟩
  · rw [admissionsOf_snoc, admitted, List.map_append, tracked.listed]
    rfl
  · refine List.forall_mem_append.mpr ⟨tracked.stamps, List.forall_mem_singleton.mpr ?_⟩
    exact reliable.within call List.mem_cons_self
  · refine List.forall_mem_append.mpr ⟨tracked.levels, List.forall_mem_singleton.mpr ?_⟩
    exact inRange_of_holds costs funded kept (.inr known)
  · intro later _
    rw [known]

end

end

theorem run_funded (policy : Policy) (key : String) (store : MemoryStore) (rate : ℚ)
    (timely : Int → Prop) (calls : List InstantCall)
    (refill : refillRate .exact policy.algorithm = .fin rate)
    (absent : (bucket key).Holds store.cells none)
    (reliable : Reliable policy.algorithm key rate timely calls) :
    ∃ fillings : List Filling,
      fillings.map Prod.fst = admissionsOf policy "token_available"
        (visits .exact .tokenBucket policy key calls store) ∧
      Funded (capacity policy.algorithm : ℚ) rate (1 / 2000) (fillings.map Filling.draw) ∧
      ∀ turn ∈ visits .exact .tokenBucket policy key calls store,
        InRange policy.algorithm (storedLevel (levelKey key) turn.after) := by
  obtain ⟨final, fillings, last, tracked, _⟩ := serial_remaining (MemoryStore.env .exact)
    (fun call : InstantCall => evaluate .exact policy call.req key) InstantCall.clock
    (fun past rest store => ∃ fillings last, Tracked policy key rate timely past rest store
      fillings last ∧ Reliable policy.algorithm key rate timely rest)
    (fun past call rest store ⟨fillings, last, tracked, reliable⟩ => by
      have later : Reliable policy.algorithm key rate timely rest := {
        within := fun other member => reliable.within other (List.mem_cons_of_mem _ member)
        nonzero := reliable.nonzero
        steady := reliable.steady.tail
        fair := reliable.fair }
      cases answer : answered "token_available" ((algorithm policy key).visit call store).result with
      | false =>
          have kept := BucketAlgorithm.visit_refused tracked.holds answer
          exact ⟨_, _, tracked.refused reliable answer kept, later⟩
      | true =>
          obtain ⟨level, _, planned, kept⟩ := BucketAlgorithm.visit_admitted tracked.holds answer
          obtain ⟨nonneg, bounded⟩ := plan_take refill planned
          exact ⟨_, _, tracked.admitted reliable answer kept nonneg bounded, later⟩)
    calls [] store
    ⟨[], none, ⟨rfl, by simp, by simp, .nil, by simp, absent, .inl rfl, fun _ _ => rfl⟩, reliable⟩
  exact ⟨fillings, tracked.listed, tracked.funded, tracked.levels⟩

theorem total_draw (fillings : List Filling) :
    total (fillings.map Filling.draw) = (((fillings.map Prod.fst).map Admission.cost).sum : Int) := by
  induction fillings with
  | nil => rfl
  | cons filling rest ih =>
      rw [List.map_cons, List.map_cons, List.map_cons, List.sum_cons, Int.cast_add, ← ih]
      rfl

theorem draw_times (fillings : List Filling) :
    (fillings.map Filling.draw).map Draw.time =
      (fillings.map Prod.fst).map fun admission => (admission.time : ℚ) / 1000000000 := by
  rw [List.map_map, List.map_map]
  rfl

theorem seconds_mono {first second : Int} (ordered : first ≤ second) :
    (first : ℚ) / 1000000000 ≤ (second : ℚ) / 1000000000 := by
  have cast : (first : ℚ) ≤ second := by exact_mod_cast ordered
  linarith

theorem cost_le_of_ordered {fillings : List Filling} {cap : ℚ} {first final : Admission}
    (funded : Funded cap rate (1 / 2000) (fillings.map Filling.draw))
    (ordered : ((fillings.map Prod.fst).map Admission.time).Pairwise (· ≤ ·))
    (starts : first ∈ (fillings.map Prod.fst).head?)
    (ends : final ∈ (fillings.map Prod.fst).getLast?) :
    (((fillings.map Prod.fst).map Admission.cost).sum : Int) ≤
      cap + rate * (((final.time - first.time : Int) : ℚ) / 1000000000) +
        ((fillings.map Prod.fst).length : ℚ) / 2000 := by
  rw [List.head?_map] at starts
  rw [List.getLast?_map] at ends
  obtain ⟨opening, opened, rfl⟩ := Option.map_eq_some_iff.mp starts
  obtain ⟨closing, closed, rfl⟩ := Option.map_eq_some_iff.mp ends
  have chained : ((fillings.map Filling.draw).map Draw.time).IsChain (· ≤ ·) := by
    rw [draw_times]
    refine List.Pairwise.isChain (List.pairwise_map.mpr ?_)
    exact (List.pairwise_map.mp ordered).imp seconds_mono
  have head : Filling.draw opening ∈ (fillings.map Filling.draw).head? := by
    rw [List.head?_map, opened]
    rfl
  have last : Filling.draw closing ∈ (fillings.map Filling.draw).getLast? := by
    rw [List.getLast?_map, closed]
    rfl
  have paid := funded.total_le_of_ordered chained head last
  rw [total_draw, List.length_map] at paid
  rw [List.length_map, Int.cast_sub, sub_div]
  simp only [Filling.draw] at paid
  linarith

end Run

/-- A bucket that refills within the life of its entries, under a clock that does not run
backwards. -/
theorem reliable_of_ordered {cfg : AlgorithmConfig} {key : String} {rate : ℚ}
    {calls : List InstantCall} (refills : (capacity cfg : ℚ) ≤ 7200 * rate) (pays : 0 < rate)
    (positive : ∀ call ∈ calls, 0 < call.now.nanos)
    (ordered : calls.Pairwise fun earlier later => earlier.now.nanos ≤ later.now.nanos) :
    Reliable cfg key rate (0 < ·) calls where
  within := positive
  nonzero instant positive := ne_of_gt positive
  steady := ordered.imp fun next fill positive gone => by
    rw [Bucket.expired_iff _ positive] at gone ⊢
    exact lt_of_lt_of_le gone next
  fair fill instant positive _ gone := by
    have passed : fill.stamp + 2 * hour < instant := (Bucket.expired_iff _ positive).mp gone
    have lasting : (7200 : ℚ) ≤ elapsed fill.stamp instant := by
      unfold hour minute second at passed
      have nanos : (7200000000000 : ℚ) ≤ ((instant - fill.stamp : Int) : ℚ) := by
        have whole : 7200000000000 ≤ instant - fill.stamp := by omega
        exact_mod_cast whole
      rw [elapsed_of_le (by omega)]
      linarith
    calc (capacity cfg : ℚ) ≤ 7200 * rate := refills
      _ = rate * 7200 := mul_comm _ _
      _ ≤ rate * elapsed fill.stamp instant := mul_le_mul_of_nonneg_left lasting pays.le

def tenTokens : Policy := { algorithm := { burst := 10, refillRate := .fin 1 } }

private theorem tenTokens_refill : refillRate .exact tenTokens.algorithm = .fin 1 := by
  decide +kernel

private theorem newSharded_absent (key : String) :
    (bucket key).Holds (MemoryStore.newSharded 1).cells none :=
  ⟨rfl, rfl⟩

private def drained : Admission := ⟨second, 10⟩

private def refilled : Admission := ⟨11 * second, 10⟩

end TokenBucket

end Rlaas.Algorithm
