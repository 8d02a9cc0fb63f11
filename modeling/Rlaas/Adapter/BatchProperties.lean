import Rlaas.Adapter.Batch

/-! A batch that is shared out among workers is filtered as if its records were looked at one
by one: each is evaluated once and its own answer decides about it. -/

set_option autoImplicit false

namespace Rlaas.Adapter

open Go Model Effect

/-- Every record is evaluated once, with its own request. -/
def EvaluatedOnce {R : Type} (request : R → RequestContext) (records : List R)
    (answers : Fin records.length → Evaluated) (evaluations : List (EvaluationOf records)) : Prop :=
  evaluations.Perm
    ((List.finRange records.length).map fun idx => ⟨idx, request (records.get idx), answers idx⟩)

theorem get_set {α : Type} {n : Nat} (start : Vector α n) (job idx : Fin n) (value : α) :
    (start.set job value job.isLt).get idx = if job = idx then value else start.get idx := by
  refine (Vector.getElem_set job.isLt idx.isLt).trans ?_
  simp only [Fin.val_inj]
  rfl

theorem get_foldl_set {α : Type} {n : Nat} (value : Fin n → α) (jobs : List (Fin n))
    (start : Vector α n) (idx : Fin n) :
    (jobs.foldl (fun results job => results.set job (value job) job.isLt) start).get idx =
      if idx ∈ jobs then value idx else start.get idx := by
  induction jobs generalizing start with
  | nil => rfl
  | cons job rest ih =>
      rw [List.foldl_cons, ih, get_set]
      by_cases later : idx ∈ rest
      · rw [if_pos later, if_pos (List.mem_cons_of_mem job later)]
      · rw [if_neg later]
        by_cases here : job = idx
        · rw [if_pos here, here, if_pos List.mem_cons_self]
        · rw [if_neg here, if_neg (List.not_mem_cons_of_ne_of_not_mem (Ne.symm here) later)]

namespace Provider

variable (bp : BatchProcessor) (records : List TelemetryRecord)
  (answers : Fin records.length → Evaluated)

theorem serialWrites_eq : (bp.batch records).serialWrites answers =
    (List.finRange records.length).map fun idx =>
      (idx, bp.result (records.get idx) (answers idx)) :=
  List.map_eq_flatMap.symm

theorem storeResult_serial (start : Vector RecordDecision records.length) :
    ((bp.batch records).serialWrites answers).foldl storeResult start =
      Vector.ofFn fun idx => bp.result (records.get idx) (answers idx) := by
  rw [serialWrites_eq, List.foldl_map]
  refine Vector.ext fun idx inside => ?_
  rw [Vector.getElem_ofFn]
  refine (get_foldl_set _ _ start ⟨idx, inside⟩).trans ?_
  rw [if_pos (List.mem_finRange _)]

/-- Two writes go to different places or are the same. -/
theorem storeResult_comm {first second : Fin records.length × RecordDecision}
    (early : first ∈ (bp.batch records).serialWrites answers)
    (late : second ∈ (bp.batch records).serialWrites answers)
    (results : Vector RecordDecision records.length) :
    storeResult (storeResult results first) second =
      storeResult (storeResult results second) first := by
  rw [serialWrites_eq] at early late
  obtain ⟨idx, _, rfl⟩ := List.mem_map.mp early
  obtain ⟨other, _, rfl⟩ := List.mem_map.mp late
  by_cases same : idx = other
  · rw [same]
  · exact Vector.set_comm _ _ fun equal => same (Fin.ext equal)

/-- The results of a batch are those of its records with the answers for them. -/
def Resulted (bp : BatchProcessor) (records : List TelemetryRecord)
    (processed : Processed records) : Prop :=
  ∃ answers : Fin records.length → Evaluated,
    EvaluatedOnce TelemetryRecord.toRequestContext records answers processed.evaluations ∧
      processed.results = Vector.ofFn fun idx => bp.result (records.get idx) (answers idx)

theorem process_resulted (bp : BatchProcessor) (workers : Int) (records : List TelemetryRecord)
    (schedule : List (Nat × Evaluated)) :
    (∃ rest, (bp.process workers records (schedule ++ rest)).isSome = true) ∧
      ∀ processed, bp.process workers records schedule = some processed →
        Resulted bp records processed := by
  by_cases empty : records = []
  · subst empty
    refine ⟨⟨[], rfl⟩, fun processed returned => ?_⟩
    obtain rfl := Option.some.inj returned
    exact ⟨fun idx => idx.elim0, .refl [], rfl⟩
  · unfold BatchProcessor.process
    simp only [if_neg empty, Option.isSome_map]
    refine ⟨Batch.exists_outcome _ _ _ _ { decision := {} } schedule, fun processed returned => ?_⟩
    obtain ⟨⟨results, evaluations⟩, outcome, rfl⟩ := Option.map_eq_some_iff.mp returned
    obtain ⟨answers, once, target⟩ := (bp.batch records).outcome_serial storeResult _
      (workerCount_pos workers)
      (fun answers _ early _ late => storeResult_comm bp records answers early late) outcome
    exact ⟨answers, once, target.trans (storeResult_serial bp records answers _)⟩

end Provider

namespace Otel

theorem countP_cons_toNat {α : Type} (test : α → Bool) (item : α) (rest : List α) :
    (item :: rest).countP test = (test item).toNat + rest.countP test := by
  rw [List.countP_cons, Nat.add_comm]
  cases test item with
  | true => rfl
  | false => rfl

variable {n : Nat}

theorem Marks.store_comm (marks : Marks n) (first second : Write n) :
    (marks.store first).store second = (marks.store second).store first := by
  cases first with
  | unkeep idx =>
      cases second with
      | unkeep other =>
          by_cases same : idx = other
          · rw [same]
          · exact congrArg (Marks.mk · marks.stats)
              (Vector.set_comm _ _ fun equal => same (Fin.ext equal))
      | _ => rfl
  | _ =>
      cases second with
      | _ => rfl

/-- Further records are counted. -/
def ProcessorStats.grow (stats : ProcessorStats) (allowed dropped errors : Nat) :
    ProcessorStats where
  allowed := stats.allowed + Int64.ofNat allowed
  dropped := stats.dropped + Int64.ofNat dropped
  errors := stats.errors + Int64.ofNat errors

theorem ProcessorStats.grow_zero (stats : ProcessorStats) : stats.grow 0 0 0 = stats := by
  change ProcessorStats.mk (stats.allowed + 0) (stats.dropped + 0) (stats.errors + 0) = stats
  simp only [Int64.add_zero]

theorem ProcessorStats.grow_grow (stats : ProcessorStats)
    (allowed dropped errors allowed' dropped' errors' : Nat) :
    (stats.grow allowed dropped errors).grow allowed' dropped' errors' =
      stats.grow (allowed + allowed') (dropped + dropped') (errors + errors') := by
  unfold grow
  simp only [Int64.ofNat_add, Int64.add_assoc]

namespace Processor

variable (p : Processor)

/-- The answer lets its record through. -/
def keeps (evaluated : Evaluated) : Bool :=
  evaluated.decision.allowed && (evaluated.err.isNone || p.failOpen)

theorem foldl_writes (marks : Marks n) (idx : Fin n) (evaluated : Evaluated) :
    (p.writes idx evaluated).foldl Marks.store marks =
      { keep := if !p.keeps evaluated then marks.keep.set idx false idx.isLt else marks.keep
        stats := marks.stats.grow (p.keeps evaluated).toNat (!p.keeps evaluated).toNat
          evaluated.err.isSome.toNat } := by
  unfold writes keeps
  cases evaluated.err with
  | none =>
      cases evaluated.decision.allowed with
      | true => simp [Marks.store, ProcessorStats.grow]
      | false => simp [Marks.store, ProcessorStats.grow]
  | some err =>
      cases p.failOpen with
      | false => simp [Marks.store, ProcessorStats.grow]
      | true =>
          cases evaluated.decision.allowed with
          | true => simp [Marks.store, ProcessorStats.grow]
          | false => simp [Marks.store, ProcessorStats.grow]

theorem foldl_flatMap_writes (answers : Fin n → Evaluated) (jobs : List (Fin n))
    (marks : Marks n) :
    (jobs.flatMap fun idx => p.writes idx (answers idx)).foldl Marks.store marks =
      { keep := (jobs.filter fun idx => !p.keeps (answers idx)).foldl
          (fun keep (idx : Fin n) => keep.set idx false idx.isLt) marks.keep
        stats := marks.stats.grow (jobs.countP fun idx => p.keeps (answers idx))
          (jobs.countP fun idx => !p.keeps (answers idx))
          (jobs.countP fun idx => (answers idx).err.isSome) } := by
  induction jobs generalizing marks with
  | nil => exact congrArg (Marks.mk marks.keep) marks.stats.grow_zero.symm
  | cons idx rest ih =>
      rw [List.flatMap_cons, List.foldl_append, foldl_writes, ih]
      simp only [ProcessorStats.grow_grow, countP_cons_toNat, List.filter_cons]
      split_ifs
      · rfl
      · rfl

theorem get_keep (answers : Fin n → Evaluated) (idx : Fin n) :
    (((List.finRange n).filter fun idx => !p.keeps (answers idx)).foldl
        (fun keep (idx : Fin n) => keep.set idx false idx.isLt) (Vector.replicate n true)).get idx =
      p.keeps (answers idx) := by
  rw [get_foldl_set fun _ => false]
  cases kept : p.keeps (answers idx) with
  | true =>
      rw [if_neg fun member => by simp [kept] at member]
      exact Vector.getElem_replicate idx.isLt
  | false => exact if_pos (by simp [kept])

variable {R : Type} (request : R → RequestContext) (records : List R)

theorem length_collect (test : Fin records.length → Bool) :
    (collect records test).length = (List.finRange records.length).countP test := by
  rw [collect, List.length_map, List.countP_eq_length_filter]

theorem length_collect_add (test : Fin records.length → Bool) :
    (collect records test).length + (collect records fun idx => !test idx).length =
      records.length := by
  have parts := List.length_eq_length_filter_add (l := List.finRange records.length) test
  rw [List.length_finRange] at parts
  rw [collect, collect, List.length_map, List.length_map]
  exact parts.symm

/-- A batch is filtered as the answers for its records say. -/
def Sifted (filtered : Filtered records) : Prop :=
  ∃ answers : Fin records.length → Evaluated,
    let removed := collect records fun idx => !p.keeps (answers idx)
    EvaluatedOnce request records answers filtered.evaluations ∧
      filtered.kept = collect records (fun idx => p.keeps (answers idx)) ∧
      filtered.stats = p.stats.grow filtered.kept.length removed.length
        ((List.finRange records.length).countP fun idx => (answers idx).err.isSome) ∧
      filtered.kept.length + removed.length = records.length

theorem process_sifted (schedule : List (Nat × Evaluated)) :
    (∃ rest, (p.process request records (schedule ++ rest)).isSome = true) ∧
      ∀ filtered, p.process request records schedule = some filtered →
        p.Sifted request records filtered := by
  by_cases empty : records = []
  · subst empty
    refine ⟨⟨[], rfl⟩, fun filtered returned => ?_⟩
    obtain rfl := Option.some.inj returned
    exact ⟨fun idx => idx.elim0, .refl [], rfl, p.stats.grow_zero.symm, rfl⟩
  · unfold process
    simp only [if_neg empty, Option.isSome_map]
    refine ⟨Batch.exists_outcome _ _ _ _ { decision := {} } schedule, fun filtered returned => ?_⟩
    obtain ⟨⟨marks, evaluations⟩, outcome, rfl⟩ := Option.map_eq_some_iff.mp returned
    obtain ⟨answers, once, target⟩ := (p.batch request records).outcome_serial Marks.store _
      p.employed (fun _ first _ second _ marks => marks.store_comm first second) outcome
    obtain rfl := target.trans (p.foldl_flatMap_writes answers _ _)
    have kept := congrArg (collect records) (funext (p.get_keep answers))
    refine ⟨answers, once, kept, ?_, ?_⟩
    · dsimp only
      rw [kept, length_collect, length_collect]
    · dsimp only
      rw [kept]
      exact length_collect_add records _

end Processor

end Otel

open Provider Otel

/-- Every call can always be brought to its end, and then every record has been evaluated once
and its own evaluation has decided about it. -/
theorem batches_processed_once :
    (∀ (bp : BatchProcessor) (workers : Int) (records : List TelemetryRecord)
        (schedule : List (Nat × Evaluated)),
      (∃ rest, (bp.process workers records (schedule ++ rest)).isSome = true) ∧
        ∀ processed, bp.process workers records schedule = some processed →
          Resulted bp records processed) ∧
    (∀ (p : Processor) (logs : List LogRecord) (schedule : List (Nat × Evaluated)),
      (∃ rest, (p.processLogs logs (schedule ++ rest)).isSome = true) ∧
        ∀ filtered, p.processLogs logs schedule = some filtered →
          p.Sifted LogRecord.allowLog logs filtered) ∧
    ∀ (p : Processor) (spans : List SpanRecord) (schedule : List (Nat × Evaluated)),
      (∃ rest, (p.processSpans spans (schedule ++ rest)).isSome = true) ∧
        ∀ filtered, p.processSpans spans schedule = some filtered →
          p.Sifted SpanRecord.allowSpan spans filtered :=
  ⟨process_resulted, fun p => p.process_sifted LogRecord.allowLog,
    fun p => p.process_sifted SpanRecord.allowSpan⟩

/-- Two workers; the answer for the second record is an error, and the second worker drops the
last record before the first worker has got its answer. -/
theorem batches_processed_once_of_two_workers :
    let p := newProcessor 2 true
    let logs : List LogRecord := [{ body := "a" }, { body := "b" }, { body := "b" }]
    let allow : Evaluated := { decision := { allowed := true } }
    let failed : Evaluated := { decision := { allowed := true }, err := some "down" }
    let deny : Evaluated := { decision := {} }
    let schedule := [(0, allow), (1, deny), (1, failed), (1, deny), (1, deny), (1, deny), (1, deny),
      (1, deny), (1, deny), (0, allow), (0, allow), (0, allow), (1, allow)]
    (p.processLogs logs schedule).map (fun filtered => (filtered.kept, filtered.stats)) =
        some ([{ body := "a" }, { body := "b" }], { allowed := 2, dropped := 1, errors := 1 }) ∧
      ∀ filtered, p.processLogs logs schedule = some filtered →
        p.Sifted LogRecord.allowLog logs filtered := by
  intro p logs allow failed deny schedule
  exact ⟨by decide +kernel, (batches_processed_once.2.1 p logs schedule).2⟩

end Rlaas.Adapter
