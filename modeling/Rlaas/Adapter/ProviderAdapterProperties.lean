import Rlaas.Adapter.BatchProperties
import Rlaas.Adapter.ProviderAdapter

/-! What `ProviderAdapter.ProcessBatch` reports against what the processor has kept. -/

set_option autoImplicit false

namespace Rlaas.Adapter.Otel

open Go Model Adapter.Provider Effect

variable {n : Nat}

namespace Processor

def unkeep (keep : Vector Bool n) : Write n → Vector Bool n
  | .unkeep idx => keep.set idx false idx.isLt
  | _ => keep

theorem unkeep_store (marks : Marks n) (write : Write n) :
    unkeep marks.keep write = (marks.store write).keep := by
  cases write with
  | _ => rfl

variable {R : Type} (p : Processor) (request : R → RequestContext) (records : List R)
  (schedule : List (Nat × Evaluated))

/-- `keep` when every worker has returned. -/
def keep : List Bool :=
  match (p.batch request records).outcome unkeep (Vector.replicate records.length true) p.workers
    schedule with
  | some (keep, _) => keep.toList
  | none => []

theorem zip_eq_finRange (marks : Vector Bool records.length) :
    records.zip marks.toList = (List.finRange records.length).map fun idx =>
      (records.get idx, marks.get idx) := by
  refine List.ext_getElem ?_ fun idx _ _ => ?_
  · simp
  · simp
    rfl

theorem collect_eq_zip (marks : Vector Bool records.length) :
    collect records marks.get = ((records.zip marks.toList).filter Prod.snd).map Prod.fst := by
  rw [zip_eq_finRange, List.filter_map, List.map_map]
  rfl

variable {p request records schedule}

theorem kept_eq {filtered : Filtered records}
    (returned : p.process request records schedule = some filtered) :
    (p.keep request records schedule).length = records.length ∧
      filtered.kept =
        ((records.zip (p.keep request records schedule)).filter Prod.snd).map Prod.fst := by
  by_cases empty : records = []
  · subst empty
    obtain rfl := Option.some.inj returned
    refine ⟨?_, rfl⟩
    unfold keep
    split
    · exact Vector.length_toList
    · rfl
  · unfold process at returned
    rw [if_neg empty] at returned
    obtain ⟨⟨marks, evaluations⟩, outcome, rfl⟩ := Option.map_eq_some_iff.mp returned
    have view := (p.batch request records).outcome_view Marks.keep unkeep_store
      ⟨Vector.replicate records.length true, p.stats⟩ p.workers schedule
    rw [outcome] at view
    have kept : p.keep request records schedule = marks.keep.toList := by
      unfold keep
      rw [show Vector.replicate records.length true =
        Marks.keep ⟨Vector.replicate records.length true, p.stats⟩ from rfl, view]
      rfl
    rw [kept]
    exact ⟨Vector.length_toList, collect_eq_zip records marks.keep⟩

end Processor

section Matching

variable {X : Type} {found : X → X → Bool} {marked : List (X × Bool)}

/-- What was kept of marked items. -/
def keptOf (marked : List (X × Bool)) : List X := (marked.filter Prod.snd).map Prod.fst

theorem mem_keptOf {item : X} : item ∈ keptOf marked ↔ (item, true) ∈ marked := by
  simp [keptOf]

theorem any_keptOf {item : X} :
    (keptOf marked).any (found item) = true ↔
      ∃ other, (other, true) ∈ marked ∧ found item other = true := by
  simp only [List.any_eq_true, mem_keptOf]

variable (found marked) in
/-- Items are found again among the kept ones just if they were kept, provided that what is found
for another was kept with it. -/
theorem found_iff_kept (refl : ∀ item, found item item = true)
    (symm : ∀ item other, found item other = true → found other item = true) :
    (∀ item ∈ marked.map Prod.fst,
        ((keptOf marked).any (found item) = true ↔ (item, true) ∈ marked)) ↔
      ∀ item ∈ marked.map Prod.fst, ∀ other ∈ marked.map Prod.fst, found item other = true →
        ((item, true) ∈ marked ↔ (other, true) ∈ marked) := by
  constructor
  · intro recovered item here other there alike
    constructor
    · intro kept
      exact (recovered other there).mp (any_keptOf.mpr ⟨item, kept, symm item other alike⟩)
    · intro kept
      exact (recovered item here).mp (any_keptOf.mpr ⟨other, kept, alike⟩)
  · intro uniform item here
    rw [any_keptOf]
    constructor
    · rintro ⟨other, kept, alike⟩
      have there : other ∈ marked.map Prod.fst := List.mem_map_of_mem kept
      exact (uniform item here other there alike).mpr kept
    · intro kept
      exact ⟨item, kept, refl item⟩

/-- A test that holds of the kept items alone counts them. -/
theorem countP_of_kept {test : X → Bool} (unique : (marked.map Prod.fst).Nodup)
    (right : ∀ item ∈ marked.map Prod.fst, (test item = true ↔ (item, true) ∈ marked)) :
    (marked.map Prod.fst).countP test = (keptOf marked).length := by
  rw [List.countP_map, keptOf, List.length_map, ← List.countP_eq_length_filter]
  refine List.countP_congr fun ⟨item, kept⟩ member => ?_
  have listed : item ∈ marked.map Prod.fst := List.mem_map_of_mem member
  refine (right item listed).trans ⟨fun other => ?_, fun marked => ?_⟩
  · exact (congrArg Prod.snd (List.inj_on_of_nodup_map unique member other rfl)).trans rfl
  · obtain rfl : kept = true := marked
    exact member

end Matching

/-- The places of a batch with this signal, in that order. -/
def places (records : List TelemetryRecord) (signal : String) : List (Fin records.length) :=
  (List.finRange records.length).filter fun i => (records.get i).signal.name = signal

theorem mem_places {records : List TelemetryRecord} {signal : String} {i : Fin records.length} :
    i ∈ places records signal ↔ (records.get i).signal.name = signal := by
  simp [places]

theorem places_nodup (records : List TelemetryRecord) (signal : String) :
    (places records signal).Nodup :=
  (List.nodup_finRange _).filter _

/-- A list that each step of a fold extends by one item or leaves alone. -/
theorem foldl_collects {S I X : Type} {step : S → I → S} (view : S → List X) (test : I → Bool)
    (item : I → X)
    (collects : ∀ state i, view (step state i) = view state ++ if test i then [item i] else [])
    (indices : List I) (state : S) :
    view (indices.foldl step state) = view state ++ (indices.filter test).map item := by
  induction indices generalizing state with
  | nil => exact (List.append_nil _).symm
  | cons i rest ih =>
      rw [List.foldl_cons, ih, collects, List.append_assoc, List.filter_cons]
      cases test i with
      | true => rfl
      | false => rfl

theorem Sorted.add_logs (sorted : Sorted n) (i : Fin n) (rec : TelemetryRecord) :
    (sorted.add i rec).logs =
      sorted.logs ++ if rec.signal.name = "log" then [⟨i, toLogRecord rec⟩] else [] := by
  unfold Sorted.add
  split
  · rfl
  · split
    · exact (List.append_nil _).symm
    · exact (List.append_nil _).symm

theorem Sorted.add_spans (sorted : Sorted n) (i : Fin n) (rec : TelemetryRecord) :
    (sorted.add i rec).spans =
      sorted.spans ++ if rec.signal.name = "span" then [⟨i, toSpanRecord rec⟩] else [] := by
  unfold Sorted.add
  by_cases log : rec.signal.name = "log"
  · simp [log]
  · rw [if_neg log]
    split
    · rfl
    · exact (List.append_nil _).symm

theorem sort_logs (records : List TelemetryRecord) :
    (sort records).logs =
      (places records "log").map fun i => ⟨i, toLogRecord (records.get i)⟩ := by
  refine (foldl_collects Sorted.logs _ _ (fun sorted i => ?_) _ _).trans (List.nil_append _)
  rw [Sorted.add_logs]
  simp only [decide_eq_true_eq]

theorem sort_spans (records : List TelemetryRecord) :
    (sort records).spans =
      (places records "span").map fun i => ⟨i, toSpanRecord (records.get i)⟩ := by
  refine (foldl_collects Sorted.spans _ _ (fun sorted i => ?_) _ _).trans (List.nil_append _)
  rw [Sorted.add_spans]
  simp only [decide_eq_true_eq]

theorem verdict_allowed (kept : Bool) (rec : TelemetryRecord) : (verdict kept rec).allowed = kept := by
  cases kept with
  | true => rfl
  | false => rfl

section Judge

variable {R : Type} {p : Processor} {request : R → RequestContext} {found : R → R → Bool}
  {records : Fin n → TelemetryRecord} {build : TelemetryRecord → R} {places : List (Fin n)}
  {results : Vector RecordDecision n} {schedule : List (Nat × Evaluated)} {judged : Judged n R}

/-- The places of a signal with the processor's `keep` for them. -/
def marks (p : Processor) (request : R → RequestContext) (build : TelemetryRecord → R)
    (records : Fin n → TelemetryRecord) (places : List (Fin n)) (schedule : List (Nat × Evaluated)) :
    List (Fin n × Bool) :=
  places.zip (p.keep request (places.map fun i => build (records i)) schedule)

theorem zip_map_left {X Y : Type} (view : X → Y) (items : List X) (flags : List Bool) :
    ((items.map view).zip flags).filter Prod.snd =
      ((items.zip flags).filter Prod.snd).map (Prod.map view id) := by
  rw [List.zip_map_left, List.filter_map]
  rfl

/-- Each place gets the verdict about what is found again for it. -/
theorem judge_spec
    (returned : judge p (fun input => p.process request input schedule) found records
      (places.map fun i => ⟨i, build (records i)⟩) results = some judged) :
    (marks p request build records places schedule).map Prod.fst = places ∧
      judged.kept = (keptOf (marks p request build records places schedule)).map
        (fun i => build (records i)) ∧
      (∃ stats, judged.proc = { p with stats }) ∧
      ∀ i, judged.results.get i =
        if i ∈ places then
          verdict ((keptOf (marks p request build records places schedule)).any fun j =>
            found (build (records i)) (build (records j))) (records i)
        else results.get i := by
  unfold judge at returned
  by_cases empty : places = []
  · subst empty
    obtain rfl := Option.some.inj returned
    exact ⟨rfl, rfl, ⟨p.stats, rfl⟩, fun i => rfl⟩
  · rw [if_neg fun none => empty (List.map_eq_nil_iff.mp none)] at returned
    generalize shape : (places.map fun i => (⟨i, build (records i)⟩ : Indexed n R)).map
      Indexed.record = input at returned
    obtain ⟨filtered, processed, rfl⟩ := Option.map_eq_some_iff.mp returned
    rw [List.map_map] at shape
    change places.map (fun i => build (records i)) = input at shape
    subst shape
    obtain ⟨size, kept⟩ := Processor.kept_eq processed
    have whole : (marks p request build records places schedule).map Prod.fst = places :=
      List.map_fst_zip (by rw [size, List.length_map])
    have selected : filtered.kept = (keptOf (marks p request build records places schedule)).map
        fun i => build (records i) := by
      rw [kept, zip_map_left, List.map_map, keptOf, List.map_map]
      rfl
    refine ⟨whole, selected, ⟨filtered.stats, rfl⟩, fun i => ?_⟩
    dsimp only
    rw [List.foldl_map, selected]
    refine (get_foldl_set (fun i => verdict _ (records i)) places results i).trans ?_
    rw [List.any_map]
    rfl

/-- The reports on one signal are right just if alike records have shared their fate. -/
theorem judge_iff {F : Type} (fields : R → F)
    (alike : ∀ record other, found record other = true ↔ fields record = fields other)
    (returned : judge p (fun input => p.process request input schedule) found records
      (places.map fun i => ⟨i, build (records i)⟩) results = some judged) :
    (∀ i ∈ places, ((judged.results.get i).allowed = true ↔
        (i, true) ∈ marks p request build records places schedule)) ↔
      ∀ i ∈ places, ∀ j ∈ places, found (build (records i)) (build (records j)) = true →
        ((i, true) ∈ marks p request build records places schedule ↔
          (j, true) ∈ marks p request build records places schedule) := by
  obtain ⟨whole, _, _, reported⟩ := judge_spec returned
  have uniform := found_iff_kept (fun i j => found (build (records i)) (build (records j)))
    (marks p request build records places schedule) (fun _ => (alike _ _).mpr rfl)
    fun _ _ same => (alike _ _).mpr ((alike _ _).mp same).symm
  rw [whole] at uniform
  rw [← uniform]
  refine forall₂_congr fun i here => ?_
  rw [reported, if_pos here, verdict_allowed]

theorem judge_returns (indexed : List (Indexed n R)) :
    ∃ rest, (judge p (fun input => p.process request input (schedule ++ rest)) found records indexed
      results).isSome = true := by
  unfold judge
  by_cases empty : indexed = []
  · exact ⟨[], by rw [if_pos empty, Option.isSome_some]⟩
  · obtain ⟨rest, finished⟩ := (p.process_sifted request (indexed.map Indexed.record) schedule).1
    exact ⟨rest, by rw [if_neg empty, Option.isSome_map, finished]⟩

theorem judge_count (unique : places.Nodup)
    (returned : judge p (fun input => p.process request input schedule) found records
      (places.map fun i => ⟨i, build (records i)⟩) results = some judged)
    (right : ∀ i ∈ places, ((judged.results.get i).allowed = true ↔
      (i, true) ∈ marks p request build records places schedule)) :
    places.countP (fun i => (judged.results.get i).allowed) = judged.kept.length := by
  obtain ⟨whole, kept, _, _⟩ := judge_spec returned
  rw [kept, List.length_map]
  conv_lhs => rw [← whole]
  refine countP_of_kept (whole.symm ▸ unique) ?_
  rw [whole]
  exact right

end Judge

namespace ProviderAdapter

variable (a : ProviderAdapter) (records : List TelemetryRecord)
  (logSchedule spanSchedule : List (Nat × Evaluated))

def logMarks : List (Fin records.length × Bool) :=
  marks a.proc LogRecord.allowLog toLogRecord records.get (places records "log") logSchedule

def spanMarks : List (Fin records.length × Bool) :=
  marks a.proc SpanRecord.allowSpan toSpanRecord records.get (places records "span") spanSchedule

/-- The processor kept the very record at this place. -/
def Keeps (i : Fin records.length) : Prop :=
  (i, true) ∈ a.logMarks records logSchedule ∨ (i, true) ∈ a.spanMarks records spanSchedule

instance (i : Fin records.length) : Decidable (a.Keeps records logSchedule spanSchedule i) :=
  inferInstanceAs (Decidable (_ ∨ _))

/-- Every log and span is reported as allowed just if it was kept, so as many of them are
reported as were kept. -/
structure Faithful (reported : Reported records.length) : Prop where
  each : ∀ i, (records.get i).signal.name = "log" ∨ (records.get i).signal.name = "span" →
    ((reported.results.get i).allowed = true ↔ a.Keeps records logSchedule spanSchedule i)
  logs : (places records "log").countP (fun i => (reported.results.get i).allowed) =
    reported.keptLogs.length
  spans : (places records "span").countP (fun i => (reported.results.get i).allowed) =
    reported.keptSpans.length

end ProviderAdapter

/-- Records whose native records have the same fields, their tags apart. -/
def Alike (first second : TelemetryRecord) : Prop :=
  (first.signal.name = "log" ∧ second.signal.name = "log" ∧
      (toLogRecord first).sameAs (toLogRecord second) = true) ∨
    (first.signal.name = "span" ∧ second.signal.name = "span" ∧
      (toSpanRecord first).sameAs (toSpanRecord second) = true)

instance (first second : TelemetryRecord) : Decidable (Alike first second) :=
  inferInstanceAs (Decidable (_ ∨ _))

section Batch

variable {a : ProviderAdapter} {records : List TelemetryRecord}
  {logSchedule spanSchedule : List (Nat × Evaluated)} {reported : Reported records.length}

theorem processBatch_halves
    (returned : a.processBatch records logSchedule spanSchedule = some reported) :
    ∃ logs spans,
      judge a.proc (fun input => a.proc.process LogRecord.allowLog input logSchedule) LogRecord.sameAs
          records.get ((places records "log").map fun i => ⟨i, toLogRecord (records.get i)⟩)
          (sort records).results = some logs ∧
        judge logs.proc (fun input => logs.proc.process SpanRecord.allowSpan input spanSchedule)
          SpanRecord.sameAs records.get
          ((places records "span").map fun i => ⟨i, toSpanRecord (records.get i)⟩) logs.results =
            some spans ∧
        reported.results = spans.results ∧ reported.keptLogs = logs.kept ∧
        reported.keptSpans = spans.kept := by
  unfold ProviderAdapter.processBatch at returned
  simp only [sort_logs, sort_spans] at returned
  obtain ⟨logs, first, returned⟩ := Option.bind_eq_some_iff.mp returned
  obtain ⟨spans, second, rfl⟩ := Option.map_eq_some_iff.mp returned
  exact ⟨logs, spans, first, second, rfl, rfl, rfl⟩

theorem marks_mem {R : Type} {p : Processor} {request : R → RequestContext}
    {build : TelemetryRecord → R} {records : Fin n → TelemetryRecord} {places : List (Fin n)}
    {schedule : List (Nat × Evaluated)} {i : Fin n} {kept : Bool}
    (marked : (i, kept) ∈ marks p request build records places schedule) : i ∈ places :=
  (List.of_mem_zip marked).1

theorem keeps_log {i : Fin records.length} (log : (records.get i).signal.name = "log") :
    a.Keeps records logSchedule spanSchedule i ↔ (i, true) ∈ a.logMarks records logSchedule := by
  refine or_iff_left fun marked => ?_
  have span := mem_places.mp (marks_mem marked)
  rw [log] at span
  exact absurd span (by decide)

theorem keeps_span {i : Fin records.length} (span : (records.get i).signal.name = "span") :
    a.Keeps records logSchedule spanSchedule i ↔ (i, true) ∈ a.spanMarks records spanSchedule := by
  refine or_iff_right fun marked => ?_
  have log := mem_places.mp (marks_mem marked)
  rw [span] at log
  exact absurd log (by decide)

/-- Alike records have shared their fate, signal by signal. -/
theorem uniform_iff :
    (∀ i j, Alike (records.get i) (records.get j) →
        (a.Keeps records logSchedule spanSchedule i ↔ a.Keeps records logSchedule spanSchedule j)) ↔
      (∀ i ∈ places records "log", ∀ j ∈ places records "log",
        (toLogRecord (records.get i)).sameAs (toLogRecord (records.get j)) = true →
          ((i, true) ∈ a.logMarks records logSchedule ↔
            (j, true) ∈ a.logMarks records logSchedule)) ∧
      ∀ i ∈ places records "span", ∀ j ∈ places records "span",
        (toSpanRecord (records.get i)).sameAs (toSpanRecord (records.get j)) = true →
          ((i, true) ∈ a.spanMarks records spanSchedule ↔
            (j, true) ∈ a.spanMarks records spanSchedule) := by
  simp only [mem_places]
  constructor
  · intro uniform
    refine ⟨fun i here j there alike => ?_, fun i here j there alike => ?_⟩
    · have shared := uniform i j (.inl ⟨here, there, alike⟩)
      rwa [keeps_log here, keeps_log there] at shared
    · have shared := uniform i j (.inr ⟨here, there, alike⟩)
      rwa [keeps_span here, keeps_span there] at shared
  · rintro ⟨logs, spans⟩ i j (⟨here, there, alike⟩ | ⟨here, there, alike⟩)
    · rw [keeps_log here, keeps_log there]
      exact logs i here j there alike
    · rw [keeps_span here, keeps_span there]
      exact spans i here j there alike

theorem faithful_iff
    (returned : a.processBatch records logSchedule spanSchedule = some reported) :
    a.Faithful records logSchedule spanSchedule reported ↔
      ∀ i j, Alike (records.get i) (records.get j) →
        (a.Keeps records logSchedule spanSchedule i ↔
          a.Keeps records logSchedule spanSchedule j) := by
  obtain ⟨logs, spans, first, second, results, keptLogs, keptSpans⟩ := processBatch_halves returned
  obtain ⟨_, _, ⟨stats, threaded⟩, _⟩ := judge_spec first
  obtain ⟨_, _, _, written⟩ := judge_spec second
  have spanMarks : marks logs.proc SpanRecord.allowSpan toSpanRecord records.get
      (places records "span") spanSchedule = a.spanMarks records spanSchedule := by
    rw [threaded]
    rfl
  have logResults : ∀ i ∈ places records "log", reported.results.get i = logs.results.get i := by
    intro i here
    rw [results, written, if_neg]
    intro there
    have log := mem_places.mp here
    rw [mem_places.mp there] at log
    exact absurd log (by decide)
  have logsRight := judge_iff (fun log => (log.orgID, log.service, log.severity))
    (by simp [LogRecord.sameAs, and_assoc]) first
  have spansRight := judge_iff (fun span => (span.orgID, span.service, span.name))
    (by simp [SpanRecord.sameAs, and_assoc]) second
  rw [spanMarks] at spansRight
  rw [uniform_iff]
  constructor
  · intro faithful
    refine ⟨logsRight.mp fun i here => ?_, spansRight.mp fun i here => ?_⟩
    · have log := mem_places.mp here
      rw [← logResults i here, faithful.each i (.inl log), keeps_log log]
      rfl
    · have span := mem_places.mp here
      rw [← results, faithful.each i (.inr span), keeps_span span]
  · rintro ⟨logsUniform, spansUniform⟩
    have logsExact := logsRight.mpr logsUniform
    have spansExact := spansRight.mpr spansUniform
    refine ⟨fun i signal => ?_, ?_, ?_⟩
    · rcases signal with log | span
      · have here := mem_places.mpr log
        rw [logResults i here, logsExact i here, keeps_log log]
        rfl
      · rw [results, spansExact i (mem_places.mpr span), keeps_span span]
    · rw [keptLogs, ← judge_count (places_nodup records "log") first logsExact]
      exact List.countP_congr fun i here => by rw [logResults i here]
    · rw [← spanMarks] at spansExact
      rw [keptSpans, ← judge_count (places_nodup records "span") second spansExact, results]

theorem processBatch_returns (a : ProviderAdapter) (records : List TelemetryRecord)
    (logSchedule spanSchedule : List (Nat × Evaluated)) :
    ∃ logRest spanRest, (a.processBatch records (logSchedule ++ logRest)
      (spanSchedule ++ spanRest)).isSome = true := by
  obtain ⟨logRest, logsDone⟩ := judge_returns (sort records).logs
  obtain ⟨logs, first⟩ := Option.isSome_iff_exists.mp logsDone
  obtain ⟨spanRest, spansDone⟩ := judge_returns (sort records).spans
  obtain ⟨spans, second⟩ := Option.isSome_iff_exists.mp spansDone
  refine ⟨logRest, spanRest, ?_⟩
  unfold ProviderAdapter.processBatch
  dsimp only
  unfold Processor.processLogs Processor.processSpans
  rw [first, Option.bind_some, second]
  rfl

end Batch

/-- Whatever the workers do, the batch can be brought to its end; then the reports on its logs
and spans are right just if no two alike records were treated differently. -/
theorem reports_faithful_iff (a : ProviderAdapter) (records : List TelemetryRecord)
    (logSchedule spanSchedule : List (Nat × Evaluated)) :
    (∃ logRest spanRest, (a.processBatch records (logSchedule ++ logRest)
        (spanSchedule ++ spanRest)).isSome = true) ∧
      ∀ reported, a.processBatch records logSchedule spanSchedule = some reported →
        (a.Faithful records logSchedule spanSchedule reported ↔
          ∀ i j, Alike (records.get i) (records.get j) →
            (a.Keeps records logSchedule spanSchedule i ↔
              a.Keeps records logSchedule spanSchedule j)) :=
  ⟨processBatch_returns a records logSchedule spanSchedule, fun _ returned => faithful_iff returned⟩

private def allow : Evaluated := { decision := { allowed := true } }

private def deny : Evaluated := { decision := {} }

/-- One worker that is told to let the first record through and to drop the second. -/
private def firstOnly : List (Nat × Evaluated) :=
  [(0, allow), (0, allow), (0, allow), (0, deny), (0, deny), (0, deny), (0, deny), (0, deny)]

private def info (service : String) : TelemetryRecord :=
  { signal := .log, orgID := "o", service, severity := "info" }

theorem reports_faithful_of_two_services :
    ∃ reported, (newProviderAdapter 1 false).processBatch [info "s", info "t"] firstOnly [] =
        some reported ∧
      (newProviderAdapter 1 false).Faithful [info "s", info "t"] firstOnly [] reported := by
  obtain ⟨reported, returned⟩ := Option.isSome_iff_exists.mp
    (by decide +kernel : ((newProviderAdapter 1 false).processBatch [info "s", info "t"] firstOnly
      []).isSome = true)
  exact ⟨reported, returned, ((reports_faithful_iff (newProviderAdapter 1 false) [info "s", info "t"]
    firstOnly []).2 reported returned).mpr (by decide +kernel)⟩

/-- Of two equal logs one is kept and both are reported as allowed. -/
theorem equal_logs_reported_twice :
    ((newProviderAdapter 1 false).processBatch [info "s", info "s"] firstOnly []).map
        (fun reported => (reported.results.toList.map (·.allowed), reported.keptLogs)) =
      some ([true, true], [toLogRecord (info "s")]) ∧
    ¬(newProviderAdapter 1 false).Keeps [info "s", info "s"] firstOnly [] ⟨1, by decide⟩ := by
  decide +kernel

end Rlaas.Adapter.Otel
