import Rlaas.Adapter.Batch

/-! `ProviderAdapter` of package `otel`: a batch of telemetry records is sorted into logs and
spans, each sort goes through the `Processor`, and what it kept is found again among what was
put in. -/

set_option autoImplicit false

namespace Rlaas.Adapter.Otel

open Go Model Adapter.Provider Effect

structure ProviderAdapter where
  proc : Processor

def newProviderAdapter (workers : Int) (failOpen : Bool) : ProviderAdapter where
  proc := newProcessor workers failOpen

def toLogRecord (rec : TelemetryRecord) : LogRecord :=
  { orgID := rec.orgID
    service := rec.service
    severity := rec.severity
    tags := rec.tags }

def toSpanRecord (rec : TelemetryRecord) : SpanRecord :=
  { orgID := rec.orgID
    service := rec.service
    name := rec.operation
    tags := rec.tags }

/-- `logIndex` and `spanIndex`: a record with its place in the batch. -/
structure Indexed (n : Nat) (R : Type) where
  idx : Fin n
  record : R

/-- The variables of the first loop. -/
structure Sorted (n : Nat) where
  results : Vector RecordDecision n
  logs : List (Indexed n LogRecord) := []
  spans : List (Indexed n SpanRecord) := []

/-- Unknown signal types pass through as allowed. -/
def unsupported (rec : TelemetryRecord) : RecordDecision where
  allowed := true
  action := .allow
  reason := "unsupported_signal"
  record := rec
  raw := {}

variable {n : Nat}

def Sorted.add (sorted : Sorted n) (i : Fin n) (rec : TelemetryRecord) : Sorted n :=
  if rec.signal.name = "log" then
    { sorted with logs := sorted.logs ++ [⟨i, toLogRecord rec⟩] }
  else if rec.signal.name = "span" then
    { sorted with spans := sorted.spans ++ [⟨i, toSpanRecord rec⟩] }
  else { sorted with results := sorted.results.set i (unsupported rec) i.isLt }

def sort (records : List TelemetryRecord) : Sorted records.length :=
  (List.finRange records.length).foldl (fun sorted i => sorted.add i (records.get i))
    { results := Vector.replicate records.length RecordDecision.zero }

/-- What is reported for a log or a span. -/
def verdict (kept : Bool) (rec : TelemetryRecord) : RecordDecision :=
  if kept then
    { allowed := true, action := .allow, reason := "allowed", record := rec, raw := {} }
  else
    { allowed := false, action := .drop, reason := "rate_limited", record := rec, raw := {} }

/-- The fields by which a log is found again. -/
def LogRecord.sameAs (log k : LogRecord) : Bool :=
  log.orgID == k.orgID && log.service == k.service && log.severity == k.severity

/-- The fields by which a span is found again. -/
def SpanRecord.sameAs (span k : SpanRecord) : Bool :=
  span.orgID == k.orgID && span.service == k.service && span.name == k.name

/-- What the half of `ProcessBatch` for one signal leaves. -/
structure Judged (n : Nat) (R : Type) where
  results : Vector RecordDecision n
  proc : Processor
  kept : List R

/-- The half of `ProcessBatch` for one signal. `keptSet` has a place of the input if what is
there matches some kept record. -/
def judge {R : Type} (proc : Processor)
    (process : (input : List R) → Option (Processor.Filtered input))
    (found : R → R → Bool) (records : Fin n → TelemetryRecord) (indexed : List (Indexed n R))
    (results : Vector RecordDecision n) : Option (Judged n R) :=
  if indexed = [] then some ⟨results, proc, []⟩
  else
    (process (indexed.map Indexed.record)).map fun filtered =>
      { results := indexed.foldl (fun results item =>
          results.set item.idx
            (verdict (filtered.kept.any (found item.record)) (records item.idx)) item.idx.isLt) results
        proc := { proc with stats := filtered.stats }
        kept := filtered.kept }

/-- What `ProcessBatch` returns, with what the processor kept on the way. -/
structure Reported (n : Nat) where
  results : Vector RecordDecision n
  adapter : ProviderAdapter
  keptLogs : List LogRecord
  keptSpans : List SpanRecord

/-- `ProcessBatch` under schedules of the workers that process the logs and the spans. -/
def ProviderAdapter.processBatch (a : ProviderAdapter) (records : List TelemetryRecord)
    (logSchedule spanSchedule : List (Nat × Evaluated)) : Option (Reported records.length) :=
  let sorted := sort records
  (judge a.proc (fun input => a.proc.processLogs input logSchedule) LogRecord.sameAs records.get
      sorted.logs sorted.results).bind fun logs =>
    (judge logs.proc (fun input => logs.proc.processSpans input spanSchedule) SpanRecord.sameAs
        records.get sorted.spans logs.results).map fun spans =>
      { results := spans.results
        adapter := ⟨spans.proc⟩
        keptLogs := logs.kept
        keptSpans := spans.kept }

end Rlaas.Adapter.Otel
