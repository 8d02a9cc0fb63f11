import Rlaas.Adapter.Enforcement
import Rlaas.Lib.Workers

/-! The worker pools of the adapters: `BatchProcessor.Process` of package `provider` and the
`Processor` of package `otel`. A schedule names the worker that goes on and what the evaluator
would answer it, so the evaluator may keep state and serve several workers at once. -/

set_option autoImplicit false

namespace Rlaas.Adapter

open Go Model Effect

def workerCount (workers : Int) : Nat := if workers ≤ 0 then 1 else workers.toNat

theorem workerCount_pos (workers : Int) : 0 < workerCount workers := by
  unfold workerCount
  split_ifs <;> omega

abbrev EvaluationOf {R : Type} (records : List R) :=
  Evaluation records.length RequestContext Evaluated

namespace Provider

/-- The zero value that `make` leaves in `results`. -/
def RecordDecision.zero : RecordDecision where
  allowed := false
  action := .other ""
  reason := ""
  record := { signal := .other "" }
  raw := {}

def storeResult {n : Nat} (results : Vector RecordDecision n) (write : Fin n × RecordDecision) :
    Vector RecordDecision n :=
  results.set write.1 write.2 write.1.isLt

/-- The body of a worker's loop. -/
def BatchProcessor.batch (bp : BatchProcessor) (records : List TelemetryRecord) :
    Batch records.length RequestContext Evaluated (Fin records.length × RecordDecision) where
  request idx := (records.get idx).toRequestContext
  writes idx evaluated := [(idx, bp.result (records.get idx) evaluated)]

structure Processed (records : List TelemetryRecord) where
  results : Vector RecordDecision records.length
  evaluations : List (EvaluationOf records)

/-- `Process` with `bp.Workers` as given; it returns once every worker has. -/
def BatchProcessor.process (bp : BatchProcessor) (workers : Int) (records : List TelemetryRecord)
    (schedule : List (Nat × Evaluated)) : Option (Processed records) :=
  let results := Vector.replicate records.length RecordDecision.zero
  if records = [] then some ⟨results, []⟩
  else
    ((bp.batch records).outcome storeResult results (workerCount workers) schedule).map
      fun (results, evaluations) => ⟨results, evaluations⟩

end Provider

namespace Otel

structure LogRecord where
  orgID : String := ""
  service : String := ""
  severity : String := ""
  tags : StringMap := .empty
  body : String := ""
  deriving DecidableEq

structure SpanRecord where
  orgID : String := ""
  service : String := ""
  name : String := ""
  tags : StringMap := .empty
  deriving DecidableEq

/-- What `Hook.AllowLog` asks for a record. -/
def LogRecord.allowLog (r : LogRecord) : RequestContext :=
  { orgID := r.orgID
    service := r.service
    severity := r.severity
    signalType := "log"
    operation := "otel_log"
    tags := r.tags }

/-- What `Hook.AllowSpan` asks for a record. -/
def SpanRecord.allowSpan (r : SpanRecord) : RequestContext :=
  { orgID := r.orgID
    service := r.service
    spanName := r.name
    signalType := "span"
    operation := "otel_span"
    tags := r.tags }

structure ProcessorStats where
  allowed : Int64 := 0
  dropped : Int64 := 0
  errors : Int64 := 0
  deriving DecidableEq

structure Processor where
  workers : Nat
  failOpen : Bool
  stats : ProcessorStats := {}
  employed : 0 < workers

def newProcessor (workers : Int) (failOpen : Bool) : Processor where
  workers := workerCount workers
  failOpen
  employed := workerCount_pos workers

/-- A write of a worker: an atomic counter or `keep[idx] = false`. -/
inductive Write (n : Nat) where
  | errorCnt
  | unkeep (idx : Fin n)
  | dropCnt
  | allowCnt

structure Marks (n : Nat) where
  keep : Vector Bool n
  stats : ProcessorStats

def Marks.store {n : Nat} (marks : Marks n) : Write n → Marks n
  | .errorCnt => { marks with stats.errors := marks.stats.errors + 1 }
  | .unkeep idx => { marks with keep := marks.keep.set idx false idx.isLt }
  | .dropCnt => { marks with stats.dropped := marks.stats.dropped + 1 }
  | .allowCnt => { marks with stats.allowed := marks.stats.allowed + 1 }

namespace Processor

/-- What a worker does after the evaluation of a record. Under `failOpen` an error is counted
and the decision that came with it is obeyed. -/
def writes {n : Nat} (p : Processor) (idx : Fin n) (evaluated : Evaluated) : List (Write n) :=
  let obeyed := if !evaluated.decision.allowed then [.unkeep idx, .dropCnt] else [.allowCnt]
  match evaluated.err with
  | some _ => .errorCnt :: if !p.failOpen then [.unkeep idx, .dropCnt] else obeyed
  | none => obeyed

variable {R : Type}

def batch (p : Processor) (request : R → RequestContext) (records : List R) :
    Batch records.length RequestContext Evaluated (Write records.length) where
  request idx := request (records.get idx)
  writes := p.writes

/-- The last loop, which goes over the indices and collects what is to be kept. -/
def collect (records : List R) (keep : Fin records.length → Bool) : List R :=
  ((List.finRange records.length).filter keep).map records.get

structure Filtered (records : List R) where
  kept : List R
  stats : ProcessorStats
  evaluations : List (EvaluationOf records)

def process (p : Processor) (request : R → RequestContext) (records : List R)
    (schedule : List (Nat × Evaluated)) : Option (Filtered records) :=
  if records = [] then some ⟨[], p.stats, []⟩
  else
    ((p.batch request records).outcome Marks.store ⟨Vector.replicate records.length true, p.stats⟩
      p.workers schedule).map fun (marks, evaluations) =>
        ⟨collect records marks.keep.get, marks.stats, evaluations⟩

def processLogs (p : Processor) (logs : List LogRecord) (schedule : List (Nat × Evaluated)) :
    Option (Filtered logs) :=
  p.process LogRecord.allowLog logs schedule

def processSpans (p : Processor) (spans : List SpanRecord) (schedule : List (Nat × Evaluated)) :
    Option (Filtered spans) :=
  p.process SpanRecord.allowSpan spans schedule

end Processor

end Otel

end Rlaas.Adapter
