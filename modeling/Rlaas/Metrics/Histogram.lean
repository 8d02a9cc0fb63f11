import Rlaas.Go.Search

/-! The latency histogram of package `metrics` and its part of the Prometheus text. -/

set_option autoImplicit false

namespace Rlaas.Metrics

open Go

/-- The counts have one place more than the bounds, for values above all of them. -/
structure Histogram where
  bounds : List GoFloat
  counts : List Int
  sum : Int
  total : Int
  ordered : bounds.Pairwise fun x y => float64Less y x = false
  sized : counts.length = bounds.length + 1

def newHistogram (bounds : List GoFloat) : Histogram where
  bounds := float64s bounds
  counts := List.replicate ((float64s bounds).length + 1) 0
  sum := 0
  total := 0
  ordered := float64s_ordered bounds
  sized := List.length_replicate

namespace Histogram

def observe (A : Arith) (h : Histogram) (v : GoFloat) : Histogram :=
  { h with
    counts := h.counts.modify (searchFloat64s h.bounds v) fun count => A.wrap (count + 1)
    sum := A.wrap (h.sum + A.toInt v)
    total := A.wrap (h.total + 1)
    sized := (List.length_modify ..).trans h.sized }

/-- The loop of `Percentile`: the first bound up to which enough values were counted. -/
def reaching (A : Arith) (target : Int) : Int → List GoFloat → List Int → Option GoFloat
  | cum, b :: bounds, count :: counts =>
      if A.wrap (cum + count) ≥ target then some b
      else reaching A target (A.wrap (cum + count)) bounds counts
  | _, _, _ => none

def percentile (A : Arith) (h : Histogram) (p : GoFloat) : GoFloat :=
  if h.total = 0 then .fin 0
  else
    let target := A.toInt (((GoFloat.ofInt A h.total).mul A p).div A (.fin 100)).ceil
    match reaching A target 0 h.bounds h.counts with
    | some b => b
    | none => h.bounds.getLast?.getD (.fin 0)

end Histogram

/-- The verb `%.0f`. The sign of a negative bound stays when it rounds to zero; a bound that
is itself a negative zero is not told from zero here. -/
def formatBound : GoFloat → String
  | .nan => "NaN"
  | .inf true => "-Inf"
  | .inf false => "+Inf"
  | .fin q =>
      if q < 0 then "-" ++ toString (Rounding.nearestEven (-q)) else toString (Rounding.nearestEven q)

def bucketLine (le : String) (count : Int) : String :=
  "rlaas_decision_latency_us_bucket\x7ble=\"" ++ le ++ "\"\x7d " ++ toString count ++ "\n"

def sumLine (sum : Int) : String := "rlaas_decision_latency_us_sum " ++ toString sum ++ "\n"

def countLine (count : Int) : String := "rlaas_decision_latency_us_count " ++ toString count ++ "\n"

def latencyHead : List String :=
  ["# HELP rlaas_decision_latency_us Decision evaluation latency in microseconds.\n",
    "# TYPE rlaas_decision_latency_us histogram\n"]

/-- The loop over the buckets: the lines, and the count for the line after them. -/
def bucketLines (A : Arith) : Int → List GoFloat → List Int → List String × Int
  | cum, b :: bounds, count :: counts =>
      let (lines, final) := bucketLines A (A.wrap (cum + count)) bounds counts
      (bucketLine (formatBound b) (A.wrap (cum + count)) :: lines, final)
  | cum, _, counts => ([], A.wrap (cum + counts.headD 0))

/-- What `PrometheusHandler` writes for the histogram, line by line. -/
def latencyLines (A : Arith) (h : Histogram) : List String :=
  let (lines, final) := bucketLines A 0 h.bounds h.counts
  latencyHead ++ lines ++ [bucketLine "+Inf" final, sumLine h.sum, countLine h.total]

end Rlaas.Metrics
