import Rlaas.Algorithm.Charging

/-! A monitor for the loop of the two bucket algorithms: what a call has read
when it swaps the level, and that it swaps at most once. -/

set_option autoImplicit false

namespace Rlaas.Algorithm

open Go Model Store Effect

/-- How far a bucket call has got: its clock reading, the refill time it read
last, and whether it has swapped. -/
structure BucketProgress where
  now : Option Time := none
  stamp : Option Int := none
  taken : Bool := false

def BucketProgress.record (tsKey : String) (progress : BucketProgress) :
    (op : EnvOp) → EnvRes op → BucketProgress
  | .now, now => { progress with now := some now }
  | .store (.get key), .ok value =>
      if key = tsKey then { progress with stamp := some value } else progress
  | .store (.compareAndSwap ..), .ok true => { progress with taken := true }
  | _, _ => progress

structure BucketWatch where
  rule : Time → BucketRule
  levelKey : String
  tsKey : String
  timely : Time → Prop
  within : String

namespace BucketWatch

def expects (watch : BucketWatch) (_ : BucketProgress) : (op : EnvOp) → EnvRes op → Prop
  | .now, now => watch.timely now
  | _, _ => True

def guard (watch : BucketWatch) (progress : BucketProgress) : EnvOp → Prop
  | .now => progress.taken = false
  | .wallClock => progress.taken = false
  | .store (.get _) => progress.taken = false
  | .store (.compareAndSwap key oldVal newVal _) =>
      progress.taken = false ∧ key = watch.levelKey ∧
        ∃ now last decision, progress.now = some now ∧ watch.timely now ∧
          progress.stamp = some last ∧ (watch.rule now).plan oldVal last = .take newVal decision
  | .store (.set key ..) => progress.taken = true ∧ key = watch.tsKey
  | _ => False

def monitor (watch : BucketWatch) : Monitor EnvOp EnvRes BucketProgress Answer where
  expects := watch.expects
  guard := watch.guard
  advance := BucketProgress.record watch.tsKey
  accept progress answer :=
    progress.taken = true ↔ ∃ decision, answer = .ok decision ∧ decision.reason = watch.within

end BucketWatch

theorem BucketProgress.record_taken (tsKey : String) (progress : BucketProgress) (op : EnvOp)
    (answer : EnvRes op) :
    (progress.record tsKey op answer).taken = (progress.taken || swapSucceeded op answer) := by
  cases op with
  | now | wallClock => simp [record, swapSucceeded]
  | store op =>
      cases op with
      | compareAndSwap key oldVal newVal ttl =>
          rcases answer with message | swapped
          · simp [record, swapSucceeded]
          · cases swapped <;> simp [record, swapSucceeded]
      | get key =>
          rcases answer with message | value
          · simp [record, swapSucceeded]
          · by_cases same : key = tsKey <;> simp [record, swapSucceeded, same]
      | _ => simp [record, swapSucceeded]

namespace BucketWatch

theorem follow_taken (watch : BucketWatch) (events : List (Event EnvOp EnvRes))
    (progress : BucketProgress) :
    (watch.monitor.follow progress events).taken =
      (progress.taken || events.any fun event => swapSucceeded event.op event.result) :=
  watch.monitor.follow_flag BucketProgress.taken (BucketProgress.record_taken watch.tsKey) progress
    events

end BucketWatch

variable {watch : BucketWatch} {now : Time} {stamp : Option Int}

private theorem watch_refuses {policy : Policy} {retryAfter : Duration} {remaining : Int}
    {reason : String} (other : reason ≠ watch.within) :
    watch.monitor.Accepts { now := some now, stamp } (refuse policy retryAfter remaining reason) := by
  refine ⟨rfl, fun clock _ => ?_⟩
  exact iff_of_false Bool.false_ne_true (overLimitDecision_not_within other)

theorem bucketLoop_watched (watch : BucketWatch) (timely : watch.timely now)
    (levelKeyed : (watch.rule now).levelKey = watch.levelKey)
    (tsKeyed : (watch.rule now).tsKey = watch.tsKey) (apart : watch.levelKey ≠ watch.tsKey)
    (exceeded : (watch.rule now).exceeded ≠ watch.within)
    (contention : (watch.rule now).contention ≠ watch.within)
    (taken : ∀ old last level decision, (watch.rule now).plan old last = .take level decision →
      decision.reason = watch.within) (attempts : Nat) (stamp : Option Int) :
    watch.monitor.Accepts { now := some now, stamp } (bucketLoop (watch.rule now) attempts) := by
  refine bucketLoop_accepts (fun progress => ∃ stamp, progress = { now := some now, stamp })
    ?_ ?_ ?_ ?_ ⟨stamp, rfl⟩
  · rintro progress ⟨stamp, rfl⟩ key _
    refine ⟨rfl, fun answer => ?_⟩
    cases answer with
    | error message => exact ⟨stamp, rfl⟩
    | ok value =>
        by_cases same : key = watch.tsKey
        · exact ⟨some value, if_pos same⟩
        · exact ⟨stamp, if_neg same⟩
  · rintro progress ⟨stamp, rfl⟩ message
    change false = true ↔ _
    simp
  · rintro progress ⟨stamp, rfl⟩ retryAfter remaining reason known
    rcases known with rfl | rfl
    · exact watch_refuses exceeded
    · exact watch_refuses contention
  · rintro progress ⟨stamp, rfl⟩ old last level decision planned
    have read : watch.monitor.advance (watch.monitor.advance { now := some now, stamp }
        (.store (.get (watch.rule now).levelKey)) (.ok old))
        (.store (.get (watch.rule now).tsKey)) (.ok last) = { now := some now, stamp := some last } := by
      simp [BucketWatch.monitor, BucketProgress.record, levelKeyed, tsKeyed, apart]
    rw [read]
    refine ⟨⟨rfl, levelKeyed, now, last, decision, rfl, timely, rfl, planned⟩, fun _ => rfl, rfl, ?_⟩
    refine setTimestamp_accepts ⟨rfl, tsKeyed⟩ (fun answer => by cases answer <;> rfl) ?_
    change true = true ↔ _
    simp [taken _ _ _ _ planned]

end Rlaas.Algorithm
