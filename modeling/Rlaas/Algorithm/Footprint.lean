import Rlaas.Algorithm.Evaluators
import Rlaas.Key.BuilderProperties
import Rlaas.Lib.Monitor

/-! Which storage keys a call can touch, and with which operations. -/

set_option autoImplicit false

namespace Rlaas.Algorithm

open Go Model Store Key Effect Delimited

inductive Suffix where
  | window (start : Int)
  | slidingCounter (start : Int)
  | quota (start : Int)
  | tokens
  | tokensTs
  | level
  | levelTs
  | log
  | concurrency

namespace Suffix

def text : Suffix → String
  | .window start => ":" ++ toString start
  | .slidingCounter start => ":swc:" ++ toString start
  | .quota start => ":quota:" ++ toString start
  | .tokens => ":tb:tokens"
  | .tokensTs => ":tb:ts"
  | .level => ":lb:level"
  | .levelTs => ":lb:ts"
  | .log => ":swl"
  | .concurrency => ":concurrency"

def chunks : Suffix → List (List Char)
  | .window start => [(toString start).toList]
  | .slidingCounter start => ["swc".toList, (toString start).toList]
  | .quota start => ["quota".toList, (toString start).toList]
  | .tokens => ["tb".toList, "tokens".toList]
  | .tokensTs => ["tb".toList, "ts".toList]
  | .level => ["lb".toList, "level".toList]
  | .levelTs => ["lb".toList, "ts".toList]
  | .log => ["swl".toList]
  | .concurrency => ["concurrency".toList]

theorem text_toList (suffix : Suffix) : suffix.text.toList = encode ':' suffix.chunks := by
  cases suffix <;> simp [text, chunks, encode, String.toList_append]

end Suffix

private theorem printed_plain (n : Int) :
    ':' ∉ (toString n).toList ∧ isSegment (toString n).toList = false := by
  constructor
  · intro member
    rcases Strings.toString_chars n member with digit | sign
    · exact absurd digit (by decide)
    · exact absurd sign (by decide)
  · rw [isSegment, List.contains_eq_mem, decide_eq_false_iff_not]
    intro member
    rcases Strings.toString_chars n member with digit | sign
    · exact absurd digit (by decide)
    · exact absurd sign (by decide)

theorem Suffix.chunks_plain (suffix : Suffix) :
    ∀ chunk ∈ suffix.chunks, ':' ∉ chunk ∧ isSegment chunk = false := by
  cases suffix with
  | window start => simpa [chunks] using printed_plain start
  | slidingCounter start | quota start =>
      intro chunk member
      rcases List.mem_cons.mp member with word | number
      · subst word
        decide
      · rw [List.mem_singleton.mp number]
        exact printed_plain start
  | tokens | tokensTs | level | levelTs | log | concurrency => decide

def Under (key storageKey : String) : Prop := ∃ suffix : Suffix, storageKey = key ++ suffix.text

/-- Storage keys under different keys of one builder never coincide. -/
theorem key_eq_of_under {builder : DefaultBuilder} {policy policy' : Policy}
    {req req' : RequestContext} {storageKey : String}
    (under : Under (build builder policy req) storageKey)
    (under' : Under (build builder policy' req') storageKey) :
    build builder policy req = build builder policy' req' := by
  obtain ⟨suffix, rfl⟩ := under
  obtain ⟨suffix', same⟩ := under'
  have texts := congrArg String.toList same
  rw [String.toList_append, String.toList_append, suffix.text_toList, suffix'.text_toList] at texts
  exact build_eq_of_suffixed builder suffix.chunks_plain suffix'.chunks_plain texts

/-- The operations of a call: reads, swaps, timestamp writes and leases, and a
check of the log whose cutoff lies one window before the call's reading. -/
def Touches (A : Arith) (policy : Policy) (key : String) (timely : Time → Prop)
    (now : Option Time) : EnvOp → Prop
  | .now => True
  | .wallClock => True
  | .store op => Under key op.key ∧
      match op with
      | .get _ => True
      | .set .. => True
      | .compareAndSwap .. => True
      | .acquireLease .. => True
      | .checkAndAddTimestamps _ cutoff .. => ∃ t, now = some t ∧ timely t ∧
          cutoff = t.nanos + A.wrap (-windowDuration policy.algorithm)
      | _ => False

def footprint (A : Arith) (policy : Policy) (key : String) (timely : Time → Prop) :
    Monitor EnvOp EnvRes (Option Time) Answer where
  expects
    | _, .now, t => timely t
    | _, _, _ => True
  guard := Touches A policy key timely
  advance
    | _, .now, t => some t
    | now, _, _ => now
  accept _ _ := True

section Footprint

variable {A : Arith} {policy : Policy} {key : String} {timely : Time → Prop} {now : Option Time}

private theorem footprint_refuse (policy' : Policy) (retryAfter : Duration) (remaining : Int)
    (reason : String) :
    (footprint A policy key timely).Accepts now (refuse policy' retryAfter remaining reason) :=
  ⟨trivial, fun _ _ => trivial⟩

theorem counterLoop_footprint (rule : CounterRule) (under : Under key rule.key) (attempts : Nat) :
    (footprint A policy key timely).Accepts now (counterLoop A rule attempts) := by
  refine counterLoop_accepts ⟨under, trivial⟩ (fun _ => rfl) (fun _ => trivial)
    (footprint_refuse ..) (footprint_refuse ..) ?_
  intro value _ _
  exact ⟨⟨under, trivial⟩, fun _ => rfl, rfl, trivial⟩

theorem bucketLoop_footprint (rule : BucketRule) (level : Under key rule.levelKey)
    (stamp : Under key rule.tsKey) (attempts : Nat) :
    (footprint A policy key timely).Accepts now (bucketLoop rule attempts) := by
  refine bucketLoop_accepts (fun reading => reading = now) ?_ ?_ ?_ ?_ rfl
  · rintro reading rfl storageKey known
    rcases known with rfl | rfl
    · exact ⟨⟨level, trivial⟩, fun _ => rfl⟩
    · exact ⟨⟨stamp, trivial⟩, fun _ => rfl⟩
  · exact fun _ _ _ => trivial
  · exact fun _ _ _ _ _ _ => footprint_refuse ..
  · rintro reading rfl old last newLevel decision _
    refine ⟨⟨level, trivial⟩, fun _ => rfl, rfl, ?_⟩
    exact setTimestamp_accepts ⟨stamp, trivial⟩ (fun _ => rfl) trivial

theorem evaluate_footprint (A : Arith) (policy : Policy) (req : RequestContext) (key : String)
    (timely : Time → Prop) (kind : Kind) :
    (footprint A policy key timely).Accepts none (kind.evaluate A true policy req key) := by
  cases kind with
  | fixedWindow =>
      refine ⟨trivial, fun now _ => ?_⟩
      exact counterLoop_footprint (FixedWindow.rule A policy req key now)
        ⟨.window _, String.append_assoc⟩ _
  | quota =>
      refine ⟨trivial, fun now _ => ?_⟩
      exact counterLoop_footprint (Quota.rule A policy req key now)
        ⟨.quota _, String.append_assoc⟩ _
  | slidingCounter =>
      refine ⟨trivial, fun now _ => ?_⟩
      refine accepts_attempt ⟨⟨.slidingCounter _, String.append_assoc⟩, trivial⟩ (fun _ => trivial)
        fun prevCount _ => ?_
      exact counterLoop_footprint (SlidingCounter.rule A policy req key now prevCount)
        ⟨.slidingCounter _, String.append_assoc⟩ _
  | tokenBucket =>
      refine ⟨trivial, fun now _ => ?_⟩
      exact bucketLoop_footprint (TokenBucket.rule A policy req key now) ⟨.tokens, rfl⟩
        ⟨.tokensTs, rfl⟩ _
  | leakyBucket =>
      refine ⟨trivial, fun now _ => ?_⟩
      exact bucketLoop_footprint (LeakyBucket.rule A policy req key now) ⟨.level, rfl⟩
        ⟨.levelTs, rfl⟩ _
  | slidingLog =>
      refine ⟨trivial, fun now expected => ?_⟩
      refine accepts_attempt ⟨⟨.log, rfl⟩, now, rfl, expected, rfl⟩ (fun _ => trivial) fun counted _ => ?_
      obtain ⟨count, allowed⟩ := counted
      cases allowed with
      | false => exact footprint_refuse ..
      | true => trivial
  | concurrency =>
      refine accepts_attempt ⟨⟨.concurrency, rfl⟩, trivial⟩ (fun _ => trivial) fun acquired _ => ?_
      obtain ⟨granted, current⟩ := acquired
      cases granted with
      | false => exact footprint_refuse ..
      | true => trivial

end Footprint

end Rlaas.Algorithm
