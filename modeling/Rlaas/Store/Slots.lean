import Rlaas.Lib.Expiring
import Rlaas.Store.Counter
import Mathlib.Data.Multiset.Filter
import Mathlib.Data.Multiset.AddSub

/-! What a counter store is for, whichever backend keeps it: under each key a counter and a
lease count that expire, and a log of times. The algorithms use a part of the operations, with
TTLs that are positive, at times in the resolution of the databases; a backend is held to this on
that part. -/

set_option autoImplicit false

namespace Rlaas.Store

open Go Model Effect Expiring

structure Slot where
  counter : Register := fun _ => 0
  lease : Register := fun _ => 0
  log : Multiset Int := 0

namespace Slot

def handle (A : Arith) (now : Int) : (op : CounterOp) → Slot → Except String op.Value × Slot
  | .increment _ value ttl, slot =>
      let sum := A.wrap (slot.counter now + value)
      (.ok sum, { slot with counter := armed sum (now + ttl) })
  | .get _, slot => (.ok (slot.counter now), slot)
  | .set _ value ttl, slot => (.ok (), { slot with counter := armed value (now + ttl) })
  | .compareAndSwap _ oldVal newVal ttl, slot =>
      if slot.counter now = oldVal then
        (.ok true, { slot with counter := armed newVal (now + ttl) })
      else (.ok false, slot)
  | .delete _, _ => (.ok (), {})
  | .addTimestamp _ ts _, slot => (.ok (), { slot with log := ts ::ₘ slot.log })
  | .countAfter _ after, slot => (.ok ((slot.log.filter (after ≤ ·)).card : Int), slot)
  | .trimBefore _ before, slot => (.ok (), { slot with log := slot.log.filter (before ≤ ·) })
  | .checkAndAddTimestamps _ cutoff limit cost ts _, slot =>
      let kept := slot.log.filter (cutoff ≤ ·)
      if A.wrap ((kept.card : Int) + cost) > limit then
        (.ok ((kept.card : Int), false), { slot with log := kept })
      else
        (.ok ((kept.card : Int), true),
          { slot with log := kept + Multiset.replicate cost.toNat ts })
  | .acquireLease _ limit ttl, slot =>
      if limit ≤ 0 then (.error "limit must be positive", slot)
      else if slot.lease now ≥ limit then (.ok (false, slot.lease now), slot)
      else
        (.ok (true, slot.lease now + 1),
          { slot with lease := armed (slot.lease now + 1) (now + ttl) })
  | .releaseLease _, slot =>
      (.ok (), { slot with lease := fun time => max (slot.lease time - 1) 0 })

/-- A slot as a backend keeps it, against the slot it stands for. -/
structure Stands (now : Int) (kept slot : Slot) : Prop where
  counter : Agree now kept.counter slot.counter
  lease : Agree now kept.lease slot.lease
  log : kept.log = slot.log
  counted : ∀ time, 0 ≤ slot.lease time

theorem Stands.later {now reached : Int} {kept slot : Slot} (stands : Stands now kept slot)
    (ordered : now ≤ reached) : Stands reached kept slot :=
  ⟨stands.counter.later ordered, stands.lease.later ordered, stands.log, stands.counted⟩

theorem Stands.empty (now : Int) : Stands now {} {} :=
  ⟨fun _ _ => rfl, fun _ _ => rfl, rfl, fun _ => le_rfl⟩

end Slot

abbrev Slots := String → Slot

namespace Slots

def handle (A : Arith) (now : Int) (op : CounterOp) (slots : Slots) : Except String op.Value × Slots :=
  (((slots op.key).handle A now op).1,
    Function.update slots op.key ((slots op.key).handle A now op).2)

theorem handle_self (A : Arith) (now : Int) (op : CounterOp) (slots : Slots) :
    (slots.handle A now op).2 op.key = ((slots op.key).handle A now op).2 :=
  Function.update_self _ _ _

theorem handle_other (A : Arith) (now : Int) {op : CounterOp} {key : String}
    (different : key ≠ op.key) (slots : Slots) : (slots.handle A now op).2 key = slots key :=
  Function.update_of_ne different _ _

end Slots

/-- A whole number of microseconds. -/
def Whole (time : Int) : Prop := (1000 : Int) ∣ time

/-- A TTL that is positive and whole. -/
def Storable (ttl : Duration) : Prop := (0 : Int) < ttl ∧ Whole ttl

/-- A reading that every store can keep. -/
def Modern (now : Int) : Prop := zeroNanos ≤ now ∧ Whole now

instance (time : Int) : Decidable (Whole time) := inferInstanceAs (Decidable (_ ∣ _))

instance (ttl : Duration) : Decidable (Storable ttl) := inferInstanceAs (Decidable (_ ∧ _))

instance (now : Int) : Decidable (Modern now) := inferInstanceAs (Decidable (_ ∧ _))

/-- What the algorithms and the release of their leases ask of a store. -/
def CounterOp.Used : CounterOp → Prop
  | .get _ => True
  | .set _ _ ttl => Storable ttl
  | .compareAndSwap _ _ _ ttl => Storable ttl
  | .checkAndAddTimestamps _ cutoff _ _ ts ttl => Whole cutoff ∧ Whole ts ∧ Whole ttl
  | .acquireLease _ limit ttl => 0 < limit ∧ Storable ttl
  | .releaseLease _ => True
  | _ => False

def EnvOp.Used : EnvOp → Prop
  | .store op => op.Used
  | _ => True

/-- A store and the clock, as an evaluator sees them. -/
def counterEnv {σ : Type} (handle : Int → (op : CounterOp) → σ → Except String op.Value × σ)
    (time : Time) : (op : EnvOp) → σ → EnvRes op × σ
  | .now, state => (time, state)
  | .wallClock, state => (time, state)
  | .store op, state => handle time.nanos op state

/-- A store that keeps a slot under each key and answers and changes it as the slot itself
would. -/
structure Backend (A : Arith) (σ : Type) where
  handle : Int → (op : CounterOp) → σ → Except String op.Value × σ
  slot : σ → String → Slot
  refines : ∀ before now op state abstract, before ≤ now → Modern now → op.Used →
    Slot.Stands before (slot state op.key) abstract →
    (handle now op state).1 = (abstract.handle A now op).1 ∧
      Slot.Stands now (slot (handle now op state).2 op.key) (abstract.handle A now op).2
  others : ∀ now op state key, Modern now → op.Used → key ≠ op.key →
    slot (handle now op state).2 key = slot state key

namespace Backend

variable {A : Arith} {σ σ' : Type}

def StandsFor (backend : Backend A σ) (now : Int) (state : σ) (slots : Slots) : Prop :=
  ∀ key, Slot.Stands now (backend.slot state key) (slots key)

theorem handle_stands (backend : Backend A σ) {before now : Int} {op : CounterOp} {state : σ}
    {slots : Slots} (stands : backend.StandsFor before state slots) (ordered : before ≤ now)
    (modern : Modern now) (used : op.Used) :
    (backend.handle now op state).1 = (slots.handle A now op).1 ∧
      backend.StandsFor now (backend.handle now op state).2 (slots.handle A now op).2 := by
  obtain ⟨answer, own⟩ := backend.refines before now op state (slots op.key) ordered modern used
    (stands op.key)
  refine ⟨answer, fun key => ?_⟩
  by_cases same : key = op.key
  · subst same
    rw [Slots.handle_self]
    exact own
  · rw [Slots.handle_other A now same, backend.others now op state key modern used same]
    exact (stands key).later ordered

/-- Both stand for the same slots. -/
def Alike (first : Backend A σ) (second : Backend A σ') (now : Int) (left : σ) (right : σ') : Prop :=
  ∃ slots, first.StandsFor now left slots ∧ second.StandsFor now right slots

variable {first : Backend A σ} {second : Backend A σ'} {left : σ} {right : σ'} {before : Int}
  {time : Time}

theorem Alike.later {now : Int} (alike : Alike first second before left right)
    (ordered : before ≤ now) : Alike first second now left right := by
  obtain ⟨slots, stands, standsToo⟩ := alike
  exact ⟨slots, fun key => (stands key).later ordered, fun key => (standsToo key).later ordered⟩

/-- Stores that stand for the same slots answer alike and go on doing so. -/
theorem Alike.handle (alike : Alike first second before left right) (ordered : before ≤ time.nanos)
    (modern : Modern time.nanos) {op : EnvOp} (used : op.Used) :
    (counterEnv first.handle time op left).1 = (counterEnv second.handle time op right).1 ∧
      Alike first second time.nanos (counterEnv first.handle time op left).2
        (counterEnv second.handle time op right).2 := by
  cases op with
  | now => exact ⟨rfl, alike.later ordered⟩
  | wallClock => exact ⟨rfl, alike.later ordered⟩
  | store op =>
      obtain ⟨slots, stands, standsToo⟩ := alike
      obtain ⟨answer, kept⟩ := first.handle_stands stands ordered modern used
      obtain ⟨answerToo, keptToo⟩ := second.handle_stands standsToo ordered modern used
      exact ⟨answer.trans answerToo.symm, _, kept, keptToo⟩

end Backend

end Rlaas.Store
