import Rlaas.Lib.Keyed
import Rlaas.Lib.Pool
import Rlaas.Go.Time

/-! `MemoryPolicyCache` of package `cache`: entries with an expiry, a cap on their number,
and the table of loads in flight that `GetOrLoad` shares. The lists of policies are of any
type, since the cache never looks into them. Instants are nanoseconds since the Unix epoch. -/

set_option autoImplicit false

namespace Rlaas.Store.Cache

open Go Effect

variable {V σ : Type}

/-- An entry of the map `items`, with its key. -/
structure Item (V : Type) where
  ns : String
  policies : V
  expiry : Int
  lastUsed : Int

/-- The map `items`. -/
structure Items (V : Type) where
  entries : List (Item V)
  distinct : (entries.map Item.ns).Nodup

namespace Items

def empty : Items V := ⟨[], .nil⟩

def size (items : Items V) : Nat := items.entries.length

def find (ns : String) (items : Items V) : Option (Item V) := Keyed.find Item.ns ns items.entries

def put (it : Item V) (items : Items V) : Items V :=
  ⟨(Keyed.upsert Item.ns it items.entries).2, Keyed.nodup_upsert Item.ns it items.distinct⟩

def delete (ns : String) (items : Items V) : Items V :=
  ⟨Keyed.remove Item.ns ns items.entries, Keyed.nodup_remove Item.ns ns items.distinct⟩

def filter (keep : Item V → Bool) (items : Items V) : Items V :=
  ⟨items.entries.filter keep, items.distinct.sublist (List.filter_sublist.map Item.ns)⟩

end Items

/-- The order in which `range` visits a map, which Go leaves open. -/
structure MapOrder (V : Type) where
  visit : List (Item V) → List (Item V)
  perm : ∀ entries, (visit entries).Perm entries

def MapOrder.listed : MapOrder V := ⟨id, .refl⟩

structure MemoryPolicyCache (V : Type) where
  ttl : Duration
  maxItems : Int
  items : Items V

/-- The interval of the background collection only decides when `sweep` runs. -/
def newMemoryPolicyCacheWithLimits (ttl : Duration) (maxItems : Int) : MemoryPolicyCache V where
  ttl := if ttl ≤ 0 then 30 * second else ttl
  maxItems := if maxItems ≤ 0 then 10000 else maxItems
  items := .empty

def newMemoryPolicyCache (ttl : Duration) : MemoryPolicyCache V :=
  newMemoryPolicyCacheWithLimits ttl 10000

namespace MemoryPolicyCache

def get (now : Int) (ns : String) (m : MemoryPolicyCache V) : Option V :=
  match m.items.find ns with
  | none => none
  | some it => if now > it.expiry then none else some it.policies

/-- The scan for the entry that was set first. -/
def oldest : List (Item V) → Option (Item V) → Option (Item V)
  | [], found => found
  | it :: rest, none => oldest rest (some it)
  | it :: rest, some first =>
      oldest rest (if it.lastUsed < first.lastUsed then some it else some first)

/-- The key found by the scan is not deleted when it is the empty string. -/
def evictOldestLocked (order : MapOrder V) (m : MemoryPolicyCache V) : MemoryPolicyCache V :=
  match oldest (order.visit m.items.entries) none with
  | none => m
  | some it => if it.ns = "" then m else { m with items := m.items.delete it.ns }

/-- The assignment of `Set`, before the check of the cap. -/
def store (now : Int) (ns : String) (policies : V) (m : MemoryPolicyCache V) :
    MemoryPolicyCache V :=
  { m with items := m.items.put ⟨ns, policies, now + m.ttl, now⟩ }

def set (now : Int) (order : MapOrder V) (ns : String) (policies : V) (m : MemoryPolicyCache V) :
    MemoryPolicyCache V :=
  let m := m.store now ns policies
  if m.maxItems > 0 ∧ m.items.size > m.maxItems then m.evictOldestLocked order else m

def invalidate (ns : String) (m : MemoryPolicyCache V) : MemoryPolicyCache V :=
  { m with items := m.items.delete ns }

/-- `now` is read before the lock is taken. -/
def sweep (now : Int) (m : MemoryPolicyCache V) : MemoryPolicyCache V :=
  { m with items := m.items.filter fun it => !decide (now > it.expiry) }

end MemoryPolicyCache

/-- The atomic steps of the calls on a cache whose loader reads a source of type `σ`. -/
inductive CacheOp (V σ : Type) where
  | now
  | get (ns : String)
  | set (ns : String) (policies : V)
  | invalidate (ns : String)
  | sweep (now : Int)
  /-- Look the namespace up in `sfCalls` and enter a new call if it is not there. -/
  | join (ns : String)
  /-- `call.wg.Wait()` and the result of the call. -/
  | wait (call : Nat)
  /-- `call.val, call.err = loader(namespace)`. -/
  | load (call : Nat) (ns : String)
  /-- `call.wg.Done()`, which shows the result to the waiting calls. -/
  | finish (call : Nat) (result : Except String V)
  | forget (ns : String)
  /-- A write to the source by somebody else. -/
  | write (change : σ → σ)

/-- What `join` finds: a call to wait for, or none, so that the caller leads a new one. -/
inductive Seat where
  | waiting (call : Nat)
  | leading (call : Nat)

@[reducible] def CacheRes : CacheOp V σ → Type
  | .now => Int
  | .get _ => Option V
  | .set .. => Unit
  | .invalidate _ => Unit
  | .sweep _ => Unit
  | .join _ => Seat
  | .wait _ => Except String V
  | .load .. => Except String V
  | .finish .. => Unit
  | .forget _ => Unit
  | .write _ => Unit

/-- The result of a call: a list, an error, or nothing for a miss and for the calls
that return nothing. -/
abbrev Answer (V : Type) := Option (Except String V)

abbrev Steps (V σ : Type) := Program (CacheOp V σ) CacheRes (Answer V)

/-- The end of a load: wake the waiting calls, then remove the record. -/
def concludeLoad (ns : String) (call : Nat) (result : Except String V) : Steps V σ :=
  .call (.finish call result) fun _ => .call (.forget ns) fun _ => .done (some result)

def getOrLoad (ns : String) : Steps V σ :=
  .call (.get ns) fun hit =>
    match hit with
    | some policies => .done (some (.ok policies))
    | none =>
        .call (.join ns) fun seat =>
          match seat with
          | .waiting call => .call (.wait call) fun result => .done (some result)
          | .leading call =>
              .call (.load call ns) fun result =>
                match result with
                | .error err => concludeLoad ns call (.error err)
                | .ok policies =>
                    .call (.set ns policies) fun _ => concludeLoad ns call (.ok policies)

inductive CacheCall (V σ : Type) where
  | get (ns : String)
  | set (ns : String) (policies : V)
  | invalidate (ns : String)
  | sweep
  | getOrLoad (ns : String)
  | write (change : σ → σ)

def CacheCall.steps : CacheCall V σ → Steps V σ
  | .get ns => .call (.get ns) fun hit => .done (hit.map .ok)
  | .set ns policies => .call (.set ns policies) fun _ => .done none
  | .invalidate ns => .call (.invalidate ns) fun _ => .done none
  | .sweep => .call .now fun now => .call (.sweep now) fun _ => .done none
  | .getOrLoad ns => Cache.getOrLoad ns
  | .write change => .call (.write change) fun _ => .done none

/-- The cache with the records of the loads, in the order they were begun, each with its
result once it is shown; `sfCalls` points into them. -/
structure Shared (V σ : Type) where
  cache : MemoryPolicyCache V
  calls : List (Option (Except String V))
  sfCalls : String → Option Nat
  source : σ

def Shared.start (cache : MemoryPolicyCache V) (source : σ) : Shared V σ where
  cache
  calls := []
  sfCalls _ := none
  source

/-- The reading of the clock a step makes and the order in which it visits the map. -/
structure Reading (V : Type) where
  now : Int
  order : MapOrder V

namespace Shared

def shown (shared : Shared V σ) (call : Nat) : Option (Except String V) :=
  (shared.calls[call]?).join

/-- The only step that can block waits for a result that is not shown yet. -/
def blocked (shared : Shared V σ) : CacheOp V σ → Bool
  | .wait call => (shared.shown call).isNone
  | _ => false

def perform (loader : σ → String → Except String V × σ) (reading : Reading V) :
    (op : CacheOp V σ) → Shared V σ → CacheRes op × Shared V σ
  | .now, shared => (reading.now, shared)
  | .get ns, shared => (shared.cache.get reading.now ns, shared)
  | .set ns policies, shared =>
      ((), { shared with cache := shared.cache.set reading.now reading.order ns policies })
  | .invalidate ns, shared => ((), { shared with cache := shared.cache.invalidate ns })
  | .sweep now, shared => ((), { shared with cache := shared.cache.sweep now })
  | .join ns, shared =>
      match shared.sfCalls ns with
      | some call => (.waiting call, shared)
      | none =>
          (.leading shared.calls.length,
            { shared with
              calls := shared.calls ++ [none]
              sfCalls := Function.update shared.sfCalls ns (some shared.calls.length) })
  | .wait call, shared => ((shared.shown call).getD (.error ""), shared)
  | .load _ ns, shared =>
      ((loader shared.source ns).1, { shared with source := (loader shared.source ns).2 })
  | .finish call result, shared =>
      ((), { shared with calls := shared.calls.set call (some result) })
  | .forget ns, shared =>
      ((), { shared with sfCalls := Function.update shared.sfCalls ns none })
  | .write change, shared => ((), { shared with source := change shared.source })

end Shared

/-- Calls in progress on one cache. -/
abbrev CachePool (V σ : Type) := Pool (CacheOp V σ) CacheRes (Answer V) (Shared V σ) (Reading V)

def CachePool.begin (calls : List (CacheCall V σ)) (shared : Shared V σ) : CachePool V σ :=
  Pool.start (calls.map CacheCall.steps) shared

end Rlaas.Store.Cache
