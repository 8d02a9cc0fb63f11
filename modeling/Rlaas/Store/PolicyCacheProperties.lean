import Rlaas.Store.PolicyCache

/-! What the operations leave in the cache, and its size. Every insertion into a full cache
is followed by an eviction, except that the scan spares the entry of the empty namespace. -/

set_option autoImplicit false

namespace Rlaas.Store.Cache

open Go Effect

variable {V σ : Type}
variable {it : Item V}

namespace Items

theorem size_put (it : Item V) (items : Items V) :
    (items.put it).size = if (items.find it.ns).isSome then items.size else items.size + 1 := by
  have keys := congrArg List.length (Keyed.keys_upsert Item.ns it items.entries)
  have present : it.ns ∈ items.entries.map Item.ns ↔ (items.find it.ns).isSome = true := by
    rw [find, Keyed.find, List.find?_isSome, List.mem_map]
    simp only [decide_eq_true_eq]
  simp only [present, List.length_map] at keys
  refine keys.trans ?_
  split_ifs <;> simp [size]

theorem size_filter_le (keep : Item V → Bool) (items : Items V) :
    (items.filter keep).size ≤ items.size :=
  List.length_filter_le _ _

theorem size_delete_le (ns : String) (items : Items V) : (items.delete ns).size ≤ items.size :=
  List.length_filter_le _ _

theorem size_delete {items : Items V} (member : it ∈ items.entries) :
    (items.delete it.ns).size + 1 = items.size := by
  obtain ⟨left, right, split⟩ := List.append_of_mem member
  have distinct := items.distinct
  rw [split, List.map_append, List.map_cons] at distinct
  obtain ⟨_, later, apart⟩ := List.nodup_append.mp distinct
  obtain ⟨fresh, _⟩ := List.nodup_cons.mp later
  have before : left.filter (fun other => other.ns ≠ it.ns) = left := by
    refine List.filter_eq_self.mpr fun other inside => decide_eq_true fun same => ?_
    exact apart other.ns (List.mem_map_of_mem inside) it.ns List.mem_cons_self same
  have after : right.filter (fun other => other.ns ≠ it.ns) = right := by
    refine List.filter_eq_self.mpr fun other inside => decide_eq_true fun same => ?_
    exact fresh (same ▸ List.mem_map_of_mem inside)
  simp only [size, delete, Keyed.remove, split, List.filter_append, List.filter_cons, before, after]
  simp [Nat.add_assoc]

theorem find_delete_self (ns : String) (items : Items V) : (items.delete ns).find ns = none :=
  Keyed.find_remove_self Item.ns ns items.entries

theorem find_delete {ns removed : String} {items : Items V}
    (found : (items.delete removed).find ns = some it) : items.find ns = some it := by
  by_cases same : ns = removed
  · subst same
    cases (find_delete_self ns items).symm.trans found
  · rw [find, delete, Keyed.find_remove_other Item.ns same] at found
    exact found

theorem find_filter {keep : Item V → Bool} {ns : String} {items : Items V}
    (found : (items.filter keep).find ns = some it) : items.find ns = some it := by
  have inside := List.mem_of_find?_eq_some found
  have same : it.ns = ns := Keyed.key_of_find Item.ns found
  exact Keyed.find_of_mem Item.ns items.distinct (List.mem_filter.mp inside).1 same

end Items

namespace MemoryPolicyCache

variable {m : MemoryPolicyCache V}

theorem oldest_mem (entries : List (Item V)) (found : Option (Item V))
    (scanned : oldest entries found = some it) : it ∈ entries ∨ found = some it := by
  induction entries generalizing found with
  | nil => exact .inr scanned
  | cons first rest ih =>
      cases found with
      | none =>
          cases ih _ scanned with
          | inl later => exact .inl (List.mem_cons_of_mem _ later)
          | inr here => exact .inl (Option.some.inj here ▸ List.mem_cons_self)
      | some best =>
          rw [oldest] at scanned
          cases ih _ scanned with
          | inl later => exact .inl (List.mem_cons_of_mem _ later)
          | inr here =>
              split_ifs at here with older
              · exact .inl (Option.some.inj here ▸ List.mem_cons_self)
              · exact .inr here

theorem oldest_isSome (entries : List (Item V)) (found : Option (Item V))
    (some : entries ≠ [] ∨ found.isSome = true) : (oldest entries found).isSome = true := by
  induction entries generalizing found with
  | nil => exact some.resolve_left fun nonempty => nonempty rfl
  | cons first rest ih =>
      cases found with
      | none => exact ih _ (.inr rfl)
      | some best =>
          rw [oldest]
          refine ih _ (.inr ?_)
          split_ifs <;> rfl

/-- The insertion adds an entry to a full cache, and the scan for the oldest entry ends
at the empty namespace. -/
def overflows (now : Int) (order : MapOrder V) (ns : String) (policies : V)
    (m : MemoryPolicyCache V) : Bool :=
  (m.items.find ns).isNone && decide (m.maxItems ≤ m.items.size) &&
    (oldest (order.visit (m.store now ns policies).items.entries) none).any (·.ns == "")

theorem evictOldestLocked_items (order : MapOrder V) (m : MemoryPolicyCache V) :
    ∃ items, m.evictOldestLocked order = { m with items } := by
  unfold evictOldestLocked
  split
  · exact ⟨_, rfl⟩
  · split_ifs
    · exact ⟨_, rfl⟩
    · exact ⟨_, rfl⟩

theorem set_items (now : Int) (order : MapOrder V) (ns : String) (policies : V)
    (m : MemoryPolicyCache V) : ∃ items, m.set now order ns policies = { m with items } := by
  rw [set]
  split_ifs
  · obtain ⟨items, evicted⟩ := evictOldestLocked_items order (m.store now ns policies)
    exact ⟨items, evicted⟩
  · exact ⟨_, rfl⟩

theorem set_maxItems (now : Int) (order : MapOrder V) (ns : String) (policies : V)
    (m : MemoryPolicyCache V) : (m.set now order ns policies).maxItems = m.maxItems := by
  obtain ⟨items, same⟩ := set_items now order ns policies m
  rw [same]

theorem set_ttl (now : Int) (order : MapOrder V) (ns : String) (policies : V)
    (m : MemoryPolicyCache V) : (m.set now order ns policies).ttl = m.ttl := by
  obtain ⟨items, same⟩ := set_items now order ns policies m
  rw [same]

theorem size_evictOldestLocked (order : MapOrder V) (some : m.items.entries ≠ []) :
    (m.evictOldestLocked order).items.size +
        (if (oldest (order.visit m.items.entries) none).any (·.ns == "") then 0 else 1) =
      m.items.size := by
  have visited : order.visit m.items.entries ≠ [] := fun empty =>
    some (List.nil_perm.mp (empty ▸ order.perm m.items.entries))
  obtain ⟨it, scanned⟩ := Option.isSome_iff_exists.mp
    (oldest_isSome (order.visit m.items.entries) none (.inl visited))
  have member : it ∈ m.items.entries := by
    cases oldest_mem _ _ scanned with
    | inl inside => exact (order.perm _).mem_iff.mp inside
    | inr none => cases none
  unfold evictOldestLocked
  simp only [scanned, Option.any_some, beq_iff_eq]
  split_ifs
  · rfl
  · exact Items.size_delete member

theorem size_set_iff (now : Int) (order : MapOrder V) (ns : String) (policies : V)
    (capped : 0 < m.maxItems) (bounded : m.items.size ≤ m.maxItems) :
    (m.set now order ns policies).items.size ≤ m.maxItems ↔
      m.overflows now order ns policies = false := by
  have limit : (m.store now ns policies).maxItems = m.maxItems := rfl
  have grown : (m.store now ns policies).items.size =
      if (m.items.find ns).isSome then m.items.size else m.items.size + 1 :=
    Items.size_put ⟨ns, policies, now + m.ttl, now⟩ m.items
  rw [set, overflows, limit]
  cases found : m.items.find ns with
  | some it =>
      rw [found, Option.isSome_some, if_pos rfl] at grown
      rw [grown, if_neg (fun full => absurd full.2 (not_lt.mpr bounded)), grown]
      simp [bounded]
  | none =>
      rw [found, Option.isSome_none, if_neg (by simp)] at grown
      by_cases full : m.maxItems ≤ m.items.size
      · have shrunk := size_evictOldestLocked order (m := m.store now ns policies) (by
          intro empty
          rw [Items.size, empty] at grown
          cases grown)
        rw [grown, if_pos ⟨capped, by omega⟩]
        cases spared : (oldest (order.visit (m.store now ns policies).items.entries) none).any
            (·.ns == "") with
        | true =>
            rw [spared, if_pos rfl, grown] at shrunk
            simp only [Option.isNone_none, full, decide_true, Bool.and_self, Bool.true_eq_false,
              iff_false]
            omega
        | false =>
            rw [spared, if_neg (by simp), grown] at shrunk
            simp only [Bool.and_false, iff_true]
            omega
      · rw [grown, if_neg (fun more => by omega), grown]
        simp only [full, decide_false, Bool.and_false, Bool.false_and, iff_true]
        omega

theorem find_set {now : Int} {order : MapOrder V} {ns written : String} {policies : V}
    (found : (m.set now order written policies).items.find ns = some it) :
    it = ⟨ns, policies, now + m.ttl, now⟩ ∧ written = ns ∨ m.items.find ns = some it := by
  have stored : (m.store now written policies).items.find ns = some it := by
    rw [set] at found
    split_ifs at found
    · rw [evictOldestLocked] at found
      split at found
      · exact found
      · split_ifs at found
        · exact found
        · exact Items.find_delete found
    · exact found
  by_cases same : written = ns
  · subst same
    have put := Keyed.find_upsert_self Item.ns ⟨written, policies, now + m.ttl, now⟩ m.items.entries
    exact .inl ⟨Option.some.inj (stored.symm.trans put), rfl⟩
  · exact .inr ((Keyed.find_upsert_other Item.ns same m.items.entries).symm.trans stored)

theorem get_eq_some {now : Int} {ns : String} {policies : V} :
    m.get now ns = some policies ↔
      ∃ it, m.items.find ns = some it ∧ now ≤ it.expiry ∧ it.policies = policies := by
  unfold get
  cases m.items.find ns with
  | none => simp
  | some it => simp

theorem get_invalidate (now : Int) (ns : String) (m : MemoryPolicyCache V) :
    (m.invalidate ns).get now ns = none := by
  rw [get, invalidate, Items.find_delete_self]

end MemoryPolicyCache

namespace Shared

def overflows (shared : Shared V σ) (reading : Reading V) : CacheOp V σ → Bool
  | .set ns policies => shared.cache.overflows reading.now reading.order ns policies
  | _ => false

variable (loader : σ → String → Except String V × σ) (reading : Reading V)

theorem perform_maxItems (op : CacheOp V σ) (shared : Shared V σ) :
    (perform loader reading op shared).2.cache.maxItems = shared.cache.maxItems := by
  cases op with
  | set ns policies => exact MemoryPolicyCache.set_maxItems _ _ _ _ _
  | join ns =>
      rw [perform]
      split <;> rfl
  | _ => rfl

theorem perform_size_iff (op : CacheOp V σ) {shared : Shared V σ}
    (capped : 0 < shared.cache.maxItems)
    (bounded : shared.cache.items.size ≤ shared.cache.maxItems) :
    (perform loader reading op shared).2.cache.items.size ≤ shared.cache.maxItems ↔
      shared.overflows reading op = false := by
  cases op with
  | set ns policies => exact MemoryPolicyCache.size_set_iff _ _ _ _ capped bounded
  | invalidate ns =>
      have smaller := Items.size_delete_le ns shared.cache.items
      exact iff_of_true (show ((shared.cache.items.delete ns).size : Int) ≤ _ by omega) rfl
  | sweep now =>
      have smaller := Items.size_filter_le (fun it => !decide (now > it.expiry)) shared.cache.items
      exact iff_of_true (show ((shared.cache.items.filter _).size : Int) ≤ _ by omega) rfl
  | join ns =>
      rw [perform]
      split <;> exact iff_of_true bounded rfl
  | _ => exact iff_of_true bounded rfl

end Shared

/-- A new cache is within its cap throughout exactly if no insertion overflows. -/
theorem size_bounded_iff (loader : σ → String → Except String V × σ) (ttl : Duration)
    (maxItems : Int) (source : σ) (calls : List (CacheCall V σ))
    (schedule : List (Nat × Reading V)) :
    let cache : MemoryPolicyCache V := newMemoryPolicyCacheWithLimits ttl maxItems
    let pool := CachePool.begin calls (.start cache source)
    (∀ first rest, schedule = first ++ rest →
        (pool.run (Shared.perform loader) first).state.cache.items.size ≤ cache.maxItems) ↔
      pool.Along (Shared.perform loader)
        (fun shared _ _ reading op => shared.overflows reading op = false) schedule := by
  intro cache pool
  have capped : 0 < cache.maxItems := by
    change 0 < if maxItems ≤ 0 then 10000 else maxItems
    split_ifs with unset
    · decide
    · exact not_le.mp unset
  have limit : ∀ first, (pool.run (Shared.perform loader) first).state.cache.maxItems =
      cache.maxItems := fun first =>
    Pool.run_kept (fun shared : Shared V σ => shared.cache.maxItems = cache.maxItems)
      (fun reading op shared same => (Shared.perform_maxItems loader reading op shared).trans same)
      first rfl
  have throughout : (∀ first rest, schedule = first ++ rest →
      (pool.run (Shared.perform loader) first).state.cache.maxItems = cache.maxItems ∧
        (pool.run (Shared.perform loader) first).state.cache.items.size ≤ cache.maxItems) ↔
      pool.Along (Shared.perform loader)
        (fun shared _ _ reading op => shared.overflows reading op = false) schedule := by
    refine Pool.always_iff_along (fun shared : Shared V σ =>
      shared.cache.maxItems = cache.maxItems ∧ shared.cache.items.size ≤ cache.maxItems) ?_
      schedule ⟨rfl, capped.le⟩
    intro shared _ _ reading op ⟨same, bounded⟩
    rw [Shared.perform_maxItems, and_iff_right same, ← same]
    exact Shared.perform_size_iff loader reading op (same ▸ capped) (same ▸ bounded)
  rw [← throughout]
  constructor
  · intro bounded first rest split
    exact ⟨limit first, bounded first rest split⟩
  · intro both first rest split
    exact (both first rest split).2

/-- The entry of the empty namespace is the oldest and stays. -/
theorem size_exceeds_cap :
    ((CachePool.begin [CacheCall.set "" 0, CacheCall.set "acme" 1]
        (Shared.start (newMemoryPolicyCacheWithLimits 60 1) ())).run
      (Shared.perform fun source _ => (.ok (0 : Nat), source))
      [(0, ⟨0, .listed⟩), (1, ⟨1, .listed⟩)]).state.cache.items.size = 2 := by decide

end Rlaas.Store.Cache
