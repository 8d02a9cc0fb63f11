import Mathlib.Data.List.Nodup

/-! Lists of items with a key, written one item at a time, and logs of such
writes. A log is replayed by taking the last entry for a key. -/

set_option autoImplicit false

namespace Keyed

variable {κ α : Type} [DecidableEq κ]

section Items

variable (key : α → κ)
variable {items : List α}

def find (k : κ) (items : List α) : Option α := items.find? fun item => key item = k

/-- Replace the first item with the key of `x` by `x`, or append `x`; also
returns the item replaced. -/
def upsert (x : α) : List α → Option α × List α
  | [] => (none, [x])
  | item :: rest =>
      if key item = key x then (some item, x :: rest)
      else ((upsert x rest).1, item :: (upsert x rest).2)

def remove (k : κ) (items : List α) : List α := items.filter fun item => key item ≠ k

theorem upsert_fst (x : α) (items : List α) : (upsert key x items).1 = find key (key x) items := by
  induction items with
  | nil => rfl
  | cons item rest ih =>
      by_cases same : key item = key x
      · simp [upsert, find, same]
      · simpa [upsert, find, same] using ih

theorem find_upsert_self (x : α) (items : List α) :
    find key (key x) (upsert key x items).2 = some x := by
  induction items with
  | nil => simp [upsert, find]
  | cons item rest ih =>
      by_cases same : key item = key x
      · simp [upsert, find, same]
      · simpa [upsert, find, same] using ih

theorem find_upsert_other {k : κ} {x : α} (different : key x ≠ k) (items : List α) :
    find key k (upsert key x items).2 = find key k items := by
  induction items with
  | nil => simp [upsert, find, different]
  | cons item rest ih =>
      by_cases same : key item = key x
      · simp [upsert, find, same, different]
      · by_cases found : key item = k
        · simp [upsert, find, found, Ne.symm different]
        · simpa [upsert, find, same, found] using ih

/-- Where only `x` itself has the key of `x`, the upsert adds `x` and no more. -/
theorem mem_upsert {x item : α} (only : ∀ other ∈ items, key other = key x → other = x) :
    item ∈ (upsert key x items).2 ↔ item = x ∨ item ∈ items := by
  induction items with
  | nil => simp [upsert]
  | cons first rest ih =>
      by_cases same : key first = key x
      · have equal := only first List.mem_cons_self same
        subst equal
        simp [upsert]
      · have later := ih fun other member => only other (List.mem_cons_of_mem _ member)
        simp only [upsert, same, if_false, List.mem_cons, later]
        exact or_left_comm

theorem keys_upsert (x : α) (items : List α) :
    (upsert key x items).2.map key =
      if key x ∈ items.map key then items.map key else items.map key ++ [key x] := by
  induction items with
  | nil => simp [upsert]
  | cons item rest ih =>
      by_cases same : key item = key x
      · simp [upsert, same]
      · by_cases present : key x ∈ rest.map key
        · simpa [upsert, same, Ne.symm same, present] using ih
        · simpa [upsert, same, Ne.symm same, present] using ih

theorem nodup_upsert (x : α) (distinct : (items.map key).Nodup) :
    ((upsert key x items).2.map key).Nodup := by
  rw [keys_upsert]
  split_ifs with present
  · exact distinct
  · exact List.nodup_append.mpr ⟨distinct, List.nodup_singleton _, by
      rintro k member _ last rfl
      rw [List.mem_singleton] at last
      exact present (last ▸ member)⟩

theorem key_of_find {k : κ} {x : α} (found : find key k items = some x) :
    key x = k := by
  simpa using List.find?_some found

theorem find_of_mem {k : κ} {x : α} (distinct : (items.map key).Nodup) (member : x ∈ items)
    (same : key x = k) : find key k items = some x := by
  induction items with
  | nil => cases member
  | cons item rest ih =>
      obtain ⟨fresh, distinct⟩ := List.nodup_cons.mp distinct
      cases member with
      | head => simp [find, same]
      | tail _ later =>
          have different : key item ≠ k := fun equal =>
            fresh (equal.trans same.symm ▸ List.mem_map_of_mem later)
          simpa [find, different] using ih distinct later

theorem find_map {k : κ} {change : α → α} (kept : ∀ item, key (change item) = key item)
    (items : List α) : find key k (items.map change) = (find key k items).map change := by
  rw [find, List.find?_map]
  simp only [Function.comp_def, kept]
  rfl

theorem find_remove_self (k : κ) (items : List α) : find key k (remove key k items) = none := by
  rw [find, List.find?_eq_none]
  intro item member
  simpa using (List.mem_filter.mp member).2

theorem find_remove_other {k removed : κ} (different : k ≠ removed) (items : List α) :
    find key k (remove key removed items) = find key k items := by
  induction items with
  | nil => rfl
  | cons item rest ih =>
      by_cases dropped : key item = removed
      · simpa [find, remove, dropped, Ne.symm different] using ih
      · by_cases found : key item = k
        · simp [find, remove, found, different]
        · simpa [find, remove, dropped, found] using ih

theorem remove_upsert (x : α) (items : List α) :
    remove key (key x) (upsert key x items).2 = remove key (key x) items := by
  induction items with
  | nil => simp [upsert, remove]
  | cons item rest ih =>
      by_cases same : key item = key x
      · simp [upsert, remove, same]
      · simpa [upsert, remove, same] using ih

theorem nodup_remove (k : κ) (distinct : (items.map key).Nodup) :
    ((remove key k items).map key).Nodup :=
  distinct.sublist (List.filter_sublist.map key)

/-- With distinct keys the last item with a key is the only one. -/
theorem getLast?_filter_eq_find (k : κ) (distinct : (items.map key).Nodup) :
    (items.filter fun item => key item = k).getLast? = find key k items := by
  induction items with
  | nil => rfl
  | cons item rest ih =>
      obtain ⟨fresh, distinct⟩ := List.nodup_cons.mp distinct
      by_cases found : key item = k
      · have alone : rest.filter (fun item => key item = k) = [] := by
          rw [List.filter_eq_nil_iff]
          intro other member same
          have equal : key other = key item := (of_decide_eq_true same).trans found.symm
          exact fresh (equal ▸ List.mem_map_of_mem member)
        simp [find, found, alone]
      · simpa [find, found] using ih distinct

end Items

section Log

variable {ε ν : Type} (key : ε → κ) (value : ε → Option ν)

/-- The value that the last entry for a key has left. -/
def replay (log : List ε) (k : κ) : Option ν :=
  (log.filter fun entry => key entry = k).getLast?.bind value

@[simp] theorem replay_nil (k : κ) : replay key value [] k = none := rfl

theorem replay_snoc_self (log : List ε) (entry : ε) :
    replay key value (log ++ [entry]) (key entry) = value entry := by
  simp [replay, List.filter_append]

theorem replay_snoc_other {entry : ε} {k : κ} (different : key entry ≠ k) (log : List ε) :
    replay key value (log ++ [entry]) k = replay key value log k := by
  simp [replay, List.filter_append, different]

end Log

end Keyed
