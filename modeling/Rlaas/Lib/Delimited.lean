import Mathlib.Data.List.Basic

/-! Texts made of chunks behind separators. The chunks can be read back when no
chunk contains the separator, and so can a leading part of them that a mark
tells from the rest. -/

set_option autoImplicit false

namespace Delimited

variable {α : Type} {sep : α}

def encode (sep : α) (chunks : List (List α)) : List α := chunks.flatMap fun chunk => sep :: chunk

@[simp] theorem encode_cons (chunk : List α) (chunks : List (List α)) :
    encode sep (chunk :: chunks) = sep :: (chunk ++ encode sep chunks) := rfl

theorem encode_append (first second : List (List α)) :
    encode sep (first ++ second) = encode sep first ++ encode sep second := by
  simp [encode]

private theorem encode_head {chunks : List (List α)} {first : α} {rest : List α}
    (shape : encode sep chunks = first :: rest) : first = sep := by
  cases chunks with
  | nil => cases shape
  | cons chunk chunks =>
      rw [encode_cons] at shape
      exact (List.cons.inj shape).1.symm

private theorem chunk_extends {chunk chunk' : List α} {chunks chunks' : List (List α)}
    (free' : sep ∉ chunk')
    (same : chunk ++ encode sep chunks = chunk' ++ encode sep chunks') :
    ∃ extra, chunk = chunk' ++ extra := by
  rcases List.append_eq_append_iff.mp same with ⟨extra, longer, rest⟩ | ⟨extra, longer, _⟩
  · cases extra with
    | nil => exact ⟨[], by simpa using longer.symm⟩
    | cons first others =>
        -- The longer chunk would contain the separator that ends the shorter one.
        have isSep : first = sep := encode_head rest
        exact absurd (by simp [longer, isSep]) free'
  · exact ⟨extra, longer⟩

theorem encode_injective {chunks chunks' : List (List α)} (free : ∀ chunk ∈ chunks, sep ∉ chunk)
    (free' : ∀ chunk ∈ chunks', sep ∉ chunk) (same : encode sep chunks = encode sep chunks') :
    chunks = chunks' := by
  induction chunks generalizing chunks' with
  | nil =>
      cases chunks' with
      | nil => rfl
      | cons chunk' rest' => cases same
  | cons chunk rest ih =>
      cases chunks' with
      | nil => cases same
      | cons chunk' rest' =>
          rw [encode_cons, encode_cons] at same
          have tails := (List.cons.inj same).2
          obtain ⟨extra, longer⟩ := chunk_extends (free' chunk' (by simp)) tails
          obtain ⟨extra', longer'⟩ := chunk_extends (free chunk (by simp)) tails.symm
          have equal : chunk = chunk' := by
            rw [longer, List.append_assoc, List.self_eq_append_right] at longer'
            rw [longer, (List.append_eq_nil_iff.mp longer').1, List.append_nil]
          rw [equal] at tails ⊢
          rw [ih (fun other member => free other (by simp [member]))
            (fun other member => free' other (by simp [member])) (List.append_cancel_left tails)]

/-- Two texts with the same encoding, each of marked chunks and then unmarked
ones, have the same marked chunks. -/
theorem marked_eq (marked : List α → Bool) {chunks chunks' plain plain' : List (List α)}
    (free : ∀ chunk ∈ chunks ++ plain, sep ∉ chunk) (free' : ∀ chunk ∈ chunks' ++ plain', sep ∉ chunk)
    (marks : ∀ chunk ∈ chunks, marked chunk = true) (marks' : ∀ chunk ∈ chunks', marked chunk = true)
    (plains : ∀ chunk ∈ plain, marked chunk = false)
    (plains' : ∀ chunk ∈ plain', marked chunk = false)
    (same : encode sep chunks ++ encode sep plain = encode sep chunks' ++ encode sep plain') :
    chunks = chunks' := by
  rw [← encode_append, ← encode_append] at same
  have whole := congrArg (List.takeWhile marked) (encode_injective free free' same)
  rw [List.takeWhile_append_of_pos marks, List.takeWhile_append_of_pos marks'] at whole
  have none : plain.takeWhile marked = [] := by
    cases plain with
    | nil => rfl
    | cons first _ => simp [plains first (by simp)]
  have none' : plain'.takeWhile marked = [] := by
    cases plain' with
    | nil => rfl
    | cons first _ => simp [plains' first (by simp)]
  simpa [none, none'] using whole

/-- Optional values at distinct places, written in the order of the places and
each with a label that tells its place, can be read back. -/
theorem labelled_injective {ι β γ : Type} {label : ι → β → γ}
    (decodes : ∀ place place' value value',
      label place value = label place' value' → place = place' ∧ value = value')
    {places : List ι} (distinct : places.Nodup) {first second : ι → Option β}
    (same : places.filterMap (fun place => (first place).map (label place)) =
      places.filterMap fun place => (second place).map (label place)) :
    ∀ place ∈ places, first place = second place := by
  induction places with
  | nil =>
      intro place member
      cases member
  | cons place rest ih =>
      obtain ⟨fresh, distinct⟩ := List.nodup_cons.mp distinct
      -- A value at this place can not have been written by a later one.
      have absent : ∀ (values : ι → Option β) value,
          label place value ∉ rest.filterMap fun later => (values later).map (label later) := by
        intro values value written
        obtain ⟨later, member, shape⟩ := List.mem_filterMap.mp written
        obtain ⟨other, _, equal⟩ := Option.map_eq_some_iff.mp shape
        exact fresh ((decodes _ _ _ _ equal).1 ▸ member)
      cases found : first place with
      | none =>
          cases found' : second place with
          | none =>
              simp only [List.filterMap_cons, found, found', Option.map_none] at same
              intro other member
              rcases List.mem_cons.mp member with rfl | later
              · rw [found, found']
              · exact ih distinct same other later
          | some value' =>
              simp only [List.filterMap_cons, found, found', Option.map_none, Option.map_some] at same
              exact absurd (same ▸ List.mem_cons_self) (absent first value')
      | some value =>
          cases found' : second place with
          | none =>
              simp only [List.filterMap_cons, found, found', Option.map_none, Option.map_some] at same
              exact absurd (same ▸ List.mem_cons_self) (absent second value)
          | some value' =>
              simp only [List.filterMap_cons, found, found', Option.map_some] at same
              obtain ⟨head, tail⟩ := List.cons.inj same
              intro other member
              rcases List.mem_cons.mp member with rfl | later
              · rw [found, found', (decodes _ _ _ _ head).2]
              · exact ih distinct tail other later

end Delimited
