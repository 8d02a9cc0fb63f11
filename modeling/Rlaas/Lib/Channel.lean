import Mathlib.Data.List.Basic

/-! Buffered channels: a queue of bounded length with the operations of a `select` that has
a `default` branch. -/

set_option autoImplicit false

structure Channel (α : Type) where
  capacity : Nat
  queue : List α
  fits : queue.length ≤ capacity

namespace Channel

variable {α : Type}

def make (capacity : Nat) : Channel α := ⟨capacity, [], Nat.zero_le capacity⟩

/-- A channel made for these items and filled with them. -/
def filled (items : List α) : Channel α := ⟨items.length, items, Nat.le_refl _⟩

def trySend (item : α) (channel : Channel α) : Bool × Channel α :=
  if room : channel.queue.length < channel.capacity then
    (true,
      { channel with
        queue := channel.queue ++ [item]
        fits := by
          rw [List.length_append]
          exact room })
  else (false, channel)

def tryReceive (channel : Channel α) : Option α × Channel α :=
  (channel.queue.head?,
    { channel with
      queue := channel.queue.tail
      fits := by
        rw [List.length_tail]
        exact Nat.le_trans (Nat.sub_le _ _) channel.fits })

theorem trySend_cases (item : α) (channel : Channel α) :
    (∃ after, channel.trySend item = (true, after) ∧ after.queue = channel.queue ++ [item] ∧
      after.capacity = channel.capacity) ∨
    channel.trySend item = (false, channel) ∧ channel.queue.length = channel.capacity := by
  unfold trySend
  split_ifs with room
  · exact .inl ⟨_, rfl, rfl, rfl⟩
  · exact .inr ⟨rfl, Nat.le_antisymm channel.fits (Nat.not_lt.mp room)⟩

theorem tryReceive_cases (channel : Channel α) :
    channel.queue = [] ∧ channel.tryReceive = (none, channel) ∨
    ∃ item after, channel.tryReceive = (some item, after) ∧ channel.queue = item :: after.queue ∧
      after.capacity = channel.capacity := by
  obtain ⟨capacity, queue, fits⟩ := channel
  cases queue with
  | nil => exact .inl ⟨rfl, rfl⟩
  | cons item rest => exact .inr ⟨item, _, rfl, rfl, rfl⟩

end Channel
