import Mathlib.Data.List.Chain
import Mathlib.Data.List.DropRight
import Rlaas.Go.Strings

/-! Splitting at a separator of two characters, joining, and trimming: when the parts that
were joined are read back. -/

set_option autoImplicit false

namespace Rlaas.Go.Strings

/-- `strings.Contains`. -/
def Contains (part text : List Char) : Prop := ∃ before after, text = before ++ part ++ after

/-- Nowhere in the text does `y` follow `x`. -/
def Apart (x y : Char) (text : List Char) : Prop := text.IsChain fun a b => ¬(a = x ∧ b = y)

section Pair

variable {x y : Char} {text before after : List Char}

@[simp] theorem apart_nil : Apart x y [] := .nil

theorem apart_of_not_mem (absent : x ∉ text) : Apart x y text := by
  refine List.Pairwise.isChain ?_
  refine List.pairwise_of_forall_mem_list fun a member b _ => ?_
  rintro ⟨rfl, _⟩
  exact absent member

theorem apart_cons {c : Char} : Apart x y (c :: text) ↔
    ¬(c = x ∧ text.head? = some y) ∧ Apart x y text := by
  cases text with
  | nil => simp [Apart]
  | cons d rest =>
      rw [Apart, List.isChain_cons_cons, List.head?_cons, Option.some.injEq]
      rfl

theorem apart_append : Apart x y (before ++ after) ↔
    Apart x y before ∧ Apart x y after ∧ ¬(before.getLast? = some x ∧ after.head? = some y) := by
  unfold Apart
  rw [List.isChain_append]
  refine and_congr_right fun _ => and_congr_right fun _ => ?_
  constructor
  · rintro apart ⟨ended, begun⟩
    exact apart x ended y begun ⟨rfl, rfl⟩
  · rintro apart a ended b begun ⟨rfl, rfl⟩
    exact apart ⟨ended, begun⟩

theorem not_contains_iff : ¬Contains [x, y] text ↔ Apart x y text := by
  unfold Apart
  rw [List.isChain_iff_forall_rel_of_append_cons_cons]
  constructor
  · rintro absent a b before after split ⟨rfl, rfl⟩
    exact absent ⟨before, after, by simpa using split⟩
  · rintro apart ⟨before, after, split⟩
    exact apart (by simpa using split) ⟨rfl, rfl⟩

theorem pair_isPrefixOf (c d : Char) (rest : List Char) :
    [x, y].isPrefixOf (c :: d :: rest) = true ↔ c = x ∧ d = y := by
  simp only [List.isPrefixOf, Bool.and_true, Bool.and_eq_true, beq_iff_eq]
  exact and_congr eq_comm eq_comm

theorem splitOnce_none_iff : splitOnce [x, y] text = none ↔ Apart x y text := by
  induction text with
  | nil => exact iff_of_true rfl .nil
  | cons c rest ih =>
      cases rest with
      | nil => exact iff_of_true (by simp [splitOnce]) (.singleton c)
      | cons d rest =>
          rw [splitOnce, Apart, List.isChain_cons_cons, ← Apart, ← ih]
          by_cases found : c = x ∧ d = y
          · rw [if_pos ((pair_isPrefixOf c d rest).mpr found)]
            exact iff_of_false (by simp) fun apart => apart.1 found
          · rw [if_neg (mt (pair_isPrefixOf c d rest).mp found), Option.map_eq_none_iff]
            exact (and_iff_right found).symm

/-- The parts around the first occurrence: the separator is neither in what comes before
it nor begun there. -/
theorem splitOnce_first (apart : Apart x y (before ++ [x])) (after : List Char) :
    splitOnce [x, y] (before ++ x :: y :: after) = some (before, after) := by
  induction before with
  | nil => simp [splitOnce]
  | cons c rest ih =>
      have later : Apart x y (rest ++ [x]) := List.IsChain.tail apart
      have missed : ¬[x, y].isPrefixOf (c :: (rest ++ x :: y :: after)) = true := by
        cases rest with
        | nil =>
            rw [List.nil_append, pair_isPrefixOf]
            exact (List.isChain_cons_cons.mp apart).1
        | cons d rest =>
            rw [List.cons_append, pair_isPrefixOf]
            exact (List.isChain_cons_cons.mp apart).1
      rw [List.cons_append, splitOnce, if_neg missed, ih later]
      rfl

theorem splitOnce_apart (apart : Apart x y text) : splitOnce [x, y] text = none :=
  splitOnce_none_iff.mpr apart

/-- A text that contains the pair, at its first occurrence. -/
theorem exists_first (contains : Contains [x, y] text) :
    ∃ before after, text = before ++ x :: y :: after ∧ Apart x y (before ++ [x]) := by
  induction text with
  | nil =>
      obtain ⟨before, after, split⟩ := contains
      simp at split
  | cons c rest ih =>
      by_cases here : c = x ∧ rest.head? = some y
      · obtain ⟨rfl, begun⟩ := here
        obtain ⟨after, rfl⟩ := List.head?_eq_some_iff.mp begun
        exact ⟨[], after, rfl, .singleton c⟩
      · have later : Contains [x, y] rest := by
          obtain ⟨before, after, split⟩ := contains
          cases before with
          | nil =>
              obtain ⟨rfl, rfl⟩ := List.cons.inj split
              exact absurd ⟨rfl, rfl⟩ here
          | cons first before => exact ⟨before, after, (List.cons.inj split).2⟩
        obtain ⟨before, after, rfl, apart⟩ := ih later
        refine ⟨c :: before, after, rfl, ?_⟩
        cases before with
        | nil => exact List.isChain_cons_cons.mpr ⟨fun both => here ⟨both.1, congrArg _ both.2⟩, apart⟩
        | cons d before =>
            exact List.isChain_cons_cons.mpr ⟨fun both => here ⟨both.1, congrArg _ both.2⟩, apart⟩

end Pair

section Join

variable {x y : Char}

theorem join_cons_cons (part next : List Char) (parts : List (List Char)) :
    join [x, y] (part :: next :: parts) = part ++ x :: y :: join [x, y] (next :: parts) := by
  simp [join]

theorem splitRounds_join {parts : List (List Char)} (some : parts ≠ [])
    (apart : ∀ part ∈ parts, Apart x y part)
    (ended : ∀ part ∈ parts.dropLast, Apart x y (part ++ [x])) {rounds : Nat}
    (enough : parts.length ≤ rounds + 1) :
    splitRounds [x, y] rounds (join [x, y] parts) = parts := by
  induction parts generalizing rounds with
  | nil => exact absurd rfl some
  | cons part parts ih =>
      cases parts with
      | nil =>
          have alone := splitOnce_apart (apart part List.mem_cons_self)
          cases rounds with
          | zero => simp [splitRounds, join]
          | succ rounds => simp [splitRounds, join, alone]
      | cons next parts =>
          cases rounds with
          | zero => simp at enough
          | succ rounds =>
              have first := ended part (by simp)
              have rest := ih (List.cons_ne_nil _ _)
                (fun other member => apart other (List.mem_cons_of_mem _ member))
                (fun other member => ended other (by simpa using .inr member))
                (by simpa using enough)
              rw [join_cons_cons, splitRounds, splitOnce_first first]
              exact congrArg _ rest

theorem length_join_ge (parts : List (List Char)) :
    parts.length ≤ (join [x, y] parts).length + 1 := by
  induction parts with
  | nil => simp
  | cons part parts ih =>
      cases parts with
      | nil => simp
      | cons next parts =>
          rw [join_cons_cons, List.length_append, List.length_cons, List.length_cons]
          simp only [List.length_cons] at ih ⊢
          omega

theorem split_join {parts : List (List Char)} (some : parts ≠ [])
    (apart : ∀ part ∈ parts, Apart x y part)
    (ended : ∀ part ∈ parts.dropLast, Apart x y (part ++ [x])) :
    split [x, y] (join [x, y] parts) = parts :=
  splitRounds_join some apart ended (length_join_ge parts)

end Join

section Trim

variable {drop : Char → Bool} {text : List Char}

/-- A text with nothing to trim. -/
structure Trimmed (drop : Char → Bool) (text : List Char) : Prop where
  first : ∀ c ∈ text.head?, drop c = false
  last : ∀ c ∈ text.getLast?, drop c = false

theorem dropWhile_eq_self (first : ∀ c ∈ text.head?, drop c = false) : text.dropWhile drop = text := by
  cases text with
  | nil => rfl
  | cons c rest => exact List.dropWhile_cons_of_neg (by simp [first c rfl])

theorem trimFunc_cons {c : Char} (dropped : drop c = true) :
    trimFunc drop (c :: text) = trimFunc drop text := by
  rw [trimFunc, List.dropWhile_cons_of_pos dropped, trimFunc]

theorem trimFunc_concat {c : Char} (dropped : drop c = true) :
    trimFunc drop (text ++ [c]) = trimFunc drop text := by
  rw [trimFunc, List.dropWhile_append, trimFunc]
  split_ifs with all
  · simp [dropped, List.isEmpty_iff.mp all]
  · simp [dropped]

theorem trimFunc_eq_self (trimmed : Trimmed drop text) : trimFunc drop text = text := by
  have last : ∀ c ∈ text.reverse.head?, drop c = false := by
    rw [List.head?_reverse]
    exact trimmed.last
  rw [trimFunc, dropWhile_eq_self trimmed.first, dropWhile_eq_self last, List.reverse_reverse]

/-- A kept beginning shields itself. -/
theorem trimFunc_append (trimmed : Trimmed drop text) (some : text ≠ []) (rest : List Char) :
    trimFunc drop (text ++ rest) = text ++ rest.rdropWhile drop := by
  induction rest using List.reverseRecOn with
  | nil => simpa using trimFunc_eq_self trimmed
  | append_singleton rest c ih =>
      rw [← List.append_assoc]
      cases dropped : drop c with
      | true => rw [trimFunc_concat dropped, ih, List.rdropWhile_concat_pos _ _ _ dropped]
      | false =>
          have whole : Trimmed drop (text ++ rest ++ [c]) := by
            constructor
            · intro first begun
              rw [List.append_assoc, List.head?_append_of_ne_nil _ some] at begun
              exact trimmed.first first begun
            · intro last ended
              obtain rfl : c = last := by simpa using ended
              exact dropped
          rw [trimFunc_eq_self whole, List.rdropWhile_concat_neg _ _ _ (by simp [dropped]),
            List.append_assoc]

theorem trimFunc_rdropWhile (text : List Char) :
    trimFunc drop (text.rdropWhile drop) = trimFunc drop text := by
  induction text using List.reverseRecOn with
  | nil => rfl
  | append_singleton text c ih =>
      cases dropped : drop c with
      | true => rw [List.rdropWhile_concat_pos _ _ _ dropped, ih, trimFunc_concat dropped]
      | false => rw [List.rdropWhile_concat_neg _ _ _ (by simp [dropped])]

theorem length_trimFunc_le (drop : Char → Bool) (text : List Char) :
    (trimFunc drop text).length ≤ text.length := by
  rw [trimFunc, List.length_reverse]
  exact ((List.dropWhile_sublist _).length_le.trans_eq List.length_reverse).trans
    (List.dropWhile_sublist _).length_le

end Trim

end Rlaas.Go.Strings
