import Mathlib.Data.List.Basic

/-! The functions of package `strings` the code uses, on lists of characters, and
the decimal form of integers. -/

set_option autoImplicit false

namespace Rlaas.Go.Strings

def isSpace (c : Char) : Bool :=
  let n := c.toNat
  (9 ≤ n && n ≤ 13) || n == 0x20 || n == 0x85 || n == 0xA0 || n == 0x1680 ||
    (0x2000 ≤ n && n ≤ 0x200A) || n == 0x2028 || n == 0x2029 || n == 0x202F || n == 0x205F ||
    n == 0x3000

def trimFunc (drop : Char → Bool) (text : List Char) : List Char :=
  ((text.dropWhile drop).reverse.dropWhile drop).reverse

def trimSpace (text : List Char) : List Char := trimFunc isSpace text

/-- `strings.SplitN(text, sep, 2)` for a non-empty separator: the parts around
its first occurrence, or `none` when there is none and one part is returned. -/
def splitOnce (sep : List Char) : List Char → Option (List Char × List Char)
  | [] => none
  | c :: rest =>
      if sep.isPrefixOf (c :: rest) then some ([], (c :: rest).drop sep.length)
      else (splitOnce sep rest).map fun parts => (c :: parts.1, parts.2)

/-- `strings.Split(text, sep)` for a non-empty separator; every round after the
first consumes an occurrence, so the length of the text bounds the rounds. -/
def splitRounds (sep : List Char) : Nat → List Char → List (List Char)
  | 0, text => [text]
  | rounds + 1, text =>
      match splitOnce sep text with
      | none => [text]
      | some (before, after) => before :: splitRounds sep rounds after

def split (sep text : List Char) : List (List Char) := splitRounds sep text.length text

def trimPrefix (text start : List Char) : List Char :=
  if start.isPrefixOf text then text.drop start.length else text

def trimSuffix (text last : List Char) : List Char :=
  if last.isSuffixOf text then text.take (text.length - last.length) else text

/-- `strings.TrimRight` with one character. -/
def trimRight (drop : Char) (text : List Char) : List Char :=
  (text.reverse.dropWhile (· = drop)).reverse

/-- `strings.ReplaceAll` of one character by another. -/
def replaceChar (old new : Char) (text : List Char) : List Char :=
  text.map fun c => if c = old then new else c

def join (sep : List Char) (parts : List (List Char)) : List Char := List.intercalate sep parts

section Printing

theorem natRepr_digits {m : Nat} {c : Char} (member : c ∈ m.repr.toList) : c.isDigit = true := by
  rw [Nat.toList_repr] at member
  exact Nat.isDigit_of_mem_toDigits (by decide) (by decide) member

theorem natRepr_injective {m n : Nat} (same : m.repr = n.repr) : m = n := by
  have digits := congrArg (fun text => Nat.ofDigitChars 10 text.toList 0) same
  simpa [Nat.toList_repr] using digits

theorem toString_chars (n : Int) {c : Char} (member : c ∈ (toString n).toList) :
    c.isDigit = true ∨ c = '-' := by
  cases n with
  | ofNat m => exact .inl (natRepr_digits member)
  | negSucc m =>
      change c ∈ ("-" ++ m.succ.repr).toList at member
      rw [String.toList_append] at member
      rcases List.mem_append.mp member with sign | digits
      · exact .inr (by simpa using sign)
      · exact .inl (natRepr_digits digits)

theorem toString_injective {m n : Int} (same : toString m = toString n) : m = n := by
  -- A negative number starts with the sign, which is no digit.
  have signed : ∀ a b : Nat, a.repr ≠ "-" ++ b.repr := by
    intro a b equal
    have sign : '-' ∈ a.repr.toList := by
      rw [equal, String.toList_append]
      exact List.mem_append_left _ (by decide)
    exact absurd (natRepr_digits sign) (by decide)
  cases m with
  | ofNat a =>
      cases n with
      | ofNat b => exact congrArg Int.ofNat (natRepr_injective same)
      | negSucc b => exact absurd same (signed a b.succ)
  | negSucc a =>
      cases n with
      | ofNat b => exact absurd same.symm (signed b a.succ)
      | negSucc b =>
          have digits : "-" ++ a.succ.repr = "-" ++ b.succ.repr := same
          have texts := congrArg String.toList digits
          rw [String.toList_append, String.toList_append] at texts
          have equal := natRepr_injective (String.toList_inj.mp (List.append_cancel_left texts))
          rw [Nat.succ.inj equal]

theorem append_toString_injective {text : String} {m n : Int}
    (same : text ++ toString m = text ++ toString n) : m = n := by
  have texts := congrArg String.toList same
  rw [String.toList_append, String.toList_append] at texts
  exact toString_injective (String.toList_inj.mp (List.append_cancel_left texts))

end Printing

end Rlaas.Go.Strings
