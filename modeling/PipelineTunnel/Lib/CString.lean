import Mathlib.Data.List.Basic
import Mathlib.Data.List.TakeWhile
import Mathlib.Algebra.Order.Ring.Int
import Mathlib.Tactic.SplitIfs

/-!
# Functions of the C library on strings

A string is the list of its characters without the terminator. `int` has 32 and `long`
has 64 bits; a conversion to a narrower type keeps the low bits. `find` and `rfind` are those
of `std::string`.
-/

namespace PipelineTunnel.CString

/-- The string from the first occurrence of `needle` on. -/
def strstr (haystack needle : List Char) : Option (List Char) :=
  haystack.tails.find? fun tail => needle.isPrefixOf tail

/-- The string from the first `c` on. -/
def strchr (s : List Char) (c : Char) : Option (List Char) := strstr s [c]

def isSpace (c : Char) : Bool := c ∈ [' ', '\t', '\n', '\x0b', '\x0c', '\r']

/-- The value of the leading decimal digits. -/
def leadingDigits (s : List Char) : Nat :=
  (s.takeWhile Char.isDigit).foldl (fun n c => 10 * n + (c.toNat - '0'.toNat)) 0

def toInt (v : Int) : Int := v.bmod (2 ^ 32)

def toLong (v : Int) : Int := v.bmod (2 ^ 64)

/-- `strtol` with base ten: a number out of range becomes the nearest one in range. -/
def strtol (s : List Char) : Int :=
  let v : Int :=
    match s.dropWhile isSpace with
    | '-' :: rest => -(leadingDigits rest : Int)
    | '+' :: rest => leadingDigits rest
    | rest => leadingDigits rest
  max (-2 ^ 63) (min v (2 ^ 63 - 1))

def atol (s : List Char) : Int := strtol s

def atoi (s : List Char) : Int := toInt (strtol s)

/-- The position of the first `c`. -/
def find (s : List Char) (c : Char) : Option Nat := s.idxOf? c

/-- The position of the last `c`. -/
def rfind (s : List Char) (c : Char) : Option Nat :=
  (s.reverse.idxOf? c).map fun i => s.length - 1 - i

/-- A number as it is printed by `%d`. -/
def decimal (n : Nat) : List Char := Nat.toDigits 10 n

/-- One of the joined strings with what stands on both sides of it. -/
theorem intercalate_append_cons (c : Char) (pre : List (List Char)) (s : List Char)
    (post : List (List Char)) :
    [c].intercalate (pre ++ s :: post) =
      pre.flatMap (· ++ [c]) ++ (s ++ post.flatMap (c :: ·)) := by
  induction pre with
  | nil =>
      rw [List.nil_append, List.flatMap_nil, List.nil_append]
      induction post generalizing s with
      | nil => simp
      | cons t post ih => rw [List.intercalate_cons_cons, ih t]; simp
  | cons t pre ih =>
      rw [List.cons_append, List.intercalate_cons_of_ne_nil (by simp), ih]
      simp

/-! ## Searching -/

theorem find_eq_none {s : List Char} {c : Char} (h : c ∉ s) : find s c = none :=
  List.idxOf?_eq_none_iff.mpr h

theorem find_append_cons {s : List Char} {c : Char} (h : c ∉ s) (rest : List Char) :
    find (s ++ c :: rest) c = some s.length := by
  induction s with
  | nil => simp [find, List.idxOf?_cons]
  | cons d s ih =>
      have hne : d ≠ c := fun heq => h (heq ▸ List.mem_cons_self)
      have hrest := ih fun hmem => h (List.mem_cons_of_mem d hmem)
      rw [find] at hrest
      rw [find, List.cons_append, List.idxOf?_cons, if_neg (by simpa using hne), hrest]
      rfl

/-- What stands behind a separator. -/
theorem drop_append_cons (s : List Char) (c : Char) (rest : List Char) :
    (s ++ c :: rest).drop (s.length + 1) = rest := by
  rw [← List.drop_drop, List.drop_left, List.drop_succ_cons, List.drop_zero]

/-- The last `c` is found behind anything. -/
theorem rfind_append_cons {rest : List Char} {c : Char} (h : c ∉ rest) (s : List Char) :
    rfind (s ++ c :: rest) c = some s.length := by
  have hfind := find_append_cons (c := c) (fun hmem => h (List.mem_reverse.mp hmem)) s.reverse
  rw [find] at hfind
  have hreverse : (s ++ c :: rest).reverse = rest.reverse ++ c :: s.reverse := by simp
  rw [rfind, hreverse, hfind, Option.map_some]
  simp only [List.length_append, List.length_cons, List.length_reverse, Option.some.injEq]
  omega

/-- No occurrence of a string begins in front of its first character. -/
theorem strstr_append {pre : List Char} {c : Char} (h : c ∉ pre) (needle rest : List Char) :
    strstr (pre ++ rest) (c :: needle) = strstr rest (c :: needle) := by
  induction pre with
  | nil => rfl
  | cons d pre ih =>
      have hne : ¬ c = d := fun heq => h (heq ▸ List.mem_cons_self)
      have hrest := ih fun hmem => h (List.mem_cons_of_mem d hmem)
      rw [strstr] at hrest ⊢
      rw [List.cons_append, List.tails, List.find?_cons_of_neg, hrest]
      simp [List.isPrefixOf, hne]

theorem strstr_eq_none {s : List Char} {c : Char} (h : c ∉ s) (needle : List Char) :
    strstr s (c :: needle) = none := by
  have happend := strstr_append h needle []
  rwa [List.append_nil] at happend

theorem strstr_self (needle rest : List Char) :
    strstr (needle ++ rest) needle = some (needle ++ rest) := by
  have hfront : needle.isPrefixOf (needle ++ rest) = true :=
    List.isPrefixOf_iff_prefix.mpr (List.prefix_append needle rest)
  rw [strstr]
  cases hs : needle ++ rest with
  | nil =>
      rw [hs] at hfront
      rw [List.tails, List.find?_cons_of_pos hfront]
  | cons c s =>
      rw [hs] at hfront
      rw [List.tails, List.find?_cons_of_pos hfront]

/-! ## Numbers -/

theorem isDigit_decimal {n : Nat} {c : Char} (h : c ∈ decimal n) : c.isDigit = true :=
  Nat.isDigit_of_mem_toDigits (by decide) (by decide) h

theorem decimal_ne_nil (n : Nat) : decimal n ≠ [] := Nat.toDigits_ne_nil

/-- The number ends in front of the first character that is no digit. -/
theorem leadingDigits_decimal (n : Nat) {rest : List Char}
    (h : ∀ c ∈ rest.head?, c.isDigit = false) : leadingDigits (decimal n ++ rest) = n := by
  have hrest : rest.takeWhile Char.isDigit = [] := by
    cases rest with
    | nil => rfl
    | cons c rest => exact List.takeWhile_cons_of_neg (by simp [h c rfl])
  rw [leadingDigits, List.takeWhile_append_of_pos fun c hc => isDigit_decimal hc, hrest,
    List.append_nil, ← Nat.ofDigitChars_eq_foldl]
  exact Nat.ofDigitChars_ten_toDigits

theorem strtol_decimal (n : Nat) {rest : List Char}
    (h : ∀ c ∈ rest.head?, c.isDigit = false) :
    strtol (decimal n ++ rest) = min (n : Int) (2 ^ 63 - 1) := by
  have hdigits := leadingDigits_decimal n h
  obtain ⟨c, s, hs⟩ := List.exists_cons_of_ne_nil (decimal_ne_nil n)
  have hc : c.isDigit = true := isDigit_decimal (hs ▸ List.mem_cons_self)
  have hspace : isSpace c = false := by
    rw [isSpace, decide_eq_false_iff_not]
    rintro hmem
    simp only [List.mem_cons, List.not_mem_nil, or_false] at hmem
    rcases hmem with rfl | rfl | rfl | rfl | rfl | rfl <;> cases hc
  rw [hs, List.cons_append] at hdigits
  rw [strtol, hs, List.cons_append, List.dropWhile_cons_of_neg (by simp [hspace])]
  have hvalue : (match c :: (s ++ rest) with
      | '-' :: rest => -(leadingDigits rest : Int)
      | '+' :: rest => leadingDigits rest
      | rest => leadingDigits rest) = (n : Int) := by
    split
    · rename_i heq
      rw [List.cons.injEq] at heq
      rw [heq.1] at hc
      cases hc
    · rename_i heq
      rw [List.cons.injEq] at heq
      rw [heq.1] at hc
      cases hc
    · rw [hdigits]
  rw [hvalue]
  omega

theorem atoi_decimal {n : Nat} (hn : n < 2 ^ 31) {rest : List Char}
    (h : ∀ c ∈ rest.head?, c.isDigit = false) : atoi (decimal n ++ rest) = n := by
  have hmin : min (n : Int) (2 ^ 63 - 1) = n := by omega
  rw [atoi, strtol_decimal n h, hmin, toInt]
  exact Int.bmod_eq_of_le (by omega) (by omega)

end PipelineTunnel.CString
