import Mathlib.Data.Nat.Digits.Lemmas
import Mathlib.Tactic

/-! Numerals: a number written to a base, its most significant digit first, in the characters of an
    alphabet, as short as it gets or padded to a width. What is written is read back, by a reader that
    may well know more characters than are ever written. -/

namespace Schemes

/-- The digits of a base: a character for each, and what each character is worth, if anything. -/
structure Alphabet where
  base : ℕ
  one_lt : 1 < base
  digit : ℕ → Char
  value : Char → Option ℕ
  value_digit : ∀ d, d < base → value (digit d) = some d

namespace Alphabet

variable (α : Alphabet)

/-- The shortest numeral. -/
def numeral (n : ℕ) : List Char :=
  if n = 0 then [α.digit 0] else ((Nat.digits α.base n).map α.digit).reverse

/-- The numeral with zeros in front of it up to a width. -/
def padded (width n : ℕ) : List Char :=
  List.replicate (width - (α.numeral n).length) (α.digit 0) ++ α.numeral n

/-- Read on, with `n` read so far. -/
def read : List Char → ℕ → Option ℕ
  | [], n => some n
  | c :: cs, n =>
    match α.value c with
    | some d => read cs (α.base * n + d)
    | none => none

theorem read_append (cs ds : List Char) (n : ℕ) :
    α.read (cs ++ ds) n = (α.read cs n).bind (α.read ds) := by
  induction cs generalizing n with
  | nil => rfl
  | cons c cs ih =>
    simp only [List.cons_append, read]
    cases α.value c with
    | none => rfl
    | some d => exact ih _

theorem pos : 0 < α.base := Nat.zero_lt_of_lt α.one_lt

theorem read_digit {d : ℕ} (hd : d < α.base) (n : ℕ) :
    α.read [α.digit d] n = some (α.base * n + d) := by
  simp only [read, α.value_digit d hd]

/-- Digits are read back, the least significant one last. -/
theorem read_digits (ds : List ℕ) (hds : ∀ d ∈ ds, d < α.base) :
    α.read (ds.map α.digit).reverse 0 = some (Nat.ofDigits α.base ds) := by
  induction ds with
  | nil => rfl
  | cons d ds ih =>
    rw [List.map_cons, List.reverse_cons, read_append,
      ih fun d' hd' => hds d' (List.mem_cons_of_mem d hd'), Option.bind_some,
      α.read_digit (hds d List.mem_cons_self), Nat.ofDigits_cons, Nat.add_comm]

/-- READ BACK: the shortest numeral. -/
theorem read_numeral (n : ℕ) : α.read (α.numeral n) 0 = some n := by
  unfold numeral
  split
  · rename_i hn
    rw [α.read_digit α.pos, hn]
    rfl
  · rw [α.read_digits _ fun d hd => Nat.digits_lt_base α.one_lt hd, Nat.ofDigits_digits]

theorem read_zeros (k : ℕ) : α.read (List.replicate k (α.digit 0)) 0 = some 0 := by
  induction k with
  | zero => rfl
  | succ k ih =>
    rw [List.replicate_succ, read, α.value_digit 0 α.pos]
    exact ih

/-- READ BACK: the padded one. -/
theorem read_padded (width n : ℕ) : α.read (α.padded width n) 0 = some n := by
  rw [padded, read_append, read_zeros, Option.bind_some, read_numeral]

theorem numeral_ne_nil (n : ℕ) : α.numeral n ≠ [] := by
  unfold numeral
  split
  · exact List.cons_ne_nil _ _
  · rename_i hn
    have hdigits := Nat.digits_ne_nil_iff_ne_zero (b := α.base).mpr hn
    simpa using hdigits

theorem padded_ne_nil (width n : ℕ) : α.padded width n ≠ [] :=
  List.append_ne_nil_of_right_ne_nil _ (α.numeral_ne_nil n)

/-- Nothing but digits is ever written. -/
theorem mem_numeral {c : Char} {n : ℕ} (h : c ∈ α.numeral n) : ∃ d, d < α.base ∧ c = α.digit d := by
  unfold numeral at h
  split at h
  · exact ⟨0, α.pos, List.mem_singleton.mp h⟩
  · obtain ⟨d, hd, rfl⟩ := List.mem_map.mp (List.mem_reverse.mp h)
    exact ⟨d, Nat.digits_lt_base α.one_lt hd, rfl⟩

theorem mem_padded {c : Char} {width n : ℕ} (h : c ∈ α.padded width n) :
    ∃ d, d < α.base ∧ c = α.digit d := by
  rcases List.mem_append.mp h with h | h
  · exact ⟨0, α.pos, List.eq_of_mem_replicate h⟩
  · exact α.mem_numeral h

end Alphabet

end Schemes
