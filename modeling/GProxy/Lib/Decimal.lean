import Mathlib.Data.List.TakeWhile

/-!
# Decimal text, printed and read as C does

`print` is what `%d` writes and `atoi` what the C function reads: white space, a sign, then
digits up to the first byte that is none. C leaves open what a number outside the range of `int` is
read as; here it is the nearest end of the range, as where `long` is no wider than `int`.
`atoi_print` says that reading back what was printed gives the number, whatever follows the
terminator.
-/

namespace Decimal

/-- The digits of a natural number, as ASCII bytes. -/
def digits (n : Nat) : List UInt8 := (Nat.toDigits 10 n).map fun c => UInt8.ofNat c.toNat

/-- What `%d` writes. -/
def print : Int → List UInt8
  | .ofNat n => digits n
  | .negSucc n => 45 :: digits (n + 1)

/-- The white space of the C locale. -/
def isSpace (b : UInt8) : Bool := b == 32 || (9 ≤ b && b ≤ 13)

def isDigit (b : UInt8) : Bool := 48 ≤ b && b ≤ 57

/-- The value of the digits at the start of a text. -/
def value (text : List UInt8) : Nat :=
  (text.takeWhile isDigit).foldl (fun acc b => 10 * acc + (b.toNat - 48)) 0

/-- The number a text starts with. -/
def parse (text : List UInt8) : Int :=
  match text.dropWhile isSpace with
  | [] => 0
  | b :: rest =>
    if b = 45 then -(value rest : Int)
    else if b = 43 then value rest
    else value (b :: rest)

/-- `INT_MIN` -/
def intMin : Int := -2147483648

/-- `INT_MAX` -/
def intMax : Int := 2147483647

/-- What `atoi` reads. -/
def atoi (text : List UInt8) : Int := max intMin (min (parse text) intMax)

/-- The codes of the digits. -/
theorem toNat_lt_of_isDigit {c : Char} (h : c.isDigit) : 48 ≤ c.toNat ∧ c.toNat ≤ 57 := by
  simp only [Char.isDigit, ge_iff_le, Bool.and_eq_true, decide_eq_true_eq] at h
  exact ⟨by simpa [UInt32.le_iff_toNat_le] using h.1, by simpa [UInt32.le_iff_toNat_le] using h.2⟩

/-- Only digits are printed, so a printed number holds neither a sign nor a blank. -/
theorem isDigit_of_mem_digits {n : Nat} {b : UInt8} (h : b ∈ digits n) : isDigit b := by
  obtain ⟨c, hc, rfl⟩ := List.mem_map.mp h
  have hd := toNat_lt_of_isDigit (Nat.isDigit_of_mem_toDigits (by decide) (by decide) hc)
  simp only [isDigit, Bool.and_eq_true, decide_eq_true_eq, UInt8.le_iff_toNat_le,
    UInt8.toNat_ofNat']
  constructor
  · show 48 ≤ c.toNat % 2 ^ 8
    omega
  · show c.toNat % 2 ^ 8 ≤ 57
    omega

/-- Reading printed digits by the bytes is reading them as characters, where Lean's own lemma about
printing applies. -/
theorem foldl_digits (cs : List Char) (hcs : ∀ c ∈ cs, c.isDigit) (acc : Nat) :
    (cs.map fun c => UInt8.ofNat c.toNat).foldl (fun acc b => 10 * acc + (b.toNat - 48)) acc =
      Nat.ofDigitChars 10 cs acc := by
  induction cs generalizing acc with
  | nil => rfl
  | cons c cs ih =>
    have hd := toNat_lt_of_isDigit (hcs c List.mem_cons_self)
    have hc : (UInt8.ofNat c.toNat).toNat = c.toNat := by
      rw [UInt8.toNat_ofNat']
      omega
    rw [List.map_cons, List.foldl_cons, hc, ih fun c hc => hcs c (List.mem_cons_of_mem _ hc)]
    rfl

/-- The digits of a number, followed by anything that is no digit, have its value. -/
theorem value_digits (n : Nat) {stop : UInt8} (hstop : isDigit stop = false)
    (rest : List UInt8) : value (digits n ++ stop :: rest) = n := by
  have htake : (digits n ++ stop :: rest).takeWhile isDigit = digits n := by
    rw [List.takeWhile_append_of_pos fun b hb => isDigit_of_mem_digits hb,
      List.takeWhile_cons_of_neg (by simp [hstop]), List.append_nil]
  rw [value, htake, digits, foldl_digits _ fun c hc =>
    Nat.isDigit_of_mem_toDigits (by decide) (by decide) hc]
  exact Nat.ofDigitChars_ten_toDigits

/-- A digit is no blank: skipping blanks leaves a printed number as it is. -/
theorem isSpace_of_isDigit {b : UInt8} (h : isDigit b) : isSpace b = false := by
  simp only [isDigit, Bool.and_eq_true, decide_eq_true_eq, UInt8.le_iff_toNat_le] at h
  simp only [isSpace, Bool.or_eq_false_iff, beq_eq_false_iff_ne, ne_eq, Bool.and_eq_false_iff,
    decide_eq_false_iff_not, UInt8.le_iff_toNat_le, ← UInt8.toNat_inj]
  have : (48 : UInt8).toNat = 48 := rfl
  have : (32 : UInt8).toNat = 32 := rfl
  have : (13 : UInt8).toNat = 13 := rfl
  omega

/-- The number a printed number starts with is this number. -/
theorem parse_print (z : Int) {stop : UInt8} (hstop : isDigit stop = false) (rest : List UInt8) :
    parse (print z ++ stop :: rest) = z := by
  cases z with
  | negSucc n =>
    have hsp : isSpace 45 = false := rfl
    rw [print, List.cons_append, parse, List.dropWhile_cons_of_neg (by simp [hsp])]
    simp only [↓reduceIte, value_digits _ hstop]
    rfl
  | ofNat n =>
    have hne : digits n ≠ [] := by simp [digits, Nat.toDigits_ne_nil]
    obtain ⟨b, bs, hb⟩ := List.exists_cons_of_ne_nil hne
    have hd : isDigit b := isDigit_of_mem_digits (hb ▸ List.mem_cons_self)
    have hval := value_digits n hstop rest
    have h45 : b ≠ 45 := fun h => by rw [h] at hd; cases hd
    have h43 : b ≠ 43 := fun h => by rw [h] at hd; cases hd
    rw [hb, List.cons_append] at hval
    rw [print, hb, List.cons_append, parse,
      List.dropWhile_cons_of_neg (by simp [isSpace_of_isDigit hd])]
    simp only [if_neg h45, if_neg h43, hval]
    rfl

/-- Reading back a printed `int` gives the number. -/
theorem atoi_print {z : Int} (hmin : intMin ≤ z) (hmax : z ≤ intMax) {stop : UInt8}
    (hstop : isDigit stop = false) (rest : List UInt8) : atoi (print z ++ stop :: rest) = z := by
  rw [atoi, parse_print z hstop, Int.min_eq_left hmax, Int.max_eq_right hmin]

end Decimal
