import Mathlib.Algebra.Group.Int.Defs
import Mathlib.Algebra.Group.Nat.Defs
import Mathlib.Data.List.Basic

/-!
# 32-bit words as bytes

A little-endian word in memory, its byte swap (what `htonl` and `ntohl` are on such a machine)
and its signed reading. Every law is arithmetic on the four bytes of `toNat`.
-/

namespace WordBytes

/-- Byte `i` of a word, the lowest first. -/
def byte (x : UInt32) (i : Nat) : UInt8 := UInt8.ofNat (x.toNat / 256 ^ i)

/-- The word with the given bytes, the lowest first. -/
def ofBytes (b₀ b₁ b₂ b₃ : UInt8) : UInt32 :=
  UInt32.ofNat (b₀.toNat + 256 * b₁.toNat + 65536 * b₂.toNat + 16777216 * b₃.toNat)

/-- Each byte is a digit of the word to the base 256. -/
theorem byte_toNat (x : UInt32) (i : Nat) : (byte x i).toNat = x.toNat / 256 ^ i % 256 :=
  UInt8.toNat_ofNat'

/-- The word of four digits to the base 256. -/
theorem ofBytes_toNat (b₀ b₁ b₂ b₃ : UInt8) : (ofBytes b₀ b₁ b₂ b₃).toNat =
    b₀.toNat + 256 * b₁.toNat + 65536 * b₂.toNat + 16777216 * b₃.toNat := by
  have h₀ := b₀.toNat_lt
  have h₁ := b₁.toNat_lt
  have h₂ := b₂.toNat_lt
  have h₃ := b₃.toNat_lt
  simp only [ofBytes, UInt32.toNat_ofNat']
  omega

/-- A word is put together from its bytes. -/
theorem ofBytes_byte (x : UInt32) : ofBytes (byte x 0) (byte x 1) (byte x 2) (byte x 3) = x := by
  have hx := x.toNat_lt
  apply UInt32.toNat_inj.mp
  simp only [ofBytes_toNat, byte_toNat]
  omega

/-- The bytes of a word put together are those it was put together from. -/
theorem byte_ofBytes (b₀ b₁ b₂ b₃ : UInt8) : byte (ofBytes b₀ b₁ b₂ b₃) 0 = b₀ ∧
    byte (ofBytes b₀ b₁ b₂ b₃) 1 = b₁ ∧ byte (ofBytes b₀ b₁ b₂ b₃) 2 = b₂ ∧
    byte (ofBytes b₀ b₁ b₂ b₃) 3 = b₃ := by
  have h₀ := b₀.toNat_lt
  have h₁ := b₁.toNat_lt
  have h₂ := b₂.toNat_lt
  have h₃ := b₃.toNat_lt
  refine ⟨?_, ?_, ?_, ?_⟩ <;>
    (apply UInt8.toNat_inj.mp; simp only [byte_toNat, ofBytes_toNat]; omega)

/-- The word with its bytes in the other order. -/
def swap (x : UInt32) : UInt32 := ofBytes (byte x 3) (byte x 2) (byte x 1) (byte x 0)

/-- Turning the bytes around twice changes nothing. -/
@[simp] theorem swap_swap (x : UInt32) : swap (swap x) = x := by
  obtain ⟨h₀, h₁, h₂, h₃⟩ := byte_ofBytes (byte x 3) (byte x 2) (byte x 1) (byte x 0)
  rw [swap, swap, h₀, h₁, h₂, h₃, ofBytes_byte]

/-- Only the word 0 turns into 0. -/
theorem swap_eq_zero_iff {x : UInt32} : swap x = 0 ↔ x = 0 := by
  have hz : swap 0 = 0 := by decide
  refine ⟨fun h => ?_, fun h => h ▸ hz⟩
  rw [← swap_swap x, h, hz]

/-- The four bytes of a word in memory. -/
def store (x : UInt32) : List UInt8 := [byte x 0, byte x 1, byte x 2, byte x 3]

/-- The word at the start of a memory whose unwritten bytes are zero. -/
def load (m : List UInt8) : UInt32 :=
  ofBytes (m.getD 0 0) (m.getD 1 0) (m.getD 2 0) (m.getD 3 0)

/-- A word takes four bytes. -/
@[simp] theorem store_length (x : UInt32) : (store x).length = 4 := rfl

/-- What was stored is loaded, whatever bytes follow. -/
@[simp] theorem load_store (x : UInt32) (rest : List UInt8) : load (store x ++ rest) = x :=
  ofBytes_byte x

/-- The two's complement reading of a word. -/
def signed (x : UInt32) : Int := if x.toNat < 2 ^ 31 then x.toNat else (x.toNat : Int) - 2 ^ 32

/-- Converting the signed reading back gives the word. -/
@[simp] theorem ofInt_signed (x : UInt32) : UInt32.ofInt (signed x) = x := by
  have hx := x.toNat_lt
  apply UInt32.toNat_inj.mp
  simp only [signed, UInt32.ofInt, UInt32.toNat_ofNat']
  split <;> omega

end WordBytes
