import Mathlib.Algebra.Order.Ring.Int
import Mathlib.Tactic.SplitIfs

/-!
# Times of the emulator (`Util.c`)

`struct timeval` and its comparisons. The comparisons take pointers and normalise what they point
at, so a comparison changes the representation of both times. What it compares is the instant of
the normalised time (`istante`), and this is the instant of the time itself, `us`, as long as the
seconds still fit a `long` when the microseconds are carried over (`istante_eq_us_iff`).

`minoreouguale` compares instants. `minore` does not: it also says yes when the second time has
earlier seconds and larger microseconds (`minore_iff`). The arithmetic is exact on instants as long
as it stays in the range of a `long`, and only then: `somma` adds them and `differenza` subtracts
them, down to zero (`time_arithmetic`).

A `long` has the 32 bits it has in the objects of the repository, and wraps. With 64 bits the range
is larger and nothing else changes. What a compiler makes of an overflow is not established here.
-/

namespace GProxy.Ritardatore

/-- `long int`, and `time_t` and `suseconds_t` with it. -/
abbrev Long := Int32

/-- `LONG_MIN` -/
def longMin : Int := -2147483648

/-- `LONG_MAX` -/
def longMax : Int := 2147483647

/-- `struct timeval` -/
structure Timeval where
  tvSec : Long
  tvUsec : Long
  deriving DecidableEq, Repr

/-- `SEC_IN_MCSEC` -/
def secInMcsec : Long := 1000000

def normalizza (t : Timeval) : Timeval :=
  if t.tvUsec ≥ secInMcsec then ⟨t.tvSec + t.tvUsec / secInMcsec, t.tvUsec % secInMcsec⟩ else t

def somma (tmr ist : Timeval) : Timeval :=
  let tmr := normalizza tmr
  let ist := normalizza ist
  normalizza ⟨ist.tvSec + tmr.tvSec, ist.tvUsec + tmr.tvUsec⟩

def oldDifferenza (dopo prima : Timeval) : Timeval :=
  let prima := normalizza prima
  let dopo := normalizza dopo
  let sec := dopo.tvSec - prima.tvSec
  if sec < 0 then ⟨0, 0⟩
  else
    let usec := dopo.tvUsec - prima.tvUsec
    if usec < 0 then
      if sec > 0 then ⟨sec - 1, dopo.tvUsec - prima.tvUsec + secInMcsec⟩ else ⟨sec, 0⟩
    else ⟨sec, usec⟩

def differenza (dopo prima : Timeval) : Timeval :=
  let prima := normalizza prima
  let dopo := normalizza dopo
  if dopo.tvSec < prima.tvSec then ⟨0, 0⟩
  else
    let sec := dopo.tvSec - prima.tvSec
    if dopo.tvUsec < prima.tvUsec then
      if sec > 0 then ⟨sec - 1, dopo.tvUsec - prima.tvUsec + secInMcsec⟩ else ⟨sec, 0⟩
    else ⟨sec, dopo.tvUsec - prima.tvUsec⟩

/-- The answer of `minore`. -/
def minore (a b : Timeval) : Bool :=
  let a := normalizza a
  let b := normalizza b
  if a.tvSec < b.tvSec then true else if a.tvUsec < b.tvUsec then true else false

/-- The answer of `minoreouguale`. -/
def minoreouguale (a b : Timeval) : Bool :=
  let a := normalizza a
  let b := normalizza b
  if a.tvSec < b.tvSec then true
  else if a.tvSec = b.tvSec ∧ a.tvUsec ≤ b.tvUsec then true
  else false

/-- The instant, in microseconds. -/
def Timeval.us (t : Timeval) : Int := t.tvSec.toInt * 1000000 + t.tvUsec.toInt

/-- The instant of the time once it is normalised. -/
def Timeval.istante (t : Timeval) : Int := (normalizza t).us

/-- The seconds still fit a `long` when the microseconds are carried over. -/
def Timeval.Fits (t : Timeval) : Prop := t.us / 1000000 ≤ longMax

instance (t : Timeval) : Decidable t.Fits := Int.decLe _ _

/-- A reading of the clock after which the seconds still have so far to go in a `long`. -/
def Timeval.Within (t : Timeval) (sec : Int) : Prop :=
  0 ≤ t.tvUsec ∧ t.us / 1000000 + sec ≤ longMax

instance (t : Timeval) (sec : Int) : Decidable (t.Within sec) := instDecidableAnd

/-- Between zero and a million microseconds. -/
def Timeval.Normal (t : Timeval) : Prop := 0 ≤ t.tvUsec ∧ t.tvUsec < secInMcsec

/-- `a` is in a later second than `b` and has fewer microseconds. -/
def straddles (a b : Timeval) : Bool :=
  (normalizza b).tvSec < (normalizza a).tvSec && (normalizza a).tvUsec < (normalizza b).tvUsec

/-! ## Values of a `long` -/

/-- What is left of an integer in a `long`, as a remainder. -/
theorem bmod_long (x : Int) :
    x.bmod (2 ^ 32) = (x + 2147483648) % 4294967296 - 2147483648 := by
  simp only [Int.bmod]
  split <;> omega

/-- The test for a negative `long` is the one on integers. -/
theorem long_nonneg_iff {x : Long} : 0 ≤ x ↔ 0 ≤ x.toInt := by
  rw [Int32.le_iff_toInt_le, Int32.toInt_zero]

/-- The range of a `long`. -/
theorem long_bounds (x : Long) : longMin ≤ x.toInt ∧ x.toInt ≤ longMax :=
  ⟨x.le_toInt, Int.le_of_lt_add_one x.toInt_lt⟩

/-- A million is no divisor whose quotient can overflow, and of what is not negative the quotient
and the remainder of C are the ones of the integers. -/
theorem div_secInMcsec {x : Long} (h : 0 ≤ x.toInt) :
    (x / secInMcsec).toInt = x.toInt / 1000000 ∧ (x % secInMcsec).toInt = x.toInt % 1000000 := by
  have hsec : secInMcsec.toInt = 1000000 := rfl
  constructor
  · rw [Int32.toInt_div_of_ne_right _ _ (by decide), hsec, Int.tdiv_eq_ediv_of_nonneg h]
  · rw [Int32.toInt_mod, hsec, Int.tmod_eq_emod_of_nonneg h]

/-- A normal time has microseconds that are less than a second, as integers. -/
theorem Timeval.normal_iff {t : Timeval} :
    t.Normal ↔ 0 ≤ t.tvUsec.toInt ∧ t.tvUsec.toInt < 1000000 := by
  rw [Timeval.Normal, long_nonneg_iff, Int32.lt_iff_toInt_lt]
  rfl

/-- Times with the same seconds and microseconds, as integers, are the same. -/
theorem Timeval.ext_toInt {t t' : Timeval} (hsec : t.tvSec.toInt = t'.tvSec.toInt)
    (husec : t.tvUsec.toInt = t'.tvUsec.toInt) : t = t' := by
  cases t
  cases t'
  rw [Timeval.mk.injEq]
  exact ⟨Int32.toInt.inj hsec, Int32.toInt.inj husec⟩

/-! ## Normalising -/

/-- Whole seconds are carried over from the microseconds, and the seconds wrap. -/
theorem normalizza_spec {t : Timeval} (h : 0 ≤ t.tvUsec) :
    (normalizza t).tvSec.toInt = (t.tvSec.toInt + t.tvUsec.toInt / 1000000).bmod (2 ^ 32) ∧
      (normalizza t).tvUsec.toInt = t.tvUsec.toInt % 1000000 := by
  have hnonneg := long_nonneg_iff.mp h
  obtain ⟨hlow, hhigh⟩ := long_bounds t.tvSec
  unfold longMin at hlow
  unfold longMax at hhigh
  unfold normalizza
  split
  next =>
    obtain ⟨hdiv, hmod⟩ := div_secInMcsec hnonneg
    exact ⟨by rw [Int32.toInt_add, hdiv], hmod⟩
  next hlt =>
    have hsmall : t.tvUsec.toInt < 1000000 := by
      rw [ge_iff_le, Int32.le_iff_toInt_le, not_le] at hlt
      exact hlt
    constructor
    · rw [bmod_long]
      omega
    · omega

/-- Microseconds that are not negative are less than a second after normalising. -/
theorem normalizza_usec {t : Timeval} (h : 0 ≤ t.tvUsec) : (normalizza t).Normal := by
  rw [Timeval.normal_iff, (normalizza_spec h).2]
  omega

/-- Normalising leaves negative microseconds negative: it carries over whole seconds only when there
are any. -/
theorem normalizza_usec_nonneg {t : Timeval} : 0 ≤ (normalizza t).tvUsec ↔ 0 ≤ t.tvUsec := by
  by_cases h : t.tvUsec ≥ secInMcsec
  · have hpos : 0 ≤ t.tvUsec := Int32.le_trans (by decide) h
    exact iff_of_true (normalizza_usec hpos).1 hpos
  · simp only [normalizza, if_neg h]

/-- A time that is normal already stays as it is. -/
theorem Timeval.Normal.normalizza_eq {t : Timeval} (h : t.Normal) : normalizza t = t :=
  if_neg (Int32.not_le.mpr h.2)

/-- Normalising twice is normalising once. -/
@[simp] theorem normalizza_normalizza (t : Timeval) : normalizza (normalizza t) = normalizza t := by
  by_cases h : 0 ≤ t.tvUsec
  · exact (normalizza_usec h).normalizza_eq
  · have hlt : ¬ t.tvUsec ≥ secInMcsec := fun hge => h (Int32.le_trans (by decide) hge)
    simp only [normalizza, if_neg hlt]

/-- Normalising does not change the instant a time is compared by. -/
@[simp] theorem istante_normalizza (t : Timeval) : (normalizza t).istante = t.istante := by
  rw [Timeval.istante, normalizza_normalizza, Timeval.istante]

/-- A normal time is compared by the instant it shows. -/
theorem Timeval.Normal.istante_eq {t : Timeval} (h : t.Normal) : t.istante = t.us := by
  rw [Timeval.istante, h.normalizza_eq]

/-- Normalising keeps the instant exactly when the seconds fit. -/
theorem istante_eq_us_iff {t : Timeval} (h : 0 ≤ t.tvUsec) : t.istante = t.us ↔ t.Fits := by
  obtain ⟨hsec, husec⟩ := normalizza_spec h
  have hnonneg := long_nonneg_iff.mp h
  have hbounds := long_bounds t.tvSec
  simp only [Timeval.istante, Timeval.Fits, Timeval.us, hsec, husec, bmod_long, longMin,
    longMax] at *
  omega

/-- A time that is away from the end of the range is compared by the instant it shows. -/
theorem Timeval.Within.istante_eq {t : Timeval} {sec : Int} (h : t.Within sec) (hsec : 0 ≤ sec) :
    t.istante = t.us := by
  apply (istante_eq_us_iff h.1).mpr
  have := h.2
  unfold Timeval.Fits
  omega

/-- Seconds and microseconds added to the fields of a normal time are added to its instant, as long
as they fit. -/
theorem normalizza_add {t : Timeval} (h : t.Normal) {sec usec : Nat} (hsec : sec < 100)
    (husec : usec < 1000000) (hfits : t.us / 1000000 + sec + 1 ≤ longMax) :
    (normalizza ⟨t.tvSec + .ofNat sec, t.tvUsec + .ofNat usec⟩).Normal ∧
      (normalizza ⟨t.tvSec + .ofNat sec, t.tvUsec + .ofNat usec⟩).us =
        t.us + sec * 1000000 + usec := by
  obtain ⟨h₀, h₁⟩ := Timeval.normal_iff.mp h
  obtain ⟨hlow, _⟩ := long_bounds t.tvSec
  have hus : t.us / 1000000 = t.tvSec.toInt := by
    unfold Timeval.us
    omega
  unfold longMin longMax at *
  have hsec' : (t.tvSec + .ofNat sec).toInt = t.tvSec.toInt + sec := by
    rw [Int32.toInt_add, Int32.toInt_ofNat_of_lt (by omega), bmod_long]
    omega
  have husec' : (t.tvUsec + .ofNat usec).toInt = t.tvUsec.toInt + usec := by
    rw [Int32.toInt_add, Int32.toInt_ofNat_of_lt (by omega), bmod_long]
    omega
  have hnonneg : 0 ≤ t.tvUsec + .ofNat usec := by
    rw [long_nonneg_iff, husec']
    omega
  have hsum : (⟨t.tvSec + .ofNat sec, t.tvUsec + .ofNat usec⟩ : Timeval).us =
      t.us + sec * 1000000 + usec := by
    simp only [Timeval.us, hsec', husec']
    omega
  generalize hraw : (⟨t.tvSec + .ofNat sec, t.tvUsec + .ofNat usec⟩ : Timeval) = raw at hsum
  have hraw_usec : 0 ≤ raw.tvUsec := hraw ▸ hnonneg
  have hraw_fits : raw.Fits := by
    rw [Timeval.Fits, hsum]
    unfold longMax
    omega
  exact ⟨normalizza_usec hraw_usec, ((istante_eq_us_iff hraw_usec).mpr hraw_fits).trans hsum⟩

/-! ## Comparisons -/

/-- A normal time is compared by its seconds first. -/
theorem istante_lt_iff {a b : Timeval} (ha : 0 ≤ a.tvUsec) (hb : 0 ≤ b.tvUsec) :
    a.istante < b.istante ↔ (normalizza a).tvSec < (normalizza b).tvSec ∨
      (normalizza a).tvSec = (normalizza b).tvSec ∧
        (normalizza a).tvUsec < (normalizza b).tvUsec := by
  obtain ⟨ha₀, ha₁⟩ := Timeval.normal_iff.mp (normalizza_usec ha)
  obtain ⟨hb₀, hb₁⟩ := Timeval.normal_iff.mp (normalizza_usec hb)
  rw [Int32.lt_iff_toInt_lt, Int32.lt_iff_toInt_lt, ← Int32.toInt_inj]
  unfold Timeval.istante Timeval.us
  omega

/-- `minoreouguale` compares instants, without exception. -/
theorem minoreouguale_iff {a b : Timeval} (ha : 0 ≤ a.tvUsec) (hb : 0 ≤ b.tvUsec) :
    minoreouguale a b = true ↔ a.istante ≤ b.istante := by
  rw [← not_lt, istante_lt_iff hb ha]
  unfold minoreouguale
  simp only [Int32.lt_iff_toInt_lt, Int32.le_iff_toInt_le, ← Int32.toInt_inj]
  split_ifs with hsec husec
  · simp only [true_iff]
    omega
  · simp only [true_iff]
    omega
  · simp only [false_iff]
    omega

/-- `minore` compares instants unless the second time is in an earlier second with more
microseconds; then it says yes. -/
theorem minore_iff {a b : Timeval} (ha : 0 ≤ a.tvUsec) (hb : 0 ≤ b.tvUsec) :
    minore a b = true ↔ a.istante < b.istante ∨ straddles a b = true := by
  rw [istante_lt_iff ha hb]
  unfold minore straddles
  simp only [Bool.and_eq_true, decide_eq_true_eq, Int32.lt_iff_toInt_lt, ← Int32.toInt_inj]
  split_ifs with hsec husec
  · simp only [true_iff]
    omega
  · simp only [true_iff]
    omega
  · simp only [false_iff]
    omega

/-- Where `minore` is wrong the second time is the earlier one. -/
theorem istante_lt_of_straddles {a b : Timeval} (ha : 0 ≤ a.tvUsec) (hb : 0 ≤ b.tvUsec)
    (h : straddles a b = true) : b.istante < a.istante := by
  rw [istante_lt_iff hb ha]
  simp only [straddles, Bool.and_eq_true, decide_eq_true_eq] at h
  exact .inl h.1

/-! ## Sums and differences -/

/-- The sum of two times, with the seconds as they wrap. -/
theorem somma_toInt {a b : Timeval} (ha : 0 ≤ a.tvUsec) (hb : 0 ≤ b.tvUsec) :
    (somma a b).tvSec.toInt = ((a.us + b.us) / 1000000).bmod (2 ^ 32) ∧
      (somma a b).tvUsec.toInt = (a.us + b.us) % 1000000 := by
  obtain ⟨hsec_a, husec_a⟩ := normalizza_spec ha
  obtain ⟨hsec_b, husec_b⟩ := normalizza_spec hb
  have husec : ((normalizza b).tvUsec + (normalizza a).tvUsec).toInt =
      b.tvUsec.toInt % 1000000 + a.tvUsec.toInt % 1000000 := by
    rw [Int32.toInt_add, husec_a, husec_b, bmod_long]
    omega
  have hnonneg : 0 ≤ (normalizza b).tvUsec + (normalizza a).tvUsec := by
    rw [long_nonneg_iff, husec]
    omega
  obtain ⟨hsec, hrest⟩ := normalizza_spec
    (t := ⟨(normalizza b).tvSec + (normalizza a).tvSec, _⟩) hnonneg
  constructor
  · refine hsec.trans ?_
    rw [husec, Int32.toInt_add, hsec_a, hsec_b]
    have hcarried : b.tvSec.toInt + b.tvUsec.toInt / 1000000 +
        (a.tvSec.toInt + a.tvUsec.toInt / 1000000) +
        (b.tvUsec.toInt % 1000000 + a.tvUsec.toInt % 1000000) / 1000000 =
          (a.us + b.us) / 1000000 := by
      unfold Timeval.us
      omega
    simp only [Int.add_bmod_bmod, Int.bmod_add_bmod, hcarried]
  · refine hrest.trans ?_
    rw [husec]
    simp only [Timeval.us]
    omega

/-- `somma` stores a normal time. -/
theorem somma_normal {a b : Timeval} (ha : 0 ≤ a.tvUsec) (hb : 0 ≤ b.tvUsec) :
    (somma a b).Normal := by
  rw [Timeval.normal_iff, (somma_toInt ha hb).2]
  omega

/-- The sum is exact when its seconds fit a `long`, and only then. -/
theorem somma_us_iff {a b : Timeval} (ha : 0 ≤ a.tvUsec) (hb : 0 ≤ b.tvUsec) :
    (somma a b).us = a.us + b.us ↔
      longMin ≤ (a.us + b.us) / 1000000 ∧ (a.us + b.us) / 1000000 ≤ longMax := by
  obtain ⟨hsec, husec⟩ := somma_toInt ha hb
  rw [Timeval.us, hsec, husec, bmod_long]
  unfold longMin longMax
  omega

/-- The seconds between two times once they are normalised. -/
def distacco (dopo prima : Timeval) : Int :=
  (normalizza dopo).tvSec.toInt - (normalizza prima).tvSec.toInt

/-- A difference of microseconds that are normal does not wrap, with a borrow or without one. -/
theorem toInt_usec_sub {a b : Timeval} (ha : a.Normal) (hb : b.Normal) :
    (a.tvUsec - b.tvUsec).toInt = a.tvUsec.toInt - b.tvUsec.toInt ∧
      (a.tvUsec - b.tvUsec + secInMcsec).toInt = a.tvUsec.toInt - b.tvUsec.toInt + 1000000 := by
  obtain ⟨ha₀, ha₁⟩ := Timeval.normal_iff.mp ha
  obtain ⟨hb₀, hb₁⟩ := Timeval.normal_iff.mp hb
  have hsec : secInMcsec.toInt = 1000000 := rfl
  have hsub : (a.tvUsec - b.tvUsec).toInt = a.tvUsec.toInt - b.tvUsec.toInt := by
    rw [Int32.toInt_sub, bmod_long]
    omega
  refine ⟨hsub, ?_⟩
  rw [Int32.toInt_add, hsub, hsec, bmod_long]
  omega

/-- What `differenza` answers: nothing when there is nothing between the times, and the seconds as
they wrap otherwise. -/
theorem differenza_toInt {d p : Timeval} (hd : 0 ≤ d.tvUsec) (hp : 0 ≤ p.tvUsec) :
    (differenza d p).Normal ∧
      (d.istante ≤ p.istante → differenza d p = ⟨0, 0⟩) ∧
      (p.istante < d.istante → distacco d p ≤ longMax →
        (differenza d p).us = d.istante - p.istante) ∧
      (longMax < distacco d p → (differenza d p).us < 0) := by
  have hnd := normalizza_usec hd
  have hnp := normalizza_usec hp
  obtain ⟨hd₀, hd₁⟩ := Timeval.normal_iff.mp hnd
  obtain ⟨hp₀, hp₁⟩ := Timeval.normal_iff.mp hnp
  obtain ⟨hsub, hborrow⟩ := toInt_usec_sub hnd hnp
  obtain ⟨hd_low, hd_high⟩ := long_bounds (normalizza d).tvSec
  obtain ⟨hp_low, hp_high⟩ := long_bounds (normalizza p).tvSec
  have hone : (1 : Long).toInt = 1 := rfl
  rw [Timeval.normal_iff]
  simp only [differenza, Timeval.istante, distacco, Int32.lt_iff_toInt_lt, gt_iff_lt,
    Int32.toInt_zero] at *
  unfold longMin longMax at *
  split_ifs with hbefore husec hpos
  · simp only [Timeval.us, Int32.toInt_zero, implies_true, true_and]
    omega
  · simp only [Timeval.us, hborrow, Int32.toInt_sub, hone, bmod_long, Timeval.mk.injEq,
      ← Int32.toInt_inj, Int32.toInt_zero] at *
    omega
  · simp only [Timeval.us, Int32.toInt_sub, bmod_long, Timeval.mk.injEq,
      ← Int32.toInt_inj, Int32.toInt_zero, and_true] at *
    omega
  · simp only [Timeval.us, hsub, Int32.toInt_sub, bmod_long, Timeval.mk.injEq,
      ← Int32.toInt_inj, Int32.toInt_zero] at *
    omega

/-- A time is zero when its instant is, if it is normal. -/
theorem Timeval.Normal.eq_zero_iff {t : Timeval} (h : t.Normal) : t = ⟨0, 0⟩ ↔ t.us = 0 := by
  obtain ⟨h₀, h₁⟩ := Timeval.normal_iff.mp h
  constructor
  · rintro rfl
    rfl
  · intro hus
    unfold Timeval.us at hus
    apply Timeval.ext_toInt
    · rw [Int32.toInt_zero]
      omega
    · rw [Int32.toInt_zero]
      omega

/-- `differenza` returns a normal time. -/
theorem differenza_normal {d p : Timeval} (hd : 0 ≤ d.tvUsec) (hp : 0 ≤ p.tvUsec) :
    (differenza d p).Normal := (differenza_toInt hd hp).1

/-- The difference of what fits is exact when the seconds between fit, and only then. -/
theorem differenza_us_iff {d p : Timeval} (hd : 0 ≤ d.tvUsec) (hp : 0 ≤ p.tvUsec) :
    (differenza d p).us = max 0 (d.istante - p.istante) ↔ distacco d p ≤ longMax := by
  obtain ⟨hnormal, hzero, hexact, hwrapped⟩ := differenza_toInt hd hp
  constructor
  · intro heq
    by_contra hlarge
    have := hwrapped (not_le.mp hlarge)
    omega
  · intro hfits
    by_cases hle : d.istante ≤ p.istante
    · rw [hnormal.eq_zero_iff.mp (hzero hle)]
      omega
    · rw [hexact (not_le.mp hle) hfits]
      omega

/-- The wait is zero exactly when its end is reached, also where the seconds wrap. -/
theorem differenza_eq_zero_iff {d p : Timeval} (hd : 0 ≤ d.tvUsec) (hp : 0 ≤ p.tvUsec) :
    differenza d p = ⟨0, 0⟩ ↔ d.istante ≤ p.istante := by
  obtain ⟨hnormal, hzero, hexact, hwrapped⟩ := differenza_toInt hd hp
  refine ⟨fun heq => ?_, hzero⟩
  have hus := hnormal.eq_zero_iff.mp heq
  by_contra hlt
  by_cases hfits : distacco d p ≤ longMax
  · have := hexact (not_le.mp hlt) hfits
    omega
  · have := hwrapped (not_le.mp hfits)
    omega

/-- The old version answers a time that is not zero when the difference of the seconds is positive,
also where it wrapped to be so. -/
theorem oldDifferenza_ne_zero {d p : Timeval} (hd : 0 ≤ d.tvUsec) (hp : 0 ≤ p.tvUsec)
    (hpos : 0 < ((normalizza d).tvSec - (normalizza p).tvSec).toInt) :
    oldDifferenza d p ≠ ⟨0, 0⟩ := by
  obtain ⟨hsub, hborrow⟩ := toInt_usec_sub (normalizza_usec hd) (normalizza_usec hp)
  have hd₀ := (Timeval.normal_iff.mp (normalizza_usec hd)).1
  have hp₁ := (Timeval.normal_iff.mp (normalizza_usec hp)).2
  have hsome : (normalizza d).tvSec - (normalizza p).tvSec ≠ 0 := by
    rw [ne_eq, ← Int32.toInt_inj, Int32.toInt_zero]
    omega
  have hfirst : ¬ (normalizza d).tvSec - (normalizza p).tvSec < 0 := by
    rw [Int32.lt_iff_toInt_lt, Int32.toInt_zero]
    omega
  intro heq
  simp only [oldDifferenza, if_neg hfirst] at heq
  split_ifs at heq with hborrows hmore
  · have hzero := congrArg (fun t : Timeval => t.tvUsec.toInt) heq
    simp only [hborrow, Int32.toInt_zero] at hzero
    omega
  · exact hsome (congrArg Timeval.tvSec heq)
  · exact hsome (congrArg Timeval.tvSec heq)

/-- The old version tests the difference of the seconds where the new one compares the seconds, so
they agree when this difference does not wrap, and only then. -/
theorem oldDifferenza_eq_iff {d p : Timeval} (hd : 0 ≤ d.tvUsec) (hp : 0 ≤ p.tvUsec) :
    oldDifferenza d p = differenza d p ↔ longMin ≤ distacco d p ∧ distacco d p ≤ longMax := by
  obtain ⟨hsub, hborrow⟩ := toInt_usec_sub (normalizza_usec hd) (normalizza_usec hp)
  obtain ⟨-, -, -, hwrapped⟩ := differenza_toInt hd hp
  obtain ⟨hd_low, hd_high⟩ := long_bounds (normalizza d).tvSec
  obtain ⟨hp_low, hp_high⟩ := long_bounds (normalizza p).tvSec
  have hsec : ((normalizza d).tvSec - (normalizza p).tvSec).toInt =
      (distacco d p).bmod (2 ^ 32) := Int32.toInt_sub ..
  have husec : (normalizza d).tvUsec - (normalizza p).tvUsec < 0 ↔
      (normalizza d).tvUsec < (normalizza p).tvUsec := by
    rw [Int32.lt_iff_toInt_lt, Int32.lt_iff_toInt_lt, hsub, Int32.toInt_zero]
    omega
  have hbefore : (normalizza d).tvSec < (normalizza p).tvSec ↔ distacco d p < 0 := by
    rw [Int32.lt_iff_toInt_lt, distacco]
    omega
  have hwrap : (normalizza d).tvSec - (normalizza p).tvSec < 0 ↔
      (distacco d p).bmod (2 ^ 32) < 0 := by
    rw [Int32.lt_iff_toInt_lt, hsec, Int32.toInt_zero]
  have hrange : -4294967295 ≤ distacco d p ∧ distacco d p ≤ 4294967295 := by
    unfold longMin longMax distacco at *
    omega
  rw [bmod_long] at hsec hwrap
  by_cases hin : longMin ≤ distacco d p ∧ distacco d p ≤ longMax
  · refine iff_of_true ?_ hin
    have hsame : (normalizza d).tvSec - (normalizza p).tvSec < 0 ↔
        (normalizza d).tvSec < (normalizza p).tvSec := by
      rw [hwrap, hbefore]
      unfold longMin longMax at hin
      omega
    simp only [oldDifferenza, differenza, hsame, husec]
  · refine iff_of_false ?_ hin
    intro heq
    rcases not_and_or.mp hin with hsmall | hlarge
    · -- the new version answers zero, the old one takes the seconds for positive
      have hnew : differenza d p = ⟨0, 0⟩ := by
        have hlt : (normalizza d).tvSec < (normalizza p).tvSec := by
          rw [hbefore]
          unfold longMin at hsmall
          omega
        simp only [differenza, if_pos hlt]
      refine oldDifferenza_ne_zero hd hp ?_ (heq.trans hnew)
      rw [hsec]
      unfold longMin at hsmall
      omega
    · -- the old version answers zero, and the new one a time before it
      have hold : oldDifferenza d p = ⟨0, 0⟩ := by
        have hneg : (normalizza d).tvSec - (normalizza p).tvSec < 0 := by
          rw [hwrap]
          unfold longMax at hlarge
          omega
        simp only [oldDifferenza, if_pos hneg]
      have hlt := hwrapped (not_le.mp hlarge)
      rw [← heq, hold] at hlt
      exact absurd hlt (by decide)

/-- Which results of the time arithmetic are exact, and which of them agree: `normalizza` keeps the
instant when the seconds it carries to fit a `long`, `somma` adds instants when the seconds of the
sum do, and `differenza` subtracts them down to zero when the seconds between do; the old version
then does what the new one does. So a delay added is a delay waited for, within the range; and the
wait is zero exactly when `minoreouguale` says that its end is reached, in it and beyond it. -/
theorem time_arithmetic {a b : Timeval} (ha : 0 ≤ a.tvUsec) (hb : 0 ≤ b.tvUsec) :
    ((normalizza a).Normal ∧ ((normalizza a).us = a.us ↔ a.Fits)) ∧
      ((somma a b).Normal ∧ ((somma a b).us = a.us + b.us ↔
        longMin ≤ (a.us + b.us) / 1000000 ∧ (a.us + b.us) / 1000000 ≤ longMax)) ∧
      ((differenza a b).Normal ∧ (a.Fits → b.Fits →
        ((differenza a b).us = max 0 (a.us - b.us) ↔ distacco a b ≤ longMax))) ∧
      (oldDifferenza a b = differenza a b ↔
        longMin ≤ distacco a b ∧ distacco a b ≤ longMax) ∧
      (0 ≤ b.us → a.Fits → (a.us + b.us) / 1000000 ≤ longMax →
        distacco (somma a b) a ≤ longMax → (differenza (somma a b) a).us = b.us) ∧
      (differenza a b = ⟨0, 0⟩ ↔ minoreouguale a b = true) := by
  have hsomma := somma_normal ha hb
  refine ⟨⟨normalizza_usec ha, istante_eq_us_iff ha⟩, ⟨hsomma, somma_us_iff ha hb⟩,
    ⟨differenza_normal ha hb, ?_⟩, oldDifferenza_eq_iff ha hb, ?_, ?_⟩
  · intro hfits_a hfits_b
    rw [← (istante_eq_us_iff ha).mpr hfits_a, ← (istante_eq_us_iff hb).mpr hfits_b]
    exact differenza_us_iff ha hb
  · intro hnonneg hfits hsum hbetween
    have hlow : longMin ≤ (a.us + b.us) / 1000000 := by
      obtain ⟨hsec, _⟩ := long_bounds a.tvSec
      have husec := long_nonneg_iff.mp ha
      unfold Timeval.us longMin at *
      omega
    have hadd := (somma_us_iff ha hb).mpr ⟨hlow, hsum⟩
    rw [(differenza_us_iff hsomma.1 ha).mpr hbetween, hsomma.istante_eq, hadd,
      (istante_eq_us_iff ha).mpr hfits, add_sub_cancel_left]
    exact max_eq_right hnonneg
  · rw [differenza_eq_zero_iff ha hb, minoreouguale_iff ha hb]

/-- Times that are not normal, with a borrow. -/
theorem time_arithmetic_borrow :
    (differenza ⟨3, 1200000⟩ ⟨1, 900000⟩).us = 2300000 ∧
      (differenza (somma ⟨3, 1200000⟩ ⟨1, 900000⟩) ⟨3, 1200000⟩).us = 1900000 := by
  have h := time_arithmetic (a := ⟨3, 1200000⟩) (b := ⟨1, 900000⟩) (by decide) (by decide)
  exact ⟨((h.2.2.1.2 (by decide) (by decide)).mpr (by decide)).trans (by decide),
    (h.2.2.2.2.1 (by decide) (by decide) (by decide) (by decide)).trans (by decide)⟩

/-- At the end of the range the arithmetic is not exact: a second carried over comes back as the
first one there is, and so does a second added, and of two times that are further apart than the
range the old version finds a difference where the new one finds none. -/
theorem time_arithmetic_wraps :
    (normalizza ⟨2147483647, 1000000⟩).us ≠ (⟨2147483647, 1000000⟩ : Timeval).us ∧
      (somma ⟨2147483647, 0⟩ ⟨1, 0⟩).us ≠
        (⟨2147483647, 0⟩ : Timeval).us + (⟨1, 0⟩ : Timeval).us ∧
      (differenza ⟨2147483647, 0⟩ ⟨-1, 0⟩).us ≠
        max 0 ((⟨2147483647, 0⟩ : Timeval).us - (⟨-1, 0⟩ : Timeval).us) ∧
      oldDifferenza ⟨2147483647, 0⟩ ⟨-1, 0⟩ ≠ differenza ⟨2147483647, 0⟩ ⟨-1, 0⟩ := by
  decide

end GProxy.Ritardatore
