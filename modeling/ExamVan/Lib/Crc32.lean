import ExamVan.Lib.Bytes
import Mathlib.Algebra.CharP.Two
import Mathlib.Algebra.Field.ZMod
import Mathlib.Algebra.Polynomial.Div
import Mathlib.Data.ZMod.Basic
import Mathlib.RingTheory.AdjoinRoot

/-!
# The checksum of 32 bits

A register of 32 bits stands for a polynomial over the field of two elements, its lowest bit for the
highest power. A shift that feeds the generator back multiplies by `X` modulo the generator, so the
checksum of a message is a remainder.
-/

namespace Crc32

open ByteString Polynomial

/-! ### The register -/

/-- One shift, with the generator fed back. -/
def shift (c : UInt32) : UInt32 := (c >>> 1) ^^^ (0xEDB88320 &&& (0 - (c &&& 1)))

def feed (c : UInt32) (b : UInt8) : UInt32 := shift^[8] (c ^^^ b.toUInt32)

def register (s : Bytes) : UInt32 := s.foldl feed 0xffffffff

def crc32 (s : Bytes) : UInt32 := ~~~ register s

/-! ### Polynomials -/

/-- A bit of a number as a coefficient. -/
def bit (n i : Nat) : ZMod 2 := if n.testBit i then 1 else 0

/-- The lowest `w` bits, the lowest of them for the highest power. -/
noncomputable def reflected (w n : Nat) : (ZMod 2)[X] :=
  ∑ i ∈ Finset.range w, C (bit n i) * X ^ (w - 1 - i)

/-- The generator without its highest power. -/
def feedback : Nat := 0xEDB88320

noncomputable def generator : (ZMod 2)[X] :=
  X ^ 32 + X ^ 26 + X ^ 23 + X ^ 22 + X ^ 16 + X ^ 12 + X ^ 11 + X ^ 10 + X ^ 8 + X ^ 7 + X ^ 5 +
    X ^ 4 + X ^ 2 + X + 1

/-- Thirty-two ones. -/
noncomputable def ones : (ZMod 2)[X] := ∑ i ∈ Finset.range 32, X ^ i

/-- The bits of a message, the lowest bit of each byte first. -/
noncomputable def message (s : Bytes) : (ZMod 2)[X] :=
  s.foldl (fun p b => X ^ 8 * p + reflected 8 b.toNat) 0

/-- The complement of the remainder of a message with its first 32 bits complemented. -/
def IsCrc32 (s : Bytes) (c : Nat) : Prop :=
  c < 2 ^ 32 ∧
    reflected 32 c + ones = (X ^ (8 * s.length) * ones + X ^ 32 * message s) %ₘ generator

theorem bit_xor (m n i : Nat) : bit (m ^^^ n) i = bit m i + bit n i := by
  rw [bit, bit, bit, Nat.testBit_xor]
  cases m.testBit i <;> cases n.testBit i <;> decide

theorem reflected_xor (w m n : Nat) : reflected w (m ^^^ n) = reflected w m + reflected w n := by
  rw [reflected, reflected, reflected, ← Finset.sum_add_distrib]
  refine Finset.sum_congr rfl fun i _ => ?_
  rw [bit_xor, C_add, add_mul]

theorem reflected_zero (w : Nat) : reflected w 0 = 0 :=
  Finset.sum_eq_zero fun i _ => by simp [bit]

theorem degree_reflected_lt (w n : Nat) : (reflected w n).degree < w := by
  refine (degree_sum_le _ _).trans_lt ((Finset.sup_lt_iff (WithBot.bot_lt_coe w)).mpr ?_)
  intro i hi
  have hpower : w - 1 - i < w := by
    have := Finset.mem_range.mp hi
    omega
  exact (degree_C_mul_X_pow_le _ _).trans_lt (WithBot.coe_lt_coe.mpr hpower)

/-- A shift to the right multiplies by `X`, but for the lowest bit. -/
theorem X_mul_reflected {w n : Nat} (hn : n < 2 ^ (w + 1)) :
    X * reflected (w + 1) n = reflected (w + 1) (n / 2) + C (bit n 0) * X ^ (w + 1) := by
  have hnext : ∀ i, bit (n / 2) i = bit n (i + 1) := by
    intro i
    rw [bit, bit, Nat.testBit_succ]
  have htop : bit n (w + 1) = 0 := by
    rw [bit, Nat.testBit_lt_two_pow hn]
    rfl
  have hright : reflected (w + 1) (n / 2) =
      ∑ i ∈ Finset.range w, C (bit n (i + 1)) * X ^ (w - i) := by
    rw [reflected, Finset.sum_range_succ, hnext w, htop, C_0, zero_mul, add_zero]
    refine Finset.sum_congr rfl fun i _ => ?_
    rw [hnext, Nat.add_sub_cancel]
  rw [hright, reflected, Finset.mul_sum, Finset.sum_range_succ']
  congr 1
  · refine Finset.sum_congr rfl fun i hi => ?_
    have hpower : w - i = (w + 1 - 1 - (i + 1)) + 1 := by
      have := Finset.mem_range.mp hi
      omega
    rw [hpower, pow_succ]
    ring
  · rw [Nat.add_sub_cancel, Nat.sub_zero, pow_succ]
    ring

/-- A number of fewer bits stands for lower powers. -/
theorem reflected_add {w n : Nat} (k : Nat) (hn : n < 2 ^ w) :
    reflected (w + k) n = X ^ k * reflected w n := by
  have hhigh : ∀ i ∈ Finset.range k, C (bit n (w + i)) * (X : (ZMod 2)[X]) ^ (w + k - 1 - (w + i)) = 0 := by
    intro i _
    have hbit : bit n (w + i) = 0 := by
      rw [bit, Nat.testBit_lt_two_pow (hn.trans_le (Nat.pow_le_pow_right (by decide) (by omega)))]
      rfl
    rw [hbit, C_0, zero_mul]
  rw [reflected, Finset.sum_range_add, Finset.sum_eq_zero hhigh, add_zero, reflected, Finset.mul_sum]
  refine Finset.sum_congr rfl fun i hi => ?_
  have hpower : w + k - 1 - i = k + (w - 1 - i) := by
    have := Finset.mem_range.mp hi
    omega
  rw [hpower, pow_add]
  ring

theorem generator_eq : generator = X ^ 32 + reflected 32 feedback := by
  simp [generator, reflected, Finset.sum_range_succ, bit, feedback, Nat.testBit]
  ring

theorem reflected_ones : reflected 32 0xffffffff = ones := by
  simp [ones, reflected, Finset.sum_range_succ, bit, Nat.testBit]
  ring

theorem degree_generator : generator.degree = 32 := by
  rw [generator_eq, degree_add_eq_left_of_degree_lt] <;> rw [degree_X_pow]
  · rfl
  · exact degree_reflected_lt 32 feedback

theorem monic_generator : generator.Monic := by
  rw [generator_eq]
  exact monic_X_pow_add (degree_reflected_lt 32 feedback)

/-! ### The loop -/

/-- The mask that the lowest bit selects. -/
theorem mask_eq (c : UInt32) :
    0xEDB88320 &&& (0 - (c &&& 1)) = if c.toNat.testBit 0 then 0xEDB88320 else 0 := by
  have hlow : (c &&& 1).toNat = c.toNat % 2 := by
    rw [UInt32.toNat_and]
    exact Nat.and_one_is_mod _
  rw [Nat.testBit_zero]
  rcases Nat.mod_two_eq_zero_or_one c.toNat with heven | hodd
  · have hzero : c &&& 1 = 0 := UInt32.toNat_inj.mp (hlow.trans heven)
    rw [hzero, heven]
    decide
  · have hone : c &&& 1 = 1 := UInt32.toNat_inj.mp (hlow.trans hodd)
    rw [hone, hodd]
    decide

theorem toNat_shift (c : UInt32) :
    (shift c).toNat = (c.toNat / 2) ^^^ if c.toNat.testBit 0 then feedback else 0 := by
  have hhalf : (c >>> 1).toNat = c.toNat / 2 := by
    rw [UInt32.toNat_shiftRight]
    exact Nat.shiftRight_succ c.toNat 0
  rw [shift, UInt32.toNat_xor, hhalf, mask_eq]
  split <;> rfl

/-- A shift multiplies by `X` modulo the generator. -/
theorem X_mul_reflected_shift (c : UInt32) : X * reflected 32 c.toNat =
    reflected 32 (shift c).toNat + C (bit c.toNat 0) * generator := by
  rw [toNat_shift, reflected_xor, X_mul_reflected c.toNat_lt, generator_eq, mul_add]
  cases hlow : c.toNat.testBit 0 with
  | true =>
      have hbit : bit c.toNat 0 = 1 := by rw [bit, hlow]; rfl
      have htwice : reflected 32 feedback + reflected 32 feedback = 0 := CharTwo.add_self_eq_zero _
      rw [if_pos rfl, hbit, C_1, one_mul, one_mul]
      linear_combination -htwice
  | false =>
      have hbit : bit c.toNat 0 = 0 := by rw [bit, hlow]; rfl
      rw [if_neg (by decide), hbit, C_0, reflected_zero]
      ring

/-- Residues modulo the generator. -/
noncomputable abbrev residue : (ZMod 2)[X] →+* AdjoinRoot generator := AdjoinRoot.mk generator

theorem residue_shift (c : UInt32) :
    residue (reflected 32 (shift c).toNat) = residue X * residue (reflected 32 c.toNat) := by
  rw [← map_mul, X_mul_reflected_shift, map_add, map_mul, AdjoinRoot.mk_self, mul_zero, add_zero]

theorem residue_shifts (n : Nat) (c : UInt32) :
    residue (reflected 32 (shift^[n] c).toNat) = residue X ^ n * residue (reflected 32 c.toNat) := by
  induction n with
  | zero => rw [Function.iterate_zero_apply, pow_zero, one_mul]
  | succ n ih => rw [Function.iterate_succ_apply', residue_shift, ih, pow_succ]; ring

theorem residue_feed (c : UInt32) (b : UInt8) :
    residue (reflected 32 (feed c b).toNat) =
      residue X ^ 8 * residue (reflected 32 c.toNat) + residue X ^ 32 * residue (reflected 8 b.toNat) := by
  have hbyte : reflected 32 b.toNat = X ^ 24 * reflected 8 b.toNat := reflected_add 24 b.toNat_lt
  rw [feed, residue_shifts, UInt32.toNat_xor, UInt8.toNat_toUInt32, reflected_xor, map_add, hbyte, map_mul,
    map_pow]
  ring

theorem residue_foldl (s : Bytes) (c : UInt32) (p : (ZMod 2)[X]) (a : AdjoinRoot generator)
    (h : residue (reflected 32 c.toNat) = a + residue X ^ 32 * residue p) :
    residue (reflected 32 (s.foldl feed c).toNat) = residue X ^ (8 * s.length) * a +
      residue X ^ 32 * residue (s.foldl (fun p b => X ^ 8 * p + reflected 8 b.toNat) p) := by
  induction s generalizing c p a with
  | nil => rw [List.foldl_nil, List.foldl_nil, h]; simp
  | cons b s ih =>
      have hstep : residue (reflected 32 (feed c b).toNat) = residue X ^ 8 * a +
          residue X ^ 32 * residue (X ^ 8 * p + reflected 8 b.toNat) := by
        rw [residue_feed, h, map_add, map_mul, map_pow]
        ring
      rw [List.foldl_cons, List.foldl_cons, ih _ _ _ hstep, List.length_cons, Nat.mul_succ, pow_add]
      ring

theorem toNat_complement (c : UInt32) : (~~~ c).toNat = c.toNat ^^^ 0xffffffff := by
  have hnot : ~~~ c = c ^^^ 0xffffffff := by
    rw [← UInt32.toBitVec_inj, UInt32.toBitVec_not, UInt32.toBitVec_xor, BitVec.not_def, BitVec.xor_comm]
    rfl
  rw [hnot, UInt32.toNat_xor]
  rfl

/-- The checksum is the one of the standard. -/
theorem isCrc32_crc32 (s : Bytes) : IsCrc32 s (crc32 s).toNat := by
  have hregister : residue (reflected 32 (register s).toNat) =
      residue (X ^ (8 * s.length) * ones + X ^ 32 * message s) := by
    have hinit : residue (reflected 32 (0xffffffff : UInt32).toNat) =
        residue ones + residue X ^ 32 * residue 0 := by
      rw [map_zero, mul_zero, add_zero, ← reflected_ones]
      rfl
    rw [register, residue_foldl s _ _ _ hinit, map_add, map_mul, map_mul, map_pow, map_pow, message]
  have hsmall : reflected 32 (register s).toNat %ₘ generator = reflected 32 (register s).toNat := by
    rw [modByMonic_eq_self_iff monic_generator, degree_generator]
    exact degree_reflected_lt 32 _
  refine ⟨(crc32 s).toNat_lt, ?_⟩
  calc reflected 32 (crc32 s).toNat + ones
      = reflected 32 (register s).toNat + (ones + ones) := by
        rw [crc32, toNat_complement, reflected_xor, reflected_ones, add_assoc]
    _ = reflected 32 (register s).toNat := by rw [CharTwo.add_self_eq_zero, add_zero]
    _ = reflected 32 (register s).toNat %ₘ generator := hsmall.symm
    _ = (X ^ (8 * s.length) * ones + X ^ 32 * message s) %ₘ generator :=
        modByMonic_eq_of_dvd_sub monic_generator (AdjoinRoot.mk_eq_mk.mp hregister)

end Crc32
