import Mathlib.Algebra.Group.Nat.Defs
import Mathlib.Algebra.Ring.Int.Defs
import Mathlib.Data.List.DropRight
import Mathlib.Data.List.Infix
import Mathlib.Data.List.Lex
import Mathlib.Order.Basic
import Mathlib.Order.Lattice
import Mathlib.Tactic.Ring

/-!
# Byte strings

A `std::string` is a list of bytes. Where the C++ works with an index into a string, the model
works with the suffix that starts at that index, so `find` returns a suffix and a `while` loop that
moves an index is a recursion on the list.
-/

namespace ByteString

/-- A `std::string`: any bytes, NUL included, no encoding assumed. -/
abbrev Bytes := List UInt8

/-- The byte of a character literal. -/
def chr (c : Char) : UInt8 := c.toNat.toUInt8

/-- The bytes of an ASCII string literal. -/
def str (s : String) : Bytes := s.toList.map chr

/-- `std::tolower` in the C locale. -/
def tolower (c : UInt8) : UInt8 := if chr 'A' ≤ c ∧ c ≤ chr 'Z' then c + 32 else c

/-- `std::toupper` in the C locale. -/
def toupper (c : UInt8) : UInt8 := if chr 'a' ≤ c ∧ c ≤ chr 'z' then c - 32 else c

instance (priority := high) linearOrderByte : LinearOrder UInt8 where
  le_refl := UInt8.le_refl
  le_trans _ _ _ := UInt8.le_trans
  lt_iff_le_not_ge a b := by simpa [UInt8.not_le] using UInt8.le_of_lt
  le_antisymm _ _ := UInt8.le_antisymm
  le_total := UInt8.le_total
  toDecidableLE := inferInstance
  toDecidableLT := inferInstance

instance (priority := high) lawfulBytes : LawfulBEq Bytes := inferInstance

/-- A property of the bytes of a string is tested on these, not on all 256 bytes. -/
instance (priority := high) decidableBytes (p : UInt8 → Prop) [DecidablePred p] (s : Bytes) :
    Decidable (∀ c ∈ s, p c) := List.decidableBAll p s

/-- A property of all bytes is tested on their two hexadecimal digits. -/
theorem forall_byte {p : UInt8 → Prop} (h : ∀ i < 16, ∀ j < 16, p (UInt8.ofNat (16 * i + j)))
    (c : UInt8) : p c := by
  have hlt := c.toNat_lt
  have hc := h (c.toNat / 16) (by omega) (c.toNat % 16) (by omega)
  rwa [Nat.div_add_mod, UInt8.ofNat_toNat] at hc

/-- Up to a byte that does not come earlier. -/
theorem takeWhile_ne_append {c : UInt8} {s : Bytes} (h : c ∉ s) (t : Bytes) :
    (s ++ c :: t).takeWhile (· ≠ c) = s ∧ (s ++ c :: t).dropWhile (· ≠ c) = c :: t := by
  have hne : ∀ d ∈ s, decide (d ≠ c) = true := fun d hd => decide_eq_true fun heq => h (heq ▸ hd)
  constructor
  · rw [List.takeWhile_append_of_pos hne, List.takeWhile_cons_of_neg (by simp), List.append_nil]
  · rw [List.dropWhile_append_of_pos hne, List.dropWhile_cons_of_neg (by simp)]

theorem rdropWhile_append_of_pos {p : UInt8 → Bool} {t : Bytes} (h : ∀ c ∈ t, p c = true) (s : Bytes) :
    (s ++ t).rdropWhile p = s.rdropWhile p := by
  rw [List.rdropWhile, List.reverse_append,
    List.dropWhile_append_of_pos fun c hc => h c (List.mem_reverse.mp hc), List.rdropWhile]

/-! ### Searching -/

/-- `s.find(needle)`: the suffix of `s` at the first occurrence of `needle`. -/
def findSub (needle : Bytes) : Bytes → Option Bytes
  | [] => if needle = [] then some [] else none
  | c :: s => if needle <+: c :: s then some (c :: s) else findSub needle s

/-- `s.find(c)` and `s.find_first_of(cs)`: the suffix of `s` at the first byte that satisfies `p`. -/
def findByte (p : UInt8 → Bool) : Bytes → Option Bytes
  | [] => none
  | c :: s => if p c then some (c :: s) else findByte p s

theorem findSub_nil (needle : Bytes) :
    findSub needle [] = if needle = [] then some [] else none := rfl

theorem findSub_cons (needle : Bytes) (c : UInt8) (s : Bytes) :
    findSub needle (c :: s) = if needle <+: c :: s then some (c :: s) else findSub needle s := rfl

theorem findByte_cons (p : UInt8 → Bool) (c : UInt8) (s : Bytes) :
    findByte p (c :: s) = if p c then some (c :: s) else findByte p s := rfl

theorem findSub_of_head {needle s : Bytes} (h : needle <+: s) : findSub needle s = some s := by
  cases s with
  | nil => simp [findSub_nil, List.prefix_nil.mp h]
  | cons c s => simp [findSub_cons, h]

theorem exists_of_findSub {needle s found : Bytes} (h : findSub needle s = some found) :
    ∃ skip, s = skip ++ found ∧ needle <+: found := by
  induction s with
  | nil =>
      simp only [findSub_nil] at h
      split at h
      next hnil =>
        cases h
        exact ⟨[], rfl, hnil ▸ List.prefix_refl _⟩
      next => cases h
  | cons c s ih =>
      simp only [findSub_cons] at h
      split at h
      next hhead =>
        cases h
        exact ⟨[], rfl, hhead⟩
      next =>
        obtain ⟨skip, rfl, hhead⟩ := ih h
        exact ⟨c :: skip, rfl, hhead⟩

theorem findSub_cons_of_ne {a c : UInt8} {needle s : Bytes} (h : a ≠ c) :
    findSub (a :: needle) (c :: s) = findSub (a :: needle) s := by
  simp [findSub_cons, List.cons_prefix_cons, h]

/-- Bytes other than the first one of the needle are skipped. -/
theorem findSub_append_of_notMem {a : UInt8} {needle skip s : Bytes} (h : a ∉ skip) :
    findSub (a :: needle) (skip ++ s) = findSub (a :: needle) s := by
  induction skip with
  | nil => rfl
  | cons c skip ih =>
      rw [List.mem_cons, not_or] at h
      rw [List.cons_append, findSub_cons_of_ne h.1, ih h.2]

/-- What a text contains is found in it. -/
theorem isSome_findSub_append (needle before after : Bytes) :
    (findSub needle (before ++ (needle ++ after))).isSome = true := by
  induction before with
  | nil =>
      rw [List.nil_append, findSub_of_head (List.prefix_append _ _)]
      rfl
  | cons c before ih =>
      rw [List.cons_append, findSub_cons]
      split
      · rfl
      · exact ih

/-- What a text does not contain is in no beginning of it. -/
theorem findSub_eq_none_of_append {needle s t : Bytes} (h : findSub needle (s ++ t) = none) :
    findSub needle s = none := by
  induction s with
  | nil =>
      by_cases hnil : needle = []
      · rw [hnil, findSub_of_head (List.nil_prefix)] at h
        cases h
      · rw [findSub_nil, if_neg hnil]
  | cons c s ih =>
      rw [List.cons_append, findSub_cons] at h
      split at h
      · cases h
      · next hnot =>
          rw [findSub_cons, if_neg fun hhead => hnot (hhead.trans (List.prefix_append _ _))]
          exact ih h

theorem length_le_of_findSub {needle s t : Bytes} (h : findSub needle s = some t) :
    t.length ≤ s.length := by
  induction s with
  | nil =>
      simp only [findSub_nil] at h
      split at h <;> cases h
      rfl
  | cons c s ih =>
      rw [findSub_cons] at h
      split at h
      · cases h
        rfl
      · exact Nat.le_succ_of_le (ih h)

theorem findSub_eq_none_of_length {needle s : Bytes} (h : s.length < needle.length) :
    findSub needle s = none := by
  induction s with
  | nil =>
      rw [findSub_nil, if_neg]
      rintro rfl
      exact absurd h (Nat.lt_irrefl 0)
  | cons c s ih =>
      rw [findSub_cons, if_neg fun hfirst => absurd hfirst.length_le (Nat.not_le.mpr h),
        ih (Nat.lt_of_succ_lt h)]

/-- The first place in a text is found in the parts of the text that hold it whole. -/
theorem findSub_take {needle s t : Bytes} (hne : needle ≠ []) (h : findSub needle s = some t)
    (n : Nat) : findSub needle (s.take n) =
      if s.length - t.length + needle.length ≤ n then some (t.take (n - (s.length - t.length)))
      else none := by
  induction s generalizing n with
  | nil => simp [findSub_nil, hne] at h
  | cons c s ih =>
      have hpos : 0 < needle.length := List.length_pos_iff.mpr hne
      rw [findSub_cons] at h
      split at h
      next hfirst =>
        obtain rfl := Option.some.inj h
        rw [Nat.sub_self, Nat.zero_add, Nat.sub_zero]
        split
        next hlong =>
          refine findSub_of_head ?_
          exact List.prefix_take_iff.mpr ⟨hfirst, hlong⟩
        next hshort =>
          refine findSub_eq_none_of_length (Nat.lt_of_le_of_lt ?_ (Nat.not_le.mp hshort))
          exact List.length_take_le _ _
      next hno =>
        have hle := length_le_of_findSub h
        have hlength : (c :: s).length - t.length = s.length - t.length + 1 := by
          rw [List.length_cons]
          omega
        cases n with
        | zero =>
            rw [List.take_zero, findSub_nil, if_neg hne, if_neg (by omega)]
        | succ m =>
            have hno' : ¬ needle <+: c :: s.take m := fun hp =>
              hno (hp.trans (List.cons_prefix_cons.mpr ⟨rfl, List.take_prefix m s⟩))
            rw [List.take_succ_cons, findSub_cons, if_neg hno', ih h m, hlength]
            refine if_congr (by omega) ?_ rfl
            rw [Nat.add_sub_add_right]

@[simp]
theorem findByte_cons_pos {p : UInt8 → Bool} {c : UInt8} {s : Bytes} (h : p c = true) :
    findByte p (c :: s) = some (c :: s) := by
  simp [findByte_cons, h]

theorem findByte_append {p : UInt8 → Bool} {skip s : Bytes} (h : ∀ c ∈ skip, p c = false) :
    findByte p (skip ++ s) = findByte p s := by
  induction skip with
  | nil => rfl
  | cons c skip ih =>
      have hc : p c = false := h c List.mem_cons_self
      have hskip : ∀ b ∈ skip, p b = false := fun b hb => h b (List.mem_cons_of_mem c hb)
      simp [findByte_cons, hc, ih hskip]

/-- The first `c` is found. -/
theorem findByte_eq_append {c : UInt8} {s : Bytes} (h : c ∉ s) (t : Bytes) :
    findByte (· = c) (s ++ c :: t) = some (c :: t) := by
  have hskip : ∀ d ∈ s, decide (d = c) = false := fun d hd => decide_eq_false fun heq => h (heq ▸ hd)
  rw [findByte_append hskip]
  exact findByte_cons_pos (decide_eq_true rfl)

theorem exists_of_findByte {p : UInt8 → Bool} {s u : Bytes} (h : findByte p s = some u) :
    ∃ skip c t, s = skip ++ c :: t ∧ u = c :: t ∧ p c = true ∧ ∀ b ∈ skip, p b = false := by
  induction s with
  | nil => cases h
  | cons c s ih =>
      rw [findByte_cons] at h
      split at h
      next hc =>
        cases h
        exact ⟨[], c, s, rfl, rfl, hc, nofun⟩
      next hc =>
        obtain ⟨skip, d, t, rfl, hu, hd, hskip⟩ := ih h
        exact ⟨c :: skip, d, t, rfl, hu, hd, List.forall_mem_cons.mpr ⟨by simpa using hc, hskip⟩⟩

theorem suffix_of_findByte {p : UInt8 → Bool} {s u : Bytes} (h : findByte p s = some u) : u <:+ s := by
  induction s with
  | nil => cases h
  | cons c s ih =>
      rw [findByte_cons] at h
      split at h
      · cases h
        exact List.suffix_rfl
      · exact (ih h).trans (List.suffix_cons c s)

end ByteString

/-!
## Numbers in network byte order
-/

namespace ByteString

def bigEndian (b : Bytes) : Nat := b.foldl (fun n c => n * 256 + c.toNat) 0

/-- The lowest `k` bytes of a number. -/
def bigEndianBytes : Nat → Nat → Bytes
  | 0, _ => []
  | k + 1, n => UInt8.ofNat (n / 256 ^ k) :: bigEndianBytes k n

@[simp]
theorem length_bigEndianBytes (k n : Nat) : (bigEndianBytes k n).length = k := by
  induction k with
  | zero => rfl
  | succ k ih => rw [bigEndianBytes, List.length_cons, ih]

theorem foldl_bigEndianBytes (k n acc : Nat) :
    (bigEndianBytes k n).foldl (fun n c => n * 256 + c.toNat) acc = acc * 256 ^ k + n % 256 ^ k := by
  induction k generalizing acc with
  | zero => simp [bigEndianBytes, Nat.mod_one]
  | succ k ih =>
      have hdigit : (UInt8.ofNat (n / 256 ^ k)).toNat = n / 256 ^ k % 256 := UInt8.toNat_ofNat'
      have hsplit : n % (256 ^ k * 256) = n % 256 ^ k + 256 ^ k * (n / 256 ^ k % 256) :=
        Nat.mod_mul
      calc (bigEndianBytes (k + 1) n).foldl (fun n c => n * 256 + c.toNat) acc
          = (acc * 256 + n / 256 ^ k % 256) * 256 ^ k + n % 256 ^ k := by
            rw [bigEndianBytes, List.foldl_cons, ih, hdigit]
        _ = acc * 256 ^ (k + 1) + (n % 256 ^ k + 256 ^ k * (n / 256 ^ k % 256)) := by ring
        _ = acc * 256 ^ (k + 1) + n % 256 ^ (k + 1) := by rw [← hsplit, pow_succ]

theorem bigEndian_bigEndianBytes {k n : Nat} (hn : n < 256 ^ k) :
    bigEndian (bigEndianBytes k n) = n := by
  rw [bigEndian, foldl_bigEndianBytes, Nat.mod_eq_of_lt hn]
  omega

theorem bigEndian_lt (b : Bytes) : bigEndian b < 256 ^ b.length := by
  have hfold : ∀ (b : Bytes) (acc : Nat),
      b.foldl (fun n c => n * 256 + c.toNat) acc < (acc + 1) * 256 ^ b.length := by
    intro b
    induction b with
    | nil => intro acc; simp
    | cons c b ih =>
        intro acc
        have hbyte : c.toNat < 256 := UInt8.toNat_lt c
        calc (c :: b).foldl (fun n c => n * 256 + c.toNat) acc
            < (acc * 256 + c.toNat + 1) * 256 ^ b.length := ih _
          _ ≤ ((acc + 1) * 256) * 256 ^ b.length := Nat.mul_le_mul_right _ (by omega)
          _ = (acc + 1) * 256 ^ (c :: b).length := by rw [List.length_cons, pow_succ]; ring
  simpa [bigEndian] using hfold b 0

end ByteString
