import Mathlib.Data.List.Basic
import Mathlib.Data.List.GetD
import Mathlib.Tactic.Ring

/-!
# Little-endian words in a byte memory

A region of memory is a function from offsets to bytes, and words are little-endian. The lemmas say
what a read returns after a write to the same place and after a write elsewhere.
-/

namespace ByteMemory

open List Nat

/-- The contents of a memory region, indexed by byte offset. -/
abbrev Mem := ℕ → UInt8

/-- The `n`-byte little-endian word stored at offset `off`. -/
def readLE (m : Mem) (off : ℕ) : ℕ → ℕ
  | 0 => 0
  | n + 1 => (m off).toNat + 256 * readLE m (off + 1) n

variable (m : Mem) (off k w : ℕ)

variable (n : ℕ) (src : List UInt8)

/-- Store the low `n` bytes of `w` in little-endian order at offset `off`. -/
def writeLE (w : ℕ) : Mem := fun i =>
  if off ≤ i ∧ i < off + n then UInt8.ofNat (w / 256 ^ (i - off)) else m i

/-- Copy a list of bytes into the region, starting at offset `off`. -/
def copyIn : Mem := fun i =>
  if off ≤ i then src.getD (i - off) (m i) else m i

/-- The first `k` bytes of a region. -/
def bytes : List UInt8 := (range k).map m

/-- The first `k` eight-byte words of a region, in increasing offset order. -/
def words : List ℕ := (range k).map fun i => readLE m (8 * i) 8

/-- A region that starts with the given bytes. -/
def ofBytes (bs : List UInt8) : Mem := fun i => bs.getD i 0

/-- The complete eight-byte words of a byte string. -/
def toWords (bs : List UInt8) : List ℕ := words (ofBytes bs) (bs.length / 8)

/-- The eight bytes of a 64-bit word, the low one first. -/
def wordBytes : List UInt8 := (range 8).map fun i => UInt8.ofNat (w / 256 ^ i)

/-- A read depends on its own bytes only. -/
theorem readLE_congr {m m' : Mem} {off n : ℕ}
    (h : ∀ i, off ≤ i → i < off + n → m i = m' i) : readLE m off n = readLE m' off n := by
  induction n generalizing off with
  | zero => rfl
  | succ n ih =>
    rw [readLE, readLE, h off le_rfl (by omega), ih fun i hlo hhi => h i (by omega) (by omega)]

/-- The upper bytes of a word that was written. -/
private theorem readLE_writeLE_suffix {k n : ℕ} (hk : k ≤ n) :
    readLE (writeLE m off n w) (off + (n - k)) k = w / 256 ^ (n - k) % 256 ^ k := by
  induction k with
  | zero => simp [readLE, mod_one]
  | succ k ih =>
    have hbyte : writeLE m off n w (off + (n - (k + 1))) =
        UInt8.ofNat (w / 256 ^ (n - (k + 1))) := by
      have hrange : off ≤ off + (n - (k + 1)) ∧ off + (n - (k + 1)) < off + n := by omega
      simp only [writeLE, if_pos hrange, Nat.add_sub_cancel_left]
    have hnext : off + (n - (k + 1)) + 1 = off + (n - k) := by omega
    have hdiv : w / 256 ^ (n - k) = w / 256 ^ (n - (k + 1)) / 256 := by
      rw [Nat.div_div_eq_div_mul, ← pow_succ]
      congr 2
      omega
    have hpow : 256 ^ (k + 1) = 256 * 256 ^ k := by rw [pow_succ, Nat.mul_comm]
    rw [readLE, hbyte, hnext, ih (by omega), hdiv, hpow, mod_mul, UInt8.toNat_ofNat']

/-- A word that was written is read back. -/
theorem readLE_writeLE_same (w : ℕ) : readLE (writeLE m off n w) off n = w % 256 ^ n := by
  simpa using readLE_writeLE_suffix m off w (le_refl n)

theorem ofNat_readLE_div {i : ℕ} (hi : i < n) :
    UInt8.ofNat (readLE m off n / 256 ^ i) = m (off + i) := by
  induction n generalizing off i with
  | zero => omega
  | succ n ih =>
    have hbyte : (m off).toNat < 256 := (m off).toNat_lt
    rw [readLE]
    cases i with
    | zero =>
      apply UInt8.toNat_inj.mp
      rw [pow_zero, Nat.div_one, UInt8.toNat_ofNat', Nat.add_zero off]
      omega
    | succ i =>
      have hdrop : ((m off).toNat + 256 * readLE m (off + 1) n) / 256 ^ (i + 1) =
          readLE m (off + 1) n / 256 ^ i := by
        rw [pow_succ, Nat.mul_comm (256 ^ i), ← Nat.div_div_eq_div_mul]
        congr 1
        omega
      rw [hdrop, ih (off + 1) (by omega), add_assoc, add_comm 1]

@[simp] theorem length_bytes : (bytes m k).length = k := by
  simp [bytes]

@[simp] theorem length_wordBytes : (wordBytes w).length = 8 := rfl

theorem bytes_congr {m m' : Mem} {k : ℕ} (h : ∀ i < k, m i = m' i) : bytes m k = bytes m' k :=
  map_congr_left fun i hi => h i (mem_range.mp hi)

theorem bytes_add (j k : ℕ) : bytes m (j + k) = bytes m j ++ bytes (fun i => m (j + i)) k := by
  simp [bytes, range_add, Function.comp_def]

theorem wordBytes_readLE : wordBytes (readLE m off 8) = bytes (fun i => m (off + i)) 8 :=
  map_congr_left fun _ hi => ofNat_readLE_div m off 8 (mem_range.mp hi)

theorem writeLE_eq_copyIn : writeLE m off 8 w = copyIn m off (wordBytes w) := by
  funext i
  rw [writeLE, copyIn]
  by_cases hlo : off ≤ i
  · rw [if_pos hlo]
    by_cases hhi : i < off + 8
    · have hidx : i - off < 8 := by omega
      rw [if_pos ⟨hlo, hhi⟩, getD_eq_getElem _ _ hidx]
      simp [wordBytes]
    · have hidx : (wordBytes w).length ≤ i - off := by rw [length_wordBytes]; omega
      rw [if_neg (by omega), getD_eq_default _ _ hidx]
  · rw [if_neg hlo, if_neg (by omega)]

theorem bytes_copyIn_beyond {k off : ℕ} (h : k ≤ off) : bytes (copyIn m off src) k = bytes m k := by
  apply bytes_congr
  intro i hi
  rw [copyIn, if_neg (by omega)]

/-- Bytes copied behind others. -/
theorem bytes_copyIn : bytes (copyIn m k src) (k + src.length) = bytes m k ++ src := by
  rw [bytes_add, bytes_copyIn_beyond m src le_rfl]
  congr 1
  apply ext_getElem (by simp)
  intro i hi hi'
  simp [bytes, copyIn, hi']

theorem words_congr {m m' : Mem} {k : ℕ} (h : ∀ i < 8 * k, m i = m' i) :
    words m k = words m' k := by
  apply map_congr_left
  intro j hj
  have hjk := mem_range.mp hj
  exact readLE_congr fun i _ hhi => h i (by omega)

theorem readLE_shift (base off n : ℕ) :
    readLE (fun i => m (base + i)) off n = readLE m (base + off) n := by
  induction n generalizing off with
  | zero => rfl
  | succ n ih => rw [readLE, readLE, ih, add_assoc]

theorem words_add (j k : ℕ) : words m (j + k) = words m j ++ words (fun i => m (8 * j + i)) k := by
  simp [words, range_add, readLE_shift, Function.comp_def, mul_add]

/-- The words of the bytes of a memory. -/
theorem toWords_bytes : toWords (bytes m k) = words m (k / 8) := by
  rw [toWords, length_bytes]
  apply words_congr
  intro i hi
  have hik : i < k := by omega
  simp [ofBytes, bytes, hik]

/-- The words of two byte strings, the first of which has whole words. -/
theorem toWords_append {bs : List UInt8} (h : 8 ∣ bs.length) (cs : List UInt8) :
    toWords (bs ++ cs) = toWords bs ++ toWords cs := by
  have hlen : (bs ++ cs).length / 8 = bs.length / 8 + cs.length / 8 := by
    rw [length_append]
    omega
  have hleft : words (ofBytes (bs ++ cs)) (bs.length / 8) = toWords bs := by
    apply words_congr
    intro i hi
    rw [ofBytes, ofBytes, getD_append _ _ _ _ (by omega)]
  have hright : words (fun i => ofBytes (bs ++ cs) (8 * (bs.length / 8) + i)) (cs.length / 8) =
      toWords cs := by
    apply words_congr
    intro i _
    rw [Nat.mul_div_cancel' h, ofBytes, ofBytes, getD_append_right _ _ _ _ (by omega),
      Nat.add_sub_cancel_left]
  rw [toWords, hlen, words_add, hleft, hright]

theorem toWords_wordBytes {w : ℕ} (hw : w < 256 ^ 8) : toWords (wordBytes w) = [w] := by
  have hread := readLE_writeLE_same (ofBytes []) 0 8 w
  have hcongr : readLE (ofBytes (wordBytes w)) 0 8 = readLE (writeLE (ofBytes []) 0 8 w) 0 8 := by
    rw [writeLE_eq_copyIn]
    apply readLE_congr
    intro i _ hi
    rw [ofBytes, copyIn, if_pos (Nat.zero_le i), Nat.sub_zero, ofBytes]
    rfl
  have hone : toWords (wordBytes w) = [readLE (ofBytes (wordBytes w)) 0 8] := by
    simp [toWords, words]
  rw [hone, hcongr, hread, mod_eq_of_lt hw]

end ByteMemory
