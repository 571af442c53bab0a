import LibMsf.Cxx.Memory
import LibMsf.Library.OnesComplement

/-!
The checksum of `network/sock/ping_utils.cc`.

`in_cksum` adds the 16-bit words of an array in 32 bits and folds the sum twice. Up to 65537 words
the sum fits, and two folds are enough to reduce it, so that the result is the complement of the
one's complement sum; the word that makes this sum full is the checksum itself. The machine is
little-endian, and a pointer into the array is the part of it from there on.
-/

namespace LibMsf

open Cxx

namespace Ping

/-- `*w`. -/
def word (lo hi : UInt8) : UInt16 :=
  .ofNat (lo.toNat + 256 * hi.toNat)

/-- `while (nleft > 1)`. -/
def sumWords : Nat → Bytes → UInt32 → Except Fault (Nat × Bytes × UInt32)
  | nleft + 2, lo :: hi :: w, sum => sumWords nleft w (sum + (word lo hi).toUInt32)
  | _ + 2, _, _ => .error .outOfBounds
  | nleft, w, sum => .ok (nleft, w, sum)

/-- The sum before it is folded. The last byte of an odd length is the low byte of `ans`. -/
def sumArray (buf : Bytes) (sz : Nat) : Except Fault UInt32 := do
  let (nleft, w, sum) ← sumWords sz buf 0
  if nleft = 1 then
    let last ← cellAt w 0
    return sum + last.toUInt32
  else return sum

def inCksum (buf : Bytes) (sz : Nat) : Except Fault UInt16 := do
  let sum ← sumArray buf sz
  let sum := (sum >>> 16) + (sum &&& 0xFFFF)
  let sum := sum + (sum >>> 16)
  return (~~~sum).toUInt16

/-- The words of an array, the odd last byte padded with zero. -/
def words : Bytes → List Nat
  | lo :: hi :: w => (lo.toNat + 256 * hi.toNat) :: words w
  | [last] => [last.toNat]
  | [] => []

section Words

theorem words_lt (buf : Bytes) : ∀ n ∈ words buf, n < 65536 := by
  induction buf using words.induct with
  | case1 lo hi w ih =>
      have hlo := lo.toNat_lt
      have hhi := hi.toNat_lt
      rw [words, List.forall_mem_cons]
      exact ⟨by omega, ih⟩
  | case2 last =>
      have hlast := last.toNat_lt
      rw [words, List.forall_mem_cons]
      exact ⟨by omega, List.forall_mem_nil _⟩
  | case3 => exact List.forall_mem_nil _

theorem length_words (buf : Bytes) : (words buf).length = (buf.length + 1) / 2 := by
  induction buf using words.induct with
  | case1 lo hi w ih =>
      simp only [words, List.length_cons, ih]
      omega
  | case2 last => simp [words]
  | case3 => simp [words]

theorem sum_words_lt {buf : Bytes} (h : buf.length ≤ 131074) : (words buf).sum < 2 ^ 32 := by
  have hsum := List.sum_le_card_nsmul (words buf) 65535
    (fun n hn => Nat.le_of_lt_succ (words_lt buf n hn))
  rw [length_words, smul_eq_mul] at hsum
  omega

theorem words_append {front : Bytes} (h : front.length % 2 = 0) (back : Bytes) :
    words (front ++ back) = words front ++ words back := by
  induction front using words.induct with
  | case1 lo hi w ih =>
      simp only [List.length_cons] at h
      simp only [List.cons_append, words, ih (by omega)]
  | case2 last => cases h
  | case3 => rfl

end Words

section Sums

theorem toUInt32_word (lo hi : UInt8) :
    (word lo hi).toUInt32 = .ofNat (lo.toNat + 256 * hi.toNat) := by
  have hlo := lo.toNat_lt
  have hhi := hi.toNat_lt
  rw [word, UInt16.toUInt32_ofNat' (by simp only [UInt16.size]; omega)]

/-- The loop, and the byte that it may leave. -/
theorem sumWords_eq (buf : Bytes) (n : Nat) :
    ∃ nleft w sum, sumWords buf.length buf (.ofNat n) = .ok (nleft, w, sum) ∧
      (if nleft = 1 then do
        let last ← cellAt w 0
        return sum + last.toUInt32
      else return sum : Except Fault UInt32) = .ok (.ofNat (n + (words buf).sum)) := by
  induction buf using words.induct generalizing n with
  | case1 lo hi w ih =>
      obtain ⟨nleft, w', sum, hloop, hlast⟩ := ih (n + (lo.toNat + 256 * hi.toNat))
      refine ⟨nleft, w', sum, ?_, ?_⟩
      · rw [List.length_cons, List.length_cons, sumWords, toUInt32_word, ← UInt32.ofNat_add]
        exact hloop
      · rw [words, List.sum_cons, ← Nat.add_assoc]
        exact hlast
  | case2 last =>
      refine ⟨1, [last], .ofNat n, rfl, ?_⟩
      have hbyte : last.toUInt32 = .ofNat last.toNat := (UInt32.ofNat_toNat).symm
      rw [if_pos rfl, words, List.sum_singleton, UInt32.ofNat_add, ← hbyte]
      rfl
  | case3 => exact ⟨0, [], .ofNat n, rfl, rfl⟩

theorem sumArray_eq (buf : Bytes) :
    sumArray buf buf.length = .ok (.ofNat (words buf).sum) := by
  obtain ⟨nleft, w, sum, hloop, hlast⟩ := sumWords_eq buf 0
  rw [Nat.zero_add] at hlast
  rw [sumArray, show (0 : UInt32) = .ofNat 0 from rfl, hloop, ok_bind]
  exact hlast

theorem two_folds {n : Nat} (h : n < 2 ^ 32) :
    (OnesComplement.fold 65536 n + OnesComplement.fold 65536 n / 65536) % 65536 =
      OnesComplement.reduce 65536 n := by
  rw [← OnesComplement.reduce_fold (by decide)]
  have hle : OnesComplement.fold 65536 n ≤ 131070 := by
    rw [OnesComplement.fold]
    omega
  generalize OnesComplement.fold 65536 n = t at hle
  by_cases hcarry : t < 65536
  · rw [OnesComplement.reduce_of_lt hcarry]
    omega
  · have hround : t = (t - 65535) + (65536 - 1) * 1 := by omega
    rw [hround, OnesComplement.reduce_add_mul 65536 (by omega),
      OnesComplement.reduce_of_lt (by omega)]
    omega

theorem inCksum_eq_reduce {buf : Bytes} (h : buf.length ≤ 131074) :
    ∃ c, inCksum buf buf.length = .ok c ∧
      c.toNat = 65535 - OnesComplement.reduce 65536 (words buf).sum := by
  have hlt := sum_words_lt h
  refine ⟨_, by rw [inCksum, sumArray_eq, ok_bind, pure_eq_ok], ?_⟩
  have hfolds := two_folds hlt
  have hsum : (UInt32.ofNat (words buf).sum).toNat = (words buf).sum :=
    UInt32.toNat_ofNat_of_lt' hlt
  generalize UInt32.ofNat (words buf).sum = sum at hsum
  have hfirst : ((sum >>> 16) + (sum &&& 0xFFFF)).toNat =
      OnesComplement.fold 65536 (words buf).sum := by
    rw [UInt32.toNat_add, UInt32.toNat_shiftRight, UInt32.toNat_and, hsum,
      show (0xFFFF : UInt32).toNat = 2 ^ 16 - 1 from rfl, Nat.and_two_pow_sub_one_eq_mod,
      Nat.shiftRight_eq_div_pow, OnesComplement.fold]
    simp only [UInt32.reduceToNat, Nat.reduceMod, Nat.reducePow]
    omega
  generalize (sum >>> 16) + (sum &&& 0xFFFF) = folded at hfirst
  rw [UInt32.toNat_toUInt16, UInt32.toNat_not, UInt32.toNat_add, UInt32.toNat_shiftRight, hfirst,
    Nat.shiftRight_eq_div_pow, ← hfolds]
  simp only [UInt32.reduceToNat, Nat.reduceMod, Nat.reducePow, UInt32.size]
  omega

end Sums

/-- The bytes of a word in memory. -/
def bytes (v : UInt16) : Bytes :=
  [v.toUInt8, (v >>> 8).toUInt8]

theorem words_bytes (v : UInt16) (rest : Bytes) :
    words (bytes v ++ rest) = v.toNat :: words rest := by
  have hv := v.toNat_lt
  have hvalue : v.toUInt8.toNat + 256 * (v >>> 8).toUInt8.toNat = v.toNat := by
    rw [UInt16.toNat_toUInt8, UInt16.toNat_toUInt8, UInt16.toNat_shiftRight,
      Nat.shiftRight_eq_div_pow]
    simp only [UInt16.reduceToNat, Nat.reduceMod, Nat.reducePow]
    omega
  rw [bytes, List.cons_append, List.cons_append, List.nil_append, words, hvalue]

/-- Storing a word in the place of a zero adds it to the sum of the words. -/
theorem sum_words_stored {buf : Bytes} {k : Nat} (hk : k % 2 = 0)
    (hzero : readAt buf k 2 = .ok [0, 0]) (v : UInt16) :
    ∃ buf', writeAt buf k (bytes v) = .ok buf' ∧ buf'.length = buf.length ∧
      (words buf').sum = (words buf).sum + v.toNat := by
  have hin : k + 2 ≤ buf.length := by
    by_contra hout
    rw [readAt, if_neg hout] at hzero
    cases hzero
  rw [readAt_of_le hin] at hzero
  have hread := Except.ok.inj hzero
  have hfront : (buf.take k).length % 2 = 0 := by
    rw [List.length_take, Nat.min_eq_left (by omega)]
    exact hk
  have hsplit : buf = buf.take k ++ (bytes 0 ++ buf.drop (k + 2)) := by
    have hback : bytes 0 ++ buf.drop (k + 2) = buf.drop k := by
      rw [← List.take_append_drop 2 (buf.drop k), hread, List.drop_drop]
      rfl
    rw [hback, List.take_append_drop]
  have hsum : (words buf).sum = (words (buf.take k)).sum + (words (buf.drop (k + 2))).sum := by
    have hwords := congrArg words hsplit
    rw [words_append hfront, words_bytes] at hwords
    rw [hwords, List.sum_append, List.sum_cons, UInt16.toNat_zero, Nat.zero_add]
  refine ⟨_, writeAt_of_le hin, length_overwrite hin, ?_⟩
  rw [overwrite, List.append_assoc, words_append hfront, show (bytes v).length = 2 from rfl,
    words_bytes, List.sum_append, List.sum_cons, hsum]
  omega

/-- The checksum is the complement of the one's complement sum of the words, and the array has the
checksum zero when it is stored in the place of a word that was zero. -/
theorem inCksum_internet {buf : Bytes} (h : buf.length ≤ 131074) :
    ∃ c, inCksum buf buf.length = .ok c ∧
      c = ~~~UInt16.ofNat (OnesComplement.sum 65536 (words buf)) ∧
      ∀ k, k % 2 = 0 → readAt buf k 2 = .ok [0, 0] →
        ∃ buf', writeAt buf k (bytes c) = .ok buf' ∧ inCksum buf' buf'.length = .ok 0 := by
  obtain ⟨c, hcksum, hc⟩ := inCksum_eq_reduce h
  have hreduced := OnesComplement.reduce_lt (show 2 ≤ 65536 by decide) (words buf).sum
  refine ⟨c, hcksum, ?_, ?_⟩
  · apply UInt16.toNat_inj.mp
    rw [OnesComplement.sum_eq_reduce (by decide) (words_lt buf), UInt16.toNat_not,
      UInt16.toNat_ofNat_of_lt' hreduced, hc]
    rfl
  · intro k hk hzero
    obtain ⟨buf', hwrite, hlength, hsum⟩ := sum_words_stored hk hzero c
    refine ⟨buf', hwrite, ?_⟩
    obtain ⟨c', hcksum', hc'⟩ := inCksum_eq_reduce (hlength.trans_le h)
    -- The checksum is what is missing to a full sum.
    rw [hsum, hc, OnesComplement.reduce_add_complement (show 2 ≤ 65536 by decide)] at hc'
    rw [hcksum']
    exact congrArg Except.ok (UInt16.toNat_inj.mp hc')

/-- An array of an odd length with a zero word in its middle. -/
theorem inCksum_internet_five :
    ∃ c, inCksum [1, 2, 0, 0, 5] 5 = .ok c ∧
      ∃ buf', writeAt [1, 2, 0, 0, 5] 2 (bytes c) = .ok buf' ∧
        inCksum buf' buf'.length = .ok 0 := by
  obtain ⟨c, hcksum, -, hstore⟩ :=
    inCksum_internet (show ([1, 2, 0, 0, 5] : Bytes).length ≤ 131074 by decide)
  exact ⟨c, hcksum, hstore 2 rfl rfl⟩

end Ping

end LibMsf
