import MiniWireshark.Lib.HostOrder
import MiniWireshark.Lib.OnesComplement
import Mathlib.Algebra.BigOperators.Group.List.Basic
import Mathlib.Algebra.Group.Action.Defs
import Mathlib.Algebra.Order.BigOperators.Group.List
import Mathlib.Algebra.Order.Ring.Nat
import Mathlib.Logic.Function.Iterate

/-!
# The IPv4 header checksum (`Pcap.cpp:1156-1179`, `:1440-1457`)

| here | there |
| --- | --- |
| `sumWords`             | the `for` loop of `Pcap::compute_ip_checksum`: `sum` is a `uint32_t`, `word` a `uint16_t` |
| `carryStep`, `foldCarries` | the body of its `while (sum >> 16)` loop, and the loop |
| `computeIpChecksum`    | `Pcap::compute_ip_checksum`, `none` when it reads where `data` may not |
| `checksumStatus`       | `qs_ret_check` in `start_tree_md` |
| `words`                | the big-endian words of a header |
| `setWord`              | the header with one of them overwritten |
-/

namespace MiniWireshark

open Reader

/-! ## The code -/

/-- `(data[i] << 8) | data[i + 1]`. -/
def wordOf (hi lo : Nat) : Nat := (hi <<< 8 ||| lo) % 65536

/-- The first `n` passes of the word loop. -/
def sumWords (data : Nat → Option UInt8) (n : Nat) : Option Nat :=
  (List.range n).foldlM (fun sum k => do
    let hi ← u8 data (2 * k)
    let lo ← u8 data (2 * k + 1)
    some ((sum + wordOf hi lo) % 4294967296)) 0

def carryStep (sum : Nat) : Nat := (sum &&& 0xFFFF) + (sum >>> 16)

theorem carryStep_eq (sum : Nat) : carryStep sum = OnesComplement.fold 65535 sum := by
  have hand : sum &&& 0xFFFF = sum % 65536 := Nat.and_two_pow_sub_one_eq_mod sum 16
  rw [carryStep, hand, Nat.shiftRight_eq_div_pow, OnesComplement.fold]

theorem shiftRight_ne_zero_iff {sum : Nat} : sum >>> 16 ≠ 0 ↔ 65535 < sum := by
  rw [Nat.shiftRight_eq_div_pow]
  omega

def foldCarries (sum : Nat) : Nat :=
  if _h : sum >>> 16 ≠ 0 then foldCarries (carryStep sum) else sum
termination_by sum
decreasing_by
  rw [carryStep_eq]
  exact OnesComplement.fold_lt (by decide) (shiftRight_ne_zero_iff.1 _h)

/-- `headerLen` is even: the callers pass `ihl * 4`. The result is `~sum & 0xFFFF` on a `uint32_t`. -/
def computeIpChecksum (data : Nat → Option UInt8) (headerLen : Nat) : Option Nat := do
  let sum ← sumWords data ((headerLen + 1) / 2)
  some ((4294967295 - foldCarries sum) &&& 0xFFFF)

def checksumStatus (data : Nat → Option UInt8) (headerLen : Nat) : Option String := do
  let retCheck ← computeIpChecksum data headerLen
  some (if retCheck = 0 then "Good" else "Bad")

/-! ## Words of a header -/

/-- The big-endian word `k`. -/
def wordAt (hdr : List UInt8) (k : Nat) : Nat := be16 hdr (2 * k)

def words (hdr : List UInt8) : List Nat := (List.range (hdr.length / 2)).map (wordAt hdr)

def setWord (hdr : List UInt8) (k v : Nat) : List UInt8 :=
  (hdr.set (2 * k) (UInt8.ofNat (v / 256))).set (2 * k + 1) (UInt8.ofNat v)

variable {hdr : List UInt8} {data data' : Nat → Option UInt8}

theorem wordAt_le (hdr : List UInt8) (k : Nat) : wordAt hdr k ≤ 65535 := Nat.le_of_lt_succ (be16_lt hdr (2 * k))

theorem words_le : ∀ w ∈ words hdr, w ≤ 65535 := by
  intro w hw
  obtain ⟨k, _, rfl⟩ := List.mem_map.1 hw
  exact wordAt_le hdr k

@[simp] theorem length_words : (words hdr).length = hdr.length / 2 := by simp [words]

theorem take_words {n : Nat} (hn : n ≤ hdr.length / 2) : (words hdr).take n = (List.range n).map (wordAt hdr) := by
  rw [words, ← List.map_take, List.take_range, Nat.min_eq_left hn]

/-- Fewer than 65536 words do not overflow 32 bits. -/
theorem sum_take_words_lt (hlen : hdr.length ≤ 60) (n : Nat) : ((words hdr).take n).sum < 4294967296 := by
  have hcard : ((words hdr).take n).sum ≤ ((words hdr).take n).length • 65535 :=
    List.sum_le_card_nsmul _ _ fun w hw => words_le w (List.mem_of_mem_take hw)
  have htake : ((words hdr).take n).length ≤ hdr.length / 2 := by
    rw [List.length_take, length_words]
    exact Nat.min_le_right _ _
  rw [smul_eq_mul] at hcard
  omega

/-- The word the loop assembles is the big-endian one. -/
theorem wordOf_eq {hi lo : Nat} (hhi : hi < 256) (hlo : lo < 256) : wordOf hi lo = 256 * hi + lo := by
  rw [wordOf, ← Nat.shiftLeft_add_eq_or_of_lt hlo, Nat.shiftLeft_eq]
  omega

/-! ## The word loop -/

/-- The loop adds up the words, without overflow. -/
theorem sumWords_eq (hlen : hdr.length ≤ 60) {n : Nat} (hn : n ≤ hdr.length / 2) :
    sumWords (ofList hdr) n = some ((words hdr).take n).sum := by
  induction n with
  | zero => rfl
  | succ n ih =>
    have hword : wordOf (byteAt hdr (2 * n)) (byteAt hdr (2 * n + 1)) = wordAt hdr n :=
      wordOf_eq (byteAt_lt _ _) (byteAt_lt _ _)
    have hsum : ((words hdr).take (n + 1)).sum = ((words hdr).take n).sum + wordAt hdr n := by
      rw [take_words hn, take_words (Nat.le_of_succ_le hn), List.range_succ]
      simp
    have hlt := sum_take_words_lt hlen (n + 1)
    have ih := ih (Nat.le_of_succ_le hn)
    rw [sumWords] at ih
    rw [sumWords, List.range_succ, List.foldlM_append, ih, hsum]
    simp (disch := omega) only [Option.bind_eq_bind, Option.bind_some, List.foldlM_cons, List.foldlM_nil, u8_ofList, hword]
    rw [Nat.mod_eq_of_lt (by omega)]
    rfl

/-- The loop reads the first `2 * n` bytes only. -/
theorem sumWords_congr {n : Nat} (h : ∀ i < 2 * n, data i = data' i) : sumWords data n = sumWords data' n := by
  induction n with
  | zero => rfl
  | succ n ih =>
    have ih := ih fun i hi => h i (by omega)
    have h0 : u8 data (2 * n) = u8 data' (2 * n) := by rw [u8, u8, h (2 * n) (by omega)]
    have h1 : u8 data (2 * n + 1) = u8 data' (2 * n + 1) := by rw [u8, u8, h (2 * n + 1) (by omega)]
    rw [sumWords] at ih ⊢
    rw [List.range_succ, List.foldlM_append, ih]
    simp [sumWords, List.range_succ, h0, h1]

/-! ## The carry loop -/

/-- The body keeps the one's complement value. -/
theorem rep_carryStep (sum : Nat) :
    OnesComplement.rep 65535 (carryStep sum) = OnesComplement.rep 65535 sum := by
  rw [carryStep_eq]
  exact OnesComplement.rep_fold (by decide)

theorem foldCarries_of_le {sum : Nat} (h : sum ≤ 65535) : foldCarries sum = sum := by
  rw [foldCarries, dif_neg]
  exact fun hne => absurd (shiftRight_ne_zero_iff.1 hne) (Nat.not_lt.2 h)

theorem foldCarries_step {sum : Nat} (h : 65535 < sum) : foldCarries sum = foldCarries (carryStep sum) := by
  rw [foldCarries, dif_pos (shiftRight_ne_zero_iff.2 h)]

/-- The loop leaves the one's complement value. -/
theorem foldCarries_eq (sum : Nat) : foldCarries sum = OnesComplement.rep 65535 sum := by
  induction sum using Nat.strong_induction_on with
  | _ sum ih =>
    by_cases h : sum ≤ 65535
    · rw [foldCarries_of_le h, OnesComplement.rep_of_le (by decide) h]
    · have hlt := Nat.lt_of_not_le h
      have hdec : carryStep sum < sum := by
        rw [carryStep_eq]
        exact OnesComplement.fold_lt (by decide) hlt
      rw [foldCarries_step hlt, ih _ hdec, rep_carryStep]

/-- On a `uint32_t` the loop ends after at most two passes. -/
theorem foldCarries_passes {sum : Nat} (h : sum < 4294967296) :
    ∃ n ≤ 2, foldCarries sum = carryStep^[n] sum ∧ (carryStep^[n] sum) >>> 16 = 0 := by
  have hstep (s : Nat) : carryStep s = s % 65536 + s / 65536 := carryStep_eq s
  have hdone {s : Nat} (hs : s ≤ 65535) : s >>> 16 = 0 := by
    by_contra hne
    exact absurd (shiftRight_ne_zero_iff.1 hne) (Nat.not_lt.2 hs)
  by_cases h0 : sum ≤ 65535
  · exact ⟨0, by decide, foldCarries_of_le h0, hdone h0⟩
  by_cases h1 : carryStep sum ≤ 65535
  · exact ⟨1, by decide, by rw [foldCarries_step (by omega), foldCarries_of_le h1]; rfl, hdone h1⟩
  · -- after one pass at most one carry is left
    have h2 : carryStep (carryStep sum) ≤ 65535 := by
      have e1 := hstep sum
      have e2 := hstep (carryStep sum)
      omega
    refine ⟨2, le_rfl, ?_, hdone h2⟩
    rw [foldCarries_step (by omega), foldCarries_step (by omega), foldCarries_of_le h2]
    rfl

/-! ## The verdict -/

/-- The result is the one's complement of the one's complement sum of the words. -/
theorem computeIpChecksum_eq (heven : hdr.length % 2 = 0) (hlen : hdr.length ≤ 60) :
    computeIpChecksum (ofList hdr) hdr.length = some (65535 - OnesComplement.sum 65535 (words hdr)) := by
  have hn : (hdr.length + 1) / 2 = hdr.length / 2 := by omega
  have hall : (words hdr).take (hdr.length / 2) = words hdr := List.take_of_length_le (Nat.le_of_eq length_words)
  have hle : OnesComplement.rep 65535 (words hdr).sum ≤ 65535 := OnesComplement.rep_le (by decide)
  have hand (x : Nat) : x &&& 0xFFFF = x % 65536 := Nat.and_two_pow_sub_one_eq_mod x 16
  rw [computeIpChecksum, hn, sumWords_eq hlen le_rfl, hall, OnesComplement.sum_eq_rep (by decide) words_le]
  simp only [Option.bind_eq_bind, Option.bind_some, foldCarries_eq, hand, Option.some.injEq]
  omega

theorem computeIpChecksum_congr {n : Nat} (heven : n % 2 = 0) (h : ∀ i < n, data i = data' i) :
    computeIpChecksum data n = computeIpChecksum data' n := by
  rw [computeIpChecksum, computeIpChecksum, sumWords_congr fun i hi => h i (by omega)]

/-- Good is shown exactly for the sums that are non-zero multiples of 65535. -/
theorem checksumStatus_eq_good_iff (heven : hdr.length % 2 = 0) (hlen : hdr.length ≤ 60) :
    checksumStatus (ofList hdr) hdr.length = some "Good" ↔ ∃ m, 0 < m ∧ (words hdr).sum = 65535 * m := by
  have hle : OnesComplement.rep 65535 (words hdr).sum ≤ 65535 := OnesComplement.rep_le (by decide)
  rw [← OnesComplement.rep_eq_top_iff (M := 65535) (by decide), checksumStatus, computeIpChecksum_eq heven hlen,
    OnesComplement.sum_eq_rep (by decide) words_le]
  generalize OnesComplement.rep 65535 (words hdr).sum = r at hle ⊢
  simp only [Option.bind_eq_bind, Option.bind_some, Option.some.injEq]
  by_cases h : 65535 - r = 0
  · rw [if_pos h]
    exact iff_of_true rfl (by omega)
  · rw [if_neg h]
    exact iff_of_false (by decide) (by omega)

/-- A header that is not Good is shown as Bad. -/
theorem checksumStatus_eq_bad (heven : hdr.length % 2 = 0) (hlen : hdr.length ≤ 60)
    (h : checksumStatus (ofList hdr) hdr.length ≠ some "Good") :
    checksumStatus (ofList hdr) hdr.length = some "Bad" := by
  rw [checksumStatus, computeIpChecksum_eq heven hlen] at h ⊢
  simp only [Option.bind_eq_bind, Option.bind_some, Option.some.injEq] at h ⊢
  split at h
  · exact absurd rfl h
  · rename_i hne
    rw [if_neg hne]

/-! ## Overwriting a word -/

@[simp] theorem length_setWord (hdr : List UInt8) (k v : Nat) : (setWord hdr k v).length = hdr.length := by
  simp [setWord]

theorem wordAt_setWord {k v : Nat} (hk : k < hdr.length / 2) (hv : v < 65536) (j : Nat) :
    wordAt (setWord hdr k v) j = if j = k then v else wordAt hdr j := by
  have h0 : 2 * k < hdr.length := by omega
  have h1 : 2 * k + 1 < hdr.length := by omega
  unfold wordAt be16 byteAt setWord
  by_cases hj : j = k
  · subst hj
    simp only [List.getElem?_set, List.length_set, h0, h1, if_pos, Option.getD_some,
      show ¬ 2 * j + 1 = 2 * j by omega, if_false, UInt8.toNat_ofNat']
    omega
  · simp only [List.getElem?_set, if_neg hj, show ¬ 2 * k + 1 = 2 * j by omega, show ¬ 2 * k = 2 * j by omega,
      show ¬ 2 * k + 1 = 2 * j + 1 by omega, show ¬ 2 * k = 2 * j + 1 by omega, if_false]

theorem words_setWord {k v : Nat} (hk : k < hdr.length / 2) (hv : v < 65536) :
    words (setWord hdr k v) = (words hdr).set k v := by
  apply List.ext_getElem
  · simp
  · intro j h1 h2
    simp only [words, List.getElem_map, List.getElem_range, List.getElem_set, wordAt_setWord hk hv, eq_comm (a := k)]

/-- Overwriting a word trades its value in the sum. -/
theorem sum_words_setWord {k v : Nat} (hk : k < hdr.length / 2) (hv : v < 65536) :
    (words (setWord hdr k v)).sum + wordAt hdr k = (words hdr).sum + v := by
  have hk' : k < (words hdr).length := by rwa [length_words]
  have hget : (words hdr)[k] = wordAt hdr k := by simp [words]
  have hsplit : (words hdr).sum = ((words hdr).take k).sum + wordAt hdr k + ((words hdr).drop (k + 1)).sum := by
    conv_lhs => rw [← List.take_append_drop k (words hdr), List.drop_eq_getElem_cons hk', hget]
    rw [List.sum_append, List.sum_cons, Nat.add_assoc]
  rw [words_setWord hk hv, List.sum_set, if_pos hk', hsplit]
  omega

/-- The value computed with the checksum word zeroed makes the header Good once it is stored there. -/
theorem checksumStatus_stored (heven : hdr.length % 2 = 0) (hlen : hdr.length ≤ 60) (h20 : 20 ≤ hdr.length) :
    ∃ c < 65536, computeIpChecksum (ofList (setWord hdr 5 0)) hdr.length = some c ∧
      checksumStatus (ofList (setWord hdr 5 c)) hdr.length = some "Good" := by
  have hk : 5 < hdr.length / 2 := by omega
  have hz : (setWord hdr 5 0).length = hdr.length := length_setWord hdr 5 0
  have hzero : computeIpChecksum (ofList (setWord hdr 5 0)) (setWord hdr 5 0).length = _ :=
    computeIpChecksum_eq (by rwa [hz]) (by rwa [hz])
  rw [hz, OnesComplement.sum_eq_rep (by decide) words_le] at hzero
  refine ⟨_, by omega, hzero, ?_⟩
  generalize hc : 65535 - OnesComplement.rep 65535 (words (setWord hdr 5 0)).sum = c
  have hsum := sum_words_setWord (v := c) hk (by omega)
  have hsum0 := sum_words_setWord (v := 0) hk (by decide)
  obtain ⟨q, hq⟩ := OnesComplement.exists_eq_rep_add_mul 65535 (words (setWord hdr 5 0)).sum
  have hle : OnesComplement.rep 65535 (words (setWord hdr 5 0)).sum ≤ 65535 := OnesComplement.rep_le (by decide)
  have hl : (setWord hdr 5 c).length = hdr.length := length_setWord hdr 5 c
  rw [← hl] at heven hlen ⊢
  exact (checksumStatus_eq_good_iff heven hlen).2 ⟨q + 1, Nat.succ_pos q, by omega⟩

/-- Changing a word of a Good header makes it Bad, unless `0x0000` and `0xFFFF` are exchanged. -/
theorem checksumStatus_changed (heven : hdr.length % 2 = 0) (hlen : hdr.length ≤ 60)
    (hgood : checksumStatus (ofList hdr) hdr.length = some "Good") {k v : Nat} (hk : k < hdr.length / 2)
    (hv : v < 65536) (hne : v ≠ wordAt hdr k)
    (hex : ¬ (v = 0 ∧ wordAt hdr k = 65535 ∨ v = 65535 ∧ wordAt hdr k = 0)) :
    checksumStatus (ofList (setWord hdr k v)) hdr.length = some "Bad" := by
  have hz : (setWord hdr k v).length = hdr.length := length_setWord hdr k v
  rw [← hz] at heven hlen ⊢
  refine checksumStatus_eq_bad heven hlen fun hgood' => ?_
  obtain ⟨m', _, hm'⟩ := (checksumStatus_eq_good_iff heven hlen).1 hgood'
  rw [hz] at heven hlen
  obtain ⟨m, _, hm⟩ := (checksumStatus_eq_good_iff heven hlen).1 hgood
  -- the two sums differ by a multiple of 65535, and by less than 65536
  have hsum := sum_words_setWord hk hv
  have hle := wordAt_le hdr k
  omega

/-- **The header checksum is RFC 1071's.** For every header of even length up to 60: the 32-bit sum is
the plain sum of the words at every pass, the carry loop ends, the result is the one's complement of
their one's complement sum, and the verdict is Good exactly for the non-zero multiples of 65535.
Storing the computed checksum makes a header Good; overwriting any word of a Good one makes it Bad,
unless it exchanges `0x0000` and `0xFFFF`. -/
theorem ip_checksum_rfc1071 (heven : hdr.length % 2 = 0) (hlen : hdr.length ≤ 60) :
    (∀ n ≤ hdr.length / 2, sumWords (ofList hdr) n = some ((words hdr).take n).sum ∧
      ((words hdr).take n).sum < 4294967296) ∧
    (∃ n ≤ 2, foldCarries (words hdr).sum = carryStep^[n] (words hdr).sum ∧
      (carryStep^[n] (words hdr).sum) >>> 16 = 0) ∧
    computeIpChecksum (ofList hdr) hdr.length = some (65535 - OnesComplement.sum 65535 (words hdr)) ∧
    (computeIpChecksum (ofList hdr) hdr.length = some 0 ↔ ∃ m, 0 < m ∧ (words hdr).sum = 65535 * m) ∧
    (checksumStatus (ofList hdr) hdr.length = some "Good" ↔ ∃ m, 0 < m ∧ (words hdr).sum = 65535 * m) ∧
    (20 ≤ hdr.length → ∃ c < 65536, computeIpChecksum (ofList (setWord hdr 5 0)) hdr.length = some c ∧
      checksumStatus (ofList (setWord hdr 5 c)) hdr.length = some "Good") ∧
    (checksumStatus (ofList hdr) hdr.length = some "Good" → ∀ k < hdr.length / 2, ∀ v < 65536, v ≠ wordAt hdr k →
      ¬ (v = 0 ∧ wordAt hdr k = 65535 ∨ v = 65535 ∧ wordAt hdr k = 0) →
      checksumStatus (ofList (setWord hdr k v)) hdr.length = some "Bad") := by
  have hgood := checksumStatus_eq_good_iff heven hlen
  refine ⟨fun n hn => ⟨sumWords_eq hlen hn, sum_take_words_lt hlen n⟩, ?_, computeIpChecksum_eq heven hlen, ?_, hgood,
    checksumStatus_stored heven hlen,
    fun hg k hk v hv hne hex => checksumStatus_changed heven hlen hg hk hv hne hex⟩
  · have hlt := sum_take_words_lt hlen (hdr.length / 2)
    rw [List.take_of_length_le (Nat.le_of_eq length_words)] at hlt
    exact foldCarries_passes hlt
  · rw [← hgood, checksumStatus, computeIpChecksum_eq heven hlen]
    simp only [Option.bind_eq_bind, Option.bind_some, Option.some.injEq]
    split <;> simp_all

/-- An IPv4 header without options whose checksum is right. -/
def goodHeader : List UInt8 :=
  [0x45, 0, 0, 28, 0, 0, 0, 0, 64, 17, 0x66, 0xcf, 10, 0, 0, 1, 10, 0, 0, 2]

/-- Its verdict, and that of the header with another time to live. -/
theorem ip_checksum_rfc1071_header :
    checksumStatus (ofList goodHeader) goodHeader.length = some "Good" ∧
      checksumStatus (ofList (setWord goodHeader 4 0x3f11)) goodHeader.length = some "Bad" := by
  have hgood : checksumStatus (ofList goodHeader) goodHeader.length = some "Good" := by decide +kernel
  have heven : goodHeader.length % 2 = 0 := by decide
  obtain ⟨_, _, _, _, _, _, hchanged⟩ := ip_checksum_rfc1071 heven (by decide)
  exact ⟨hgood, hchanged hgood 4 (by decide) 0x3f11 (by decide) (by decide) (by decide)⟩

end MiniWireshark
