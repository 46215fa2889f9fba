import Mathlib.Algebra.BigOperators.Group.List
import Mathlib.Data.List.Basic
import TelnetMux.Basic

/-!
# Endian-independent file I/O

`sim_fread` and `sim_fwrite` keep binary files little-endian: on a big-endian host
(`sim_end = 0`) each element of `size` bytes is reversed on its way to and from the file, in
place by `sim_buf_swap_data` after a read, and through a swap buffer of `FLIP_SIZE` bytes by
`sim_buf_copy_swapped` before a write, one buffer load at a time.

Memory is read as a function from offsets past the buffer pointer to bytes, so that what a
routine reads past the end of the caller's buffer can be stated. `FLIP_SIZE` is a constant of
the build and a parameter here. The swap buffer's allocation is not modelled: it succeeds.
`fwrite` is given by the number of elements each call reports written; `fread` reads whole
elements from the bytes of the file.

On a big-endian host a write of more elements than the swap buffer holds goes wrong after the
first buffer load: the source pointer moves on by `size * count` bytes instead of the
`size * c` it copied, so the second load is read from past the end of the caller's buffer.
Every other write puts the elements' little-endian form in the file, and a read on the same
host gets them back.
-/

namespace TelnetMux

/-- The little-endian form of `count` elements of `size` bytes at offset `base`: each element
reversed on a big-endian host, as it is in memory on a little-endian one. -/
def leBytes (simEnd : Bool) (mem : Nat → UInt8) (base size count : Nat) : List UInt8 :=
  (List.range count).flatMap fun j ↦
    let e := (List.range size).map fun k ↦ mem (base + j * size + k)
    if simEnd then e else e.reverse

/-- `sim_buf_copy_swapped`: the bytes written to `dbuf` from `count` elements at offset `s`;
the inner loop `*(dptr + k) = *sptr++` for `k` from `size - 1` down reverses each element. -/
def bufCopySwapped (simEnd : Bool) (mem : Nat → UInt8) (s size count : Nat) : List UInt8 :=
  if simEnd = true ∨ size = 1 then (List.range (size * count)).map fun k ↦ mem (s + k)
  else (List.range count).flatMap fun j ↦
    ((List.range size).map fun k ↦ mem (s + j * size + k)).reverse

/-- `sim_buf_swap_data`: each of `count` elements of the buffer reversed in place, the pairs
`sptr[m]`, `dptr[size - 1 - m]` exchanged for `m` below `size / 2`. -/
def bufSwapData (simEnd : Bool) (buf : Nat → UInt8) (size count : Nat) : Nat → UInt8 :=
  if simEnd = true ∨ count = 0 ∨ size = 1 then buf
  else fun a ↦ if a < size * count then buf (a / size * size + (size - 1 - a % size)) else buf a

/-- `sim_fread` into a buffer holding `dst`, from a file holding `file`: `fread` reads the
whole elements the file has, up to `count`, and on a big-endian host all `count` elements of
the buffer are then reversed. -/
def simFread (simEnd : Bool) (dst : Nat → UInt8) (size count : Nat) (file : List UInt8) :
    (Nat → UInt8) × Nat :=
  if size = 0 ∨ count = 0 then (dst, 0)
  else
    let c := min count (file.length / size)
    let buf := fun a ↦ if a < c * size then file.getD a 0 else dst a
    if simEnd = true ∨ size = 1 ∨ c = 0 then (buf, c)
    else (bufSwapData simEnd buf size count, c)

/-- The loop of `sim_fwrite` over `i` buffer loads left, the `n`-th call of `fwrite` next, the
source pointer at offset `sptr` and `total` elements written: the bytes the file receives and
the count returned. `reply n` is what the `n`-th `fwrite` reports written, of the `c` asked. -/
def fwriteLoop (simEnd : Bool) (mem : Nat → UInt8) (size count nelem lcnt : Nat)
    (reply : Nat → Nat) : Nat → Nat → Nat → Nat → List UInt8 × Nat
  | 0, _, _, total => ([], total)
  | i + 1, n, sptr, total =>
    let c := if i = 0 then lcnt else nelem
    let buf := bufCopySwapped simEnd mem sptr size c
    let w := min (reply n) c
    if w = 0 then ([], total)
    else
      let r := fwriteLoop simEnd mem size count nelem lcnt reply i (n + 1) (sptr + size * count)
        (total + w)
      (buf.take (w * size) ++ r.1, r.2)

/-- `sim_fwrite` of `count` elements of `size` bytes from the buffer `mem`, with a swap buffer
of `flipSize` bytes: the bytes the file receives and the count returned. -/
def simFwrite (simEnd : Bool) (flipSize : Nat) (mem : Nat → UInt8) (size count : Nat)
    (reply : Nat → Nat) : List UInt8 × Nat :=
  if size = 0 ∨ count = 0 then ([], 0)
  else if simEnd = true ∨ size = 1 then
    let w := min (reply 0) count
    ((List.range (w * size)).map mem, w)
  else
    let nelem := flipSize / size
    let nbuf := count / nelem
    let lcnt := count % nelem
    let (nbuf, lcnt) := if lcnt ≠ 0 then (nbuf + 1, lcnt) else (nbuf, nelem)
    fwriteLoop simEnd mem size count nelem lcnt reply nbuf 0 0 0

/-! ## Writing through the swap buffer -/

@[simp]
theorem length_bufCopySwapped (simEnd : Bool) (mem : Nat → UInt8) (s size count : Nat) :
    (bufCopySwapped simEnd mem s size count).length = size * count := by
  unfold bufCopySwapped
  split_ifs
  · simp
  · simp [List.flatMap, Function.comp_def, List.sum_replicate, Nat.mul_comm]

section Loop

variable {simEnd : Bool} {mem : Nat → UInt8} {size count nelem lcnt : Nat} {reply : Nat → Nat}

/-- When every `fwrite` writes all it is given, load `t` of the loop is copied from `t` times
`size * count` bytes past where the loop started, and the loop returns what it was given
plus the elements of all loads. -/
theorem fwriteLoop_ok (hl : 0 < lcnt) (hn : 0 < nelem) (hokl : ∀ n, lcnt ≤ reply n)
    (hokn : ∀ n, nelem ≤ reply n) (i n sptr total : Nat) :
    fwriteLoop simEnd mem size count nelem lcnt reply (i + 1) n sptr total =
      ((List.range (i + 1)).flatMap (fun t ↦ bufCopySwapped simEnd mem (sptr + t * (size * count))
        size (if t = i then lcnt else nelem)), total + i * nelem + lcnt) := by
  induction i generalizing n sptr total with
  | zero =>
    rw [fwriteLoop, if_pos rfl, Nat.min_eq_right (hokl n), if_neg (Nat.ne_of_gt hl),
      List.take_of_length_le (by simp [Nat.mul_comm])]
    simp [fwriteLoop, List.range_succ_eq_map]
  | succ i ih =>
    rw [fwriteLoop, if_neg (Nat.succ_ne_zero i), Nat.min_eq_right (hokn n),
      if_neg (Nat.ne_of_gt hn), List.take_of_length_le (by simp [Nat.mul_comm]), ih,
      List.range_succ_eq_map (i + 1), List.flatMap_cons, List.flatMap_map]
    refine Prod.ext ?_ (by dsimp only; rw [Nat.succ_mul]; omega)
    simp only [Nat.zero_mul, Nat.add_zero, if_neg (Nat.succ_ne_zero i).symm]
    congr 1
    refine List.flatMap_congr fun t _ ↦ ?_
    simp only [Function.comp, Nat.succ_mul, Nat.succ_inj']
    congr 1
    omega

end Loop

/-- On a big-endian host the swap buffer holds each element reversed: the little-endian form. -/
theorem bufCopySwapped_big (mem : Nat → UInt8) (s : Nat) {size : Nat} (hs : size ≠ 1)
    (count : Nat) : bufCopySwapped false mem s size count = leBytes false mem s size count := by
  simp [bufCopySwapped, leBytes, hs]

/-- A big-endian write of more than one load: `i + 1` loads of `nelem` elements and a last one
of `lc`, through the loop. -/
theorem simFwrite_loads {flipSize size count : Nat} (mem : Nat → UInt8) (reply : Nat → Nat)
    (hs : 2 ≤ size) (hf : size ≤ flipSize) (hc : flipSize / size < count) :
    ∃ i lc, 1 ≤ i ∧ 0 < lc ∧ i * (flipSize / size) + lc = count ∧
      simFwrite false flipSize mem size count reply =
        fwriteLoop false mem size count (flipSize / size) lc reply (i + 1) 0 0 0 := by
  have hn : 0 < flipSize / size := Nat.div_pos hf (by omega)
  have hdm := Nat.div_add_mod count (flipSize / size)
  have hq : 1 ≤ count / (flipSize / size) := (Nat.one_le_div_iff hn).2 (by omega)
  unfold simFwrite
  rw [if_neg (by omega), if_neg (by simp; omega)]
  by_cases hr : count % (flipSize / size) = 0
  · refine ⟨count / (flipSize / size) - 1, flipSize / size, ?_, hn, ?_, ?_⟩
    · by_contra h
      have h1 : count / (flipSize / size) = 1 := by omega
      rw [h1, hr] at hdm
      omega
    · have := Nat.sub_one_mul (count / (flipSize / size)) (flipSize / size)
      rw [Nat.mul_comm (flipSize / size), hr] at hdm
      rw [this]
      have : flipSize / size ≤ count / (flipSize / size) * (flipSize / size) :=
        Nat.le_mul_of_pos_left _ (by omega)
      omega
    · simp only [if_neg (not_not.2 hr)]
      congr 1
      omega
  · refine ⟨count / (flipSize / size), count % (flipSize / size), hq, Nat.pos_of_ne_zero hr,
      by rw [Nat.mul_comm]; omega, ?_⟩
    simp only [if_pos hr]

/-- `sim_fwrite` on a big-endian host, with every `fwrite` succeeding, of more elements than
the swap buffer of `FLIP_SIZE` bytes holds: the first load reaches the file in little-endian
form, but the next element is read from `size * count` bytes on, past the end of the caller's
buffer, and the call still returns `count`. -/
theorem simFwrite_reads_past_buffer {flipSize size count : Nat} (mem : Nat → UInt8)
    (reply : Nat → Nat) (hs : 2 ≤ size) (hf : size ≤ flipSize) (hc : flipSize / size < count)
    (hok : ∀ n, count ≤ reply n) :
    (simFwrite false flipSize mem size count reply).1.take (flipSize / size * size) =
        leBytes false mem 0 size (flipSize / size) ∧
      ((simFwrite false flipSize mem size count reply).1.drop (flipSize / size * size)).take size =
        ((List.range size).map fun k ↦ mem (size * count + k)).reverse ∧
      (simFwrite false flipSize mem size count reply).2 = count := by
  obtain ⟨i, lc, hi, hlc, hsum, heq⟩ := simFwrite_loads mem reply hs hf hc
  obtain ⟨i, rfl⟩ : ∃ m, i = m + 1 := ⟨i - 1, by omega⟩
  have hn : 0 < flipSize / size := Nat.div_pos hf (by omega)
  rw [heq, fwriteLoop_ok hlc hn (fun n ↦ Nat.le_trans (by omega) (hok n))
    (fun n ↦ Nat.le_trans (by omega) (hok n)), List.range_succ_eq_map, List.flatMap_cons,
    List.flatMap_map, List.range_succ_eq_map, List.flatMap_cons]
  have hne : (0 : Nat) ≠ i + 1 := (Nat.succ_ne_zero i).symm
  simp only [Nat.zero_mul, Nat.add_zero, if_neg hne, Function.comp, Nat.zero_add, Nat.one_mul]
  have hlen : (bufCopySwapped false mem 0 size (flipSize / size)).length = flipSize / size * size :=
    by rw [length_bufCopySwapped, Nat.mul_comm]
  refine ⟨?_, ?_, by omega⟩
  · rw [List.take_left' hlen, bufCopySwapped_big mem 0 (by omega)]
  · rw [List.drop_left' hlen]
    obtain ⟨c, hc⟩ : ∃ c, (if 1 = i + 1 then lc else flipSize / size) = c + 1 :=
      ⟨(if 1 = i + 1 then lc else flipSize / size) - 1, by split_ifs <;> omega⟩
    rw [hc, bufCopySwapped, if_neg (by simp; omega), List.range_succ_eq_map, List.flatMap_cons,
      List.append_assoc, List.take_left' (by simp)]
    simp

/-- A swap buffer of four bytes and a buffer of three two-byte elements `0 1`, `2 3`, `4 5`
followed by `6 7` in memory. -/
theorem flipFour_reads_past :
    (simFwrite false 4 (fun a ↦ a.toUInt8) 2 3 fun _ ↦ 3).1.take 4 = [1, 0, 3, 2] ∧
      ((simFwrite false 4 (fun a ↦ a.toUInt8) 2 3 fun _ ↦ 3).1.drop 4).take 2 = [7, 6] ∧
      (simFwrite false 4 (fun a ↦ a.toUInt8) 2 3 fun _ ↦ 3).2 = 3 :=
  @simFwrite_reads_past_buffer 4 2 3 (fun a ↦ a.toUInt8) (fun _ ↦ 3) (by decide) (by decide)
    (by decide) fun _ ↦ Nat.le_refl 3

/-! ## Within one load

What the write does right: the elements of one load reach the file in little-endian form, and
`sim_fread` rebuilds them from it on either host. -/

theorem length_flatMap_blocks {α : Type} {size : Nat} (f : Nat → List α)
    (hf : ∀ j, (f j).length = size) (n : Nat) : ((List.range n).flatMap f).length = n * size := by
  induction n with
  | zero => simp
  | succ n ih => simp [List.range_succ, ih, hf, Nat.succ_mul]

/-- An entry of a list made of blocks of `size` entries: entry `a % size` of block `a / size`. -/
theorem getElem?_flatMap_blocks {α : Type} {size : Nat} (f : Nat → List α)
    (hf : ∀ j, (f j).length = size) (n a : Nat) :
    ((List.range n).flatMap f)[a]? = if a < n * size then (f (a / size))[a % size]? else none := by
  induction n with
  | zero => simp
  | succ n ih =>
    rw [List.range_succ, List.flatMap_append, List.flatMap_cons, List.flatMap_nil, List.append_nil]
    by_cases h : a < n * size
    · rw [List.getElem?_append_left (by rw [length_flatMap_blocks f hf]; exact h), ih, if_pos h,
        if_pos (by rw [Nat.succ_mul]; omega)]
    · rw [List.getElem?_append_right (by rw [length_flatMap_blocks f hf]; omega),
        length_flatMap_blocks f hf]
      by_cases h' : a < (n + 1) * size
      · have hsz : 0 < size := Nat.pos_of_ne_zero fun h0 ↦ by simp [h0] at h'
        have hq : a / size = n :=
          Nat.div_eq_of_lt_le (by omega) (by rw [Nat.succ_mul] at h' ⊢; omega)
        have hm := Nat.div_add_mod a size
        rw [hq, Nat.mul_comm] at hm
        rw [if_pos h', hq, show a % size = a - n * size by omega]
      · rw [if_neg h', List.getElem?_eq_none]
        rw [hf]
        rw [Nat.succ_mul] at h'
        omega

theorem length_leBytes (simEnd : Bool) (mem : Nat → UInt8) (base size count : Nat) :
    (leBytes simEnd mem base size count).length = count * size :=
  @length_flatMap_blocks _ size _ (fun _ ↦ by cases simEnd <;> simp) count

/-- Byte `a` of the little-endian form: byte `a % size` of element `a / size`, counted from the
other end on a big-endian host. -/
theorem getElem?_leBytes (simEnd : Bool) (mem : Nat → UInt8) {size count a : Nat}
    (ha : a < count * size) :
    (leBytes simEnd mem 0 size count)[a]? =
      some (mem (a / size * size + if simEnd then a % size else size - 1 - a % size)) := by
  have hsz : 0 < size := Nat.pos_of_ne_zero fun h0 ↦ by simp [h0] at ha
  have hr : a % size < size := Nat.mod_lt a hsz
  rw [leBytes, @getElem?_flatMap_blocks _ size _ (fun _ ↦ by cases simEnd <;> simp), if_pos ha]
  cases simEnd
  · simp [List.getElem?_reverse, List.getElem?_range, hr, Nat.mul_comm size]
  · simp [List.getElem?_range, hr, Nat.mul_comm size]

/-- Element `a / size` read back at byte `a % size`, from its other end. -/
theorem reverse_index {size a : Nat} (hr : a % size < size) :
    (a / size * size + (size - 1 - a % size)) / size = a / size ∧
      (a / size * size + (size - 1 - a % size)) % size = size - 1 - a % size := by
  have hsz : 0 < size := Nat.lt_of_le_of_lt (Nat.zero_le _) hr
  constructor
  · rw [Nat.add_comm, Nat.add_mul_div_right _ _ hsz, Nat.div_eq_of_lt (by omega), Nat.zero_add]
  · rw [Nat.add_comm, Nat.add_mul_mod_self_right, Nat.mod_eq_of_lt (by omega)]

/-- `sim_fread` of the little-endian form of `count` elements rebuilds them, on either host. -/
theorem simFread_leBytes (simEnd : Bool) (dst mem : Nat → UInt8) {size count : Nat}
    (hs : 0 < size) (hc : 0 < count) :
    (simFread simEnd dst size count (leBytes simEnd mem 0 size count)).2 = count ∧
      ∀ a < count * size, (simFread simEnd dst size count (leBytes simEnd mem 0 size count)).1 a =
        mem a := by
  have hmin : min count ((leBytes simEnd mem 0 size count).length / size) = count := by
    rw [length_leBytes, Nat.mul_div_cancel _ hs, Nat.min_self]
  have hfile (a : Nat) (ha : a < count * size) : (leBytes simEnd mem 0 size count).getD a 0 =
      mem (a / size * size + if simEnd then a % size else size - 1 - a % size) := by
    rw [List.getD_eq_getElem?_getD, getElem?_leBytes simEnd mem ha, Option.getD_some]
  unfold simFread
  rw [if_neg (by omega), hmin]
  dsimp only
  refine ⟨by split_ifs <;> rfl, fun a ha ↦ ?_⟩
  have hr : a % size < size := Nat.mod_lt a hs
  by_cases hdirect : simEnd = true ∨ size = 1 ∨ count = 0
  · rw [if_pos hdirect]
    dsimp only
    rw [if_pos ha, hfile a ha]
    rcases hdirect with rfl | h1 | h0
    · simp [Nat.div_add_mod']
    · subst h1; simp [Nat.mod_one]
    · omega
  · rw [if_neg hdirect]
    obtain ⟨hb, h1⟩ : simEnd = false ∧ size ≠ 1 := by simpa [hc.ne'] using hdirect
    subst hb
    have hq : a / size < count := Nat.div_lt_of_lt_mul (by rwa [Nat.mul_comm] at ha)
    have hidx : a / size * size + (size - 1 - a % size) < count * size := by
      have := Nat.mul_le_mul_right size (show a / size + 1 ≤ count by omega)
      rw [Nat.succ_mul] at this
      omega
    obtain ⟨hdiv, hmod⟩ := reverse_index hr
    simp only [bufSwapData, Bool.false_eq_true, false_or, hc.ne', h1, if_false,
      if_pos (show a < size * count by rwa [Nat.mul_comm]), if_pos hidx, hfile _ hidx, hdiv, hmod]
    rw [show size - 1 - (size - 1 - a % size) = a % size by omega, Nat.div_add_mod']

/-- On a little-endian host, or for single bytes, `sim_fwrite` hands `fwrite` the buffer as it
is, which is its little-endian form. -/
theorem simFwrite_direct (simEnd : Bool) (flipSize : Nat) (mem : Nat → UInt8)
    (reply : Nat → Nat) {size count : Nat} (hs : 0 < size) (hc : 0 < count)
    (hd : simEnd = true ∨ size = 1) (hok : count ≤ reply 0) :
    simFwrite simEnd flipSize mem size count reply = (leBytes simEnd mem 0 size count, count) := by
  unfold simFwrite
  rw [if_neg (by omega), if_pos hd, Nat.min_eq_right hok]
  refine Prod.ext (List.ext_getElem? fun a ↦ ?_) rfl
  by_cases ha : a < count * size
  · rw [getElem?_leBytes simEnd mem ha, List.getElem?_map, List.getElem?_range ha]
    rcases hd with rfl | rfl
    · simp [Nat.div_add_mod']
    · simp [Nat.mod_one]
  · rw [List.getElem?_eq_none (by simpa using ha),
      List.getElem?_eq_none (by rw [length_leBytes]; omega)]

/-- `sim_fwrite` of elements that fit one load of the swap buffer, every `fwrite` succeeding:
the file receives their little-endian form and the call returns `count`, on either host. -/
theorem simFwrite_one_load (simEnd : Bool) (flipSize : Nat) (mem : Nat → UInt8)
    (reply : Nat → Nat) {size count : Nat} (hs : 0 < size) (hc : 0 < count)
    (hf : count * size ≤ flipSize) (hok : ∀ n, count ≤ reply n) :
    simFwrite simEnd flipSize mem size count reply = (leBytes simEnd mem 0 size count, count) := by
  by_cases hd : simEnd = true ∨ size = 1
  · exact simFwrite_direct simEnd flipSize mem reply hs hc hd (hok 0)
  unfold simFwrite
  rw [if_neg (by omega), if_neg hd]
  obtain ⟨hb, h1⟩ : simEnd = false ∧ size ≠ 1 := by simpa using hd
  subst hb
  have hn : count ≤ flipSize / size := (Nat.le_div_iff_mul_le hs).2 hf
  have hload : fwriteLoop false mem size count (flipSize / size) count reply 1 0 0 0 =
      (leBytes false mem 0 size count, count) := by
    rw [fwriteLoop, if_pos rfl, Nat.min_eq_right (hok 0), if_neg (by omega),
      List.take_of_length_le (by simp [Nat.mul_comm]), bufCopySwapped_big mem 0 h1]
    simp [fwriteLoop]
  rcases Nat.lt_or_eq_of_le hn with hlt | heq
  · simp only [Nat.mod_eq_of_lt hlt, Nat.div_eq_of_lt hlt, if_pos (Nat.pos_iff_ne_zero.1 hc)]
    exact hload
  · rw [← heq]
    simp only [Nat.mod_self, Nat.div_self hc, ne_eq, not_true_eq_false, if_false]
    rw [heq] at hload ⊢
    exact hload

/-- What `sim_fwrite` writes whole, `sim_fread` reads back: on a little-endian host, for single
bytes, or for elements that fit one load of the swap buffer, with every `fwrite` taking all it
is given, reading the file back into any buffer on the same host returns `count` and restores
every byte of the elements. -/
theorem simFread_simFwrite (simEnd : Bool) (flipSize : Nat) (dst mem : Nat → UInt8)
    (reply : Nat → Nat) {size count : Nat} (hs : 0 < size) (hc : 0 < count)
    (hload : simEnd = true ∨ size = 1 ∨ count * size ≤ flipSize) (hok : ∀ n, count ≤ reply n) :
    (simFread simEnd dst size count (simFwrite simEnd flipSize mem size count reply).1).2 =
        count ∧
      ∀ a < count * size,
        (simFread simEnd dst size count (simFwrite simEnd flipSize mem size count reply).1).1 a =
          mem a := by
  have hw : simFwrite simEnd flipSize mem size count reply =
      (leBytes simEnd mem 0 size count, count) := by
    rcases hload with hd | hd | hf
    · exact simFwrite_direct simEnd flipSize mem reply hs hc (.inl hd) (hok 0)
    · exact simFwrite_direct simEnd flipSize mem reply hs hc (.inr hd) (hok 0)
    · exact simFwrite_one_load simEnd flipSize mem reply hs hc hf hok
  rw [hw]
  exact simFread_leBytes simEnd dst mem hs hc

/-- Two 16-bit elements through a 4-byte swap buffer on a big-endian host. -/
theorem flipFour_roundTrip :
    0 < 2 ∧ 0 < 2 ∧ (false = true ∨ 2 = 1 ∨ 2 * 2 ≤ 4) ∧ (∀ n : Nat, 2 ≤ (fun _ ↦ 2) n) ∧
      (simFread false (fun _ ↦ 0) 2 2
          (simFwrite false 4 (fun a ↦ a.toUInt8) 2 2 fun _ ↦ 2).1).2 = 2 ∧
      ∀ a < 2 * 2, (simFread false (fun _ ↦ 0) 2 2
          (simFwrite false 4 (fun a ↦ a.toUInt8) 2 2 fun _ ↦ 2).1).1 a = a.toUInt8 :=
  have hload : false = true ∨ 2 = 1 ∨ 2 * 2 ≤ 4 := by decide
  have hok : ∀ n : Nat, 2 ≤ (fun _ ↦ 2) n := fun _ ↦ Nat.le_refl 2
  ⟨by decide, by decide, hload, hok,
    simFread_simFwrite false 4 (fun _ ↦ 0) (fun a ↦ a.toUInt8) _ (by decide) (by decide) hload hok⟩

end TelnetMux
