import Mathlib.Data.List.DropRight
import TelnetMux.Transmit

/-!
# The transmit buffer as a queue

While its pointers are in range, a line's transmit buffer holds the queue of `tmxr_tqln`
bytes read from `txbpr` around the end of the buffer. `TXBUF_CHAR` appends a byte to that
queue and, when the queue already held `txbsz - 1` bytes, drops its oldest byte;
`tmxr_send_buffered_data` hands a prefix of the queue to the socket and keeps the rest. These
two facts are all that later results use of the pointer arithmetic.
-/

namespace TelnetMux

/-- The transmit pointers are in range of a nonempty buffer. -/
def RingOk (lp : Line) : Prop :=
  0 < lp.txbsz ∧ 0 ≤ lp.txbpr ∧ lp.txbpr < lp.txbsz ∧ 0 ≤ lp.txbpi ∧ lp.txbpi < lp.txbsz

instance (lp : Line) : Decidable (RingOk lp) := inferInstanceAs (Decidable (_ ∧ _))

/-- An index that ran at most one lap past the end of a buffer of `sz` bytes, brought back. -/
def wrapIdx (sz : Nat) (x : Int) : Int :=
  if x < sz then x else x - sz

/-- The `n` bytes of a circular buffer of `sz` bytes read from index `p`. -/
def ringFrom (sz : Nat) (f : Int → UInt8) (p : Int) (n : Nat) : List UInt8 :=
  (List.range n).map fun (k : Nat) ↦ f (wrapIdx sz (p + k))

/-- The queued bytes, oldest first. -/
def txRing (lp : Line) : List UInt8 :=
  ringFrom lp.txbsz lp.txb lp.txbpr (tmxrTqln lp).toNat

/-! ## Indices -/

/-- Distinct places in the queue are distinct buffer indices. -/
theorem wrapIdx_inj {sz : Nat} {p : Int} {k k' : Nat} (hk : k < sz) (hk' : k' < sz)
    (h : wrapIdx sz (p + k) = wrapIdx sz (p + k')) : k = k' := by
  unfold wrapIdx at h
  split_ifs at h <;> omega

theorem wrapIdx_wrapIdx_add {sz : Nat} {p k : Int} (hk0 : 0 ≤ k) (hpk : p + k < 2 * sz) :
    wrapIdx sz (wrapIdx sz p + k) = wrapIdx sz (p + k) := by
  unfold wrapIdx
  split_ifs <;> omega

theorem wrapIdx_of_lt {sz : Nat} {x : Int} (h : x < sz) : wrapIdx sz x = x :=
  if_pos h

/-- An index at most one past the end of the buffer is brought back inside it. -/
theorem wrapIdx_mem {sz : Nat} {x : Int} (h0 : 0 ≤ x) (h : x ≤ sz) (hsz : 0 < sz) :
    0 ≤ wrapIdx sz x ∧ wrapIdx sz x < sz := by
  unfold wrapIdx
  split_ifs <;> omega

/-- C's `%` on an index that advanced by one inside the buffer. -/
theorem tmod_succ_of_lt {p : Int} {sz : Nat} (h0 : 0 ≤ p) (h : p < sz) :
    Int.tmod (p + 1) sz = wrapIdx sz (p + 1) := by
  rw [Int.tmod_eq_emod (by omega) (by omega), wrapIdx]
  split_ifs with hlt
  · exact Int.emod_eq_of_lt (by omega) hlt
  · rw [show p + 1 = sz by omega, Int.emod_self]
    omega

theorem tmxrTqln_ringOk {lp : Line} (h : RingOk lp) :
    0 ≤ tmxrTqln lp ∧ tmxrTqln lp < lp.txbsz ∧
      lp.txbpi = wrapIdx lp.txbsz (lp.txbpr + tmxrTqln lp) := by
  obtain ⟨_, _, _, _, _⟩ := h
  unfold tmxrTqln wrapIdx
  split_ifs <;> omega

/-- The queue's length is the distance from the removal to the insertion pointer. -/
theorem tmxrTqln_eq_of_wrap {lp : Line} {q : Int} (hq0 : 0 ≤ q) (hqs : q < lp.txbsz)
    (hpi : lp.txbpi = wrapIdx lp.txbsz (lp.txbpr + q)) :
    tmxrTqln lp = q := by
  unfold tmxrTqln
  unfold wrapIdx at hpi
  split_ifs at hpi ⊢ <;> omega

@[simp]
theorem tmxrTqln_of_eq {lp : Line} (h : lp.txbpi = lp.txbpr) : tmxrTqln lp = 0 := by
  simp [tmxrTqln, h]

/-! ## The queue read from a buffer -/

@[simp]
theorem length_ringFrom (sz : Nat) (f : Int → UInt8) (p : Int) (n : Nat) :
    (ringFrom sz f p n).length = n := by
  simp [ringFrom]

@[simp]
theorem length_txbSlice (f : Int → UInt8) (p : Int) (n : Nat) : (txbSlice f p n).length = n := by
  simp [txbSlice]

@[simp]
theorem length_txRing (lp : Line) : (txRing lp).length = (tmxrTqln lp).toNat :=
  length_ringFrom ..

/-- A queue read from `p` is its first `s` bytes followed by the queue read from `p + s`. -/
theorem ringFrom_add {sz : Nat} (f : Int → UInt8) {p : Int} {s n : Nat}
    (hps : p + s ≤ sz) (hn : n ≤ sz) :
    ringFrom sz f p (s + n) = ringFrom sz f p s ++ ringFrom sz f (wrapIdx sz (p + s)) n := by
  unfold ringFrom
  rw [List.range_add, List.map_append, List.map_map]
  congr 1
  refine List.map_congr_left fun k hk ↦ ?_
  have hk : k < n := List.mem_range.1 hk
  rw [Function.comp_apply, wrapIdx_wrapIdx_add (by omega) (by omega)]
  congr 2
  omega

/-- A queue that does not run past the end of the buffer is what `sim_write_sock` reads. -/
theorem ringFrom_eq_txbSlice {sz : Nat} (f : Int → UInt8) {p : Int} {s : Nat}
    (hps : p + s ≤ sz) : ringFrom sz f p s = txbSlice f p s := by
  refine List.map_congr_left fun k hk ↦ ?_
  rw [wrapIdx_of_lt (by have := List.mem_range.1 hk; omega)]

/-- Writing a byte just past the end of a queue appends it. -/
theorem ringFrom_update_push {sz : Nat} (f : Int → UInt8) (ch : UInt8) (p : Int) {n : Nat}
    (hn : n < sz) :
    ringFrom sz (Function.update f (wrapIdx sz (p + n)) ch) p (n + 1) = ringFrom sz f p n ++ [ch] := by
  unfold ringFrom
  rw [List.range_succ, List.map_append]
  congr 1
  · refine List.map_congr_left fun k hk ↦ Function.update_noteq (fun he ↦ ?_) _ _
    have := wrapIdx_inj (by have := List.mem_range.1 hk; omega) hn he
    exact (List.mem_range.1 hk).ne this
  · simp

/-! ## Storing a byte -/

section

variable {lp : Line}

/-- `TXBUF_CHAR` on a line whose pointers are in range, by whether the queue was full. -/
theorem txbufChar_eq (h : RingOk lp) (ch : UInt8) :
    txbufChar lp ch =
      if tmxrTqln lp + 1 = lp.txbsz then
        { lp with
          txb := Function.update lp.txb lp.txbpi ch
          txbpi := lp.txbpr
          txbpr := wrapIdx lp.txbsz (lp.txbpr + 1)
          txdrp := lp.txdrp + 1 }
      else
        { lp with
          txb := Function.update lp.txb lp.txbpi ch
          txbpi := wrapIdx lp.txbsz (lp.txbpi + 1) } := by
  obtain ⟨hs, hr0, hrs, hi0, his⟩ := h
  unfold txbufChar
  rw [tmod_succ_of_lt hi0 his, Int.add_comm 1, tmod_succ_of_lt hr0 hrs]
  have hfull : wrapIdx lp.txbsz (lp.txbpi + 1) = lp.txbpr ↔ tmxrTqln lp + 1 = lp.txbsz := by
    unfold wrapIdx tmxrTqln
    split_ifs <;> omega
  by_cases hf : tmxrTqln lp + 1 = lp.txbsz
  · rw [if_pos (hfull.2 hf), if_pos hf, hfull.2 hf]
  · rw [if_neg (mt hfull.1 hf), if_neg hf]

theorem txbufChar_ringOk (h : RingOk lp) (ch : UInt8) : RingOk (txbufChar lp ch) := by
  rw [txbufChar_eq h]
  obtain ⟨hs, hr0, hrs, hi0, his⟩ := h
  split_ifs
  · obtain ⟨hw0, hws⟩ := wrapIdx_mem (by omega) hrs hs
    exact ⟨hs, hw0, hws, hr0, hrs⟩
  · exact ⟨hs, hr0, hrs, wrapIdx_mem (by omega) his hs⟩

/-- `TXBUF_CHAR` on a queue that is not full keeps the removal pointer and grows the queue. -/
theorem txbufChar_of_not_full (h : RingOk lp) (ch : UInt8) (hf : tmxrTqln lp + 1 ≠ lp.txbsz) :
    (txbufChar lp ch).txbpr = lp.txbpr ∧ tmxrTqln (txbufChar lp ch) = tmxrTqln lp + 1 := by
  obtain ⟨hq0, hqs, hpi⟩ := tmxrTqln_ringOk h
  have hrs := h.2.2.1
  rw [txbufChar_eq h, if_neg hf]
  refine ⟨rfl, tmxrTqln_eq_of_wrap (by omega) (show tmxrTqln lp + 1 < lp.txbsz by omega) ?_⟩
  dsimp only
  rw [hpi, wrapIdx_wrapIdx_add (by omega) (by omega), Int.add_assoc]

/-- `TXBUF_CHAR` appends the byte to the queue, dropping the oldest byte of a full queue. -/
theorem txRing_txbufChar (h : RingOk lp) (ch : UInt8) :
    txRing (txbufChar lp ch) =
      if tmxrTqln lp + 1 = lp.txbsz then (txRing lp ++ [ch]).tail else txRing lp ++ [ch] := by
  obtain ⟨hq0, hqs, hpi⟩ := tmxrTqln_ringOk h
  have hq : ((tmxrTqln lp).toNat : Int) = tmxrTqln lp := Int.toNat_of_nonneg hq0
  have push : ringFrom lp.txbsz (Function.update lp.txb lp.txbpi ch) lp.txbpr
      ((tmxrTqln lp).toNat + 1) = txRing lp ++ [ch] := by
    rw [hpi, ← hq]
    exact ringFrom_update_push _ _ _ (by omega)
  split_ifs with hf
  · rw [txbufChar_eq h, if_pos hf]
    obtain ⟨hs, hr0, hrs, hi0, his⟩ := h
    obtain ⟨hw0, hws⟩ := wrapIdx_mem (by omega) hrs hs
    have hq' : tmxrTqln { lp with
        txb := Function.update lp.txb lp.txbpi ch
        txbpi := lp.txbpr
        txbpr := wrapIdx lp.txbsz (lp.txbpr + 1)
        txdrp := lp.txdrp + 1 } = tmxrTqln lp :=
      tmxrTqln_eq_of_wrap hq0 hqs (by
        dsimp only
        rw [wrapIdx_wrapIdx_add hq0 (by omega), wrapIdx, if_neg (by omega)]
        omega)
    have hsplit := ringFrom_add (Function.update lp.txb lp.txbpi ch)
      (show lp.txbpr + ((1 : Nat) : Int) ≤ lp.txbsz by omega)
      (show (tmxrTqln lp).toNat ≤ lp.txbsz by omega)
    rw [Nat.add_comm 1, push] at hsplit
    rw [hsplit, txRing, hq']
    rfl
  · unfold txRing at push ⊢
    rw [(txbufChar_of_not_full h ch hf).2, txbufChar_eq h, if_neg hf]
    dsimp only
    rw [← push]
    congr 1
    omega

/-- `TXBUF_CHAR` keeps the newest `txbsz - 1` bytes of the queue followed by the byte. -/
theorem txRing_txbufChar_rtake (h : RingOk lp) (ch : UInt8) :
    txRing (txbufChar lp ch) = (txRing lp ++ [ch]).rtake (lp.txbsz - 1) := by
  obtain ⟨hq0, hqs, -⟩ := tmxrTqln_ringOk h
  rw [txRing_txbufChar h, List.rtake, List.length_append, length_txRing, List.length_singleton]
  split_ifs with hf
  · rw [show (tmxrTqln lp).toNat + 1 - (lp.txbsz - 1) = 1 by omega, List.drop_one]
  · rw [show (tmxrTqln lp).toNat + 1 - (lp.txbsz - 1) = 0 by omega, List.drop_zero]

/-! ## Putting a character -/

/-- The bytes `tmxr_putc_ln` stores for a character: an IAC is doubled. -/
def stuff (chr : UInt8) : List UInt8 :=
  if chr = tnIac then [tnIac, tnIac] else [chr]

/-- Keeping the newest `n` bytes twice is keeping them once. -/
theorem rtake_append_rtake {α : Type} (l m : List α) (n : Nat) :
    (l.rtake n ++ m).rtake n = (l ++ m).rtake n := by
  simp only [List.rtake, List.length_append, List.length_drop]
  rw [← List.drop_append_of_le_length (by omega), List.drop_drop]
  congr 1
  omega

theorem txbufStuff_ringOk (h : RingOk lp) (chr : UInt8) : RingOk (txbufStuff lp chr) := by
  unfold txbufStuff
  split_ifs
  · exact txbufChar_ringOk (txbufChar_ringOk h _) _
  · exact txbufChar_ringOk h _

/-- The two `TXBUF_CHAR`s append the stuffed character, dropping the oldest bytes that no
longer fit. -/
theorem txRing_txbufStuff (h : RingOk lp) (chr : UInt8) :
    txRing (txbufStuff lp chr) = (txRing lp ++ stuff chr).rtake (lp.txbsz - 1) := by
  unfold txbufStuff stuff
  split_ifs with hc
  · rw [txRing_txbufChar_rtake (txbufChar_ringOk h _), txRing_txbufChar_rtake h,
      (txbufChar_txFrame lp _).txbsz, rtake_append_rtake, List.append_assoc, hc]
    rfl
  · exact txRing_txbufChar_rtake h chr

theorem tmxrPutcLn_ringOk (c : Consts) (h : RingOk lp) (chr : UInt8) :
    RingOk (tmxrPutcLn c lp chr).1 := by
  unfold tmxrPutcLn
  dsimp only
  split_ifs <;> first | exact h | exact txbufStuff_ringOk h chr

/-- Every byte `TXBUF_CHAR` drops from the queue is counted in `txdrp`. -/
theorem txbufChar_txdrp (h : RingOk lp) (ch : UInt8) :
    (txbufChar lp ch).txdrp + (txRing (txbufChar lp ch)).length =
      lp.txdrp + (txRing lp).length + 1 := by
  have hq := (tmxrTqln_ringOk h).1
  rw [txRing_txbufChar h, txbufChar_eq h]
  split_ifs with hf
  · simp only [List.length_tail, List.length_append, List.length_singleton, length_txRing]
    omega
  · simp only [List.length_append, List.length_singleton, Nat.add_assoc]

theorem txbufStuff_txdrp (h : RingOk lp) (chr : UInt8) :
    (txbufStuff lp chr).txdrp + (txRing (txbufStuff lp chr)).length =
      lp.txdrp + (txRing lp).length + (stuff chr).length := by
  unfold txbufStuff stuff
  split_ifs
  · rw [txbufChar_txdrp (txbufChar_ringOk h _), txbufChar_txdrp h]
    rfl
  · exact txbufChar_txdrp h chr

/-- What `tmxr_putc_ln` does to the queue of a line that is connected or buffered: a put that
returns `SCPE_OK` stores the stuffed character, dropping (and counting in `txdrp`) the oldest
bytes that do not fit; any other put returns `SCPE_STALL`, stores nothing and counts itself. -/
theorem tmxrPutcLn_ring (c : Consts) (h : RingOk lp) (hs : lp.conn ≠ 0 ∨ lp.txbfd = true)
    (chr : UInt8) :
    ((tmxrPutcLn c lp chr).2 = .ok ∧
        txRing (tmxrPutcLn c lp chr).1 = (txRing lp ++ stuff chr).rtake (lp.txbsz - 1) ∧
        (tmxrPutcLn c lp chr).1.txdrp + (txRing (tmxrPutcLn c lp chr).1).length =
          lp.txdrp + (txRing lp).length + (stuff chr).length) ∨
      ((tmxrPutcLn c lp chr).2 = .stall ∧ txRing (tmxrPutcLn c lp chr).1 = txRing lp ∧
        (tmxrPutcLn c lp chr).1.txdrp = lp.txdrp + 1) := by
  unfold tmxrPutcLn
  rw [if_neg (by rintro ⟨h₁, h₂⟩; rcases hs with hs | hs <;> simp_all)]
  dsimp only
  split_ifs
  · exact .inl ⟨rfl, txRing_txbufStuff h chr, txbufStuff_txdrp h chr⟩
  · exact .inl ⟨rfl, txRing_txbufStuff h chr, txbufStuff_txdrp h chr⟩
  · exact .inr ⟨rfl, rfl, rfl⟩

/-! ## Sending -/

theorem SockWrite.taken_le {w : SockWrite} {n s : Nat} (h : w.taken n = some s) : s ≤ n := by
  cases w with
  | error => cases h
  | sent k =>
    cases h
    exact Nat.min_le_right k n

/-- What a send does to a line whose pointers are in range: the bytes the socket took are a
prefix of the queue and the rest stays queued, the count returned is what is left, and only
the removal pointer and the sent count moved. -/
structure SendSpec (lp : Line) (r : Line × Int × List UInt8) : Prop where
  ringOk : RingOk r.1
  conserve : r.2.2 ++ txRing r.1 = txRing lp
  left : r.2.1 = tmxrTqln r.1
  frame : ∃ txbpr, r.1 = { lp with txbpr, txcnt := lp.txcnt + r.2.2.length }

theorem SendSpec.refl (h : RingOk lp) : SendSpec lp (lp, tmxrTqln lp, []) :=
  ⟨h, rfl, rfl, lp.txbpr, by simp⟩

theorem SendSpec.trans {l₁ : Line} {n₁ : Int} {o₁ : List UInt8} {r : Line × Int × List UInt8}
    (h₁ : SendSpec lp (l₁, n₁, o₁)) (h₂ : SendSpec l₁ r) :
    SendSpec lp (r.1, r.2.1, o₁ ++ r.2.2) where
  ringOk := h₂.ringOk
  conserve := by
    rw [List.append_assoc, h₂.conserve]
    exact h₁.conserve
  left := h₂.left
  frame := by
    obtain ⟨p₁, e₁⟩ := h₁.frame
    obtain ⟨p₂, e₂⟩ := h₂.frame
    refine ⟨p₂, ?_⟩
    dsimp only at e₁ ⊢
    rw [e₂, e₁]
    simp [Int.add_assoc]

theorem txSent_eq {s : Nat} (hend : lp.txbpr + s ≤ lp.txbsz) :
    txSent lp s = { lp with txbpr := wrapIdx lp.txbsz (lp.txbpr + s), txcnt := lp.txcnt + s } := by
  have e : (if lp.txbpr + (s : Int) ≥ lp.txbsz then 0 else lp.txbpr + s) =
      wrapIdx lp.txbsz (lp.txbpr + s) := by
    unfold wrapIdx
    split_ifs <;> omega
  simp only [txSent, e]

/-- Sending `s` bytes that do not run past the end of the buffer. -/
theorem txSent_spec (h : RingOk lp) {s : Nat} (hs : s ≤ tmxrTqln lp)
    (hend : lp.txbpr + s ≤ lp.txbsz) :
    SendSpec lp (txSent lp s, tmxrTqln lp - s, txbSlice lp.txb lp.txbpr s) := by
  obtain ⟨hq0, hqs, hpi⟩ := tmxrTqln_ringOk h
  obtain ⟨hsz, hr0, hrs, hi0, his⟩ := h
  obtain ⟨hw0, hws⟩ := wrapIdx_mem (by omega) hend hsz
  have hq : tmxrTqln { lp with txbpr := wrapIdx lp.txbsz (lp.txbpr + s), txcnt := lp.txcnt + s } =
      tmxrTqln lp - s :=
    tmxrTqln_eq_of_wrap (by omega) (show tmxrTqln lp - s < lp.txbsz by omega) (by
      dsimp only
      rw [hpi, wrapIdx_wrapIdx_add (by omega) (by omega)]
      congr 1
      omega)
  rw [txSent_eq hend]
  refine ⟨⟨hsz, hw0, hws, hi0, his⟩, ?_, hq.symm, wrapIdx lp.txbsz (lp.txbpr + s), by simp⟩
  show txbSlice lp.txb lp.txbpr s ++ ringFrom lp.txbsz lp.txb (wrapIdx lp.txbsz (lp.txbpr + s))
      (tmxrTqln { lp with txbpr := wrapIdx lp.txbsz (lp.txbpr + s), txcnt := lp.txcnt + s }).toNat =
    txRing lp
  rw [hq, ← ringFrom_eq_txbSlice _ hend, ← ringFrom_add _ hend (by omega), txRing]
  congr 1
  omega

/-- The second write of `tmxr_send_buffered_data`. -/
theorem sendWrapped_spec (h : RingOk lp) (w : SockWrite) :
    SendSpec lp (sendWrapped lp (tmxrTqln lp) w) := by
  obtain ⟨hq0, hqs, -⟩ := tmxrTqln_ringOk h
  unfold sendWrapped
  split_ifs with hc
  · cases hw : w.taken (tmxrTqln lp).toNat with
    | none => exact .refl h
    | some s =>
      have := SockWrite.taken_le hw
      show SendSpec lp (txSent lp s, tmxrTqln lp - s, txbSlice lp.txb 0 s)
      rw [← hc.2]
      exact txSent_spec h (by omega) (by omega)
  · exact .refl h

/-- `tmxr_send_buffered_data` sends a prefix of the queue, whatever the socket does. -/
theorem tmxrSendBufferedData_spec (h : RingOk lp) (w₁ w₂ : SockWrite) :
    SendSpec lp (tmxrSendBufferedData lp w₁ w₂) := by
  unfold tmxrSendBufferedData
  dsimp only
  by_cases h0 : tmxrTqln lp = 0
  · rw [if_pos h0]
    exact h0 ▸ .refl h
  rw [if_neg h0]
  generalize hl : (if lp.txbpr < lp.txbpi then tmxrTqln lp else lp.txbsz - lp.txbpr) = len
  cases hw : w₁.taken len.toNat with
  | none => exact sendWrapped_spec h w₂
  | some s =>
    have hs := SockWrite.taken_le hw
    have hb : (s : Int) ≤ tmxrTqln lp ∧ lp.txbpr + s ≤ lp.txbsz := by
      obtain ⟨_, _, _, _, _⟩ := h
      unfold tmxrTqln at *
      split_ifs at * <;> omega
    have h₁ := txSent_spec h hb.1 hb.2
    have hleft : tmxrTqln lp - s = tmxrTqln (txSent lp s) := h₁.left
    dsimp only
    rw [hleft]
    exact h₁.trans (sendWrapped_spec h₁.ringOk w₂)

/-- One line's turn in `tmxr_poll_tx` sends a prefix of the queue. -/
theorem pollTxLn_spec (h : RingOk lp) (w : SockWrite × SockWrite) :
    RingOk (pollTxLn lp w).1 ∧ (pollTxLn lp w).2 ++ txRing (pollTxLn lp w).1 = txRing lp ∧
      (pollTxLn lp w).1.txdrp = lp.txdrp := by
  unfold pollTxLn
  split_ifs
  · exact ⟨h, rfl, rfl⟩
  · have hs := tmxrSendBufferedData_spec h w.1 w.2
    obtain ⟨p, hp⟩ := hs.frame
    have hd : (tmxrSendBufferedData lp w.1 w.2).1.txdrp = lp.txdrp := by rw [hp]
    dsimp only
    split_ifs <;> exact ⟨hs.ringOk, hs.conserve, hd⟩

end

end TelnetMux
