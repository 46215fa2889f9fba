import Mathlib.Data.List.Rotate
import TelnetMux.Reconnect

/-!
# What a buffered line replays to a new client

With `BUFFERED=n` set on the port, a line's transmit buffer is kept while no client is
connected: a put stores its character even then, and a full buffer loses its oldest byte.
Read once round from the insertion pointer, the buffer is the newest `n` bytes stored into it
(`bufHist`). A put moves this window on by the stuffed character, and every other call that
stores no message of its own leaves it alone: the flush only moves the removal pointer, and a
reset keeps a buffered line's pointers.

When a client connects to a buffered line that has sent more than `n` bytes, `tmxr_poll_conn`
stores the greeting from just past the insertion pointer and then puts the pointer back. The
greeting overwrites the oldest bytes, and the queue runs from the greeting round to the
insertion pointer: the client is sent its greeting followed by the newest `n - 1 - |G|` bytes
the simulator put on the line. On a line that has sent less, the removal pointer is guessed
from the greeting's length instead; that case is in `TelnetMux.Reconnect`.
-/

namespace TelnetMux

/-! ## The buffer read once round -/

/-- A line's transmit buffer read once round from the insertion pointer: the oldest byte,
the next to be overwritten, first. -/
def bufHist (lp : Line) : List UInt8 :=
  ringFrom lp.txbsz lp.txb lp.txbpi lp.txbsz

@[simp]
theorem length_bufHist (lp : Line) : (bufHist lp).length = lp.txbsz :=
  length_ringFrom ..

/-- A queue read from `p` splits anywhere while it runs round the end of the buffer at most
once. -/
theorem ringFrom_add_round {sz : Nat} (f : Int → UInt8) {p : Int} {s n : Nat}
    (h : p + s + n ≤ 2 * sz) :
    ringFrom sz f p (s + n) = ringFrom sz f p s ++ ringFrom sz f (wrapIdx sz (p + s)) n := by
  unfold ringFrom
  rw [List.range_add, List.map_append, List.map_map]
  congr 1
  refine List.map_congr_left fun k hk ↦ ?_
  have hk : k < n := List.mem_range.1 hk
  rw [Function.comp_apply, wrapIdx_wrapIdx_add (by omega) (by omega)]
  congr 2
  omega

/-- Reading the buffer once round from `s` places further on is rotating the reading from
`p` by `s`. -/
theorem ringFrom_rotate {sz : Nat} (f : Int → UInt8) {p : Int} (hp0 : 0 ≤ p) (hp : p < sz)
    {s : Nat} (hs : s ≤ sz) :
    ringFrom sz f (wrapIdx sz (p + s)) sz = (ringFrom sz f p sz).rotate s := by
  have hw : 0 ≤ wrapIdx sz (p + s) ∧ wrapIdx sz (p + s) < sz := by
    unfold wrapIdx
    split_ifs <;> omega
  have h₁ := @ringFrom_add_round sz f p s (sz - s) (by omega)
  have h₂ := @ringFrom_add_round sz f (wrapIdx sz (p + s)) (sz - s) s (by omega)
  have hback : wrapIdx sz (wrapIdx sz (p + s) + (sz - s : Nat)) = p := by
    rw [wrapIdx_wrapIdx_add (by omega) (by omega), wrapIdx, if_neg (by omega)]
    omega
  rw [Nat.add_sub_cancel' hs] at h₁
  rw [Nat.sub_add_cancel hs, hback] at h₂
  have hrot := List.rotate_append_length_eq (ringFrom sz f p s)
    (ringFrom sz f (wrapIdx sz (p + s)) (sz - s))
  rw [length_ringFrom] at hrot
  rw [h₁, h₂, hrot]

/-- A window read in full is kept whole by keeping its newest `txbsz` bytes. -/
theorem rtake_bufHist (lp : Line) : (bufHist lp).rtake lp.txbsz = bufHist lp := by
  rw [List.rtake, length_bufHist, Nat.sub_self, List.drop_zero]

/-- A queue one byte short of the buffer, from just past the insertion pointer, is the window
without its oldest byte. -/
theorem txRing_eq_tail_bufHist {lp : Line} (h : RingOk lp)
    (hfull : lp.txbpr = wrapIdx lp.txbsz (lp.txbpi + 1)) : txRing lp = (bufHist lp).tail := by
  obtain ⟨hs, -, -, hi0, his⟩ := h
  have hq : tmxrTqln lp = (lp.txbsz - 1 : Nat) := tmxrTqln_eq_of_wrap (by omega) (by omega) (by
    rw [hfull, wrapIdx_wrapIdx_add (by omega) (by omega), wrapIdx, if_neg (by omega)]
    omega)
  have hsplit := @ringFrom_add_round lp.txbsz lp.txb lp.txbpi 1 (lp.txbsz - 1) (by omega)
  rw [Nat.add_sub_cancel' hs] at hsplit
  rw [txRing, hq, Int.toNat_ofNat, hfull, bufHist, hsplit]
  rfl

/-! ## Storing a byte -/

section Store

variable {lp : Line}

/-- `TXBUF_CHAR` writes at the insertion pointer and moves it on by one. -/
theorem txbufChar_buf (lp : Line) (ch : UInt8) :
    (txbufChar lp ch).txb = Function.update lp.txb lp.txbpi ch ∧
      (txbufChar lp ch).txbpi = Int.tmod (lp.txbpi + 1) lp.txbsz := by
  unfold txbufChar
  dsimp only
  split_ifs <;> exact ⟨rfl, rfl⟩

/-- `TXBUF_CHAR` moves the window on: its oldest byte is overwritten by the new one, whether
the queue was full or not. -/
theorem bufHist_txbufChar (h : RingOk lp) (ch : UInt8) :
    bufHist (txbufChar lp ch) = (bufHist lp ++ [ch]).rtake lp.txbsz := by
  obtain ⟨hs, -, -, hi0, his⟩ := h
  obtain ⟨hb, hpi⟩ := txbufChar_buf lp ch
  have hend : wrapIdx lp.txbsz (wrapIdx lp.txbsz (lp.txbpi + 1) + (lp.txbsz - 1 : Nat)) =
      lp.txbpi := by
    rw [Int.ofNat_sub hs]
    unfold wrapIdx
    split_ifs <;> omega
  have hpush := ringFrom_update_push lp.txb ch (wrapIdx lp.txbsz (lp.txbpi + 1))
    (show lp.txbsz - 1 < lp.txbsz by omega)
  have hsplit := @ringFrom_add_round lp.txbsz lp.txb lp.txbpi 1 (lp.txbsz - 1) (by omega)
  rw [Nat.sub_add_cancel hs, hend] at hpush
  rw [Nat.add_sub_cancel' hs, Int.ofNat_one] at hsplit
  unfold bufHist
  rw [(txbufChar_txFrame lp ch).txbsz, hb, hpi, tmod_succ_of_lt hi0 his, hpush, hsplit,
    List.append_assoc, List.rtake, List.length_append, List.length_append, length_ringFrom,
    length_ringFrom, List.length_singleton, show 1 + (lp.txbsz - 1 + 1) - lp.txbsz = 1 by omega,
    List.drop_left' (length_ringFrom ..)]

theorem bufHist_txbufStuff (h : RingOk lp) (chr : UInt8) :
    bufHist (txbufStuff lp chr) = (bufHist lp ++ stuff chr).rtake lp.txbsz := by
  unfold txbufStuff stuff
  split_ifs with hc
  · rw [bufHist_txbufChar (txbufChar_ringOk h _), bufHist_txbufChar h,
      (txbufChar_txFrame lp _).txbsz, rtake_append_rtake, List.append_assoc, hc]
    rfl
  · exact bufHist_txbufChar h chr

/-- A put on a buffered line, connected or not, moves the window on by the stuffed character. -/
theorem bufHist_tmxrPutcLn (c : Consts) (hb : lp.txbfd = true) (h : RingOk lp) (chr : UInt8) :
    bufHist (tmxrPutcLn c lp chr).1 = (bufHist lp ++ stuff chr).rtake lp.txbsz := by
  rw [tmxrPutcLn_of_buffered c hb]
  exact bufHist_txbufStuff h chr

theorem bufHist_tmxrLinemsg (c : Consts) (hb : lp.txbfd = true) (h : RingOk lp)
    (msg : List UInt8) :
    bufHist (tmxrLinemsg c lp msg) = (bufHist lp ++ msg.flatMap stuff).rtake lp.txbsz := by
  induction msg generalizing lp with
  | nil =>
    rw [List.flatMap_nil, List.append_nil, rtake_bufHist]
    rfl
  | cons ch msg ih =>
    have hfr := tmxrPutcLn_txFrame c lp ch
    show bufHist (tmxrLinemsg c (tmxrPutcLn c lp ch).1 msg) = _
    rw [ih (hfr.txbfd ▸ hb) (tmxrPutcLn_ringOk c h ch), hfr.txbsz, bufHist_tmxrPutcLn c hb h,
      rtake_append_rtake, List.flatMap_cons, List.append_assoc]

end Store

/-! ## Calls that leave the buffer -/

/-- `lp'` has the transmit buffer of `lp`: its size, its bytes and its insertion pointer. -/
structure BufKept (lp lp' : Line) : Prop where
  txbsz : lp'.txbsz = lp.txbsz
  txb : lp'.txb = lp.txb
  txbpi : lp'.txbpi = lp.txbpi

section Kept

variable {lp lp' lp'' : Line}

theorem BufKept.refl (lp : Line) : BufKept lp lp :=
  ⟨rfl, rfl, rfl⟩

theorem BufKept.trans (h₁ : BufKept lp lp') (h₂ : BufKept lp' lp'') : BufKept lp lp'' :=
  ⟨h₂.txbsz.trans h₁.txbsz, h₂.txb.trans h₁.txb, h₂.txbpi.trans h₁.txbpi⟩

theorem BufKept.bufHist_eq (h : BufKept lp lp') : bufHist lp' = bufHist lp := by
  unfold bufHist
  rw [h.txbsz, h.txb, h.txbpi]

theorem RxFrame.bufKept (h : RxFrame lp lp') : BufKept lp lp' := by
  rw [h]
  exact ⟨rfl, rfl, rfl⟩

/-- A send moves only the removal pointer. -/
theorem tmxrSendBufferedData_bufKept (h : RingOk lp) (w₁ w₂ : SockWrite) :
    BufKept lp (tmxrSendBufferedData lp w₁ w₂).1 := by
  obtain ⟨p, e⟩ := (tmxrSendBufferedData_spec h w₁ w₂).frame
  rw [e]
  exact ⟨rfl, rfl, rfl⟩

theorem pollTxLn_bufKept (h : RingOk lp) (w : SockWrite × SockWrite) :
    BufKept lp (pollTxLn lp w).1 := by
  have hk := tmxrSendBufferedData_bufKept h w.1 w.2
  unfold pollTxLn
  split_ifs
  · exact .refl lp
  · dsimp only
    split_ifs <;> exact ⟨hk.txbsz, hk.txb, hk.txbpi⟩

/-- A reset keeps a buffered line's pointers. -/
theorem tmxrResetLn_bufKept (hb : lp.txbfd = true) (h : RingOk lp) (w : SockWrite × SockWrite) :
    BufKept lp (tmxrResetLn lp w) := by
  have hk := tmxrSendBufferedData_bufKept h w.1 w.2
  have hb' := (tmxrSendBufferedData_txFrame lp w.1 w.2).txbfd.trans hb
  unfold tmxrResetLn
  simp only [hb', if_true]
  exact ⟨hk.txbsz, hk.txb, hk.txbpi⟩

theorem rxRewind_bufKept (lp : Line) : BufKept lp (rxRewind lp) := by
  unfold rxRewind
  split_ifs <;> exact ⟨rfl, rfl, rfl⟩

theorem tmxrGetcLn_bufKept (c : Consts) (lp : Line) : BufKept lp (tmxrGetcLn c lp).1 := by
  unfold tmxrGetcLn
  split_ifs
  · exact (⟨rfl, rfl, rfl⟩ : BufKept lp { lp with rxbpr := lp.rxbpr + 1 }).trans
      (rxRewind_bufKept _)
  · exact rxRewind_bufKept lp

theorem pollRxLn_bufKept (c : Consts) (hb : lp.txbfd = true) (h : RingOk lp) (rd : SockRead)
    (w : SockWrite × SockWrite) (dbg : Bool) : BufKept lp (pollRxLn c lp rd w dbg).1 := by
  unfold pollRxLn
  split_ifs
  · exact .refl lp
  rcases rxReadLen c lp with _ | n
  · exact .refl lp
  cases rd with
  | closed => exact tmxrResetLn_bufKept hb h w
  | data bs =>
    dsimp only
    split_ifs
    · exact .refl lp
    all_goals
      exact (⟨rfl, rfl, rfl⟩ : BufKept lp (rxAppend lp (bs.take n))).trans
        (filterLoop_frame _ _).bufKept

end Kept

/-! ## Runs between connections -/

/-- The calls that store in a line's buffer nothing but the characters the simulator puts:
all but opening and closing the master socket, accepting a connection and `tmxr_dscln`, which
store messages of their own. -/
def MuxOp.quiet : MuxOp → Bool
  | .setRcve .. | .putc .. | .pollTx _ | .pollRx _ | .getc _ | .resetLn .. => true
  | _ => false

/-- The bytes a call stores in line `k`'s buffer: a put's character, an IAC doubled. -/
def MuxOp.stored (k : Nat) : MuxOp → List UInt8
  | .putc i chr => if i = k then stuff chr else []
  | _ => []

/-- Keeping the newest `n` bytes and then the newest `m ≤ n` of those is keeping the newest
`m`. -/
theorem rtake_rtake_of_le {α : Type} (l : List α) {m n : Nat} (h : m ≤ n) :
    (l.rtake n).rtake m = l.rtake m := by
  simp only [List.rtake, List.length_drop, List.drop_drop]
  congr 1
  omega

section Run

variable {c : Consts} {g : Nat} {mp : Tmxr} {k : Nat}

/-- A line of a buffered multiplexer in the invariant, with greetings that fit its buffer. -/
theorem MuxInv.buffered_line (h : MuxInv c g mp) (hgb : g ≤ mp.buffered) (hb : mp.buffered ≠ 0)
    (hk : k < mp.lines) :
    (mp.ldsc k).txbfd = true ∧ (mp.ldsc k).txbsz = mp.buffered ∧ RingOk (mp.ldsc k) := by
  have hl := h.line k hk
  have hsz := hl.bsize hb
  exact ⟨hl.bufd.2 hb, hsz, hl.ring (by rw [hsz]; exact hb) (by rw [hsz]; exact hgb)⟩

theorem Tmxr.setLine_bufKept (mp : Tmxr) {i : Nat} {lp : Line}
    (h : k = i → BufKept (mp.ldsc k) lp) : BufKept (mp.ldsc k) ((mp.setLine i lp).ldsc k) := by
  by_cases hi : k = i
  · subst hi
    rw [Tmxr.setLine_ldsc_self]
    exact h rfl
  · rw [Tmxr.setLine_ldsc_of_ne _ _ hi]
    exact .refl _

/-- A quiet call keeps the buffering and the lines, and asks nothing of the environment. -/
theorem muxStep_quiet {op : MuxOp} (hq : op.quiet = true) :
    (muxStep c mp op).buffered = mp.buffered ∧ (muxStep c mp op).lines = mp.lines ∧
      op.Valid mp := by
  cases op <;> first | exact ⟨rfl, rfl, trivial⟩ | cases hq

/-- A run of quiet calls keeps the invariant, the buffering and the lines. -/
theorem muxRun_quiet (h : MuxInv c g mp) (ops : List MuxOp) (hq : ∀ op ∈ ops, op.quiet = true) :
    MuxInv c g (muxRun c mp ops) ∧ (muxRun c mp ops).buffered = mp.buffered ∧
      (muxRun c mp ops).lines = mp.lines := by
  induction ops generalizing mp with
  | nil => exact ⟨h, rfl, rfl⟩
  | cons op ops ih =>
    obtain ⟨hbuf, hlines, hv⟩ := @muxStep_quiet c mp op (hq op (List.mem_cons_self op ops))
    obtain ⟨ih₁, ih₂, ih₃⟩ :=
      ih (muxStep_muxInv h op hv) fun o ho ↦ hq o (List.mem_cons_of_mem op ho)
    exact ⟨ih₁, ih₂.trans hbuf, ih₃.trans hlines⟩

/-- What one quiet call does to the window of a line of a buffered multiplexer. -/
theorem muxStep_bufHist (h : MuxInv c g mp) (hgb : g ≤ mp.buffered) (hb : mp.buffered ≠ 0)
    (hk : k < mp.lines) (op : MuxOp) (hq : op.quiet = true) :
    bufHist ((muxStep c mp op).ldsc k) =
      (bufHist (mp.ldsc k) ++ op.stored k).rtake mp.buffered := by
  obtain ⟨hbfd, hsz, hr⟩ := h.buffered_line hgb hb hk
  have kept (h' : BufKept (mp.ldsc k) ((muxStep c mp op).ldsc k)) (hs : op.stored k = []) :
      bufHist ((muxStep c mp op).ldsc k) =
        (bufHist (mp.ldsc k) ++ op.stored k).rtake mp.buffered := by
    rw [hs, List.append_nil, ← hsz, rtake_bufHist, h'.bufHist_eq]
  cases op with
  | putc i chr =>
    by_cases hi : i = k
    · subst hi
      show bufHist ((mp.setLine i _).ldsc i) = (_ ++ if i = i then stuff chr else []).rtake _
      rw [Tmxr.setLine_ldsc_self, if_pos rfl, bufHist_tmxrPutcLn c hbfd hr, hsz]
    · exact kept (mp.setLine_bufKept fun e ↦ absurd e.symm hi) (if_neg hi)
  | setRcve i b =>
    exact kept (mp.setLine_bufKept fun e ↦ by subst e; exact ⟨rfl, rfl, rfl⟩) rfl
  | pollTx w =>
    refine kept ?_ rfl
    show BufKept _ ((tmxrPollTx mp w).1.ldsc k)
    rw [tmxrPollTx_ldsc, if_pos hk]
    exact pollTxLn_bufKept hr (w k)
  | pollRx env =>
    refine kept ?_ rfl
    show BufKept _ (if k < mp.lines then _ else _)
    rw [if_pos hk]
    exact (pollRxLn_bufKept c hbfd hr _ _ _).trans (rxRewind_bufKept _)
  | getc i => exact kept (mp.setLine_bufKept fun e ↦ by subst e; exact tmxrGetcLn_bufKept c _) rfl
  | resetLn i w =>
    exact kept (mp.setLine_bufKept fun e ↦ by subst e; exact tmxrResetLn_bufKept hbfd hr w) rfl
  | _ => cases hq

/-- Along a run of quiet calls, the window of a line of a buffered multiplexer is the newest
bytes of its window at the start followed by everything the run stored in it. -/
theorem muxRun_bufHist (h : MuxInv c g mp) (hgb : g ≤ mp.buffered) (hb : mp.buffered ≠ 0)
    (hk : k < mp.lines) (ops : List MuxOp) (hq : ∀ op ∈ ops, op.quiet = true) :
    bufHist ((muxRun c mp ops).ldsc k) =
      (bufHist (mp.ldsc k) ++ ops.flatMap (MuxOp.stored k)).rtake mp.buffered := by
  induction ops generalizing mp with
  | nil =>
    rw [List.flatMap_nil, List.append_nil, ← (h.buffered_line hgb hb hk).2.1, rtake_bufHist]
    rfl
  | cons op ops ih =>
    have hq₀ := hq op (List.mem_cons_self op ops)
    obtain ⟨hbuf, hlines, hv⟩ := @muxStep_quiet c mp op hq₀
    have ih' := ih (muxStep_muxInv h op hv) (by rw [hbuf]; exact hgb) (by rw [hbuf]; exact hb)
      (by rw [hlines]; exact hk) fun o ho ↦ hq o (List.mem_cons_of_mem op ho)
    show bufHist ((muxRun c (muxStep c mp op) ops).ldsc k) = _
    rw [ih', muxStep_bufHist h hgb hb hk op hq₀, hbuf, rtake_append_rtake, List.flatMap_cons,
      List.append_assoc]

end Run

/-! ## The greeting in front of the window -/

/-- A message with no IAC is stored as it is. -/
theorem flatMap_stuff_of_not_mem {msg : List UInt8} (h : tnIac ∉ msg) :
    msg.flatMap stuff = msg := by
  induction msg with
  | nil => rfl
  | cons ch msg ih =>
    rw [List.flatMap_cons, stuff,
      if_neg (fun e : ch = tnIac ↦ h (e ▸ List.mem_cons_self ch msg)),
      ih (fun e ↦ h (List.mem_cons_of_mem ch e))]
    rfl

/-- The list algebra of the insertion: a window `R` which, rotated by `|G| + 1`, is the window
`H` advanced by one with `G` written over its oldest bytes, is a byte, then `G`, then the
newest `|H| - 1 - |G|` bytes of `H`. -/
theorem tail_eq_of_rotate {α : Type} {R H G : List α} (hm : G.length < H.length)
    (h : R.rotate (G.length + 1) = (H.rotate 1 ++ G).rtake H.length) :
    R.tail = G ++ H.rtake (H.length - 1 - G.length) := by
  obtain ⟨h0, T, rfl⟩ : ∃ h0 T, H = h0 :: T := by
    cases H with
    | nil => exact absurd hm (Nat.not_lt_zero _)
    | cons h0 T => exact ⟨h0, T, rfl⟩
  rw [List.length_cons] at hm h
  have hwin : ((h0 :: T).rotate 1 ++ G).rtake (T.length + 1) = T.drop G.length ++ h0 :: G := by
    rw [List.rotate_cons_succ, List.rotate_zero, List.rtake, List.length_append, List.length_append,
      List.length_singleton, show T.length + 1 + G.length - (T.length + 1) = G.length by omega,
      List.append_assoc, List.drop_append_of_le_length (by omega)]
    rfl
  have hR : R = (h0 :: G) ++ T.drop G.length := by
    refine List.rotate_eq_rotate.1 (h.trans ?_)
    rw [hwin, ← List.length_cons h0 G, List.rotate_append_length_eq]
  rw [hR, List.length_cons, List.rtake, List.length_cons,
    show T.length + 1 - (T.length + 1 - 1 - G.length) = G.length + 1 by omega]
  rfl

section Connect

variable {c : Consts}

/-- On a buffered line that has sent more than its buffer size, `tmxr_poll_conn` stores the
greeting `G` from just past the insertion pointer and puts the pointer back: the queue is the
greeting followed by the newest `txbsz - 1 - |G|` bytes of the window. -/
theorem connLine_replay {b : Nat} (hb : b ≠ 0) (lp : Line) (sock : Nat) {G : List UInt8}
    (hbfd : lp.txbfd = true) (hr : RingOk lp) (hcnt : lp.txbsz < lp.txcnt)
    (hiac : tnIac ∉ G) (hG : G.length < lp.txbsz) :
    RingOk (connLine c b lp sock G) ∧
      txRing (connLine c b lp sock G) = G ++ (bufHist lp).rtake (lp.txbsz - 1 - G.length) := by
  obtain ⟨hsz, -, -, hi0, his⟩ := hr
  rw [connLine_buffered c lp sock G hb, if_pos hcnt, tmod_succ_of_lt hi0 his]
  generalize hL₀ : ({ lp with
    conn := sock
    txbpi := wrapIdx lp.txbsz (lp.txbpi + 1)
    txbpr := wrapIdx lp.txbsz (lp.txbpi + 1)
    tsta := .norm
    xmte := true
    dstb := false } : Line) = L₀
  have hq :=
    wrapIdx_mem (show 0 ≤ lp.txbpi + 1 by omega) (show lp.txbpi + 1 ≤ lp.txbsz by omega) hsz
  have hsz₀ : L₀.txbsz = lp.txbsz := by rw [← hL₀]
  have hpr₀ : L₀.txbpr = wrapIdx lp.txbsz (lp.txbpi + 1) := by rw [← hL₀]
  have hbfd₀ : L₀.txbfd = true := by rw [← hL₀]; exact hbfd
  have hr₀ : RingOk L₀ := by rw [← hL₀]; exact ⟨hsz, hq.1, hq.2, hq.1, hq.2⟩
  have hH₀ : bufHist L₀ = (bufHist lp).rotate 1 := by
    rw [← hL₀]
    exact ringFrom_rotate lp.txb hi0 his (show 1 ≤ lp.txbsz by omega)
  obtain ⟨hpr, hring⟩ :=
    tmxrLinemsg_of_empty c (.inl hbfd₀) hr₀ (by rw [← hL₀]) hiac (by omega)
  have hH := bufHist_tmxrLinemsg c hbfd₀ hr₀ G
  rw [flatMap_stuff_of_not_mem hiac, hH₀, hsz₀] at hH
  have hr₁ := tmxrLinemsg_ringOk c hr₀ G
  have hsz₁ := (tmxrLinemsg_txFrame c L₀ G).txbsz
  generalize tmxrLinemsg c L₀ G = L at hpr hring hH hr₁ hsz₁
  obtain ⟨hq0, -, hpi⟩ := tmxrTqln_ringOk hr₁
  have hm : tmxrTqln L = G.length := by
    have := length_txRing L
    rw [hring] at this
    omega
  rw [hm, hpr, hpr₀, hsz₁, hsz₀] at hpi
  rw [wrapIdx_wrapIdx_add (Int.ofNat_nonneg _) (by omega), Int.add_assoc,
    show (1 : Int) + G.length = ((G.length + 1 : Nat) : Int) by omega] at hpi
  have hr' : RingOk { L with txbpi := lp.txbpi } :=
    ringOk_setTxbpi hr₁ hi0 (by rw [hsz₁, hsz₀]; exact his)
  refine ⟨hr', ?_⟩
  rw [txRing_eq_tail_bufHist hr'
    (by show L.txbpr = wrapIdx L.txbsz _; rw [hpr, hpr₀, hsz₁, hsz₀])]
  have hrot : (bufHist { L with txbpi := lp.txbpi }).rotate (G.length + 1) =
      ((bufHist lp).rotate 1 ++ G).rtake (bufHist lp).length := by
    rw [length_bufHist, ← hH]
    show (ringFrom L.txbsz L.txb lp.txbpi L.txbsz).rotate (G.length + 1) =
      ringFrom L.txbsz L.txb L.txbpi L.txbsz
    rw [hpi, hsz₁, hsz₀, ← ringFrom_rotate L.txb hi0 his (by omega)]
  have key := tail_eq_of_rotate (by rw [length_bufHist]; exact hG) hrot
  rwa [length_bufHist] at key

end Connect

/-! ## What the client is sent -/

section Replay

variable {c : Consts}

/-- From every reachable state of a buffered multiplexer whose greetings are shorter than its
buffers, along any run of calls that store no message of their own: when `tmxr_poll_conn`
then connects a client to a line that has sent more than its buffer size, the bytes the flush
sent the client followed by what stays queued for it are its greeting and then the newest
`n - 1 - |G|` bytes of the line's buffer at the start followed by every character the run put
on the line, IAC doubled. -/
theorem reachable_buffered_replay {n : Nat} {ord : Option (List Int)} {dn : Option (List UInt8)}
    {g : Nat} {s : LogSys} (hg : GreetingOk c (Tmxr.init n ord dn) g)
    (hs : Reachable c (LogSys.init (Tmxr.init n ord dn)) s) (hgb : g < s.mp.buffered)
    (ops : List MuxOp) (hq : ∀ op ∈ ops, op.quiet = true) {sock : Nat}
    (w : Nat → SockWrite × SockWrite) {k : Nat}
    (hk : (tmxrPollConn c (muxRun c s.mp ops) (some sock) w).2.1 = k)
    (hsent : s.mp.buffered < ((muxRun c s.mp ops).ldsc k).txcnt) :
    ((tmxrPollConn c (muxRun c s.mp ops) (some sock) w).1.ldsc k).conn = sock ∧
      (tmxrPollConn c (muxRun c s.mp ops) (some sock) w).2.2 k ++
          txRing ((tmxrPollConn c (muxRun c s.mp ops) (some sock) w).1.ldsc k) =
        connMsg c (muxRun c s.mp ops) k ++
          (bufHist (s.mp.ldsc k) ++ ops.flatMap (MuxOp.stored k)).rtake
            (s.mp.buffered - 1 - (connMsg c (muxRun c s.mp ops) k).length) := by
  have h := hs.muxInv (muxInv_init hg)
  obtain ⟨h', hbuf, hlines⟩ := muxRun_quiet h ops hq
  obtain ⟨hidx, hlt⟩ := tmxrPollConn_found hk
  have hH := muxRun_bufHist h (by omega) (by omega) (hlines ▸ hlt) ops hq
  obtain ⟨hbfd, hsz, hr⟩ := h'.buffered_line (by omega) (by omega) hlt
  obtain ⟨hiac, hlen⟩ := h'.greet.2 k hlt
  rw [hbuf] at hsz
  obtain ⟨hr', hring⟩ := connLine_replay (c := c) (b := s.mp.buffered) (by omega)
    ((muxRun c s.mp ops).ldsc k) sock hbfd hr (by rw [hsz]; exact_mod_cast hsent) hiac (by omega)
  refine ⟨(tmxrPollConn_ldsc_self _ c sock w hidx hlt).conn, ?_⟩
  rw [tmxrPollConn_sent_found _ c sock w hidx hlt, tmxrPollConn_ldsc_found _ c sock w hidx hlt,
    txRing_setTxcnt, hbuf, (pollTxLn_spec hr' (w k)).2.1, hring, hH, hsz,
    rtake_rtake_of_le _ (by omega)]

end Replay

/-- Every socket takes all it is offered. -/
def takesAll : Nat → SockWrite × SockWrite :=
  fun _ ↦ (.sent 256, .sent 256)

/-- One line with `BUFFERED=42` and the port open, with a client connected on socket 5. -/
def bufferedConnected : LogSys :=
  sysStep sampleConsts (sysStep sampleConsts (sysStep sampleConsts
    (LogSys.init (Tmxr.init 1 none none)) (.mux (.openMaster (.buffered (some 42)) none)))
    (.mux (.openMaster (.port 23) (some 3)))) (.mux (.pollConn (some 5) takesAll))

/-- Forty-four bytes sent in two flushes (twenty-two IACs, each doubled), the client gone, and
then `A` and `B` put while nobody is connected. -/
def replayRun : List MuxOp :=
  List.replicate 18 (.putc 0 tnIac) ++ [.pollTx takesAll] ++ List.replicate 4 (.putc 0 tnIac) ++
    [.pollTx takesAll, .resetLn 0 (takesAll 0), .putc 0 0x41, .putc 0 0x42]

set_option maxRecDepth 8000 in
theorem bufferedConnected_replay :
    GreetingOk sampleConsts (Tmxr.init 1 none none) 37 ∧
      Reachable sampleConsts (LogSys.init (Tmxr.init 1 none none)) bufferedConnected ∧
      37 < bufferedConnected.mp.buffered ∧ (∀ op ∈ replayRun, op.quiet = true) ∧
      (tmxrPollConn sampleConsts (muxRun sampleConsts bufferedConnected.mp replayRun) (some 6)
        takesAll).2.1 = ((0 : Nat) : Int) ∧
      bufferedConnected.mp.buffered <
        ((muxRun sampleConsts bufferedConnected.mp replayRun).ldsc 0).txcnt ∧
      (((tmxrPollConn sampleConsts (muxRun sampleConsts bufferedConnected.mp replayRun) (some 6)
          takesAll).1.ldsc 0).conn = 6 ∧
        (tmxrPollConn sampleConsts (muxRun sampleConsts bufferedConnected.mp replayRun) (some 6)
              takesAll).2.2 0 ++
            txRing ((tmxrPollConn sampleConsts
              (muxRun sampleConsts bufferedConnected.mp replayRun) (some 6) takesAll).1.ldsc 0) =
          connMsg sampleConsts (muxRun sampleConsts bufferedConnected.mp replayRun) 0 ++
            (bufHist (bufferedConnected.mp.ldsc 0) ++ replayRun.flatMap (MuxOp.stored 0)).rtake
              (bufferedConnected.mp.buffered - 1 - (connMsg sampleConsts
                (muxRun sampleConsts bufferedConnected.mp replayRun) 0).length)) :=
  have hg : GreetingOk sampleConsts (Tmxr.init 1 none none) 37 := by decide
  have hs : Reachable sampleConsts (LogSys.init (Tmxr.init 1 none none)) bufferedConnected :=
    .step (.step (.step .init trivial) trivial) ⟨by decide, by decide⟩
  have hk : (tmxrPollConn sampleConsts (muxRun sampleConsts bufferedConnected.mp replayRun)
      (some 6) takesAll).2.1 = ((0 : Nat) : Int) := by decide
  have hsent : bufferedConnected.mp.buffered <
      ((muxRun sampleConsts bufferedConnected.mp replayRun).ldsc 0).txcnt := by decide
  ⟨hg, hs, by decide, by decide, hk, hsent,
    reachable_buffered_replay hg hs (by decide) replayRun (by decide) takesAll hk hsent⟩

set_option maxRecDepth 8000 in
/-- A client on a socket that takes nothing yet finds its greeting queued, and then the newest
four bytes put on the line: the last IAC, doubled, and `A` and `B`. -/
example :
    txRing ((tmxrPollConn sampleConsts (muxRun sampleConsts bufferedConnected.mp replayRun) (some 6)
        fun _ ↦ (.error, .error)).1.ldsc 0) =
      connMsg sampleConsts bufferedConnected.mp 0 ++ [tnIac, tnIac, 0x41, 0x42] := by
  decide

end TelnetMux
