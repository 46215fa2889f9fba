import TelnetMux.Console

/-!
# The drop count

`txdrp` counts the characters a line has lost: a put that finds neither a connection nor a
buffer nor a log, a put that finds no room, and a byte that a full buffered queue pushes out.
No call of the library lowers it but two, which set it to 0: opening the port initialises every
line, and accepting a connection on an unbuffered multiplexer clears the counters of the line
it connects. So over any run of calls, a line's count can be below where it started only if
one of these two resets happened in the run.
-/

namespace TelnetMux

/-! ## One line -/

section Line

variable {c : Consts} {lp : Line}

theorem txbufChar_txdrp_le (lp : Line) (ch : UInt8) : lp.txdrp ≤ (txbufChar lp ch).txdrp := by
  unfold txbufChar
  dsimp only
  split_ifs
  · exact Nat.le_succ _
  · exact Nat.le_refl _

theorem tmxrPutcLn_txdrp_le (lp : Line) (chr : UInt8) :
    lp.txdrp ≤ (tmxrPutcLn c lp chr).1.txdrp := by
  have hstuff : lp.txdrp ≤ (txbufStuff lp chr).txdrp := by
    unfold txbufStuff
    split_ifs
    · exact (txbufChar_txdrp_le lp _).trans (txbufChar_txdrp_le _ _)
    · exact txbufChar_txdrp_le lp _
  unfold tmxrPutcLn
  dsimp only
  split_ifs <;> first | exact Nat.le_refl _ | exact Nat.le_succ _ | exact hstuff

theorem tmxrLinemsg_txdrp_le (lp : Line) (msg : List UInt8) :
    lp.txdrp ≤ (tmxrLinemsg c lp msg).txdrp := by
  induction msg generalizing lp with
  | nil => exact Nat.le_refl _
  | cons ch msg ih => exact (tmxrPutcLn_txdrp_le lp ch).trans (ih _)

theorem tmxrResetLn_txdrp (lp : Line) (w : SockWrite × SockWrite) :
    (tmxrResetLn lp w).txdrp = lp.txdrp := by
  unfold tmxrResetLn
  dsimp only
  split_ifs <;> exact tmxrSendBufferedData_txdrp lp w.1 w.2

theorem rxRewind_txdrp (lp : Line) : (rxRewind lp).txdrp = lp.txdrp := by
  unfold rxRewind
  split_ifs <;> rfl

theorem pollRxLn_txdrp (lp : Line) (rd : SockRead) (w : SockWrite × SockWrite) (dbg : Bool) :
    (pollRxLn c lp rd w dbg).1.txdrp = lp.txdrp := by
  unfold pollRxLn
  split_ifs
  · rfl
  rcases rxReadLen c lp with _ | n
  · rfl
  cases rd with
  | closed => exact tmxrResetLn_txdrp lp w
  | data bs =>
    dsimp only
    split_ifs
    · rfl
    all_goals
      exact (congrArg Line.txdrp (filterLoop_frame (rxAppend lp (bs.take n)) lp.rxbpi)).trans rfl

end Line

/-! ## The calls of the library -/

/-- The calls that reset line `i`'s drop count to 0: opening the port, and accepting a
connection on line `i` while the multiplexer is unbuffered. -/
def MuxOp.ResetsDrops (c : Consts) (mp : Tmxr) (i : Nat) : MuxOp → Prop
  | .openMaster (.port port) (some _) => port ≠ 0 ∧ port ≤ 65535
  | .pollConn (some sock) w => mp.buffered = 0 ∧ (tmxrPollConn c mp (some sock) w).2.1 = i
  | _ => False

section Step

variable {c : Consts}

theorem setLine_txdrp_le (mp : Tmxr) {i k : Nat} {lp : Line}
    (h : k = i → (mp.ldsc k).txdrp ≤ lp.txdrp) :
    (mp.ldsc k).txdrp ≤ ((mp.setLine i lp).ldsc k).txdrp := by
  by_cases hk : k = i
  · subst hk
    rw [Tmxr.setLine_ldsc_self]
    exact h rfl
  · rw [Tmxr.setLine_ldsc_of_ne _ _ hk]

theorem connLine_txdrp_le {b : Nat} (hb : b ≠ 0) (lp : Line) (sock : Nat) (msg : List UInt8) :
    lp.txdrp ≤ (connLine c b lp sock msg).txdrp := by
  rw [connLine_buffered c lp sock msg hb]
  exact (tmxrLinemsg_txdrp_le _ msg).trans' (Nat.le_refl _)

/-- `tmxr_poll_conn` lowers no drop count, but the one of the line it connects on an
unbuffered multiplexer. -/
theorem tmxrPollConn_txdrp (mp : Tmxr) (sock : Nat) (w : Nat → SockWrite × SockWrite) (i : Nat) :
    (mp.ldsc i).txdrp ≤ ((tmxrPollConn c mp (some sock) w).1.ldsc i).txdrp ∨
      mp.buffered = 0 ∧ (tmxrPollConn c mp (some sock) w).2.1 = i := by
  unfold tmxrPollConn
  dsimp only
  split_ifs with hl
  · exact .inl (Nat.le_refl _)
  by_cases hi : i = (connLineIdx mp).toNat
  · by_cases hb : mp.buffered = 0
    · exact .inr ⟨hb, by rw [hi]; exact (Int.toNat_of_nonneg (connLineIdx_nonneg mp)).symm⟩
    refine .inl ?_
    rw [hi, Tmxr.setLine_ldsc_self]
    show _ ≤ ((tmxrPollTx _ w).1.ldsc _).txdrp
    rw [tmxrPollTx_txdrp, Tmxr.setLine_ldsc_self]
    exact connLine_txdrp_le hb _ sock _
  · refine .inl ?_
    rw [Tmxr.setLine_ldsc_of_ne _ _ hi, tmxrPollTx_txdrp, Tmxr.setLine_ldsc_of_ne _ _ hi]

/-- No call lowers a line's drop count but the two resets. -/
theorem muxStep_txdrp (mp : Tmxr) (op : MuxOp) (i : Nat) :
    (mp.ldsc i).txdrp ≤ ((muxStep c mp op).ldsc i).txdrp ∨ op.ResetsDrops c mp i := by
  cases op with
  | openMaster cmd msock =>
    unfold muxStep tmxrOpenMaster
    cases cmd with
    | nobuffered =>
      dsimp only
      split_ifs <;> exact .inl (by simp [Tmxr.mapLines, apply_ite Line.txdrp])
    | buffered size =>
      dsimp only
      split_ifs <;> exact .inl (by simp [Tmxr.mapLines, apply_ite Line.txdrp])
    | port port =>
      by_cases h : port = 0 ∨ port > 65535
      · dsimp only
        rw [if_pos h]
        exact .inl (Nat.le_refl _)
      cases msock with
      | none =>
        dsimp only
        rw [if_neg h]
        exact .inl (Nat.le_refl _)
      | some sock => exact .inr (show port ≠ 0 ∧ port ≤ 65535 by omega)
  | closeMaster w =>
    refine .inl ?_
    unfold muxStep tmxrCloseMaster
    dsimp only
    split_ifs
    · exact (tmxrLinemsg_txdrp_le _ _).trans (tmxrResetLn_txdrp _ _).ge
    · exact Nat.le_refl _
    · exact Nat.le_refl _
  | pollConn acc w =>
    cases acc with
    | none => exact .inl (Nat.le_refl _)
    | some sock => exact tmxrPollConn_txdrp mp sock w i
  | setRcve j b => exact .inl (setLine_txdrp_le mp fun e ↦ by subst e; exact Nat.le_refl _)
  | putc j chr =>
    exact .inl (setLine_txdrp_le mp fun e ↦ by subst e; exact tmxrPutcLn_txdrp_le _ _)
  | pollTx w => exact .inl (tmxrPollTx_txdrp mp w i).ge
  | pollRx env =>
    refine .inl ?_
    by_cases hi : i < mp.lines
    · show _ ≤ ((tmxrPollRx c mp env).ldsc i).txdrp
      rw [tmxrPollRx_ldsc c mp env hi, rxRewind_txdrp, pollRxLn_txdrp]
    · exact (congrArg Line.txdrp (if_neg hi)).ge
  | getc j =>
    refine .inl (setLine_txdrp_le mp fun e ↦ ?_)
    subst e
    unfold tmxrGetcLn
    split_ifs <;> rw [rxRewind_txdrp]
  | resetLn j w =>
    exact .inl (setLine_txdrp_le mp fun e ↦ by subst e; exact (tmxrResetLn_txdrp _ _).ge)
  | dscln j w =>
    refine .inl ?_
    unfold muxStep tmxrDscln
    dsimp only
    split_ifs
    · exact setLine_txdrp_le mp fun e ↦ by
        subst e
        exact (tmxrLinemsg_txdrp_le _ _).trans (tmxrResetLn_txdrp _ _).ge
    all_goals exact Nat.le_refl _

end Step

/-! ## Runs -/

/-- Over every run of calls, a line whose drop count ends below where it started had it reset:
some call of the run opened the port, or accepted a connection on that line while the
multiplexer was unbuffered. -/
theorem muxRun_txdrp {c : Consts} (mp : Tmxr) (ops : List MuxOp) (i : Nat)
    (h : ((muxRun c mp ops).ldsc i).txdrp < (mp.ldsc i).txdrp) :
    ∃ pre op post, ops = pre ++ op :: post ∧ op.ResetsDrops c (muxRun c mp pre) i := by
  induction ops generalizing mp with
  | nil => exact absurd h (Nat.lt_irrefl _)
  | cons op ops ih =>
    rcases muxStep_txdrp mp op i with hle | hr
    · obtain ⟨pre, op', post, rfl, hr⟩ := ih (muxStep c mp op) (Nat.lt_of_lt_of_le h hle)
      exact ⟨op :: pre, op', post, rfl, hr⟩
    · exact ⟨[], op, ops, rfl, hr⟩

/-- One line, its port closed, on which a character was put and lost. -/
def lostOne : Tmxr :=
  muxRun sampleConsts (Tmxr.init 1 none none) [.putc 0 0x41]

theorem lostOne_reopened :
    ((muxRun sampleConsts lostOne [.openMaster (.port 23) (some 3)]).ldsc 0).txdrp <
        (lostOne.ldsc 0).txdrp ∧
      ∃ pre op post, [MuxOp.openMaster (.port 23) (some 3)] = pre ++ op :: post ∧
        op.ResetsDrops sampleConsts (muxRun sampleConsts lostOne pre) 0 :=
  have h : ((muxRun sampleConsts lostOne [.openMaster (.port 23) (some 3)]).ldsc 0).txdrp <
      (lostOne.ldsc 0).txdrp := by decide
  ⟨h, muxRun_txdrp lostOne _ 0 h⟩

end TelnetMux
