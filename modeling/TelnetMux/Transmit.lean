import Mathlib.Data.List.Basic
import TelnetMux.Basic

/-!
# The transmit side of a line

`tmxr_putc_ln` stores characters in the circular buffer `txb[0..txbsz)` between the removal
pointer `txbpr` and the insertion pointer `txbpi`, doubling an IAC; `tmxr_send_buffered_data`
hands the buffered bytes to the socket in at most two writes, the second for the part that
wrapped; `tmxr_poll_tx` does so for every connected line, re-enables a drained line and here
returns the bytes each socket took; `tmxr_reset_ln` drops the connection. The pointers are `int32` in the source and are `Int`
here, with C's truncating `%`, so that the states in which they leave `[0, txbsz)` are states
of the model.
-/

namespace TelnetMux

/-- `tmxr_tqln`: the number of bytes in the transmit buffer. -/
def tmxrTqln (lp : Line) : Int :=
  lp.txbpi - lp.txbpr + (if lp.txbpi < lp.txbpr then (lp.txbsz : Int) else 0)

/-- `TXBUF_AVAIL`: the buffer size less the bytes queued. -/
def txbufAvail (lp : Line) : Int :=
  lp.txbsz - tmxrTqln lp

/-- `TXBUF_CHAR`: store a byte at the insertion pointer and advance it; when it catches the
removal pointer, that one advances too, dropping the oldest byte, and `txdrp` counts it. -/
def txbufChar (lp : Line) (ch : UInt8) : Line :=
  let txb := Function.update lp.txb lp.txbpi ch
  let txbpi := Int.tmod (lp.txbpi + 1) lp.txbsz
  if txbpi = lp.txbpr then
    { lp with txb, txbpi, txbpr := Int.tmod (1 + lp.txbpr) lp.txbsz, txdrp := lp.txdrp + 1 }
  else { lp with txb, txbpi }

/-- The two `TXBUF_CHAR`s of `tmxr_putc_ln`: an IAC is stored twice. -/
def txbufStuff (lp : Line) (chr : UInt8) : Line :=
  txbufChar (if chr = tnIac then txbufChar lp tnIac else lp) chr

/-- `tmxr_putc_ln`. Writing the character to the line's log, when there is one, is not
modelled beyond the test of `txlog`. -/
def tmxrPutcLn (c : Consts) (lp : Line) (chr : UInt8) : Line × Scpe :=
  if lp.conn = 0 ∧ lp.txbfd = false then
    if lp.txlog.isSome then (lp, .ok) else ({ lp with txdrp := lp.txdrp + 1 }, .lost)
  else if lp.txbfd = true ∨ 1 < txbufAvail lp then
    let lp := txbufStuff lp chr
    if lp.txbfd = false ∧ txbufAvail lp ≤ c.guard then ({ lp with xmte := false }, .ok)
    else (lp, .ok)
  else ({ lp with txdrp := lp.txdrp + 1, xmte := false }, .stall)

/-- `tmxr_linemsg`: put every character of a message, ignoring the statuses. -/
def tmxrLinemsg (c : Consts) (lp : Line) (msg : List UInt8) : Line :=
  msg.foldl (fun lp ch ↦ (tmxrPutcLn c lp ch).1) lp

/-! ## Sending -/

/-- What `sim_write_sock` returns: `SOCKET_ERROR`, or the number of bytes the socket took. -/
inductive SockWrite
  | error
  | sent (k : Nat)
  deriving DecidableEq, Repr

/-- The bytes a socket offered `n` bytes takes: none on an error, else a prefix. -/
def SockWrite.taken : SockWrite → Nat → Option Nat
  | .error, _ => none
  | .sent k, n => some (min k n)

/-- The `n` bytes of `txb` from index `p`, as `sim_write_sock` reads them. -/
def txbSlice (txb : Int → UInt8) (p : Int) (n : Nat) : List UInt8 :=
  (List.range n).map fun (k : Nat) ↦ txb (p + k)

/-- After `sbytes` were sent: advance the removal pointer, wrapping at the end of the
buffer, and count them. -/
def txSent (lp : Line) (sbytes : Nat) : Line :=
  let txbpr := lp.txbpr + sbytes
  { lp with txbpr := if txbpr ≥ lp.txbsz then 0 else txbpr, txcnt := lp.txcnt + sbytes }

/-- The second write of `tmxr_send_buffered_data`, made when bytes remain and the removal
pointer has wrapped to the start of the buffer. -/
def sendWrapped (lp : Line) (nbytes : Int) (w : SockWrite) : Line × Int × List UInt8 :=
  if nbytes ≠ 0 ∧ lp.txbpr = 0 then
    match w.taken nbytes.toNat with
    | none => (lp, nbytes, [])
    | some s => (txSent lp s, nbytes - s, txbSlice lp.txb 0 s)
  else (lp, nbytes, [])

/-- `tmxr_send_buffered_data` with the results of its two socket writes: the line, the
number of bytes still buffered, and the bytes the socket took, in order. -/
def tmxrSendBufferedData (lp : Line) (w₁ w₂ : SockWrite) : Line × Int × List UInt8 :=
  let nbytes := tmxrTqln lp
  if nbytes = 0 then (lp, 0, [])
  else
    let len := if lp.txbpr < lp.txbpi then nbytes else lp.txbsz - lp.txbpr
    match w₁.taken len.toNat with
    | none => sendWrapped lp nbytes w₂
    | some s =>
      let r := sendWrapped (txSent lp s) (nbytes - s) w₂
      (r.1, r.2.1, txbSlice lp.txb lp.txbpr s ++ r.2.2)

/-- One line's turn in `tmxr_poll_tx`: a connected line sends, and is re-enabled when its
buffer is empty. -/
def pollTxLn (lp : Line) (w : SockWrite × SockWrite) : Line × List UInt8 :=
  if lp.conn = 0 then (lp, [])
  else
    let r := tmxrSendBufferedData lp w.1 w.2
    (if r.2.1 = 0 then { r.1 with xmte := true } else r.1, r.2.2)

/-- `tmxr_poll_tx`, with the socket's answers for each line: the lines after it, and the bytes
each line's socket took. -/
def tmxrPollTx (mp : Tmxr) (w : Nat → SockWrite × SockWrite) : Tmxr × (Nat → List UInt8) :=
  ({ mp with ldsc := fun i ↦ if i < mp.lines then (pollTxLn (mp.ldsc i) (w i)).1 else mp.ldsc i },
    fun i ↦ if i < mp.lines then (pollTxLn (mp.ldsc i) (w i)).2 else [])

/-! ## What the transmit side leaves alone -/

/-- `lp'` differs from `lp` at most in the transmit buffer, its pointers and counters and the
transmit enable. -/
def TxFrame (lp lp' : Line) : Prop :=
  lp' = { lp with
    txb := lp'.txb
    txbpi := lp'.txbpi
    txbpr := lp'.txbpr
    txcnt := lp'.txcnt
    txdrp := lp'.txdrp
    xmte := lp'.xmte }

theorem TxFrame.refl (lp : Line) : TxFrame lp lp := rfl

theorem TxFrame.trans {lp₁ lp₂ lp₃ : Line} (h₁ : TxFrame lp₁ lp₂) (h₂ : TxFrame lp₂ lp₃) :
    TxFrame lp₁ lp₃ := by
  unfold TxFrame at *
  rw [h₂]; rw [h₁]

/-- Setting the count of sent bytes changes the transmit side only. -/
theorem TxFrame.setTxcnt (lp : Line) (t : Int) : TxFrame lp { lp with txcnt := t } := rfl

section

variable {lp lp' : Line}

theorem TxFrame.conn (h : TxFrame lp lp') : lp'.conn = lp.conn := by rw [h]
theorem TxFrame.rcve (h : TxFrame lp lp') : lp'.rcve = lp.rcve := by rw [h]
theorem TxFrame.tsta (h : TxFrame lp lp') : lp'.tsta = lp.tsta := by rw [h]
theorem TxFrame.dstb (h : TxFrame lp lp') : lp'.dstb = lp.dstb := by rw [h]
theorem TxFrame.rxbpi (h : TxFrame lp lp') : lp'.rxbpi = lp.rxbpi := by rw [h]
theorem TxFrame.rxbpr (h : TxFrame lp lp') : lp'.rxbpr = lp.rxbpr := by rw [h]
theorem TxFrame.txbsz (h : TxFrame lp lp') : lp'.txbsz = lp.txbsz := by rw [h]
theorem TxFrame.txbfd (h : TxFrame lp lp') : lp'.txbfd = lp.txbfd := by rw [h]

end

theorem txbufChar_txFrame (lp : Line) (ch : UInt8) : TxFrame lp (txbufChar lp ch) := by
  unfold txbufChar
  dsimp only
  split_ifs <;> rfl

theorem txbufStuff_txFrame (lp : Line) (chr : UInt8) : TxFrame lp (txbufStuff lp chr) := by
  unfold txbufStuff
  split_ifs
  · exact (txbufChar_txFrame lp _).trans (txbufChar_txFrame _ _)
  · exact txbufChar_txFrame lp _

theorem tmxrPutcLn_txFrame (c : Consts) (lp : Line) (chr : UInt8) :
    TxFrame lp (tmxrPutcLn c lp chr).1 := by
  unfold tmxrPutcLn
  dsimp only
  split_ifs
  · rfl
  · rfl
  · exact (txbufStuff_txFrame lp chr).trans rfl
  · exact txbufStuff_txFrame lp chr
  · rfl

theorem tmxrLinemsg_txFrame (c : Consts) (lp : Line) (msg : List UInt8) :
    TxFrame lp (tmxrLinemsg c lp msg) := by
  induction msg generalizing lp with
  | nil => exact TxFrame.refl lp
  | cons ch msg ih => exact (tmxrPutcLn_txFrame c lp ch).trans (ih _)

theorem tmxrSendBufferedData_txFrame (lp : Line) (w₁ w₂ : SockWrite) :
    TxFrame lp (tmxrSendBufferedData lp w₁ w₂).1 := by
  have hsent (lp : Line) (s : Nat) : TxFrame lp (txSent lp s) := rfl
  have hwrapped (lp : Line) (n : Int) (w : SockWrite) : TxFrame lp (sendWrapped lp n w).1 := by
    unfold sendWrapped
    split_ifs
    · cases w.taken n.toNat
      · rfl
      · exact hsent lp _
    · rfl
  unfold tmxrSendBufferedData
  dsimp only
  split
  · rfl
  · split
    · exact hwrapped lp _ w₂
    · exact (hsent lp _).trans (hwrapped _ _ w₂)

theorem pollTxLn_txFrame (lp : Line) (w : SockWrite × SockWrite) : TxFrame lp (pollTxLn lp w).1 := by
  unfold pollTxLn
  split_ifs
  · rfl
  · dsimp only
    split_ifs
    · exact (tmxrSendBufferedData_txFrame lp w.1 w.2).trans rfl
    · exact tmxrSendBufferedData_txFrame lp w.1 w.2

@[simp]
theorem tmxrPollTx_ldsc (mp : Tmxr) (w : Nat → SockWrite × SockWrite) (i : Nat) :
    (tmxrPollTx mp w).1.ldsc i =
      if i < mp.lines then (pollTxLn (mp.ldsc i) (w i)).1 else mp.ldsc i :=
  rfl

@[simp]
theorem tmxrPollTx_sent (mp : Tmxr) (w : Nat → SockWrite × SockWrite) (i : Nat) :
    (tmxrPollTx mp w).2 i = if i < mp.lines then (pollTxLn (mp.ldsc i) (w i)).2 else [] :=
  rfl

@[simp]
theorem tmxrPollTx_lines (mp : Tmxr) (w : Nat → SockWrite × SockWrite) :
    (tmxrPollTx mp w).1.lines = mp.lines :=
  rfl

/-- `tmxr_poll_tx` connects and disconnects nothing. -/
theorem tmxrPollTx_conn (mp : Tmxr) (w : Nat → SockWrite × SockWrite) (i : Nat) :
    ((tmxrPollTx mp w).1.ldsc i).conn = (mp.ldsc i).conn := by
  rw [tmxrPollTx_ldsc]
  split_ifs
  · exact (pollTxLn_txFrame _ _).conn
  · rfl

/-- `tmxr_reset_ln`: send what is buffered, close the connection and reset the Telnet and
receive state; an unbuffered line also loses its transmit buffer. -/
def tmxrResetLn (lp : Line) (w : SockWrite × SockWrite) : Line :=
  let lp := (tmxrSendBufferedData lp w.1 w.2).1
  let lp := { lp with conn := 0, tsta := .norm, rxbpr := 0, rxbpi := 0 }
  let lp := if lp.txbfd then lp else { lp with txbpr := 0, txbpi := 0 }
  { lp with xmte := true, dstb := false }

end TelnetMux
