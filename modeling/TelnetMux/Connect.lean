import TelnetMux.Transmit

/-!
# Connections and the master socket

`tmxr_poll_conn` hands a newly accepted socket to a free line: it searches the lines in the
connection order `lnorder` (or in numerical order), inserts the greeting at the head of the
line's transmit buffer, in front of whatever a buffered line still holds, and flushes the lines;
it returns the line with the bytes each socket took in the flush. The Telnet option mantra it
writes straight to the new socket, ignoring the result, is not modelled. `tmxr_open_master`
opens the port or changes the buffering of all lines, `tmxr_close_master` says goodbye on every
connected line and resets it.

The search loop is modelled as the source writes it, including the index it leaves behind when
no line is free. Read against the list of lines it offers a connection (`connOrder`), it takes
the first free one; an order as `tmxr_set_lnorder` stores it offers every line, so no connection
is turned away while a line is free. Which line a connection gets when none is, is the subject
of later results. The `LOG=` and `NOLOG`
options of `tmxr_open_master` act on log file references and are modelled with them.
-/

namespace TelnetMux

/-- The bytes of a text made of ASCII characters. -/
def ascii (s : String) : List UInt8 :=
  s.toList.map fun ch ↦ ch.toNat.toUInt8

/-- The greeting `msgbuf` of `tmxr_poll_conn` for line `i`: the simulator's name, and the
device's name and the line number when the multiplexer knows its device. -/
def connMsg (c : Consts) (mp : Tmxr) (i : Nat) : List UInt8 :=
  let cmsg := ascii "\n\r\nConnected to the " ++ c.simName ++ ascii " simulator "
  let (dmsg, lmsg) := match mp.dname with
    | some d => (d ++ ascii " device", if mp.lines > 1 then ascii (", line " ++ toString i) else [])
    | none => ([], [])
  cmsg ++ dmsg ++ lmsg ++ ascii "\r\n\n"

theorem connMsg_length_pos (c : Consts) (mp : Tmxr) (i : Nat) : 0 < (connMsg c mp i).length := by
  have h : 0 < (ascii "\r\n\n").length := by decide
  unfold connMsg
  simp only [List.length_append]
  omega

/-! ## Finding a line -/

/-- The search loop of `tmxr_poll_conn` with `k` passes left: `j` counts the passes made, `i`
is the line tried last (or, before the first pass, `mp->lines`) and `op` the rest of the
connection order. A pass takes the next entry of the order when it is a line number, else
line `j`; the loop stops at a free line, and otherwise `i` is advanced with `j`. -/
def connScan (mp : Tmxr) : Option (List Int) → Nat → Int → Nat → Int
  | _, _, i, 0 => i
  | op, j, _, k + 1 =>
    let next : Int × Option (List Int) := match op with
      | some (o :: os) => if 0 ≤ o ∧ o < mp.lines then (o, some os) else (j, op)
      | _ => (j, op)
    if (mp.ldsc next.1.toNat).conn = 0 then next.1
    else connScan mp next.2 (j + 1) (next.1 + 1) k

/-- The line `tmxr_poll_conn` chooses; `mp->lines` or more means that all lines are busy. -/
def connLineIdx (mp : Tmxr) : Int :=
  connScan mp mp.lnorder 0 mp.lines mp.lines

/-- The search only tries line numbers. -/
theorem connScan_nonneg (mp : Tmxr) (op : Option (List Int)) (j : Nat) (i : Int) (k : Nat)
    (h : 0 ≤ i) : 0 ≤ connScan mp op j i k := by
  induction k generalizing op j i with
  | zero => exact h
  | succ k ih =>
    rcases op with _ | _ | ⟨o, os⟩ <;> simp only [connScan] <;> split_ifs <;>
      first | omega | exact ih _ _ _ (by omega)

theorem connLineIdx_nonneg (mp : Tmxr) : 0 ≤ connLineIdx mp :=
  connScan_nonneg mp _ 0 _ _ (Int.ofNat_nonneg _)

/-! ## Accepting -/

/-- A line taking socket `sock` in `tmxr_poll_conn`, up to the flush: its counters and
removal pointer are set, the Telnet state reset, and the greeting `msg` stored from the
removal pointer on, in front of what the buffer held. -/
def connLine (c : Consts) (buffered : Nat) (lp : Line) (sock : Nat) (msg : List UInt8) : Line :=
  let lp := { lp with conn := sock }
  let lp :=
    if buffered = 0 then
      { lp with txbpi := 0, txbpr := lp.txbsz - msg.length, rxcnt := 0, txcnt := 0, txdrp := 0 }
    else if lp.txcnt > lp.txbsz then { lp with txbpr := Int.tmod (lp.txbpi + 1) lp.txbsz }
    else { lp with txbpr := lp.txbsz - msg.length }
  let lp := { lp with tsta := .norm, xmte := true, dstb := false }
  let psave := lp.txbpi
  let lp := tmxrLinemsg c { lp with txbpi := lp.txbpr } msg
  { lp with txbpi := psave }

/-- `tmxr_poll_conn`, with the socket `sim_accept_conn` returned, if any, and the answers of
the sockets to the flush: the multiplexer, the line connected or `-1`, and the bytes each line's
socket took in the flush. -/
def tmxrPollConn (c : Consts) (mp : Tmxr) (acc : Option Nat) (w : Nat → SockWrite × SockWrite) :
    Tmxr × Int × (Nat → List UInt8) :=
  match acc with
  | none => (mp, -1, fun _ ↦ [])
  | some sock =>
    let i := connLineIdx mp
    if i ≥ mp.lines then (mp, -1, fun _ ↦ [])
    else
      let msg := connMsg c mp i.toNat
      let r := tmxrPollTx (mp.setLine i.toNat (connLine c mp.buffered (mp.ldsc i.toNat) sock msg)) w
      let lp := r.1.ldsc i.toNat
      (r.1.setLine i.toNat { lp with txcnt := lp.txcnt - msg.length }, i, r.2)

/-- Storing a message and then moving the insertion pointer changes the transmit side only. -/
theorem tmxrLinemsg_restore_txFrame (c : Consts) {lp lp' : Line} (msg : List UInt8) (p : Int)
    (h : TxFrame lp lp') : TxFrame lp { tmxrLinemsg c lp' msg with txbpi := p } :=
  (h.trans (tmxrLinemsg_txFrame c lp' msg)).trans rfl

/-- What the connection sets beyond the transmit side. -/
theorem connLine_txFrame (c : Consts) (buffered : Nat) (lp : Line) (sock : Nat) (msg : List UInt8) :
    TxFrame { lp with
        conn := sock
        tsta := .norm
        dstb := false
        rxcnt := if buffered = 0 then 0 else lp.rxcnt } (connLine c buffered lp sock msg) := by
  unfold connLine
  dsimp only
  split_ifs <;> exact tmxrLinemsg_restore_txFrame c msg _ rfl

/-! ## The master socket -/

/-- The arguments `tmxr_open_master` acts on, as its parser distinguishes them: a port
number, or the options `BUFFERED[=n]` and `NOBUFFERED` (`UNBUFFERED`). -/
inductive OpenCmd
  | port (port : Nat)
  | buffered (size : Option Nat)
  | nobuffered
  deriving DecidableEq, Repr

/-- The lines below `mp.lines` changed by `f`. -/
def Tmxr.mapLines (mp : Tmxr) (f : Line → Line) : Tmxr :=
  { mp with ldsc := fun i ↦ if i < mp.lines then f (mp.ldsc i) else mp.ldsc i }

@[simp]
theorem Tmxr.mapLines_ldsc_of_lt (mp : Tmxr) (f : Line → Line) {i : Nat} (h : i < mp.lines) :
    (mp.mapLines f).ldsc i = f (mp.ldsc i) :=
  if_pos h

/-- `tmxr_open_master` for a port or a buffering option, with the socket `sim_master_sock`
returns for a port, if any. -/
def tmxrOpenMaster (c : Consts) (mp : Tmxr) (cmd : OpenCmd) (msock : Option Nat) : Tmxr × Scpe :=
  match cmd with
  | .nobuffered =>
    if mp.buffered ≠ 0 then
      ({ mp.mapLines fun lp ↦ { lp with txbsz := c.maxbuf, txbfd := false, txbpi := 0, txbpr := 0 }
          with buffered := 0 }, .ok)
    else (mp, .ok)
  | .buffered size =>
    let n := size.getD 32768
    if n = 0 ∨ n > 1024 * 1024 then (mp, .arg)
    else
      ({ mp.mapLines fun lp ↦ { lp with txbsz := n, txbfd := true, txbpi := 0, txbpr := 0 }
          with buffered := n }, .ok)
  | .port port =>
    if port = 0 ∨ port > 65535 then (mp, .arg)
    else match msock with
      | none => (mp, .openErr)
      | some sock =>
        let init (lp : Line) : Line :=
          let lp := { lp with conn := 0, tsta := .norm, rxbpi := 0, rxbpr := 0, txbpi := 0, txbpr := 0 }
          let lp := if mp.buffered = 0 then { lp with txbfd := false, txbsz := c.maxbuf } else lp
          { lp with rxcnt := 0, txcnt := 0, txdrp := 0, xmte := true, dstb := false }
        ({ mp.mapLines init with port, master := sock }, .ok)

/-- `tmxr_close_master`, with the socket answers to each line's final flush: every connected
line is told goodbye and reset, and the master socket closed. -/
def tmxrCloseMaster (c : Consts) (mp : Tmxr) (w : Nat → SockWrite × SockWrite) : Tmxr :=
  let bye (i : Nat) (lp : Line) : Line :=
    if lp.conn ≠ 0 then
      tmxrResetLn (tmxrLinemsg c lp
        (ascii "\r\nDisconnected from the " ++ c.simName ++ ascii " simulator\r\n\n")) (w i)
    else lp
  { mp with
    ldsc := fun i ↦ if i < mp.lines then bye i (mp.ldsc i) else mp.ldsc i
    master := 0 }

/-- `tmxr_dscln` on line `ln`: a connected line is told and reset. -/
def tmxrDscln (c : Consts) (mp : Tmxr) (ln : Nat) (w : SockWrite × SockWrite) : Tmxr × Scpe :=
  if ln < mp.lines then
    let lp := mp.ldsc ln
    if lp.conn ≠ 0 then
      (mp.setLine ln (tmxrResetLn (tmxrLinemsg c lp (ascii "\r\nOperator disconnected line\r\n\n")) w),
        .ok)
    else (mp, .ok)
  else (mp, .arg)

/-! ## Which line a new connection gets -/

section Scan

variable (mp : Tmxr)

/-- When every line is busy and the order lists line numbers only, the search runs through
the whole order and leaves `i` one past the last line it tried. -/
theorem connScan_all_busy (hbusy : ∀ i < mp.lines, (mp.ldsc i).conn ≠ 0) (os : List Int)
    (hvalid : ∀ o ∈ os, 0 ≤ o ∧ o < mp.lines) (hne : os ≠ []) (j : Nat) (i : Int) :
    connScan mp (some os) j i os.length = os.getLast hne + 1 := by
  induction os generalizing j i with
  | nil => exact absurd rfl hne
  | cons o os ih =>
    have ho := hvalid o (List.mem_cons_self o os)
    have hbusy_o : (mp.ldsc o.toNat).conn ≠ 0 := hbusy _ (by omega)
    rw [List.length_cons, connScan, if_pos ho]
    dsimp only
    rw [if_neg hbusy_o]
    cases os with
    | nil => rfl
    | cons o' os' =>
      rw [ih (fun x hx ↦ hvalid x (List.mem_cons_of_mem o hx)) (List.cons_ne_nil o' os')]
      rfl

/-- The line `tmxr_poll_conn` connects, and the socket it records there. -/
theorem tmxrPollConn_conn (c : Consts) (sock : Nat) (w : Nat → SockWrite × SockWrite)
    (h : connLineIdx mp < mp.lines) :
    (tmxrPollConn c mp (some sock) w).2.1 = connLineIdx mp ∧
      ((tmxrPollConn c mp (some sock) w).1.ldsc (connLineIdx mp).toNat).conn = sock := by
  unfold tmxrPollConn
  dsimp only
  rw [if_neg (show ¬connLineIdx mp ≥ mp.lines by omega)]
  refine ⟨rfl, ?_⟩
  simp only [Tmxr.setLine_ldsc_self]
  rw [tmxrPollTx_conn, Tmxr.setLine_ldsc_self]
  exact (connLine_txFrame c _ _ sock _).conn

/-- The search on two lines in the order `1;0`: line 1 if it is free, else line 0 if it is
free, else one past line 0. -/
theorem connLineIdx_pair (hl : mp.lines = 2) (ho : mp.lnorder = some [1, 0]) :
    connLineIdx mp = if (mp.ldsc 1).conn = 0 then 1 else if (mp.ldsc 0).conn = 0 then 0 else 1 := by
  unfold connLineIdx
  rw [ho]
  simp [connScan, hl]

section Accept

variable (c : Consts) (sock : Nat) (w : Nat → SockWrite × SockWrite) {k : Nat}

@[simp]
theorem tmxrPollConn_lines (acc : Option Nat) : (tmxrPollConn c mp acc w).1.lines = mp.lines := by
  unfold tmxrPollConn
  split
  · rfl
  · dsimp only
    split_ifs <;> rfl

@[simp]
theorem tmxrPollConn_lnorder (acc : Option Nat) :
    (tmxrPollConn c mp acc w).1.lnorder = mp.lnorder := by
  unfold tmxrPollConn
  split
  · rfl
  · dsimp only
    split_ifs <;> rfl

/-- The line the search found: connected and greeted by `connLine`, flushed, and its count
of sent bytes corrected for the greeting. -/
theorem tmxrPollConn_ldsc_found (hk : connLineIdx mp = k) (h : k < mp.lines) :
    (tmxrPollConn c mp (some sock) w).1.ldsc k =
      { (pollTxLn (connLine c mp.buffered (mp.ldsc k) sock (connMsg c mp k)) (w k)).1 with
        txcnt := (pollTxLn (connLine c mp.buffered (mp.ldsc k) sock (connMsg c mp k)) (w k)).1.txcnt -
          (connMsg c mp k).length } := by
  unfold tmxrPollConn
  dsimp only
  rw [if_neg (show ¬connLineIdx mp ≥ mp.lines by omega), hk, Int.toNat_ofNat,
    Tmxr.setLine_ldsc_self, tmxrPollTx_ldsc, Tmxr.setLine_lines, if_pos h, Tmxr.setLine_ldsc_self]

/-- The bytes the found line's socket took in the flush: those `pollTxLn` sends from the
greeted line. -/
theorem tmxrPollConn_sent_found (hk : connLineIdx mp = k) (h : k < mp.lines) :
    (tmxrPollConn c mp (some sock) w).2.2 k =
      (pollTxLn (connLine c mp.buffered (mp.ldsc k) sock (connMsg c mp k)) (w k)).2 := by
  unfold tmxrPollConn
  dsimp only
  rw [if_neg (show ¬connLineIdx mp ≥ mp.lines by omega), hk, Int.toNat_ofNat, tmxrPollTx_sent,
    Tmxr.setLine_lines, if_pos h, Tmxr.setLine_ldsc_self]

/-- The line the search found is connected with its Telnet state reset; beyond that only its
transmit side changes. -/
theorem tmxrPollConn_ldsc_self (hk : connLineIdx mp = k) (h : k < mp.lines) :
    TxFrame { mp.ldsc k with
        conn := sock
        tsta := .norm
        dstb := false
        rxcnt := if mp.buffered = 0 then 0 else (mp.ldsc k).rxcnt }
      ((tmxrPollConn c mp (some sock) w).1.ldsc k) := by
  rw [tmxrPollConn_ldsc_found mp c sock w hk h]
  exact (connLine_txFrame c _ _ sock _).trans ((pollTxLn_txFrame _ _).trans (.setTxcnt _ _))

/-- The other lines change only on their transmit side, in the flush. -/
theorem tmxrPollConn_ldsc_of_ne (hk : connLineIdx mp = k) (h : k < mp.lines) {i : Nat}
    (hi : i < mp.lines) (hne : i ≠ k) :
    TxFrame (mp.ldsc i) ((tmxrPollConn c mp (some sock) w).1.ldsc i) := by
  unfold tmxrPollConn
  dsimp only
  rw [if_neg (show ¬connLineIdx mp ≥ mp.lines by omega), hk, Int.toNat_ofNat,
    Tmxr.setLine_ldsc_of_ne _ _ hne, tmxrPollTx_ldsc, Tmxr.setLine_lines, if_pos hi,
    Tmxr.setLine_ldsc_of_ne _ _ hne]
  exact pollTxLn_txFrame _ _

end Accept

/-- With a connection order of line numbers and every line busy, `tmxr_poll_conn` does not
report that all lines are busy unless the order ends with the last line: it hands the new
socket to the line after the order's last entry, which is connected. -/
theorem tmxrPollConn_takes_busy_line (c : Consts) (sock : Nat) (w : Nat → SockWrite × SockWrite)
    (order : List Int) (hord : mp.lnorder = some order) (hlen : order.length = mp.lines)
    (hvalid : ∀ o ∈ order, 0 ≤ o ∧ o < mp.lines) (hbusy : ∀ i < mp.lines, (mp.ldsc i).conn ≠ 0)
    (hne : order ≠ []) (hlast : order.getLast hne + 1 < mp.lines) :
    (tmxrPollConn c mp (some sock) w).2.1 = order.getLast hne + 1 ∧
      (mp.ldsc (order.getLast hne + 1).toNat).conn ≠ 0 ∧
      ((tmxrPollConn c mp (some sock) w).1.ldsc (order.getLast hne + 1).toNat).conn = sock := by
  have hidx : connLineIdx mp = order.getLast hne + 1 := by
    unfold connLineIdx
    rw [hord, ← hlen]
    exact connScan_all_busy mp hbusy order hvalid hne 0 _
  have hl0 := (hvalid _ (List.getLast_mem hne)).1
  rw [← hidx]
  exact ⟨(tmxrPollConn_conn mp c sock w (hidx ▸ hlast)).1, hbusy _ (by omega),
    (tmxrPollConn_conn mp c sock w (hidx ▸ hlast)).2⟩

end Scan

/-- Two lines with the connection order `1;0`, listening on port 2323, after the sockets 5
and 6 came in on the master socket 3 and every write failed. -/
def busyPair : Tmxr :=
  let w : Nat → SockWrite × SockWrite := fun _ ↦ (.error, .error)
  let mp := (tmxrOpenMaster sampleConsts (Tmxr.init 2 (some [1, 0]) none) (.port 2323) (some 3)).1
  (tmxrPollConn sampleConsts (tmxrPollConn sampleConsts mp (some 5) w).1 (some 6) w).1

set_option maxRecDepth 4000 in
theorem busyPair_takes_line_one :
    (tmxrPollConn sampleConsts busyPair (some 7) fun _ ↦ (.error, .error)).2.1 = 1 ∧
      (busyPair.ldsc 1).conn ≠ 0 ∧
      ((tmxrPollConn sampleConsts busyPair (some 7) fun _ ↦ (.error, .error)).1.ldsc 1).conn = 7 :=
  tmxrPollConn_takes_busy_line busyPair sampleConsts 7 _ [1, 0] rfl rfl (by decide) (by decide)
    (List.cons_ne_nil 1 [0]) (by decide)

/-! ## The line a connection gets -/

/-- The lines the search loop of `tmxr_poll_conn` tries in `k` passes from the state `op`,
`j`: the entries of the order up to the first that is not a line number, then the lines from
the pass it has reached on, in numerical order. -/
def scanLines (mp : Tmxr) (op : Option (List Int)) (j k : Nat) : List Nat :=
  let p := (((op.getD []).takeWhile fun o : Int ↦ 0 ≤ o ∧ o < mp.lines).take k).map Int.toNat
  p ++ List.range' (j + p.length) (k - p.length)

/-- The lines a new connection is offered, in turn. -/
def connOrder (mp : Tmxr) : List Nat :=
  scanLines mp mp.lnorder 0 mp.lines

/-- Where the search stops, read off the lines it tries: at the first free one; when all are
busy, one past the last tried, or at `i` when none was tried. -/
def scanEnd (mp : Tmxr) (tried : List Nat) (i : Int) : Int :=
  match tried.find? fun l ↦ (mp.ldsc l).conn = 0 with
  | some l => l
  | none =>
    match tried.getLast? with
    | some l => l + 1
    | none => i

section Order

variable (mp : Tmxr)

/-- One pass of the search tries the first line `scanLines` names and, if it is busy, goes on
from the state the loop moves to. -/
theorem connScan_succ (op : Option (List Int)) (j : Nat) (i : Int) (k : Nat) :
    ∃ (x : Nat) (op' : Option (List Int)),
      scanLines mp op j (k + 1) = x :: scanLines mp op' (j + 1) k ∧
        connScan mp op j i (k + 1) =
          if (mp.ldsc x).conn = 0 then (x : Int) else connScan mp op' (j + 1) (x + 1) k := by
  have seq (op : Option (List Int))
      (h : (op.getD []).takeWhile (fun o : Int ↦ 0 ≤ o ∧ o < mp.lines) = []) :
      scanLines mp op j (k + 1) = j :: scanLines mp op (j + 1) k := by
    simp only [scanLines, h, List.take_nil, List.map_nil, List.length_nil, List.nil_append,
      Nat.add_zero, Nat.sub_zero]
    rfl
  rcases op with _ | _ | ⟨o, os⟩
  · exact ⟨j, none, seq none rfl, rfl⟩
  · exact ⟨j, some [], seq (some []) rfl, rfl⟩
  · by_cases hv : 0 ≤ o ∧ o < mp.lines
    · refine ⟨o.toNat, some os, ?_, ?_⟩
      · have ht : (o :: os).takeWhile (fun o : Int ↦ 0 ≤ o ∧ o < mp.lines) =
            o :: os.takeWhile (fun o : Int ↦ 0 ≤ o ∧ o < mp.lines) :=
          List.takeWhile_cons_of_pos (by simpa using hv)
        simp only [scanLines, Option.getD_some, ht, List.take_succ_cons, List.map_cons,
          List.length_cons, List.cons_append]
        congr 3 <;> omega
      · simp only [connScan, if_pos hv, Int.toNat_of_nonneg hv.1]
    · refine ⟨j, some (o :: os), seq _ (by simp [List.takeWhile_cons, hv]), ?_⟩
      simp only [connScan, if_neg hv, Int.toNat_ofNat]

/-- The search loop stops where `scanEnd` says, on the lines `scanLines` lists. -/
theorem connScan_eq_scanEnd (op : Option (List Int)) (j : Nat) (i : Int) (k : Nat) :
    connScan mp op j i k = scanEnd mp (scanLines mp op j k) i := by
  induction k generalizing op j i with
  | zero => simp [connScan, scanLines, scanEnd]
  | succ k ih =>
    obtain ⟨x, op', hs, hc⟩ := connScan_succ mp op j i k
    rw [hc, hs, ih]
    by_cases hx : (mp.ldsc x).conn = 0
    · simp [scanEnd, hx]
    · rw [if_neg hx]
      cases hl : (scanLines mp op' (j + 1) k).getLast? <;>
        simp [scanEnd, hx, hl, List.getLast?_cons]

/-- `tmxr_poll_conn` takes the first free line of `connOrder`; with all of them busy, the line
after the last it tried. -/
theorem connLineIdx_eq_scanEnd : connLineIdx mp = scanEnd mp (connOrder mp) mp.lines :=
  connScan_eq_scanEnd mp _ _ _ _

theorem lt_of_mem_connOrder {l : Nat} (h : l ∈ connOrder mp) : l < mp.lines := by
  simp only [connOrder, scanLines, List.mem_append, List.mem_map, List.mem_range'_1] at h
  rcases h with ⟨o, ho, rfl⟩ | ⟨-, h⟩
  · have := List.all_eq_true.1 List.all_takeWhile o (List.mem_of_mem_take ho)
    simp only [decide_eq_true_eq] at this
    omega
  · have := List.length_take_le mp.lines
      ((mp.lnorder.getD []).takeWhile fun o : Int ↦ 0 ≤ o ∧ o < mp.lines)
    simp only [List.length_map] at h
    omega

/-- The connection orders `tmxr_set_lnorder` stores and a device declares: none, one whose
first entry is not a line number (`-1`, for numerical order), or all the lines, each once. -/
def OrderOk (lines : Nat) : Option (List Int) → Prop
  | some (o :: os) => ¬(0 ≤ o ∧ o < lines) ∨ (o :: os).Perm ((List.range lines).map Int.ofNat)
  | _ => True

instance (lines : Nat) : DecidablePred (OrderOk lines)
  | some (_ :: _) => inferInstanceAs (Decidable (_ ∨ _))
  | some [] => inferInstanceAs (Decidable True)
  | none => inferInstanceAs (Decidable True)

/-- Under such an order the search offers every line. -/
theorem mem_connOrder (h : OrderOk mp.lines mp.lnorder) {l : Nat} (hl : l < mp.lines) :
    l ∈ connOrder mp := by
  have hseq (os : List Int) (hos : os.takeWhile (fun o : Int ↦ 0 ≤ o ∧ o < mp.lines) = [])
      (hord : mp.lnorder.getD [] = os) : l ∈ connOrder mp := by
    simp only [connOrder, scanLines, hord, hos]
    simp [List.mem_range'_1, hl]
  rcases hord : mp.lnorder with _ | _ | ⟨o, os⟩
  · exact hseq [] rfl (by rw [hord]; rfl)
  · exact hseq [] rfl (by rw [hord]; rfl)
  rw [hord] at h
  rcases h with hhead | hperm
  · exact hseq _ (List.takeWhile_cons_of_neg (by simpa using hhead)) (by rw [hord]; rfl)
  have hall : ∀ x ∈ o :: os, 0 ≤ x ∧ x < mp.lines := fun x hx ↦ by
    obtain ⟨n, hn, rfl⟩ := List.mem_map.1 (hperm.mem_iff.1 hx)
    simp only [List.mem_range, Int.ofNat_eq_coe] at hn ⊢
    omega
  have htw : (o :: os).takeWhile (fun o : Int ↦ 0 ≤ o ∧ o < mp.lines) = o :: os := by
    simpa using @List.takeWhile_append_of_pos _ (fun o : Int ↦ 0 ≤ o ∧ o < mp.lines) (o :: os) []
      fun x hx ↦ decide_eq_true (hall x hx)
  have hlen : (o :: os).length = mp.lines := by simpa using hperm.length_eq
  have hmem : (l : Int) ∈ o :: os := hperm.mem_iff.2 (List.mem_map.2 ⟨l, List.mem_range.2 hl, rfl⟩)
  simp only [connOrder, scanLines, hord, Option.getD_some, htw,
    List.take_of_length_le (Nat.le_of_eq hlen), List.mem_append, List.mem_map]
  exact .inl ⟨l, hmem, rfl⟩

/-- An entry that is not a line number stops the order where it stands: here line 0 is never
offered. -/
example : connOrder { busyPair with lines := 3, lnorder := some [1, -1, 0] } = [1, 1, 2] := by
  decide

/-- Under such an order, while a line is free a new connection gets the first free line the
order offers. -/
theorem connLineIdx_first_free (h : OrderOk mp.lines mp.lnorder)
    (hfree : ∃ l < mp.lines, (mp.ldsc l).conn = 0) :
    ∃ l < mp.lines, (connOrder mp).find? (fun l ↦ (mp.ldsc l).conn = 0) = some l ∧
      (mp.ldsc l).conn = 0 ∧ connLineIdx mp = l := by
  obtain ⟨l₀, hl₀, hf₀⟩ := hfree
  have hs : ((connOrder mp).find? fun l ↦ (mp.ldsc l).conn = 0).isSome :=
    List.find?_isSome.2 ⟨l₀, mem_connOrder mp h hl₀, decide_eq_true hf₀⟩
  obtain ⟨l, hl⟩ := Option.isSome_iff_exists.1 hs
  refine ⟨l, lt_of_mem_connOrder mp (List.mem_of_find?_eq_some hl), hl,
    by simpa using List.find?_some hl, ?_⟩
  rw [connLineIdx_eq_scanEnd, scanEnd, hl]

end Order

end TelnetMux
