import TelnetMux.Transmit

/-!
# The receive side of a line

`tmxr_poll_rx` reads from a line's socket into `rxb[rxbpi..)`, clears the matching break
flags in `rbr`, and runs the Telnet filter over the new bytes in place: a byte the filter
drops is squeezed out by `tmxr_rmvrc`, which shifts the rest of the buffer down by one.
`tmxr_getc_ln` hands out `rxb[rxbpr]`. Both rewind the pointers to 0 when the buffer is empty.

The filter loop does not always advance its index: in `TNS_CRPAD` a byte other than LF or NUL
is examined again in `TNS_NORM`. It terminates on the measure `2 * (rxbpi - j)` plus one in
`TNS_CRPAD`, and run pass by pass as the `for` statement runs it, it leaves the statement within
that many passes. Each pass also reports the buffer indices it touches, for the bounds results.
-/

namespace TelnetMux

/-- The loop of `tmxr_rmvrc` over `k` positions from `p`: copy position `p + 1` to `p`. -/
def shiftDown {α : Type} (f : Nat → α) (p : Nat) : Nat → Nat → α
  | 0 => f
  | k + 1 => shiftDown (Function.update f p (f (p + 1))) (p + 1) k

/-- `tmxr_rmvrc`: remove the character at `p` (and its break flag) from the input buffer. -/
def tmxrRmvrc (lp : Line) (p : Nat) : Line :=
  { lp with
    rxb := shiftDown lp.rxb p (lp.rxbpi - p)
    rbr := shiftDown lp.rbr p (lp.rxbpi - p)
    rxbpi := lp.rxbpi - 1 }

@[simp] theorem tmxrRmvrc_rxbpi (lp : Line) (p : Nat) : (tmxrRmvrc lp p).rxbpi = lp.rxbpi - 1 := rfl

@[simp] theorem tmxrRmvrc_tsta (lp : Line) (p : Nat) : (tmxrRmvrc lp p).tsta = lp.tsta := rfl

/-- The indices `tmxr_rmvrc` touches: it writes `p .. rxbpi - 1` and reads `p + 1 .. rxbpi`. -/
def rmvrcTouched (p rxbpi : Nat) : List Nat :=
  List.range' p (rxbpi - p) ++ List.range' (p + 1) (rxbpi - p)

/-- The inner `switch` of `TNS_IAC` on a byte that is neither IAC nor BRK. A byte it has no
case for leaves the state at `TNS_IAC`. -/
def iacNext (tmp : UInt8) : Tns :=
  if tmp = tnWill then .will
  else if tmp = tnWont then .wont
  else if tmp = tnDo then .doReq
  else if tmp = tnDont then .dontReq
  else if tmp ∈ [tnGa, tnEl, tnEc, tnAyt, tnAo, tnIp, tnNop, tnSb, tnDatamk, tnSe] then .norm
  else .iac

theorem iacNext_ne_crpad (tmp : UInt8) : iacNext tmp ≠ .crpad := by
  unfold iacNext
  split_ifs <;> nofun

/-- One pass of the filter loop of `tmxr_poll_rx` at position `j`: the line and the next `j`. -/
def filterStep (lp : Line) (j : Nat) : Line × Nat :=
  let tmp := lp.rxb j
  match lp.tsta with
  | .norm =>
    if tmp = tnIac then (tmxrRmvrc { lp with tsta := .iac } j, j)
    else if tmp = tnCr ∧ lp.dstb = true then ({ lp with tsta := .crpad }, j + 1)
    else (lp, j + 1)
  | .iac =>
    if tmp = tnIac then ({ lp with tsta := .norm }, j + 1)
    else if tmp = tnBrk then
      ({ lp with
          tsta := .norm
          rxb := Function.update lp.rxb j 0
          rbr := Function.update lp.rbr j true }, j + 1)
    else (tmxrRmvrc { lp with tsta := iacNext tmp } j, j)
  | .will =>
    (tmxrRmvrc { lp with dstb := if tmp = tnBin then false else lp.dstb, tsta := .norm } j, j)
  | .wont =>
    (tmxrRmvrc { lp with dstb := if tmp = tnBin then true else lp.dstb, tsta := .norm } j, j)
  | .crpad =>
    if tmp = tnLf ∨ tmp = tnNul then (tmxrRmvrc { lp with tsta := .norm } j, j)
    else ({ lp with tsta := .norm }, j)
  | .doReq | .dontReq | .skip => (tmxrRmvrc { lp with tsta := .norm } j, j)

/-- The indices one pass touches: `rxb[j]`, and `tmxr_rmvrc`'s when it removed the byte. -/
def filterTouched (lp : Line) (j : Nat) : List Nat :=
  j :: if (filterStep lp j).1.rxbpi < lp.rxbpi then rmvrcTouched j lp.rxbpi else []

/-- The loop's measure: what is left to examine, counted twice, and one more in `TNS_CRPAD`. -/
def filterMeasure (lp : Line) (j : Nat) : Nat :=
  2 * (lp.rxbpi - j) + if lp.tsta = .crpad then 1 else 0

/-- A pass either keeps the byte and moves on, or removes it, or only leaves `TNS_CRPAD`. -/
theorem filterStep_cases (lp : Line) (j : Nat) :
    ((filterStep lp j).2 = j + 1 ∧ (filterStep lp j).1.rxbpi = lp.rxbpi) ∨
    ((filterStep lp j).2 = j ∧ (filterStep lp j).1.rxbpi = lp.rxbpi - 1 ∧
      (filterStep lp j).1.tsta ≠ .crpad) ∨
    ((filterStep lp j).2 = j ∧ (filterStep lp j).1.rxbpi = lp.rxbpi ∧
      lp.tsta = .crpad ∧ (filterStep lp j).1.tsta = .norm) := by
  unfold filterStep
  cases lp.tsta <;> simp only <;> (try split_ifs) <;> simp [iacNext_ne_crpad]

theorem filterMeasure_lt {lp : Line} {j : Nat} (h : j < lp.rxbpi) :
    filterMeasure (filterStep lp j).1 (filterStep lp j).2 < filterMeasure lp j := by
  unfold filterMeasure
  rcases filterStep_cases lp j with ⟨h₁, h₂⟩ | ⟨h₁, h₂, h₃⟩ | ⟨h₁, h₂, h₃, h₄⟩
  · rw [h₁, h₂]; split_ifs <;> omega
  · rw [h₁, h₂, if_neg h₃]; split_ifs <;> omega
  · rw [h₁, h₂, h₃, h₄]; simp

/-- The filter loop `for (; j < lp->rxbpi; )` of `tmxr_poll_rx`, with the indices it touched. -/
def filterLoop (lp : Line) (j : Nat) : Line × List Nat :=
  if h : j < lp.rxbpi then
    let r := filterLoop (filterStep lp j).1 (filterStep lp j).2
    (r.1, filterTouched lp j ++ r.2)
  else (lp, [])
termination_by filterMeasure lp j
decreasing_by exact filterMeasure_lt h

theorem filterLoop_fst_of_lt {lp : Line} {j : Nat} (h : j < lp.rxbpi) :
    (filterLoop lp j).1 = (filterLoop (filterStep lp j).1 (filterStep lp j).2).1 := by
  rw [filterLoop, dif_pos h]

/-! ## The loop ends -/

/-- What the loop has left to do, as its passes count it: the bytes not yet examined, then
whether the byte at `j` is to be examined again after `TNS_CRPAD`. -/
def filterProgress (lp : Line) (j : Nat) : Nat × Nat :=
  (lp.rxbpi - j, if lp.tsta = .crpad then 1 else 0)

/-- The `for` statement of the filter loop run for at most `n` passes: where it stands. -/
def filterIter (lp : Line) (j : Nat) : Nat → Line × Nat
  | 0 => (lp, j)
  | n + 1 =>
    if j < lp.rxbpi then filterIter (filterStep lp j).1 (filterStep lp j).2 n else (lp, j)

/-- Every pass leaves less to examine, or as much but no byte to examine again. -/
theorem filterStep_progress {lp : Line} {j : Nat} (h : j < lp.rxbpi) :
    Prod.Lex (· < ·) (· < ·) (filterProgress (filterStep lp j).1 (filterStep lp j).2)
      (filterProgress lp j) := by
  rw [Prod.lex_def]
  unfold filterProgress
  rcases filterStep_cases lp j with ⟨h₁, h₂⟩ | ⟨h₁, h₂, -⟩ | ⟨h₁, h₂, h₃, h₄⟩
  · exact .inl (by dsimp only; omega)
  · exact .inl (by dsimp only; omega)
  · exact .inr ⟨by rw [h₁, h₂], by simp [h₃, h₄]⟩

/-- Given as many passes as its measure, the loop has left its `for` statement, on the line
`filterLoop` computes. -/
theorem filterIter_of_le (lp : Line) (j n : Nat) (hn : filterMeasure lp j ≤ n) :
    ¬(filterIter lp j n).2 < (filterIter lp j n).1.rxbpi ∧
      (filterIter lp j n).1 = (filterLoop lp j).1 := by
  induction lp, j using filterLoop.induct generalizing n with
  | case1 lp j h ih =>
    have hlt := filterMeasure_lt h
    obtain ⟨m, rfl⟩ : ∃ m, n = m + 1 := ⟨n - 1, by omega⟩
    rw [filterIter, if_pos h, filterLoop_fst_of_lt h]
    exact ih m (by omega)
  | case2 lp j h =>
    have hstay : filterIter lp j n = (lp, j) := by
      cases n with
      | zero => rfl
      | succ n => rw [filterIter, if_neg h]
    rw [hstay, filterLoop, dif_neg h]
    exact ⟨h, rfl⟩

/-- The filter loop of `tmxr_poll_rx` ends, for every buffer, index, state and `dstb`: each
pass decreases `(rxbpi - j, [tsta = TNS_CRPAD])` lexicographically, and within
`2 * (rxbpi - j) + 1` passes the loop has left its `for` statement. -/
theorem filterLoop_exits (lp : Line) (j : Nat) :
    (j < lp.rxbpi → Prod.Lex (· < ·) (· < ·)
      (filterProgress (filterStep lp j).1 (filterStep lp j).2) (filterProgress lp j)) ∧
    ∃ n ≤ 2 * (lp.rxbpi - j) + 1, ¬(filterIter lp j n).2 < (filterIter lp j n).1.rxbpi ∧
      (filterIter lp j n).1 = (filterLoop lp j).1 :=
  ⟨filterStep_progress, filterMeasure lp j, by unfold filterMeasure; split_ifs <;> omega,
    filterIter_of_le lp j _ (Nat.le_refl _)⟩

/-- One byte other than LF or NUL after a CR, in `TNS_CRPAD`. -/
def crpadLine : Line :=
  { Line.zero with rxb := fun _ ↦ 0x41, rxbpi := 1, tsta := .crpad, dstb := true }

theorem crpadLine_progress :
    0 < crpadLine.rxbpi ∧ Prod.Lex (· < ·) (· < ·)
      (filterProgress (filterStep crpadLine 0).1 (filterStep crpadLine 0).2)
      (filterProgress crpadLine 0) :=
  ⟨by decide, (filterLoop_exits crpadLine 0).1 (by decide)⟩

/-! ## Polling and reading -/

/-- What `sim_read_sock` returns: a closed connection or error, or the bytes received. -/
inductive SockRead
  | closed
  | data (bytes : List UInt8)

/-- How many bytes `tmxr_poll_rx` asks for, if it reads: all but the guard into an empty
buffer, the rest of the buffer in the middle of a Telnet sequence. -/
def rxReadLen (c : Consts) (lp : Line) : Option Nat :=
  if lp.rxbpi = 0 then some (c.maxbuf - c.guard)
  else if lp.tsta ≠ .norm then some (c.maxbuf - lp.rxbpi)
  else none

/-- The bytes the line takes from a read: the socket returns at most the length asked for. -/
def rxTaken (c : Consts) (lp : Line) : SockRead → List UInt8
  | .closed => []
  | .data bytes => match rxReadLen c lp with
    | some n => bytes.take n
    | none => []

/-- `bytes` written over `f` from index `j`. -/
def writeAt {α : Type} (f : Nat → α) (j : Nat) (bytes : List α) : Nat → α :=
  fun i ↦ if j ≤ i ∧ i < j + bytes.length then bytes.getD (i - j) (f i) else f i

/-- The received bytes stored at `rxbpi`, their break flags cleared, the pointer advanced. -/
def rxAppend (lp : Line) (bytes : List UInt8) : Line :=
  { lp with
    rxb := writeAt lp.rxb lp.rxbpi bytes
    rbr := writeAt lp.rbr lp.rxbpi (bytes.map fun _ ↦ false)
    rxbpi := lp.rxbpi + bytes.length
    rxcnt := lp.rxcnt + bytes.length }

/-- One line's turn in the first loop of `tmxr_poll_rx`, with the indices it touched: the
read, the filter loop and, when receive debugging is on, the "Remaining" dump. -/
def pollRxLn (c : Consts) (lp : Line) (rd : SockRead) (w : SockWrite × SockWrite)
    (dbg : Bool) : Line × List Nat :=
  if lp.conn = 0 ∨ lp.rcve = false then (lp, [])
  else match rxReadLen c lp, rd with
    | none, _ => (lp, [])
    | some _, .closed => (tmxrResetLn lp w, [])
    | some n, .data b =>
      let bytes := b.take n
      if bytes = [] then (lp, [])
      else
        let r := filterLoop (rxAppend lp bytes) lp.rxbpi
        let dump := if dbg ∧ bytes.length ≠ r.1.rxbpi - r.1.rxbpr then
          List.range' r.1.rxbpi (r.1.rxbpi - r.1.rxbpr) else []
        (r.1, List.range' lp.rxbpi bytes.length ++ r.2 ++ dump)

/-- The second loop of `tmxr_poll_rx`, and the end of `tmxr_getc_ln`: rewind an empty buffer. -/
def rxRewind (lp : Line) : Line :=
  if lp.rxbpi = lp.rxbpr then { lp with rxbpi := 0, rxbpr := 0 } else lp

/-- What a line's socket gives `tmxr_poll_rx`: the read, and the answers to the writes of a
reset, and whether receive debugging is on. -/
structure RxEnv where
  rd : SockRead
  w : SockWrite × SockWrite
  dbg : Bool

/-- `tmxr_poll_rx`. -/
def tmxrPollRx (c : Consts) (mp : Tmxr) (env : Nat → RxEnv) : Tmxr :=
  { mp with ldsc := fun i ↦
      if i < mp.lines then rxRewind (pollRxLn c (mp.ldsc i) (env i).rd (env i).w (env i).dbg).1
      else mp.ldsc i }

/-- The value `tmxr_getc_ln` returns for a byte and its break flag. -/
def rxValue (c : Consts) (b : UInt8) (brk : Bool) : Nat :=
  c.valid ||| b.toNat ||| if brk then c.scpeBreak else 0

/-- `tmxr_getc_ln`: the next character as `TMXR_VALID | chr` (with `SCPE_BREAK` on a break),
or 0 when the line is not connected, not receiving, or has nothing. -/
def tmxrGetcLn (c : Consts) (lp : Line) : Line × Nat :=
  if lp.conn ≠ 0 ∧ lp.rcve = true ∧ lp.rxbpi ≠ lp.rxbpr then
    (rxRewind { lp with rxbpr := lp.rxbpr + 1 }, rxValue c (lp.rxb lp.rxbpr) (lp.rbr lp.rxbpr))
  else (rxRewind lp, 0)

end TelnetMux
