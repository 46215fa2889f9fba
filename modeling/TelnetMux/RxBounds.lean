import TelnetMux.Delivery

/-!
# The receive buffer indices `tmxr_poll_rx` touches

The filter loop reads `rxb[j]` and, when it drops the byte, `tmxr_rmvrc` writes
`rxb[j .. rxbpi - 1]` and reads `rxb[j + 1 .. rxbpi]`: one entry past the data. Every index the
loop touches is therefore at most the `rxbpi` it starts from, and that bound is reached. A read
of `tmxr_poll_rx` is offered the rest of the buffer while a Telnet sequence is pending, so it
can fill the buffer up to `TMXR_MAXBUF`, and a command byte removed after that makes
`tmxr_rmvrc` read `rxb[TMXR_MAXBUF]`, outside the array.
-/

namespace TelnetMux

section

variable {lp : Line} {j : Nat}

theorem filterLoop_of_lt (h : j < lp.rxbpi) :
    filterLoop lp j =
      ((filterLoop (filterStep lp j).1 (filterStep lp j).2).1,
        filterTouched lp j ++ (filterLoop (filterStep lp j).1 (filterStep lp j).2).2) := by
  rw [filterLoop, dif_pos h]

theorem filterStep_rxbpi_le (lp : Line) (j : Nat) : (filterStep lp j).1.rxbpi ≤ lp.rxbpi := by
  rcases filterStep_cases lp j with ⟨-, h⟩ | ⟨-, h, -⟩ | ⟨-, h, -⟩ <;> omega

/-- The filter loop only removes bytes. -/
theorem filterLoop_rxbpi_le (lp : Line) (j : Nat) : (filterLoop lp j).1.rxbpi ≤ lp.rxbpi := by
  induction lp, j using filterLoop.induct with
  | case1 lp j h ih =>
    rw [filterLoop_fst_of_lt h]
    exact Nat.le_trans ih (filterStep_rxbpi_le lp j)
  | case2 lp j h => exact Nat.le_of_eq (by rw [filterLoop, dif_neg h])

/-- The filter loop keeps the bytes below the position it starts from. -/
theorem le_filterLoop_rxbpi (lp : Line) (j : Nat) :
    j ≤ lp.rxbpi → j ≤ (filterLoop lp j).1.rxbpi := by
  induction lp, j using filterLoop.induct with
  | case1 lp j h ih =>
    intro _
    rw [filterLoop_fst_of_lt h]
    rcases filterStep_cases lp j with ⟨h₁, h₂⟩ | ⟨h₁, h₂, -⟩ | ⟨h₁, h₂, -⟩ <;>
      (have hj := ih (by omega); omega)
  | case2 lp j h => rw [filterLoop, dif_neg h]; exact id

end

/-! ## Reading to the end of the buffer -/

section Overrun

variable (c : Consts) {lp : Line} (w : SockWrite × SockWrite) (dbg : Bool)

/-- A first read of `A IAC` into an empty buffer keeps `A` and leaves the line in `TNS_IAC`. -/
theorem pollRxLn_iac_pending (hc : c.guard + 2 ≤ c.maxbuf) (hconn : lp.conn ≠ 0)
    (hrcve : lp.rcve = true) (hpi : lp.rxbpi = 0) (hnorm : lp.tsta = .norm) :
    (pollRxLn c lp (.data [0x41, tnIac]) w dbg).1.conn = lp.conn ∧
      (pollRxLn c lp (.data [0x41, tnIac]) w dbg).1.rcve = true ∧
      (pollRxLn c lp (.data [0x41, tnIac]) w dbg).1.rxbpi = 1 ∧
      (pollRxLn c lp (.data [0x41, tnIac]) w dbg).1.rxbpr = lp.rxbpr ∧
      (pollRxLn c lp (.data [0x41, tnIac]) w dbg).1.tsta = .iac := by
  have hread : rxReadLen c lp = some (c.maxbuf - c.guard) := by simp [rxReadLen, hpi]
  have htake : [0x41, tnIac].take (c.maxbuf - c.guard) = [0x41, tnIac] :=
    List.take_of_length_le (by simp only [List.length_cons, List.length_nil]; omega)
  unfold pollRxLn
  rw [if_neg (by simp [hconn, hrcve]), hread]
  dsimp only
  rw [htake, if_neg (List.cons_ne_nil _ _)]
  obtain ⟨-, hpi', hst, -⟩ :=
    filterLoop_spec (rxAppend lp [0x41, tnIac]) lp.rxbpi [0x41, tnIac] rfl (rxSeg_rxAppend lp _)
  have hfr := filterLoop_frame (rxAppend lp [0x41, tnIac]) lp.rxbpi
  have hf : tnFilter ((rxAppend lp [0x41, tnIac]).tsta, (rxAppend lp [0x41, tnIac]).dstb)
      [0x41, tnIac] = ([(0x41, false)], (.iac, lp.dstb)) := by
    show tnFilter (lp.tsta, lp.dstb) _ = _
    rw [hnorm]
    cases lp.dstb <;> rfl
  rw [hf] at hpi' hst
  refine ⟨by rw [hfr]; rfl, by rw [hfr]; exact hrcve, by rw [hpi', hpi]; rfl, by rw [hfr]; rfl,
    congrArg Prod.fst hst⟩

/-- A second read, offered the rest of the buffer because a Telnet command is pending, fills
the buffer; the command byte it starts with is removed, and `tmxr_rmvrc` then reads the entry
at `TMXR_MAXBUF`. -/
theorem pollRxLn_touches_maxbuf (hc : c.guard + 2 ≤ c.maxbuf) (hconn : lp.conn ≠ 0)
    (hrcve : lp.rcve = true) (hpi : lp.rxbpi = 0) (hpr : lp.rxbpr = 0) (hnorm : lp.tsta = .norm) :
    c.maxbuf ∈ (pollRxLn c (rxRewind (pollRxLn c lp (.data [0x41, tnIac]) w dbg).1)
      (.data (tnNop :: List.replicate (c.maxbuf - 2) 0x41)) w dbg).2 := by
  obtain ⟨h1conn, h1rcve, h1pi, h1pr, h1ts⟩ := pollRxLn_iac_pending c w dbg hc hconn hrcve hpi hnorm
  set lp₁ := (pollRxLn c lp (.data [0x41, tnIac]) w dbg).1
  have hrw : rxRewind lp₁ = lp₁ := by rw [rxRewind, if_neg (by omega)]
  set bytes := tnNop :: List.replicate (c.maxbuf - 2) 0x41 with hbytes
  have hlen : bytes.length = c.maxbuf - 1 := by
    rw [hbytes, List.length_cons, List.length_replicate]
    omega
  have hread : rxReadLen c lp₁ = some (c.maxbuf - 1) := by simp [rxReadLen, h1pi, h1ts]
  rw [hrw]
  unfold pollRxLn
  rw [if_neg (by simp [h1conn, hconn, h1rcve]), hread]
  dsimp only
  rw [List.take_of_length_le (by omega), if_neg (List.cons_ne_nil _ _)]
  set L₀ := rxAppend lp₁ bytes
  have hL₀pi : L₀.rxbpi = c.maxbuf := by
    show lp₁.rxbpi + bytes.length = c.maxbuf
    omega
  have hL₀x : L₀.rxb 1 = tnNop := by simp [L₀, rxAppend, writeAt, h1pi, hbytes]
  have hstep : (filterStep L₀ 1).1.rxbpi = L₀.rxbpi - 1 := by
    unfold filterStep
    rw [show L₀.tsta = .iac from h1ts, hL₀x]
    rfl
  rw [h1pi, filterLoop_of_lt (by omega)]
  refine List.mem_append_left _ (List.mem_append_right _ (List.mem_append_left _ ?_))
  unfold filterTouched
  rw [if_pos (by omega), hL₀pi]
  simp only [rmvrcTouched, List.mem_cons, List.mem_append, List.mem_range']
  exact .inr (.inr ⟨c.maxbuf - 2, by omega, by omega⟩)

end Overrun

theorem pollRxLn_touches_rxb_256 :
    256 ∈ (pollRxLn sampleConsts
      (rxRewind (pollRxLn sampleConsts { Line.zero with conn := 1, rcve := true }
        (.data [0x41, tnIac]) (.error, .error) false).1)
      (.data (tnNop :: List.replicate 254 0x41)) (.error, .error) false).2 :=
  pollRxLn_touches_maxbuf sampleConsts (.error, .error) false (by decide) (by decide) rfl rfl rfl rfl

end TelnetMux
