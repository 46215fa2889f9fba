import Mathlib.Tactic.Set
import TelnetMux.Filter

/-!
# What the simulator receives

On a line that stays connected and receiving, `tmxr_poll_rx` appends the filter's output on
the bytes it reads to the characters waiting in the buffer, and `tmxr_getc_ln` takes them
from the front. So the characters handed out so far, followed by those still waiting, are
the filter's output on everything read so far, whatever sizes the reads had and however the
polls and the reads of the simulator interleave.
-/

namespace TelnetMux

/-- The values `tmxr_getc_ln` returns for a list of characters with their break flags. -/
def rxValues (c : Consts) (ps : List (UInt8 × Bool)) : List Nat :=
  ps.map fun p ↦ rxValue c p.1 p.2

@[simp] theorem rxValues_append (c : Consts) (xs ys : List (UInt8 × Bool)) :
    rxValues c (xs ++ ys) = rxValues c xs ++ rxValues c ys :=
  List.map_append _ _ _

/-- A returned character is never confused with "no character". -/
theorem rxValue_ne_zero (c : Consts) (b : UInt8) (brk : Bool) : rxValue c b brk ≠ 0 := by
  intro h
  refine Nat.ne_of_gt c.valid_pos (Nat.eq_of_testBit_eq fun i ↦ ?_)
  have := congrArg (Nat.testBit · i) h
  simp only [rxValue, Nat.testBit_or, Nat.zero_testBit, Bool.or_eq_false_iff] at this
  rw [this.1.1, Nat.zero_testBit]

/-! ## Reading -/

theorem rxSeg_rxAppend (lp : Line) (bytes : List UInt8) :
    rxSeg (rxAppend lp bytes) lp.rxbpi bytes.length = bytes.map (·, false) := by
  refine List.ext_getElem (by simp) fun k hk _ ↦ ?_
  simp only [length_rxSeg] at hk
  simp [rxSeg, rxAppend, writeAt, hk, Nat.add_sub_cancel_left, List.getElem?_eq_getElem hk]

theorem rxAppend_below {lp : Line} {bytes : List UInt8} {i : Nat} (h : i < lp.rxbpi) :
    (rxAppend lp bytes).rxb i = lp.rxb i ∧ (rxAppend lp bytes).rbr i = lp.rbr i := by
  simp only [rxAppend, writeAt]
  constructor <;> (rw [if_neg]; omega)

theorem rxPending_rxRewind (lp : Line) : rxPending (rxRewind lp) = rxPending lp := by
  unfold rxRewind
  split_ifs with h
  · simp [rxPending, h]
  · rfl

@[simp] theorem rxRewind_conn (lp : Line) : (rxRewind lp).conn = lp.conn := by
  unfold rxRewind; split_ifs <;> rfl

@[simp] theorem rxRewind_tsta (lp : Line) : (rxRewind lp).tsta = lp.tsta := by
  unfold rxRewind; split_ifs <;> rfl

@[simp] theorem rxRewind_dstb (lp : Line) : (rxRewind lp).dstb = lp.dstb := by
  unfold rxRewind; split_ifs <;> rfl

/-- The run invariant of a line: still connected and receiving, its buffer pointers ordered. -/
def RxLive (lp : Line) : Prop :=
  lp.conn ≠ 0 ∧ lp.rcve = true ∧ lp.rxbpr ≤ lp.rxbpi

theorem rxLive_rxRewind {lp : Line} (h : RxLive lp) : RxLive (rxRewind lp) := by
  unfold rxRewind
  split_ifs
  · exact ⟨h.1, h.2.1, Nat.le_refl 0⟩
  · exact h

/-- A poll of a live line whose socket returns `b` appends the filter's output on the bytes
the line takes to the waiting characters, and moves the filter state on. -/
theorem pollRxLn_data (c : Consts) {lp : Line} (b : List UInt8) (w : SockWrite × SockWrite)
    (dbg : Bool) (h : RxLive lp) :
    rxPending (pollRxLn c lp (.data b) w dbg).1 =
        rxPending lp ++ (tnFilter (lp.tsta, lp.dstb) (rxTaken c lp (.data b))).1 ∧
      ((pollRxLn c lp (.data b) w dbg).1.tsta, (pollRxLn c lp (.data b) w dbg).1.dstb) =
        (tnFilter (lp.tsta, lp.dstb) (rxTaken c lp (.data b))).2 ∧
      RxLive (pollRxLn c lp (.data b) w dbg).1 := by
  obtain ⟨hconn, hrcve, hle⟩ := h
  unfold pollRxLn
  rw [if_neg (by simp [hconn, hrcve])]
  rcases hn : rxReadLen c lp with _ | n
  · simpa [rxTaken, hn] using ⟨hconn, hrcve, hle⟩
  simp only [rxTaken, hn]
  by_cases hb : b.take n = []
  · simpa [hb] using ⟨hconn, hrcve, hle⟩
  rw [if_neg hb]
  dsimp only
  obtain ⟨hseg, hpi, hst, hbelow⟩ :=
    filterLoop_spec (rxAppend lp (b.take n)) lp.rxbpi (b.take n) rfl (rxSeg_rxAppend lp _)
  have hfr := filterLoop_frame (rxAppend lp (b.take n)) lp.rxbpi
  rw [show (rxAppend lp (b.take n)).tsta = lp.tsta from rfl,
    show (rxAppend lp (b.take n)).dstb = lp.dstb from rfl] at hseg hpi hst
  set L := (filterLoop (rxAppend lp (b.take n)) lp.rxbpi).1
  set f := tnFilter (lp.tsta, lp.dstb) (b.take n)
  have hpr : L.rxbpr = lp.rxbpr := by rw [hfr]; rfl
  refine ⟨?_, hst, by rw [hfr]; exact hconn, by rw [hfr]; exact hrcve, by omega⟩
  rw [rxPending, hpr, hpi, show lp.rxbpi + f.1.length - lp.rxbpr =
    (lp.rxbpi - lp.rxbpr) + f.1.length by omega, rxSeg_add,
    show lp.rxbpr + (lp.rxbpi - lp.rxbpr) = lp.rxbpi by omega, hseg]
  refine congrArg (· ++ _) (rxSeg_congr fun k hk ↦ ?_)
  rw [(hbelow _ (by omega)).1, (hbelow _ (by omega)).2]
  exact rxAppend_below (by omega)

/-- A poll whose socket returns data keeps the connection. -/
theorem pollRxLn_data_conn (c : Consts) (lp : Line) (b : List UInt8) (w : SockWrite × SockWrite)
    (dbg : Bool) : (pollRxLn c lp (.data b) w dbg).1.conn = lp.conn := by
  unfold pollRxLn
  split_ifs
  · rfl
  rcases rxReadLen c lp with _ | n
  · rfl
  dsimp only
  split_ifs <;> (try rw [filterLoop_frame]) <;> rfl

/-- The transmit side holds none of the waiting characters. -/
theorem TxFrame.rxPending {lp lp' : Line} (h : TxFrame lp lp') : rxPending lp' = rxPending lp := by
  rw [h]
  rfl

/-- `tmxr_poll_rx` acts on each line alone: line `i` gets its turn in the first loop and is
then rewound. -/
theorem tmxrPollRx_ldsc (c : Consts) (mp : Tmxr) (env : Nat → RxEnv) {i : Nat}
    (h : i < mp.lines) :
    (tmxrPollRx c mp env).ldsc i =
      rxRewind (pollRxLn c (mp.ldsc i) (env i).rd (env i).w (env i).dbg).1 := by
  simp [tmxrPollRx, h]

/-! ## Taking characters -/

/-- `tmxr_getc_ln` on a live line hands out the first waiting character, if there is one,
and leaves the filter state alone. -/
theorem tmxrGetcLn_spec (c : Consts) {lp : Line} (h : RxLive lp) :
    (if (tmxrGetcLn c lp).2 = 0 then [] else [(tmxrGetcLn c lp).2]) ++
        rxValues c (rxPending (tmxrGetcLn c lp).1) = rxValues c (rxPending lp) ∧
      ((tmxrGetcLn c lp).1.tsta, (tmxrGetcLn c lp).1.dstb) = (lp.tsta, lp.dstb) ∧
      RxLive (tmxrGetcLn c lp).1 := by
  obtain ⟨hconn, hrcve, hle⟩ := h
  by_cases he : lp.rxbpi = lp.rxbpr
  · have hg : tmxrGetcLn c lp = (rxRewind lp, 0) := by simp [tmxrGetcLn, he]
    rw [hg]
    refine ⟨?_, by simp, rxLive_rxRewind ⟨hconn, hrcve, hle⟩⟩
    rw [rxPending_rxRewind]
    simp [rxPending, he]
  · have hg : tmxrGetcLn c lp = (rxRewind { lp with rxbpr := lp.rxbpr + 1 },
        rxValue c (lp.rxb lp.rxbpr) (lp.rbr lp.rxbpr)) := by
      rw [tmxrGetcLn, if_pos ⟨hconn, hrcve, he⟩]
    rw [hg]
    refine ⟨?_, by simp, rxLive_rxRewind ⟨hconn, hrcve, by simp only; omega⟩⟩
    rw [if_neg (rxValue_ne_zero _ _ _), rxPending_rxRewind]
    obtain ⟨n, hn⟩ : ∃ n, lp.rxbpi - lp.rxbpr = n + 1 := ⟨lp.rxbpi - lp.rxbpr - 1, by omega⟩
    simp only [rxPending, hn, rxSeg_succ, show lp.rxbpi - (lp.rxbpr + 1) = n by omega]
    rfl

/-- On a connected, receiving line, `tmxr_getc_ln` returns the first waiting character. -/
theorem tmxrGetcLn_first (c : Consts) {lp : Line} {p : UInt8 × Bool} {ps : List (UInt8 × Bool)}
    (hc : lp.conn ≠ 0) (hr : lp.rcve = true) (hp : rxPending lp = p :: ps) :
    (tmxrGetcLn c lp).2 = rxValue c p.1 p.2 := by
  unfold rxPending at hp
  obtain ⟨n, hn⟩ : ∃ n, lp.rxbpi - lp.rxbpr = n + 1 := by
    cases h : lp.rxbpi - lp.rxbpr with
    | zero => rw [h] at hp; cases hp
    | succ n => exact ⟨n, rfl⟩
  rw [hn, rxSeg_succ] at hp
  obtain ⟨rfl, -⟩ := List.cons.inj hp
  rw [tmxrGetcLn, if_pos ⟨hc, hr, by omega⟩]

/-! ## Runs -/

/-- A call on one line in the receive contract: a poll whose socket returns `bytes`, with
receive debugging on or off, or a call of `tmxr_getc_ln`. -/
inductive RxCall
  | poll (bytes : List UInt8) (dbg : Bool)
  | getc

/-- Run calls on a line: the line after them, the values `tmxr_getc_ln` returned with a
character, in order, and the bytes the line read, in order. The answers to a reset's writes
are never asked for, since a read that returns data never resets the line. -/
def rxRun (c : Consts) (lp : Line) : List RxCall → Line × List Nat × List UInt8
  | [] => (lp, [], [])
  | .poll bytes dbg :: calls =>
    let r := rxRun c (rxRewind (pollRxLn c lp (.data bytes) (.error, .error) dbg).1) calls
    (r.1, r.2.1, rxTaken c lp (.data bytes) ++ r.2.2)
  | .getc :: calls =>
    let r := rxRun c (tmxrGetcLn c lp).1 calls
    (r.1, (if (tmxrGetcLn c lp).2 = 0 then [] else [(tmxrGetcLn c lp).2]) ++ r.2.1, r.2.2)

/-- On a line that stays connected and receiving, for every interleaving of polls and calls
of `tmxr_getc_ln` and every way the peer's stream is cut into reads: the characters handed
out, then those still waiting, are what was waiting at the start followed by the filter's
output on every byte read, and the line's Telnet state is the filter's final state. -/
theorem rxRun_delivers (c : Consts) (lp : Line) (calls : List RxCall) (h : RxLive lp) :
    (rxRun c lp calls).2.1 ++ rxValues c (rxPending (rxRun c lp calls).1) =
        rxValues c (rxPending lp ++ (tnFilter (lp.tsta, lp.dstb) (rxRun c lp calls).2.2).1) ∧
      ((rxRun c lp calls).1.tsta, (rxRun c lp calls).1.dstb) =
        (tnFilter (lp.tsta, lp.dstb) (rxRun c lp calls).2.2).2 := by
  induction calls generalizing lp with
  | nil => simp [rxRun]
  | cons call calls ih =>
    cases call with
    | poll bytes dbg =>
      obtain ⟨hpend, hst, hlive⟩ := pollRxLn_data c bytes (.error, .error) dbg h
      obtain ⟨ih₁, ih₂⟩ := ih _ (rxLive_rxRewind hlive)
      rw [rxPending_rxRewind, rxRewind_tsta, rxRewind_dstb, hpend, hst] at ih₁
      rw [rxRewind_tsta, rxRewind_dstb, hst] at ih₂
      simp only [rxRun]
      rw [tnFilter_append]
      exact ⟨by rw [ih₁, List.append_assoc], ih₂⟩
    | getc =>
      obtain ⟨hout, hst, hlive⟩ := tmxrGetcLn_spec c h
      obtain ⟨ih₁, ih₂⟩ := ih _ hlive
      rw [hst] at ih₁ ih₂
      simp only [rxRun]
      refine ⟨?_, ih₂⟩
      rw [List.append_assoc, ih₁, rxValues_append, ← List.append_assoc, hout, rxValues_append]

/-- The contract on a line as `tmxr_poll_conn` leaves it, for the spec's BREAK scenario read
in two pieces around two calls of `tmxr_getc_ln`. -/
theorem rxRun_delivers_break :
    RxLive { Line.zero with conn := 1, rcve := true } ∧
      let calls := [.poll [0x41, 0xFF] false, .getc, .poll [0xF3, 0x42] false, .getc]
      let r := rxRun sampleConsts { Line.zero with conn := 1, rcve := true } calls
      r.2.1 ++ rxValues sampleConsts (rxPending r.1) =
          rxValues sampleConsts (rxPending { Line.zero with conn := 1, rcve := true } ++
            (tnFilter (.norm, false) r.2.2).1) ∧
        (r.1.tsta, r.1.dstb) = (tnFilter (.norm, false) r.2.2).2 :=
  ⟨⟨by decide, rfl, Nat.le_refl 0⟩, rxRun_delivers sampleConsts _ _ ⟨by decide, rfl, Nat.le_refl 0⟩⟩

end TelnetMux
