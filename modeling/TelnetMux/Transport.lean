import TelnetMux.Ring

/-!
# What a line hands its socket

While a line stays connected (or buffered), its transmit side is a bounded queue: puts append
the stuffed character, `tmxr_poll_tx` moves a prefix of the queue to the socket, and a put
that finds the queue full drops its oldest bytes and counts them in `txdrp`. Over any run, the
bytes the socket accepted followed by the queue are therefore the initial queue followed by
everything stored, less at most as many bytes as `txdrp` grew, in order, nothing duplicated;
exactly that stream when no put found the queue full.

Two puts of an unbuffered line can drop bytes although the line means to stall instead: an
IAC is admitted when two places are free, and its second byte fills the queue. And dropping
bytes one by one can drop the first half of a doubled IAC, leaving a lone IAC at the head.
-/

namespace TelnetMux

/-- Every IAC of a byte stream is doubled: the stream is a concatenation of `stuff` units. -/
def iacPaired : List UInt8 → Bool
  | [] => true
  | [x] => x ≠ tnIac
  | x :: y :: ys => if x = tnIac then y = tnIac && iacPaired ys else iacPaired (y :: ys)

theorem iacPaired_append {l : List UInt8} (h : iacPaired l = true) (m : List UInt8) :
    iacPaired (l ++ m) = iacPaired m := by
  induction l using iacPaired.induct with
  | case1 => rfl
  | case2 x =>
    have hx : x ≠ tnIac := by simpa [iacPaired] using h
    cases m with
    | nil => exact h
    | cons y ys => simp [iacPaired, hx]
  | case3 y ys ih =>
    simp only [iacPaired, if_true, Bool.and_eq_true, decide_eq_true_eq] at h
    simp only [List.cons_append, iacPaired, if_true, h.1, decide_True, Bool.true_and]
    exact ih h.2
  | case4 x y ys hx ih =>
    rw [iacPaired, if_neg hx] at h
    rw [List.cons_append, List.cons_append, iacPaired, if_neg hx]
    exact ih h

@[simp]
theorem iacPaired_stuff (chr : UInt8) : iacPaired (stuff chr) = true := by
  unfold stuff
  split_ifs with h <;> simp [iacPaired, h]

/-! ## An IAC with two free places -/

/-- With exactly two free places, `tmxr_putc_ln` admits an IAC on a connected line, unbuffered
ones included; its second byte fills the buffer and evicts the oldest byte not yet sent, and
the call returns `SCPE_OK`. -/
theorem tmxrPutcLn_iac_evicts (c : Consts) (lp : Line) (h : RingOk lp) (hconn : lp.conn ≠ 0)
    (havail : txbufAvail lp = 2) :
    (tmxrPutcLn c lp tnIac).2 = .ok ∧
      txRing (tmxrPutcLn c lp tnIac).1 = (txRing lp ++ [tnIac, tnIac]).tail ∧
      (tmxrPutcLn c lp tnIac).1.txdrp = lp.txdrp + 1 := by
  have hq := (tmxrTqln_ringOk h).1
  have hst : (tmxrPutcLn c lp tnIac).2 = .ok := by
    unfold tmxrPutcLn
    rw [if_neg (by simp [hconn]), if_pos (.inr (by omega))]
    dsimp only
    split_ifs <;> rfl
  rcases tmxrPutcLn_ring c h (.inl hconn) tnIac with ⟨-, hr, hd⟩ | ⟨hs, -⟩
  · have hs : stuff tnIac = [tnIac, tnIac] := if_pos rfl
    unfold txbufAvail at havail
    rw [hs, List.rtake, List.length_append, length_txRing, List.length_cons, List.length_singleton,
      show (tmxrTqln lp).toNat + (0 + 1 + 1) - (lp.txbsz - 1) = 1 by omega, List.drop_one] at hr
    refine ⟨hst, hr, ?_⟩
    rw [hr, hs, List.length_tail, List.length_append, length_txRing] at hd
    simp only [List.length_cons, List.length_singleton] at hd
    omega
  · rw [hst] at hs
    cases hs

/-- An unbuffered connected line of four bytes holding two: a put of an IAC now. -/
def twoFree : Line :=
  { Line.zero with
    conn := 1
    rcve := true
    txbsz := 4
    txbpi := 2
    txbpr := 0
    txb := fun i ↦ if i = 0 then 0x41 else 0x42 }

theorem twoFree_iac_evicts :
    (tmxrPutcLn sampleConsts twoFree tnIac).2 = .ok ∧
      txRing (tmxrPutcLn sampleConsts twoFree tnIac).1 = (txRing twoFree ++ [tnIac, tnIac]).tail ∧
      (tmxrPutcLn sampleConsts twoFree tnIac).1.txdrp = twoFree.txdrp + 1 :=
  tmxrPutcLn_iac_evicts sampleConsts twoFree (by decide) (by decide) (by decide)

/-! ## Dropping half of a doubled IAC -/

/-- A line as `BUFFERED=4` leaves it. -/
def bufferedFour : Line :=
  { Line.zero with txbsz := 4, txbfd := true }

/-- On a buffered line of four bytes, an IAC and a `B` fill the queue; an `A` then drops the
first IAC byte, and the queue starts with a lone IAC. -/
theorem bufferedFour_splits_iac :
    txRing (tmxrLinemsg sampleConsts bufferedFour [tnIac, 0x42]) = [tnIac, tnIac, 0x42] ∧
      txRing (tmxrLinemsg sampleConsts bufferedFour [tnIac, 0x42, 0x41]) = [tnIac, 0x42, 0x41] ∧
      iacPaired (txRing (tmxrLinemsg sampleConsts bufferedFour [tnIac, 0x42, 0x41])) = false := by
  decide

/-! ## Runs -/

/-- What one line's transmit side sees while it stays connected, or buffered: a put, or its
turn in `tmxr_poll_tx` with the socket's answers. -/
inductive TxCall
  | putc (chr : UInt8)
  | poll (w : SockWrite × SockWrite)

/-- A run of calls on a line: the line, the bytes the socket accepted, and the stuffed bytes
of the puts that returned `SCPE_OK`. -/
def txRun (c : Consts) : Line → List TxCall → Line × List UInt8 × List UInt8
  | lp, [] => (lp, [], [])
  | lp, .putc chr :: calls =>
    let r := tmxrPutcLn c lp chr
    let rest := txRun c r.1 calls
    (rest.1, rest.2.1, (if r.2 = .ok then stuff chr else []) ++ rest.2.2)
  | lp, .poll w :: calls =>
    let r := pollTxLn lp w
    let rest := txRun c r.1 calls
    (rest.1, r.2 ++ rest.2.1, rest.2.2)

/-- The characters of a run's puts that `tmxr_putc_ln` accepted. -/
def txAccepted (c : Consts) : Line → List TxCall → List UInt8
  | _, [] => []
  | lp, .putc chr :: calls =>
    let r := tmxrPutcLn c lp chr
    (if r.2 = .ok then [chr] else []) ++ txAccepted c r.1 calls
  | lp, .poll w :: calls => txAccepted c (pollTxLn lp w).1 calls

/-- The bytes a run stores are its accepted characters, each as `tmxr_putc_ln` queues it. -/
theorem txRun_stored (c : Consts) (lp : Line) (calls : List TxCall) :
    (txRun c lp calls).2.2 = (txAccepted c lp calls).flatMap stuff := by
  induction calls generalizing lp with
  | nil => rfl
  | cons call calls ih =>
    cases call with
    | putc chr =>
      simp only [txRun, txAccepted, List.flatMap_append, ih]
      split_ifs <;> simp
    | poll w => exact ih _

/-- Puts alone hand the socket nothing. -/
theorem txRun_putc_sent (c : Consts) (lp : Line) (U : List UInt8) :
    (txRun c lp (U.map .putc)).2.1 = [] := by
  induction U generalizing lp with
  | nil => rfl
  | cons x U ih => exact ih _

theorem iacPaired_txRun_stuffed (c : Consts) (lp : Line) (calls : List TxCall) :
    iacPaired (txRun c lp calls).2.2 = true := by
  induction calls generalizing lp with
  | nil => rfl
  | cons call calls ih =>
    cases call with
    | putc chr =>
      simp only [txRun]
      split_ifs
      · rw [iacPaired_append (iacPaired_stuff chr), ih]
      · exact ih _
    | poll w => exact ih _

/-- The bytes a run hands the socket, followed by what is still queued, are the queue it
started with followed by the bytes stored, in order and nothing duplicated, less at most as
many bytes as `txdrp` grew. -/
theorem txRun_sublist (c : Consts) (lp : Line) (calls : List TxCall) (h : RingOk lp)
    (hs : lp.conn ≠ 0 ∨ lp.txbfd = true) :
    List.Sublist ((txRun c lp calls).2.1 ++ txRing (txRun c lp calls).1)
        (txRing lp ++ (txRun c lp calls).2.2) ∧
      (txRing lp ++ (txRun c lp calls).2.2).length + lp.txdrp ≤
        ((txRun c lp calls).2.1 ++ txRing (txRun c lp calls).1).length +
          (txRun c lp calls).1.txdrp := by
  induction calls generalizing lp with
  | nil =>
    simp only [txRun, List.nil_append, List.append_nil]
    exact ⟨List.Sublist.refl _, Nat.le_refl _⟩
  | cons call calls ih =>
    cases call with
    | putc chr =>
      have hfr := tmxrPutcLn_txFrame c lp chr
      obtain ⟨hsub, hlen⟩ := ih (tmxrPutcLn c lp chr).1 (tmxrPutcLn_ringOk c h chr)
        (by rw [hfr.conn, hfr.txbfd]; exact hs)
      simp only [txRun]
      rcases tmxrPutcLn_ring c h hs chr with ⟨hok, hr, hd⟩ | ⟨hst, hr, hd⟩
      · rw [if_pos hok]
        rw [hr] at hsub
        refine ⟨hsub.trans ?_, ?_⟩
        · rw [← List.append_assoc]
          exact (List.drop_sublist _ _).append_right _
        · simp only [List.length_append] at hlen hd ⊢
          omega
      · rw [if_neg (by rw [hst]; exact nofun), List.nil_append]
        rw [hr] at hsub hlen
        exact ⟨hsub, by omega⟩
    | poll w =>
      obtain ⟨hok, hconserve, hd⟩ := pollTxLn_spec h w
      have hfr := pollTxLn_txFrame lp w
      obtain ⟨hsub, hlen⟩ := ih (pollTxLn lp w).1 hok (by rw [hfr.conn, hfr.txbfd]; exact hs)
      simp only [txRun]
      rw [← hconserve, List.append_assoc, List.append_assoc]
      refine ⟨hsub.append_left _, ?_⟩
      simp only [List.length_append] at hlen ⊢
      omega

/-- A run of puts that drops nothing leaves the queue it started with followed by the bytes it
stored. -/
theorem txRun_putc_queue (c : Consts) (lp : Line) (U : List UInt8) (h : RingOk lp)
    (hs : lp.conn ≠ 0 ∨ lp.txbfd = true) (hd : (txRun c lp (U.map .putc)).1.txdrp = lp.txdrp) :
    txRing (txRun c lp (U.map .putc)).1 = txRing lp ++ (txRun c lp (U.map .putc)).2.2 := by
  obtain ⟨hsub, hlen⟩ := txRun_sublist c lp (U.map .putc) h hs
  rw [txRun_putc_sent, List.nil_append] at hsub hlen
  exact hsub.eq_of_length_le (by omega)

/-- The stream law of a line: what the socket accepted followed by the queue is the starting
queue followed by the stored bytes, less the bytes dropped, which `txdrp` counts; when no
put found the queue full it is exactly that stream, doubled IACs intact. -/
theorem txRun_stream (c : Consts) (lp : Line) (calls : List TxCall) (h : RingOk lp)
    (hs : lp.conn ≠ 0 ∨ lp.txbfd = true) :
    List.Sublist ((txRun c lp calls).2.1 ++ txRing (txRun c lp calls).1)
        (txRing lp ++ (txRun c lp calls).2.2) ∧
      (txRing lp ++ (txRun c lp calls).2.2).length + lp.txdrp ≤
        ((txRun c lp calls).2.1 ++ txRing (txRun c lp calls).1).length +
          (txRun c lp calls).1.txdrp ∧
      ((txRun c lp calls).1.txdrp = lp.txdrp →
        (txRun c lp calls).2.1 ++ txRing (txRun c lp calls).1 =
            txRing lp ++ (txRun c lp calls).2.2 ∧
          (iacPaired (txRing lp) = true →
            iacPaired ((txRun c lp calls).2.1 ++ txRing (txRun c lp calls).1) = true)) := by
  obtain ⟨hsub, hlen⟩ := txRun_sublist c lp calls h hs
  refine ⟨hsub, hlen, fun hd ↦ ?_⟩
  have heq := hsub.eq_of_length_le (by omega)
  refine ⟨heq, fun hp ↦ ?_⟩
  rw [heq, iacPaired_append hp]
  exact iacPaired_txRun_stuffed c lp calls

/-- A connected unbuffered line, empty, with room for four bytes. -/
def emptyFive : Line :=
  { Line.zero with conn := 1, rcve := true, txbsz := 5 }

/-- An IAC, a socket that takes one byte, and an `A`. -/
def fiveCalls : List TxCall :=
  [.putc tnIac, .poll (.sent 1, .error), .putc 0x41]

theorem emptyFive_stream :
    List.Sublist ((txRun sampleConsts emptyFive fiveCalls).2.1 ++
        txRing (txRun sampleConsts emptyFive fiveCalls).1)
        (txRing emptyFive ++ (txRun sampleConsts emptyFive fiveCalls).2.2) ∧
      (txRing emptyFive ++ (txRun sampleConsts emptyFive fiveCalls).2.2).length + emptyFive.txdrp ≤
        ((txRun sampleConsts emptyFive fiveCalls).2.1 ++
            txRing (txRun sampleConsts emptyFive fiveCalls).1).length +
          (txRun sampleConsts emptyFive fiveCalls).1.txdrp ∧
      ((txRun sampleConsts emptyFive fiveCalls).1.txdrp = emptyFive.txdrp →
        (txRun sampleConsts emptyFive fiveCalls).2.1 ++
            txRing (txRun sampleConsts emptyFive fiveCalls).1 =
          txRing emptyFive ++ (txRun sampleConsts emptyFive fiveCalls).2.2 ∧
        (iacPaired (txRing emptyFive) = true →
          iacPaired ((txRun sampleConsts emptyFive fiveCalls).2.1 ++
            txRing (txRun sampleConsts emptyFive fiveCalls).1) = true)) :=
  txRun_stream sampleConsts emptyFive _ (by decide) (.inl (by decide))

end TelnetMux
