import TelnetMux.Connect
import TelnetMux.Ring
import TelnetMux.RxBounds

/-!
# What every line keeps

The invariant of a line, read against its multiplexer's buffering and master socket: the
buffer size that `BUFFERED`, `NOBUFFERED` and the port's opening set; that only an open port
has connections; that the transmit pointers are in range; that the receive pointers are ordered
within `TMXR_MAXBUF`; that an idle line holds no input and, unbuffered, no output; and that an
unbuffered line's transmit enable promises more than `TMXR_GUARD` free places.

Every routine of the library keeps it, line by line; the multiplexer's operations are put
together from these results in `TelnetMux.System`. The greeting `tmxr_poll_conn` inserts is
assumed to hold no IAC and to fit `TMXR_MAXBUF`; a buffered line whose buffer is smaller than
the greeting is left out of the range of its pointers, for the reason a later result shows.
-/

namespace TelnetMux

/-- The transmit enable of an unbuffered line that has a buffer promises more than
`TMXR_GUARD` free places. -/
def XmteOk (c : Consts) (lp : Line) : Prop :=
  lp.txbfd = false → lp.txbsz ≠ 0 → lp.xmte = true → c.guard < txbufAvail lp

/-- `g` is at most `TMXR_MAXBUF` and bounds the length of every line's greeting, and no
greeting holds an IAC. -/
def GreetingOk (c : Consts) (mp : Tmxr) (g : Nat) : Prop :=
  g ≤ c.maxbuf ∧ ∀ i < mp.lines, tnIac ∉ connMsg c mp i ∧ (connMsg c mp i).length ≤ g

instance (c : Consts) (mp : Tmxr) (g : Nat) : Decidable (GreetingOk c mp g) :=
  inferInstanceAs (Decidable (_ ∧ _))

/-- The invariant of a line of a multiplexer whose buffering is `buffered` and whose master
socket is `master`, for greetings of at most `g` bytes. -/
structure LineInv (c : Consts) (g buffered master : Nat) (lp : Line) : Prop where
  bufd : lp.txbfd = true ↔ buffered ≠ 0
  bsize : buffered ≠ 0 → lp.txbsz = buffered
  usize : buffered = 0 → lp.txbsz = c.maxbuf ∨ lp.txbsz = 0 ∧ master = 0
  conn : lp.conn ≠ 0 → master ≠ 0
  ring : lp.txbsz ≠ 0 → g ≤ lp.txbsz → RingOk lp
  rx : lp.rxbpr ≤ lp.rxbpi ∧ lp.rxbpi ≤ c.maxbuf
  idle : lp.conn = 0 → lp.rxbpi = 0 ∧ lp.rxbpr = 0 ∧ (lp.txbfd = false → lp.txbpi = lp.txbpr)
  xmte : XmteOk c lp

theorem ringOk_setTxbpi {lp : Line} (h : RingOk lp) {p : Int} (h0 : 0 ≤ p) (h1 : p < lp.txbsz) :
    RingOk { lp with txbpi := p } :=
  ⟨h.1, h.2.1, h.2.2.1, h0, h1⟩

section

variable {c : Consts} {g b m : Nat} {lp : Line}

theorem LineInv.buffered_eq_zero (h : LineInv c g b m lp) (hb : lp.txbfd = false) : b = 0 := by
  simpa [hb] using h.bufd

/-- An unbuffered line that has a buffer has `TMXR_MAXBUF` bytes. -/
theorem LineInv.txbsz_of_unbuffered (h : LineInv c g b m lp) (hb : lp.txbfd = false)
    (hsz : lp.txbsz ≠ 0) : lp.txbsz = c.maxbuf :=
  (h.usize (h.buffered_eq_zero hb)).resolve_right fun h' ↦ hsz h'.1

theorem LineInv.ringOk_of_unbuffered (hg : g ≤ c.maxbuf) (h : LineInv c g b m lp)
    (hb : lp.txbfd = false) (hsz : lp.txbsz ≠ 0) : RingOk lp :=
  h.ring hsz (h.txbsz_of_unbuffered hb hsz ▸ hg)

/-- A line that is connected or buffered has a buffer. -/
theorem LineInv.txbsz_pos (h : LineInv c g b m lp) (hs : lp.conn ≠ 0 ∨ lp.txbfd = true) :
    0 < lp.txbsz := by
  cases hb : lp.txbfd
  · have hc : lp.conn ≠ 0 := by simpa [hb] using hs
    rcases h.usize (h.buffered_eq_zero hb) with hsz | hsz
    · have := c.guard_lt
      omega
    · exact absurd hsz.2 (h.conn hc)
  · rw [h.bsize (h.bufd.1 hb)]
    exact Nat.pos_of_ne_zero (h.bufd.1 hb)

/-- The invariant reads neither the counters, nor the receive enable, nor the log. -/
theorem LineInv.congr {lp' : Line} {rcve : Bool} {txcnt : Int} {txlog : Option SmpFile}
    {txlogref : Option Nat} {txlogname : Option String} (h : LineInv c g b m lp)
    (e : lp' = { lp with rcve, txcnt, txlog, txlogref, txlogname }) : LineInv c g b m lp' := by
  subst e
  exact ⟨h.1, h.2, h.3, h.4, h.5, h.6, h.7, h.8⟩

/-- A line that is not connected keeps the invariant when the master socket is closed. -/
theorem LineInv.close (h : LineInv c g b m lp) (hc : lp.conn = 0) : LineInv c g b 0 lp where
  bufd := h.bufd
  bsize := h.bsize
  usize hb := (h.usize hb).imp id fun h' ↦ ⟨h'.1, rfl⟩
  conn hc' := absurd hc hc'
  ring := h.ring
  rx := h.rx
  idle := h.idle
  xmte := h.xmte

/-- A change of the transmit side keeps the invariant when it keeps the pointers in range,
the queue of an idle unbuffered line empty, and the transmit enable honest. -/
theorem LineInv.of_txFrame {lp' : Line} (h : LineInv c g b m lp) (hf : TxFrame lp lp')
    (hring : RingOk lp → RingOk lp')
    (hidle : lp.conn = 0 → lp.txbfd = false → lp.txbpi = lp.txbpr → lp'.txbpi = lp'.txbpr)
    (hx : XmteOk c lp') : LineInv c g b m lp' where
  bufd := by rw [hf.txbfd]; exact h.bufd
  bsize hb := by rw [hf.txbsz]; exact h.bsize hb
  usize hb := by rw [hf.txbsz]; exact h.usize hb
  conn hc := h.conn (by rwa [hf.conn] at hc)
  ring hs hg := hring (h.ring (by rwa [hf.txbsz] at hs) (by rwa [hf.txbsz] at hg))
  rx := by rw [hf.rxbpi, hf.rxbpr]; exact h.rx
  idle hc := by
    rw [hf.conn] at hc
    obtain ⟨h₁, h₂, h₃⟩ := h.idle hc
    rw [hf.rxbpi, hf.rxbpr, hf.txbfd]
    exact ⟨h₁, h₂, fun hb ↦ hidle hc hb (h₃ hb)⟩
  xmte := hx

end

/-! ## Putting characters -/

section Put

variable (c : Consts) {lp : Line}

@[simp]
theorem txbufChar_xmte (lp : Line) (ch : UInt8) : (txbufChar lp ch).xmte = lp.xmte := by
  unfold txbufChar
  dsimp only
  split_ifs <;> rfl

@[simp]
theorem txbufStuff_xmte (lp : Line) (chr : UInt8) : (txbufStuff lp chr).xmte = lp.xmte := by
  unfold txbufStuff
  split_ifs <;> simp

theorem tmxrPutcLn_xmte_true {chr : UInt8} (h : (tmxrPutcLn c lp chr).1.xmte = true) :
    lp.xmte = true := by
  unfold tmxrPutcLn at h
  dsimp only at h
  split_ifs at h <;> simpa using h

theorem tmxrLinemsg_xmte_true {msg : List UInt8} (h : (tmxrLinemsg c lp msg).xmte = true) :
    lp.xmte = true := by
  induction msg generalizing lp with
  | nil => exact h
  | cons ch msg ih => exact tmxrPutcLn_xmte_true c (ih h)

/-- A put clears the transmit enable whenever it leaves `TMXR_GUARD` free places or fewer. -/
theorem tmxrPutcLn_xmteOk (h : XmteOk c lp) (chr : UInt8) : XmteOk c (tmxrPutcLn c lp chr).1 := by
  unfold tmxrPutcLn
  dsimp only
  split_ifs with h₁ h₂ h₃ h₄
  · exact h
  · exact h
  · intro _ _ hx
    simp at hx
  · exact fun hb _ _ ↦ Int.not_le.1 fun h' ↦ h₄ ⟨hb, h'⟩
  · intro _ _ hx
    simp at hx

theorem tmxrLinemsg_xmteOk (h : XmteOk c lp) (msg : List UInt8) :
    XmteOk c (tmxrLinemsg c lp msg) := by
  induction msg generalizing lp with
  | nil => exact h
  | cons ch msg ih => exact ih (tmxrPutcLn_xmteOk c h ch)

theorem tmxrLinemsg_ringOk (h : RingOk lp) (msg : List UInt8) : RingOk (tmxrLinemsg c lp msg) := by
  induction msg generalizing lp with
  | nil => exact h
  | cons ch msg ih => exact ih (tmxrPutcLn_ringOk c h ch)

/-- A put on a line that is neither connected nor buffered stores nothing. -/
theorem tmxrPutcLn_idle (chr : UInt8) (hc : lp.conn = 0) (hb : lp.txbfd = false) :
    (tmxrPutcLn c lp chr).1.txbpi = lp.txbpi ∧ (tmxrPutcLn c lp chr).1.txbpr = lp.txbpr := by
  unfold tmxrPutcLn
  rw [if_pos ⟨hc, hb⟩]
  split_ifs <;> exact ⟨rfl, rfl⟩

/-- On a connected unbuffered line, a put that leaves the transmitter enabled stored its
character, if it is not IAC, without dropping anything. -/
theorem tmxrPutcLn_stored {chr : UInt8} (hc : lp.conn ≠ 0) (hb : lp.txbfd = false)
    (hr : RingOk lp) (hch : chr ≠ tnIac) (hx : (tmxrPutcLn c lp chr).1.xmte = true) :
    (tmxrPutcLn c lp chr).1.txbpr = lp.txbpr ∧
      tmxrTqln (tmxrPutcLn c lp chr).1 = tmxrTqln lp + 1 := by
  have hs : txbufStuff lp chr = txbufChar lp chr := by rw [txbufStuff, if_neg hch]
  unfold tmxrPutcLn at hx ⊢
  rw [if_neg fun h ↦ hc h.1] at hx ⊢
  dsimp only at hx ⊢
  by_cases h₁ : lp.txbfd = true ∨ 1 < txbufAvail lp
  · rw [if_pos h₁] at hx ⊢
    by_cases h₂ : (txbufStuff lp chr).txbfd = false ∧ txbufAvail (txbufStuff lp chr) ≤ c.guard
    · rw [if_pos h₂] at hx
      simp at hx
    · rw [if_neg h₂, hs]
      refine txbufChar_of_not_full hr chr ?_
      unfold txbufAvail at h₁
      simp only [hb, Bool.false_eq_true, false_or] at h₁
      omega
  · rw [if_neg h₁] at hx
    simp at hx

/-- On a connected unbuffered line, a message with no IAC that leaves the transmitter enabled
was stored whole, behind the queue, with nothing dropped. -/
theorem tmxrLinemsg_unbuffered {msg : List UInt8} (hc : lp.conn ≠ 0) (hb : lp.txbfd = false)
    (hr : RingOk lp) (hiac : tnIac ∉ msg) (hx : (tmxrLinemsg c lp msg).xmte = true) :
    (tmxrLinemsg c lp msg).txbpr = lp.txbpr ∧
      tmxrTqln (tmxrLinemsg c lp msg) = tmxrTqln lp + msg.length := by
  induction msg generalizing lp with
  | nil => exact ⟨rfl, by simp [tmxrLinemsg]⟩
  | cons ch msg ih =>
    have hf := tmxrPutcLn_txFrame c lp ch
    obtain ⟨hpr, hq⟩ := tmxrPutcLn_stored c hc hb hr
      (fun e ↦ hiac (e ▸ List.mem_cons_self ch msg)) (tmxrLinemsg_xmte_true c hx)
    obtain ⟨hpr', hq'⟩ := ih (by rwa [hf.conn]) (by rwa [hf.txbfd]) (tmxrPutcLn_ringOk c hr ch)
      (fun e ↦ hiac (List.mem_cons_of_mem ch e)) hx
    refine ⟨hpr'.trans hpr, ?_⟩
    show tmxrTqln (tmxrLinemsg c (tmxrPutcLn c lp ch).1 msg) = _
    rw [hq', hq, List.length_cons]
    omega

end Put

section

variable {c : Consts} {g b m : Nat} {lp : Line}

theorem tmxrPutcLn_lineInv (h : LineInv c g b m lp) (chr : UInt8) :
    LineInv c g b m (tmxrPutcLn c lp chr).1 :=
  h.of_txFrame (tmxrPutcLn_txFrame c lp chr) (tmxrPutcLn_ringOk c · chr)
    (fun hc hb he ↦ by rw [(tmxrPutcLn_idle c chr hc hb).1, (tmxrPutcLn_idle c chr hc hb).2, he])
    (tmxrPutcLn_xmteOk c h.xmte chr)

theorem tmxrLinemsg_lineInv (h : LineInv c g b m lp) (msg : List UInt8) :
    LineInv c g b m (tmxrLinemsg c lp msg) := by
  induction msg generalizing lp with
  | nil => exact h
  | cons ch msg ih => exact ih (tmxrPutcLn_lineInv h ch)

/-- A put that finds more than one free place returns `SCPE_OK`. -/
theorem tmxrPutcLn_ok (hc : lp.conn ≠ 0) (ha : 1 < txbufAvail lp) (chr : UInt8) :
    (tmxrPutcLn c lp chr).2 = .ok := by
  unfold tmxrPutcLn
  rw [if_neg fun h ↦ hc h.1, if_pos (.inr ha)]
  dsimp only
  split_ifs <;> rfl

/-- With a guard of two places or more, a put on a connected unbuffered line whose
transmitter is enabled stores the whole stuffed character and drops nothing. -/
theorem LineInv.putc_whole (hg : g ≤ c.maxbuf) (h : LineInv c g b m lp) (hc : lp.conn ≠ 0)
    (hb : lp.txbfd = false) (hx : lp.xmte = true) (h2 : 2 ≤ c.guard) (chr : UInt8) :
    (tmxrPutcLn c lp chr).2 = .ok ∧ txRing (tmxrPutcLn c lp chr).1 = txRing lp ++ stuff chr ∧
      (tmxrPutcLn c lp chr).1.txdrp = lp.txdrp := by
  have hsz : lp.txbsz ≠ 0 := Nat.pos_iff_ne_zero.1 (h.txbsz_pos (.inl hc))
  have hr := h.ringOk_of_unbuffered hg hb hsz
  have ha : c.guard < txbufAvail lp := h.xmte hb hsz hx
  have hq := (tmxrTqln_ringOk hr).1
  have hlen : (txRing lp ++ stuff chr).length ≤ lp.txbsz - 1 := by
    have : (stuff chr).length ≤ 2 := by unfold stuff; split <;> simp
    rw [List.length_append, length_txRing]
    unfold txbufAvail at ha
    omega
  rcases tmxrPutcLn_ring c hr (.inl hc) chr with ⟨hok, hring, hdrp⟩ | ⟨hst, -, -⟩
  · rw [List.rtake, Nat.sub_eq_zero_of_le hlen, List.drop_zero] at hring
    rw [hring, List.length_append] at hdrp
    exact ⟨hok, hring, by omega⟩
  · rw [tmxrPutcLn_ok hc (by omega)] at hst
    cases hst

end

/-! ## Sending -/

section Send

variable {c : Consts} {lp : Line}

/-- A turn of `tmxr_poll_tx` leaves the transmit enable alone, or empties the queue. -/
theorem pollTxLn_xmte (hr : RingOk lp) (w : SockWrite × SockWrite) :
    (pollTxLn lp w).1.xmte = lp.xmte ∨ tmxrTqln (pollTxLn lp w).1 = 0 := by
  unfold pollTxLn
  split_ifs with hc
  · exact .inl rfl
  · have hs := tmxrSendBufferedData_spec hr w.1 w.2
    obtain ⟨p, hp⟩ := hs.frame
    dsimp only
    split_ifs with h0
    · exact .inr (hs.left ▸ h0)
    · exact .inl (by rw [hp])

/-- Sending only makes room, and a drained line has all `txbsz` places free. -/
theorem pollTxLn_xmteOk (hr : RingOk lp) (hg : c.guard < lp.txbsz) (h : XmteOk c lp)
    (w : SockWrite × SockWrite) : XmteOk c (pollTxLn lp w).1 := by
  obtain ⟨hr', hcons, -⟩ := pollTxLn_spec hr w
  have hf := pollTxLn_txFrame lp w
  have hle : tmxrTqln (pollTxLn lp w).1 ≤ tmxrTqln lp := by
    have hl := congrArg List.length hcons
    rw [List.length_append, length_txRing, length_txRing] at hl
    have := (tmxrTqln_ringOk hr').1
    have := (tmxrTqln_ringOk hr).1
    omega
  intro hb hsz hx
  unfold txbufAvail
  rw [hf.txbsz]
  rcases pollTxLn_xmte hr w with hx' | h0
  · have := h (by rwa [hf.txbfd] at hb) (by rwa [hf.txbsz] at hsz) (hx' ▸ hx)
    unfold txbufAvail at this
    omega
  · rw [h0, Int.sub_zero]
    exact_mod_cast hg

end Send

section

variable {c : Consts} {g b m : Nat} {lp : Line}

theorem pollTxLn_lineInv (hg : g ≤ c.maxbuf) (h : LineInv c g b m lp) (w : SockWrite × SockWrite) :
    LineInv c g b m (pollTxLn lp w).1 := by
  have hf := pollTxLn_txFrame lp w
  refine h.of_txFrame hf (fun hr ↦ (pollTxLn_spec hr w).1)
    (fun hc _ he ↦ by rw [pollTxLn, if_pos hc]; exact he) ?_
  intro hb hsz
  have hb₀ : lp.txbfd = false := by rwa [hf.txbfd] at hb
  have hsz₀ : lp.txbsz ≠ 0 := by rwa [hf.txbsz] at hsz
  refine pollTxLn_xmteOk (h.ringOk_of_unbuffered hg hb₀ hsz₀) ?_ h.xmte w hb hsz
  rw [h.txbsz_of_unbuffered hb₀ hsz₀]
  exact c.guard_lt

end

/-! ## Resetting -/

section

variable {c : Consts} {g b m : Nat} {lp : Line}

theorem ringOk_of_empty (hsz : 0 < lp.txbsz) (h0 : lp.txbpr = 0) (h1 : lp.txbpi = 0) : RingOk lp :=
  ⟨hsz, by omega, by omega, by omega, by omega⟩

/-- An empty queue leaves all `txbsz` places free. -/
theorem xmteOk_of_empty (hsz : lp.txbfd = false → lp.txbsz ≠ 0 → c.guard < lp.txbsz)
    (he : lp.txbpi = lp.txbpr) : XmteOk c lp := by
  intro hb hs _
  unfold txbufAvail
  rw [tmxrTqln_of_eq he, Int.sub_zero]
  exact_mod_cast hsz hb hs

/-- An idle line with an empty receive buffer and, unbuffered, an empty queue is invariant
as soon as its buffer is the one its multiplexer's buffering gives it and its pointers are in
range. -/
theorem lineInv_of_idle (hbfd : lp.txbfd = true ↔ b ≠ 0) (hbsz : b ≠ 0 → lp.txbsz = b)
    (husz : b = 0 → lp.txbsz = c.maxbuf ∨ lp.txbsz = 0 ∧ m = 0) (hc : lp.conn = 0)
    (hrx : lp.rxbpi = 0 ∧ lp.rxbpr = 0) (hring : lp.txbsz ≠ 0 → g ≤ lp.txbsz → RingOk lp)
    (hub : lp.txbfd = false → lp.txbpi = lp.txbpr) : LineInv c g b m lp where
  bufd := hbfd
  bsize := hbsz
  usize := husz
  conn hc' := absurd hc hc'
  ring := hring
  rx := by rw [hrx.1, hrx.2]; exact ⟨le_rfl, Nat.zero_le _⟩
  idle _ := ⟨hrx.1, hrx.2, hub⟩
  xmte hb hs := by
    have hb0 : b = 0 := by simpa [hb] using hbfd
    have hmax : lp.txbsz = c.maxbuf := (husz hb0).resolve_right fun h' ↦ hs h'.1
    exact xmteOk_of_empty (fun _ _ ↦ hmax ▸ c.guard_lt) (hub hb) hb hs

/-- Giving a line a fresh, empty buffer that agrees with its multiplexer's new buffering `b'`
keeps the invariant; the connection and the receive side are untouched. -/
theorem LineInv.rebuffer (h : LineInv c g b m lp) {b' sz : Nat} {bfd : Bool}
    (hbfd : bfd = true ↔ b' ≠ 0) (hbsz : b' ≠ 0 → sz = b') (husz : b' = 0 → sz = c.maxbuf)
    (hsz : 0 < sz) :
    LineInv c g b' m { lp with txbsz := sz, txbfd := bfd, txbpi := 0, txbpr := 0 } where
  bufd := hbfd
  bsize := hbsz
  usize hb := .inl (husz hb)
  conn := h.conn
  ring _ _ := ringOk_of_empty hsz rfl rfl
  rx := h.rx
  idle hc := ⟨(h.idle hc).1, (h.idle hc).2.1, fun _ ↦ rfl⟩
  xmte := xmteOk_of_empty
    (fun (hb : bfd = false) _ ↦ husz (by simpa [hb] using hbfd) ▸ c.guard_lt) rfl

end

/-- What `tmxr_reset_ln` leaves: the buffer the line had, no connection, no input, and a queue
that is what the send left on a buffered line and is emptied at 0 on an unbuffered one. -/
theorem tmxrResetLn_spec (lp : Line) (w : SockWrite × SockWrite) :
    (tmxrResetLn lp w).txbfd = lp.txbfd ∧ (tmxrResetLn lp w).txbsz = lp.txbsz ∧
      (tmxrResetLn lp w).conn = 0 ∧ (tmxrResetLn lp w).rxbpi = 0 ∧ (tmxrResetLn lp w).rxbpr = 0 ∧
      (lp.txbfd = false → (tmxrResetLn lp w).txbpi = 0 ∧ (tmxrResetLn lp w).txbpr = 0) ∧
      (lp.txbfd = true → RingOk lp → RingOk (tmxrResetLn lp w)) := by
  have hf := tmxrSendBufferedData_txFrame lp w.1 w.2
  unfold tmxrResetLn
  dsimp only
  split_ifs with hb
  · refine ⟨hf.txbfd, hf.txbsz, rfl, rfl, rfl, fun hb' ↦ ?_, fun _ hr ↦
      (tmxrSendBufferedData_spec hr w.1 w.2).ringOk⟩
    rw [hf.txbfd, hb'] at hb
    exact absurd hb Bool.false_ne_true
  · refine ⟨hf.txbfd, hf.txbsz, rfl, rfl, rfl, fun _ ↦ ⟨rfl, rfl⟩, fun hb' _ ↦ ?_⟩
    rw [hf.txbfd, hb'] at hb
    exact absurd rfl hb

section

variable {c : Consts} {g b m : Nat} {lp : Line}

theorem tmxrResetLn_lineInv (h : LineInv c g b m lp) (w : SockWrite × SockWrite) :
    LineInv c g b m (tmxrResetLn lp w) := by
  obtain ⟨hbfd, hsz, hc, hpi, hpr, hub, hbr⟩ := tmxrResetLn_spec lp w
  refine lineInv_of_idle (by rw [hbfd]; exact h.bufd) (by rw [hsz]; exact h.bsize)
    (by rw [hsz]; exact h.usize) hc ⟨hpi, hpr⟩ (fun hs hg ↦ ?_) fun hb ↦ ?_
  · cases hb : lp.txbfd
    · obtain ⟨h₁, h₂⟩ := hub hb
      exact ringOk_of_empty (Nat.pos_of_ne_zero hs) h₂ h₁
    · exact hbr hb (h.ring (hsz ▸ hs) (hsz ▸ hg))
  · obtain ⟨h₁, h₂⟩ := hub (hbfd ▸ hb)
    rw [h₁, h₂]

end

/-! ## Accepting a connection -/

section Connect

variable (c : Consts) (lp : Line) (sock : Nat) (msg : List UInt8)

/-- `tmxr_poll_conn` on an unbuffered line: the queue is emptied at `txbsz - |msg|`, the
greeting stored from there, and the insertion pointer put back at 0. -/
theorem connLine_unbuffered :
    connLine c 0 lp sock msg =
      { tmxrLinemsg c { lp with
          conn := sock
          txbpi := lp.txbsz - msg.length
          txbpr := lp.txbsz - msg.length
          rxcnt := 0
          txcnt := 0
          txdrp := 0
          tsta := .norm
          xmte := true
          dstb := false } msg with txbpi := 0 } :=
  rfl

/-- `tmxr_poll_conn` on a buffered line: the greeting is stored from the removal pointer it
chooses, and the insertion pointer put back where it was. -/
theorem connLine_buffered {b : Nat} (hb : b ≠ 0) :
    connLine c b lp sock msg =
      { tmxrLinemsg c { lp with
          conn := sock
          txbpi := if lp.txcnt > lp.txbsz then Int.tmod (lp.txbpi + 1) lp.txbsz
            else lp.txbsz - msg.length
          txbpr := if lp.txcnt > lp.txbsz then Int.tmod (lp.txbpi + 1) lp.txbsz
            else lp.txbsz - msg.length
          tsta := .norm
          xmte := true
          dstb := false } msg with txbpi := lp.txbpi } := by
  unfold connLine
  dsimp only
  rw [if_neg hb]
  split_ifs <;> rfl

variable {c lp sock msg}

/-- The pointers stay in range when the greeting fits the buffer. -/
theorem connLine_ringOk {b : Nat} (hsz : 0 < lp.txbsz) (hpos : 0 < msg.length)
    (hfit : msg.length ≤ lp.txbsz) (hr : b ≠ 0 → RingOk lp) :
    RingOk (connLine c b lp sock msg) := by
  by_cases hb : b = 0
  · subst hb
    rw [connLine_unbuffered]
    refine ringOk_setTxbpi (tmxrLinemsg_ringOk c ?_ msg) (Int.le_refl 0) ?_
    · refine ⟨hsz, ?_, ?_, ?_, ?_⟩ <;> dsimp only <;> omega
    · rw [(tmxrLinemsg_txFrame c _ msg).txbsz]
      exact_mod_cast hsz
  · obtain ⟨-, hr0, hrs, hi0, his⟩ := hr hb
    rw [connLine_buffered c lp sock msg hb]
    have hp : 0 ≤ (if lp.txcnt > lp.txbsz then Int.tmod (lp.txbpi + 1) lp.txbsz
        else lp.txbsz - msg.length) ∧ (if lp.txcnt > lp.txbsz then Int.tmod (lp.txbpi + 1) lp.txbsz
        else lp.txbsz - msg.length) < lp.txbsz := by
      split_ifs
      · rw [tmod_succ_of_lt hi0 his]
        exact wrapIdx_mem (by omega) (by omega) hsz
      · omega
    refine ringOk_setTxbpi (tmxrLinemsg_ringOk c ?_ msg) hi0 ?_
    · exact ⟨hsz, hp.1, hp.2, hp.1, hp.2⟩
    · rw [(tmxrLinemsg_txFrame c _ msg).txbsz]
      exact his

/-- An IAC-free message stored into the empty queue of a connected unbuffered line, with the
insertion pointer then put where the message ends, leaves the transmit enable honest. -/
theorem xmteOk_linemsg_restore {S : Line} {p : Int} (hc : S.conn ≠ 0) (hb : S.txbfd = false)
    (hr : RingOk S) (he : S.txbpi = S.txbpr) (hS : XmteOk c S) (hiac : tnIac ∉ msg)
    (hend : wrapIdx S.txbsz (S.txbpr + msg.length) = p) :
    XmteOk c { tmxrLinemsg c S msg with txbpi := p } := by
  intro hb' hsz' hx
  obtain ⟨hpr, hq⟩ := tmxrLinemsg_unbuffered c hc hb hr hiac hx
  have hpi : (tmxrLinemsg c S msg).txbpi = p := by
    rw [(tmxrTqln_ringOk (tmxrLinemsg_ringOk c hr msg)).2.2, hpr, hq, tmxrTqln_of_eq he,
      (tmxrLinemsg_txFrame c S msg).txbsz, Int.zero_add]
    exact hend
  subst hpi
  exact tmxrLinemsg_xmteOk c hS msg hb' hsz' hx

/-- The greeting of an unbuffered line is stored whole, or clears the transmit enable. -/
theorem connLine_xmteOk {b : Nat} (hbfd : lp.txbfd = true ↔ b ≠ 0) (hsock : sock ≠ 0)
    (hiac : tnIac ∉ msg) (hpos : 0 < msg.length)
    (hmax : lp.txbfd = false → lp.txbsz ≠ 0 → c.guard < lp.txbsz ∧ msg.length ≤ lp.txbsz) :
    XmteOk c (connLine c b lp sock msg) := by
  have hf := connLine_txFrame c b lp sock msg
  by_cases hfree : lp.txbfd = false ∧ lp.txbsz ≠ 0
  · obtain ⟨hb, hsz⟩ := hfree
    obtain ⟨hg, hfit⟩ := hmax hb hsz
    obtain rfl : b = 0 := by simpa [hb] using hbfd
    rw [connLine_unbuffered]
    apply xmteOk_linemsg_restore
    · exact hsock
    · exact hb
    · refine ⟨?_, ?_, ?_, ?_, ?_⟩ <;> dsimp only <;> omega
    · rfl
    · exact xmteOk_of_empty (fun _ _ ↦ hg) rfl
    · exact hiac
    · dsimp only
      unfold wrapIdx
      rw [if_neg (by omega)]
      omega
  · intro hb hsz
    rw [hf.txbfd] at hb
    rw [hf.txbsz] at hsz
    exact absurd ⟨hb, hsz⟩ hfree

variable {g b m : Nat}

/-- A connection keeps the invariant of the line it is made on, when the master socket is open,
the socket is a real one and the greeting is IAC-free and fits `g`. -/
theorem connLine_lineInv (hg : g ≤ c.maxbuf) (h : LineInv c g b m lp) (hm : m ≠ 0)
    (hsock : sock ≠ 0) (hiac : tnIac ∉ msg) (hpos : 0 < msg.length) (hlen : msg.length ≤ g) :
    LineInv c g b m (connLine c b lp sock msg) := by
  have hf := connLine_txFrame c b lp sock msg
  refine ⟨?_, ?_, ?_, fun _ ↦ hm, fun hs hg' ↦ ?_, ?_, fun hc ↦ ?_,
    connLine_xmteOk h.bufd hsock hiac hpos fun hb hs ↦ ?_⟩
  · rw [hf.txbfd]; exact h.bufd
  · rw [hf.txbsz]; exact h.bsize
  · rw [hf.txbsz]; exact h.usize
  · rw [hf.txbsz] at hs hg'
    dsimp only at hs hg'
    exact connLine_ringOk (Nat.pos_of_ne_zero hs) hpos (by omega) fun _ ↦ h.ring hs hg'
  · rw [hf.rxbpi, hf.rxbpr]; exact h.rx
  · rw [hf.conn] at hc
    exact absurd hc hsock
  · rw [h.txbsz_of_unbuffered hb hs]
    exact ⟨c.guard_lt, by omega⟩

end Connect


/-! ## Receiving -/

section Receive

variable {c : Consts} {g b m : Nat} {lp : Line}

/-- A change of the receive side keeps the invariant when it keeps the receive pointers ordered
within `TMXR_MAXBUF`, and an idle line's buffer empty. -/
theorem LineInv.of_rxSide {lp' : Line} {rxb : Nat → UInt8} {rbr : Nat → Bool}
    {rxbpi rxbpr rxcnt : Nat} {tsta : Tns} {dstb : Bool} (h : LineInv c g b m lp)
    (e : lp' = { lp with rxb, rbr, rxbpi, rxbpr, rxcnt, tsta, dstb })
    (hrx : rxbpr ≤ rxbpi ∧ rxbpi ≤ c.maxbuf) (hidle : lp.conn = 0 → rxbpi = 0 ∧ rxbpr = 0) :
    LineInv c g b m lp' := by
  subst e
  exact ⟨h.bufd, h.bsize, h.usize, h.conn, h.ring, hrx,
    fun hc ↦ ⟨(hidle hc).1, (hidle hc).2, (h.idle hc).2.2⟩, h.xmte⟩

theorem rxRewind_lineInv (h : LineInv c g b m lp) : LineInv c g b m (rxRewind lp) := by
  unfold rxRewind
  split_ifs
  · exact h.of_rxSide rfl ⟨le_rfl, Nat.zero_le _⟩ fun _ ↦ ⟨rfl, rfl⟩
  · exact h

theorem tmxrGetcLn_lineInv (h : LineInv c g b m lp) : LineInv c g b m (tmxrGetcLn c lp).1 := by
  unfold tmxrGetcLn
  split_ifs with hc
  · have hne := hc.2.2
    have := h.rx.1
    exact rxRewind_lineInv (h.of_rxSide rfl ⟨by omega, h.rx.2⟩ fun h0 ↦ absurd h0 hc.1)
  · exact rxRewind_lineInv h

/-- A read asks for no more than the room left below `TMXR_MAXBUF`. -/
theorem rxReadLen_le {n : Nat} (h : rxReadLen c lp = some n) (hpi : lp.rxbpi ≤ c.maxbuf) :
    lp.rxbpi + n ≤ c.maxbuf := by
  unfold rxReadLen at h
  split_ifs at h <;> cases h <;> omega

theorem pollRxLn_lineInv (h : LineInv c g b m lp) (rd : SockRead) (w : SockWrite × SockWrite)
    (dbg : Bool) : LineInv c g b m (pollRxLn c lp rd w dbg).1 := by
  unfold pollRxLn
  split_ifs with hc
  · exact h
  rcases hn : rxReadLen c lp with _ | n
  · exact h
  cases rd with
  | closed => exact tmxrResetLn_lineInv h w
  | data bs =>
    dsimp only
    by_cases hb : bs.take n = []
    · rw [if_pos hb]
      exact h
    rw [if_neg hb]
    have hread := rxReadLen_le hn h.rx.2
    have hlen := List.length_take_le n bs
    refine h.of_rxSide (Eq.trans (filterLoop_frame _ _) rfl) ⟨?_, ?_⟩ fun h0 ↦ absurd (.inl h0) hc
    · exact Nat.le_trans h.rx.1 (le_filterLoop_rxbpi _ _ (Nat.le_add_right _ _))
    · exact Nat.le_trans (filterLoop_rxbpi_le _ _)
        (show lp.rxbpi + (bs.take n).length ≤ c.maxbuf by omega)

end Receive

end TelnetMux
