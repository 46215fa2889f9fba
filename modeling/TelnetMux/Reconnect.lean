import TelnetMux.System

/-!
# What a new session sees

A client that `tmxr_poll_conn` accepts is to see its greeting first, and the simulator is to
read from its line only what that client sends. On a free unbuffered line both hold in every
reachable state, by the invariant of `TelnetMux.System`: an idle line holds no input, and the
greeting fills the emptied queue exactly. But the search for a free line can hand the new
socket to a busy line, and `tmxr_poll_conn` clears neither the receive buffer nor its
pointers: what the previous client sent and the simulator has not read yet is read as the new
client's input.

On a buffered line the greeting is stored in front of what the buffer holds, from a removal
pointer that `tmxr_poll_conn` guesses from the count of bytes sent: `txbsz - |G|` when no more
than `txbsz` bytes were sent. Below zero when the buffer is smaller than the greeting, that
pointer makes the greeting's insertion write outside the buffer; and when the buffer's
insertion pointer is past it, the queue that follows is a piece of the greeting only.
-/

namespace TelnetMux

/-! ## A busy line taken over -/

/-- A poll that reads one byte `x`, not IAC, on a live line with an empty buffer, in `TNS_NORM`
with `dstb` clear, leaves `x` as the one waiting character. -/
theorem pollRxLn_one_byte (c : Consts) {lp : Line} (h : RxLive lp) (hpi : lp.rxbpi = 0)
    (hpr : lp.rxbpr = 0) (hst : lp.tsta = .norm) (hd : lp.dstb = false) {x : UInt8}
    (hx : x ≠ tnIac) (w : SockWrite × SockWrite) (dbg : Bool) :
    rxPending (rxRewind (pollRxLn c lp (.data [x]) w dbg).1) = [(x, false)] ∧
      RxLive (rxRewind (pollRxLn c lp (.data [x]) w dbg).1) := by
  obtain ⟨hpend, -, hlive⟩ := pollRxLn_data c [x] w dbg h
  have htaken : rxTaken c lp (.data [x]) = [x] := by
    obtain ⟨n, hn⟩ : ∃ n, c.maxbuf - c.guard = n + 1 :=
      ⟨c.maxbuf - c.guard - 1, by have := c.guard_lt; omega⟩
    simp [rxTaken, rxReadLen, hpi, hn]
  rw [htaken, hst, hd, show rxPending lp = [] by simp [rxPending, hpi, hpr]] at hpend
  refine ⟨?_, rxLive_rxRewind hlive⟩
  rw [rxPending_rxRewind, hpend]
  simp [tnFilter, tnFilterStep, tnByte, tnNorm, hx]

/-- On two lines in the order `1;0`, both free: client `a` is accepted on line 1 and `b` on
line 0, line 1 starts receiving and a poll reads `x` from `a`; the next client `d` finds both
lines busy and is handed line 1, where `tmxr_getc_ln` returns `a`'s byte as the first
character of `d`'s session. -/
theorem busy_reconnect_leaks_input (c : Consts) (mp : Tmxr) (hl : mp.lines = 2)
    (ho : mp.lnorder = some [1, 0]) (h0 : (mp.ldsc 0).conn = 0) (h1 : (mp.ldsc 1).conn = 0)
    (hrx : (mp.ldsc 1).rxbpi = 0 ∧ (mp.ldsc 1).rxbpr = 0) {a b d : Nat} (ha : a ≠ 0)
    (hb : b ≠ 0) (hd : d ≠ 0) {x : UInt8} (hx : x ≠ tnIac) (w : Nat → SockWrite × SockWrite)
    (wr : SockWrite × SockWrite) (dbg : Bool) :
    let mp' := muxRun c mp [.pollConn (some a) w, .pollConn (some b) w, .setRcve 1 true,
      .pollRx fun _ ↦ ⟨.data [x], wr, dbg⟩, .pollConn (some d) w]
    (mp'.ldsc 1).conn = d ∧ (tmxrGetcLn c (mp'.ldsc 1)).2 = rxValue c x false := by
  dsimp only [muxRun, muxStep]
  have hk₁ : connLineIdx mp = (1 : Nat) := by rw [connLineIdx_pair mp hl ho, if_pos h1]; rfl
  have l₁ := tmxrPollConn_ldsc_self mp c a w hk₁ (by omega)
  have z₁ := tmxrPollConn_ldsc_of_ne mp c a w hk₁ (by omega) (i := 0) (by omega) (by decide)
  have hl₁ : (tmxrPollConn c mp (some a) w).1.lines = 2 := by rw [tmxrPollConn_lines, hl]
  have ho₁ := (tmxrPollConn_lnorder mp c w (some a)).trans ho
  generalize (tmxrPollConn c mp (some a) w).1 = mp₁ at l₁ z₁ hl₁ ho₁ ⊢
  have hk₂ : connLineIdx mp₁ = (0 : Nat) := by
    rw [connLineIdx_pair mp₁ hl₁ ho₁, if_neg (by rw [l₁.conn]; exact ha),
      if_pos (by rw [z₁.conn]; exact h0)]
    rfl
  have l₂ := tmxrPollConn_ldsc_of_ne mp₁ c b w hk₂ (by omega) (i := 1) (by omega) (by decide)
  have z₂ := tmxrPollConn_ldsc_self mp₁ c b w hk₂ (by omega)
  have hl₂ : (tmxrPollConn c mp₁ (some b) w).1.lines = 2 := by rw [tmxrPollConn_lines, hl₁]
  have ho₂ := (tmxrPollConn_lnorder mp₁ c w (some b)).trans ho₁
  generalize (tmxrPollConn c mp₁ (some b) w).1 = mp₂ at l₂ z₂ hl₂ ho₂ ⊢
  have hpi : (mp₂.ldsc 1).rxbpi = 0 := by rw [l₂.rxbpi, l₁.rxbpi]; exact hrx.1
  have hpr : (mp₂.ldsc 1).rxbpr = 0 := by rw [l₂.rxbpr, l₁.rxbpr]; exact hrx.2
  obtain ⟨hpend, hlive⟩ := pollRxLn_one_byte c (show RxLive { mp₂.ldsc 1 with rcve := true } from
      ⟨by rw [l₂.conn, l₁.conn]; exact ha, rfl, by simp only [hpi, hpr, Nat.le_refl]⟩)
    hpi hpr (l₂.tsta.trans l₁.tsta) (l₂.dstb.trans l₁.dstb) hx wr dbg
  generalize hmp₄ : tmxrPollRx c (mp₂.setLine 1 { mp₂.ldsc 1 with rcve := true })
    (fun _ ↦ ⟨.data [x], wr, dbg⟩) = mp₄
  have e₁ : mp₄.ldsc 1 =
      rxRewind (pollRxLn c { mp₂.ldsc 1 with rcve := true } (.data [x]) wr dbg).1 := by
    rw [← hmp₄, tmxrPollRx_ldsc c _ _ (by rw [Tmxr.setLine_lines, hl₂]; decide),
      Tmxr.setLine_ldsc_self]
  have e₀ : (mp₄.ldsc 0).conn = b := by
    rw [← hmp₄, tmxrPollRx_ldsc c _ _ (by rw [Tmxr.setLine_lines, hl₂]; decide),
      Tmxr.setLine_ldsc_of_ne _ _ (by decide), rxRewind_conn, pollRxLn_data_conn, z₂.conn]
  have hl₄ : mp₄.lines = 2 := by rw [← hmp₄]; exact hl₂
  have ho₄ : mp₄.lnorder = some [1, 0] := by rw [← hmp₄]; exact ho₂
  rw [← e₁] at hpend hlive
  have hk₅ : connLineIdx mp₄ = (1 : Nat) := by
    rw [connLineIdx_pair mp₄ hl₄ ho₄, if_neg hlive.1, if_neg (by rw [e₀]; exact hb)]
    rfl
  have l₅ := tmxrPollConn_ldsc_self mp₄ c d w hk₅ (by omega)
  exact ⟨l₅.conn, tmxrGetcLn_first c (by rw [l₅.conn]; exact hd) (by rw [l₅.rcve]; exact hlive.2.1)
    (l₅.rxPending.trans hpend)⟩

/-- Two lines in the order `1;0` with the port open on master socket 3. -/
def pairOpen : Tmxr :=
  muxStep sampleConsts (Tmxr.init 2 (some [1, 0]) none) (.openMaster (.port 23) (some 3))

theorem pairOpen_leaks_input :
    let mp' := muxRun sampleConsts pairOpen [.pollConn (some 5) fun _ ↦ (.error, .error),
      .pollConn (some 6) fun _ ↦ (.error, .error), .setRcve 1 true,
      .pollRx fun _ ↦ ⟨.data [0x41], (.error, .error), false⟩,
      .pollConn (some 7) fun _ ↦ (.error, .error)]
    (mp'.ldsc 1).conn = 7 ∧ (tmxrGetcLn sampleConsts (mp'.ldsc 1)).2 = rxValue sampleConsts 0x41 false :=
  busy_reconnect_leaks_input sampleConsts pairOpen rfl rfl (by decide) (by decide)
    ⟨by decide, by decide⟩ (by decide) (by decide) (by decide) (by decide) _ _ false

/-! ## The greeting on a buffered line -/

section Buffered

variable (c : Consts) {lp : Line}

/-- A put on a buffered line always stores its character. -/
theorem tmxrPutcLn_of_buffered (hb : lp.txbfd = true) (chr : UInt8) :
    (tmxrPutcLn c lp chr).1 = txbufStuff lp chr := by
  have hb' : (txbufStuff lp chr).txbfd = true := by rw [(txbufStuff_txFrame lp chr).txbfd]; exact hb
  simp [tmxrPutcLn, hb, hb']

/-- A put on a line that is buffered, or connected with more than one free place, stores the
stuffed character; on an unbuffered line it may also clear the transmit enable. -/
theorem tmxrPutcLn_stores (hs : lp.txbfd = true ∨ lp.conn ≠ 0)
    (ha : lp.txbfd = true ∨ 1 < txbufAvail lp) (chr : UInt8) :
    (tmxrPutcLn c lp chr).1 = txbufStuff lp chr ∨
      (tmxrPutcLn c lp chr).1 = { txbufStuff lp chr with xmte := false } := by
  unfold tmxrPutcLn
  rw [if_neg (by rintro ⟨h₁, h₂⟩; rcases hs with h | h <;> simp_all), if_pos ha]
  dsimp only
  split_ifs
  · exact .inr rfl
  · exact .inl rfl

/-- A put of a character other than IAC on a line that is buffered or connected, with room for
it, appends it to the queue and leaves the removal pointer. -/
theorem tmxrPutcLn_appends {ch : UInt8} (hs : lp.txbfd = true ∨ lp.conn ≠ 0) (hr : RingOk lp)
    (hch : ch ≠ tnIac) (hf : tmxrTqln lp + 1 < lp.txbsz) :
    (tmxrPutcLn c lp ch).1.txbpr = lp.txbpr ∧
      tmxrTqln (tmxrPutcLn c lp ch).1 = tmxrTqln lp + 1 ∧
      txRing (tmxrPutcLn c lp ch).1 = txRing lp ++ [ch] := by
  have hnf : tmxrTqln lp + 1 ≠ lp.txbsz := by omega
  obtain ⟨hpr, hq⟩ := txbufChar_of_not_full hr ch hnf
  have hring := txRing_txbufChar hr ch
  rw [if_neg hnf] at hring
  rcases tmxrPutcLn_stores c hs (.inr (by unfold txbufAvail; omega)) ch with e | e <;>
    rw [e, txbufStuff, if_neg hch] <;> exact ⟨hpr, hq, hring⟩

/-- On a line that is buffered or connected, a message with no IAC that fits the free room is
appended to the queue, and the removal pointer stays. -/
theorem tmxrLinemsg_appends {msg : List UInt8} (hs : lp.txbfd = true ∨ lp.conn ≠ 0)
    (hr : RingOk lp) (hiac : tnIac ∉ msg) (hfit : tmxrTqln lp + msg.length < lp.txbsz) :
    (tmxrLinemsg c lp msg).txbpr = lp.txbpr ∧ txRing (tmxrLinemsg c lp msg) = txRing lp ++ msg := by
  induction msg generalizing lp with
  | nil => exact ⟨rfl, (List.append_nil _).symm⟩
  | cons ch msg ih =>
    rw [List.length_cons] at hfit
    have hfr := tmxrPutcLn_txFrame c lp ch
    obtain ⟨hpr, hq, hring⟩ := tmxrPutcLn_appends c hs hr
      (fun e ↦ hiac (e ▸ List.mem_cons_self ch msg)) (by omega)
    obtain ⟨hpr', hring'⟩ := @ih (tmxrPutcLn c lp ch).1 (by rw [hfr.txbfd, hfr.conn]; exact hs)
      (tmxrPutcLn_ringOk c hr ch) (fun e ↦ hiac (List.mem_cons_of_mem ch e))
      (by rw [hq, hfr.txbsz]; omega)
    show (tmxrLinemsg c (tmxrPutcLn c lp ch).1 msg).txbpr = _ ∧
      txRing (tmxrLinemsg c (tmxrPutcLn c lp ch).1 msg) = _
    rw [hpr', hpr, hring', hring, List.append_assoc]
    exact ⟨rfl, rfl⟩

/-- A message with no IAC that fits the buffer, stored into the empty queue of a line that is
buffered or connected, is the whole queue, and the removal pointer stays. -/
theorem tmxrLinemsg_of_empty {msg : List UInt8} (hs : lp.txbfd = true ∨ lp.conn ≠ 0)
    (hr : RingOk lp) (he : lp.txbpi = lp.txbpr) (hiac : tnIac ∉ msg)
    (hfit : msg.length < lp.txbsz) :
    (tmxrLinemsg c lp msg).txbpr = lp.txbpr ∧ txRing (tmxrLinemsg c lp msg) = msg := by
  have he₀ := tmxrTqln_of_eq he
  obtain ⟨hpr, hring⟩ := tmxrLinemsg_appends c hs hr hiac (by omega)
  rw [show txRing lp = [] by rw [txRing, he₀]; rfl, List.nil_append] at hring
  exact ⟨hpr, hring⟩

/-- `C`'s `%` of a number at most zero lies between it and zero. -/
theorem le_tmod_of_nonpos {a b : Int} (ha : a ≤ 0) (hb : 0 < b) :
    a ≤ Int.tmod a b ∧ Int.tmod a b ≤ 0 := by
  have e : Int.tmod a b = -Int.tmod (-a) b := by
    rw [Int.tmod_def, Int.tmod_def, Int.neg_tdiv]
    simp [Int.mul_neg, Int.neg_sub]
    omega
  have h0 := Int.tmod_nonneg b (show 0 ≤ -a by omega)
  have h1 : Int.tmod (-a) b ≤ -a := by
    rw [Int.tmod_def]
    have := Int.mul_nonneg (Int.le_of_lt hb)
      (Int.tdiv_nonneg (show 0 ≤ -a by omega) (Int.le_of_lt hb))
    omega
  omega

/-- Past a removal pointer `p` below zero, the insertion pointer moves up into the buffer and
stays below its end: it never meets `p` again. -/
theorem tmod_succ_above {p q : Int} {sz : Nat} (hp : p < 0) (hq : p ≤ q) (hsz : 0 < sz) :
    p < Int.tmod (q + 1) sz ∧ Int.tmod (q + 1) sz < sz := by
  have hsz' : (0 : Int) < sz := by exact_mod_cast hsz
  by_cases h : q + 1 ≤ 0
  · have := le_tmod_of_nonpos h hsz'
    omega
  · have := Int.tmod_nonneg (sz : Int) (show 0 ≤ q + 1 by omega)
    exact ⟨by omega, Int.tmod_lt_of_pos _ hsz'⟩

/-- What storing the greeting from a removal pointer `p` below zero keeps: the pointer, the
greeting's first byte `g` at `p`, and the insertion pointer above `p`. -/
structure Below (p : Int) (g : UInt8) (lp : Line) : Prop where
  bufd : lp.txbfd = true
  size : 0 < lp.txbsz
  txbpr : lp.txbpr = p
  first : lp.txb p = g
  above : p < lp.txbpi

/-- `TXBUF_CHAR` from an insertion pointer at or above a removal pointer `p` below zero: the
byte goes to the insertion pointer, which moves up, and the removal pointer stays. -/
theorem txbufChar_below {p : Int} (hp : p < 0) (hpr : lp.txbpr = p) (hpi : p ≤ lp.txbpi)
    (hsz : 0 < lp.txbsz) (ch : UInt8) :
    (txbufChar lp ch).txbpr = p ∧ p < (txbufChar lp ch).txbpi ∧
      (txbufChar lp ch).txbpi < lp.txbsz ∧
        (txbufChar lp ch).txb = Function.update lp.txb lp.txbpi ch := by
  obtain ⟨h₁, h₂⟩ := tmod_succ_above hp hpi hsz
  unfold txbufChar
  dsimp only
  rw [if_neg (by rw [hpr]; omega)]
  exact ⟨hpr, h₁, h₂, rfl⟩

theorem Below.txbufChar {p : Int} {g : UInt8} (h : Below p g lp) (hp : p < 0) (ch : UInt8) :
    Below p g (txbufChar lp ch) := by
  obtain ⟨hpr, hpi, -, htxb⟩ := txbufChar_below hp h.txbpr (Int.le_of_lt h.above) h.size ch
  have hfr := txbufChar_txFrame lp ch
  refine ⟨hfr.txbfd ▸ h.bufd, hfr.txbsz ▸ h.size, hpr, ?_, hpi⟩
  rw [htxb, Function.update_noteq (Int.ne_of_lt h.above), h.first]

theorem Below.tmxrPutcLn {p : Int} {g : UInt8} (h : Below p g lp) (hp : p < 0) (chr : UInt8) :
    Below p g (tmxrPutcLn c lp chr).1 := by
  rw [tmxrPutcLn_of_buffered c h.bufd, txbufStuff]
  split_ifs
  · exact (h.txbufChar hp _).txbufChar hp _
  · exact h.txbufChar hp _

theorem Below.tmxrLinemsg {p : Int} {g : UInt8} (h : Below p g lp) (hp : p < 0)
    (msg : List UInt8) : Below p g (tmxrLinemsg c lp msg) := by
  induction msg generalizing lp with
  | nil => exact h
  | cons ch msg ih => exact ih (h.tmxrPutcLn c hp ch)

/-- Storing the first byte at a removal pointer `p` below zero, with the insertion pointer
there too, starts the invariant; a doubled IAC writes its second byte above `p`. -/
theorem below_tmxrPutcLn_start {p : Int} (l : Line) (hp : p < 0) (hb : l.txbfd = true)
    (hsz : 0 < l.txbsz) (hpr : l.txbpr = p) (hpi : l.txbpi = p) (g : UInt8) :
    Below p g (tmxrPutcLn c l g).1 := by
  have h₁ (ch : UInt8) : Below p ch (txbufChar l ch) := by
    obtain ⟨hpr₁, hpi₁, -, htxb₁⟩ := txbufChar_below hp hpr (by omega) hsz ch
    have hfr := txbufChar_txFrame l ch
    exact ⟨hfr.txbfd ▸ hb, hfr.txbsz ▸ hsz, hpr₁, by rw [htxb₁, hpi, Function.update_same], hpi₁⟩
  rw [tmxrPutcLn_of_buffered c hb, txbufStuff]
  split_ifs with hg
  · exact hg ▸ (h₁ tnIac).txbufChar hp tnIac
  · exact h₁ g

/-- A greeting `g :: msg` longer than the buffer of a buffered line that has sent no more than
its buffer size is stored from the removal pointer `txbsz - |g :: msg|`, below zero: its first
byte is written there, outside the buffer, and the pointer stays. -/
theorem connLine_below {b : Nat} (hb : b ≠ 0) (lp : Line) (sock : Nat) {g : UInt8}
    {msg : List UInt8} (hbfd : lp.txbfd = true) (hsz : 0 < lp.txbsz) (hcnt : lp.txcnt ≤ lp.txbsz)
    (hsmall : lp.txbsz < (g :: msg).length) :
    (connLine c b lp sock (g :: msg)).txbpr = lp.txbsz - (g :: msg).length ∧
      (connLine c b lp sock (g :: msg)).txb (lp.txbsz - (g :: msg).length) = g := by
  have hp : (lp.txbsz : Int) - (g :: msg).length < 0 := by omega
  rw [connLine_buffered c lp sock _ hb, if_neg (by omega)]
  have h := (below_tmxrPutcLn_start c { lp with
    conn := sock
    txbpi := lp.txbsz - (g :: msg).length
    txbpr := lp.txbsz - (g :: msg).length
    tsta := .norm
    xmte := true
    dstb := false } hp hbfd hsz rfl rfl g).tmxrLinemsg c hp msg
  exact ⟨h.txbpr, h.first⟩

/-- The first `m` bytes of a queue read from `p` are the first `m` of a longer one. -/
theorem ringFrom_take {sz : Nat} (f : Int → UInt8) (p : Int) {m n : Nat} (h : m ≤ n) :
    ringFrom sz f p m = (ringFrom sz f p n).take m := by
  rw [ringFrom, ringFrom, ← List.map_take, List.take_range, Nat.min_eq_left h]

/-- A greeting `G` with no IAC, shorter than the buffer of a buffered line that has sent no more
than its buffer size, is stored from `txbsz - |G|`; when the line's insertion pointer is past
that point, the queue after the insertion, `txb[txbpr..txbpi)`, is the first
`txbpi - (txbsz - |G|)` bytes of `G`: shorter than `G`, and nothing the buffer held. -/
theorem connLine_truncates_greeting {b : Nat} (hb : b ≠ 0) (lp : Line) (sock : Nat)
    {G : List UInt8} (hbfd : lp.txbfd = true) (hr : RingOk lp) (hcnt : lp.txcnt ≤ lp.txbsz)
    (hiac : tnIac ∉ G) (hG : G.length < lp.txbsz) (hp : lp.txbsz - G.length < lp.txbpi) :
    txRing (connLine c b lp sock G) = G.take (lp.txbpi - (lp.txbsz - G.length)).toNat ∧
      (txRing (connLine c b lp sock G)).length < G.length := by
  obtain ⟨hsz, -, -, -, his⟩ := hr
  rw [connLine_buffered c lp sock G hb, if_neg (by omega)]
  generalize hL₀ : ({ lp with
    conn := sock
    txbpi := lp.txbsz - G.length
    txbpr := lp.txbsz - G.length
    tsta := .norm
    xmte := true
    dstb := false } : Line) = L₀
  have hpr₀ : L₀.txbpr = lp.txbsz - G.length := by rw [← hL₀]
  have hpi₀ : L₀.txbpi = lp.txbsz - G.length := by rw [← hL₀]
  have hsz₀ : L₀.txbsz = lp.txbsz := by rw [← hL₀]
  have hr₀ : RingOk L₀ := ⟨by omega, by omega, by omega, by omega, by omega⟩
  obtain ⟨hpr, hring⟩ := tmxrLinemsg_of_empty c (.inl (by rw [← hL₀]; exact hbfd)) hr₀
    (hpi₀.trans hpr₀.symm) hiac (by omega)
  have hsz₁ := (tmxrLinemsg_txFrame c L₀ G).txbsz
  generalize tmxrLinemsg c L₀ G = L at hpr hring hsz₁
  have hn : (tmxrTqln L).toNat = G.length := by rw [← length_txRing, hring]
  have hL : txRing L = ringFrom lp.txbsz L.txb (lp.txbsz - G.length) G.length := by
    rw [txRing, hsz₁, hsz₀, hpr, hpr₀, hn]
  rw [hring] at hL
  have hq : tmxrTqln { L with txbpi := lp.txbpi } = lp.txbpi - (lp.txbsz - G.length) := by
    unfold tmxrTqln
    dsimp only
    rw [hpr, hpr₀, if_neg (by omega)]
    omega
  have hring' : txRing { L with txbpi := lp.txbpi } =
      G.take (lp.txbpi - (lp.txbsz - G.length)).toNat := by
    rw [txRing, hq]
    dsimp only
    rw [hsz₁, hsz₀, hpr, hpr₀, ringFrom_take _ _ (show _ ≤ G.length by omega), ← hL]
  refine ⟨hring', ?_⟩
  rw [hring', List.length_take]
  omega

end Buffered

/-- One line with `BUFFERED=40` and the port open, on which four bytes were put while no
client was connected. -/
def bufferedFortyFour : Tmxr :=
  muxRun sampleConsts (Tmxr.init 1 none none) [.openMaster (.buffered (some 40)) none,
    .openMaster (.port 23) (some 3), .putc 0 0x41, .putc 0 0x41, .putc 0 0x41, .putc 0 0x41]

theorem bufferedFortyFour_greeting_cut :
    txRing (connLine sampleConsts 40 (bufferedFortyFour.ldsc 0) 5
        (connMsg sampleConsts bufferedFortyFour 0)) =
        (connMsg sampleConsts bufferedFortyFour 0).take 1 ∧
      (txRing (connLine sampleConsts 40 (bufferedFortyFour.ldsc 0) 5
        (connMsg sampleConsts bufferedFortyFour 0))).length <
        (connMsg sampleConsts bufferedFortyFour 0).length :=
  connLine_truncates_greeting sampleConsts (by decide) (bufferedFortyFour.ldsc 0) 5 (by decide)
    (by decide) (by decide) (by decide) (by decide) (by decide)

/-! ## A free line -/

section Fresh

variable {c : Consts}

/-- On an unbuffered line, `tmxr_poll_conn` empties the queue at `txbsz - |G|` and stores the
greeting `G` from there to the end of the buffer, where the insertion pointer wraps to the 0 it
is put back to: the queue is `G`. -/
theorem connLine_unbuffered_ring (lp : Line) {sock : Nat} (hsock : sock ≠ 0) {G : List UInt8}
    (hiac : tnIac ∉ G) (hpos : 0 < G.length) (hG : G.length < lp.txbsz) :
    txRing (connLine c 0 lp sock G) = G := by
  rw [connLine_unbuffered]
  generalize hL₀ : ({ lp with
    conn := sock
    txbpi := lp.txbsz - G.length
    txbpr := lp.txbsz - G.length
    rxcnt := 0
    txcnt := 0
    txdrp := 0
    tsta := .norm
    xmte := true
    dstb := false } : Line) = L₀
  have hpr₀ : L₀.txbpr = lp.txbsz - G.length := by rw [← hL₀]
  have hpi₀ : L₀.txbpi = lp.txbsz - G.length := by rw [← hL₀]
  have hsz₀ : L₀.txbsz = lp.txbsz := by rw [← hL₀]
  have hr₀ : RingOk L₀ := ⟨by omega, by omega, by omega, by omega, by omega⟩
  obtain ⟨hpr, hring⟩ := tmxrLinemsg_of_empty c (.inr (by rw [← hL₀]; exact hsock)) hr₀
    (hpi₀.trans hpr₀.symm) hiac (by omega)
  have hr₁ := tmxrLinemsg_ringOk c hr₀ G
  have hsz₁ := (tmxrLinemsg_txFrame c L₀ G).txbsz
  generalize tmxrLinemsg c L₀ G = L at hpr hring hr₁ hsz₁
  obtain ⟨hq0, -, hpi⟩ := tmxrTqln_ringOk hr₁
  have hn : tmxrTqln L = G.length := by
    have h := length_txRing L
    rw [hring] at h
    omega
  have hpi0 : L.txbpi = 0 := by
    rw [hpi, hn, hpr, hpr₀, hsz₁, hsz₀, wrapIdx, if_neg (by omega)]
    omega
  rw [← hpi0]
  exact hring

/-- In every reachable state, a client accepted on a free unbuffered line finds no input
waiting and, queued for it, exactly its greeting: nothing that an earlier session left on the
line reaches it. -/
theorem reachable_fresh_session {n : Nat} {ord : Option (List Int)} {dn : Option (List UInt8)}
    {g : Nat} {s : LogSys} (hg : GreetingOk c (Tmxr.init n ord dn) g) (hgm : g < c.maxbuf)
    (hs : Reachable c (LogSys.init (Tmxr.init n ord dn)) s) {k : Nat} (hk : k < s.mp.lines)
    (hfree : (s.mp.ldsc k).conn = 0) (hb : s.mp.buffered = 0) (hm : s.mp.master ≠ 0)
    {sock : Nat} (hsock : sock ≠ 0) :
    rxPending (connLine c 0 (s.mp.ldsc k) sock (connMsg c s.mp k)) = [] ∧
      txRing (connLine c 0 (s.mp.ldsc k) sock (connMsg c s.mp k)) = connMsg c s.mp k := by
  have h := hs.muxInv (muxInv_init hg)
  have hl := h.line k hk
  obtain ⟨hpi, hpr, -⟩ := hl.idle hfree
  obtain ⟨hiac, hlen⟩ := h.greet.2 k hk
  have hsz : (s.mp.ldsc k).txbsz = c.maxbuf := (hl.usize hb).resolve_right fun h' ↦ hm h'.2
  refine ⟨?_, connLine_unbuffered_ring _ hsock hiac (connMsg_length_pos c s.mp k) (by omega)⟩
  rw [(connLine_txFrame c 0 _ sock _).rxPending]
  simp [rxPending, hpi, hpr]

/-- The queue does not depend on the count of bytes sent. -/
theorem txRing_setTxcnt (lp : Line) (x : Int) : txRing { lp with txcnt := x } = txRing lp :=
  rfl

/-- A line number `tmxr_poll_conn` returns is the line its search found. -/
theorem tmxrPollConn_found {mp : Tmxr} {sock : Nat} {w : Nat → SockWrite × SockWrite} {k : Nat}
    (hk : (tmxrPollConn c mp (some sock) w).2.1 = k) : connLineIdx mp = k ∧ k < mp.lines := by
  unfold tmxrPollConn at hk
  dsimp only at hk
  split_ifs at hk with h <;> dsimp only at hk
  · omega
  · exact ⟨hk, by omega⟩

/-- In every reachable state of an unbuffered multiplexer whose port is open, a client that
`tmxr_poll_conn` accepts on a line that was free finds no input waiting there, and the bytes
the flush sent it followed by what stays queued for it are exactly its greeting. -/
theorem reachable_pollConn_fresh {n : Nat} {ord : Option (List Int)} {dn : Option (List UInt8)}
    {g : Nat} {s : LogSys} (hg : GreetingOk c (Tmxr.init n ord dn) g) (hgm : g < c.maxbuf)
    (hs : Reachable c (LogSys.init (Tmxr.init n ord dn)) s) (hb : s.mp.buffered = 0)
    (hm : s.mp.master ≠ 0) {sock : Nat} (hsock : sock ≠ 0) (w : Nat → SockWrite × SockWrite)
    {k : Nat} (hk : (tmxrPollConn c s.mp (some sock) w).2.1 = k) (hfree : (s.mp.ldsc k).conn = 0) :
    ((tmxrPollConn c s.mp (some sock) w).1.ldsc k).conn = sock ∧
      rxPending ((tmxrPollConn c s.mp (some sock) w).1.ldsc k) = [] ∧
      (tmxrPollConn c s.mp (some sock) w).2.2 k ++
          txRing ((tmxrPollConn c s.mp (some sock) w).1.ldsc k) = connMsg c s.mp k := by
  obtain ⟨hidx, hlt⟩ := tmxrPollConn_found hk
  obtain ⟨-, hring⟩ := reachable_fresh_session hg hgm hs hlt hfree hb hm hsock
  have h := hs.muxInv (muxInv_init hg)
  have hsize : (s.mp.ldsc k).txbsz = c.maxbuf :=
    ((h.line k hlt).usize hb).resolve_right fun h' ↦ hm h'.2
  have hok : RingOk (connLine c 0 (s.mp.ldsc k) sock (connMsg c s.mp k)) := by
    have := (h.greet.2 k hlt).2
    exact connLine_ringOk (by omega) (connMsg_length_pos c s.mp k) (by omega) fun h ↦ absurd rfl h
  have hself := tmxrPollConn_ldsc_self s.mp c sock w hidx hlt
  obtain ⟨hpi, hpr, -⟩ := (h.line k hlt).idle hfree
  refine ⟨hself.conn, by rw [hself.rxPending]; simp [rxPending, hpi, hpr], ?_⟩
  rw [tmxrPollConn_sent_found s.mp c sock w hidx hlt, tmxrPollConn_ldsc_found s.mp c sock w hidx hlt,
    hb, txRing_setTxcnt]
  exact (pollTxLn_spec hok (w k)).2.1.trans hring

end Fresh

/-- One line whose port is opened on master socket 3. -/
def oneListening : LogSys :=
  sysStep sampleConsts (LogSys.init (Tmxr.init 1 none none)) (.mux (.openMaster (.port 23) (some 3)))

set_option maxRecDepth 8000 in
theorem oneListening_fresh :
    GreetingOk sampleConsts (Tmxr.init 1 none none) 37 ∧ 37 < sampleConsts.maxbuf ∧
      Reachable sampleConsts (LogSys.init (Tmxr.init 1 none none)) oneListening ∧
      oneListening.mp.buffered = 0 ∧ oneListening.mp.master ≠ 0 ∧ 5 ≠ 0 ∧
      (tmxrPollConn sampleConsts oneListening.mp (some 5) fun _ ↦ (.error, .error)).2.1 =
        ((0 : Nat) : Int) ∧
      (oneListening.mp.ldsc 0).conn = 0 ∧
      (((tmxrPollConn sampleConsts oneListening.mp (some 5) fun _ ↦ (.error, .error)).1.ldsc 0).conn =
          5 ∧
        rxPending ((tmxrPollConn sampleConsts oneListening.mp (some 5)
          fun _ ↦ (.error, .error)).1.ldsc 0) = [] ∧
        (tmxrPollConn sampleConsts oneListening.mp (some 5) fun _ ↦ (.error, .error)).2.2 0 ++
            txRing ((tmxrPollConn sampleConsts oneListening.mp (some 5)
              fun _ ↦ (.error, .error)).1.ldsc 0) = connMsg sampleConsts oneListening.mp 0) :=
  have hg : GreetingOk sampleConsts (Tmxr.init 1 none none) 37 := by decide
  have hs : Reachable sampleConsts (LogSys.init (Tmxr.init 1 none none)) oneListening :=
    .step .init trivial
  have hk : (tmxrPollConn sampleConsts oneListening.mp (some 5) fun _ ↦ (.error, .error)).2.1 =
      ((0 : Nat) : Int) := by decide
  ⟨hg, by decide, hs, by decide, by decide, by decide, hk, by decide,
    reachable_pollConn_fresh hg (by decide) hs (by decide) (by decide) (by decide) _ hk (by decide)⟩

/-! ## Buffers smaller than the greeting -/

/-- A flush to a socket that takes nothing changes neither the buffer nor its removal pointer. -/
theorem pollTxLn_blocked (lp : Line) :
    (pollTxLn lp (.error, .error)).1.txbpr = lp.txbpr ∧
      (pollTxLn lp (.error, .error)).1.txb = lp.txb := by
  unfold pollTxLn tmxrSendBufferedData sendWrapped
  simp only [SockWrite.taken]
  split_ifs <;> exact ⟨rfl, rfl⟩

/-- With `BUFFERED` set below the greeting's length, a line that has sent no more than its
buffer size and accepts a connection is left connected with its removal pointer at
`txbsz - |G| < 0`, and the greeting's first byte was stored at that index, outside the buffer;
a socket that takes nothing yet does not move the pointer. -/
theorem tmxrPollConn_small_buffer_underflow (c : Consts) (mp : Tmxr) (sock : Nat) {k : Nat}
    (hk : connLineIdx mp = k) (hkl : k < mp.lines) (hb : mp.buffered ≠ 0)
    (hbfd : (mp.ldsc k).txbfd = true) (hsz : (mp.ldsc k).txbsz = mp.buffered)
    (hcnt : (mp.ldsc k).txcnt ≤ mp.buffered) (hsmall : mp.buffered < (connMsg c mp k).length) :
    let lp := (tmxrPollConn c mp (some sock) fun _ ↦ (.error, .error)).1.ldsc k
    lp.conn = sock ∧ lp.txbpr = mp.buffered - (connMsg c mp k).length ∧ lp.txbpr < 0 ∧
      (connMsg c mp k).head? = some (lp.txb lp.txbpr) := by
  dsimp only
  rw [tmxrPollConn_ldsc_found mp c sock _ hk hkl]
  dsimp only
  obtain ⟨hpr, htxb⟩ := pollTxLn_blocked (connLine c mp.buffered (mp.ldsc k) sock (connMsg c mp k))
  rw [hpr, htxb, (pollTxLn_txFrame _ _).conn, (connLine_txFrame c _ _ sock _).conn]
  have hpos : 0 < (connMsg c mp k).length := connMsg_length_pos c mp k
  generalize connMsg c mp k = G at hsmall hpos ⊢
  obtain ⟨g, msg, rfl⟩ : ∃ g msg, G = g :: msg := by
    cases G with
    | nil => cases hpos
    | cons g msg => exact ⟨g, msg, rfl⟩
  obtain ⟨hpr', htxb'⟩ :=
    @connLine_below c _ hb (mp.ldsc k) sock g msg hbfd (by omega) (by omega) (by omega)
  rw [hsz] at hpr' htxb'
  rw [hpr', htxb']
  exact ⟨rfl, rfl, by omega, rfl⟩

/-- One line with `BUFFERED=8` and the port open. -/
def bufferedEight : Tmxr :=
  muxRun sampleConsts (Tmxr.init 1 none none) [.openMaster (.buffered (some 8)) none,
    .openMaster (.port 23) (some 3)]

theorem bufferedEight_underflow :
    let lp := (tmxrPollConn sampleConsts bufferedEight (some 5) fun _ ↦ (.error, .error)).1.ldsc 0
    lp.conn = 5 ∧ lp.txbpr = 8 - (connMsg sampleConsts bufferedEight 0).length ∧ lp.txbpr < 0 ∧
      (connMsg sampleConsts bufferedEight 0).head? = some (lp.txb lp.txbpr) :=
  tmxrPollConn_small_buffer_underflow sampleConsts bufferedEight 5 (by decide) (by decide)
    (by decide) (by decide) (by decide) (by decide) (by decide)

end TelnetMux
