import TelnetMux.Console
import TelnetMux.Transport

/-!
# What the simulator reads and writes

`tmxr_rqln` counts the characters waiting on a line, and the console's `sim_poll_kbd` hands the
simulator the next one, as `(c & (SCPE_BREAK | 0377)) | SCPE_KFLAG`; `sim_putchar_s` writes a
character to the console line.

In every reachable state the count of `tmxr_rqln` is exact: its wrap-around term never applies,
and exactly that many calls of `tmxr_getc_ln` return the waiting characters, in order, the
next one returning nothing. On a connected console, over any run of keyboard polls, puts and
checks, and however the peer's stream is cut into reads, the characters `sim_poll_kbd` hands
out followed by those still waiting are the Telnet decoding of the bytes the line read: each
byte with its break flag and `TMXR_VALID` masked off, none lost and none repeated.

The other way, on a connected unbuffered console over any run of `sim_putchar_s` calls, what
the socket accepted followed by what is still queued is the queue at the start followed by the
stuffed form of exactly the characters accepted, in order: a character is stalled, never
dropped, and the stream stays a well-formed Telnet stream.
-/

namespace TelnetMux

/-! ## Counting the waiting characters -/

/-- `tmxr_rqln`: the count of waiting characters, as in a circular buffer. -/
def tmxrRqln (c : Consts) (lp : Line) : Int :=
  (lp.rxbpi : Int) - lp.rxbpr + if lp.rxbpi < lp.rxbpr then (c.maxbuf : Int) else 0

/-- With its pointers ordered, a line's count is the number of characters waiting. -/
theorem tmxrRqln_eq (c : Consts) {lp : Line} (h : lp.rxbpr ≤ lp.rxbpi) :
    tmxrRqln c lp = (rxPending lp).length := by
  simp only [tmxrRqln, rxPending, length_rxSeg, if_neg (Nat.not_lt.2 h)]
  omega

/-- With nothing waiting, `tmxr_getc_ln` returns no character. -/
theorem tmxrGetcLn_of_nil (c : Consts) {lp : Line} (h : rxPending lp = [])
    (hle : lp.rxbpr ≤ lp.rxbpi) :
    (tmxrGetcLn c lp).2 = 0 := by
  have he := congrArg List.length h
  simp only [rxPending, length_rxSeg, List.length_nil] at he
  rw [tmxrGetcLn, if_neg fun h ↦ h.2.2 (by omega)]

/-- On a live line, as many calls of `tmxr_getc_ln` as characters wait return them all, in
order, and leave nothing waiting. -/
theorem rxRun_getcs (c : Consts) : ∀ (k : Nat) (lp : Line), RxLive lp → (rxPending lp).length = k →
    (rxRun c lp (List.replicate k .getc)).2.1 = rxValues c (rxPending lp) ∧
      rxPending (rxRun c lp (List.replicate k .getc)).1 = [] ∧
      RxLive (rxRun c lp (List.replicate k .getc)).1
  | 0, lp, h, hk => by simp [rxRun, List.length_eq_zero.1 hk, h, rxValues]
  | k + 1, lp, h, hk => by
    obtain ⟨p, ps, hp⟩ := List.exists_cons_of_length_pos (by omega : 0 < (rxPending lp).length)
    obtain ⟨hout, -, hlive⟩ := tmxrGetcLn_spec c h
    have hv := tmxrGetcLn_first c h.1 h.2.1 hp
    rw [hv, if_neg (rxValue_ne_zero _ _ _), hp] at hout
    have hrest : rxValues c (rxPending (tmxrGetcLn c lp).1) = rxValues c ps := by
      simpa [rxValues] using hout
    have hlen : (rxPending (tmxrGetcLn c lp).1).length = k := by
      have h₁ := congrArg List.length hrest
      have h₂ := congrArg List.length hp
      simp only [rxValues, List.length_map, List.length_cons] at h₁ h₂
      omega
    obtain ⟨ih₁, ih₂, ih₃⟩ := rxRun_getcs c k _ hlive hlen
    simp only [List.replicate_succ, rxRun, hv, if_neg (rxValue_ne_zero _ _ _), ih₁, hrest, hp]
    exact ⟨rfl, ih₂, ih₃⟩

/-- In every reachable state, `tmxr_rqln` of every line is the number of characters waiting in
its buffer, its wrap-around term never applying; on a connected, receiving line exactly that
many calls of `tmxr_getc_ln` return the waiting characters, in order, and the next returns 0. -/
theorem reachable_rqln_exact {c : Consts} {g n : Nat} {ord : Option (List Int)}
    {dn : Option (List UInt8)} {s : LogSys} (hg : GreetingOk c (Tmxr.init n ord dn) g)
    (hs : Reachable c (LogSys.init (Tmxr.init n ord dn)) s) {i : Nat} (hi : i < s.mp.lines) :
    tmxrRqln c (s.mp.ldsc i) = (rxPending (s.mp.ldsc i)).length ∧
      ((s.mp.ldsc i).conn ≠ 0 → (s.mp.ldsc i).rcve = true →
        (rxRun c (s.mp.ldsc i) (List.replicate (tmxrRqln c (s.mp.ldsc i)).toNat .getc)).2.1 =
            rxValues c (rxPending (s.mp.ldsc i)) ∧
          (tmxrGetcLn c
            (rxRun c (s.mp.ldsc i) (List.replicate (tmxrRqln c (s.mp.ldsc i)).toNat .getc)).1).2 = 0) := by
  have hrx := ((hs.muxInv (muxInv_init hg)).line i hi).rx.1
  have hq := tmxrRqln_eq c hrx
  refine ⟨hq, fun hc hr ↦ ?_⟩
  rw [hq, Int.toNat_ofNat]
  obtain ⟨h₁, h₂, hlive⟩ := rxRun_getcs c _ _ ⟨hc, hr, hrx⟩ rfl
  exact ⟨h₁, tmxrGetcLn_of_nil c h₂ hlive.2.2⟩

theorem oneConnected_rqln_exact :
    GreetingOk sampleConsts (Tmxr.init 1 none none) 37 ∧ 0 < oneConnected.mp.lines ∧
      tmxrRqln sampleConsts (oneConnected.mp.ldsc 0) = (rxPending (oneConnected.mp.ldsc 0)).length ∧
      ((oneConnected.mp.ldsc 0).conn ≠ 0 → (oneConnected.mp.ldsc 0).rcve = true →
        (rxRun sampleConsts (oneConnected.mp.ldsc 0) (List.replicate
            (tmxrRqln sampleConsts (oneConnected.mp.ldsc 0)).toNat .getc)).2.1 =
          rxValues sampleConsts (rxPending (oneConnected.mp.ldsc 0)) ∧
        (tmxrGetcLn sampleConsts (rxRun sampleConsts (oneConnected.mp.ldsc 0) (List.replicate
          (tmxrRqln sampleConsts (oneConnected.mp.ldsc 0)).toNat .getc)).1).2 = 0) :=
  have hg : GreetingOk sampleConsts (Tmxr.init 1 none none) 37 := by decide
  ⟨hg, by decide, reachable_rqln_exact hg oneConnected_reachable (by decide)⟩

/-! ## The console's keyboard -/

/-- What `sim_poll_kbd` hands the simulator for a received byte and its break flag, less
`SCPE_KFLAG`: the byte, with `SCPE_BREAK` on a break. -/
def kbdValue (c : Consts) (b : UInt8) (brk : Bool) : Nat :=
  b.toNat ||| if brk then c.scpeBreak else 0

def kbdValues (c : Consts) (ps : List (UInt8 × Bool)) : List Nat :=
  ps.map fun p ↦ kbdValue c p.1 p.2

@[simp] theorem kbdValues_append (c : Consts) (xs ys : List (UInt8 × Bool)) :
    kbdValues c (xs ++ ys) = kbdValues c xs ++ kbdValues c ys :=
  List.map_append _ _ _

/-- When `TMXR_VALID` has no bit in common with `SCPE_BREAK | 0377`, the mask of `sim_poll_kbd`
leaves exactly the byte and the break flag of what `tmxr_getc_ln` returned. -/
theorem rxValue_mask {c : Consts} (hbits : c.valid &&& (c.scpeBreak ||| 0xFF) = 0) (b : UInt8)
    (brk : Bool) : rxValue c b brk &&& (c.scpeBreak ||| 0xFF) = kbdValue c b brk := by
  have hb : b.toNat < 2 ^ 8 := b.val.isLt
  refine Nat.eq_of_testBit_eq fun i ↦ ?_
  have hv := congrArg (Nat.testBit · i) hbits
  have hbyte : b.toNat.testBit i = true → i < 8 := fun h ↦ by
    by_contra hi
    rw [Nat.testBit_lt_two_pow (Nat.lt_of_lt_of_le hb (Nat.pow_le_pow_right (by decide)
      (Nat.le_of_not_lt hi)))] at h
    cases h
  have hff : (0xFF : Nat).testBit i = decide (i < 8) := Nat.testBit_two_pow_sub_one 8 i
  simp only [Nat.testBit_and, Nat.testBit_or, Nat.zero_testBit, hff] at hv
  cases brk <;>
    cases h₁ : c.valid.testBit i <;> cases h₂ : b.toNat.testBit i <;>
      cases h₃ : c.scpeBreak.testBit i <;>
        simp_all [rxValue, kbdValue, Nat.testBit_and, Nat.testBit_or, hff]

/-- The keyboard characters among what console calls returned. -/
def kbdChars (rs : List (ConOut × ConStat)) : List Nat :=
  rs.filterMap fun r ↦ match r.2 with
    | .kbd v => some v
    | _ => none

theorem kbdChars_cons (r : ConOut × ConStat) (rs : List (ConOut × ConStat)) :
    kbdChars (r :: rs) = kbdChars [r] ++ kbdChars rs := by
  obtain ⟨o, st⟩ := r
  cases st <;> rfl

/-- `lp'` follows `lp` on the receive side: the characters `out` handed out followed by those
waiting in `lp'` are those waiting in `lp` followed by the decoding of `input`, and `lp'` is in
the decoder's final state. -/
def Delivers (c : Consts) (lp lp' : Line) (out : List Nat) (input : List UInt8) : Prop :=
  out ++ kbdValues c (rxPending lp') =
      kbdValues c (rxPending lp ++ (tnFilter (lp.tsta, lp.dstb) input).1) ∧
    (lp'.tsta, lp'.dstb) = (tnFilter (lp.tsta, lp.dstb) input).2

section Delivers

variable {c : Consts} {lp lp₁ lp₂ lp₃ : Line}

theorem Delivers.trans {o₁ o₂ : List Nat} {i₁ i₂ : List UInt8} (h₁ : Delivers c lp₁ lp₂ o₁ i₁)
    (h₂ : Delivers c lp₂ lp₃ o₂ i₂) : Delivers c lp₁ lp₃ (o₁ ++ o₂) (i₁ ++ i₂) := by
  obtain ⟨h₁, e₁⟩ := h₁
  obtain ⟨h₂, e₂⟩ := h₂
  rw [e₁] at h₂ e₂
  refine ⟨?_, by rw [e₂, tnFilter_append]⟩
  rw [List.append_assoc, h₂, tnFilter_append, kbdValues_append, ← List.append_assoc, h₁]
  simp

theorem Delivers.of_txFrame (h : TxFrame lp₁ lp₂) : Delivers c lp₁ lp₂ [] [] := by
  refine ⟨?_, ?_⟩
  · rw [h.rxPending]
    simp
  · rw [h.tsta, h.dstb]
    rfl

/-- A receive poll of a live line whose socket returns data delivers what the line takes. -/
theorem pollRxLn_delivers (h : RxLive lp) (b : List UInt8) (w : SockWrite × SockWrite)
    (dbg : Bool) :
    Delivers c lp (rxRewind (pollRxLn c lp (.data b) w dbg).1) [] (rxTaken c lp (.data b)) ∧
      RxLive (rxRewind (pollRxLn c lp (.data b) w dbg).1) := by
  obtain ⟨hpend, hst, hlive⟩ := pollRxLn_data c b w dbg h
  refine ⟨⟨?_, ?_⟩, rxLive_rxRewind hlive⟩
  · rw [rxPending_rxRewind, hpend]
    rfl
  · rw [rxRewind_tsta, rxRewind_dstb, hst]

/-- `tmxr_getc_ln` on a live line hands out, masked, the first character waiting. -/
theorem tmxrGetcLn_delivers (hbits : c.valid &&& (c.scpeBreak ||| 0xFF) = 0) (h : RxLive lp) :
    Delivers c lp (tmxrGetcLn c lp).1
        (if (tmxrGetcLn c lp).2 = 0 then [] else [(tmxrGetcLn c lp).2 &&& (c.scpeBreak ||| 0xFF)])
        [] ∧
      RxLive (tmxrGetcLn c lp).1 := by
  obtain ⟨hout, hst, hlive⟩ := tmxrGetcLn_spec c h
  have hmask (ps : List (UInt8 × Bool)) :
      (rxValues c ps).map (· &&& (c.scpeBreak ||| 0xFF)) = kbdValues c ps := by
    simp [rxValues, kbdValues, rxValue_mask hbits]
  refine ⟨⟨?_, by simpa using hst⟩, hlive⟩
  have := congrArg (List.map (· &&& (c.scpeBreak ||| 0xFF))) hout
  rw [List.map_append, hmask, hmask] at this
  rw [tnFilter_nil, List.append_nil, ← this]
  split_ifs <;> simp

end Delivers

/-! ## Console runs -/

/-- A console call that keeps a connected console line connected: a keyboard poll, a put or a
check, whose receive poll reads data. -/
def ConOp.KeepsLine : ConOp → Prop
  | .pollKbd _ _ _ _ rx => ∃ b, (rx 0).rd = .data b
  | .putchar .. => True
  | .putcharS .. => True
  | .checkConsole _ rx _ => ∃ b, (rx 0).rd = .data b
  | _ => False

section Run

variable {c : Consts} {s : LogSys}

theorem Delivers.refl (c : Consts) (lp : Line) : Delivers c lp lp [] [] :=
  Delivers.of_txFrame (TxFrame.refl lp)

/-- A put on a connected console changes only the transmit side of its line, and returns a
status of the library. -/
theorem conPut_txFrame (hm : s.mp.master ≠ 0) (hc : (s.mp.ldsc 0).conn ≠ 0) {ch : UInt8}
    {acc : Option Nat} {wc wt : Nat → SockWrite × SockWrite} {put : Tmxr → Tmxr × Scpe}
    (hput : TxFrame (s.mp.ldsc 0) ((put s.mp).1.ldsc 0) ∧ (put s.mp).1.master = s.mp.master ∧
      (put s.mp).1.lines = s.mp.lines) :
    TxFrame (s.mp.ldsc 0) ((conPut c s ch acc wc wt put).1.mp.ldsc 0) ∧
      (conPut c s ch acc wc wt put).1.mp.master = s.mp.master ∧
      (conPut c s ch acc wc wt put).1.mp.lines = s.mp.lines ∧
      (conPut c s ch acc wc wt put).2.1.input = [] ∧
      ∃ r, (conPut c s ch acc wc wt put).2.2 = .scpe r := by
  unfold conPut
  rw [if_neg hm]
  dsimp only
  rw [if_neg fun h ↦ hc h.1, if_neg hc]
  refine ⟨?_, hput.2.1, hput.2.2, rfl, _, rfl⟩
  rw [tmxrPollTx_ldsc]
  split_ifs
  · exact hput.1.trans (pollTxLn_txFrame _ _)
  · exact hput.1

theorem putchar_put_txFrame (mp : Tmxr) (ch : UInt8) :
    TxFrame (mp.ldsc 0) ((mp.setLine 0 (tmxrPutcLn c (mp.ldsc 0) ch).1).ldsc 0) ∧
      (mp.setLine 0 (tmxrPutcLn c (mp.ldsc 0) ch).1).master = mp.master ∧
      (mp.setLine 0 (tmxrPutcLn c (mp.ldsc 0) ch).1).lines = mp.lines := by
  rw [Tmxr.setLine_ldsc_self]
  exact ⟨tmxrPutcLn_txFrame c _ ch, rfl, rfl⟩

/-- So a put on a connected console hands out nothing and reads nothing. -/
theorem conPut_delivers (hm : s.mp.master ≠ 0) (h : RxLive (s.mp.ldsc 0)) (ch : UInt8)
    (acc : Option Nat) (wc wt : Nat → SockWrite × SockWrite) {put : Tmxr → Tmxr × Scpe}
    (hput : TxFrame (s.mp.ldsc 0) ((put s.mp).1.ldsc 0) ∧ (put s.mp).1.master = s.mp.master ∧
      (put s.mp).1.lines = s.mp.lines) :
    Delivers c (s.mp.ldsc 0) ((conPut c s ch acc wc wt put).1.mp.ldsc 0)
        (kbdChars [(conPut c s ch acc wc wt put).2]) (conPut c s ch acc wc wt put).2.1.input ∧
      RxLive ((conPut c s ch acc wc wt put).1.mp.ldsc 0) ∧
      (conPut c s ch acc wc wt put).1.mp.master = s.mp.master ∧
      (conPut c s ch acc wc wt put).1.mp.lines = s.mp.lines := by
  obtain ⟨hf, hma, hli, hin, r, hr⟩ := @conPut_txFrame c s hm h.1 ch acc wc wt put hput
  have hk : kbdChars [(conPut c s ch acc wc wt put).2] = [] := by simp [kbdChars, hr]
  rw [hk, hin]
  exact ⟨.of_txFrame hf, ⟨by rw [hf.conn]; exact h.1, by rw [hf.rcve]; exact h.2.1,
    by rw [hf.rxbpi, hf.rxbpr]; exact h.2.2⟩, hma, hli⟩

/-- One console call on a connected console, whose receive poll, if any, reads data. -/
theorem conStep_delivers (hbits : c.valid &&& (c.scpeBreak ||| 0xFF) = 0) (hm : s.mp.master ≠ 0)
    (hl : 0 < s.mp.lines) (h : RxLive (s.mp.ldsc 0)) {op : ConOp} (hk : op.KeepsLine) :
    Delivers c (s.mp.ldsc 0) ((conStep c s op).1.mp.ldsc 0) (kbdChars [(conStep c s op).2])
        (conStep c s op).2.1.input ∧
      RxLive ((conStep c s op).1.mp.ldsc 0) ∧ (conStep c s op).1.mp.master = s.mp.master ∧
      (conStep c s op).1.mp.lines = s.mp.lines := by
  have hpoll (b : List UInt8) (rx : Nat → RxEnv) (hb : (rx 0).rd = .data b) :
      rxRead c (s.mp.ldsc 0) (rx 0).rd = rxTaken c (s.mp.ldsc 0) (.data b) ∧
        Delivers c (s.mp.ldsc 0) ((tmxrPollRx c s.mp rx).ldsc 0) []
          (rxTaken c (s.mp.ldsc 0) (.data b)) ∧
        RxLive ((tmxrPollRx c s.mp rx).ldsc 0) := by
    rw [rxRead, if_neg fun h' ↦ h'.elim h.1 (by rw [h.2.1]; decide), tmxrPollRx_ldsc c _ _ hl, hb]
    exact ⟨rfl, pollRxLn_delivers h b _ _⟩
  cases op with
  | pollKbd u os acc w rx =>
    obtain ⟨b, hb⟩ := hk
    obtain ⟨hin, hd₁, hl₁⟩ := hpoll b rx hb
    obtain ⟨hd₂, hl₂⟩ := tmxrGetcLn_delivers hbits hl₁
    dsimp only [conStep]
    unfold simPollKbd
    by_cases hu : u = true ∧ (os = .stop ∨ s.mp.master = 0)
    · rw [if_pos hu, hu.2.resolve_right hm]
      exact ⟨.refl c _, h, rfl, rfl⟩
    rw [if_neg hu, if_neg hm, if_neg h.1]
    dsimp only [kbdRead]
    rw [Tmxr.setLine_ldsc_self, hin]
    refine ⟨?_, hl₂, rfl, rfl⟩
    have hout := hd₁.trans hd₂
    rw [List.nil_append, List.append_nil] at hout
    split_ifs at hout ⊢ <;> exact hout
  | putchar ch acc wc wt => exact conPut_delivers hm h ch acc wc wt (putchar_put_txFrame s.mp ch)
  | putcharS ch acc wc wt =>
    refine conPut_delivers hm h ch acc wc wt ?_
    dsimp only
    split_ifs
    · exact ⟨.refl _, rfl, rfl⟩
    · exact putchar_put_txFrame s.mp ch
  | checkConsole sec rx wait =>
    obtain ⟨b, hb⟩ := hk
    obtain ⟨hin, hd, hl₁⟩ := hpoll b rx hb
    dsimp only [conStep]
    unfold simCheckConsole
    rw [if_neg hm, if_pos (.inl h.1)]
    dsimp only
    rw [if_pos (.inl hl₁.1), if_neg hl₁.1]
    refine ⟨?_, hl₁, rfl, rfl⟩
    simpa [kbdChars, hin, ConOut.nil] using hd
  | telnet => exact hk.elim
  | notelnet => exact hk.elim

/-- On a connected console whose port is open, over any run of keyboard polls, puts and checks
whose receive polls read data: the characters `sim_poll_kbd` hands out followed by those still
waiting are those waiting at the start followed by the Telnet decoding of every byte the line
read, each byte with its break flag; the line ends in the decoder's final state, still
connected and receiving. -/
theorem conRun_delivers (hbits : c.valid &&& (c.scpeBreak ||| 0xFF) = 0) :
    ∀ (ops : List ConOp) (s : LogSys), s.mp.master ≠ 0 → 0 < s.mp.lines → RxLive (s.mp.ldsc 0) →
      (∀ op ∈ ops, op.KeepsLine) →
      Delivers c (s.mp.ldsc 0) ((conRun c s ops).1.mp.ldsc 0) (kbdChars (conRun c s ops).2)
          ((conRun c s ops).2.map (·.1.input)).flatten ∧
        RxLive ((conRun c s ops).1.mp.ldsc 0) ∧ (conRun c s ops).1.mp.master = s.mp.master
  | [], s, _, _, h, _ => ⟨.refl c _, h, rfl⟩
  | op :: ops, s, hm, hl, h, hk => by
    obtain ⟨hd, hlive, hma, hli⟩ := conStep_delivers hbits hm hl h (hk op (List.mem_cons_self _ _))
    obtain ⟨ih₁, ih₂, ih₃⟩ := conRun_delivers hbits ops _ (hma ▸ hm) (hli ▸ hl) hlive
      fun op' h' ↦ hk op' (List.mem_cons_of_mem _ h')
    refine ⟨?_, ih₂, ih₃.trans hma⟩
    show Delivers c _ _ (kbdChars ((conStep c s op).2 :: _))
      (((conStep c s op).2 :: (conRun c (conStep c s op).1 ops).2).map (·.1.input)).flatten
    rw [kbdChars_cons, List.map_cons, List.flatten_cons]
    exact hd.trans ih₁

/-- Two keyboard polls around a put on the console of `consoleConnected`: the peer sends `A`
and an IAC, then the BREAK that completes it and `B`. -/
def breakOps : List ConOp :=
  [.pollKbd false (.scpe .ok) none (fun _ ↦ (.error, .error))
      fun _ ↦ ⟨.data [0x41, 0xFF], (.error, .error), false⟩,
    .putchar 0x41 none (fun _ ↦ (.error, .error)) fun _ ↦ (.error, .error),
    .pollKbd true (.kbd 0x42) none (fun _ ↦ (.error, .error))
      fun _ ↦ ⟨.data [0xF3, 0x42], (.error, .error), false⟩]

set_option maxRecDepth 8000 in
theorem consoleConnected_delivers :
    sampleConsts.valid &&& (sampleConsts.scpeBreak ||| 0xFF) = 0 ∧
      consoleConnected.mp.master ≠ 0 ∧ 0 < consoleConnected.mp.lines ∧
      RxLive (consoleConnected.mp.ldsc 0) ∧ (∀ op ∈ breakOps, op.KeepsLine) ∧
      Delivers sampleConsts (consoleConnected.mp.ldsc 0)
          ((conRun sampleConsts consoleConnected breakOps).1.mp.ldsc 0)
          (kbdChars (conRun sampleConsts consoleConnected breakOps).2)
          ((conRun sampleConsts consoleConnected breakOps).2.map (·.1.input)).flatten ∧
        RxLive ((conRun sampleConsts consoleConnected breakOps).1.mp.ldsc 0) ∧
        (conRun sampleConsts consoleConnected breakOps).1.mp.master = consoleConnected.mp.master :=
  have hbits : sampleConsts.valid &&& (sampleConsts.scpeBreak ||| 0xFF) = 0 := by decide
  have hlive : RxLive (consoleConnected.mp.ldsc 0) := ⟨by decide, by decide, by decide⟩
  have hk : ∀ op ∈ breakOps, op.KeepsLine := by
    simp only [breakOps, List.mem_cons, List.mem_singleton, List.not_mem_nil, or_false]
    rintro op (rfl | rfl | rfl)
    · exact ⟨_, rfl⟩
    · trivial
    · exact ⟨_, rfl⟩
  ⟨hbits, by decide, by decide, hlive, hk,
    conRun_delivers hbits breakOps consoleConnected (by decide) (by decide) hlive hk⟩

end Run

/-! ## What the console writes -/

/-- The stuffed form of the characters of a run of `sim_putchar_s` calls that returned
`SCPE_OK`, from the characters and the statuses. -/
def acceptedStuffed : List UInt8 → List ConStat → List UInt8
  | ch :: chs, st :: sts => (if st = .scpe .ok then stuff ch else []) ++ acceptedStuffed chs sts
  | _, _ => []

theorem iacPaired_acceptedStuffed : ∀ (chs : List UInt8) (sts : List ConStat),
    iacPaired (acceptedStuffed chs sts) = true
  | ch :: chs, st :: sts => by
    unfold acceptedStuffed
    split_ifs
    · rw [iacPaired_append (iacPaired_stuff ch), iacPaired_acceptedStuffed chs sts]
    · exact iacPaired_acceptedStuffed chs sts
  | [], _ => rfl
  | _ :: _, [] => rfl

/-- A call of `sim_putchar_s`, with the socket `sim_accept_conn` returns and the sockets'
answers to the flushes. -/
structure PutS where
  ch : UInt8
  acc : Option Nat
  wc : Nat → SockWrite × SockWrite
  wt : Nat → SockWrite × SockWrite

def PutS.op (x : PutS) : ConOp :=
  .putcharS x.ch x.acc x.wc x.wt

section Output

variable {c : Consts} {g : Nat} {s : LogSys}

/-- On a connected console a put is the put on the multiplexer, then `tmxr_poll_tx`, whose
flush of the console line is what the socket took. -/
theorem conPut_connected (hm : s.mp.master ≠ 0) (hc : (s.mp.ldsc 0).conn ≠ 0) (ch : UInt8)
    (acc : Option Nat) (wc wt : Nat → SockWrite × SockWrite) (put : Tmxr → Tmxr × Scpe) :
    (conPut c s ch acc wc wt put).1 = { s with mp := (tmxrPollTx (put s.mp).1 wt).1 } ∧
      (conPut c s ch acc wc wt put).2.1.sent = (tmxrPollTx (put s.mp).1 wt).2 0 ∧
      (conPut c s ch acc wc wt put).2.2 = .scpe (put s.mp).2 := by
  unfold conPut
  rw [if_neg hm]
  dsimp only
  rw [if_neg fun h ↦ hc h.1, if_neg hc]
  exact ⟨rfl, rfl, rfl⟩

/-- One `sim_putchar_s` on a connected unbuffered console: the character is accepted whole or
stalled, and the bytes the flush sent followed by the queue are the queue before followed by
the stuffed character if it was accepted. -/
theorem simPutcharS_stream (hg : GreetingOk c consoleMux g) (h2 : 2 ≤ c.guard)
    (hs : ConReachable c (LogSys.init consoleMux) s) (hb : s.mp.buffered = 0)
    (hm : s.mp.master ≠ 0) (hc : (s.mp.ldsc 0).conn ≠ 0) (ch : UInt8) (acc : Option Nat)
    (wc wt : Nat → SockWrite × SockWrite) :
    ((simPutcharS c s ch acc wc wt).2.1.sent ++ txRing ((simPutcharS c s ch acc wc wt).1.mp.ldsc 0) =
        txRing (s.mp.ldsc 0) ++
          if (simPutcharS c s ch acc wc wt).2.2 = .scpe .ok then stuff ch else []) ∧
      ((simPutcharS c s ch acc wc wt).2.2 = .scpe .ok ∨
        (simPutcharS c s ch acc wc wt).2.2 = .scpe .stall) ∧
      (simPutcharS c s ch acc wc wt).1.mp.buffered = s.mp.buffered ∧
      (simPutcharS c s ch acc wc wt).1.mp.master = s.mp.master ∧
      ((simPutcharS c s ch acc wc wt).1.mp.ldsc 0).conn = (s.mp.ldsc 0).conn ∧
      ((simPutcharS c s ch acc wc wt).1.mp.ldsc 0).txdrp = (s.mp.ldsc 0).txdrp := by
  obtain ⟨hl1, -, hl⟩ := hs.console hg
  have hbfd : (s.mp.ldsc 0).txbfd = false := by simpa [hb] using hl.bufd
  have hr := hl.ringOk_of_unbuffered hg.1 hbfd (Nat.pos_iff_ne_zero.1 (hl.txbsz_pos (.inl hc)))
  obtain ⟨hst, hsnt, hsta⟩ := conPut_connected (c := c) hm hc ch acc wc wt fun mp ↦
    if (mp.ldsc 0).xmte = false then (mp, .stall)
    else (mp.setLine 0 (tmxrPutcLn c (mp.ldsc 0) ch).1, (tmxrPutcLn c (mp.ldsc 0) ch).2)
  unfold simPutcharS
  rw [hst, hsnt, hsta]
  by_cases hx : (s.mp.ldsc 0).xmte = true
  · obtain ⟨hok, hring, hdrp⟩ := hl.putc_whole hg.1 hc hbfd hx h2 ch
    have hfr := tmxrPutcLn_txFrame c (s.mp.ldsc 0) ch
    obtain ⟨-, hsent, hd⟩ := pollTxLn_spec (tmxrPutcLn_ringOk c hr ch) (wt 0)
    simp only [hx, Bool.true_eq_false, if_false, hok, if_true]
    have h0 : 0 < (s.mp.setLine 0 (tmxrPutcLn c (s.mp.ldsc 0) ch).1).lines := by simp [hl1]
    rw [tmxrPollTx_sent, tmxrPollTx_ldsc, if_pos h0, if_pos h0, Tmxr.setLine_ldsc_self]
    exact ⟨hsent.trans hring, .inl (by simp), rfl, rfl,
      (pollTxLn_txFrame _ _).conn.trans hfr.conn, hd.trans hdrp⟩
  · have hx' : (s.mp.ldsc 0).xmte = false := by simpa using hx
    obtain ⟨-, hsent, hd⟩ := pollTxLn_spec hr (wt 0)
    simp only [hx', if_true]
    have h0 : 0 < s.mp.lines := by omega
    rw [tmxrPollTx_sent, tmxrPollTx_ldsc, if_pos h0, if_pos h0]
    exact ⟨by simpa using hsent, .inr (by simp), rfl, rfl, (pollTxLn_txFrame _ _).conn, hd⟩

theorem conRun_putcharS_queue (hg : GreetingOk c consoleMux g) (h2 : 2 ≤ c.guard) :
    ∀ (xs : List PutS) (s : LogSys), ConReachable c (LogSys.init consoleMux) s →
      s.mp.buffered = 0 → s.mp.master ≠ 0 → (s.mp.ldsc 0).conn ≠ 0 →
      (∀ x ∈ xs, x.acc ≠ some 0) →
      (∀ r ∈ (conRun c s (xs.map PutS.op)).2, r.2 = .scpe .ok ∨ r.2 = .scpe .stall) ∧
      ((conRun c s (xs.map PutS.op)).1.mp.ldsc 0).txdrp = (s.mp.ldsc 0).txdrp ∧
      (conRun c s (xs.map PutS.op)).2.flatMap (·.1.sent) ++
          txRing ((conRun c s (xs.map PutS.op)).1.mp.ldsc 0) =
        txRing (s.mp.ldsc 0) ++
          acceptedStuffed (xs.map (·.ch)) ((conRun c s (xs.map PutS.op)).2.map (·.2))
  | [], s, _, _, _, _, _ => ⟨nofun, rfl, by simp [conRun, acceptedStuffed]⟩
  | x :: xs, s, hs, hb, hm, hc, hacc => by
    obtain ⟨heq₁, hst₁, hb₁, hm₁, hc₁, hd₁⟩ :=
      simPutcharS_stream hg h2 hs hb hm hc x.ch x.acc x.wc x.wt
    have hs₁ : ConReachable c (LogSys.init consoleMux) (simPutcharS c s x.ch x.acc x.wc x.wt).1 :=
      .con hs (show x.op.Valid from hacc x (List.mem_cons_self _ _))
    obtain ⟨hsts, hd, heq₂⟩ := conRun_putcharS_queue hg h2 xs _ hs₁ (hb₁.trans hb)
      (hm₁ ▸ hm) (hc₁ ▸ hc) fun x' h' ↦ hacc x' (List.mem_cons_of_mem _ h')
    have hrun : conRun c s ((x :: xs).map PutS.op) =
        ((conRun c (simPutcharS c s x.ch x.acc x.wc x.wt).1 (xs.map PutS.op)).1,
          (simPutcharS c s x.ch x.acc x.wc x.wt).2 ::
            (conRun c (simPutcharS c s x.ch x.acc x.wc x.wt).1 (xs.map PutS.op)).2) := rfl
    rw [hrun]
    refine ⟨?_, hd.trans hd₁, ?_⟩
    · intro r hr
      rcases List.mem_cons.1 hr with rfl | hr
      · exact hst₁
      · exact hsts r hr
    · rw [List.flatMap_cons, List.map_cons, List.map_cons, acceptedStuffed, List.append_assoc,
        heq₂, ← List.append_assoc, heq₁, List.append_assoc]

/-- On a connected unbuffered console, with a guard of two places or more, over any run of
`sim_putchar_s` calls: every call returns `SCPE_OK` or `SCPE_STALL`, nothing is dropped, and
the bytes the calls report the socket accepted, followed by what is still queued, are the
queue at the start followed by the stuffed form of exactly the characters accepted, in order;
a well-formed Telnet stream when the queue at the start was one. -/
theorem conRun_putcharS_stream (hg : GreetingOk c consoleMux g) (h2 : 2 ≤ c.guard)
    (xs : List PutS) (hs : ConReachable c (LogSys.init consoleMux) s) (hb : s.mp.buffered = 0)
    (hm : s.mp.master ≠ 0) (hc : (s.mp.ldsc 0).conn ≠ 0) (hacc : ∀ x ∈ xs, x.acc ≠ some 0) :
    (∀ r ∈ (conRun c s (xs.map PutS.op)).2, r.2 = .scpe .ok ∨ r.2 = .scpe .stall) ∧
      ((conRun c s (xs.map PutS.op)).1.mp.ldsc 0).txdrp = (s.mp.ldsc 0).txdrp ∧
      (conRun c s (xs.map PutS.op)).2.flatMap (·.1.sent) ++
            txRing ((conRun c s (xs.map PutS.op)).1.mp.ldsc 0) =
          txRing (s.mp.ldsc 0) ++
            acceptedStuffed (xs.map (·.ch)) ((conRun c s (xs.map PutS.op)).2.map (·.2)) ∧
        (iacPaired (txRing (s.mp.ldsc 0)) = true →
          iacPaired ((conRun c s (xs.map PutS.op)).2.flatMap (·.1.sent) ++
            txRing ((conRun c s (xs.map PutS.op)).1.mp.ldsc 0)) = true) := by
  obtain ⟨hsts, hd, heq⟩ := conRun_putcharS_queue hg h2 xs s hs hb hm hc hacc
  refine ⟨hsts, hd, heq, fun hp ↦ ?_⟩
  rw [heq, iacPaired_append hp, iacPaired_acceptedStuffed]

end Output

/-- An IAC and an `A`, the accept and the flushes answered by sockets that take nothing. -/
def iacThenA : List PutS :=
  [⟨0xFF, none, fun _ ↦ (.error, .error), fun _ ↦ (.error, .error)⟩,
    ⟨0x41, none, fun _ ↦ (.error, .error), fun _ ↦ (.error, .error)⟩]

set_option maxRecDepth 8000 in
theorem consoleConnected_putcharS_stream :
    GreetingOk sampleConsts consoleMux 37 ∧ 2 ≤ sampleConsts.guard ∧
      ConReachable sampleConsts (LogSys.init consoleMux) consoleConnected ∧
      consoleConnected.mp.buffered = 0 ∧ consoleConnected.mp.master ≠ 0 ∧
      (consoleConnected.mp.ldsc 0).conn ≠ 0 ∧ (∀ x ∈ iacThenA, x.acc ≠ some 0) ∧
      ((∀ r ∈ (conRun sampleConsts consoleConnected (iacThenA.map PutS.op)).2,
          r.2 = .scpe .ok ∨ r.2 = .scpe .stall) ∧
        ((conRun sampleConsts consoleConnected (iacThenA.map PutS.op)).1.mp.ldsc 0).txdrp =
          (consoleConnected.mp.ldsc 0).txdrp ∧
        (conRun sampleConsts consoleConnected (iacThenA.map PutS.op)).2.flatMap (·.1.sent) ++
              txRing ((conRun sampleConsts consoleConnected (iacThenA.map PutS.op)).1.mp.ldsc 0) =
            txRing (consoleConnected.mp.ldsc 0) ++ acceptedStuffed (iacThenA.map (·.ch))
              ((conRun sampleConsts consoleConnected (iacThenA.map PutS.op)).2.map (·.2)) ∧
          (iacPaired (txRing (consoleConnected.mp.ldsc 0)) = true →
            iacPaired ((conRun sampleConsts consoleConnected (iacThenA.map PutS.op)).2.flatMap
                (·.1.sent) ++
              txRing ((conRun sampleConsts consoleConnected
                (iacThenA.map PutS.op)).1.mp.ldsc 0)) = true)) :=
  have hg : GreetingOk sampleConsts consoleMux 37 := by decide
  have hacc : ∀ x ∈ iacThenA, x.acc ≠ some 0 := by simp [iacThenA]
  ⟨hg, by decide, consoleConnected_reachable, by decide, by decide, by decide, hacc,
    conRun_putcharS_stream hg (by decide) iacThenA consoleConnected_reachable (by decide)
      (by decide) (by decide) hacc⟩

end TelnetMux
