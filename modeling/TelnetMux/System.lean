import TelnetMux.Invariant
import TelnetMux.Logfile

/-!
# The multiplexer as a system

The calls a simulator makes on a multiplexer, as one step function on the state they share:
the library's entry points (`tmxr_open_master` with a port or a buffering option,
`tmxr_close_master`, `tmxr_poll_conn`, `tmxr_putc_ln`, `tmxr_poll_tx`, `tmxr_poll_rx`,
`tmxr_getc_ln`, `tmxr_reset_ln`, `tmxr_dscln`), a device's write of `rcve` once a connection
is made, and the log commands, which share the log file references with the multiplexer's
lines. A reachable state is one that a run reaches from a multiplexer as a device declares it,
with no log open; the environment is only asked that a socket `sim_accept_conn` returns is a
socket (not 0) and comes on an open master socket.

Every reachable state keeps the line invariant of `TelnetMux.Invariant` on each line; what
follows for the transmit enable is the last result here.
-/

namespace TelnetMux

/-! ## Steps -/

/-- The calls on a multiplexer, with what the sockets answer. -/
inductive MuxOp
  | openMaster (cmd : OpenCmd) (msock : Option Nat)
  | closeMaster (w : Nat → SockWrite × SockWrite)
  | pollConn (acc : Option Nat) (w : Nat → SockWrite × SockWrite)
  | setRcve (i : Nat) (b : Bool)
  | putc (i : Nat) (chr : UInt8)
  | pollTx (w : Nat → SockWrite × SockWrite)
  | pollRx (env : Nat → RxEnv)
  | getc (i : Nat)
  | resetLn (i : Nat) (w : SockWrite × SockWrite)
  | dscln (i : Nat) (w : SockWrite × SockWrite)

def muxStep (c : Consts) (mp : Tmxr) : MuxOp → Tmxr
  | .openMaster cmd msock => (tmxrOpenMaster c mp cmd msock).1
  | .closeMaster w => tmxrCloseMaster c mp w
  | .pollConn acc w => (tmxrPollConn c mp acc w).1
  | .setRcve i b => mp.setLine i { mp.ldsc i with rcve := b }
  | .putc i chr => mp.setLine i (tmxrPutcLn c (mp.ldsc i) chr).1
  | .pollTx w => (tmxrPollTx mp w).1
  | .pollRx env => tmxrPollRx c mp env
  | .getc i => mp.setLine i (tmxrGetcLn c (mp.ldsc i)).1
  | .resetLn i w => mp.setLine i (tmxrResetLn (mp.ldsc i) w)
  | .dscln i w => (tmxrDscln c mp i w).1

/-- The calls `ops` made one after the other. -/
def muxRun (c : Consts) : Tmxr → List MuxOp → Tmxr
  | mp, [] => mp
  | mp, op :: ops => muxRun c (muxStep c mp op) ops

/-- A call on the multiplexer, or a log command. -/
inductive Op
  | mux (op : MuxOp)
  | log (op : LogOp)

def sysStep (c : Consts) (s : LogSys) : Op → LogSys
  | .mux op => { s with mp := muxStep c s.mp op }
  | .log op => logStep s op

/-- What the environment guarantees of a call: a connection `sim_accept_conn` returns is a
socket, and comes only while the master socket is open. -/
def MuxOp.Valid (mp : Tmxr) : MuxOp → Prop
  | .pollConn (some sock) _ => sock ≠ 0 ∧ mp.master ≠ 0
  | _ => True

def Op.Valid (mp : Tmxr) : Op → Prop
  | .mux op => op.Valid mp
  | .log _ => True

/-- The states reached from `s₀` by valid steps. -/
inductive Reachable (c : Consts) (s₀ : LogSys) : LogSys → Prop
  | init : Reachable c s₀ s₀
  | step {s : LogSys} {op : Op} : Reachable c s₀ s → op.Valid s.mp → Reachable c s₀ (sysStep c s op)

/-! ## The invariant of a multiplexer -/

/-- Every line keeps its invariant, for greetings bounded by `g`. -/
structure MuxInv (c : Consts) (g : Nat) (mp : Tmxr) : Prop where
  greet : GreetingOk c mp g
  line : ∀ i < mp.lines, LineInv c g mp.buffered mp.master (mp.ldsc i)

section

variable {c : Consts} {g : Nat} {mp : Tmxr}

/-- The greetings depend on the number of lines and the device's name only. -/
theorem GreetingOk.congr {mp' : Tmxr} (h : GreetingOk c mp g) (hl : mp'.lines = mp.lines)
    (hd : mp'.dname = mp.dname) : GreetingOk c mp' g := by
  have e (i : Nat) : connMsg c mp' i = connMsg c mp i := by
    unfold connMsg
    rw [hl, hd]
  refine ⟨h.1, fun i hi ↦ ?_⟩
  rw [e]
  exact h.2 i (hl ▸ hi)

theorem MuxInv.of_lines {mp' : Tmxr} (h : MuxInv c g mp) (hl : mp'.lines = mp.lines)
    (hd : mp'.dname = mp.dname)
    (hline : ∀ i < mp'.lines, LineInv c g mp'.buffered mp'.master (mp'.ldsc i)) : MuxInv c g mp' :=
  ⟨h.greet.congr hl hd, hline⟩

theorem MuxInv.setLine (h : MuxInv c g mp) {i : Nat} {lp : Line}
    (hl : i < mp.lines → LineInv c g mp.buffered mp.master lp) : MuxInv c g (mp.setLine i lp) := by
  refine h.of_lines rfl rfl fun k hk ↦ ?_
  by_cases hki : k = i
  · subst hki
    rw [Tmxr.setLine_ldsc_self]
    exact hl hk
  · rw [Tmxr.setLine_ldsc_of_ne _ _ hki]
    exact h.line k hk

theorem MuxInv.of_logFrame {mp' : Tmxr} (h : MuxInv c g mp) (hf : LogFrame mp mp') :
    MuxInv c g mp' := by
  refine h.of_lines hf.lines hf.dname fun i hi ↦ ?_
  rw [hf.buffered, hf.master]
  exact (h.line i (hf.lines ▸ hi)).congr (hf.ldsc i)

theorem tmxrPollTx_muxInv (h : MuxInv c g mp) (w : Nat → SockWrite × SockWrite) :
    MuxInv c g (tmxrPollTx mp w).1 :=
  h.of_lines rfl rfl fun i hi ↦ by
    rw [tmxrPollTx_ldsc, if_pos (show i < mp.lines from hi)]
    exact pollTxLn_lineInv h.greet.1 (h.line i hi) (w i)

/-- A connection made on an open master socket with a real socket keeps the invariant, on
whichever line the search found. -/
theorem tmxrPollConn_muxInv (h : MuxInv c g mp) {acc : Option Nat}
    {w : Nat → SockWrite × SockWrite} (hv : (MuxOp.pollConn acc w).Valid mp) :
    MuxInv c g (tmxrPollConn c mp acc w).1 := by
  unfold tmxrPollConn
  cases acc with
  | none => exact h
  | some sock =>
    obtain ⟨hsock, hm⟩ := hv
    dsimp only
    split_ifs with hi
    · exact h
    · have hi' : (connLineIdx mp).toNat < mp.lines := by have := connLineIdx_nonneg mp; omega
      obtain ⟨hiac, hlen⟩ := h.greet.2 _ hi'
      have h₁ := tmxrPollTx_muxInv (h.setLine (i := (connLineIdx mp).toNat) fun _ ↦
        connLine_lineInv h.greet.1 (h.line _ hi') hm hsock hiac (connMsg_length_pos c mp _) hlen) w
      exact h₁.setLine fun hk ↦ (h₁.line _ hk).congr rfl

theorem tmxrPollRx_muxInv (h : MuxInv c g mp) (env : Nat → RxEnv) :
    MuxInv c g (tmxrPollRx c mp env) :=
  h.of_lines rfl rfl fun i hi ↦ by
    rw [tmxrPollRx_ldsc c mp env hi]
    exact rxRewind_lineInv (pollRxLn_lineInv (h.line i hi) _ _ _)

/-- Saying goodbye and resetting a connected line leaves it idle, with its buffer. -/
theorem bye_lineInv {b m : Nat} {lp : Line} (h : LineInv c g b m lp) (msg : List UInt8)
    (w : SockWrite × SockWrite) : LineInv c g b m (tmxrResetLn (tmxrLinemsg c lp msg) w) :=
  tmxrResetLn_lineInv (tmxrLinemsg_lineInv h msg) w

theorem tmxrCloseMaster_muxInv (h : MuxInv c g mp) (w : Nat → SockWrite × SockWrite) :
    MuxInv c g (tmxrCloseMaster c mp w) :=
  h.of_lines rfl rfl fun i hi ↦ by
    show LineInv c g mp.buffered 0 (if i < mp.lines then _ else _)
    rw [if_pos (show i < mp.lines from hi)]
    split_ifs with hc
    · exact (bye_lineInv (h.line i hi) _ _).close (tmxrResetLn_spec _ _).2.2.1
    · exact (h.line i hi).close (not_not.1 hc)

theorem tmxrDscln_muxInv (h : MuxInv c g mp) (ln : Nat) (w : SockWrite × SockWrite) :
    MuxInv c g (tmxrDscln c mp ln w).1 := by
  unfold tmxrDscln
  dsimp only
  split_ifs with hl hc
  · exact h.setLine fun _ ↦ bye_lineInv (h.line ln hl) _ w
  · exact h
  · exact h

/-- The buffering options and the port's opening set every line's buffer afresh. -/
theorem tmxrOpenMaster_muxInv (h : MuxInv c g mp) (cmd : OpenCmd) (msock : Option Nat) :
    MuxInv c g (tmxrOpenMaster c mp cmd msock).1 := by
  have hmax : 0 < c.maxbuf := Nat.lt_of_le_of_lt (Nat.zero_le _) c.guard_lt
  unfold tmxrOpenMaster
  cases cmd with
  | nobuffered =>
    dsimp only
    split_ifs
    · refine h.of_lines rfl rfl fun i hi ↦ ?_
      dsimp only
      rw [Tmxr.mapLines_ldsc_of_lt mp _ hi]
      exact (h.line i hi).rebuffer (by simp) (absurd rfl) (fun _ ↦ rfl) hmax
    · exact h
  | buffered size =>
    dsimp only
    split_ifs with hn
    · exact h
    · refine h.of_lines rfl rfl fun i hi ↦ ?_
      dsimp only
      rw [Tmxr.mapLines_ldsc_of_lt mp _ hi]
      have hn0 : size.getD 32768 ≠ 0 := fun h0 ↦ hn (.inl h0)
      exact (h.line i hi).rebuffer (by simpa using hn0) (fun _ ↦ rfl) (absurd · hn0)
        (Nat.pos_of_ne_zero hn0)
  | port port =>
    by_cases hp : port = 0 ∨ port > 65535
    · simp only [if_pos hp]
      exact h
    simp only [if_neg hp]
    cases msock with
    | none => exact h
    | some sock =>
      refine h.of_lines rfl rfl fun i hi ↦ ?_
      dsimp only
      rw [Tmxr.mapLines_ldsc_of_lt mp _ hi]
      have hl := h.line i hi
      by_cases hb : mp.buffered = 0
      · simp only [if_pos hb]
        exact lineInv_of_idle ⟨fun h' ↦ (nomatch h'), fun h' ↦ absurd hb h'⟩ (fun h' ↦ absurd hb h')
          (fun _ ↦ .inl rfl) rfl
          ⟨rfl, rfl⟩ (fun _ _ ↦ ringOk_of_empty hmax rfl rfl) fun _ ↦ rfl
      · simp only [if_neg hb]
        have hsz : (mp.ldsc i).txbsz = mp.buffered := hl.bsize hb
        exact lineInv_of_idle hl.bufd hl.bsize (fun h' ↦ absurd h' hb) rfl ⟨rfl, rfl⟩
          (fun _ _ ↦ ringOk_of_empty (by rw [hsz]; omega) rfl rfl) fun _ ↦ rfl

theorem muxStep_muxInv (h : MuxInv c g mp) (op : MuxOp) (hv : op.Valid mp) :
    MuxInv c g (muxStep c mp op) := by
  cases op with
  | openMaster cmd msock => exact tmxrOpenMaster_muxInv h cmd msock
  | closeMaster w => exact tmxrCloseMaster_muxInv h w
  | pollConn acc w => exact tmxrPollConn_muxInv h hv
  | setRcve i b => exact h.setLine fun hi ↦ (h.line i hi).congr rfl
  | putc i chr => exact h.setLine fun hi ↦ tmxrPutcLn_lineInv (h.line i hi) chr
  | pollTx w => exact tmxrPollTx_muxInv h w
  | pollRx env => exact tmxrPollRx_muxInv h env
  | getc i => exact h.setLine fun hi ↦ tmxrGetcLn_lineInv (h.line i hi)
  | resetLn i w => exact h.setLine fun hi ↦ tmxrResetLn_lineInv (h.line i hi) w
  | dscln i w => exact tmxrDscln_muxInv h i w

theorem sysStep_muxInv {s : LogSys} (h : MuxInv c g s.mp) (op : Op) (hv : op.Valid s.mp) :
    MuxInv c g (sysStep c s op).mp := by
  cases op with
  | mux op => exact muxStep_muxInv h op hv
  | log op => exact h.of_logFrame (logStep_logFrame s op)

/-- Every line of every reachable state keeps the invariant. -/
theorem Reachable.muxInv {s₀ s : LogSys} (h₀ : MuxInv c g s₀.mp) (h : Reachable c s₀ s) :
    MuxInv c g s.mp := by
  induction h with
  | init => exact h₀
  | step _ hv ih => exact sysStep_muxInv ih _ hv

/-- A multiplexer as a device declares it keeps the invariant. -/
theorem muxInv_init {n : Nat} {ord : Option (List Int)} {dn : Option (List UInt8)}
    (hg : GreetingOk c (Tmxr.init n ord dn) g) : MuxInv c g (Tmxr.init n ord dn) :=
  ⟨hg, fun _ _ ↦ lineInv_of_idle (by simp [Tmxr.init, Line.zero]) (fun h ↦ absurd rfl h)
    (fun _ ↦ .inr ⟨rfl, rfl⟩) rfl ⟨rfl, rfl⟩ (fun h ↦ absurd rfl h) fun _ ↦ rfl⟩

/-! ## The transmit enable -/

/-- In every reachable state, an unbuffered line with a buffer whose transmitter is enabled
has more than `TMXR_GUARD` free places; so, with a guard of two places or more, a put made
while it is connected and enabled returns `SCPE_OK` and stores the whole stuffed character,
dropping nothing. -/
theorem reachable_xmte_room {n : Nat} {ord : Option (List Int)} {dn : Option (List UInt8)}
    {s : LogSys} (hg : GreetingOk c (Tmxr.init n ord dn) g)
    (hs : Reachable c (LogSys.init (Tmxr.init n ord dn)) s) {i : Nat} (hi : i < s.mp.lines)
    (hb : (s.mp.ldsc i).txbfd = false) (hx : (s.mp.ldsc i).xmte = true) :
    ((s.mp.ldsc i).txbsz ≠ 0 → c.guard < txbufAvail (s.mp.ldsc i)) ∧
      (2 ≤ c.guard → (s.mp.ldsc i).conn ≠ 0 → ∀ chr : UInt8,
        (tmxrPutcLn c (s.mp.ldsc i) chr).2 = .ok ∧
          txRing (tmxrPutcLn c (s.mp.ldsc i) chr).1 = txRing (s.mp.ldsc i) ++ stuff chr ∧
          (tmxrPutcLn c (s.mp.ldsc i) chr).1.txdrp = (s.mp.ldsc i).txdrp) := by
  have h := (hs.muxInv (muxInv_init hg)).line i hi
  exact ⟨(h.xmte hb · hx), fun h2 hc ↦ h.putc_whole hg.1 hc hb hx h2⟩

end

/-- A one-line multiplexer whose port is opened on master socket 3 and which accepts socket 5,
which takes nothing. -/
def oneConnected : LogSys :=
  sysStep sampleConsts
    (sysStep sampleConsts (LogSys.init (Tmxr.init 1 none none)) (.mux (.openMaster (.port 23) (some 3))))
    (.mux (.pollConn (some 5) fun _ ↦ (.error, .error)))

theorem oneConnected_reachable :
    Reachable sampleConsts (LogSys.init (Tmxr.init 1 none none)) oneConnected :=
  .step (.step .init trivial) ⟨by decide, by decide⟩

set_option maxRecDepth 8000 in
theorem oneConnected_room :
    sampleConsts.guard < txbufAvail (oneConnected.mp.ldsc 0) ∧
      ∀ chr : UInt8, (tmxrPutcLn sampleConsts (oneConnected.mp.ldsc 0) chr).2 = .ok ∧
        txRing (tmxrPutcLn sampleConsts (oneConnected.mp.ldsc 0) chr).1 =
          txRing (oneConnected.mp.ldsc 0) ++ stuff chr ∧
        (tmxrPutcLn sampleConsts (oneConnected.mp.ldsc 0) chr).1.txdrp =
          (oneConnected.mp.ldsc 0).txdrp :=
  have h := reachable_xmte_room (g := 37) (by decide) oneConnected_reachable (i := 0) (by decide)
    (by decide) (by decide)
  ⟨h.1 (by decide), h.2 (by decide) (by decide)⟩

/-- A line whose port was never opened has no buffer; resetting it enables its transmitter
with no free place at all. -/
theorem unopened_reset_no_room :
    Reachable sampleConsts (LogSys.init (Tmxr.init 1 none none))
        (sysStep sampleConsts (LogSys.init (Tmxr.init 1 none none)) (.mux (.resetLn 0 (.error, .error)))) ∧
      ((sysStep sampleConsts (LogSys.init (Tmxr.init 1 none none))
        (.mux (.resetLn 0 (.error, .error)))).mp.ldsc 0).txbfd = false ∧
      ((sysStep sampleConsts (LogSys.init (Tmxr.init 1 none none))
        (.mux (.resetLn 0 (.error, .error)))).mp.ldsc 0).xmte = true ∧
      txbufAvail ((sysStep sampleConsts (LogSys.init (Tmxr.init 1 none none))
        (.mux (.resetLn 0 (.error, .error)))).mp.ldsc 0) ≤ sampleConsts.guard :=
  ⟨.step .init trivial, by decide, by decide, by decide⟩

end TelnetMux
