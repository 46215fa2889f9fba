import Mathlib.Logic.Relation
import TelnetMux.System

/-!
# The console on a Telnet line

`sim_console.c` can put the simulator's console on the one line of a multiplexer of its own,
`sim_con_tmxr`. `SET CONSOLE TELNET=port` opens the port, closing it first if it is open;
`TELNET=BUFFERED`, `NOBUFFERED`, `LOG` and `NOLOG` pass their options on to `tmxr_open_master`;
`SET CONSOLE NOTELNET` closes the port. `sim_check_console` waits for a connection before the
simulator runs, `sim_poll_kbd` reads the keyboard, and `sim_putchar` and `sim_putchar_s` write
a character. Each routine is written here with the library's routines it calls, on the state
of `TelnetMux.System`; what it writes to `sim_log` and to the console window is returned.

Every routine is a run of valid calls of the library (`conStep_steps`), so every state the
console reaches, with the log commands in between, is a reachable state of the multiplexer and
keeps its line invariant. From the invariant: `sim_putchar_s` never drops a character on an
unbuffered console, and does what `sim_putchar` does whenever the connected line's transmitter
is enabled; `sim_check_console` returns on the first connection offered, and times out exactly
when none is offered and no stop is asked for.

The window's own keyboard and output (`sim_os_poll_kbd`, `sim_os_putchar`) are inputs and
outputs of the model; `SET CONSOLE` itself, with the keyboard map and `PCHAR`, is in
`TelnetMux.ConsoleSet`.
-/

namespace TelnetMux

/-! ## Runs of the library's calls -/

/-- One valid call of the library, or one log command. -/
def ValidStep (c : Consts) (s s' : LogSys) : Prop :=
  ∃ op : Op, op.Valid s.mp ∧ sysStep c s op = s'

/-- `s'` is reached from `s` by valid calls. -/
def Steps (c : Consts) : LogSys → LogSys → Prop :=
  Relation.ReflTransGen (ValidStep c)

section Steps

variable {c : Consts} {s₀ s s₁ s₂ : LogSys}

theorem Steps.refl (s : LogSys) : Steps c s s :=
  Relation.ReflTransGen.refl

theorem Steps.trans (h₁ : Steps c s₀ s₁) (h₂ : Steps c s₁ s₂) : Steps c s₀ s₂ :=
  Relation.ReflTransGen.trans h₁ h₂

theorem Steps.mux (op : MuxOp) (hv : op.Valid s.mp) :
    Steps c s { s with mp := muxStep c s.mp op } :=
  .single ⟨.mux op, hv, rfl⟩

theorem Steps.log (op : LogOp) : Steps c s (logStep s op) :=
  .single ⟨.log op, trivial, rfl⟩

theorem Reachable.of_steps (h : Reachable c s₀ s₁) (hs : Steps c s₁ s₂) : Reachable c s₀ s₂ := by
  induction hs with
  | refl => exact h
  | tail _ hst ih =>
    obtain ⟨op, hv, rfl⟩ := hst
    exact ih.step hv

/-- A connection poll is valid on an open port, with a socket that is not 0. -/
theorem pollConn_valid {mp : Tmxr} (hm : mp.master ≠ 0) {acc : Option Nat} (hacc : acc ≠ some 0)
    (w : Nat → SockWrite × SockWrite) : (MuxOp.pollConn acc w).Valid mp := by
  cases acc with
  | none => trivial
  | some sock => exact ⟨fun h ↦ hacc (h ▸ rfl), hm⟩

end Steps

/-! ## The shape of the multiplexer -/

section Shape

variable {c : Consts}

/-- No call changes the number of lines or the connection order. -/
theorem muxStep_shape (mp : Tmxr) (op : MuxOp) :
    (muxStep c mp op).lines = mp.lines ∧ (muxStep c mp op).lnorder = mp.lnorder := by
  cases op with
  | openMaster cmd msock =>
    unfold muxStep tmxrOpenMaster
    cases cmd <;> cases msock <;> dsimp only <;> split_ifs <;> exact ⟨rfl, rfl⟩
  | pollConn acc w => exact ⟨by simp [muxStep], by simp [muxStep]⟩
  | dscln i w =>
    unfold muxStep tmxrDscln
    dsimp only
    split_ifs <;> exact ⟨rfl, rfl⟩
  | _ => exact ⟨rfl, rfl⟩

theorem sysStep_shape (s : LogSys) (op : Op) :
    (sysStep c s op).mp.lines = s.mp.lines ∧ (sysStep c s op).mp.lnorder = s.mp.lnorder := by
  cases op with
  | mux op => exact muxStep_shape s.mp op
  | log op => exact ⟨(logStep_logFrame s op).lines, (logStep_logFrame s op).lnorder⟩

theorem Reachable.shape {s₀ s : LogSys} (h : Reachable c s₀ s) :
    s.mp.lines = s₀.mp.lines ∧ s.mp.lnorder = s₀.mp.lnorder := by
  induction h with
  | init => exact ⟨rfl, rfl⟩
  | step _ _ ih =>
    rw [(sysStep_shape _ _).1, (sysStep_shape _ _).2]
    exact ih

end Shape

/-! ## The console routines -/

/-- What a console routine returns: a status of the library, `SCPE_NOPARAM`, `SCPE_STOP`,
`SCPE_TTMO`, or a keyboard character `c | SCPE_KFLAG`, given by `c`. -/
inductive ConStat
  | scpe (r : Scpe)
  | noParam
  | stop
  | ttmo
  | kbd (c : Nat)
  deriving DecidableEq, Repr

/-- What a console routine writes besides the line, to `sim_log` and to the console window,
the bytes the console line read from its socket, and the bytes that socket took in the flushes
of `tmxr_poll_conn` and `tmxr_poll_tx`. -/
structure ConOut where
  log : List UInt8
  window : List UInt8
  input : List UInt8
  sent : List UInt8
  deriving DecidableEq, Repr

def ConOut.nil : ConOut :=
  ⟨[], [], [], []⟩

instance : Append ConOut :=
  ⟨fun a b ↦ ⟨a.log ++ b.log, a.window ++ b.window, a.input ++ b.input, a.sent ++ b.sent⟩⟩

@[simp] theorem ConOut.append_input (a b : ConOut) : (a ++ b).input = a.input ++ b.input :=
  rfl

@[simp] theorem ConOut.append_sent (a b : ConOut) : (a ++ b).sent = a.sent ++ b.sent :=
  rfl

/-- The bytes the console line's socket took, and nothing else. -/
def ConOut.ofSent (sent : List UInt8) : ConOut :=
  ⟨[], [], [], sent⟩

/-- A message of `sim_check_console`: `text\r\n` to the window, and `text\n` to `sim_log` when
it is open. -/
def conMsg (s : LogSys) (text : String) : ConOut :=
  ⟨if s.simLog.isSome then ascii text ++ [10] else [], ascii text ++ [13, 10], [], []⟩

/-- A character written to `sim_log`, when it is open. -/
def logChar (s : LogSys) (ch : UInt8) : List UInt8 :=
  if s.simLog.isSome then [ch] else []

/-- The connection poll of the console routines: `tmxr_poll_conn`, and reception enabled on
the console line `sim_con_ldsc` when a line was connected. -/
def conPollConn (c : Consts) (mp : Tmxr) (acc : Option Nat) (w : Nat → SockWrite × SockWrite) :
    Tmxr × Int × (Nat → List UInt8) :=
  let r := tmxrPollConn c mp acc w
  if 0 ≤ r.2.1 then (r.1.setLine 0 { r.1.ldsc 0 with rcve := true }, r.2) else r

/-- What `sim_putchar` and `sim_putchar_s` share, `put` being what each does on the line: with
the port closed the character goes to the window; else it goes to `sim_log` when the line
keeps no log of its own, an unconnected unbuffered console is lost and an unconnected buffered
one polls for a connection, and after `put` the lines are flushed by `tmxr_poll_tx`. The bytes
the console line's socket took in the two flushes are returned in order. -/
def conPut (c : Consts) (s : LogSys) (ch : UInt8) (acc : Option Nat)
    (wc wt : Nat → SockWrite × SockWrite) (put : Tmxr → Tmxr × Scpe) : LogSys × ConOut × ConStat :=
  if s.mp.master = 0 then (s, ⟨logChar s ch, [ch], [], []⟩, .scpe .ok)
  else
    let log := if (s.mp.ldsc 0).txlog.isNone then logChar s ch else []
    if (s.mp.ldsc 0).conn = 0 ∧ (s.mp.ldsc 0).txbfd = false then (s, ⟨log, [], [], []⟩, .scpe .lost)
    else
      let pc := if (s.mp.ldsc 0).conn = 0 then conPollConn c s.mp acc wc else (s.mp, -1, fun _ ↦ [])
      let r := put pc.1
      let t := tmxrPollTx r.1 wt
      ({ s with mp := t.1 }, ⟨log, [], [], pc.2.2 0 ++ t.2 0⟩, .scpe r.2)

/-- `sim_putchar`, with the socket `sim_accept_conn` returns and the sockets' answers to the
flushes of `tmxr_poll_conn` and `tmxr_poll_tx`: the character is put on the line whatever its
transmit enable, and the status of `tmxr_putc_ln` is dropped. -/
def simPutchar (c : Consts) (s : LogSys) (ch : UInt8) (acc : Option Nat)
    (wc wt : Nat → SockWrite × SockWrite) : LogSys × ConOut × ConStat :=
  conPut c s ch acc wc wt fun mp ↦ (mp.setLine 0 (tmxrPutcLn c (mp.ldsc 0) ch).1, .ok)

/-- `sim_putchar_s`: a disabled transmitter stalls the character; else the status of
`tmxr_putc_ln` is returned. -/
def simPutcharS (c : Consts) (s : LogSys) (ch : UInt8) (acc : Option Nat)
    (wc wt : Nat → SockWrite × SockWrite) : LogSys × ConOut × ConStat :=
  conPut c s ch acc wc wt fun mp ↦
    if (mp.ldsc 0).xmte = false then (mp, .stall)
    else (mp.setLine 0 (tmxrPutcLn c (mp.ldsc 0) ch).1, (tmxrPutcLn c (mp.ldsc 0) ch).2)

/-- The bytes `tmxr_poll_rx` reads from a line's socket. -/
def rxRead (c : Consts) (lp : Line) (rd : SockRead) : List UInt8 :=
  if lp.conn = 0 ∨ lp.rcve = false then [] else rxTaken c lp rd

/-- The end of `sim_poll_kbd`: `tmxr_poll_rx`, then `tmxr_getc_ln` on the console line; a
character is returned as `(c & (SCPE_BREAK | 0377)) | SCPE_KFLAG`. -/
def kbdRead (c : Consts) (mp : Tmxr) (rx : Nat → RxEnv) : Tmxr × ConOut × ConStat :=
  let input := rxRead c (mp.ldsc 0) (rx 0).rd
  let mp := tmxrPollRx c mp rx
  let g := tmxrGetcLn c (mp.ldsc 0)
  (mp.setLine 0 g.1, ⟨[], [], input, []⟩,
    if g.2 = 0 then .scpe .ok else .kbd (g.2 &&& (c.scpeBreak ||| 0xFF)))

/-- `sim_poll_kbd`, with what the window's keyboard `sim_os_poll_kbd` returned (read when
`use_console`), the socket `sim_accept_conn` returns, and the sockets' answers. A keystroke in
the window is dropped while the console is on Telnet, unless it is the stop character. -/
def simPollKbd (c : Consts) (s : LogSys) (useConsole : Bool) (os : ConStat) (acc : Option Nat)
    (wc : Nat → SockWrite × SockWrite) (rx : Nat → RxEnv) : LogSys × ConOut × ConStat :=
  if useConsole = true ∧ (os = .stop ∨ s.mp.master = 0) then (s, .nil, os)
  else if s.mp.master = 0 then (s, .nil, .scpe .ok)
  else if (s.mp.ldsc 0).conn = 0 then
    if (s.mp.ldsc 0).txbfd = false then (s, .nil, .scpe .lost)
    else
      let r := conPollConn c s.mp acc wc
      if 0 ≤ r.2.1 then
        let k := kbdRead c r.1 rx
        ({ s with mp := k.1 }, .ofSent (r.2.2 0) ++ k.2.1, k.2.2)
      else ({ s with mp := r.1 }, .nil, .scpe .ok)
  else
    let k := kbdRead c s.mp rx
    ({ s with mp := k.1 }, k.2)

/-- What one second of `sim_check_console`'s wait meets: the socket `sim_accept_conn` returns,
if any, the sockets' answers to the flush of a connection, what `sim_os_poll_kbd` returns, and
whether `stop_cpus` is set. -/
structure ConWait where
  acc : Option Nat
  w : Nat → SockWrite × SockWrite
  kbd : ConStat
  stopCpus : Bool

/-- A second of the wait in which nothing happens. -/
def ConWait.Idle (t : ConWait) : Prop :=
  t.acc = none ∧ t.kbd ≠ .stop ∧ t.stopCpus = false

instance (t : ConWait) : Decidable t.Idle :=
  inferInstanceAs (Decidable (_ ∧ _))

/-- The loop of `sim_check_console` from second `i`, with `k` seconds left: poll for a
connection and return on one; stop on `SCPE_STOP` or `stop_cpus`; every ten seconds say that
the console waits. -/
def checkLoop (c : Consts) (s : LogSys) (wait : Nat → ConWait) (i : Nat) :
    Nat → LogSys × ConOut × ConStat
  | 0 => (s, .nil, .ttmo)
  | k + 1 =>
    let r := conPollConn c s.mp (wait i).acc (wait i).w
    let s := { s with mp := r.1 }
    if 0 ≤ r.2.1 then
      (s, .ofSent (r.2.2 0) ++ if i = 0 then .nil else conMsg s "Running", .scpe .ok)
    else if (wait i).kbd = .stop ∨ (wait i).stopCpus = true then (s, .nil, .stop)
    else
      let out := if i % 10 = 0 then conMsg s "Waiting for console Telnet connection" else .nil
      let r := checkLoop c s wait (i + 1) k
      (r.1, out ++ r.2.1, r.2.2)

/-- `sim_check_console sec`, with the sockets' answers to the receive poll of a connected or
buffered console, and what each second of the wait meets. -/
def simCheckConsole (c : Consts) (s : LogSys) (sec : Nat) (rx : Nat → RxEnv)
    (wait : Nat → ConWait) : LogSys × ConOut × ConStat :=
  if s.mp.master = 0 then (s, .nil, .scpe .ok)
  else if (s.mp.ldsc 0).conn ≠ 0 ∨ (s.mp.ldsc 0).txbfd = true then
    let read : ConOut := ⟨[], [], rxRead c (s.mp.ldsc 0) (rx 0).rd, []⟩
    let s := { s with mp := tmxrPollRx c s.mp rx }
    if (s.mp.ldsc 0).conn ≠ 0 ∨ (s.mp.ldsc 0).txbfd = true then
      (s, read ++ if (s.mp.ldsc 0).conn = 0 then conMsg s "Running with Buffered Console" else .nil,
        .scpe .ok)
    else
      let r := checkLoop c s wait 0 sec
      (r.1, read ++ r.2.1, r.2.2)
  else checkLoop c s wait 0 sec

/-! ## `SET CONSOLE TELNET` and `NOTELNET` -/

/-- `sim_set_notelnet`: with no argument, close the port if it is open. -/
def simSetNotelnet (c : Consts) (s : LogSys) (cptr : String) (w : Nat → SockWrite × SockWrite) :
    LogSys × Scpe :=
  if cptr ≠ "" then (s, .twoMArg)
  else if s.mp.master = 0 then (s, .ok)
  else ({ s with mp := tmxrCloseMaster c s.mp w }, .ok)

/-- `sim_set_cons_log`: `tmxr_open_master` with `LOG=` and the value. -/
def simSetConsLog (s : LogSys) (cptr : Option String) (fopen : Nat → Option SmpFile) :
    LogSys × Scpe :=
  tmxrOpenMasterLog s (cptr.getD "") fopen

/-- `sim_set_cons_nolog`: `tmxr_open_master` with `NOLOG`, which takes no value. -/
def simSetConsNolog (s : LogSys) (cptr : Option String) : LogSys × Scpe :=
  if cptr.getD "" ≠ "" then (s, .twoMArg) else (tmxrOpenMasterNolog s, .ok)

/-- `sim_set_cons_buff`: `tmxr_open_master` with `BUFFERED` and the size, if one is given. -/
def simSetConsBuff (c : Consts) (s : LogSys) (size : Option Nat) : LogSys × Scpe :=
  let r := tmxrOpenMaster c s.mp (.buffered size) none
  ({ s with mp := r.1 }, r.2)

/-- `sim_set_cons_unbuff`: `tmxr_open_master` with `UNBUFFERED`, which ignores a value. -/
def simSetConsUnbuff (c : Consts) (s : LogSys) : LogSys × Scpe :=
  let r := tmxrOpenMaster c s.mp .nobuffered none
  ({ s with mp := r.1 }, r.2)

/-- An entry of `set_con_telnet_tab`, with its value and what `smp_fopen` returns. -/
inductive TelnetEntry
  | log (cptr : Option String) (fopen : Nat → Option SmpFile)
  | nolog (cptr : Option String)
  | buffered (size : Option Nat)
  | unbuffered

def TelnetEntry.action (c : Consts) (s : LogSys) : TelnetEntry → LogSys × Scpe
  | .log cptr fopen => simSetConsLog s cptr fopen
  | .nolog cptr => simSetConsNolog s cptr
  | .buffered size => simSetConsBuff c s size
  | .unbuffered => simSetConsUnbuff c s

/-- A modifier of `SET CONSOLE TELNET=`, as `sim_set_telnet` tells them apart: a port number,
with the sockets' answers to the closing of an open port and what `sim_master_sock` returns;
an entry of `set_con_telnet_tab`; or a name the table lacks. -/
inductive TelnetMod
  | port (port : Nat) (w : Nat → SockWrite × SockWrite) (msock : Option Nat)
  | entry (e : TelnetEntry)
  | other

/-- The loop of `sim_set_telnet`: a port number closes an open port, opens the new one and ends
the command; an entry that fails ends it with its status. -/
def telnetLoop (c : Consts) (s : LogSys) : List TelnetMod → LogSys × ConStat
  | [] => (s, .scpe .ok)
  | .port port w msock :: _ =>
    let s := if s.mp.master ≠ 0 then (simSetNotelnet c s "" w).1 else s
    let r := tmxrOpenMaster c s.mp (.port port) msock
    ({ s with mp := r.1 }, .scpe r.2)
  | .entry e :: mods =>
    let r := e.action c s
    if r.2 = .ok then telnetLoop c r.1 mods else (r.1, .scpe r.2)
  | .other :: _ => (s, .noParam)

/-- `sim_set_telnet` on the modifiers of its value. -/
def simSetTelnet (c : Consts) (s : LogSys) (mods : List TelnetMod) : LogSys × ConStat :=
  if mods.isEmpty then (s, .scpe .twoFArg) else telnetLoop c s mods

/-! ## Console runs -/

/-- The console's commands and calls, with what the environment answers. -/
inductive ConOp
  | telnet (mods : List TelnetMod)
  | notelnet (cptr : String) (w : Nat → SockWrite × SockWrite)
  | pollKbd (useConsole : Bool) (os : ConStat) (acc : Option Nat)
      (w : Nat → SockWrite × SockWrite) (rx : Nat → RxEnv)
  | putchar (ch : UInt8) (acc : Option Nat) (wc wt : Nat → SockWrite × SockWrite)
  | putcharS (ch : UInt8) (acc : Option Nat) (wc wt : Nat → SockWrite × SockWrite)
  | checkConsole (sec : Nat) (rx : Nat → RxEnv) (wait : Nat → ConWait)

def conStep (c : Consts) (s : LogSys) : ConOp → LogSys × ConOut × ConStat
  | .telnet mods => let r := simSetTelnet c s mods; (r.1, .nil, r.2)
  | .notelnet cptr w => let r := simSetNotelnet c s cptr w; (r.1, .nil, .scpe r.2)
  | .pollKbd u os acc w rx => simPollKbd c s u os acc w rx
  | .putchar ch acc wc wt => simPutchar c s ch acc wc wt
  | .putcharS ch acc wc wt => simPutcharS c s ch acc wc wt
  | .checkConsole sec rx wait => simCheckConsole c s sec rx wait

/-- Console calls one after the other: the state after them, and what each returned. -/
def conRun (c : Consts) : LogSys → List ConOp → LogSys × List (ConOut × ConStat)
  | s, [] => (s, [])
  | s, op :: ops =>
    let r := conStep c s op
    let rs := conRun c r.1 ops
    (rs.1, r.2 :: rs.2)

/-- What the environment guarantees of a console call: a socket `sim_accept_conn` returns is
not 0. -/
def ConOp.Valid : ConOp → Prop
  | .pollKbd _ _ acc _ _ => acc ≠ some 0
  | .putchar _ acc _ _ => acc ≠ some 0
  | .putcharS _ acc _ _ => acc ≠ some 0
  | .checkConsole _ _ wait => ∀ i, (wait i).acc ≠ some 0
  | _ => True

/-- The states the console routines reach from `s₀`, with log commands in between. -/
inductive ConReachable (c : Consts) (s₀ : LogSys) : LogSys → Prop
  | init : ConReachable c s₀ s₀
  | con {s : LogSys} {op : ConOp} : ConReachable c s₀ s → op.Valid →
      ConReachable c s₀ (conStep c s op).1
  | log {s : LogSys} (op : LogOp) : ConReachable c s₀ s → ConReachable c s₀ (logStep s op)

/-! ## Every console routine is a run of the library's calls -/

section Refines

variable {c : Consts} {s : LogSys}

theorem steps_conPollConn (hm : s.mp.master ≠ 0) {acc : Option Nat} (hacc : acc ≠ some 0)
    (w : Nat → SockWrite × SockWrite) :
    Steps c s { s with mp := (conPollConn c s.mp acc w).1 } := by
  have h : Steps c s { s with mp := (tmxrPollConn c s.mp acc w).1 } :=
    Steps.mux _ (pollConn_valid hm hacc w)
  unfold conPollConn
  dsimp only
  split_ifs
  · exact h.trans (Steps.mux (.setRcve 0 true) trivial)
  · exact h

theorem steps_conPut {ch : UInt8} {acc : Option Nat} {wc wt : Nat → SockWrite × SockWrite}
    {put : Tmxr → Tmxr × Scpe} (hacc : acc ≠ some 0)
    (hput : ∀ s : LogSys, Steps c s { s with mp := (put s.mp).1 }) :
    Steps c s (conPut c s ch acc wc wt put).1 := by
  have htx (s : LogSys) : Steps c s { s with mp := (tmxrPollTx (put s.mp).1 wt).1 } :=
    (hput s).trans (Steps.mux (.pollTx wt) trivial)
  unfold conPut
  by_cases hm : s.mp.master = 0
  · rw [if_pos hm]
    exact .refl s
  rw [if_neg hm]
  dsimp only
  by_cases hl : (s.mp.ldsc 0).conn = 0 ∧ (s.mp.ldsc 0).txbfd = false
  · rw [if_pos hl]
    exact .refl s
  rw [if_neg hl]
  by_cases hc : (s.mp.ldsc 0).conn = 0
  · rw [if_pos hc]
    exact (steps_conPollConn hm hacc wc).trans (htx _)
  · rw [if_neg hc]
    exact htx s

theorem steps_simPutchar (ch : UInt8) {acc : Option Nat} (hacc : acc ≠ some 0)
    (wc wt : Nat → SockWrite × SockWrite) : Steps c s (simPutchar c s ch acc wc wt).1 :=
  steps_conPut hacc fun _ ↦ Steps.mux (.putc 0 ch) trivial

theorem steps_simPutcharS (ch : UInt8) {acc : Option Nat} (hacc : acc ≠ some 0)
    (wc wt : Nat → SockWrite × SockWrite) : Steps c s (simPutcharS c s ch acc wc wt).1 := by
  refine steps_conPut hacc fun s ↦ ?_
  split_ifs
  · exact .refl s
  · exact Steps.mux (.putc 0 ch) trivial

theorem steps_kbdRead (rx : Nat → RxEnv) : Steps c s { s with mp := (kbdRead c s.mp rx).1 } :=
  (Steps.mux (.pollRx rx) trivial).trans (Steps.mux (.getc 0) trivial)

theorem steps_simPollKbd (u : Bool) (os : ConStat) {acc : Option Nat} (hacc : acc ≠ some 0)
    (w : Nat → SockWrite × SockWrite) (rx : Nat → RxEnv) :
    Steps c s (simPollKbd c s u os acc w rx).1 := by
  unfold simPollKbd
  dsimp only
  split_ifs with _ hm
  · exact .refl s
  · exact .refl s
  · exact .refl s
  · exact (steps_conPollConn hm hacc w).trans (steps_kbdRead rx)
  · exact steps_conPollConn hm hacc w
  · exact steps_kbdRead rx

theorem steps_checkLoop {wait : Nat → ConWait} (hw : ∀ i, (wait i).acc ≠ some 0) :
    ∀ (k i : Nat) (s : LogSys), s.mp.master ≠ 0 → Steps c s (checkLoop c s wait i k).1
  | 0, _, s, _ => .refl s
  | k + 1, i, s, hm => by
    have h := steps_conPollConn (c := c) hm (hw i) (wait i).w
    have hm' : (conPollConn c s.mp (wait i).acc (wait i).w).1.master ≠ 0 := by
      unfold conPollConn tmxrPollConn
      split <;> dsimp only <;> split_ifs <;> exact hm
    unfold checkLoop
    dsimp only
    by_cases h0 : 0 ≤ (conPollConn c s.mp (wait i).acc (wait i).w).2.1
    · rw [if_pos h0]
      exact h
    rw [if_neg h0]
    by_cases hst : (wait i).kbd = .stop ∨ (wait i).stopCpus = true
    · rw [if_pos hst]
      exact h
    rw [if_neg hst]
    exact h.trans (steps_checkLoop hw k (i + 1) _ hm')

theorem steps_simCheckConsole (sec : Nat) (rx : Nat → RxEnv) {wait : Nat → ConWait}
    (hw : ∀ i, (wait i).acc ≠ some 0) : Steps c s (simCheckConsole c s sec rx wait).1 := by
  unfold simCheckConsole
  by_cases hm : s.mp.master = 0
  · rw [if_pos hm]
    exact .refl s
  rw [if_neg hm]
  dsimp only
  by_cases hs : (s.mp.ldsc 0).conn ≠ 0 ∨ (s.mp.ldsc 0).txbfd = true
  · rw [if_pos hs]
    have hrx : Steps c s { s with mp := tmxrPollRx c s.mp rx } := Steps.mux (.pollRx rx) trivial
    by_cases hs' : ((tmxrPollRx c s.mp rx).ldsc 0).conn ≠ 0 ∨
        ((tmxrPollRx c s.mp rx).ldsc 0).txbfd = true
    · rw [if_pos hs']
      exact hrx
    · rw [if_neg hs']
      exact hrx.trans (steps_checkLoop hw sec 0 _ hm)
  · rw [if_neg hs]
    exact steps_checkLoop hw sec 0 s hm

theorem steps_simSetNotelnet (cptr : String) (w : Nat → SockWrite × SockWrite) :
    Steps c s (simSetNotelnet c s cptr w).1 := by
  unfold simSetNotelnet
  split_ifs
  · exact .refl s
  · exact .refl s
  · exact Steps.mux (.closeMaster w) trivial

theorem steps_telnetEntry (e : TelnetEntry) : Steps c s (e.action c s).1 := by
  cases e with
  | log cptr fopen => exact Steps.log (.masterLog (cptr.getD "") fopen)
  | nolog cptr =>
    unfold TelnetEntry.action simSetConsNolog
    dsimp only
    split_ifs
    · exact .refl s
    · exact Steps.log .masterNolog
  | buffered size => exact Steps.mux (.openMaster (.buffered size) none) trivial
  | unbuffered => exact Steps.mux (.openMaster .nobuffered none) trivial

theorem steps_telnetLoop : ∀ (mods : List TelnetMod) (s : LogSys), Steps c s (telnetLoop c s mods).1
  | [], s => .refl s
  | .port port w msock :: _, s => by
    have h : Steps c s (if s.mp.master ≠ 0 then (simSetNotelnet c s "" w).1 else s) := by
      split_ifs
      · exact steps_simSetNotelnet "" w
      · exact .refl s
    exact h.trans (Steps.mux (.openMaster (.port port) msock) trivial)
  | .entry e :: mods, s => by
    unfold telnetLoop
    dsimp only
    split_ifs
    · exact (steps_telnetEntry e).trans (steps_telnetLoop mods _)
    · exact steps_telnetEntry e
  | .other :: _, s => .refl s

/-- Every console routine is a run of valid calls of the library. -/
theorem conStep_steps {op : ConOp} (hv : op.Valid) : Steps c s (conStep c s op).1 := by
  cases op with
  | telnet mods =>
    show Steps c s (simSetTelnet c s mods).1
    unfold simSetTelnet
    split_ifs
    · exact .refl s
    · exact steps_telnetLoop mods s
  | notelnet cptr w => exact steps_simSetNotelnet cptr w
  | pollKbd u os acc w rx => exact steps_simPollKbd u os hv w rx
  | putchar ch acc wc wt => exact steps_simPutchar ch hv wc wt
  | putcharS ch acc wc wt => exact steps_simPutcharS ch hv wc wt
  | checkConsole sec rx wait => exact steps_simCheckConsole sec rx hv

theorem ConReachable.steps {s₀ : LogSys} (h : ConReachable c s₀ s) : Steps c s₀ s := by
  induction h with
  | init => exact .refl _
  | con _ hv ih => exact ih.trans (conStep_steps hv)
  | log op _ ih => exact ih.trans (Steps.log op)

end Refines

/-! ## What the console keeps -/

section Console

variable {c : Consts} {g : Nat} {s : LogSys}

theorem ConReachable.reachable {s₀ : LogSys} (h : ConReachable c s₀ s) : Reachable c s₀ s :=
  Reachable.init.of_steps h.steps

/-- Every state the console reaches from `sim_con_tmxr`, through any commands and calls with log
commands in between, is one the library's calls reach, and keeps the line invariant. -/
theorem console_reachable_muxInv (hg : GreetingOk c consoleMux g)
    (h : ConReachable c (LogSys.init consoleMux) s) :
    Reachable c (LogSys.init consoleMux) s ∧ MuxInv c g s.mp :=
  ⟨h.reachable, h.reachable.muxInv (muxInv_init hg)⟩

/-- `SET CONSOLE TELNET=23`, the port opened on master socket 3. -/
def consoleListening : LogSys :=
  (conStep sampleConsts (LogSys.init consoleMux)
    (.telnet [.port 23 (fun _ ↦ (.error, .error)) (some 3)])).1

theorem consoleListening_reachable :
    ConReachable sampleConsts (LogSys.init consoleMux) consoleListening :=
  .con .init trivial

theorem consoleListening_muxInv :
    GreetingOk sampleConsts consoleMux 37 ∧
      Reachable sampleConsts (LogSys.init consoleMux) consoleListening ∧
        MuxInv sampleConsts 37 consoleListening.mp :=
  have hg : GreetingOk sampleConsts consoleMux 37 := by decide
  ⟨hg, console_reachable_muxInv hg consoleListening_reachable⟩

/-- The console multiplexer keeps its one line and no connection order, and its line keeps
the invariant. -/
theorem ConReachable.console (hg : GreetingOk c consoleMux g)
    (h : ConReachable c (LogSys.init consoleMux) s) :
    s.mp.lines = 1 ∧ s.mp.lnorder = none ∧ LineInv c g s.mp.buffered s.mp.master (s.mp.ldsc 0) := by
  obtain ⟨hl, ho⟩ := h.reachable.shape
  exact ⟨hl, ho, (h.reachable.muxInv (muxInv_init hg)).line 0 (by rw [hl]; exact Nat.one_pos)⟩

/-- `sim_check_console 1` on `consoleListening`, offered socket 5 at once. -/
def consoleConnected : LogSys :=
  (conStep sampleConsts consoleListening (.checkConsole 1 (fun _ ↦ ⟨.closed, (.error, .error), false⟩)
    fun _ ↦ ⟨some 5, fun _ ↦ (.error, .error), .scpe .ok, false⟩)).1

theorem consoleConnected_reachable :
    ConReachable sampleConsts (LogSys.init consoleMux) consoleConnected :=
  .con consoleListening_reachable fun _ ↦ by simp

end Console

theorem tmxrSendBufferedData_txdrp (lp : Line) (w₁ w₂ : SockWrite) :
    (tmxrSendBufferedData lp w₁ w₂).1.txdrp = lp.txdrp := by
  have hw (lp : Line) (n : Int) (w : SockWrite) : (sendWrapped lp n w).1.txdrp = lp.txdrp := by
    unfold sendWrapped
    split_ifs
    · cases w.taken n.toNat <;> rfl
    · rfl
  unfold tmxrSendBufferedData
  dsimp only
  split
  · rfl
  · split
    · exact hw lp _ w₂
    · exact hw _ _ w₂

/-- `tmxr_poll_tx` drops nothing. -/
theorem tmxrPollTx_txdrp (mp : Tmxr) (w : Nat → SockWrite × SockWrite) (i : Nat) :
    ((tmxrPollTx mp w).1.ldsc i).txdrp = (mp.ldsc i).txdrp := by
  rw [tmxrPollTx_ldsc]
  split_ifs
  · unfold pollTxLn
    split_ifs
    · rfl
    · dsimp only
      split_ifs <;> exact tmxrSendBufferedData_txdrp _ _ _
  · rfl

section Putchar

variable {c : Consts} {g : Nat} {s : LogSys}

/-- On an unbuffered console, with a guard of two places or more, `sim_putchar_s` never drops a
character: it returns `SCPE_OK` exactly when the port is closed or the line is connected with
its transmitter enabled, else `SCPE_STALL` or `SCPE_LOST`, and the count of dropped characters
never moves. -/
theorem simPutcharS_drops_nothing (hg : GreetingOk c consoleMux g) (h2 : 2 ≤ c.guard)
    (hs : ConReachable c (LogSys.init consoleMux) s) (hb : s.mp.buffered = 0) (ch : UInt8)
    (acc : Option Nat) (wc wt : Nat → SockWrite × SockWrite) :
    ((simPutcharS c s ch acc wc wt).1.mp.ldsc 0).txdrp = (s.mp.ldsc 0).txdrp ∧
      ((simPutcharS c s ch acc wc wt).2.2 = .scpe .ok ↔
        s.mp.master = 0 ∨ (s.mp.ldsc 0).conn ≠ 0 ∧ (s.mp.ldsc 0).xmte = true) ∧
      ((simPutcharS c s ch acc wc wt).2.2 = .scpe .ok ∨
        (simPutcharS c s ch acc wc wt).2.2 = .scpe .stall ∨
        (simPutcharS c s ch acc wc wt).2.2 = .scpe .lost) := by
  obtain ⟨-, -, hl⟩ := hs.console hg
  have hbfd : (s.mp.ldsc 0).txbfd = false := by simpa [hb] using hl.bufd
  unfold simPutcharS conPut
  by_cases hm : s.mp.master = 0
  · simp [hm]
  rw [if_neg hm]
  dsimp only
  by_cases hc : (s.mp.ldsc 0).conn = 0
  · rw [if_pos ⟨hc, hbfd⟩]
    simp [hm, hc]
  rw [if_neg fun h ↦ hc h.1, if_neg hc]
  by_cases hx : (s.mp.ldsc 0).xmte = true
  · obtain ⟨hok, -, hdrp⟩ := hl.putc_whole hg.1 hc hbfd hx h2 ch
    simp [-tmxrPollTx_ldsc, hx, hok, hdrp, tmxrPollTx_txdrp, hm, hc]
  · simp [-tmxrPollTx_ldsc, hx, tmxrPollTx_txdrp, hm]

set_option maxRecDepth 8000 in
theorem consoleConnected_putcharS_iac :
    GreetingOk sampleConsts consoleMux 37 ∧ 2 ≤ sampleConsts.guard ∧
      consoleConnected.mp.buffered = 0 ∧
      ((simPutcharS sampleConsts consoleConnected 0xFF none (fun _ ↦ (.error, .error))
          (fun _ ↦ (.error, .error))).1.mp.ldsc 0).txdrp = (consoleConnected.mp.ldsc 0).txdrp ∧
      ((simPutcharS sampleConsts consoleConnected 0xFF none (fun _ ↦ (.error, .error))
          (fun _ ↦ (.error, .error))).2.2 = .scpe .ok ↔
        consoleConnected.mp.master = 0 ∨
          (consoleConnected.mp.ldsc 0).conn ≠ 0 ∧ (consoleConnected.mp.ldsc 0).xmte = true) ∧
      ((simPutcharS sampleConsts consoleConnected 0xFF none (fun _ ↦ (.error, .error))
          (fun _ ↦ (.error, .error))).2.2 = .scpe .ok ∨
        (simPutcharS sampleConsts consoleConnected 0xFF none (fun _ ↦ (.error, .error))
          (fun _ ↦ (.error, .error))).2.2 = .scpe .stall ∨
        (simPutcharS sampleConsts consoleConnected 0xFF none (fun _ ↦ (.error, .error))
          (fun _ ↦ (.error, .error))).2.2 = .scpe .lost) :=
  have hg : GreetingOk sampleConsts consoleMux 37 := by decide
  ⟨hg, by decide, by decide, simPutcharS_drops_nothing hg (by decide) consoleConnected_reachable
    (by decide) 0xFF none _ _⟩

/-- `sim_putchar_s` parts from `sim_putchar` only where the console line's transmitter is
disabled: on a connected line whose transmitter is enabled the two put the character alike,
and `sim_putchar_s` too returns `SCPE_OK`. -/
theorem simPutcharS_eq_simPutchar (hg : GreetingOk c consoleMux g) (h1 : 1 ≤ c.guard)
    (hs : ConReachable c (LogSys.init consoleMux) s) (hc : (s.mp.ldsc 0).conn ≠ 0)
    (hx : (s.mp.ldsc 0).xmte = true) (ch : UInt8) (acc : Option Nat)
    (wc wt : Nat → SockWrite × SockWrite) :
    simPutcharS c s ch acc wc wt = simPutchar c s ch acc wc wt := by
  obtain ⟨-, -, hl⟩ := hs.console hg
  have hok : (tmxrPutcLn c (s.mp.ldsc 0) ch).2 = .ok := by
    cases hb : (s.mp.ldsc 0).txbfd
    · have := hl.xmte hb (Nat.pos_iff_ne_zero.1 (hl.txbsz_pos (.inl hc))) hx
      exact tmxrPutcLn_ok hc (by omega) ch
    · unfold tmxrPutcLn
      rw [if_neg fun h ↦ hc h.1, if_pos (.inl hb)]
      dsimp only
      split_ifs <;> rfl
  unfold simPutcharS simPutchar conPut
  simp [hl.conn hc, hc, hx, hok]

set_option maxRecDepth 8000 in
theorem consoleConnected_putcharS_eq :
    GreetingOk sampleConsts consoleMux 37 ∧ 1 ≤ sampleConsts.guard ∧
      (consoleConnected.mp.ldsc 0).conn ≠ 0 ∧ (consoleConnected.mp.ldsc 0).xmte = true ∧
      simPutcharS sampleConsts consoleConnected 0x41 none (fun _ ↦ (.error, .error))
          (fun _ ↦ (.error, .error)) =
        simPutchar sampleConsts consoleConnected 0x41 none (fun _ ↦ (.error, .error))
          (fun _ ↦ (.error, .error)) :=
  have hg : GreetingOk sampleConsts consoleMux 37 := by decide
  ⟨hg, by decide, by decide, by decide,
    simPutcharS_eq_simPutchar hg (by decide) consoleConnected_reachable (by decide) (by decide)
      _ _ _ _⟩

end Putchar

/-! ## Waiting for a connection -/

section Wait

variable {c : Consts}

/-- On a free line of a one-line multiplexer with no connection order a connection is made. -/
theorem connLineIdx_one {mp : Tmxr} (hl : mp.lines = 1) (ho : mp.lnorder = none)
    (hc : (mp.ldsc 0).conn = 0) : connLineIdx mp = 0 := by
  unfold connLineIdx
  rw [hl, ho]
  simp [connScan, hc]

/-- So the console's poll connects a socket offered on line 0 and enables its reception, and
changes nothing when none is offered. -/
theorem conPollConn_free {mp : Tmxr} (hl : mp.lines = 1) (ho : mp.lnorder = none)
    (hc : (mp.ldsc 0).conn = 0) (w : Nat → SockWrite × SockWrite) :
    (∀ sock, (conPollConn c mp (some sock) w).2.1 = 0 ∧
      ((conPollConn c mp (some sock) w).1.ldsc 0).conn = sock ∧
      ((conPollConn c mp (some sock) w).1.ldsc 0).rcve = true) ∧
    conPollConn c mp none w = (mp, -1, fun _ ↦ []) := by
  refine ⟨fun sock ↦ ?_, rfl⟩
  have hidx := connLineIdx_one hl ho hc
  obtain ⟨h2, hconn⟩ := tmxrPollConn_conn mp c sock w (by rw [hidx, hl]; decide)
  rw [hidx] at h2 hconn
  unfold conPollConn
  simp only [h2, Int.le_refl, if_true, Tmxr.setLine_ldsc_self, true_and, and_true]
  exact hconn

variable {wait : Nat → ConWait}

/-- The wait of `sim_check_console` on a free line of a one-line multiplexer with no
connection order, from second `i` with `k` seconds left. -/
theorem checkLoop_spec (hw : ∀ j, (wait j).acc ≠ some 0) :
    ∀ (k i : Nat) (s : LogSys), s.mp.lines = 1 → s.mp.lnorder = none → (s.mp.ldsc 0).conn = 0 →
      ((checkLoop c s wait i k).2.2 = .ttmo ↔ ∀ j < k, (wait (i + j)).Idle) ∧
      ((checkLoop c s wait i k).2.2 = .ttmo → (checkLoop c s wait i k).1 = s) ∧
      ((checkLoop c s wait i k).2.2 = .scpe .ok ↔
        ∃ j < k, (∀ j' < j, (wait (i + j')).Idle) ∧ (wait (i + j)).acc.isSome) ∧
      ((checkLoop c s wait i k).2.2 = .scpe .ok →
        ((checkLoop c s wait i k).1.mp.ldsc 0).conn ≠ 0 ∧
          ((checkLoop c s wait i k).1.mp.ldsc 0).rcve = true)
  | 0, i, s, _, _, _ => by simp [checkLoop]
  | k + 1, i, s, hl, ho, hc => by
    obtain ⟨hsome, hnone⟩ := conPollConn_free (c := c) hl ho hc (wait i).w
    simp only [Nat.forall_lt_succ_left', Nat.exists_lt_succ_left, Nat.add_zero,
      Nat.not_lt_zero, false_implies, implies_true, true_and]
    unfold checkLoop
    dsimp only
    rcases ha : (wait i).acc with _ | sock
    · rw [hnone]
      have hr : ¬ (0 : Int) ≤ -1 := by decide
      rw [if_neg hr]
      by_cases hst : (wait i).kbd = .stop ∨ (wait i).stopCpus = true
      · rw [if_pos hst]
        have : ¬ (wait i).Idle := fun h ↦ by
          rcases hst with h' | h'
          · exact h.2.1 h'
          · rw [h.2.2] at h'; cases h'
        simp [this]
      · rw [if_neg hst]
        have hidle : (wait i).Idle :=
          ⟨ha, fun h ↦ hst (.inl h), by simpa using fun h ↦ hst (.inr h)⟩
        obtain ⟨ih₁, ih₂, ih₃, ih₄⟩ := checkLoop_spec hw k (i + 1) s hl ho hc
        simp only [Nat.add_right_comm i 1, ← Nat.add_assoc] at ih₁ ih₃ ⊢
        have hs : ({ s with mp := s.mp } : LogSys) = s := rfl
        simpa [hs, hidle, ha] using And.intro ih₁ (And.intro ih₂ (And.intro ih₃ ih₄))
    · obtain ⟨h0, hconn, hrcve⟩ := hsome sock
      rw [h0, if_pos (Int.le_refl 0)]
      have : ¬ (wait i).Idle := fun h ↦ by rw [h.1] at ha; cases ha
      have hsock : sock ≠ 0 := fun h ↦ hw i (h ▸ ha)
      simp [this, hconn, hrcve, hsock]

variable {s : LogSys}

/-- `sim_check_console sec` on an open console port whose line is neither connected nor
buffered waits second by second: it times out exactly when in none of the `sec` seconds a
connection was offered or a stop asked for, leaving the console as it was; and it returns
`SCPE_OK` exactly when a connection is offered before any stop, the console line then
connected and receiving. -/
theorem simCheckConsole_waits (hs : ConReachable c (LogSys.init consoleMux) s)
    (hm : s.mp.master ≠ 0) (hc : (s.mp.ldsc 0).conn = 0) (hb : (s.mp.ldsc 0).txbfd = false)
    (sec : Nat) (rx : Nat → RxEnv) (hw : ∀ i, (wait i).acc ≠ some 0) :
    ((simCheckConsole c s sec rx wait).2.2 = .ttmo ↔ ∀ i < sec, (wait i).Idle) ∧
      ((simCheckConsole c s sec rx wait).2.2 = .ttmo → (simCheckConsole c s sec rx wait).1 = s) ∧
      ((simCheckConsole c s sec rx wait).2.2 = .scpe .ok ↔
        ∃ i < sec, (∀ j < i, (wait j).Idle) ∧ (wait i).acc.isSome) ∧
      ((simCheckConsole c s sec rx wait).2.2 = .scpe .ok →
        ((simCheckConsole c s sec rx wait).1.mp.ldsc 0).conn ≠ 0 ∧
          ((simCheckConsole c s sec rx wait).1.mp.ldsc 0).rcve = true) := by
  obtain ⟨hl, ho⟩ := hs.reachable.shape
  have h : simCheckConsole c s sec rx wait = checkLoop c s wait 0 sec := by
    unfold simCheckConsole
    rw [if_neg hm, if_neg (by simp [hc, hb])]
  rw [h]
  simpa using checkLoop_spec hw sec 0 s hl ho hc

end Wait

/-- Waiting three seconds for a connection that comes at the third. -/
theorem consoleListening_waits :
    let wait : Nat → ConWait := fun i ↦
      ⟨if i = 2 then some 5 else none, fun _ ↦ (.error, .error), .scpe .ok, false⟩
    consoleListening.mp.master ≠ 0 ∧ (consoleListening.mp.ldsc 0).conn = 0 ∧
      (consoleListening.mp.ldsc 0).txbfd = false ∧ (∀ i, (wait i).acc ≠ some 0) ∧
      let r := simCheckConsole sampleConsts consoleListening 3 (fun _ ↦ ⟨.closed, (.error, .error), false⟩) wait
      (r.2.2 = .ttmo ↔ ∀ i < 3, (wait i).Idle) ∧ (r.2.2 = .ttmo → r.1 = consoleListening) ∧
        (r.2.2 = .scpe .ok ↔ ∃ i < 3, (∀ j < i, (wait j).Idle) ∧ (wait i).acc.isSome) ∧
        (r.2.2 = .scpe .ok → (r.1.mp.ldsc 0).conn ≠ 0 ∧ (r.1.mp.ldsc 0).rcve = true) :=
  have hw : ∀ i, (if i = 2 then some 5 else none) ≠ some 0 := fun i ↦ by split_ifs <;> simp
  ⟨by decide, by decide, by decide, hw,
    simCheckConsole_waits consoleListening_reachable (by decide) (by decide) (by decide) 3 _ hw⟩

end TelnetMux
