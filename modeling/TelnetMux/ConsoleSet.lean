import Mathlib.Data.Nat.Bitwise
import Mathlib.Tactic.IntervalCases
import TelnetMux.Console

/-!
# SET CONSOLE and the terminal conversions

`SET CONSOLE` (`sim_set_console`) runs the modifiers of its value one after the other through
`set_con_tab`, and stops at the first that fails. Besides the Telnet and log entries, the table
sets the keyboard map `cons_kmap` (`WRU`, `BRK`, `DEL`, through `sim_set_kmap`) and the mask of
printable control characters `sim_tt_pchar` (`PCHAR`, through `sim_set_pchar`), which
`sim_tt_outcvt` reads.

The numbers are read by `get_uint` of `scp.c`, outside the sources: it is a parameter of the
model, and the one fact used of it is that a number it accepts is at most the maximum it is
given. The mode codes `TTUF_*` of `sim_defs.h`, also outside, are the parameters `TtConsts`;
`islower` and `toupper` are those of the C locale.

Over every run of `SET CONSOLE` commands, console routines and log commands from the start,
the multiplexer keeps its invariant, `WRU` and `DEL` stay nonzero seven-bit characters, `BRK`
a seven-bit one, and the mask keeps carriage return or line feed printable: in the modes that
consult the mask, `sim_tt_outcvt` always lets one of the two through. For every character and
mode, `sim_tt_outcvt` prints nothing its mode forbids.
-/

namespace TelnetMux

/-! ## The keyboard map and the printable characters -/

def kmapWru : Nat := 0
def kmapBrk : Nat := 1
def kmapDel : Nat := 2
def kmapMask : Nat := 0o377
def kmapNz : Nat := 0o400

/-- The three entries of `cons_kmap` (`sim_int_char`, `sim_brk_char`, `sim_del_char`) and
`sim_tt_pchar`, as bit patterns. -/
structure ConsKeys where
  intChar : Nat
  brkChar : Nat
  delChar : Nat
  pchar : Nat
  deriving DecidableEq, Repr

/-- Their initial values: `sim_del_char` is `'\b'` on Windows, OS/2 and the classic Mac OS,
DEL elsewhere. -/
def ConsKeys.init (win : Bool) : ConsKeys :=
  ⟨0o5, 0o0, if win then 8 else 0o177, 0x00002780⟩

/-- `*(cons_kmap[i]) = val`; the flags of `set_con_tab` select one of the three entries. -/
def ConsKeys.setKmap (k : ConsKeys) (i val : Nat) : ConsKeys :=
  match i with
  | 0 => { k with intChar := val }
  | 1 => { k with brkChar := val }
  | 2 => { k with delChar := val }
  | _ => k

/-- `get_uint (cptr, radix, max, &r)`: the number, or none when `r != SCPE_OK`. -/
abbrev GetUint := String → Nat → Nat → Option Nat

/-- A number `get_uint` accepts is at most its maximum. -/
def GetUint.Bounded (getUint : GetUint) : Prop :=
  ∀ cptr rdx max val, getUint cptr rdx max = some val → val ≤ max

/-- The radix of the first device's numbers. -/
def kmapRadix (dradix : Nat) : Nat :=
  if dradix = 16 then 16 else 8

/-- `sim_set_kmap`; a missing value (`cptr == NULL`) is the empty one. -/
def simSetKmap (getUint : GetUint) (dradix : Nat) (k : ConsKeys) (flag : Nat)
    (cptr : Option String) : ConsKeys × Scpe :=
  let cptr := cptr.getD ""
  if cptr = "" then (k, .twoFArg)
  else match getUint cptr (kmapRadix dradix) 0o177 with
    | none => (k, .arg)
    | some val =>
      if val = 0 ∧ flag &&& kmapNz ≠ 0 then (k, .arg)
      else (k.setKmap (flag &&& kmapMask) val, .ok)

/-- `sim_set_pchar`: the mask must keep carriage return or line feed printable. -/
def simSetPchar (getUint : GetUint) (dradix : Nat) (k : ConsKeys) (cptr : Option String) :
    ConsKeys × Scpe :=
  let cptr := cptr.getD ""
  if cptr = "" then (k, .twoFArg)
  else match getUint cptr (kmapRadix dradix) 0xFFFFFFFF with
    | none => (k, .arg)
    | some val => if val &&& 0x00002400 = 0 then (k, .arg) else ({ k with pchar := val }, .ok)

/-! ## The terminal conversions -/

/-- The mode codes of `sim_defs.h`: `TTUF_M_MODE`, `TTUF_MODE_8B`, `TTUF_MODE_UC`,
`TTUF_MODE_7P` and `TTUF_KSR`. The code relies on the two restricted modes not being the
eight-bit one. -/
structure TtConsts where
  mMode : Nat
  mode8B : Nat
  modeUC : Nat
  mode7P : Nat
  ksr : Nat
  uc_ne : modeUC ≠ mode8B
  p_ne : mode7P ≠ mode8B

/-- `islower` in the C locale. -/
def isLower (c : Nat) : Bool :=
  0x61 ≤ c && c ≤ 0x7A

/-- `toupper` in the C locale. -/
def toUpper (c : Nat) : Nat :=
  if isLower c then c - 0x20 else c

/-- `sim_tt_inpcvt`; `c & 0177` and `c & 0377` of the two's-complement `int32`. -/
def simTtInpcvt (t : TtConsts) (c : Int) (mode : Nat) : Int :=
  let md := mode &&& t.mMode
  if md ≠ t.mode8B then
    let c := (c % 0o200).toNat
    if md = t.modeUC then
      let c := if isLower c then toUpper c else c
      if mode &&& t.ksr ≠ 0 then ((c ||| 0o200 : Nat) : Int) else c
    else c
  else (c % 0o400).toNat

/-- `sim_tt_outcvt`, reading `sim_tt_pchar`: -1 for a character not to be printed. -/
def simTtOutcvt (t : TtConsts) (pchar : Nat) (c : Int) (mode : Nat) : Int :=
  let md := mode &&& t.mMode
  if md ≠ t.mode8B then
    let c := (c % 0o200).toNat
    let c := if md = t.modeUC ∧ isLower c then toUpper c else c
    if md = t.modeUC ∧ mode &&& t.ksr ≠ 0 ∧ 0o140 ≤ c then -1
    else if (md = t.modeUC ∨ md = t.mode7P) ∧
        (c = 0o177 ∨ c < 0o40 ∧ (pchar >>> c) &&& 1 = 0) then -1
    else c
  else (c % 0o400).toNat

/-! ## SET CONSOLE -/

/-- A modifier of `SET CONSOLE`: an entry of `set_con_tab` with its value and what the
environment answers its action, or a name the table lacks. `TELNET` carries the modifiers of
its value as `sim_set_telnet` reads them. -/
inductive ConsMod
  | wru (cvptr : Option String)
  | brk (cvptr : Option String)
  | del (cvptr : Option String)
  | pchar (cvptr : Option String)
  | telnet (mods : List TelnetMod)
  | notelnet (cvptr : Option String) (w : Nat → SockWrite × SockWrite)
  | log (cvptr : Option String) (fopen : Option SmpFile)
  | nolog (cvptr : Option String)
  | debug (cvptr : Option String) (fopen : Option SmpFile)
  | nodebug (cvptr : Option String)
  | other

/-- The console's state: the multiplexer with the log files, and the keys. -/
structure ConsSys where
  sys : LogSys
  keys : ConsKeys

/-- A command that takes no value: a value is refused, else `off` is done. -/
def offArg (off : LogSys → LogSys) (s : LogSys) (cptr : Option String) : LogSys × Scpe :=
  if cptr.getD "" ≠ "" then (s, .twoMArg) else (off s, .ok)

/-- `sim_set_logoff` with its argument. -/
def simSetLogoffArg (s : LogSys) (cptr : Option String) : LogSys × Scpe :=
  offArg simSetLogoff s cptr

/-- `sim_set_deboff` with its argument; the status of the close is not returned. -/
def simSetDeboffArg (s : LogSys) (cptr : Option String) : LogSys × Scpe :=
  offArg simSetDeboff s cptr

/-- The action of an entry of `set_con_tab`, called with the entry's `arg`. -/
def ConsMod.action (c : Consts) (getUint : GetUint) (dradix : Nat) (t : ConsSys) :
    ConsMod → ConsSys × ConStat
  | .wru v => let r := simSetKmap getUint dradix t.keys (kmapWru ||| kmapNz) v
    ({ t with keys := r.1 }, .scpe r.2)
  | .brk v => let r := simSetKmap getUint dradix t.keys kmapBrk v
    ({ t with keys := r.1 }, .scpe r.2)
  | .del v => let r := simSetKmap getUint dradix t.keys (kmapDel ||| kmapNz) v
    ({ t with keys := r.1 }, .scpe r.2)
  | .pchar v => let r := simSetPchar getUint dradix t.keys v
    ({ t with keys := r.1 }, .scpe r.2)
  | .telnet mods => let r := simSetTelnet c t.sys mods
    ({ t with sys := r.1 }, r.2)
  | .notelnet v w => let r := simSetNotelnet c t.sys (v.getD "") w
    ({ t with sys := r.1 }, .scpe r.2)
  | .log v fopen => let r := simSetLogon t.sys (v.getD "") fopen
    ({ t with sys := r.1 }, .scpe r.2)
  | .nolog v => let r := simSetLogoffArg t.sys v
    ({ t with sys := r.1 }, .scpe r.2)
  | .debug v fopen => let r := simSetDebon t.sys (v.getD "") fopen
    ({ t with sys := r.1 }, .scpe r.2)
  | .nodebug v => let r := simSetDeboffArg t.sys v
    ({ t with sys := r.1 }, .scpe r.2)
  | .other => (t, .noParam)

/-- The loop of `sim_set_console`: a name the table lacks, or an action that fails, ends the
command with its status. -/
def setConsoleLoop (c : Consts) (getUint : GetUint) (dradix : Nat) (t : ConsSys) :
    List ConsMod → ConsSys × ConStat
  | [] => (t, .scpe .ok)
  | .other :: _ => (t, .noParam)
  | m :: mods =>
    let r := m.action c getUint dradix t
    if r.2 = .scpe .ok then setConsoleLoop c getUint dradix r.1 mods else r

/-- `sim_set_console` on the modifiers of its value. -/
def simSetConsole (c : Consts) (getUint : GetUint) (dradix : Nat) (t : ConsSys)
    (mods : List ConsMod) : ConsSys × ConStat :=
  if mods.isEmpty then (t, .scpe .twoFArg) else setConsoleLoop c getUint dradix t mods

/-- The states reached from `t₀` by `SET CONSOLE` commands, console routines and log
commands. -/
inductive SetReachable (c : Consts) (getUint : GetUint) (dradix : Nat) (t₀ : ConsSys) :
    ConsSys → Prop
  | init : SetReachable c getUint dradix t₀ t₀
  | set {t : ConsSys} (mods : List ConsMod) : SetReachable c getUint dradix t₀ t →
      SetReachable c getUint dradix t₀ (simSetConsole c getUint dradix t mods).1
  | con {t : ConsSys} {op : ConOp} : SetReachable c getUint dradix t₀ t → op.Valid →
      SetReachable c getUint dradix t₀ { t with sys := (conStep c t.sys op).1 }
  | log {t : ConsSys} (op : LogOp) : SetReachable c getUint dradix t₀ t →
      SetReachable c getUint dradix t₀ { t with sys := logStep t.sys op }

/-! ## SET CONSOLE is a run of the library's calls -/

section Loop

variable {c : Consts} {getUint : GetUint} {dradix : Nat}

theorem setConsoleLoop_cons {m : ConsMod} (hm : m ≠ .other) (t : ConsSys) (mods : List ConsMod) :
    setConsoleLoop c getUint dradix t (m :: mods) =
      if (m.action c getUint dradix t).2 = .scpe .ok then
        setConsoleLoop c getUint dradix (m.action c getUint dradix t).1 mods
      else m.action c getUint dradix t := by
  cases m <;> first | exact absurd rfl hm | rfl

/-- What the action of every entry keeps, the loop of `sim_set_console` keeps. -/
theorem setConsoleLoop_keeps (P : ConsSys → Prop)
    (hP : ∀ (t : ConsSys) (m : ConsMod), P t → P (m.action c getUint dradix t).1) :
    ∀ (mods : List ConsMod) (t : ConsSys), P t → P (setConsoleLoop c getUint dradix t mods).1
  | [], _, h => h
  | m :: mods, t, h => by
    by_cases hm : m = .other
    · subst hm
      exact h
    rw [setConsoleLoop_cons hm]
    split_ifs
    · exact setConsoleLoop_keeps P hP mods _ (hP t m h)
    · exact hP t m h

theorem simSetConsole_keeps (P : ConsSys → Prop)
    (hP : ∀ (t : ConsSys) (m : ConsMod), P t → P (m.action c getUint dradix t).1)
    (mods : List ConsMod) {t : ConsSys} (h : P t) :
    P (simSetConsole c getUint dradix t mods).1 := by
  unfold simSetConsole
  split_ifs
  · exact h
  · exact setConsoleLoop_keeps P hP mods t h

end Loop

section Refines

variable {c : Consts} {getUint : GetUint} {dradix : Nat}

theorem steps_offArg {off : LogSys → LogSys} (hoff : ∀ s, Steps c s (off s)) (s : LogSys)
    (v : Option String) : Steps c s (offArg off s v).1 := by
  unfold offArg
  split_ifs
  · exact Steps.refl _
  · exact hoff s

theorem steps_consModAction (t : ConsSys) (m : ConsMod) :
    Steps c t.sys (m.action c getUint dradix t).1.sys := by
  cases m with
  | telnet mods => exact conStep_steps (show ConOp.Valid (.telnet mods) from trivial)
  | notelnet v w => exact steps_simSetNotelnet _ w
  | log v fopen => exact Steps.log (.logon _ fopen)
  | nolog v => exact steps_offArg (fun _ ↦ Steps.log .logoff) _ v
  | debug v fopen => exact Steps.log (.debon _ fopen)
  | nodebug v => exact steps_offArg (fun _ ↦ Steps.log .deboff) _ v
  | _ => exact Steps.refl _

theorem SetReachable.reachable {t₀ t : ConsSys} (h : SetReachable c getUint dradix t₀ t) :
    Reachable c t₀.sys t.sys := by
  induction h with
  | init => exact .init
  | set mods _ ih =>
    exact simSetConsole_keeps (fun t ↦ Reachable c t₀.sys t.sys)
      (fun _ m h ↦ h.of_steps (steps_consModAction _ m)) mods ih
  | con _ hv ih => exact ih.of_steps (conStep_steps hv)
  | log op _ ih => exact ih.of_steps (Steps.log op)

end Refines

/-! ## The keys a run keeps -/

theorem shiftRight_and_one_eq_zero (n i : Nat) : (n >>> i) &&& 1 = 0 ↔ n.testBit i = false := by
  simp [Nat.testBit, Nat.land_comm]

/-- What `sim_set_kmap` and `sim_set_pchar` let through: `WRU` and `DEL` nonzero seven-bit
characters, `BRK` a seven-bit one, and carriage return or line feed printable. -/
structure KeysOk (k : ConsKeys) : Prop where
  int_pos : 0 < k.intChar
  int_le : k.intChar ≤ 0o177
  brk_le : k.brkChar ≤ 0o177
  del_pos : 0 < k.delChar
  del_le : k.delChar ≤ 0o177
  eol : k.pchar &&& 0x00002400 ≠ 0

theorem keysOk_init (win : Bool) : KeysOk (ConsKeys.init win) := by
  cases win <;> exact ⟨by decide, by decide, by decide, by decide, by decide, by decide⟩

/-- A mask with carriage return or line feed printable lets one of them through
`sim_tt_outcvt` in the modes that consult it. -/
theorem KeysOk.eol_printed {k : ConsKeys} (hk : KeysOk k) (t : TtConsts) {mode : Nat}
    (hm : mode &&& t.mMode = t.modeUC ∨ mode &&& t.mMode = t.mode7P) :
    simTtOutcvt t k.pchar 0o15 mode = 0o15 ∨ simTtOutcvt t k.pchar 0o12 mode = 0o12 := by
  have hbits : k.pchar.testBit 13 = true ∨ k.pchar.testBit 10 = true := by
    by_contra h
    push_neg at h
    refine hk.eol (Nat.eq_of_testBit_eq fun i ↦ ?_)
    rw [Nat.testBit_land, Nat.zero_testBit]
    by_cases hi : i = 13 ∨ i = 10
    · rcases hi with rfl | rfl <;> simp [h.1, h.2]
    · have : (0x00002400 : Nat).testBit i = false := by
        by_cases hl : i < 14
        · push_neg at hi
          interval_cases i <;> first | decide | exact absurd rfl hi.1 | exact absurd rfl hi.2
        · exact Nat.testBit_lt_two_pow (lt_of_lt_of_le (by decide) (Nat.pow_le_pow_right
            (by decide) (Nat.le_of_not_lt hl)))
      simp [this]
  have h8 : mode &&& t.mMode ≠ t.mode8B := by
    rcases hm with hm | hm
    · exact hm ▸ t.uc_ne
    · exact hm ▸ t.p_ne
  have hprint : ∀ ch : Nat, ch < 0o40 → isLower ch = false → k.pchar.testBit ch = true →
      simTtOutcvt t k.pchar ch mode = ch := fun ch hlt hl hb ↦ by
    have hc : ((ch : Int) % 0o200).toNat = ch := by omega
    have hs : ¬(k.pchar >>> ch) &&& 1 = 0 := by simp only [shiftRight_and_one_eq_zero, hb]; decide
    unfold simTtOutcvt
    dsimp only
    rw [if_pos h8, hc]
    simp only [hl, Bool.false_eq_true, and_false, if_false]
    rw [if_neg fun h ↦ absurd h.2.2 (by omega), if_neg fun h ↦ by omega]
  rcases hbits with h | h
  · exact .inl (hprint 13 (by decide) (by decide) h)
  · exact .inr (hprint 10 (by decide) (by decide) h)

section Keys

variable {getUint : GetUint} {dradix : Nat}

/-- `sim_set_kmap` keeps the keys when the flag asks for a nonzero value wherever it does not
set `BRK`. -/
theorem simSetKmap_keysOk (hgu : getUint.Bounded) {k : ConsKeys} (hk : KeysOk k) (flag : Nat)
    (hnz : flag &&& kmapMask ≠ kmapBrk → flag &&& kmapNz ≠ 0) (v : Option String) :
    KeysOk (simSetKmap getUint dradix k flag v).1 := by
  unfold simSetKmap
  dsimp only
  split_ifs
  · exact hk
  split
  · exact hk
  rename_i val hval
  have hle : val ≤ 0o177 := hgu _ _ _ _ hval
  split_ifs with h0
  · exact hk
  have hpos : flag &&& kmapMask ≠ kmapBrk → 0 < val :=
    fun hb ↦ Nat.pos_of_ne_zero fun hv ↦ h0 ⟨hv, hnz hb⟩
  unfold ConsKeys.setKmap
  split
  · exact { hk with int_pos := hpos (by simp_all [kmapBrk]), int_le := hle }
  · exact { hk with brk_le := hle }
  · exact { hk with del_pos := hpos (by simp_all [kmapBrk]), del_le := hle }
  · exact hk

theorem simSetPchar_keysOk {k : ConsKeys} (hk : KeysOk k) (v : Option String) :
    KeysOk (simSetPchar getUint dradix k v).1 := by
  unfold simSetPchar
  dsimp only
  split_ifs
  · exact hk
  split
  · exact hk
  split_ifs with h
  · exact hk
  · exact { hk with eol := h }

/-- Each entry of `set_con_tab` keeps the keys. -/
theorem consModAction_keysOk (c : Consts) (hgu : getUint.Bounded) {t : ConsSys}
    (hk : KeysOk t.keys) (m : ConsMod) : KeysOk (m.action c getUint dradix t).1.keys := by
  cases m with
  | wru v => exact simSetKmap_keysOk hgu hk _ (fun _ ↦ by decide) v
  | brk v => exact simSetKmap_keysOk hgu hk _ (fun h ↦ absurd (by decide) h) v
  | del v => exact simSetKmap_keysOk hgu hk _ (fun _ ↦ by decide) v
  | pchar v => exact simSetPchar_keysOk hk v
  | _ => exact hk

theorem SetReachable.keysOk {c : Consts} (hgu : getUint.Bounded) {t₀ t : ConsSys}
    (h₀ : KeysOk t₀.keys) (h : SetReachable c getUint dradix t₀ t) : KeysOk t.keys := by
  induction h with
  | init => exact h₀
  | set mods _ ih =>
    exact simSetConsole_keeps (fun t ↦ KeysOk t.keys)
      (fun _ m h ↦ consModAction_keysOk c hgu h m) mods ih
  | con _ _ ih => exact ih
  | log _ _ ih => exact ih

/-- Over every run of `SET CONSOLE` commands, console routines and log commands from the
start, with any numbers `get_uint` accepts within their bounds: the multiplexer keeps its
invariant; `WRU` and `DEL` stay nonzero seven-bit characters and `BRK` a seven-bit one; and in
the modes that consult the mask of printable characters, `sim_tt_outcvt` prints carriage return
or line feed. -/
theorem setReachable_keysOk {c : Consts} {g : Nat} {win : Bool} {t : ConsSys}
    (hg : GreetingOk c consoleMux g) (hgu : getUint.Bounded)
    (h : SetReachable c getUint dradix ⟨LogSys.init consoleMux, ConsKeys.init win⟩ t) :
    MuxInv c g t.sys.mp ∧ KeysOk t.keys ∧
      ∀ (tt : TtConsts) (mode : Nat),
        mode &&& tt.mMode = tt.modeUC ∨ mode &&& tt.mMode = tt.mode7P →
        simTtOutcvt tt t.keys.pchar 0o15 mode = 0o15 ∨ simTtOutcvt tt t.keys.pchar 0o12 mode = 0o12 :=
  have hk := h.keysOk hgu (keysOk_init win)
  ⟨h.reachable.muxInv (muxInv_init hg), hk, fun tt _ hm ↦ hk.eol_printed tt hm⟩

end Keys

/-- A `get_uint` for plain digit strings, read in the radix it is given. -/
def sampleGetUint : GetUint := fun cptr rdx max ↦
  let ds := cptr.toList.map fun ch ↦ ch.toNat - '0'.toNat
  if cptr.toList = [] ∨ cptr.toList.any (fun ch ↦ !ch.isDigit) ∨ ds.any (rdx ≤ ·) then none
  else
    let v := ds.foldl (fun a d ↦ a * rdx + d) 0
    if v ≤ max then some v else none

/-- `SET CONSOLE WRU=3,PCHAR=2000` in octal on a console that has not been set: control-C stops
the simulator, and of the control characters only line feed stays printable. -/
def consoleKeysSet : ConsSys :=
  (simSetConsole sampleConsts sampleGetUint 8 ⟨LogSys.init consoleMux, ConsKeys.init false⟩
    [.wru (some "3"), .pchar (some "2000")]).1

theorem consoleKeysSet_keysOk :
    GreetingOk sampleConsts consoleMux 37 ∧ sampleGetUint.Bounded ∧
      SetReachable sampleConsts sampleGetUint 8 ⟨LogSys.init consoleMux, ConsKeys.init false⟩
        consoleKeysSet ∧
      (MuxInv sampleConsts 37 consoleKeysSet.sys.mp ∧ KeysOk consoleKeysSet.keys ∧
        ∀ (tt : TtConsts) (mode : Nat),
          mode &&& tt.mMode = tt.modeUC ∨ mode &&& tt.mMode = tt.mode7P →
          simTtOutcvt tt consoleKeysSet.keys.pchar 0o15 mode = 0o15 ∨
            simTtOutcvt tt consoleKeysSet.keys.pchar 0o12 mode = 0o12) :=
  have hg : GreetingOk sampleConsts consoleMux 37 := by decide
  have hgu : sampleGetUint.Bounded := fun cptr _ max val h ↦ by
    unfold sampleGetUint at h
    dsimp only at h
    split_ifs at h with _ hv
    exact Option.some_injective _ h ▸ hv
  have h : SetReachable sampleConsts sampleGetUint 8 ⟨LogSys.init consoleMux, ConsKeys.init false⟩
      consoleKeysSet := .set _ .init
  ⟨hg, hgu, h, setReachable_keysOk hg hgu h⟩

example : consoleKeysSet.keys = ⟨3, 0, 0o177, 1024⟩ := by decide

end TelnetMux
