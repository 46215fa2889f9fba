import Mathlib.Logic.Function.Basic

/-!
# Telnet multiplexer lines

The data of `sim_tmxr.c`: the Telnet protocol bytes, the receive states `TNS_*`, the status
codes the library returns, the line descriptor `TMLN` and the multiplexer descriptor `TMXR`.

The header `sim_tmxr.h` is not among the sources. Its constants, with the simulator's name
that the connection greeting prints, are the parameters `Consts`; nothing is assumed of them
beyond what the code itself relies on. A line's buffers are modelled as total functions on
indices, so that an access outside an array is a value of the model rather than a crash;
which indices the code touches is recorded separately where a result is about it.
-/

namespace TelnetMux

/-- The constants of `sim_tmxr.h`, `sim_defs.h` and the simulator that the library uses. -/
structure Consts where
  /-- `TMXR_MAXBUF`: the receive buffer, and an unbuffered line's transmit buffer. -/
  maxbuf : Nat
  /-- `TMXR_GUARD`: slack a first receive read leaves free, and free room below which a
  line's transmitter is disabled. -/
  guard : Nat
  /-- `TMXR_VALID`: the flag `tmxr_getc_ln` sets on a returned character. -/
  valid : Nat
  /-- `SCPE_BREAK`: the flag on a character received as a Telnet BREAK. -/
  scpeBreak : Nat
  /-- `sim_name`, printed in the connection greeting. -/
  simName : List UInt8
  /-- A first read, of `TMXR_MAXBUF - TMXR_GUARD` bytes, asks for at least one byte. -/
  guard_lt : guard < maxbuf
  /-- `tmxr_getc_ln` returns 0 for "no character", so a valid character is nonzero. -/
  valid_pos : 0 < valid

/-- A sample of the constants, used to instantiate results at concrete inputs: a 256-byte
buffer with a 12-byte guard, the flag bits 15 and 16, and the name `VAX`. -/
def sampleConsts : Consts where
  maxbuf := 256
  guard := 12
  valid := 0x8000
  scpeBreak := 0x10000
  simName := [0x56, 0x41, 0x58]
  guard_lt := by decide
  valid_pos := by decide

/-! ## Telnet bytes

The source declares the commands as negative `signed char` values and compares them with
the received `signed char`; as bytes they are `0xF0`..`0xFF`. -/

def tnIac : UInt8 := 0xFF
def tnDont : UInt8 := 0xFE
def tnDo : UInt8 := 0xFD
def tnWont : UInt8 := 0xFC
def tnWill : UInt8 := 0xFB
def tnSb : UInt8 := 0xFA
def tnGa : UInt8 := 0xF9
def tnEl : UInt8 := 0xF8
def tnEc : UInt8 := 0xF7
def tnAyt : UInt8 := 0xF6
def tnAo : UInt8 := 0xF5
def tnIp : UInt8 := 0xF4
def tnBrk : UInt8 := 0xF3
def tnDatamk : UInt8 := 0xF2
def tnNop : UInt8 := 0xF1
def tnSe : UInt8 := 0xF0
def tnBin : UInt8 := 0
def tnEcho : UInt8 := 1
def tnSga : UInt8 := 3
def tnLine : UInt8 := 34
def tnCr : UInt8 := 13
def tnLf : UInt8 := 10
def tnNul : UInt8 := 0

/-- The Telnet line states `TNS_*` of the receive filter. -/
inductive Tns
  | norm
  | iac
  | will
  | wont
  | skip
  | crpad
  /-- `TNS_DO`: a DO request pending rejection. -/
  | doReq
  /-- `TNS_DONT`: a DONT request pending rejection. -/
  | dontReq
  deriving DecidableEq, Repr

/-- The `SCPE_*` status codes the modelled routines return. -/
inductive Scpe
  | ok
  | lost
  | stall
  | arg
  | twoFArg
  | twoMArg
  | openErr
  | mem
  | iErr
  | nxPar
  | misVal
  | sub
  deriving DecidableEq, Repr

/-- An `SMP_FILE *` that is not null: the two standard streams or an opened file. -/
inductive SmpFile
  | stdout
  | stderr
  | file (id : Nat)
  deriving DecidableEq, Repr

/-! ## Descriptors -/

/-- The line descriptor `TMLN`. A socket is a number, 0 meaning no connection; `txlogref`
names a log file reference by its address. The peer address and connection time, read only
by the SHOW routines, and the back pointer to the multiplexer are left out. -/
structure Line where
  conn : Nat
  rcve : Bool
  xmte : Bool
  tsta : Tns
  dstb : Bool
  rxb : Nat → UInt8
  rbr : Nat → Bool
  rxbpi : Nat
  rxbpr : Nat
  rxcnt : Nat
  txb : Int → UInt8
  txbpi : Int
  txbpr : Int
  txbsz : Nat
  txbfd : Bool
  txcnt : Int
  txdrp : Nat
  txlog : Option SmpFile
  txlogref : Option Nat
  txlogname : Option String

/-- A line as a device declares it, `TMLN ldsc[n] = { 0 }`. -/
def Line.zero : Line where
  conn := 0
  rcve := false
  xmte := false
  tsta := .norm
  dstb := false
  rxb := fun _ ↦ 0
  rbr := fun _ ↦ false
  rxbpi := 0
  rxbpr := 0
  rxcnt := 0
  txb := fun _ ↦ 0
  txbpi := 0
  txbpr := 0
  txbsz := 0
  txbfd := false
  txcnt := 0
  txdrp := 0
  txlog := none
  txlogref := none
  txlogname := none

/-- The multiplexer descriptor `TMXR`. `dname` is the name of the device `dptr` points to,
if any; `lnorder` is the connection order array, if the device declares one. -/
structure Tmxr where
  lines : Nat
  ldsc : Nat → Line
  master : Nat
  port : Nat
  buffered : Nat
  lnorder : Option (List Int)
  logfiletmpl : String
  dname : Option (List UInt8)

/-- A multiplexer of `lines` lines as a device declares it (`TMXR mux = { lines, 0, 0, ldsc }`):
its lines zero, no port open, unbuffered, no log template. -/
def Tmxr.init (lines : Nat) (lnorder : Option (List Int)) (dname : Option (List UInt8)) : Tmxr where
  lines := lines
  ldsc := fun _ ↦ Line.zero
  master := 0
  port := 0
  buffered := 0
  lnorder := lnorder
  logfiletmpl := ""
  dname := dname

/-- Replace line `i` of a multiplexer. -/
def Tmxr.setLine (mp : Tmxr) (i : Nat) (lp : Line) : Tmxr :=
  { mp with ldsc := Function.update mp.ldsc i lp }

@[simp] theorem Tmxr.setLine_lines (mp : Tmxr) (i : Nat) (lp : Line) :
    (mp.setLine i lp).lines = mp.lines :=
  rfl

@[simp] theorem Tmxr.setLine_ldsc_self (mp : Tmxr) (i : Nat) (lp : Line) :
    (mp.setLine i lp).ldsc i = lp := by
  simp [Tmxr.setLine]

@[simp] theorem Tmxr.setLine_ldsc_of_ne (mp : Tmxr) {i k : Nat} (lp : Line) (h : k ≠ i) :
    (mp.setLine i lp).ldsc k = mp.ldsc k := by
  simp [Tmxr.setLine, h]

end TelnetMux
