import Mathlib.Data.List.Basic
import TelnetMux.Basic

/-!
# Log file references

`sim_open_logfile` gives a handle slot, a file pointer with its `SMP_FILEREF` pointer, either
a new reference to a newly opened file, or a share of the simulator log's or debug log's
reference (`LOG`, `DEBUG`), counted in the reference's `refcount`, or a standard stream with
no reference. `sim_close_logfile` drops one count and frees the reference at zero. The slots
are the simulator log, the debug log and each line's log; the commands that open and close
them are `SET LOG`/`SET NOLOG`, `SET DEBUG`/`SET NODEBUG`, the `LOG=` and `NOLOG` options of
`tmxr_open_master` and the line commands `tmxr_set_log`/`tmxr_set_nolog`.

References live in a heap indexed by address, `none` once freed; closing a reference fcloses
its file, which is not modelled further. The scanner `get_glyph` of the command language is
not among the sources and is modelled after its use here: a first word, upper-cased or not,
and the rest of the line after the blanks that follow it.
-/

namespace TelnetMux

/-- An allocated `SMP_FILEREF`: the file it owns and its count of handles. -/
structure LogRef where
  file : SmpFile
  refcount : Int
  deriving DecidableEq, Repr

/-- The handle slots that can hold a log file reference. -/
inductive LogSlot
  | log
  | deb
  | line (i : Nat)
  deriving DecidableEq, Repr

/-- The references, the simulator's two log handles and a multiplexer's lines. `next` is an
address no reference has used. -/
structure LogSys where
  heap : Nat → Option LogRef
  next : Nat
  simLog : Option SmpFile
  simLogRef : Option Nat
  simDeb : Option SmpFile
  simDebRef : Option Nat
  mp : Tmxr

namespace LogSys

/-- The file pointer of a slot. -/
def file (s : LogSys) : LogSlot → Option SmpFile
  | .log => s.simLog
  | .deb => s.simDeb
  | .line i => (s.mp.ldsc i).txlog

/-- The reference pointer of a slot. -/
def ref (s : LogSys) : LogSlot → Option Nat
  | .log => s.simLogRef
  | .deb => s.simDebRef
  | .line i => (s.mp.ldsc i).txlogref

def setFile (s : LogSys) (f : Option SmpFile) : LogSlot → LogSys
  | .log => { s with simLog := f }
  | .deb => { s with simDeb := f }
  | .line i => { s with mp := s.mp.setLine i { s.mp.ldsc i with txlog := f } }

def setRef (s : LogSys) (r : Option Nat) : LogSlot → LogSys
  | .log => { s with simLogRef := r }
  | .deb => { s with simDebRef := r }
  | .line i => { s with mp := s.mp.setLine i { s.mp.ldsc i with txlogref := r } }

/-- A line's log file name. -/
def setName (s : LogSys) (i : Nat) (name : Option String) : LogSys :=
  { s with mp := s.mp.setLine i { s.mp.ldsc i with txlogname := name } }

/-- Add `d` to the count of the reference at `a`, if it is allocated. -/
def bump (s : LogSys) (a : Nat) (d : Int) : LogSys :=
  { s with
    heap := Function.update s.heap a ((s.heap a).map fun r ↦ { r with refcount := r.refcount + d }) }

section

variable (s : LogSys)

@[simp] theorem heap_setFile (f : Option SmpFile) (slot : LogSlot) :
    (s.setFile f slot).heap = s.heap := by
  cases slot <;> rfl

@[simp] theorem heap_setRef (r : Option Nat) (slot : LogSlot) : (s.setRef r slot).heap = s.heap := by
  cases slot <;> rfl

@[simp] theorem next_setFile (f : Option SmpFile) (slot : LogSlot) :
    (s.setFile f slot).next = s.next := by
  cases slot <;> rfl

@[simp] theorem next_setRef (r : Option Nat) (slot : LogSlot) : (s.setRef r slot).next = s.next := by
  cases slot <;> rfl

@[simp] theorem mp_setFile_log (f : Option SmpFile) : (s.setFile f .log).mp = s.mp := rfl

@[simp] theorem mp_setRef_log (r : Option Nat) : (s.setRef r .log).mp = s.mp := rfl

@[simp] theorem mp_bump (a : Nat) (d : Int) : (s.bump a d).mp = s.mp := rfl

@[simp] theorem next_bump (a : Nat) (d : Int) : (s.bump a d).next = s.next := rfl

/-- A freed reference stays freed when a count is added anywhere. -/
theorem heap_bump_of_none {a : Nat} (h : s.heap a = none) (b : Nat) (d : Int) :
    (s.bump b d).heap a = none := by
  show Function.update s.heap b _ a = none
  rw [Function.update_apply]
  split_ifs with hab
  · rw [hab] at h; rw [h]; rfl
  · exact h

end

end LogSys

/-! ## Opening and closing -/

/-- `get_glyph_gen`: the characters up to a blank or the terminator `mchar`, upper-cased when
`uc`, and the rest after the terminator and the blanks that follow. -/
def getGlyph (s : List Char) (mchar : Option Char) (uc : Bool) : List Char × List Char :=
  let word := s.takeWhile fun ch ↦ !(ch.isWhitespace || some ch == mchar)
  let rest := s.drop word.length
  let rest := match rest, mchar with
    | ch :: r, some m => if ch = m then r else rest
    | _, _ => rest
  (if uc then word.map Char.toUpper else word, rest.dropWhile Char.isWhitespace)

/-- `sim_close_logfile`: drop a slot's count on its reference; the last one fcloses the
file, frees the reference and clears the slot. A slot with no reference is left alone. -/
def simCloseLogfile (s : LogSys) (slot : LogSlot) : LogSys :=
  match s.ref slot with
  | none => s
  | some a =>
    match s.heap a with
    | none => s
    | some r =>
      if r.refcount - 1 > 0 then s.bump a (-1)
      else ({ s with heap := Function.update s.heap a none }).setRef none slot

/-- The `LOG` and `DEBUG` cases of `sim_open_logfile`: the slot shares the handle `f` and
its reference `r`, whose count goes up, or the open fails when there is no such handle. -/
def shareLog (s : LogSys) (slot : LogSlot) (f : Option SmpFile) (r : Option Nat) : LogSys × Scpe :=
  match f with
  | none => (s, .arg)
  | some f =>
    let s := (s.setFile (some f) slot).setRef r slot
    (match r with
      | some a => s.bump a 1
      | none => s, .ok)

/-- The file case of `sim_open_logfile`: a new reference, with one count, to the file
`smp_fopen` opened, or none when it failed. -/
def newLogRef (s : LogSys) (slot : LogSlot) (fopen : Option SmpFile) : LogSys × Scpe :=
  match fopen with
  | none => (s.setRef none slot, .openErr)
  | some f =>
    let a := s.next
    ((({ s with heap := Function.update s.heap a (some ⟨f, 1⟩), next := a + 1 }).setFile
      (some f) slot).setRef (some a) slot, .ok)

/-- What `sim_open_logfile` opens for the upper-cased name `gbuf`, the slot being closed. -/
def openLogTarget (s : LogSys) (slot : LogSlot) (gbuf : List Char) (fopen : Option SmpFile) :
    LogSys × Scpe :=
  if gbuf = "LOG".toList then shareLog s slot s.simLog s.simLogRef
  else if gbuf = "DEBUG".toList then shareLog s slot s.simDeb s.simDebRef
  else if gbuf = "STDOUT".toList then ((s.setFile (some .stdout) slot).setRef none slot, .ok)
  else if gbuf = "STDERR".toList then ((s.setFile (some .stderr) slot).setRef none slot, .ok)
  else newLogRef s slot fopen

/-- `sim_open_logfile` on `filename`, with the file `smp_fopen` returns for a new file, if any:
the slot is closed first, whatever the name then opens. -/
def simOpenLogfile (s : LogSys) (filename : String) (slot : LogSlot) (fopen : Option SmpFile) :
    LogSys × Scpe :=
  if filename = "" then (s, .twoFArg)
  else
    let g := getGlyph filename.toList none true
    if g.2 ≠ [] then (s, .twoMArg)
    else openLogTarget ((simCloseLogfile s slot).setFile none slot) slot g.1 fopen

/-- A single word is read back whole, with nothing after it. -/
theorem getGlyph_word {w : List Char} (hw : ∀ ch ∈ w, ch.isWhitespace = false) (uc : Bool) :
    getGlyph w none uc = (if uc then w.map Char.toUpper else w, []) := by
  have htake : w.takeWhile (fun ch ↦ !(ch.isWhitespace || some ch == none)) = w :=
    List.takeWhile_eq_self_iff.2 fun ch hch ↦ by simp [hw ch hch]
  simp only [getGlyph, htake, List.drop_length, List.dropWhile_nil]

/-! ## What closing and opening a slot can change -/

section SlotStep

/-! A relation between multiplexers that holds across either update of a slot, and composes,
holds across each routine that closes or opens that slot. -/

variable {R : Tmxr → Tmxr → Prop} {slot : LogSlot} (hrefl : ∀ mp, R mp mp)
  (htrans : ∀ {mp₁ mp₂ mp₃}, R mp₁ mp₂ → R mp₂ mp₃ → R mp₁ mp₃)
  (hfile : ∀ (s : LogSys) (f : Option SmpFile), R s.mp (s.setFile f slot).mp)
  (href : ∀ (s : LogSys) (r : Option Nat), R s.mp (s.setRef r slot).mp)
include hrefl href

theorem simCloseLogfile_rel (s : LogSys) : R s.mp (simCloseLogfile s slot).mp := by
  unfold simCloseLogfile
  split
  · exact hrefl _
  · next a _ =>
    split
    · exact hrefl _
    · split_ifs
      · exact hrefl _
      · exact href { s with heap := Function.update s.heap a none } none

include htrans hfile

theorem openLogTarget_rel (s : LogSys) (g : List Char) (fopen : Option SmpFile) :
    R s.mp (openLogTarget s slot g fopen).1.mp := by
  have hset (s : LogSys) (f : Option SmpFile) (r : Option Nat) :
      R s.mp ((s.setFile f slot).setRef r slot).mp :=
    htrans (hfile s f) (href _ r)
  have hshare (f : Option SmpFile) (r : Option Nat) : R s.mp (shareLog s slot f r).1.mp := by
    unfold shareLog
    cases f with
    | none => exact hrefl _
    | some f => cases r <;> exact hset s (some f) _
  have hnew : R s.mp (newLogRef s slot fopen).1.mp := by
    unfold newLogRef
    cases fopen with
    | none => exact href s none
    | some f =>
      exact hset { s with heap := Function.update s.heap s.next (some ⟨f, 1⟩), next := s.next + 1 }
        (some f) (some s.next)
  unfold openLogTarget
  split_ifs <;> first | exact hshare _ _ | exact hset s _ none | exact hnew

theorem simOpenLogfile_rel (s : LogSys) (filename : String) (fopen : Option SmpFile) :
    R s.mp (simOpenLogfile s filename slot fopen).1.mp := by
  unfold simOpenLogfile
  dsimp only
  split_ifs
  · exact hrefl _
  · exact hrefl _
  · exact htrans (htrans (simCloseLogfile_rel hrefl href s) (hfile _ none))
      (openLogTarget_rel hrefl htrans hfile href _ _ fopen)

end SlotStep

section Slot

variable (s : LogSys) (fopen : Option SmpFile)

theorem openLogTarget_log_mp (g : List Char) : (openLogTarget s .log g fopen).1.mp = s.mp :=
  @openLogTarget_rel (fun mp mp' ↦ mp' = mp) .log (fun _ ↦ rfl) (fun h₁ h₂ ↦ h₂.trans h₁)
    LogSys.mp_setFile_log LogSys.mp_setRef_log s g fopen

/-- Opening never reuses a freed address below `next`. -/
theorem openLogTarget_heap_none {a : Nat} (ha : s.heap a = none) (hn : a < s.next) (slot : LogSlot)
    (g : List Char) : (openLogTarget s slot g fopen).1.heap a = none := by
  have hshare (f : Option SmpFile) (r : Option Nat) : (shareLog s slot f r).1.heap a = none := by
    unfold shareLog
    split
    · exact ha
    · split
      · exact LogSys.heap_bump_of_none _ (by simpa using ha) _ _
      · simpa using ha
  have hnew : (newLogRef s slot fopen).1.heap a = none := by
    unfold newLogRef
    split
    · simpa using ha
    · simp [Function.update_apply, Nat.ne_of_lt hn, ha]
  unfold openLogTarget
  split_ifs <;> first | exact hshare _ _ | exact hnew | simpa using ha

end Slot

/-! ## The commands -/

/-- `sim_set_logoff` with no argument. -/
def simSetLogoff (s : LogSys) : LogSys :=
  match s.simLog with
  | none => s
  | some _ => (simCloseLogfile s .log).setFile none .log

theorem simSetLogoff_of_none {s : LogSys} (h : s.simLog = none) : simSetLogoff s = s := by
  rw [simSetLogoff, h]

/-- `sim_set_logon`: close the current log and open the one named. -/
def simSetLogon (s : LogSys) (cptr : String) (fopen : Option SmpFile) : LogSys × Scpe :=
  if cptr = "" then (s, .twoFArg)
  else
    let (gbuf, rest) := getGlyph cptr.toList none false
    if rest ≠ [] then (s, .twoMArg)
    else simOpenLogfile (simSetLogoff s) (String.mk gbuf) .log fopen

/-- `sim_set_debon`: open the debug log named, closing the current one. -/
def simSetDebon (s : LogSys) (cptr : String) (fopen : Option SmpFile) : LogSys × Scpe :=
  if cptr = "" then (s, .twoFArg)
  else
    let (gbuf, rest) := getGlyph cptr.toList none false
    if rest ≠ [] then (s, .twoMArg)
    else simOpenLogfile s (String.mk gbuf) .deb fopen

/-- `sim_set_deboff` with no argument. -/
def simSetDeboff (s : LogSys) : LogSys :=
  match s.simDeb with
  | none => s
  | some _ => (simCloseLogfile s .deb).setFile none .deb

/-- The file name of line `i` under the template `tmpl` of `LOG=`. -/
def lineLogName (lines : Nat) (tmpl : String) (i : Nat) : String :=
  if lines > 1 then tmpl ++ "_" ++ toString i else tmpl

/-- The loop of the `LOG=` option of `tmxr_open_master` from line `i`, with `k` lines left and
the files `smp_fopen` returns: each line's log is closed and reopened under its own name; the
loop stops at the first line whose log does not open. -/
def openLineLogs (s : LogSys) (tmpl : String) (fopen : Nat → Option SmpFile) (i : Nat) :
    Nat → LogSys × Scpe
  | 0 => (s, .ok)
  | k + 1 =>
    let s := (simCloseLogfile s (.line i)).setFile none (.line i)
    let name := lineLogName s.mp.lines tmpl i
    let r := simOpenLogfile (s.setName i (some name)) name (.line i) (fopen i)
    if r.2 = .ok then openLineLogs r.1 tmpl fopen (i + 1) k
    else (r.1.setName i none, r.2)

/-- The `LOG=tmpl` option of `tmxr_open_master`. -/
def tmxrOpenMasterLog (s : LogSys) (tmpl : String) (fopen : Nat → Option SmpFile) : LogSys × Scpe :=
  if tmpl = "" then (s, .twoFArg)
  else openLineLogs { s with mp := { s.mp with logfiletmpl := tmpl } } tmpl fopen 0 s.mp.lines

/-- The `NOLOG` option of `tmxr_open_master`, with no value: every line's log is closed. -/
def tmxrOpenMasterNolog (s : LogSys) : LogSys :=
  let close (s : LogSys) (i : Nat) : LogSys :=
    let s := s.setName i none
    if (s.mp.ldsc i).txlog.isSome then (simCloseLogfile s (.line i)).setFile none (.line i) else s
  (List.range s.mp.lines).foldl close { s with mp := { s.mp with logfiletmpl := "" } }

/-! ## The line commands -/

/-- The `UNIT *` a line command is given: none when the library calls the command itself, a
unit that `find_dev_from_unit` finds no device for, or a unit with its index
`sim_unit_index`. -/
inductive UnitPtr
  | null
  | orphan
  | unit (index : Nat)
  deriving DecidableEq, Repr

/-- `tmxr_find_ldsc`: the line a command acts on, if any. Called from `SET`, the unit's index
takes the place of `val`, in this routine's copy of it only. -/
def tmxrFindLdsc (uptr : UnitPtr) (val : Int) (mp : Tmxr) : Option Nat :=
  let val : Option Int := match uptr with
    | .null => some val
    | .orphan => none
    | .unit k => some k
  val.bind fun v ↦ if v < 0 ∨ v ≥ mp.lines then none else some v.toNat

/-- The line found is the unit's, or with no unit the line `val` names, if it exists. -/
theorem tmxrFindLdsc_eq_some {uptr : UnitPtr} {val : Int} {mp : Tmxr} {i : Nat} :
    tmxrFindLdsc uptr val mp = some i ↔
      i < mp.lines ∧ (uptr = .unit i ∨ uptr = .null ∧ val = i) := by
  cases uptr with
  | null =>
    simp only [tmxrFindLdsc, Option.some_bind, reduceCtorEq, false_or, true_and]
    split_ifs
    · simp only [reduceCtorEq, false_iff]; omega
    · simp only [Option.some.injEq]; constructor <;> intro <;> omega
  | orphan => simp [tmxrFindLdsc]
  | unit k =>
    simp only [tmxrFindLdsc, Option.some_bind, UnitPtr.unit.injEq, reduceCtorEq, false_and,
      or_false]
    split_ifs
    · simp only [reduceCtorEq, false_iff]; omega
    · simp only [Option.some.injEq]; constructor <;> intro <;> omega

/-- What `tmxr_set_nolog` does to the line it found: a log is closed and its name freed. -/
def nologLine (s : LogSys) (i : Nat) : LogSys :=
  if (s.mp.ldsc i).txlog.isSome then
    ((simCloseLogfile s (.line i)).setName i none).setFile none (.line i)
  else s

/-- `tmxr_set_nolog`, which takes no value. -/
def tmxrSetNolog (s : LogSys) (uptr : UnitPtr) (val : Int) (cptr : Option String) :
    LogSys × Scpe :=
  if cptr.isSome then (s, .twoMArg)
  else match tmxrFindLdsc uptr val s.mp with
    | none => (s, .iErr)
    | some i => (nologLine s i, .ok)

/-- `tmxr_set_log` with the file name `cptr`, if one is given. A log the line already has is
closed by `tmxr_set_nolog (NULL, val, NULL, desc)`: on the line `val` names, which from `SET`
need not be the unit's. The status of `sim_open_logfile` is not looked at, only whether the
line got a file. -/
def tmxrSetLog (s : LogSys) (uptr : UnitPtr) (val : Int) (cptr : Option String)
    (fopen : Option SmpFile) : LogSys × Scpe :=
  match cptr with
  | none => (s, .twoFArg)
  | some name =>
    match tmxrFindLdsc uptr val s.mp with
    | none => (s, .iErr)
    | some i =>
      let s := if (s.mp.ldsc i).txlog.isSome then (tmxrSetNolog s .null val none).1 else s
      let s := (simOpenLogfile (s.setName i (some name)) name (.line i) fopen).1
      if (s.mp.ldsc i).txlog.isNone then (s.setName i none, .openErr) else (s, .ok)

/-! ## A shared reference -/

/-- `SET NOLOG` while a line shares the simulator log's reference only drops a count: the
log's slot keeps pointing at the reference, which now counts one holder for two. The next
`SET LOG` closes that slot once more and frees the reference, which the line still holds. -/
theorem simSetLogon_frees_shared_ref (s : LogSys) (f : SmpFile) (a : Nat) (r : LogRef) (i : Nat)
    (w : List Char) (fopen : Option SmpFile) (hlog : s.simLog = some f)
    (href : s.simLogRef = some a) (hheap : s.heap a = some r) (hcount : r.refcount = 2)
    (hline : (s.mp.ldsc i).txlogref = some a) (hnext : a < s.next) (hw : w ≠ [])
    (hws : ∀ ch ∈ w, ch.isWhitespace = false) :
    (simSetLogoff s).heap a = some { r with refcount := 1 } ∧
      (simSetLogoff s).simLogRef = some a ∧ ((simSetLogoff s).mp.ldsc i).txlogref = some a ∧
      (simSetLogon (simSetLogoff s) (String.mk w) fopen).1.heap a = none ∧
      ((simSetLogon (simSetLogoff s) (String.mk w) fopen).1.mp.ldsc i).txlogref = some a := by
  have hoff : simSetLogoff s = (s.bump a (-1)).setFile none .log := by
    simp only [simSetLogoff, hlog, simCloseLogfile, LogSys.ref, href, hheap, hcount]
    rfl
  have h₁heap : (simSetLogoff s).heap a = some { r with refcount := 1 } := by
    rw [hoff]
    simp [LogSys.bump, hheap, hcount]
  have h₁ref : (simSetLogoff s).simLogRef = some a := by rw [hoff]; exact href
  have h₁mp : (simSetLogoff s).mp = s.mp := by rw [hoff]; rfl
  have h₁log : (simSetLogoff s).simLog = none := by rw [hoff]; rfl
  have h₁next : (simSetLogoff s).next = s.next := by rw [hoff]; rfl
  set s₁ := simSetLogoff s
  have hclose : (simCloseLogfile s₁ .log).heap a = none ∧ (simCloseLogfile s₁ .log).mp = s.mp ∧
      (simCloseLogfile s₁ .log).next = s.next := by
    simp only [simCloseLogfile, LogSys.ref, h₁ref, h₁heap]
    simp [h₁mp, h₁next]
  have hne : String.mk w ≠ "" := fun h ↦ hw (congrArg String.data h)
  have hon : (simSetLogon s₁ (String.mk w) fopen).1 =
      (openLogTarget ((simCloseLogfile s₁ .log).setFile none .log) .log (w.map Char.toUpper)
        fopen).1 := by
    simp [simSetLogon, simOpenLogfile, hne, getGlyph_word hws, simSetLogoff_of_none h₁log]
  rw [hon, h₁mp]
  refine ⟨h₁heap, h₁ref, hline, openLogTarget_heap_none _ _ (by simpa using hclose.1)
    (by simpa [hclose.2.2] using hnext) _ _, ?_⟩
  rw [openLogTarget_log_mp, LogSys.mp_setFile_log, hclose.2.1]
  exact hline

/-! ## Runs -/

/-- The commands that open and close log files, with the files `smp_fopen` returns. -/
inductive LogOp
  | logon (cptr : String) (fopen : Option SmpFile)
  | logoff
  | debon (cptr : String) (fopen : Option SmpFile)
  | deboff
  | masterLog (tmpl : String) (fopen : Nat → Option SmpFile)
  | masterNolog
  | setLog (uptr : UnitPtr) (val : Int) (cptr : Option String) (fopen : Option SmpFile)
  | setNolog (uptr : UnitPtr) (val : Int) (cptr : Option String)

def logStep (s : LogSys) : LogOp → LogSys
  | .logon cptr fopen => (simSetLogon s cptr fopen).1
  | .logoff => simSetLogoff s
  | .debon cptr fopen => (simSetDebon s cptr fopen).1
  | .deboff => simSetDeboff s
  | .masterLog tmpl fopen => (tmxrOpenMasterLog s tmpl fopen).1
  | .masterNolog => tmxrOpenMasterNolog s
  | .setLog uptr val cptr fopen => (tmxrSetLog s uptr val cptr fopen).1
  | .setNolog uptr val cptr => (tmxrSetNolog s uptr val cptr).1

def logRun (s : LogSys) (ops : List LogOp) : LogSys :=
  ops.foldl logStep s

/-! ## What the log commands leave alone -/

/-- `mp'` differs from `mp` at most in the log file template and in the lines' log handles,
log references and log names. -/
structure LogFrame (mp mp' : Tmxr) : Prop where
  lines : mp'.lines = mp.lines
  master : mp'.master = mp.master
  port : mp'.port = mp.port
  buffered : mp'.buffered = mp.buffered
  lnorder : mp'.lnorder = mp.lnorder
  dname : mp'.dname = mp.dname
  ldsc : ∀ i, mp'.ldsc i = { mp.ldsc i with
    txlog := (mp'.ldsc i).txlog
    txlogref := (mp'.ldsc i).txlogref
    txlogname := (mp'.ldsc i).txlogname }

theorem LogFrame.refl (mp : Tmxr) : LogFrame mp mp :=
  ⟨rfl, rfl, rfl, rfl, rfl, rfl, fun _ ↦ rfl⟩

theorem LogFrame.trans {mp₁ mp₂ mp₃ : Tmxr} (h₁ : LogFrame mp₁ mp₂) (h₂ : LogFrame mp₂ mp₃) :
    LogFrame mp₁ mp₃ where
  lines := h₂.lines.trans h₁.lines
  master := h₂.master.trans h₁.master
  port := h₂.port.trans h₁.port
  buffered := h₂.buffered.trans h₁.buffered
  lnorder := h₂.lnorder.trans h₁.lnorder
  dname := h₂.dname.trans h₁.dname
  ldsc i := by rw [h₂.ldsc i, h₁.ldsc i]

theorem logFrame_tmpl (mp : Tmxr) (tmpl : String) : LogFrame mp { mp with logfiletmpl := tmpl } :=
  ⟨rfl, rfl, rfl, rfl, rfl, rfl, fun _ ↦ rfl⟩

theorem logFrame_setLine (mp : Tmxr) (i : Nat) {lp : Line} (h : lp = { mp.ldsc i with
    txlog := lp.txlog
    txlogref := lp.txlogref
    txlogname := lp.txlogname }) : LogFrame mp (mp.setLine i lp) := by
  refine ⟨rfl, rfl, rfl, rfl, rfl, rfl, fun k ↦ ?_⟩
  by_cases hk : k = i
  · subst hk
    rw [Tmxr.setLine_ldsc_self]
    exact h
  · rw [Tmxr.setLine_ldsc_of_ne _ _ hk]

theorem foldl_logFrame {α : Type} {f : LogSys → α → LogSys} (hf : ∀ s a, LogFrame s.mp (f s a).mp) :
    ∀ (l : List α) (s : LogSys), LogFrame s.mp (l.foldl f s).mp
  | [], _ => .refl _
  | a :: l, s => (hf s a).trans (foldl_logFrame hf l _)

section Frame

variable (s : LogSys)

theorem setFile_logFrame (f : Option SmpFile) (slot : LogSlot) :
    LogFrame s.mp (s.setFile f slot).mp := by
  cases slot
  · exact .refl _
  · exact .refl _
  · exact logFrame_setLine _ _ rfl

theorem setRef_logFrame (r : Option Nat) (slot : LogSlot) : LogFrame s.mp (s.setRef r slot).mp := by
  cases slot
  · exact .refl _
  · exact .refl _
  · exact logFrame_setLine _ _ rfl

theorem setName_logFrame (i : Nat) (name : Option String) : LogFrame s.mp (s.setName i name).mp :=
  logFrame_setLine _ _ rfl

theorem simCloseLogfile_logFrame (slot : LogSlot) : LogFrame s.mp (simCloseLogfile s slot).mp :=
  simCloseLogfile_rel LogFrame.refl (setRef_logFrame · · slot) s

theorem simOpenLogfile_logFrame (filename : String) (slot : LogSlot) (fopen : Option SmpFile) :
    LogFrame s.mp (simOpenLogfile s filename slot fopen).1.mp :=
  simOpenLogfile_rel LogFrame.refl LogFrame.trans (setFile_logFrame · · slot)
    (setRef_logFrame · · slot) s filename fopen

theorem simSetLogoff_logFrame : LogFrame s.mp (simSetLogoff s).mp := by
  unfold simSetLogoff
  split
  · exact .refl _
  · exact (simCloseLogfile_logFrame s .log).trans (setFile_logFrame _ none .log)

theorem simSetDeboff_logFrame : LogFrame s.mp (simSetDeboff s).mp := by
  unfold simSetDeboff
  split
  · exact .refl _
  · exact (simCloseLogfile_logFrame s .deb).trans (setFile_logFrame _ none .deb)

theorem simSetLogon_logFrame (cptr : String) (fopen : Option SmpFile) :
    LogFrame s.mp (simSetLogon s cptr fopen).1.mp := by
  unfold simSetLogon
  split_ifs
  · exact .refl _
  · split
    split_ifs
    · exact .refl _
    · exact (simSetLogoff_logFrame s).trans (simOpenLogfile_logFrame _ _ .log fopen)

theorem simSetDebon_logFrame (cptr : String) (fopen : Option SmpFile) :
    LogFrame s.mp (simSetDebon s cptr fopen).1.mp := by
  unfold simSetDebon
  split_ifs
  · exact .refl _
  · split
    split_ifs
    · exact .refl _
    · exact simOpenLogfile_logFrame s _ .deb fopen

theorem openLineLogs_logFrame (tmpl : String) (fopen : Nat → Option SmpFile) (i k : Nat) :
    LogFrame s.mp (openLineLogs s tmpl fopen i k).1.mp := by
  induction k generalizing s i with
  | zero => exact .refl _
  | succ k ih =>
    have h₁ := (simCloseLogfile_logFrame s (.line i)).trans (setFile_logFrame _ none (.line i))
    rw [openLineLogs]
    split_ifs
    · exact (h₁.trans ((setName_logFrame _ i _).trans (simOpenLogfile_logFrame _ _ _ _))).trans
        (ih _ _)
    · exact (h₁.trans ((setName_logFrame _ i _).trans (simOpenLogfile_logFrame _ _ _ _))).trans
        (setName_logFrame _ i none)

theorem nologLine_logFrame (i : Nat) : LogFrame s.mp (nologLine s i).mp := by
  unfold nologLine
  split_ifs
  · exact ((simCloseLogfile_logFrame s _).trans (setName_logFrame _ i none)).trans
      (setFile_logFrame _ none _)
  · exact .refl _

theorem tmxrSetNolog_logFrame (uptr : UnitPtr) (val : Int) (cptr : Option String) :
    LogFrame s.mp (tmxrSetNolog s uptr val cptr).1.mp := by
  unfold tmxrSetNolog
  split_ifs
  · exact .refl _
  · split
    · exact .refl _
    · exact nologLine_logFrame s _

theorem tmxrSetLog_logFrame (uptr : UnitPtr) (val : Int) (cptr : Option String)
    (fopen : Option SmpFile) : LogFrame s.mp (tmxrSetLog s uptr val cptr fopen).1.mp := by
  unfold tmxrSetLog
  split
  · exact .refl _
  · next name =>
    split
    · exact .refl _
    · next i _ =>
      have h₀ : LogFrame s.mp (if (s.mp.ldsc i).txlog.isSome then
          (tmxrSetNolog s .null val none).1 else s).mp := by
        split_ifs
        · exact tmxrSetNolog_logFrame s _ _ _
        · exact .refl _
      dsimp only
      generalize (if (s.mp.ldsc i).txlog.isSome then (tmxrSetNolog s .null val none).1 else s) =
        s₁ at h₀ ⊢
      have h := h₀.trans ((setName_logFrame _ i (some name)).trans
        (simOpenLogfile_logFrame _ name (.line i) fopen))
      split_ifs
      · exact h.trans (setName_logFrame _ i none)
      · exact h

end Frame

/-- The log commands change nothing of a multiplexer beyond its log template and its lines'
log handles, references and names. -/
theorem logStep_logFrame (s : LogSys) (op : LogOp) : LogFrame s.mp (logStep s op).mp := by
  cases op with
  | logon cptr fopen => exact simSetLogon_logFrame s cptr fopen
  | logoff => exact simSetLogoff_logFrame s
  | debon cptr fopen => exact simSetDebon_logFrame s cptr fopen
  | deboff => exact simSetDeboff_logFrame s
  | masterLog tmpl fopen =>
    show LogFrame s.mp (tmxrOpenMasterLog s tmpl fopen).1.mp
    unfold tmxrOpenMasterLog
    split_ifs
    · exact .refl _
    · exact (logFrame_tmpl s.mp tmpl).trans
        (openLineLogs_logFrame { s with mp := { s.mp with logfiletmpl := tmpl } } tmpl fopen 0 _)
  | masterNolog =>
    show LogFrame s.mp (tmxrOpenMasterNolog s).mp
    unfold tmxrOpenMasterNolog
    refine (logFrame_tmpl s.mp "").trans
      (foldl_logFrame (fun s i ↦ ?_) _ { s with mp := { s.mp with logfiletmpl := "" } })
    dsimp only
    split_ifs
    · exact ((setName_logFrame s i none).trans (simCloseLogfile_logFrame _ _)).trans
        (setFile_logFrame _ none _)
    · exact setName_logFrame s i none
  | setLog uptr val cptr fopen => exact tmxrSetLog_logFrame s uptr val cptr fopen
  | setNolog uptr val cptr => exact tmxrSetNolog_logFrame s uptr val cptr

/-- No reference allocated and no log open, on the multiplexer `mp`. -/
def LogSys.init (mp : Tmxr) : LogSys :=
  ⟨fun _ ↦ none, 1, none, none, none, none, mp⟩

/-- The console multiplexer `sim_con_tmxr = { 1, 0, 0, &sim_con_ldsc }`: one line, no logs,
with the Telnet port closed. -/
def consoleMux : Tmxr :=
  Tmxr.init 1 none none

/-- `SET CONSOLE LOG=a` and then `SET CONSOLE TELNET=LOG=LOG`: the console line's log shares
the simulator log's reference. -/
def sharedConsoleLog : LogSys :=
  logRun (LogSys.init consoleMux) [.logon "a" (some (.file 1)), .masterLog "LOG" fun _ ↦ none]

theorem sharedConsoleLog_freed_while_held :
    (simSetLogoff sharedConsoleLog).heap 1 = some ⟨.file 1, 1⟩ ∧
      (simSetLogoff sharedConsoleLog).simLogRef = some 1 ∧
      ((simSetLogoff sharedConsoleLog).mp.ldsc 0).txlogref = some 1 ∧
      (simSetLogon (simSetLogoff sharedConsoleLog) (String.mk ['b']) (some (.file 2))).1.heap 1 =
        none ∧
      ((simSetLogon (simSetLogoff sharedConsoleLog) (String.mk ['b']) (some (.file 2))).1.mp.ldsc
        0).txlogref = some 1 :=
  simSetLogon_frees_shared_ref sharedConsoleLog (.file 1) 1 ⟨.file 1, 2⟩ 0 ['b'] (some (.file 2))
    (by decide) (by decide) (by decide) rfl (by decide) (by decide) (List.cons_ne_nil _ _)
    (by decide)

/-! ## The lines a line command changes -/

/-- `mp'` has the lines of `mp` except perhaps line `i`. -/
def LineFrame (i : Nat) (mp mp' : Tmxr) : Prop :=
  ∀ j, j ≠ i → mp'.ldsc j = mp.ldsc j

theorem LineFrame.refl (i : Nat) (mp : Tmxr) : LineFrame i mp mp :=
  fun _ _ ↦ rfl

theorem LineFrame.trans {i : Nat} {mp₁ mp₂ mp₃ : Tmxr} (h₁ : LineFrame i mp₁ mp₂)
    (h₂ : LineFrame i mp₂ mp₃) : LineFrame i mp₁ mp₃ :=
  fun j hj ↦ (h₂ j hj).trans (h₁ j hj)

section LineFrame

variable (s : LogSys) (i : Nat)

theorem setFile_lineFrame (f : Option SmpFile) : LineFrame i s.mp (s.setFile f (.line i)).mp :=
  fun _ hj ↦ Tmxr.setLine_ldsc_of_ne _ _ hj

theorem setRef_lineFrame (r : Option Nat) : LineFrame i s.mp (s.setRef r (.line i)).mp :=
  fun _ hj ↦ Tmxr.setLine_ldsc_of_ne _ _ hj

theorem setName_lineFrame (name : Option String) : LineFrame i s.mp (s.setName i name).mp :=
  fun _ hj ↦ Tmxr.setLine_ldsc_of_ne _ _ hj

theorem simCloseLogfile_lineFrame : LineFrame i s.mp (simCloseLogfile s (.line i)).mp :=
  simCloseLogfile_rel (LineFrame.refl i) (setRef_lineFrame · i ·) s

theorem simOpenLogfile_lineFrame (filename : String) (fopen : Option SmpFile) :
    LineFrame i s.mp (simOpenLogfile s filename (.line i) fopen).1.mp :=
  simOpenLogfile_rel (LineFrame.refl i) LineFrame.trans (setFile_lineFrame · i ·)
    (setRef_lineFrame · i ·) s filename fopen

/-- Closing a line's log leaves it with no file and no name. -/
theorem nologLine_closes (h : (s.mp.ldsc i).txlog.isSome) :
    ((nologLine s i).mp.ldsc i).txlog = none ∧ ((nologLine s i).mp.ldsc i).txlogname = none := by
  simp [nologLine, h, LogSys.setFile, LogSys.setName]

end LineFrame

section SetLog

variable (s : LogSys)

/-- Past the close of a log the line already has, `tmxr_set_log` changes only the line it
found. -/
theorem tmxrSetLog_lineFrame (uptr : UnitPtr) (val : Int) (name : String)
    (fopen : Option SmpFile) {i : Nat} (hi : tmxrFindLdsc uptr val s.mp = some i) :
    LineFrame i (if (s.mp.ldsc i).txlog.isSome then (tmxrSetNolog s .null val none).1 else s).mp
      (tmxrSetLog s uptr val (some name) fopen).1.mp := by
  unfold tmxrSetLog
  rw [hi]
  dsimp only
  generalize (if (s.mp.ldsc i).txlog.isSome then (tmxrSetNolog s .null val none).1 else s) = s₁
  have h := (setName_lineFrame s₁ i (some name)).trans (simOpenLogfile_lineFrame _ i name fopen)
  split_ifs
  · exact h.trans (setName_lineFrame _ i none)
  · exact h

/-- Called from `SET` on the unit of line `k` with a `val` naming another line `v`, where both
lines log, `tmxr_set_log` finds line `k` and yet closes the log of line `v`: the nested
`tmxr_set_nolog (NULL, val, ...)` takes the caller's `val`, not the unit's index. -/
theorem tmxrSetLog_closes_other {k v : Nat} (name : String) (fopen : Option SmpFile)
    (hk : k < s.mp.lines) (hv : v < s.mp.lines) (hne : v ≠ k)
    (hlk : (s.mp.ldsc k).txlog.isSome) (hlv : (s.mp.ldsc v).txlog.isSome) :
    tmxrFindLdsc (.unit k) v s.mp = some k ∧
      ((tmxrSetLog s (.unit k) v (some name) fopen).1.mp.ldsc v).txlog = none ∧
      ((tmxrSetLog s (.unit k) v (some name) fopen).1.mp.ldsc v).txlogname = none := by
  have hfind : tmxrFindLdsc (.unit k) v s.mp = some k := tmxrFindLdsc_eq_some.2 ⟨hk, .inl rfl⟩
  have hnull : tmxrFindLdsc .null v s.mp = some v := tmxrFindLdsc_eq_some.2 ⟨hv, .inr ⟨rfl, rfl⟩⟩
  have hclose : (tmxrSetNolog s .null v none).1 = nologLine s v := by simp [tmxrSetNolog, hnull]
  rw [tmxrSetLog_lineFrame s _ _ name fopen hfind v hne, if_pos hlk, hclose]
  exact ⟨hfind, nologLine_closes s v hlv⟩

end SetLog

/-- A two-line multiplexer whose lines log to `a` and `b`, opened by the library. -/
def twoLineLogs : LogSys :=
  logRun (LogSys.init (Tmxr.init 2 none none))
    [.setLog .null 0 (some "a") (some (.file 1)), .setLog .null 1 (some "b") (some (.file 2))]

theorem twoLineLogs_unit_one_closes_line_zero :
    tmxrFindLdsc (.unit 1) 0 twoLineLogs.mp = some 1 ∧
      ((tmxrSetLog twoLineLogs (.unit 1) 0 (some "c") (some (.file 3))).1.mp.ldsc 0).txlog =
        none ∧
      ((tmxrSetLog twoLineLogs (.unit 1) 0 (some "c") (some (.file 3))).1.mp.ldsc 0).txlogname =
        none :=
  tmxrSetLog_closes_other twoLineLogs "c" (some (.file 3)) (by decide) (by decide) (by decide)
    (by decide) (by decide)

end TelnetMux
