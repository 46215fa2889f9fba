import TelnetMux.System

/-!
# Who owns a log file reference

`sim_open_logfile` gives a slot a reference of its own, with one count, for a file it opens,
and `sim_close_logfile` frees the reference once its count drops to 0. A reference is shared only
through the names `LOG` and `DEBUG`: the slot then takes the simulator log's or the debug log's
reference with one count more. Without these names every reference has one owner. Along every
run of the library's calls and log commands in which no log command names `LOG` or `DEBUG`:
- each slot's reference is allocated, counts one holder and holds the slot's file;
- no two slots hold one reference;
- every allocated reference is held by a slot.
So nothing is freed while a slot uses it and nothing leaks. The multiplexer's calls keep this
because they never touch a line's log handle or reference.

Once a reference is shared this fails, as `TelnetMux.Logfile` shows: `sim_close_logfile` keeps
the slot's pointer while the count stays positive, and a later close counts that slot twice.
-/

namespace TelnetMux

/-! ## The slots of a log system -/

namespace LogSys

section Slots

variable (s : LogSys) (sl sl' : LogSlot)

@[simp] theorem ref_setFile (f : Option SmpFile) : (s.setFile f sl).ref sl' = s.ref sl' := by
  cases sl <;> cases sl' <;> simp [ref, setFile, Tmxr.setLine, Function.update_apply,
    apply_ite Line.txlogref]
  rintro rfl; rfl

@[simp] theorem file_setFile (f : Option SmpFile) :
    (s.setFile f sl).file sl' = if sl' = sl then f else s.file sl' := by
  cases sl <;> cases sl' <;> simp [file, setFile, Tmxr.setLine, Function.update_apply,
    apply_ite Line.txlog]

@[simp] theorem ref_setRef (r : Option Nat) :
    (s.setRef r sl).ref sl' = if sl' = sl then r else s.ref sl' := by
  cases sl <;> cases sl' <;> simp [ref, setRef, Tmxr.setLine, Function.update_apply,
    apply_ite Line.txlogref]

@[simp] theorem file_setRef (r : Option Nat) : (s.setRef r sl).file sl' = s.file sl' := by
  cases sl <;> cases sl' <;> simp [file, setRef, Tmxr.setLine, Function.update_apply,
    apply_ite Line.txlog]
  rintro rfl; rfl

@[simp] theorem ref_setName (i : Nat) (name : Option String) :
    (s.setName i name).ref sl = s.ref sl := by
  cases sl <;> simp [ref, setName, Tmxr.setLine, Function.update_apply, apply_ite Line.txlogref]
  rintro rfl; rfl

@[simp] theorem file_setName (i : Nat) (name : Option String) :
    (s.setName i name).file sl = s.file sl := by
  cases sl <;> simp [file, setName, Tmxr.setLine, Function.update_apply, apply_ite Line.txlog]
  rintro rfl; rfl

@[simp] theorem ref_heap (heap : Nat → Option LogRef) : { s with heap }.ref sl = s.ref sl := by
  cases sl <;> rfl

@[simp] theorem file_heap (heap : Nat → Option LogRef) : { s with heap }.file sl = s.file sl := by
  cases sl <;> rfl

@[simp] theorem ref_heap_next (heap : Nat → Option LogRef) (next : Nat) :
    { s with heap, next }.ref sl = s.ref sl := by
  cases sl <;> rfl

@[simp] theorem file_heap_next (heap : Nat → Option LogRef) (next : Nat) :
    { s with heap, next }.file sl = s.file sl := by
  cases sl <;> rfl

@[simp] theorem heap_setName (i : Nat) (name : Option String) : (s.setName i name).heap = s.heap :=
  rfl

@[simp] theorem next_setName (i : Nat) (name : Option String) : (s.setName i name).next = s.next :=
  rfl

end Slots

/-! ## The invariant -/

/-- Every reference has one owner: a slot's reference is allocated with a count of one and
holds the slot's file, no two slots hold one reference, every allocated reference is held, and
nothing is allocated from `next` on. -/
structure Owned (s : LogSys) : Prop where
  held : ∀ sl a, s.ref sl = some a → ∃ f, s.heap a = some ⟨f, 1⟩ ∧ s.file sl = some f
  unique : ∀ sl sl' a, s.ref sl = some a → s.ref sl' = some a → sl = sl'
  owned : ∀ a r, s.heap a = some r → ∃ sl, s.ref sl = some a
  fresh : ∀ a, s.next ≤ a → s.heap a = none

namespace Owned

variable {s : LogSys} (h : s.Owned)
include h

theorem lt_next {sl : LogSlot} {a : Nat} (hr : s.ref sl = some a) : a < s.next := by
  obtain ⟨f, hf, -⟩ := h.held sl a hr
  exact Nat.lt_of_not_le fun hn ↦ by rw [h.fresh a hn] at hf; cases hf

/-- The invariant reads only the heap, `next`, the slots' references and the files of the
slots that hold a reference. -/
theorem of_eq {s' : LogSys} (hheap : s'.heap = s.heap) (hnext : s'.next = s.next)
    (href : ∀ sl, s'.ref sl = s.ref sl)
    (hfile : ∀ sl, s.ref sl ≠ none → s'.file sl = s.file sl) :
    s'.Owned where
  held sl a hr := by
    rw [href] at hr
    rw [hheap, hfile sl (by simp [hr])]
    exact h.held sl a hr
  unique sl sl' a hr hr' := h.unique sl sl' a (by rwa [href] at hr) (by rwa [href] at hr')
  owned a r hr := by
    obtain ⟨sl, hsl⟩ := h.owned a r (by rwa [hheap] at hr)
    exact ⟨sl, by rwa [href]⟩
  fresh a ha := by rw [hheap]; exact h.fresh a (by rwa [hnext] at ha)

/-- A slot with no reference may take any file. -/
theorem setFile {sl : LogSlot} (hr : s.ref sl = none) (f : Option SmpFile) :
    (s.setFile f sl).Owned :=
  h.of_eq (heap_setFile s f sl) (next_setFile s f sl) (ref_setFile s sl · f) fun sl' hsl' ↦ by
    rw [file_setFile, if_neg (by rintro rfl; exact hsl' hr)]

/-- Clearing the pointer of a slot that holds no reference. -/
theorem clearRef {sl : LogSlot} (hr : s.ref sl = none) : (s.setRef none sl).Owned :=
  h.of_eq (heap_setRef s none sl) (next_setRef s none sl)
    (fun sl' ↦ by rw [ref_setRef]; split_ifs with e <;> [rw [e, hr]; rfl])
    fun sl' _ ↦ file_setRef ..

theorem setName (i : Nat) (name : Option String) : (s.setName i name).Owned :=
  h.of_eq rfl rfl (ref_setName s · i name) fun sl _ ↦ file_setName s sl i name

/-- `sim_close_logfile` on a slot whose reference counts one holder: the reference is freed and
the slot's pointer cleared. -/
theorem release {sl : LogSlot} {a : Nat} (hr : s.ref sl = some a) :
    ({ s with heap := Function.update s.heap a none }.setRef none sl).Owned := by
  have hrefs (sl' : LogSlot) (b : Nat)
      (hb : ({ s with heap := Function.update s.heap a none }.setRef none sl).ref sl' = some b) :
      sl' ≠ sl ∧ s.ref sl' = some b ∧ b ≠ a := by
    rw [ref_setRef, ref_heap] at hb
    split_ifs at hb with hs
    exact ⟨hs, hb, fun e ↦ hs (h.unique sl' sl a (e ▸ hb) hr)⟩
  refine ⟨fun sl' b hb ↦ ?_, fun sl₁ sl₂ b h₁ h₂ ↦ ?_, fun b r hb ↦ ?_,
    fun b hb ↦ ?_⟩
  · obtain ⟨-, hb, hba⟩ := hrefs sl' b hb
    simpa [Function.update_noteq hba] using h.held sl' b hb
  · exact h.unique sl₁ sl₂ b (hrefs sl₁ b h₁).2.1 (hrefs sl₂ b h₂).2.1
  · have hba : b ≠ a := by rintro rfl; simp at hb
    simp only [heap_setRef, Function.update_noteq hba] at hb
    obtain ⟨sl', hsl'⟩ := h.owned b r hb
    have hne : sl' ≠ sl := by rintro rfl; rw [hr] at hsl'; exact hba (Option.some.inj hsl').symm
    exact ⟨sl', by rw [ref_setRef, if_neg hne, ref_heap, hsl']⟩
  · rw [next_setRef] at hb
    simp only [heap_setRef, Function.update_apply]
    split_ifs
    · rfl
    · exact h.fresh b hb

/-- A new reference at `next`, with one count, for a slot that holds none: the state `s'` has
the slot point at it and hold its file, and is `s` elsewhere. -/
theorem of_alloc {sl : LogSlot} (hr : s.ref sl = none) (f : SmpFile) {s' : LogSys}
    (href : ∀ sl', s'.ref sl' = if sl' = sl then some s.next else s.ref sl')
    (hfile : ∀ sl', s'.file sl' = if sl' = sl then some f else s.file sl')
    (hheap : ∀ b, s'.heap b = if b = s.next then some ⟨f, 1⟩ else s.heap b)
    (hnext : s'.next = s.next + 1) : s'.Owned := by
  have hother {sl' : LogSlot} {b : Nat} (hb : s'.ref sl' = some b) (hs : sl' ≠ sl) :
      s.ref sl' = some b ∧ b ≠ s.next := by
    rw [href, if_neg hs] at hb
    exact ⟨hb, Nat.ne_of_lt (h.lt_next hb)⟩
  refine ⟨fun sl' b hb ↦ ?_, fun sl₁ sl₂ b h₁ h₂ ↦ ?_, fun b r hb ↦ ?_,
    fun b hb ↦ ?_⟩
  · by_cases hs : sl' = sl
    · rw [href, if_pos hs] at hb
      cases hb
      exact ⟨f, by rw [hheap, if_pos rfl], by rw [hfile, if_pos hs]⟩
    · obtain ⟨hb, hbn⟩ := hother hb hs
      rw [hheap, if_neg hbn, hfile, if_neg hs]
      exact h.held sl' b hb
  · by_cases hs₁ : sl₁ = sl <;> by_cases hs₂ : sl₂ = sl
    · rw [hs₁, hs₂]
    · rw [href, if_pos hs₁] at h₁
      exact absurd (Option.some.inj h₁).symm (hother h₂ hs₂).2
    · rw [href, if_pos hs₂] at h₂
      exact absurd (Option.some.inj h₂).symm (hother h₁ hs₁).2
    · exact h.unique sl₁ sl₂ b (hother h₁ hs₁).1 (hother h₂ hs₂).1
  · rw [hheap] at hb
    split_ifs at hb with hbn
    · exact ⟨sl, by rw [href, if_pos rfl, hbn]⟩
    · obtain ⟨sl', hsl'⟩ := h.owned b r hb
      have hne : sl' ≠ sl := by rintro rfl; rw [hr] at hsl'; cases hsl'
      exact ⟨sl', by rw [href, if_neg hne, hsl']⟩
  · rw [hnext] at hb
    rw [hheap, if_neg (Nat.ne_of_gt hb), h.fresh b (Nat.le_of_succ_le hb)]

/-- The file case of `sim_open_logfile`. -/
theorem alloc {sl : LogSlot} (hr : s.ref sl = none) (f : SmpFile) :
    ((({ s with
        heap := Function.update s.heap s.next (some ⟨f, 1⟩)
        next := s.next + 1 }).setFile (some f) sl).setRef (some s.next) sl).Owned :=
  h.of_alloc hr f (fun _ ↦ by simp) (fun _ ↦ by simp)
    (fun _ ↦ by simp [Function.update_apply]) (by simp)

end Owned

end LogSys

/-! ## Opening and closing -/

/-- Whether `sim_open_logfile` reads `filename` as `LOG` or `DEBUG`, the two names that share
the simulator's handles instead of opening a file. -/
def sharedName (filename : String) : Bool :=
  let g := (getGlyph filename.toList none true).1
  g = "LOG".toList || g = "DEBUG".toList

section Open

variable {s : LogSys} (h : s.Owned)
include h

theorem simCloseLogfile_owned (sl : LogSlot) :
    (simCloseLogfile s sl).Owned ∧ (simCloseLogfile s sl).ref sl = none := by
  unfold simCloseLogfile
  cases hr : s.ref sl with
  | none => exact ⟨h, hr⟩
  | some a =>
    obtain ⟨f, hf, -⟩ := h.held sl a hr
    dsimp only
    rw [hf]
    dsimp only
    rw [if_neg (by decide : ¬((1 : Int) - 1 > 0))]
    exact ⟨h.release hr, by simp⟩

/-- A slot that holds no reference opens anything but `LOG` and `DEBUG` as its own. -/
theorem openLogTarget_owned {sl : LogSlot} (hr : s.ref sl = none) {g : List Char}
    (hg : g ≠ "LOG".toList) (hd : g ≠ "DEBUG".toList) (fopen : Option SmpFile) :
    (openLogTarget s sl g fopen).1.Owned := by
  have hstd (f : SmpFile) : ((s.setFile (some f) sl).setRef none sl).Owned :=
    (h.setFile hr _).clearRef (by rw [LogSys.ref_setFile, hr])
  unfold openLogTarget newLogRef
  rw [if_neg hg, if_neg hd]
  split_ifs
  · exact hstd _
  · exact hstd _
  · cases fopen with
    | none => exact h.clearRef hr
    | some f => exact h.alloc hr f

theorem simOpenLogfile_owned {filename : String} (hn : sharedName filename = false)
    (sl : LogSlot) (fopen : Option SmpFile) : (simOpenLogfile s filename sl fopen).1.Owned := by
  have hg := hn
  simp only [sharedName, Bool.or_eq_false_iff, decide_eq_false_iff_not] at hg
  obtain ⟨hc, hcr⟩ := simCloseLogfile_owned h sl
  unfold simOpenLogfile
  dsimp only
  split_ifs
  · exact h
  · exact h
  · exact openLogTarget_owned (hc.setFile hcr none) (by rw [LogSys.ref_setFile, hcr]) hg.1 hg.2
      fopen

/-- Closing a slot and clearing its handle, as `SET NOLOG`, `SET NODEBUG` and the line
commands do. -/
theorem close_owned (sl : LogSlot) : ((simCloseLogfile s sl).setFile none sl).Owned :=
  (simCloseLogfile_owned h sl).1.setFile (simCloseLogfile_owned h sl).2 none

end Open

/-! ## The commands -/

section Commands

variable {s : LogSys} (h : s.Owned)
include h

theorem simSetLogoff_owned : (simSetLogoff s).Owned := by
  unfold simSetLogoff
  split
  · exact h
  · exact close_owned h .log

theorem simSetDeboff_owned : (simSetDeboff s).Owned := by
  unfold simSetDeboff
  split
  · exact h
  · exact close_owned h .deb

theorem simSetLogon_owned {cptr : String}
    (hn : sharedName (String.mk (getGlyph cptr.toList none false).1) = false)
    (fopen : Option SmpFile) : (simSetLogon s cptr fopen).1.Owned := by
  unfold simSetLogon
  rcases hg : getGlyph cptr.toList none false with ⟨gbuf, rest⟩
  rw [hg] at hn
  dsimp only
  split_ifs
  · exact h
  · exact h
  · exact simOpenLogfile_owned (simSetLogoff_owned h) hn .log fopen

theorem simSetDebon_owned {cptr : String}
    (hn : sharedName (String.mk (getGlyph cptr.toList none false).1) = false)
    (fopen : Option SmpFile) : (simSetDebon s cptr fopen).1.Owned := by
  unfold simSetDebon
  rcases hg : getGlyph cptr.toList none false with ⟨gbuf, rest⟩
  rw [hg] at hn
  dsimp only
  split_ifs
  · exact h
  · exact h
  · exact simOpenLogfile_owned h hn .deb fopen

omit h in
/-- The loop of `LOG=` from line `i`, with `k` lines left, opens each line's log as its own
when no line's name is `LOG` or `DEBUG`. -/
theorem openLineLogs_owned (tmpl : String) (fopen : Nat → Option SmpFile) :
    ∀ (k i : Nat) (s : LogSys), s.Owned →
      (∀ j, i ≤ j → j < i + k → sharedName (lineLogName s.mp.lines tmpl j) = false) →
      (openLineLogs s tmpl fopen i k).1.Owned
  | 0, _, s, h, _ => h
  | k + 1, i, s, h, hn => by
    set s₁ := (simCloseLogfile s (.line i)).setFile none (.line i)
    have hl : s₁.mp.lines = s.mp.lines :=
      ((simCloseLogfile_logFrame s _).trans (setFile_logFrame _ none _)).lines
    set name := lineLogName s₁.mp.lines tmpl i
    have h₂ := simOpenLogfile_owned ((close_owned h (.line i)).setName i (some name))
      (show sharedName (lineLogName s₁.mp.lines tmpl i) = false by
        rw [hl]; exact hn i (Nat.le_refl i) (by omega)) (.line i) (fopen i)
    have hl₂ : (simOpenLogfile (s₁.setName i (some name)) name (.line i) (fopen i)).1.mp.lines =
        s.mp.lines :=
      ((setName_logFrame s₁ i _).trans (simOpenLogfile_logFrame _ name _ _)).lines.trans hl
    simp only [openLineLogs]
    split_ifs
    · exact openLineLogs_owned tmpl fopen k (i + 1) _ h₂ fun j hj hj' ↦ by
        rw [hl₂]; exact hn j (by omega) (by omega)
    · exact h₂.setName i none

theorem tmxrOpenMasterLog_owned {tmpl : String}
    (hn : ∀ j < s.mp.lines, sharedName (lineLogName s.mp.lines tmpl j) = false)
    (fopen : Nat → Option SmpFile) : (tmxrOpenMasterLog s tmpl fopen).1.Owned := by
  unfold tmxrOpenMasterLog
  split_ifs
  · exact h
  · exact openLineLogs_owned tmpl fopen _ 0 _ (h.of_eq rfl rfl (fun _ ↦ rfl) fun _ _ ↦ rfl)
      fun j _ hj ↦ hn j (by omega)

omit h in
theorem foldl_owned {α : Type} {f : LogSys → α → LogSys}
    (hf : ∀ s a, s.Owned → (f s a).Owned) :
    ∀ (l : List α) (s : LogSys), s.Owned → (l.foldl f s).Owned
  | [], _, h => h
  | a :: l, s, h => foldl_owned hf l _ (hf s a h)

theorem tmxrOpenMasterNolog_owned : (tmxrOpenMasterNolog s).Owned := by
  unfold tmxrOpenMasterNolog
  refine foldl_owned (fun s i h ↦ ?_) _ _ (h.of_eq rfl rfl (fun _ ↦ rfl) fun _ _ ↦ rfl)
  dsimp only
  split_ifs
  · exact close_owned (h.setName i none) (.line i)
  · exact h.setName i none

theorem nologLine_owned (i : Nat) : (nologLine s i).Owned := by
  unfold nologLine
  split_ifs
  · exact ((simCloseLogfile_owned h _).1.setName i none).setFile
      (by rw [LogSys.ref_setName]; exact (simCloseLogfile_owned h _).2) none
  · exact h

theorem tmxrSetNolog_owned (uptr : UnitPtr) (val : Int) (cptr : Option String) :
    (tmxrSetNolog s uptr val cptr).1.Owned := by
  unfold tmxrSetNolog
  split_ifs
  · exact h
  · split
    · exact h
    · exact nologLine_owned h _

theorem tmxrSetLog_owned (uptr : UnitPtr) (val : Int) {cptr : Option String}
    (hn : ∀ name, cptr = some name → sharedName name = false) (fopen : Option SmpFile) :
    (tmxrSetLog s uptr val cptr fopen).1.Owned := by
  unfold tmxrSetLog
  cases cptr with
  | none => exact h
  | some name =>
    dsimp only
    split
    · exact h
    · next i _ =>
      generalize hs₁ : (if (s.mp.ldsc i).txlog.isSome then (tmxrSetNolog s .null val none).1
        else s) = s₁
      have h₁ : s₁.Owned := by
        rw [← hs₁]
        split_ifs
        · exact tmxrSetNolog_owned h _ _ _
        · exact h
      have h₂ := simOpenLogfile_owned (h₁.setName i (some name)) (hn name rfl) (.line i) fopen
      split_ifs
      · exact h₂.setName i none
      · exact h₂

end Commands

/-- Whether a log command hands `sim_open_logfile` a name it reads as `LOG` or `DEBUG`, in
state `s`. -/
def LogOp.opensShared (s : LogSys) : LogOp → Bool
  | .logon cptr _ | .debon cptr _ => sharedName (String.mk (getGlyph cptr.toList none false).1)
  | .masterLog tmpl _ =>
    (List.range s.mp.lines).any fun j ↦ sharedName (lineLogName s.mp.lines tmpl j)
  | .setLog _ _ (some name) _ => sharedName name
  | _ => false

theorem logStep_owned {s : LogSys} (h : s.Owned) {op : LogOp} (hn : op.opensShared s = false) :
    (logStep s op).Owned := by
  cases op with
  | logon cptr fopen => exact simSetLogon_owned h hn fopen
  | logoff => exact simSetLogoff_owned h
  | debon cptr fopen => exact simSetDebon_owned h hn fopen
  | deboff => exact simSetDeboff_owned h
  | masterLog tmpl fopen =>
    refine tmxrOpenMasterLog_owned h (fun j hj ↦ ?_) fopen
    simp only [LogOp.opensShared, List.any_eq_false, List.mem_range, Bool.not_eq_true] at hn
    exact hn j hj
  | masterNolog => exact tmxrOpenMasterNolog_owned h
  | setLog uptr val cptr fopen =>
    refine tmxrSetLog_owned h uptr val (fun name e ↦ ?_) fopen
    subst e
    exact hn
  | setNolog uptr val cptr => exact tmxrSetNolog_owned h uptr val cptr

/-! ## The multiplexer's calls leave the log handles -/

/-- `lp'` has `lp`'s log handle and log reference. -/
structure LogKept (lp lp' : Line) : Prop where
  txlog : lp'.txlog = lp.txlog
  txlogref : lp'.txlogref = lp.txlogref

section Kept

variable {lp lp' lp'' : Line}

theorem LogKept.refl (lp : Line) : LogKept lp lp :=
  ⟨rfl, rfl⟩

theorem LogKept.trans (h₁ : LogKept lp lp') (h₂ : LogKept lp' lp'') : LogKept lp lp'' :=
  ⟨h₂.txlog.trans h₁.txlog, h₂.txlogref.trans h₁.txlogref⟩

theorem TxFrame.logKept (h : TxFrame lp lp') : LogKept lp lp' := by
  rw [h]
  exact ⟨rfl, rfl⟩

theorem RxFrame.logKept (h : RxFrame lp lp') : LogKept lp lp' := by
  rw [h]
  exact ⟨rfl, rfl⟩

theorem tmxrResetLn_logKept (lp : Line) (w : SockWrite × SockWrite) :
    LogKept lp (tmxrResetLn lp w) := by
  have hf := (tmxrSendBufferedData_txFrame lp w.1 w.2).logKept
  unfold tmxrResetLn
  dsimp only
  split_ifs <;> exact ⟨hf.txlog, hf.txlogref⟩

theorem rxRewind_logKept (lp : Line) : LogKept lp (rxRewind lp) := by
  unfold rxRewind
  split_ifs <;> exact ⟨rfl, rfl⟩

theorem tmxrGetcLn_logKept (c : Consts) (lp : Line) : LogKept lp (tmxrGetcLn c lp).1 := by
  unfold tmxrGetcLn
  split_ifs
  · exact (⟨rfl, rfl⟩ : LogKept lp { lp with rxbpr := lp.rxbpr + 1 }).trans
      (rxRewind_logKept _)
  · exact rxRewind_logKept lp

theorem pollRxLn_logKept (c : Consts) (lp : Line) (rd : SockRead) (w : SockWrite × SockWrite)
    (dbg : Bool) : LogKept lp (pollRxLn c lp rd w dbg).1 := by
  unfold pollRxLn
  split_ifs
  · exact .refl lp
  rcases rxReadLen c lp with _ | n
  · exact .refl lp
  cases rd with
  | closed => exact tmxrResetLn_logKept lp w
  | data bs =>
    dsimp only
    split_ifs
    · exact .refl lp
    all_goals
      exact (⟨rfl, rfl⟩ : LogKept lp (rxAppend lp (bs.take n))).trans
        (filterLoop_frame _ lp.rxbpi).logKept

theorem connLine_logKept (c : Consts) (b : Nat) (lp : Line) (sock : Nat) (msg : List UInt8) :
    LogKept lp (connLine c b lp sock msg) :=
  have h := (connLine_txFrame c b lp sock msg).logKept
  ⟨h.txlog, h.txlogref⟩

end Kept

section MuxKept

variable {c : Consts}

theorem Tmxr.setLine_logKept (mp : Tmxr) {i : Nat} {lp : Line} (h : LogKept (mp.ldsc i) lp)
    (k : Nat) : LogKept (mp.ldsc k) ((mp.setLine i lp).ldsc k) := by
  by_cases hk : k = i
  · subst hk
    rw [Tmxr.setLine_ldsc_self]
    exact h
  · rw [Tmxr.setLine_ldsc_of_ne _ _ hk]
    exact .refl _

theorem tmxrPollTx_logKept (mp : Tmxr) (w : Nat → SockWrite × SockWrite) (k : Nat) :
    LogKept (mp.ldsc k) ((tmxrPollTx mp w).1.ldsc k) := by
  rw [tmxrPollTx_ldsc]
  split_ifs
  · exact (pollTxLn_txFrame _ _).logKept
  · exact .refl _

theorem tmxrPollConn_logKept (mp : Tmxr) (acc : Option Nat) (w : Nat → SockWrite × SockWrite)
    (k : Nat) : LogKept (mp.ldsc k) ((tmxrPollConn c mp acc w).1.ldsc k) := by
  unfold tmxrPollConn
  cases acc with
  | none => exact .refl _
  | some sock =>
    dsimp only
    split_ifs
    · exact .refl _
    · refine ((Tmxr.setLine_logKept _ (connLine_logKept ..) k).trans
        (tmxrPollTx_logKept _ w k)).trans (Tmxr.setLine_logKept _ ?_ k)
      exact ⟨rfl, rfl⟩

/-- No call of the library touches a line's log handle or log reference. -/
theorem muxStep_logKept (mp : Tmxr) (op : MuxOp) (k : Nat) :
    LogKept (mp.ldsc k) ((muxStep c mp op).ldsc k) := by
  cases op with
  | openMaster cmd msock =>
    unfold muxStep tmxrOpenMaster
    cases cmd <;> dsimp only <;> split_ifs <;> (try cases msock) <;>
      exact ⟨by simp [Tmxr.mapLines, apply_ite Line.txlog],
        by simp [Tmxr.mapLines, apply_ite Line.txlogref]⟩
  | closeMaster w =>
    show LogKept _ (if k < mp.lines then _ else _)
    split_ifs
    · exact (tmxrLinemsg_txFrame c _ _).logKept.trans (tmxrResetLn_logKept _ _)
    · exact .refl _
    · exact .refl _
  | pollConn acc w => exact tmxrPollConn_logKept mp acc w k
  | setRcve i b =>
    refine mp.setLine_logKept ?_ k
    exact ⟨rfl, rfl⟩
  | putc i chr => exact mp.setLine_logKept (tmxrPutcLn_txFrame c _ chr).logKept k
  | pollTx w => exact tmxrPollTx_logKept mp w k
  | pollRx env =>
    show LogKept _ (if k < mp.lines then _ else _)
    split_ifs
    · exact (pollRxLn_logKept c _ _ _ _).trans (rxRewind_logKept _)
    · exact .refl _
  | getc i => exact mp.setLine_logKept (tmxrGetcLn_logKept c _) k
  | resetLn i w => exact mp.setLine_logKept (tmxrResetLn_logKept _ w) k
  | dscln i w =>
    unfold muxStep tmxrDscln
    dsimp only
    split_ifs
    · exact mp.setLine_logKept
        ((tmxrLinemsg_txFrame c _ _).logKept.trans (tmxrResetLn_logKept _ w)) k
    · exact .refl _
    · exact .refl _

end MuxKept

/-! ## Runs -/

/-- Whether a step hands `sim_open_logfile` a name it reads as `LOG` or `DEBUG`. -/
def Op.opensShared (s : LogSys) : Op → Bool
  | .mux _ => false
  | .log op => op.opensShared s

theorem sysStep_owned {c : Consts} {s : LogSys} (h : s.Owned) {op : Op}
    (hn : op.opensShared s = false) : (sysStep c s op).Owned := by
  cases op with
  | mux op =>
    refine h.of_eq rfl rfl (fun sl ↦ ?_) fun sl _ ↦ ?_
    all_goals cases sl
    all_goals first | rfl | skip
    · exact (muxStep_logKept s.mp op _).txlogref
    · exact (muxStep_logKept s.mp op _).txlog
  | log op => exact logStep_owned h hn

/-- The states reached from `s₀` by the library's calls and log commands, none of which hands
`sim_open_logfile` the name `LOG` or `DEBUG`. -/
inductive UnsharedReachable (c : Consts) (s₀ : LogSys) : LogSys → Prop
  | init : UnsharedReachable c s₀ s₀
  | step {s : LogSys} {op : Op} : UnsharedReachable c s₀ s → op.opensShared s = false →
      UnsharedReachable c s₀ (sysStep c s op)

theorem init_ref (n : Nat) (ord : Option (List Int)) (dn : Option (List UInt8)) (sl : LogSlot) :
    (LogSys.init (Tmxr.init n ord dn)).ref sl = none := by
  cases sl <;> rfl

theorem UnsharedReachable.owned {c : Consts} {n : Nat} {ord : Option (List Int)}
    {dn : Option (List UInt8)} {s : LogSys}
    (hs : UnsharedReachable c (LogSys.init (Tmxr.init n ord dn)) s) : s.Owned := by
  induction hs with
  | init =>
    refine ⟨fun sl a h ↦ ?_, fun sl _ a h _ ↦ ?_, fun a r h ↦ ?_, fun _ _ ↦ rfl⟩
    all_goals first | rw [init_ref] at h | skip
    all_goals cases h
  | step _ hn ih => exact sysStep_owned ih hn

/-- Along every run from a multiplexer as a device declares it, through the library's calls and
the log commands, in which no log command names `LOG` or `DEBUG`, every log file reference has
one owner: each slot's reference is allocated, counted once and holds the slot's file, no two
slots hold one, and every allocated reference is held; and no call of the library made next
touches a line's log handle or reference. -/
theorem unsharedReachable_owned {c : Consts} {n : Nat} {ord : Option (List Int)}
    {dn : Option (List UInt8)} {s : LogSys}
    (hs : UnsharedReachable c (LogSys.init (Tmxr.init n ord dn)) s) :
    s.Owned ∧ ∀ op k, LogKept (s.mp.ldsc k) ((muxStep c s.mp op).ldsc k) :=
  ⟨hs.owned, muxStep_logKept s.mp⟩

/-- A two-line multiplexer: `SET LOG sim.log`, then `LOG=ln` on its lines, a character put on
line 0, and `NOLOG` on line 1. -/
def twoLogged : LogSys :=
  let c := sampleConsts
  let s₀ := LogSys.init (Tmxr.init 2 none none)
  let s₁ := sysStep c s₀ (.log (.logon "sim.log" (some (.file 1))))
  let s₂ := sysStep c s₁ (.log (.masterLog "ln" fun i ↦ some (.file (i + 2))))
  let s₃ := sysStep c s₂ (.mux (.putc 0 0x41))
  sysStep c s₃ (.log (.setNolog .null 1 none))

theorem twoLogged_owned :
    UnsharedReachable sampleConsts (LogSys.init (Tmxr.init 2 none none)) twoLogged ∧
      twoLogged.Owned ∧
      ∀ op k, LogKept (twoLogged.mp.ldsc k) ((muxStep sampleConsts twoLogged.mp op).ldsc k) :=
  have hs : UnsharedReachable sampleConsts (LogSys.init (Tmxr.init 2 none none)) twoLogged := by
    dsimp only [twoLogged]
    exact .step (.step (.step (.step .init (by decide)) (by decide)) (by decide)) (by decide)
  ⟨hs, unsharedReachable_owned hs⟩

/-- The log holds reference 1, line 0 holds reference 2, and line 1's reference 3 is freed. -/
example : twoLogged.simLogRef = some 1 ∧ (twoLogged.mp.ldsc 0).txlogref = some 2 ∧
    (twoLogged.mp.ldsc 1).txlogref = none ∧ twoLogged.heap 3 = none := by
  decide

end TelnetMux
