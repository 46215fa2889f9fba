import Mathlib.Data.List.GetD
import TelnetMux.Receive

/-!
# The receive filter as a stream function

`tnByte` reads the `switch (lp->tsta)` of `tmxr_poll_rx` as a transducer on one byte: what
it delivers (a byte and its break flag), and the next Telnet state and `dstb`. `tnFilter` is
its left fold over a byte stream. This module proves that the in-place loop over the buffer
computes exactly that fold: the kept bytes land contiguously from where the new data began,
with their break flags, whatever the loop removed with `tmxr_rmvrc` and however often it
re-examined a byte after `TNS_CRPAD`.
-/

namespace TelnetMux

/-- `TNS_NORM` on one byte: an IAC starts a command, a CR with `dstb` set may be followed by
padding, anything else is data. -/
def tnNorm (d : Bool) (x : UInt8) : Option (UInt8 × Bool) × Tns × Bool :=
  if x = tnIac then (none, .iac, d)
  else if x = tnCr ∧ d = true then (some (x, false), .crpad, d)
  else (some (x, false), .norm, d)

/-- One byte through the receive filter, from a state and `dstb`: the character delivered, if
any, with its break flag, and the next state and `dstb`. After a CR, a byte other than LF or
NUL is read as in `TNS_NORM`. -/
def tnByte : Tns × Bool → UInt8 → Option (UInt8 × Bool) × Tns × Bool
  | (.norm, d), x => tnNorm d x
  | (.iac, d), x =>
    if x = tnIac then (some (x, false), .norm, d)
    else if x = tnBrk then (some (0, true), .norm, d)
    else (none, iacNext x, d)
  | (.will, d), x => (none, .norm, if x = tnBin then false else d)
  | (.wont, d), x => (none, .norm, if x = tnBin then true else d)
  | (.crpad, d), x => if x = tnLf ∨ x = tnNul then (none, .norm, d) else tnNorm d x
  | (.doReq, d), _ | (.dontReq, d), _ | (.skip, d), _ => (none, .norm, d)

/-- The fold step: append what one byte delivers, move to its next state. -/
def tnFilterStep (acc : List (UInt8 × Bool) × Tns × Bool) (x : UInt8) :
    List (UInt8 × Bool) × Tns × Bool :=
  (acc.1 ++ (tnByte acc.2 x).1.toList, (tnByte acc.2 x).2)

/-- The filter over a stream, from a state and `dstb`: the characters delivered, and the final
state and `dstb`. -/
def tnFilter (st : Tns × Bool) (xs : List UInt8) : List (UInt8 × Bool) × Tns × Bool :=
  xs.foldl tnFilterStep ([], st)

theorem foldl_tnFilterStep (out : List (UInt8 × Bool)) (st : Tns × Bool) (xs : List UInt8) :
    xs.foldl tnFilterStep (out, st) = (out ++ (tnFilter st xs).1, (tnFilter st xs).2) := by
  induction xs generalizing out st with
  | nil => simp [tnFilter]
  | cons x xs ih =>
    show xs.foldl _ (tnFilterStep (out, st) x) =
      (out ++ (xs.foldl _ (tnFilterStep ([], st) x)).1, (xs.foldl _ (tnFilterStep ([], st) x)).2)
    simp only [tnFilterStep, ih]
    simp

@[simp] theorem tnFilter_nil (st : Tns × Bool) : tnFilter st [] = ([], st) := rfl

theorem tnFilter_cons (st : Tns × Bool) (x : UInt8) (xs : List UInt8) :
    tnFilter st (x :: xs) =
      ((tnByte st x).1.toList ++ (tnFilter (tnByte st x).2 xs).1,
        (tnFilter (tnByte st x).2 xs).2) := by
  simp only [tnFilter, List.foldl_cons, tnFilterStep, List.nil_append]
  exact foldl_tnFilterStep _ _ xs

theorem tnFilter_append (st : Tns × Bool) (xs ys : List UInt8) :
    tnFilter st (xs ++ ys) =
      ((tnFilter st xs).1 ++ (tnFilter (tnFilter st xs).2 ys).1,
        (tnFilter (tnFilter st xs).2 ys).2) := by
  simp only [tnFilter, List.foldl_append]
  exact foldl_tnFilterStep _ _ ys

/-- A byte after a CR that is not padding is filtered as if the CR state had not been. -/
theorem tnByte_crpad {d : Bool} {x : UInt8} (h : ¬(x = tnLf ∨ x = tnNul)) :
    tnByte (.crpad, d) x = tnByte (.norm, d) x := by
  simp [tnByte, h]

/-! ## Buffer segments -/

/-- The `n` buffer entries from index `a`, each with its break flag. -/
def rxSeg (lp : Line) (a n : Nat) : List (UInt8 × Bool) :=
  (List.range n).map fun k ↦ (lp.rxb (a + k), lp.rbr (a + k))

/-- The characters waiting in the receive buffer, `rxb[rxbpr..rxbpi)`. -/
def rxPending (lp : Line) : List (UInt8 × Bool) :=
  rxSeg lp lp.rxbpr (lp.rxbpi - lp.rxbpr)

@[simp] theorem rxSeg_zero (lp : Line) (a : Nat) : rxSeg lp a 0 = [] := rfl

@[simp] theorem rxSeg_one (lp : Line) (a : Nat) : rxSeg lp a 1 = [(lp.rxb a, lp.rbr a)] := rfl

@[simp] theorem length_rxSeg (lp : Line) (a n : Nat) : (rxSeg lp a n).length = n := by
  simp [rxSeg]

theorem rxSeg_succ (lp : Line) (a n : Nat) :
    rxSeg lp a (n + 1) = (lp.rxb a, lp.rbr a) :: rxSeg lp (a + 1) n := by
  simp only [rxSeg, List.range_succ_eq_map, List.map_cons, List.map_map]
  simp [Function.comp_def, Nat.add_assoc, Nat.add_comm 1]

theorem rxSeg_add (lp : Line) (a m n : Nat) :
    rxSeg lp a (m + n) = rxSeg lp a m ++ rxSeg lp (a + m) n := by
  simp only [rxSeg, List.range_add, List.map_append, List.map_map]
  simp [Function.comp_def, Nat.add_assoc]

/-- A segment depends only on the entries it covers. -/
theorem rxSeg_congr {lp lp' : Line} {a n : Nat}
    (h : ∀ k < n, lp'.rxb (a + k) = lp.rxb (a + k) ∧ lp'.rbr (a + k) = lp.rbr (a + k)) :
    rxSeg lp' a n = rxSeg lp a n := by
  refine List.map_congr_left fun k hk ↦ ?_
  obtain ⟨h₁, h₂⟩ := h k (List.mem_range.1 hk)
  rw [h₁, h₂]

/-! ## One pass of the loop -/

theorem shiftDown_apply {α : Type} (f : Nat → α) (p k i : Nat) :
    shiftDown f p k i = if p ≤ i ∧ i < p + k then f (i + 1) else f i := by
  induction k generalizing f p with
  | zero => simp only [shiftDown]; rw [if_neg]; omega
  | succ k ih =>
    rw [shiftDown, ih]
    simp only [Function.update_apply]
    split_ifs <;> first | rfl | omega | (subst_vars; rfl)

/-- `tmxr_rmvrc` leaves the entries below the removed position alone. -/
theorem tmxrRmvrc_below {lp : Line} {p i : Nat} (h : i < p) :
    (tmxrRmvrc lp p).rxb i = lp.rxb i ∧ (tmxrRmvrc lp p).rbr i = lp.rbr i := by
  simp only [tmxrRmvrc, shiftDown_apply]
  constructor <;> (rw [if_neg]; omega)

/-- After `tmxr_rmvrc` at `p`, the entries from `p` are those that followed `p`. -/
theorem rxSeg_tmxrRmvrc {lp : Line} {p n : Nat} (h : p + n < lp.rxbpi) :
    rxSeg (tmxrRmvrc lp p) p n = rxSeg lp (p + 1) n := by
  refine List.map_congr_left fun k hk ↦ ?_
  have hk := List.mem_range.1 hk
  simp only [tmxrRmvrc, shiftDown_apply]
  rw [if_pos ⟨by omega, by omega⟩, if_pos ⟨by omega, by omega⟩, Nat.add_right_comm]

/-- What the filter loop may change of a line: the buffer, its end, the state and `dstb`. -/
def RxFrame (lp lp' : Line) : Prop :=
  lp' = { lp with
    rxb := lp'.rxb
    rbr := lp'.rbr
    rxbpi := lp'.rxbpi
    tsta := lp'.tsta
    dstb := lp'.dstb }

theorem RxFrame.refl (lp : Line) : RxFrame lp lp := rfl

theorem RxFrame.trans {lp₁ lp₂ lp₃ : Line} (h₁ : RxFrame lp₁ lp₂) (h₂ : RxFrame lp₂ lp₃) :
    RxFrame lp₁ lp₃ := by
  unfold RxFrame at *
  rw [h₂]; rw [h₁]

theorem filterStep_frame (lp : Line) (j : Nat) : RxFrame lp (filterStep lp j).1 := by
  unfold filterStep tmxrRmvrc
  cases lp.tsta <;> simp only <;> (try split_ifs) <;> rfl

section Pass

variable {lp lp' : Line} {j : Nat} {x : UInt8} {xs : List UInt8}

/-- What a pass that consumed a byte at `j` leaves: its output `out` written from `j`, the
rest `xs` of the new bytes, flags clear, right after it, and the entries below `j` untouched. -/
def Consumed (lp lp' : Line) (j j' : Nat) (out : List (UInt8 × Bool)) (xs : List UInt8) :
    Prop :=
  j' = j + out.length ∧ rxSeg lp' j out.length = out ∧ lp'.rxbpi = j' + xs.length ∧
    rxSeg lp' j' xs.length = xs.map (·, false) ∧
    ∀ i < j, lp'.rxb i = lp.rxb i ∧ lp'.rbr i = lp.rbr i

theorem consumed_keep (hpi : lp.rxbpi = j + 1 + xs.length) (hx : lp.rxb j = x)
    (hf : lp.rbr j = false) (hxs : rxSeg lp (j + 1) xs.length = xs.map (·, false))
    (hb : lp'.rxb = lp.rxb) (hr : lp'.rbr = lp.rbr) (hn : lp'.rxbpi = lp.rxbpi) :
    Consumed lp lp' j (j + 1) [(x, false)] xs := by
  refine ⟨rfl, ?_, by rw [hn, hpi], ?_, fun i _ ↦ ⟨by rw [hb], by rw [hr]⟩⟩
  · simp [hb, hr, hx, hf]
  · rw [← hxs]; exact rxSeg_congr fun k _ ↦ ⟨by rw [hb], by rw [hr]⟩

theorem consumed_brk (hpi : lp.rxbpi = j + 1 + xs.length)
    (hxs : rxSeg lp (j + 1) xs.length = xs.map (·, false))
    (hb : lp'.rxb = Function.update lp.rxb j 0) (hr : lp'.rbr = Function.update lp.rbr j true)
    (hn : lp'.rxbpi = lp.rxbpi) :
    Consumed lp lp' j (j + 1) [(0, true)] xs := by
  refine ⟨rfl, ?_, by rw [hn, hpi], ?_, fun i hi ↦ ?_⟩
  · simp [hb, hr]
  · rw [← hxs]
    exact rxSeg_congr fun k _ ↦ by
      rw [hb, hr, Function.update_noteq (by omega), Function.update_noteq (by omega)]
      exact ⟨rfl, rfl⟩
  · rw [hb, hr, Function.update_noteq (by omega), Function.update_noteq (by omega)]
    exact ⟨rfl, rfl⟩

theorem consumed_rmvrc (hpi : lp.rxbpi = j + 1 + xs.length)
    (hxs : rxSeg lp (j + 1) xs.length = xs.map (·, false))
    (hb : lp'.rxb = lp.rxb) (hr : lp'.rbr = lp.rbr) (hn : lp'.rxbpi = lp.rxbpi) :
    Consumed lp (tmxrRmvrc lp' j) j j [] xs := by
  refine ⟨rfl, rfl, by simp only [tmxrRmvrc, hn, hpi]; omega, ?_, fun i hi ↦ ?_⟩
  · rw [rxSeg_tmxrRmvrc (by omega), ← hxs]
    exact rxSeg_congr fun k _ ↦ ⟨by rw [hb], by rw [hr]⟩
  · rw [(tmxrRmvrc_below hi).1, (tmxrRmvrc_below hi).2, hb, hr]
    exact ⟨rfl, rfl⟩

/-- A pass that does not merely leave `TNS_CRPAD` consumes the byte at `j` exactly as
`tnByte` says: its output is written at `j` and the state moves to `tnByte`'s. -/
theorem filterStep_consume (hpi : lp.rxbpi = j + 1 + xs.length) (hx : lp.rxb j = x)
    (hf : lp.rbr j = false) (hxs : rxSeg lp (j + 1) xs.length = xs.map (·, false))
    (hc : ¬(lp.tsta = .crpad ∧ ¬(x = tnLf ∨ x = tnNul))) :
    Consumed lp (filterStep lp j).1 j (filterStep lp j).2
        (tnByte (lp.tsta, lp.dstb) x).1.toList xs ∧
      ((filterStep lp j).1.tsta, (filterStep lp j).1.dstb) = (tnByte (lp.tsta, lp.dstb) x).2 := by
  unfold filterStep
  rw [hx]
  cases h : lp.tsta <;> simp only [h, tnByte, tnNorm] at hc ⊢
  case norm | iac =>
    split_ifs <;> first
      | exact ⟨consumed_rmvrc hpi hxs rfl rfl rfl, rfl⟩
      | exact ⟨consumed_brk hpi hxs rfl rfl rfl, rfl⟩
      | exact ⟨consumed_keep hpi hx hf hxs rfl rfl rfl, by simp [h]⟩
  case crpad =>
    have hpad : x = tnLf ∨ x = tnNul := not_not.1 fun hn ↦ hc ⟨trivial, hn⟩
    rw [if_pos hpad, if_pos hpad]
    exact ⟨consumed_rmvrc hpi hxs rfl rfl rfl, rfl⟩
  all_goals
    (try split_ifs) <;> exact ⟨consumed_rmvrc hpi hxs rfl rfl rfl, rfl⟩

end Pass

/-! ## The loop -/

/-- Leaving `TNS_CRPAD` without consuming changes nothing but the state. -/
theorem filterStep_crpad {lp : Line} {j : Nat} (h : lp.tsta = .crpad)
    (hx : ¬(lp.rxb j = tnLf ∨ lp.rxb j = tnNul)) :
    filterStep lp j = ({ lp with tsta := .norm }, j) := by
  unfold filterStep
  simp only [h]
  rw [if_neg hx]

theorem filterLoop_frame (lp : Line) (j : Nat) : RxFrame lp (filterLoop lp j).1 := by
  induction lp, j using filterLoop.induct with
  | case1 lp j h ih => rw [filterLoop_fst_of_lt h]; exact (filterStep_frame lp j).trans ih
  | case2 lp j h => rw [filterLoop, dif_neg h]; exact RxFrame.refl lp

/-- The filter loop, run from `j` over new bytes `xs` whose break flags are clear, writes the
output of `tnFilter` from `j` and ends in its state; the entries below `j` are untouched. -/
theorem filterLoop_spec (lp : Line) (j : Nat) (xs : List UInt8)
    (hpi : lp.rxbpi = j + xs.length) (hxs : rxSeg lp j xs.length = xs.map (·, false)) :
    rxSeg (filterLoop lp j).1 j (tnFilter (lp.tsta, lp.dstb) xs).1.length =
        (tnFilter (lp.tsta, lp.dstb) xs).1 ∧
      (filterLoop lp j).1.rxbpi = j + (tnFilter (lp.tsta, lp.dstb) xs).1.length ∧
      ((filterLoop lp j).1.tsta, (filterLoop lp j).1.dstb) = (tnFilter (lp.tsta, lp.dstb) xs).2 ∧
      ∀ i < j, (filterLoop lp j).1.rxb i = lp.rxb i ∧ (filterLoop lp j).1.rbr i = lp.rbr i := by
  induction lp, j using filterLoop.induct generalizing xs with
  | case2 lp j h =>
    obtain rfl : xs = [] := List.eq_nil_of_length_eq_zero (by omega)
    rw [filterLoop, dif_neg h]
    exact ⟨rfl, by simpa using hpi, rfl, fun _ _ ↦ ⟨rfl, rfl⟩⟩
  | case1 lp j h ih =>
    obtain ⟨x, xs, rfl⟩ := List.exists_cons_of_length_pos (show 0 < xs.length by omega)
    rw [List.length_cons, rxSeg_succ, List.map_cons, List.cons.injEq, Prod.mk.injEq] at hxs
    obtain ⟨⟨hx, hf⟩, hxs⟩ := hxs
    rw [filterLoop_fst_of_lt h]
    by_cases hc : lp.tsta = .crpad ∧ ¬(x = tnLf ∨ x = tnNul)
    · have hstep := filterStep_crpad hc.1 (hx ▸ hc.2)
      have hpre := ih (x :: xs) (by rw [hstep]; exact hpi)
        (by rw [hstep, List.length_cons, rxSeg_succ]; exact congrArg₂ _ (by rw [hx, hf]) hxs)
      rw [hstep] at hpre ⊢
      rwa [tnFilter_cons, hc.1, tnByte_crpad hc.2, ← tnFilter_cons]
    · obtain ⟨⟨hj, hout, hpi', hxs', hbelow⟩, hst⟩ :=
        filterStep_consume (by simpa [Nat.add_right_comm] using hpi) hx hf hxs hc
      obtain ⟨hseg, hpi'', hst', hbelow'⟩ := ih xs hpi' hxs'
      rw [hst] at hseg hpi'' hst'
      rw [tnFilter_cons, List.length_append, rxSeg_add, ← hj, hseg]
      refine ⟨congrArg (· ++ _) ?_, by rw [hpi'', hj, Nat.add_assoc], hst', fun i hi ↦ ?_⟩
      · exact (rxSeg_congr fun k hk ↦ hbelow' _ (by omega)).trans hout
      · obtain ⟨h₁, h₂⟩ := hbelow' i (by omega)
        rw [h₁, h₂]
        exact hbelow i hi

end TelnetMux
