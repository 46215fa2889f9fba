import TelnetMux.Filter
import TelnetMux.Transport

/-!
# What the receive filter makes of a Telnet stream

The transmit side encodes a character with `stuff`, doubling an IAC; a conforming peer that
strips CR padding (`dstb` set) also sends a NUL after each CR. Three results on the stream
function `tnFilter`, each carried to the loop of `tmxr_poll_rx` over its buffer by
`filterLoop_spec`:

* the encoder and the filter agree on the whole byte alphabet: what `tmxr_putc_ln` queues for
  the characters it accepts, and the NVT form of any byte sequence, are filtered back to the
  characters, every break flag clear, ending in `TNS_NORM`;
* an IAC followed by a byte the inner `switch` of `TNS_IAC` has no case for leaves the filter
  in `TNS_IAC`, where every further byte without a case is removed as well: the filter drops
  user data until a command byte comes;
* any peer's stream without IAC is delivered as it is in binary mode and, outside it, with the
  LF or NUL after each CR removed (`crCanon`): a client's `CR LF` and `CR NUL` are one CR.

Option negotiation, where `dstb` changes, is not part of the encoded form.
-/

namespace TelnetMux

/-! ## The encoder and the filter agree -/

/-- The bytes a conforming peer sends for the character `x`: `x` with an IAC doubled, as
`tmxr_putc_ln` queues it, and a NUL after a CR when the receiver strips CR padding. -/
def nvtStuff (d : Bool) (x : UInt8) : List UInt8 :=
  stuff x ++ if x = tnCr ∧ d = true then [tnNul] else []

/-- One encoded character is filtered back to itself, from and to `TNS_NORM`. -/
theorem tnFilter_nvtStuff (d : Bool) (x : UInt8) :
    tnFilter (.norm, d) (nvtStuff d x) = ([(x, false)], (.norm, d)) := by
  by_cases hi : x = tnIac
  · subst hi
    have hcr : ¬(tnIac = tnCr ∧ d = true) := fun h ↦ absurd h.1 (by decide)
    simp [nvtStuff, stuff, hcr, tnFilter_cons, tnByte, tnNorm]
  by_cases hc : x = tnCr ∧ d = true
  · obtain ⟨rfl, rfl⟩ := hc
    rfl
  · simp [nvtStuff, stuff, hi, hc, tnFilter_cons, tnByte, tnNorm]

/-- The encoded form of a byte sequence is filtered back to the sequence, break flags clear,
and leaves the filter in `TNS_NORM` with `dstb` as it was. -/
theorem tnFilter_encode (d : Bool) (U : List UInt8) :
    tnFilter (.norm, d) (U.flatMap (nvtStuff d)) = (U.map (·, false), (.norm, d)) := by
  induction U with
  | nil => rfl
  | cons x U ih =>
    rw [List.flatMap_cons, tnFilter_append, tnFilter_nvtStuff, ih]
    rfl

/-- The bytes `xs` were read into the buffer at `j`, break flags clear, and nothing after. -/
def Received (lp : Line) (j : Nat) (xs : List UInt8) : Prop :=
  lp.rxbpi = j + xs.length ∧ rxSeg lp j xs.length = xs.map (·, false)

/-- The filter loop of `tmxr_poll_rx`, run from `j`, leaves exactly `U` there, each break flag
clear, and ends in `TNS_NORM` with `dstb` as it was. -/
def FiltersTo (lp : Line) (j : Nat) (U : List UInt8) : Prop :=
  rxSeg (filterLoop lp j).1 j U.length = U.map (·, false) ∧
    (filterLoop lp j).1.rxbpi = j + U.length ∧ (filterLoop lp j).1.tsta = .norm ∧
    (filterLoop lp j).1.dstb = lp.dstb

/-- The loop, run from `TNS_NORM` over the encoded form of `U`, gives back `U`. -/
theorem filterLoop_encoded (lp : Line) (j : Nat) (U : List UInt8) (hst : lp.tsta = .norm)
    (hrx : Received lp j (U.flatMap (nvtStuff lp.dstb))) : FiltersTo lp j U := by
  obtain ⟨hout, hend, hstate, -⟩ := filterLoop_spec lp j _ hrx.1 hrx.2
  rw [hst, tnFilter_encode] at hout hend hstate
  simp only [List.length_map, Prod.mk.injEq] at hout hend hstate
  exact ⟨hout, hend, hstate.1, hstate.2⟩

/-- Without CR padding the encoded form of a character is the one `tmxr_putc_ln` queues. -/
theorem nvtStuff_false : nvtStuff false = stuff := by
  funext x
  simp [nvtStuff]

/-- A connected line with room for four bytes. -/
def roomyLine : Line :=
  { Line.zero with conn := 1, rcve := true, txbsz := 5 }

/-- The bytes `0xFF 0xFF 0x0D 0x00` received at 0 by a line that strips CR padding: the
encoded form of `0xFF 0x0D`. -/
def paddedCrLine : Line :=
  { Line.zero with rxb := fun i ↦ [0xFF, 0xFF, 0x0D, 0x00].getD i 0, rxbpi := 4, dstb := true }

/-- The two characters are accepted, the IAC doubled. -/
example : txRing (txRun sampleConsts roomyLine ([0xFF, 0x0D].map .putc)).1 = [0xFF, 0xFF, 0x0D] := by
  decide

/-! ## A command byte without a case -/

/-- A byte the `TNS_IAC` state has no case for: neither IAC nor BRK, and none of the bytes of
the inner `switch`. As the `switch` lists every byte from 0xF0 up, these are the bytes below. -/
def NoIacCase (x : UInt8) : Prop :=
  x ≠ tnIac ∧ x ≠ tnBrk ∧ iacNext x = .iac

instance (x : UInt8) : Decidable (NoIacCase x) :=
  inferInstanceAs (Decidable (_ ∧ _ ∧ _))

/-- In `TNS_IAC`, a byte without a case is removed and the state stays. -/
theorem tnByte_iac_noCase (d : Bool) {y : UInt8} (hy : NoIacCase y) :
    tnByte (.iac, d) y = (none, .iac, d) := by
  obtain ⟨hi, hb, hn⟩ := hy
  simp [tnByte, hi, hb, hn]

/-- In `TNS_IAC`, a run of bytes without a case is removed whole and the state stays. -/
theorem tnFilter_iac_run (d : Bool) (ys : List UInt8) (hys : ∀ y ∈ ys, NoIacCase y) :
    tnFilter (.iac, d) ys = ([], (.iac, d)) := by
  induction ys with
  | nil => rfl
  | cons y ys ih =>
    rw [tnFilter_cons, tnByte_iac_noCase d (hys y (List.mem_cons_self y ys)),
      ih fun z hz ↦ hys z (List.mem_cons_of_mem y hz)]
    rfl

/-- The loop of `tmxr_poll_rx`, run from `TNS_NORM` over an IAC, a byte without a case and any
run `ys` of such bytes received at `j`, removes all of them and ends in `TNS_IAC`, where the
next poll goes on removing: no byte of `ys` is delivered, though none is an IAC, a command, an
option or padding. -/
theorem filterLoop_iac_swallows (lp : Line) (j : Nat) (x : UInt8) (ys : List UInt8)
    (hx : NoIacCase x) (hys : ∀ y ∈ ys, NoIacCase y) (hst : lp.tsta = .norm)
    (hpi : lp.rxbpi = j + (tnIac :: x :: ys).length)
    (hseg : rxSeg lp j (tnIac :: x :: ys).length = (tnIac :: x :: ys).map (·, false)) :
    (filterLoop lp j).1.rxbpi = j ∧ (filterLoop lp j).1.tsta = .iac := by
  have hiac : tnByte (.norm, lp.dstb) tnIac = (none, .iac, lp.dstb) := rfl
  have hrun : tnFilter (.norm, lp.dstb) (tnIac :: x :: ys) = ([], (.iac, lp.dstb)) := by
    rw [tnFilter_cons, hiac, tnFilter_cons, tnByte_iac_noCase _ hx, tnFilter_iac_run _ ys hys]
    rfl
  obtain ⟨-, hend, hstate, -⟩ := filterLoop_spec lp j _ hpi hseg
  rw [hst, hrun] at hend hstate
  exact ⟨hend, congrArg Prod.fst hstate⟩

/-- `IAC 'A' 'B'` received at 0 by a line in `TNS_NORM`. -/
def iacLetterLine : Line :=
  { Line.zero with rxb := fun i ↦ [0xFF, 0x41, 0x42].getD i 0, rxbpi := 3 }

theorem iacLetterLine_swallowed :
    (filterLoop iacLetterLine 0).1.rxbpi = 0 ∧ (filterLoop iacLetterLine 0).1.tsta = .iac :=
  filterLoop_iac_swallows iacLetterLine 0 0x41 [0x42] (by decide) (by decide) rfl rfl (by decide)

/-! ## CR padding from any peer -/

/-- What an option-free stream from a Telnet peer is as characters: outside binary mode
(`dstb` set) the LF or NUL that follows a CR is padding and goes; in binary mode every byte is a
character. -/
def crCanon : Bool → List UInt8 → List UInt8
  | true, x :: y :: rest =>
    if x = tnCr ∧ (y = tnLf ∨ y = tnNul) then x :: crCanon true rest
    else x :: crCanon true (y :: rest)
  | _, xs => xs

/-- In `TNS_NORM`, a byte other than IAC is delivered; a CR outside binary mode moves to
`TNS_CRPAD`. -/
theorem tnByte_norm (d : Bool) {x : UInt8} (hx : x ≠ tnIac) :
    tnByte (.norm, d) x =
      (some (x, false), if x = tnCr ∧ d = true then .crpad else .norm, d) := by
  simp only [tnByte, tnNorm, if_neg hx]
  split_ifs <;> rfl

/-- After a CR, a byte that is not padding is read as in `TNS_NORM`. -/
theorem tnFilter_crpad_of_not_pad (d : Bool) {y : UInt8} (hy : ¬(y = tnLf ∨ y = tnNul))
    (ys : List UInt8) : tnFilter (.crpad, d) (y :: ys) = tnFilter (.norm, d) (y :: ys) := by
  rw [tnFilter_cons, tnFilter_cons]
  simp only [tnByte, if_neg hy]

/-- In binary mode, a stream with no IAC is delivered as it is. -/
theorem tnFilter_binary (xs : List UInt8) (h : tnIac ∉ xs) :
    tnFilter (.norm, false) xs = (xs.map (·, false), .norm, false) := by
  induction xs with
  | nil => rfl
  | cons x xs ih =>
    have hx : x ≠ tnIac := fun e ↦ h (e ▸ List.mem_cons_self x xs)
    rw [tnFilter_cons, tnByte_norm false hx]
    simp only [Bool.false_eq_true, and_false, if_false]
    rw [ih fun e ↦ h (List.mem_cons_of_mem x e)]
    rfl

/-- Outside binary mode, a stream with no IAC is delivered with its CR padding removed, and the
filter waits in `TNS_CRPAD` exactly when the stream ends with a CR. -/
theorem tnFilter_stripped : ∀ xs : List UInt8, tnIac ∉ xs →
    tnFilter (.norm, true) xs =
      ((crCanon true xs).map (·, false), if xs.getLast? = some tnCr then .crpad else .norm, true)
  | [], _ => rfl
  | [x], h => by
    rw [tnFilter_cons, tnByte_norm true fun e ↦ h (e ▸ List.mem_singleton_self x),
      List.getLast?_singleton]
    simp [crCanon]
  | x :: y :: rest, h => by
    have hx : x ≠ tnIac := fun e ↦ h (e ▸ List.mem_cons_self _ _)
    have hrest : tnIac ∉ rest := fun e ↦ h (List.mem_cons_of_mem _ (List.mem_cons_of_mem _ e))
    rw [tnFilter_cons, List.getLast?_cons_cons]
    by_cases hpad : x = tnCr ∧ (y = tnLf ∨ y = tnNul)
    · obtain ⟨rfl, hy⟩ := hpad
      have hpy : tnByte (.crpad, true) y = (none, .norm, true) := by simp [tnByte, hy]
      have hlast : (y :: rest).getLast? = some tnCr ↔ rest.getLast? = some tnCr := by
        cases rest with
        | nil =>
          simp only [List.getLast?_singleton, Option.some.injEq, List.getLast?_nil]
          rcases hy with rfl | rfl <;> decide
        | cons z rest => rw [List.getLast?_cons_cons]
      rw [show tnByte (.norm, true) tnCr = (some (tnCr, false), .crpad, true) from rfl,
        tnFilter_cons, hpy, tnFilter_stripped rest hrest, crCanon,
        if_pos (show tnCr = tnCr ∧ (y = tnLf ∨ y = tnNul) from ⟨rfl, hy⟩)]
      simp [hlast]
    · have hnext : tnFilter (tnByte (.norm, true) x).2 (y :: rest) =
          tnFilter (.norm, true) (y :: rest) := by
        rw [tnByte_norm true hx]
        split_ifs with hc
        · exact tnFilter_crpad_of_not_pad true (fun hy ↦ hpad ⟨hc.1, hy⟩) rest
        · rfl
      rw [hnext, tnFilter_stripped (y :: rest) (fun e ↦ h (List.mem_cons_of_mem _ e)), crCanon,
        if_neg hpad, tnByte_norm true hx]
      simp

/-- The loop of `tmxr_poll_rx`, run from `TNS_NORM` over bytes `xs` with no IAC received at `j`:
outside binary mode it leaves `xs` with the LF or NUL after each CR removed, every break flag
clear, and waits in `TNS_CRPAD` when `xs` ends with a CR; in binary mode it leaves `xs` as it
is. -/
theorem filterLoop_crCanon (lp : Line) (j : Nat) (xs : List UInt8) (hst : lp.tsta = .norm)
    (hiac : tnIac ∉ xs) (hpi : lp.rxbpi = j + xs.length)
    (hseg : rxSeg lp j xs.length = xs.map (·, false)) :
    rxSeg (filterLoop lp j).1 j (crCanon lp.dstb xs).length =
        (crCanon lp.dstb xs).map (·, false) ∧
      (filterLoop lp j).1.rxbpi = j + (crCanon lp.dstb xs).length ∧
      (filterLoop lp j).1.tsta =
        (if lp.dstb = true ∧ xs.getLast? = some tnCr then .crpad else .norm) ∧
      (filterLoop lp j).1.dstb = lp.dstb := by
  have hf : tnFilter (.norm, lp.dstb) xs = ((crCanon lp.dstb xs).map (·, false),
      if lp.dstb = true ∧ xs.getLast? = some tnCr then .crpad else .norm, lp.dstb) := by
    cases hd : lp.dstb
    · rw [tnFilter_binary xs hiac]
      simp [crCanon]
    · rw [tnFilter_stripped xs hiac]
      simp
  obtain ⟨hout, hend, hstate, -⟩ := filterLoop_spec lp j xs hpi hseg
  rw [hst, hf] at hout hend hstate
  simp only [List.length_map, Prod.mk.injEq] at hout hend hstate
  exact ⟨hout, hend, hstate.1, hstate.2⟩

/-- `A CR LF B CR NUL CR`, as a peer's client sends line ends. -/
def crLfBytes : List UInt8 :=
  [0x41, 0x0D, 0x0A, 0x42, 0x0D, 0x00, 0x0D]

/-- `crLfBytes` received at 0 by a line that strips CR padding. -/
def crLfLine : Line :=
  { Line.zero with rxb := fun i ↦ crLfBytes.getD i 0, rxbpi := 7, dstb := true }

theorem crLfLine_stripped :
    rxSeg (filterLoop crLfLine 0).1 0 (crCanon true crLfBytes).length =
        (crCanon true crLfBytes).map (·, false) ∧
      (filterLoop crLfLine 0).1.rxbpi = 0 + (crCanon true crLfBytes).length ∧
      (filterLoop crLfLine 0).1.tsta =
        (if true = true ∧ crLfBytes.getLast? = some tnCr then .crpad else .norm) ∧
      (filterLoop crLfLine 0).1.dstb = true :=
  filterLoop_crCanon crLfLine 0 crLfBytes rfl (by decide) rfl (by decide)

/-- The CR of each pair stays, the padding goes, and the last CR waits for what follows. -/
example : crCanon true crLfBytes = [0x41, 0x0D, 0x42, 0x0D, 0x0D] := by
  decide

end TelnetMux
