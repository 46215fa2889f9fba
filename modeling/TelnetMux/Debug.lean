import TelnetMux.Connect

/-!
# The debug dump of a line's traffic

`tmxr_debug` renders a buffer of Telnet traffic into the static buffer `tmxr_debug_buf`: each
byte that `tn_chars` names is written as its name between underscores, `_TN_IAC_`, any other
byte as it is; `tmxr_buf_debug_char` grows the buffer by 1024 bytes whenever fewer than two
places are left, and keeps the text NUL-terminated. The line `sim_debug` prints shows the
buffer as a C string.

The buffer is a total function on indices, with the size of its allocation; a size of 0 is
the null pointer it starts as. Whatever the buffer held before, a dump of at least one byte, or
any dump once the buffer exists, leaves the rendering in the buffer with its NUL inside the
allocation; and since the table names the NUL byte (`TN_BIN`), the rendering holds no NUL and
the line shows all of it.
-/

namespace TelnetMux

/-- `tn_chars`: the Telnet commands and options `tmxr_debug` names, `TN_GA` as the source
spells it. -/
def tnChars : List (UInt8 × String) :=
  [(tnIac, "TN_IAC"), (tnDont, "TN_DONT"), (tnDo, "TN_DO"), (tnWont, "TN_WONT"),
    (tnWill, "TN_WILL"), (tnSb, "TN_SB"), (tnGa, "TN_SG"), (tnEl, "TN_EL"), (tnEc, "TN_EC"),
    (tnAyt, "TN_AYT"), (tnAo, "TN_AO"), (tnIp, "TN_IP"), (tnBrk, "TN_BRK"),
    (tnDatamk, "TN_DATAMK"), (tnNop, "TN_NOP"), (tnSe, "TN_SE"), (tnBin, "TN_BIN"),
    (tnEcho, "TN_ECHO"), (tnSga, "TN_SGA"), (tnLine, "TN_LINE"), (tnCr, "TN_CR"), (tnLf, "TN_LF")]

/-- The static buffer `tmxr_debug_buf`, with `tmxr_debug_buf_used` and `tmxr_debug_buf_size`. -/
structure DebugBuf where
  buf : Nat → UInt8
  used : Nat
  size : Nat

/-- `tmxr_buf_debug_char`: grow the buffer by 1024 bytes when fewer than two places are left
(`realloc` keeps its bytes), then store the byte and a NUL after it. -/
def tmxrBufDebugChar (d : DebugBuf) (value : UInt8) : DebugBuf where
  buf := Function.update (Function.update d.buf d.used value) (d.used + 1) 0
  used := d.used + 1
  size := if d.used + 2 > d.size then d.size + 1024 else d.size

/-- `tmxr_buf_debug_string`. -/
def tmxrBufDebugString (d : DebugBuf) (string : List UInt8) : DebugBuf :=
  string.foldl tmxrBufDebugChar d

/-- A turn of the loop of `tmxr_debug`: the first entry of `tn_chars` with the byte's value
writes `_name_`; a byte that none has is written as it is. -/
def debugByte (d : DebugBuf) (b : UInt8) : DebugBuf :=
  match tnChars.find? (·.1 = b) with
  | some e => tmxrBufDebugChar (tmxrBufDebugString (tmxrBufDebugChar d 0x5F) (ascii e.2)) 0x5F
  | none => tmxrBufDebugChar d b

/-- The bytes of a C string in a buffer of `size` bytes: those before the first NUL. -/
def cString (f : Nat → UInt8) (size : Nat) : List UInt8 :=
  ((List.range size).map f).takeWhile (· ≠ 0)

/-- The start of `tmxr_debug`: the buffer emptied, the NUL written once it exists. -/
def debugStart (d : DebugBuf) : DebugBuf :=
  { d with used := 0, buf := if d.size ≠ 0 then Function.update d.buf 0 0 else d.buf }

/-- `tmxr_debug` on the bytes `buf[0..bufsize)`, when the line's device debugs `dbits`: the
buffer emptied, then each byte rendered; and the text `sim_debug` prints for it. -/
def tmxrDebug (d : DebugBuf) (enabled : Bool) (msg : String) (bytes : List UInt8) :
    DebugBuf × List UInt8 :=
  if enabled then
    let d := bytes.foldl debugByte (debugStart d)
    (d, ascii msg ++ ascii " " ++ ascii (toString bytes.length) ++ ascii " bytes '" ++
      cString d.buf d.size ++ ascii "'\n")
  else (d, [])

/-! ## What the buffer holds -/

/-- The text `tmxr_debug` writes for a byte. -/
def debugText (b : UInt8) : List UInt8 :=
  match tnChars.find? (·.1 = b) with
  | some e => 0x5F :: ascii e.2 ++ [0x5F]
  | none => [b]

/-- `d` holds the text `t` from its start, followed by a NUL inside the allocation once there
is one. -/
structure DebugHolds (d : DebugBuf) (t : List UInt8) : Prop where
  used : d.used = t.length
  text : ∀ k (hk : k < t.length), d.buf k = t[k]
  empty : d.size = 0 → d.used = 0
  nul : d.size ≠ 0 → d.used < d.size ∧ d.buf d.used = 0

/-- A character is stored inside the allocation, and its NUL after it. -/
theorem tmxrBufDebugChar_holds {d : DebugBuf} {t : List UInt8} (h : DebugHolds d t) (v : UInt8) :
    DebugHolds (tmxrBufDebugChar d v) (t ++ [v]) ∧ (tmxrBufDebugChar d v).size ≠ 0 := by
  have hu := h.used
  have hsize : d.used + 1 < (tmxrBufDebugChar d v).size := by
    simp only [tmxrBufDebugChar]
    split_ifs with hs
    · by_cases h0 : d.size = 0
      · rw [h0, h.empty h0]
        omega
      · have := (h.nul h0).1
        omega
    · omega
  refine ⟨⟨by simp [tmxrBufDebugChar, hu], fun k hk ↦ ?_, fun h0 ↦ absurd h0 (by omega),
    fun _ ↦ ⟨hsize, by simp [tmxrBufDebugChar]⟩⟩, by omega⟩
  · simp only [List.length_append, List.length_singleton] at hk
    simp only [tmxrBufDebugChar]
    rw [Function.update_noteq (by omega)]
    by_cases hk' : k = t.length
    · subst hk'
      rw [hu, Function.update_same]
      simp
    · rw [Function.update_noteq (by omega), h.text k (by omega), List.getElem_append_left]

/-- A loop whose every turn appends its text to the buffer keeps the buffer holding all of it;
the buffer exists after the loop if it did before or the loop turned at least once. -/
theorem foldl_holds {α : Type} (step : DebugBuf → α → DebugBuf) (text : α → List UInt8)
    (hstep : ∀ {d t} a, DebugHolds d t →
      DebugHolds (step d a) (t ++ text a) ∧ (step d a).size ≠ 0) :
    ∀ (xs : List α) {d : DebugBuf} {t : List UInt8}, DebugHolds d t → d.size ≠ 0 ∨ xs ≠ [] →
      DebugHolds (xs.foldl step d) (t ++ xs.flatMap text) ∧ (xs.foldl step d).size ≠ 0
  | [], _, _, h, hs => by simpa using ⟨h, hs.resolve_right fun h ↦ h rfl⟩
  | a :: xs, _, _, h, _ => by
    obtain ⟨h₁, hs₁⟩ := hstep a h
    simpa using foldl_holds step text hstep xs h₁ (.inl hs₁)

theorem tmxrBufDebugString_holds {d : DebugBuf} {t : List UInt8} (h : DebugHolds d t)
    (string : List UInt8) (hs : d.size ≠ 0 ∨ string ≠ []) :
    DebugHolds (tmxrBufDebugString d string) (t ++ string) ∧
      (tmxrBufDebugString d string).size ≠ 0 := by
  simpa using foldl_holds tmxrBufDebugChar (fun v ↦ [v]) (fun v h ↦ tmxrBufDebugChar_holds h v)
    string h hs

theorem debugByte_holds {d : DebugBuf} {t : List UInt8} (b : UInt8) (h : DebugHolds d t) :
    DebugHolds (debugByte d b) (t ++ debugText b) ∧ (debugByte d b).size ≠ 0 := by
  unfold debugByte debugText
  split
  · obtain ⟨h₁, hs₁⟩ := tmxrBufDebugChar_holds h 0x5F
    obtain ⟨h₂, -⟩ := tmxrBufDebugString_holds h₁ _ (.inl hs₁)
    simpa using tmxrBufDebugChar_holds h₂ 0x5F
  · exact tmxrBufDebugChar_holds h b

/-- The table names the NUL byte, and no name holds one: a rendering holds no NUL. -/
theorem zero_not_mem_debugText (b : UInt8) : 0 ∉ debugText b := by
  unfold debugText
  split
  · rename_i e he
    have hmem := List.mem_of_find?_eq_some he
    have hnames : ∀ e ∈ tnChars, (0 : UInt8) ∉ ascii e.2 := by decide
    simpa using hnames e hmem
  · rename_i he
    have hb : b ≠ 0 := fun hb ↦ by
      have := List.find?_eq_none.1 he (tnBin, "TN_BIN") (by decide)
      simp [hb, tnBin] at this
    simpa using Ne.symm hb

/-- A C string read from a buffer that holds `t` followed by a NUL inside its allocation is
`t`, when `t` holds no NUL. -/
theorem cString_eq {f : Nat → UInt8} {size : Nat} {t : List UInt8}
    (htext : ∀ k (hk : k < t.length), f k = t[k]) (hnul : f t.length = 0)
    (hlt : t.length < size) (hz : 0 ∉ t) : cString f size = t := by
  have hsplit : (List.range size).map f =
      (List.range t.length).map f ++ f t.length :: (List.range (size - t.length - 1)).map
        (fun x ↦ f (t.length + 1 + x)) := by
    rw [show size = t.length + (1 + (size - t.length - 1)) by omega, List.range_add,
      List.range_add]
    simp [Function.comp_def, Nat.add_assoc, List.range_succ]
  have hpre : (List.range t.length).map f = t :=
    List.ext_getElem (by simp) fun k hk _ ↦ by simp [htext k (by simpa using hk)]
  rw [cString, hsplit, hpre, List.takeWhile_append_of_pos, hnul]
  · simp
  · intro a ha
    simp only [ne_eq, decide_eq_true_eq]
    rintro rfl
    exact hz ha

/-- Whatever the buffer held, a dump of at least one byte, or any dump once the buffer exists,
leaves in the buffer the rendering of every byte, each Telnet byte of `tn_chars` by its name,
followed by a NUL inside the allocation; and the line `sim_debug` prints shows all of the
rendering. -/
theorem tmxrDebug_shows_all (d : DebugBuf) (msg : String) (bytes : List UInt8)
    (h : d.size ≠ 0 ∨ bytes ≠ []) :
    (List.range (tmxrDebug d true msg bytes).1.used).map (tmxrDebug d true msg bytes).1.buf =
        bytes.flatMap debugText ∧
      (tmxrDebug d true msg bytes).1.used < (tmxrDebug d true msg bytes).1.size ∧
      (tmxrDebug d true msg bytes).2 = ascii msg ++ ascii " " ++ ascii (toString bytes.length) ++
        ascii " bytes '" ++ bytes.flatMap debugText ++ ascii "'\n" := by
  have h₀ : DebugHolds (debugStart d) [] :=
    ⟨rfl, fun _ hk ↦ absurd hk (Nat.not_lt_zero _), fun _ ↦ rfl, fun hs ↦ ⟨Nat.pos_of_ne_zero hs, by
      simp [debugStart, show d.size ≠ 0 from hs]⟩⟩
  obtain ⟨hh, hs⟩ := foldl_holds debugByte debugText debugByte_holds bytes h₀ h
  rw [List.nil_append] at hh
  have hz : 0 ∉ bytes.flatMap debugText := by
    simpa using fun b _ ↦ zero_not_mem_debugText b
  obtain ⟨hlt, hnul⟩ := hh.nul hs
  rw [hh.used] at hlt hnul
  rw [tmxrDebug, if_pos rfl]
  dsimp only
  have hlen : ((List.range (bytes.foldl debugByte (debugStart d)).used).map
      (bytes.foldl debugByte (debugStart d)).buf).length = (bytes.flatMap debugText).length := by
    rw [List.length_map, List.length_range, hh.used]
  refine ⟨List.ext_getElem hlen fun k hk _ ↦ ?_, by rw [hh.used]; exact hlt, ?_⟩
  · simp only [List.getElem_map, List.getElem_range]
    exact hh.text k (hlen ▸ hk)
  · rw [cString_eq hh.text hnul hlt hz]

/-- A dump of `A`, an IAC and a NUL on a buffer never used: `A_TN_IAC__TN_BIN_`. -/
theorem firstDump_shows_all :
    ((⟨fun _ ↦ 0, 0, 0⟩ : DebugBuf).size ≠ 0 ∨ [0x41, 0xFF, 0x00] ≠ ([] : List UInt8)) ∧
      (List.range (tmxrDebug ⟨fun _ ↦ 0, 0, 0⟩ true "Read" [0x41, 0xFF, 0x00]).1.used).map
          (tmxrDebug ⟨fun _ ↦ 0, 0, 0⟩ true "Read" [0x41, 0xFF, 0x00]).1.buf =
        [0x41, 0xFF, 0x00].flatMap debugText ∧
      (tmxrDebug ⟨fun _ ↦ 0, 0, 0⟩ true "Read" [0x41, 0xFF, 0x00]).1.used <
        (tmxrDebug ⟨fun _ ↦ 0, 0, 0⟩ true "Read" [0x41, 0xFF, 0x00]).1.size ∧
      (tmxrDebug ⟨fun _ ↦ 0, 0, 0⟩ true "Read" [0x41, 0xFF, 0x00]).2 = ascii "Read" ++ ascii " " ++
        ascii (toString [0x41, 0xFF, 0x00].length) ++ ascii " bytes '" ++
        [0x41, 0xFF, 0x00].flatMap debugText ++ ascii "'\n" :=
  have h : (⟨fun _ ↦ 0, 0, 0⟩ : DebugBuf).size ≠ 0 ∨ [0x41, 0xFF, 0x00] ≠ ([] : List UInt8) :=
    .inr (by decide)
  ⟨h, tmxrDebug_shows_all _ _ _ h⟩

/-- The rendering of that dump. -/
example : [0x41, 0xFF, 0x00].flatMap debugText = ascii "A_TN_IAC__TN_BIN_" := by decide

end TelnetMux
