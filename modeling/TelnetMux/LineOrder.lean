import Mathlib.Data.List.Dedup
import Mathlib.Data.List.Forall2
import Mathlib.Data.String.Basic
import TelnetMux.Connect

/-!
# The line connection order

`SET <dev> LINEORDER=` reaches `tmxr_set_lnorder` with a list of line ranges, which the scanner
`get_range` yields one by one; the scanner is not among the sources and is modelled by what it
yields: a range `(low, high)`, or `none` where it cannot parse. The routine builds the new order
in a working array `list`, marks the lines placed in `set`, fills in the lines not named, and
copies `list` to `lnorder` only when every range was accepted. `tmxr_show_lnorder` prints the
order back as runs of consecutive lines.

What an order should be is `lineOrderOf`: the lines of the ranges in order of first mention,
then the others in ascending order. The results:

* `tmxr_set_lnorder` decides by the first range that is not a part of the lines: an error leaves
  the multiplexer as it was, the whole range stores the sequential marker, and with no such
  range the order stored is `lineOrderOf`, a permutation of the lines, which the scan of
  `tmxr_poll_conn` needs; every write into the working arrays is within the lines;
* the runs `tmxr_show_lnorder` prints, given back to `tmxr_set_lnorder`, rebuild the order.

A multiplexer with no lines is left out: there `max = lines - 1` wraps around in the source.
-/

namespace TelnetMux

/-! ## The order the ranges describe -/

/-- The lines of the ranges, each range in ascending order. -/
def rangeLines (rs : List (Nat × Nat)) : List Nat :=
  rs.flatMap fun r ↦ List.range' r.1 (r.2 + 1 - r.1)

/-- The distinct lines of `ls` in order of first mention. -/
def firstMentions (ls : List Nat) : List Nat :=
  ls.reverse.dedup.reverse

/-- The connection order the ranges `rs` describe on `N` lines: their lines in order of first
mention, then every line not mentioned in ascending order. -/
def lineOrderOf (N : Nat) (rs : List (Nat × Nat)) : List Nat :=
  firstMentions (rangeLines rs) ++
    (List.range N).filter fun l ↦ l ∉ firstMentions (rangeLines rs)

theorem le_of_mem_rangeLines {rs : List (Nat × Nat)} {l : Nat} (h : l ∈ rangeLines rs) :
    ∃ r ∈ rs, l ≤ r.2 := by
  simp only [rangeLines, List.mem_flatMap, List.mem_range'_1] at h
  obtain ⟨r, hr, h₁, h₂⟩ := h
  exact ⟨r, hr, by omega⟩

@[simp] theorem mem_firstMentions {ls : List Nat} {l : Nat} : l ∈ firstMentions ls ↔ l ∈ ls := by
  simp [firstMentions, List.mem_dedup]

theorem nodup_firstMentions (ls : List Nat) : (firstMentions ls).Nodup :=
  List.nodup_reverse.2 (List.nodup_dedup _)

/-- A line mentioned once more is appended, unless it was mentioned before. -/
theorem firstMentions_concat (ls : List Nat) (l : Nat) :
    firstMentions (ls ++ [l]) =
      if l ∈ firstMentions ls then firstMentions ls else firstMentions ls ++ [l] := by
  by_cases h : l ∈ ls
  · rw [if_pos (mem_firstMentions.2 h)]
    simp only [firstMentions, List.reverse_append, List.reverse_singleton, List.singleton_append]
    rw [List.dedup_cons_of_mem (List.mem_reverse.2 h)]
  · rw [if_neg (mt mem_firstMentions.1 h)]
    simp only [firstMentions, List.reverse_append, List.reverse_singleton, List.singleton_append]
    rw [List.dedup_cons_of_not_mem (mt List.mem_reverse.1 h), List.reverse_cons]

/-- Distinct lines below `n` are at most `n`. -/
theorem length_le_of_nodup {ps : List Nat} {n : Nat} (hnd : ps.Nodup) (h : ∀ p ∈ ps, p < n) :
    ps.length ≤ n := by
  simpa using (List.subperm_of_subset hnd fun p hp ↦ List.mem_range.2 (h p hp)).length_le

/-- `n` distinct lines below `n` are all of them. -/
theorem mem_of_length_le {ps : List Nat} {n : Nat} (hnd : ps.Nodup) (h : ∀ p ∈ ps, p < n)
    (hlen : n ≤ ps.length) {l : Nat} (hl : l < n) : l ∈ ps := by
  have hsub := List.subperm_of_subset hnd fun p hp ↦ List.mem_range.2 (h p hp)
  exact (hsub.perm_of_length_le (by simpa using hlen)).mem_iff.2 (List.mem_range.2 hl)

/-- Distinct lines below `N`, then the others in ascending order, are the `N` lines. -/
theorem perm_range_of_nodup {ms : List Nat} {N : Nat} (hnd : ms.Nodup) (h : ∀ m ∈ ms, m < N) :
    (ms ++ (List.range N).filter fun l ↦ l ∉ ms).Perm (List.range N) := by
  have hdisj : ms.Disjoint ((List.range N).filter fun l ↦ l ∉ ms) := fun l h₁ h₂ ↦ by
    simp only [List.mem_filter, decide_eq_true_eq] at h₂
    exact h₂.2 h₁
  refine (List.perm_ext_iff_of_nodup (hnd.append ((List.nodup_range N).filter _) hdisj)
    (List.nodup_range N)).2 fun l ↦ ?_
  by_cases hl : l ∈ ms <;> simp [hl, h l]

theorem lineOrderOf_perm {N : Nat} {rs : List (Nat × Nat)} (h : ∀ l ∈ rangeLines rs, l < N) :
    (lineOrderOf N rs).Perm (List.range N) :=
  perm_range_of_nodup (nodup_firstMentions _) fun m hm ↦ h m (mem_firstMentions.1 hm)

/-! ## Setting the order -/

/-- The working arrays of `tmxr_set_lnorder`, both from `calloc`: the order `list` and the
marks `set`, the count `idx` of lines placed, and the indices written into either array. -/
structure OrderBuild where
  list : Nat → Int
  set : Nat → Bool
  idx : Nat
  writes : List Nat

/-- The arrays as `calloc` returns them. -/
def OrderBuild.init : OrderBuild :=
  ⟨fun _ ↦ 0, fun _ ↦ false, 0, []⟩

/-- One pass of the `for` loop over a range: a line not yet specified is marked and placed. -/
def addLine (b : OrderBuild) (line : Nat) : OrderBuild :=
  if b.set line = false then
    ⟨Function.update b.list b.idx line, Function.update b.set line true, b.idx + 1,
      b.writes ++ [line, b.idx]⟩
  else b

/-- The `for` loop over the lines `low` to `high` of a range. -/
def addRange (b : OrderBuild) (low high : Nat) : OrderBuild :=
  (List.range' low (high + 1 - low)).foldl addLine b

/-- The `while` loop over the ranges `get_range` yields: it stops at a range it cannot parse, at
a range past `max`, and at the whole range `0`-`max`, which it marks with `list[0] = -1`. -/
def lnorderLoop (max : Nat) (b : OrderBuild) : List (Option (Nat × Nat)) → OrderBuild × Scpe
  | [] => (b, .ok)
  | none :: _ => (b, .arg)
  | some (low, high) :: rest =>
    if low > max ∨ high > max then (b, .sub)
    else if low = 0 ∧ high = max then
      ({ b with list := Function.update b.list 0 (-1), idx := max + 1, writes := b.writes ++ [0] },
        .ok)
    else lnorderLoop max (addRange b low high) rest

/-- One pass of the fill-in loop: a line not specified is placed next. -/
def fillLine (b : OrderBuild) (line : Nat) : OrderBuild :=
  if b.set line = false then
    ⟨Function.update b.list b.idx line, b.set, b.idx + 1, b.writes ++ [b.idx]⟩
  else b

/-- The fill-in, when fewer than `max + 1` lines were placed. -/
def fillIn (max : Nat) (b : OrderBuild) : OrderBuild :=
  if b.idx ≤ max then (List.range (max + 1)).foldl fillLine b else b

/-- The working arrays as `tmxr_set_lnorder` frees them, and its status. -/
def lnorderBuild (max : Nat) (ranges : List (Option (Nat × Nat))) : OrderBuild × Scpe :=
  let r := lnorderLoop max OrderBuild.init ranges
  if r.2 = .ok then (fillIn max r.1, .ok) else r

/-- `tmxr_set_lnorder` on the ranges of its value, none for an empty value: the first `lines`
entries of `list` are copied to `lnorder` when every range was accepted. -/
def tmxrSetLnorder (mp : Tmxr) (ranges : List (Option (Nat × Nat))) : Tmxr × Scpe :=
  match mp.lnorder with
  | none => (mp, .nxPar)
  | some _ =>
    if ranges = [] then (mp, .misVal)
    else
      let r := lnorderBuild (mp.lines - 1) ranges
      if r.2 = .ok then ({ mp with lnorder := some ((List.range mp.lines).map r.1.list) }, .ok)
      else (mp, r.2)

/-! ## The loop, range by range -/

/-- A range the loop takes line by line: within `0`-`max`, and not the whole of it. -/
def PartRange (max : Nat) (r : Nat × Nat) : Prop :=
  r.1 ≤ max ∧ r.2 ≤ max ∧ ¬(r.1 = 0 ∧ r.2 = max)

instance (max : Nat) : DecidablePred (PartRange max) :=
  fun _ ↦ inferInstanceAs (Decidable (_ ∧ _ ∧ _))

/-- What ends the loop with an error: a range `get_range` cannot parse, or one past `max`. -/
def StopsOrder (max : Nat) : Option (Nat × Nat) → Prop
  | none => True
  | some r => max < r.1 ∨ max < r.2

instance (max : Nat) : DecidablePred (StopsOrder max)
  | none => inferInstanceAs (Decidable True)
  | some _ => inferInstanceAs (Decidable (_ ∨ _))

/-- Every sequence of ranges is a run of part ranges, then nothing, or a range that ends the
loop: one that stops it with an error, or the whole range. -/
theorem ranges_split (max : Nat) (ranges : List (Option (Nat × Nat))) :
    ∃ pre : List (Nat × Nat), (∀ r ∈ pre, PartRange max r) ∧ (ranges = pre.map some ∨
      ∃ x rest, ranges = pre.map some ++ x :: rest ∧ (StopsOrder max x ∨ x = some (0, max))) := by
  induction ranges with
  | nil => exact ⟨[], by simp, .inl rfl⟩
  | cons x rest ih =>
    by_cases hx : ∃ r, x = some r ∧ PartRange max r
    · obtain ⟨r, rfl, hr⟩ := hx
      obtain ⟨pre, hpre, h⟩ := ih
      refine ⟨r :: pre, List.forall_mem_cons.2 ⟨hr, hpre⟩, ?_⟩
      rcases h with rfl | ⟨y, rest', rfl, hy⟩
      · exact .inl rfl
      · exact .inr ⟨y, rest', rfl, hy⟩
    · refine ⟨[], by simp, .inr ⟨x, rest, rfl, ?_⟩⟩
      rcases x with _ | ⟨lo, hi⟩
      · exact .inl trivial
      · simp only [PartRange, not_exists, not_and, Option.some.injEq] at hx
        have := hx (lo, hi) rfl
        by_cases hw : lo = 0 ∧ hi = max
        · exact .inr (by rw [hw.1, hw.2])
        · exact .inl (show max < lo ∨ max < hi by omega)

/-- The loop takes a run of part ranges line by line. -/
theorem lnorderLoop_parts {max : Nat} (b : OrderBuild) (pre : List (Nat × Nat))
    (hpre : ∀ r ∈ pre, PartRange max r) (rest : List (Option (Nat × Nat))) :
    lnorderLoop max b (pre.map some ++ rest) =
      lnorderLoop max ((rangeLines pre).foldl addLine b) rest := by
  induction pre generalizing b with
  | nil => rfl
  | cons r pre ih =>
    obtain ⟨lo, hi⟩ := r
    obtain ⟨⟨hlo, hhi, hw⟩, hpre⟩ := List.forall_mem_cons.1 hpre
    rw [List.map_cons, List.cons_append, lnorderLoop, if_neg (by omega), if_neg hw, ih _ hpre]
    simp only [rangeLines, List.flatMap_cons, List.foldl_append, addRange]

/-! ## What the working arrays hold -/

/-- The working arrays hold the lines `ps` placed so far, in order and each once, the marks are
the lines `ms`, and every write so far was within `0`-`max`. -/
structure Holds (max : Nat) (ms ps : List Nat) (b : OrderBuild) : Prop where
  nodup : ps.Nodup
  le_max : ∀ p ∈ ps, p ≤ max
  idx : b.idx = ps.length
  list : (List.range ps.length).map b.list = ps.map Int.ofNat
  set : ∀ l, b.set l = decide (l ∈ ms)
  writes : ∀ w ∈ b.writes, w ≤ max

section Holds

variable {max : Nat} {ms ps : List Nat} {b : OrderBuild}

theorem Holds.init : Holds max [] [] OrderBuild.init :=
  ⟨List.nodup_nil, by simp, rfl, rfl, fun _ ↦ by simp [OrderBuild.init], by simp [OrderBuild.init]⟩

/-- A line written at `idx` extends the order. -/
theorem map_update_list {f : Nat → Int} (h : (List.range ps.length).map f = ps.map Int.ofNat)
    (l : Nat) :
    (List.range (ps.length + 1)).map (Function.update f ps.length l) = (ps ++ [l]).map Int.ofNat := by
  rw [List.range_succ, List.map_append, List.map_append, ← h]
  congr 1
  · exact List.map_congr_left fun k hk ↦ Function.update_noteq (List.mem_range.1 hk).ne _ _
  · simp

/-- A line not placed yet, within `0`-`max`, leaves room for it: `idx` is within `0`-`max`. -/
theorem Holds.idx_le (h : Holds max ms ps b) {l : Nat} (hl : l ≤ max) (hnew : l ∉ ps) :
    b.idx ≤ max := by
  have : (l :: ps).length ≤ max + 1 := length_le_of_nodup (List.nodup_cons.2 ⟨hnew, h.nodup⟩)
      fun p hp ↦ by
    rcases List.mem_cons.1 hp with rfl | hp
    · omega
    · exact Nat.lt_succ_of_le (h.le_max p hp)
  rw [h.idx]
  simpa using this

/-- Placing a new line keeps the arrays in step, whatever the marks become. -/
theorem Holds.place (h : Holds max ms ps b) {l : Nat} (hl : l ≤ max) (hnew : l ∉ ps)
    (ms' : List Nat) (set' : Nat → Bool) (hset : ∀ k, set' k = decide (k ∈ ms')) (ws : List Nat)
    (hws : ∀ w ∈ ws, w ≤ max) :
    Holds max ms' (ps ++ [l]) ⟨Function.update b.list b.idx l, set', b.idx + 1, b.writes ++ ws⟩
    where
  nodup := h.nodup.append (List.nodup_singleton l) (List.disjoint_singleton.2 hnew)
  le_max p hp := (List.mem_append.1 hp).elim (h.le_max p) fun hp ↦ List.mem_singleton.1 hp ▸ hl
  idx := by simp [h.idx]
  list := by rw [List.length_append, List.length_singleton, h.idx]; exact map_update_list h.list l
  set := hset
  writes w hw := (List.mem_append.1 hw).elim (h.writes w) (hws w)

/-- One line of a range: placed and marked, unless it is marked already. -/
theorem holds_addLine (h : Holds max ms ms b) {l : Nat} (hl : l ≤ max) :
    Holds max (if l ∈ ms then ms else ms ++ [l]) (if l ∈ ms then ms else ms ++ [l])
      (addLine b l) := by
  by_cases hm : l ∈ ms
  · have hs : b.set l = true := by rw [h.set]; simpa using hm
    simpa [hm, addLine, hs] using h
  · have hs : b.set l = false := by rw [h.set]; simpa using hm
    simp only [addLine, hs, if_true, hm, if_false]
    refine h.place hl hm _ _ (fun k ↦ ?_) _ ?_
    · by_cases hk : k = l <;> simp [Function.update_apply, hk, h.set]
    · simpa using ⟨hl, h.idx_le hl hm⟩

/-- The lines `ls` one by one, after the lines `L`: the lines placed are those of `L ++ ls`, in
order of first mention. -/
theorem holds_foldl_addLine (L ls : List Nat) {b : OrderBuild}
    (h : Holds max (firstMentions L) (firstMentions L) b) (hls : ∀ l ∈ ls, l ≤ max) :
    Holds max (firstMentions (L ++ ls)) (firstMentions (L ++ ls)) (ls.foldl addLine b) := by
  induction ls generalizing L b with
  | nil => simpa using h
  | cons l ls ih =>
    obtain ⟨hl, hls⟩ := List.forall_mem_cons.1 hls
    rw [List.foldl_cons, List.append_cons]
    refine ih _ ?_ hls
    rw [firstMentions_concat]
    exact holds_addLine h hl

/-- One line of the fill-in: placed unless it is marked; the marks stay. -/
theorem holds_fillLine (h : Holds max ms ps b) {l : Nat} (hl : l ≤ max) (hnew : l ∉ ms → l ∉ ps) :
    Holds max ms (if l ∈ ms then ps else ps ++ [l]) (fillLine b l) := by
  by_cases hm : l ∈ ms
  · have hs : b.set l = true := by rw [h.set]; simpa using hm
    simpa [hm, fillLine, hs] using h
  · have hs : b.set l = false := by rw [h.set]; simpa using hm
    simp only [fillLine, hs, if_true, hm, if_false]
    exact h.place hl (hnew hm) ms b.set h.set [b.idx] (by simpa using h.idx_le hl (hnew hm))

/-- The fill-in loop up to `n`: after the lines marked, those below `n` not marked. -/
theorem holds_fill (h : Holds max ms ms b) (n : Nat) (hn : n ≤ max + 1) :
    Holds max ms (ms ++ (List.range n).filter fun l ↦ l ∉ ms)
      ((List.range n).foldl fillLine b) := by
  induction n with
  | zero => simpa using h
  | succ n ih =>
    rw [List.range_succ, List.foldl_append, List.filter_append, ← List.append_assoc]
    have h' := holds_fillLine (ih (by omega)) (Nat.le_of_lt_succ hn) fun hm ↦ by simp [hm]
    by_cases hm : n ∈ ms <;> simpa [hm] using h'

/-- The fill-in completes the marked lines to the order of all `max + 1` lines. -/
theorem holds_fillIn (h : Holds max ms ms b) :
    Holds max ms (ms ++ (List.range (max + 1)).filter fun l ↦ l ∉ ms) (fillIn max b) := by
  unfold fillIn
  split_ifs with hidx
  · exact holds_fill h _ (Nat.le_refl _)
  · have hall : (List.range (max + 1)).filter (fun l ↦ l ∉ ms) = [] :=
      List.filter_eq_nil_iff.2 fun l hl ↦ by
        simpa using mem_of_length_le h.nodup (fun p hp ↦ Nat.lt_succ_of_le (h.le_max p hp))
          (by rw [← h.idx]; omega) (List.mem_range.1 hl)
    rw [hall, List.append_nil]
    exact h

end Holds

/-! ## The three outcomes -/

section Build

variable {max : Nat}

theorem le_max_of_mem_rangeLines {pre : List (Nat × Nat)} (hpre : ∀ r ∈ pre, PartRange max r)
    {l : Nat} (hl : l ∈ rangeLines pre) : l ≤ max := by
  obtain ⟨r, hr, hl⟩ := le_of_mem_rangeLines hl
  exact Nat.le_trans hl (hpre r hr).2.1

theorem holds_rangeLines {pre : List (Nat × Nat)} (hpre : ∀ r ∈ pre, PartRange max r) :
    Holds max (firstMentions (rangeLines pre)) (firstMentions (rangeLines pre))
      ((rangeLines pre).foldl addLine OrderBuild.init) :=
  holds_foldl_addLine [] _ Holds.init fun _ ↦ le_max_of_mem_rangeLines hpre

/-- Part ranges only: the arrays hold the order the ranges describe. -/
theorem lnorderBuild_parts (pre : List (Nat × Nat)) (hpre : ∀ r ∈ pre, PartRange max r) :
    (lnorderBuild max (pre.map some)).2 = .ok ∧
      Holds max (firstMentions (rangeLines pre)) (lineOrderOf (max + 1) pre)
        (lnorderBuild max (pre.map some)).1 := by
  have hloop := lnorderLoop_parts OrderBuild.init pre hpre []
  rw [List.append_nil] at hloop
  simp only [lnorderBuild, hloop, lnorderLoop, if_true]
  exact ⟨trivial, holds_fillIn (holds_rangeLines hpre)⟩

/-- A range that stops the loop after part ranges: an error, with every write within the lines. -/
theorem lnorderBuild_stop (pre : List (Nat × Nat)) (hpre : ∀ r ∈ pre, PartRange max r)
    {x : Option (Nat × Nat)} (hx : StopsOrder max x) (rest : List (Option (Nat × Nat))) :
    (lnorderBuild max (pre.map some ++ x :: rest)).2 ≠ .ok ∧
      ∀ w ∈ (lnorderBuild max (pre.map some ++ x :: rest)).1.writes, w ≤ max := by
  have hw := (holds_rangeLines hpre).writes
  rcases x with _ | ⟨lo, hi⟩
  · simp only [lnorderBuild, lnorderLoop_parts _ pre hpre, lnorderLoop, reduceCtorEq, if_false]
    exact ⟨by decide, hw⟩
  · have hx : lo > max ∨ hi > max := hx
    simp only [lnorderBuild, lnorderLoop_parts _ pre hpre, lnorderLoop, if_pos hx, reduceCtorEq,
      if_false]
    exact ⟨by decide, hw⟩

/-- The whole range after part ranges: `list[0] = -1`, with every write within the lines. -/
theorem lnorderBuild_whole (pre : List (Nat × Nat)) (hpre : ∀ r ∈ pre, PartRange max r)
    (rest : List (Option (Nat × Nat))) :
    (lnorderBuild max (pre.map some ++ some (0, max) :: rest)).2 = .ok ∧
      (lnorderBuild max (pre.map some ++ some (0, max) :: rest)).1.list 0 = -1 ∧
      ∀ w ∈ (lnorderBuild max (pre.map some ++ some (0, max) :: rest)).1.writes, w ≤ max := by
  have hw := (holds_rangeLines hpre).writes
  simp only [lnorderBuild, lnorderLoop_parts _ pre hpre, lnorderLoop, gt_iff_lt,
    Nat.not_lt_zero, Nat.lt_irrefl, or_self, if_false, and_self, if_true, fillIn,
    Nat.not_succ_le_self]
  refine ⟨trivial, by simp, fun w hw' ↦ ?_⟩
  rcases List.mem_append.1 hw' with hw' | hw'
  · exact hw w hw'
  · simp only [List.mem_singleton] at hw'
    omega

/-- Whatever the ranges, every write into the working arrays is within `0`-`max`. -/
theorem lnorderBuild_writes (ranges : List (Option (Nat × Nat))) :
    ∀ w ∈ (lnorderBuild max ranges).1.writes, w ≤ max := by
  obtain ⟨pre, hpre, rfl | ⟨x, rest, rfl, hx | rfl⟩⟩ := ranges_split max ranges
  · exact (lnorderBuild_parts pre hpre).2.writes
  · exact (lnorderBuild_stop pre hpre hx rest).2
  · exact (lnorderBuild_whole pre hpre rest).2.2

end Build

/-! ## What `tmxr_set_lnorder` stores -/

section SetLnorder

variable (mp : Tmxr)

/-- `tmxr_set_lnorder` changes the order array and nothing else. -/
theorem tmxrSetLnorder_frame (ranges : List (Option (Nat × Nat))) :
    (tmxrSetLnorder mp ranges).1 = { mp with lnorder := (tmxrSetLnorder mp ranges).1.lnorder } := by
  unfold tmxrSetLnorder
  split
  · rfl
  · dsimp only
    split_ifs <;> rfl

@[simp] theorem tmxrSetLnorder_lines (ranges : List (Option (Nat × Nat))) :
    (tmxrSetLnorder mp ranges).1.lines = mp.lines := by
  rw [tmxrSetLnorder_frame]

@[simp] theorem tmxrSetLnorder_ldsc (ranges : List (Option (Nat × Nat))) :
    (tmxrSetLnorder mp ranges).1.ldsc = mp.ldsc := by
  rw [tmxrSetLnorder_frame]

/-- Part ranges only: the order they describe is stored, a permutation of the lines. -/
theorem tmxrSetLnorder_parts {o : List Int} (ho : mp.lnorder = some o) (hN : 1 ≤ mp.lines)
    (pre : List (Nat × Nat)) (hpre : ∀ r ∈ pre, PartRange (mp.lines - 1) r) (hne : pre ≠ []) :
    tmxrSetLnorder mp (pre.map some) =
        ({ mp with lnorder := some ((lineOrderOf mp.lines pre).map Int.ofNat) }, .ok) ∧
      (lineOrderOf mp.lines pre).Perm (List.range mp.lines) := by
  obtain ⟨hok, h⟩ := lnorderBuild_parts pre hpre
  have hN' : mp.lines - 1 + 1 = mp.lines := Nat.sub_add_cancel hN
  rw [hN'] at h
  have hperm : (lineOrderOf mp.lines pre).Perm (List.range mp.lines) :=
    lineOrderOf_perm fun l hl ↦ by have := le_max_of_mem_rangeLines hpre hl; omega
  have hlist := h.list
  rw [hperm.length_eq, List.length_range] at hlist
  simp only [tmxrSetLnorder, ho, List.map_eq_nil_iff, hne, if_false, hok, if_true, hlist]
  exact ⟨trivial, hperm⟩

/-- A range that stops the loop, after part ranges: an error, and nothing changes. -/
theorem tmxrSetLnorder_stop {o : List Int} (ho : mp.lnorder = some o) (pre : List (Nat × Nat))
    (hpre : ∀ r ∈ pre, PartRange (mp.lines - 1) r) {x : Option (Nat × Nat)}
    (hx : StopsOrder (mp.lines - 1) x) (rest : List (Option (Nat × Nat))) :
    (tmxrSetLnorder mp (pre.map some ++ x :: rest)).1 = mp ∧
      (tmxrSetLnorder mp (pre.map some ++ x :: rest)).2 ≠ .ok := by
  have h := (lnorderBuild_stop pre hpre hx rest).1
  simp only [tmxrSetLnorder, ho, List.append_eq_nil, reduceCtorEq, and_false, if_false, if_neg h]
  exact ⟨trivial, h⟩

/-- The whole range, after part ranges: the order starts with the sequential marker. -/
theorem tmxrSetLnorder_whole {o : List Int} (ho : mp.lnorder = some o) (hN : 1 ≤ mp.lines)
    (pre : List (Nat × Nat)) (hpre : ∀ r ∈ pre, PartRange (mp.lines - 1) r)
    (rest : List (Option (Nat × Nat))) :
    (tmxrSetLnorder mp (pre.map some ++ some (0, mp.lines - 1) :: rest)).2 = .ok ∧
      ((tmxrSetLnorder mp (pre.map some ++ some (0, mp.lines - 1) :: rest)).1.lnorder.getD
        []).head? = some (-1) := by
  obtain ⟨hok, h0, -⟩ := lnorderBuild_whole pre hpre rest
  simp only [tmxrSetLnorder, ho, List.append_eq_nil, reduceCtorEq, and_false, if_false, hok,
    if_true, Option.getD_some, List.head?_map, List.head?_range, Nat.pos_iff_ne_zero.1 hN,
    Option.map_some', h0]
  exact ⟨trivial, trivial⟩

/-- `SET LINEORDER`: with no order array it fails with `SCPE_NXPAR`; with one, an empty value
fails with `SCPE_MISVAL`, and otherwise the first range that is not a part of the lines
decides: a range that cannot be parsed or goes past the last line is an error and changes
nothing; the whole range stores the sequential marker; with none, and at least one range, the
order of first mention completed in ascending order is stored, and it is a permutation of the
lines. Whatever the ranges, every write into `list` and `set` is within the lines. -/
theorem tmxrSetLnorder_ranges (hN : 1 ≤ mp.lines) (pre : List (Nat × Nat))
    (hpre : ∀ r ∈ pre, PartRange (mp.lines - 1) r) :
    (mp.lnorder = none → ∀ ranges, tmxrSetLnorder mp ranges = (mp, .nxPar)) ∧
    (∀ o, mp.lnorder = some o →
      tmxrSetLnorder mp [] = (mp, .misVal) ∧
      (∀ x rest, StopsOrder (mp.lines - 1) x →
        (tmxrSetLnorder mp (pre.map some ++ x :: rest)).1 = mp ∧
          (tmxrSetLnorder mp (pre.map some ++ x :: rest)).2 ≠ .ok) ∧
      (∀ rest, (tmxrSetLnorder mp (pre.map some ++ some (0, mp.lines - 1) :: rest)).2 = .ok ∧
        ((tmxrSetLnorder mp (pre.map some ++ some (0, mp.lines - 1) :: rest)).1.lnorder.getD
          []).head? = some (-1)) ∧
      (pre ≠ [] → tmxrSetLnorder mp (pre.map some) =
          ({ mp with lnorder := some ((lineOrderOf mp.lines pre).map Int.ofNat) }, .ok) ∧
        (lineOrderOf mp.lines pre).Perm (List.range mp.lines))) ∧
    ∀ ranges, ∀ w ∈ (lnorderBuild (mp.lines - 1) ranges).1.writes, w < mp.lines :=
  ⟨fun ho _ ↦ by simp only [tmxrSetLnorder, ho],
    fun _ ho ↦ ⟨by simp only [tmxrSetLnorder, ho, if_true],
      fun _ rest hx ↦ tmxrSetLnorder_stop mp ho pre hpre hx rest,
      tmxrSetLnorder_whole mp ho hN pre hpre, tmxrSetLnorder_parts mp ho hN pre hpre⟩,
    fun ranges w hw ↦ by have := lnorderBuild_writes ranges w hw; omega⟩

end SetLnorder

/-- The example of the source's comment: `1;5;2-4;7` on eight lines. -/
def eightLines : Tmxr :=
  Tmxr.init 8 (some (List.replicate 8 0)) none

theorem eightLines_order :
    tmxrSetLnorder eightLines ([(1, 1), (5, 5), (2, 4), (7, 7)].map some) =
      ({ eightLines with lnorder := some [1, 5, 2, 3, 4, 7, 0, 6] }, .ok) :=
  (((tmxrSetLnorder_ranges eightLines (by decide) [(1, 1), (5, 5), (2, 4), (7, 7)]
    (by decide)).2.1 _ rfl).2.2.2 (by decide)).1

/-- Two lines whose order array holds `1;0`. -/
def swappedPair : Tmxr :=
  Tmxr.init 2 (some [1, 0]) none

/-- An empty value is refused with `SCPE_MISVAL`, and the order stays `1;0`, not the order
`0;1` that no range at all describes. -/
theorem swappedPair_empty_value :
    tmxrSetLnorder swappedPair [] = (swappedPair, .misVal) ∧ swappedPair.lnorder = some [1, 0] ∧
      lineOrderOf 2 [] = [0, 1] :=
  ⟨rfl, rfl, by decide⟩

/-- An order whose first entry is not a line number is one `tmxr_poll_conn` can use. -/
theorem orderOk_of_head {lines : Nat} {o : List Int} {a : Int} (h : o.head? = some a) (ha : a < 0) :
    OrderOk lines (some o) := by
  obtain ⟨os, rfl⟩ := List.head?_eq_some_iff.1 h
  exact .inl (by omega)

/-- So is an order of all the lines. -/
theorem orderOk_of_perm {lines : Nat} {L : List Nat} (h : L.Perm (List.range lines)) :
    OrderOk lines (some (L.map Int.ofNat)) := by
  cases L with
  | nil => trivial
  | cons l ls => exact .inr (h.map Int.ofNat)

/-- Whatever the ranges, the order `tmxr_set_lnorder` leaves is one under which the search of
`tmxr_poll_conn` offers every line. -/
theorem tmxrSetLnorder_orderOk (mp : Tmxr) (hN : 1 ≤ mp.lines) (h : OrderOk mp.lines mp.lnorder)
    (ranges : List (Option (Nat × Nat))) :
    OrderOk (tmxrSetLnorder mp ranges).1.lines (tmxrSetLnorder mp ranges).1.lnorder := by
  rw [tmxrSetLnorder_lines]
  rcases ho : mp.lnorder with _ | o <;> rw [ho] at h
  · simp only [tmxrSetLnorder, ho]
    exact h
  by_cases hr : ranges = []
  · simp only [tmxrSetLnorder, ho, hr, if_true]
    exact h
  obtain ⟨pre, hpre, rfl | ⟨x, rest, rfl, hx | rfl⟩⟩ := ranges_split (mp.lines - 1) ranges
  · obtain ⟨heq, hperm⟩ := tmxrSetLnorder_parts mp ho hN pre hpre fun h ↦ hr (by rw [h]; rfl)
    rw [heq]
    exact orderOk_of_perm hperm
  · rw [(tmxrSetLnorder_stop mp ho pre hpre hx rest).1, ho]
    exact h
  · have hhead := (tmxrSetLnorder_whole mp ho hN pre hpre rest).2
    revert hhead
    cases (tmxrSetLnorder mp (pre.map some ++ some (0, mp.lines - 1) :: rest)).1.lnorder with
    | none => exact fun _ ↦ trivial
    | some o' => exact fun hhead ↦ orderOk_of_head hhead (by decide)

/-! ## Showing the order -/

/-- The loop of `tmxr_show_lnorder` from the run `low`-`last`: the runs it prints, each ended by
an entry that does not follow its `last`. -/
def showRuns (low last : Int) : List Int → List (Int × Int)
  | [] => []
  | i :: is => if i ≠ last + 1 then (low, last) :: showRuns i i is else showRuns low i is

/-- The entries the loop reads for `j` from 1 to `lines`: `lnorder[j]`, and the tie-off `-1` for
`j = lines`. -/
def showEntries (lines : Nat) (o : List Int) : List Int :=
  (List.range' 1 lines).map fun j ↦ if j < lines then o.getD j 0 else -1

/-- One run as `fprintf` prints it: a single line, or the first and the last. -/
def runText (r : Int × Int) : String :=
  if r.1 = r.2 then toString r.2 else toString r.1 ++ "-" ++ toString r.2

/-- The runs as printed: `Order=` before the first, `;` before each other, and a newline after
the last when any was printed. -/
def runsText (first : Bool) : List (Int × Int) → String
  | [] => if first then "" else "\n"
  | r :: rs => (if first then "Order=" else ";") ++ runText r ++ runsText false rs

/-- The ranges `tmxr_show_lnorder` prints after `Order=`: `0` to the last line for the
sequential order, the runs of the order otherwise. -/
def shownRanges (lines : Nat) (o : List Int) : List (Int × Int) :=
  if o.getD 0 0 < 0 then [(0, (lines : Int) - 1)]
  else showRuns (o.getD 0 0) (o.getD 0 0) (showEntries lines o)

/-- `tmxr_show_lnorder`: the text it prints, and its status. -/
def tmxrShowLnorder (mp : Tmxr) : String × Scpe :=
  match mp.lnorder with
  | none => ("", .nxPar)
  | some o =>
    if o.getD 0 0 < 0 then ("Order=0-" ++ toString ((mp.lines : Int) - 1) ++ "\n", .ok)
    else (runsText true (shownRanges mp.lines o), .ok)

example : (tmxrShowLnorder { eightLines with lnorder := some [1, 5, 2, 3, 4, 7, 0, 6] }).1 =
    "Order=1;5;2-4;7;0;6\n" := by
  decide

/-- Printed ranges, as the scanner reads them back. -/
def natRanges (rs : List (Int × Int)) : List (Nat × Nat) :=
  rs.map fun r ↦ (r.1.toNat, r.2.toNat)

/-- The forms in which `SET LINEORDER` reads a range back as itself: `lo-hi`, and `lo` alone
when `lo = hi`. -/
def RangeText (r : Int × Int) (t : String) : Prop :=
  t = toString r.1 ++ "-" ++ toString r.2 ∨ r.1 = r.2 ∧ t = toString r.1

/-- A text of `SHOW LINEORDER` that lists the ranges `rs`: `Order=`, the ranges, each in a form
read back as itself, with `;` between them, and a newline. -/
def ShowsRanges (text : String) : List (Int × Int) → Prop
  | [] => False
  | r :: rs => ∃ t ts, RangeText r t ∧ List.Forall₂ RangeText rs ts ∧
      text = "Order=" ++ t ++ String.join (ts.map (";" ++ ·)) ++ "\n"

theorem runText_rangeText (r : Int × Int) : RangeText r (runText r) := by
  unfold runText
  split_ifs with h
  · exact .inr ⟨h, by rw [h]⟩
  · exact .inl rfl

/-- Past the first run, each is printed after a `;`, and the line ends. -/
theorem runsText_false (rs : List (Int × Int)) :
    runsText false rs = String.join (rs.map fun r ↦ ";" ++ runText r) ++ "\n" := by
  induction rs with
  | nil => rfl
  | cons r rs ih =>
    rw [runsText, if_neg Bool.false_ne_true, ih, String.ext_iff]
    simp

/-- The text of the runs loop lists the runs it was given. -/
theorem runsText_shows {rs : List (Int × Int)} (h : rs ≠ []) : ShowsRanges (runsText true rs) rs := by
  obtain ⟨r, rs, rfl⟩ := List.exists_cons_of_ne_nil h
  refine ⟨runText r, rs.map runText, runText_rangeText r,
    List.forall₂_map_right_iff.2 (List.forall₂_same.2 fun r _ ↦ runText_rangeText r), ?_⟩
  rw [runsText, if_pos rfl, runsText_false, List.map_map]
  simp only [Function.comp_def, String.append_assoc]

/-- Past the first entry of an order of `as.length + 1` entries the loop reads the others, then
the tie-off. -/
theorem showEntries_cons (a : Int) (as : List Int) :
    showEntries (as.length + 1) (a :: as) = as ++ [-1] := by
  have hinit : (List.range' 1 as.length).map
      (fun j ↦ if j < as.length + 1 then (a :: as).getD j 0 else -1) = as := by
    refine List.ext_getElem (by simp) fun k h₁ _ ↦ ?_
    have hk : k < as.length := by simpa using h₁
    rw [List.getElem_map, List.getElem_range', if_pos (by omega), Nat.one_mul, Nat.add_comm,
      List.getD_cons_succ, List.getD_eq_getElem?_getD, List.getElem?_eq_getElem hk,
      Option.getD_some]
  rw [showEntries, List.range'_1_concat, List.map_append, hinit, List.map_singleton,
    if_neg (by omega)]

/-- From a run `l`-`m` in progress over the lines `xs` and the tie-off, the loop prints runs of
line numbers that, read back as ranges, list the run and then `xs`. -/
theorem showRuns_expand (xs : List Nat) (l m : Nat) (hlm : l ≤ m) :
    (∀ r ∈ showRuns l m (xs.map Int.ofNat ++ [-1]), 0 ≤ r.1 ∧ r.1 ≤ r.2) ∧
      rangeLines (natRanges (showRuns l m (xs.map Int.ofNat ++ [-1]))) =
        List.range' l (m + 1 - l) ++ xs := by
  induction xs generalizing l m with
  | nil =>
    have hrun : showRuns l m [-1] = [((l : Int), (m : Int))] := by simp [showRuns]; omega
    simp [hrun, natRanges, rangeLines, hlm, Int.ofNat_nonneg]
  | cons x xs ih =>
    by_cases hx : x = m + 1
    · subst hx
      have hrun : showRuns l m (Int.ofNat (m + 1) :: (xs.map Int.ofNat ++ [-1])) =
          showRuns l ((m + 1 : Nat) : Int) (xs.map Int.ofNat ++ [-1]) := by simp [showRuns]
      obtain ⟨h₁, h₂⟩ := ih l (m + 1) (by omega)
      rw [List.map_cons, List.cons_append, hrun]
      refine ⟨h₁, ?_⟩
      rw [h₂, show m + 1 + 1 - l = m + 1 - l + 1 by omega, List.range'_1_concat,
        List.append_assoc, show l + (m + 1 - l) = m + 1 by omega, List.singleton_append]
    · have hrun : showRuns l m (Int.ofNat x :: (xs.map Int.ofNat ++ [-1])) =
          ((l : Int), (m : Int)) :: showRuns x x (xs.map Int.ofNat ++ [-1]) := by
        simp [showRuns]; omega
      obtain ⟨h₁, h₂⟩ := ih x x (Nat.le_refl x)
      rw [List.map_cons, List.cons_append, hrun]
      refine ⟨List.forall_mem_cons.2 ⟨by simp; omega, h₁⟩, ?_⟩
      simp only [natRanges, rangeLines, List.map_cons, List.flatMap_cons] at h₂ ⊢
      rw [h₂]
      simp

/-- An ascending run of consecutive lines and the tie-off print as one run. -/
theorem showRuns_consecutive (l m k : Nat) :
    showRuns l m ((List.range' (m + 1) k).map Int.ofNat ++ [-1]) =
      [((l : Int), ((m + k : Nat) : Int))] := by
  induction k generalizing m with
  | zero => simp [showRuns]; omega
  | succ k ih =>
    have hstep : showRuns l m (Int.ofNat (m + 1) ::
        ((List.range' (m + 1 + 1) k).map Int.ofNat ++ [-1])) =
        showRuns l ((m + 1 : Nat) : Int) ((List.range' (m + 1 + 1) k).map Int.ofNat ++ [-1]) := by
      simp [showRuns]
    rw [List.range'_succ, List.map_cons, List.cons_append, hstep, ih,
      show m + 1 + k = m + (k + 1) by omega]

/-- Runs that list the `N` lines, each once, hold the run of all of them only when they list
them in numerical order. -/
theorem rangeLines_eq_range {rs : List (Nat × Nat)} {N : Nat} (hN : 1 ≤ N)
    (hlen : (rangeLines rs).length = N) (hmem : (0, N - 1) ∈ rs) : rangeLines rs = List.range N := by
  obtain ⟨s, t, rfl⟩ := List.append_of_mem hmem
  have hrange : List.range' 0 (N - 1 + 1 - 0) = List.range N := by
    rw [List.range_eq_range']
    congr 1
    omega
  simp only [rangeLines, List.flatMap_append, List.flatMap_cons, hrange, List.length_append,
    List.length_range] at hlen ⊢
  rw [List.length_eq_zero.1 (by omega : (s.flatMap _).length = 0),
    List.length_eq_zero.1 (by omega : (t.flatMap _).length = 0), List.nil_append, List.append_nil]

/-- Ranges that list every line once describe the order they list. -/
theorem lineOrderOf_eq_rangeLines {N : Nat} {rs : List (Nat × Nat)} (hnd : (rangeLines rs).Nodup)
    (hall : ∀ l < N, l ∈ rangeLines rs) : lineOrderOf N rs = rangeLines rs := by
  have hfm : firstMentions (rangeLines rs) = rangeLines rs := by
    rw [firstMentions, (List.nodup_reverse.2 hnd).dedup, List.reverse_reverse]
  rw [lineOrderOf, hfm, List.filter_eq_nil_iff.2 fun l hl ↦ by
    simpa using hall l (List.mem_range.1 hl), List.append_nil]

/-- An order whose first entry is not a line number offers the lines in numerical order. -/
theorem connOrder_of_head_neg {mp : Tmxr} {a : Int} (h : (mp.lnorder.getD []).head? = some a)
    (ha : a < 0) : connOrder mp = List.range mp.lines := by
  obtain ⟨os, hos⟩ := List.head?_eq_some_iff.1 h
  have htw : (a :: os).takeWhile (fun o : Int ↦ 0 ≤ o ∧ o < mp.lines) = [] :=
    List.takeWhile_cons_of_neg (by simp; omega)
  simp only [connOrder, scanLines, hos, htw]
  simp [List.range_eq_range']

/-- An order of all the lines offers them as it stands. -/
theorem connOrder_of_perm {mp : Tmxr} {L : List Nat} (h : mp.lnorder = some (L.map Int.ofNat))
    (hperm : L.Perm (List.range mp.lines)) : connOrder mp = L := by
  have hall : ∀ x ∈ L.map Int.ofNat, 0 ≤ x ∧ x < mp.lines := fun x hx ↦ by
    obtain ⟨n, hn, rfl⟩ := List.mem_map.1 hx
    have := List.mem_range.1 (hperm.mem_iff.1 hn)
    simp only [Int.ofNat_eq_coe]
    omega
  have htw : (L.map Int.ofNat).takeWhile (fun o : Int ↦ 0 ≤ o ∧ o < mp.lines) = L.map Int.ofNat :=
    List.takeWhile_eq_self_iff.2 fun x hx ↦ by simpa using hall x hx
  have hlen : L.length = mp.lines := by simpa using hperm.length_eq
  have htake : (L.map Int.ofNat).take mp.lines = L.map Int.ofNat :=
    List.take_of_length_le (by simp [hlen])
  simp only [connOrder, scanLines, h, Option.getD_some, htw, htake, List.map_map, List.length_map,
    hlen, Nat.sub_self, List.range'_zero, List.append_nil]
  simp [Function.comp_def]

/-- The one range of all the lines, read back, stores the sequential marker. -/
theorem tmxrSetLnorder_all_lines (mp : Tmxr) {o : List Int} (ho : mp.lnorder = some o)
    (hN : 1 ≤ mp.lines) :
    (tmxrSetLnorder mp ((natRanges [(0, (mp.lines : Int) - 1)]).map some)).2 = .ok ∧
      ((tmxrSetLnorder mp ((natRanges [(0, (mp.lines : Int) - 1)]).map some)).1.lnorder.getD
        []).head? = some (-1) ∧
      connOrder (tmxrSetLnorder mp ((natRanges [(0, (mp.lines : Int) - 1)]).map some)).1 =
        List.range mp.lines := by
  have hback : (natRanges [(0, (mp.lines : Int) - 1)]).map some =
      ([] : List (Nat × Nat)).map some ++ some (0, mp.lines - 1) :: [] := by
    simp only [natRanges, List.map_cons, List.map_nil, List.nil_append, Int.toNat_zero]
    congr
    omega
  rw [hback]
  obtain ⟨hok, hhead⟩ := tmxrSetLnorder_whole mp ho hN [] (by simp) []
  refine ⟨hok, hhead, ?_⟩
  rw [connOrder_of_head_neg hhead (by decide), tmxrSetLnorder_lines]

/-- An order of all the lines holds line numbers only: it is a permutation `L` of the lines,
read as integers. -/
theorem exists_perm_of_perm_map {o : List Int} {N : Nat}
    (h : o.Perm ((List.range N).map Int.ofNat)) :
    ∃ L : List Nat, o = L.map Int.ofNat ∧ L.Perm (List.range N) := by
  refine ⟨o.map Int.toNat, ?_, by simpa [List.map_map, Function.comp_def] using h.map Int.toNat⟩
  rw [List.map_map]
  conv_lhs => rw [← List.map_id o]
  exact List.map_congr_left fun x hx ↦ by
    obtain ⟨n, -, rfl⟩ := List.mem_map.1 (h.mem_iff.1 hx)
    rfl

/-- An order of line numbers `x₀ :: xs` prints as the runs read from `x₀` over `xs` and the
tie-off. -/
theorem shownRanges_cons (x₀ : Nat) (xs : List Nat) :
    shownRanges (xs.length + 1) ((x₀ :: xs).map Int.ofNat) =
      showRuns x₀ x₀ (xs.map Int.ofNat ++ [-1]) := by
  have hx₀ : ¬Int.ofNat x₀ < 0 := Int.not_lt.2 (Int.ofNat_nonneg x₀)
  rw [shownRanges, List.map_cons, List.getD_cons_zero, if_neg hx₀, ← List.length_map xs Int.ofNat,
    showEntries_cons]
  rfl

/-- The numerical order prints as the one range of all the lines. -/
theorem shownRanges_range {N : Nat} (hN : 1 ≤ N) :
    shownRanges N ((List.range N).map Int.ofNat) = [(0, (N : Int) - 1)] := by
  obtain ⟨n, rfl⟩ : ∃ n, N = n + 1 := ⟨N - 1, by omega⟩
  have h := shownRanges_cons 0 (List.range' 1 n)
  rw [List.length_range'] at h
  rw [List.range_eq_range', List.range'_succ, h, showRuns_consecutive]
  simp

/-- Any other order of the lines prints as runs of line numbers that are part ranges and,
read back, list the order. -/
theorem shownRanges_parts {N : Nat} {L : List Nat} (hL : L.Perm (List.range N))
    (hid : L ≠ List.range N) :
    (∀ r ∈ shownRanges N (L.map Int.ofNat), 0 ≤ r.1 ∧ r.1 ≤ r.2) ∧
      rangeLines (natRanges (shownRanges N (L.map Int.ofNat))) = L ∧
      ∀ r ∈ natRanges (shownRanges N (L.map Int.ofNat)), PartRange (N - 1) r := by
  have hlen : L.length = N := by rw [hL.length_eq, List.length_range]
  cases L with
  | nil =>
    subst hlen
    exact absurd List.range_zero.symm hid
  | cons x₀ xs =>
  obtain rfl : N = xs.length + 1 := by rw [← hlen, List.length_cons]
  rw [shownRanges_cons]
  obtain ⟨hpos, hexp⟩ := showRuns_expand xs x₀ x₀ (Nat.le_refl x₀)
  replace hexp : rangeLines (natRanges (showRuns x₀ x₀ (xs.map Int.ofNat ++ [-1]))) = x₀ :: xs := by
    rw [hexp, Nat.add_sub_cancel_left]
    rfl
  refine ⟨hpos, hexp, fun r hr ↦ ?_⟩
  obtain ⟨r', hr', rfl⟩ := List.mem_map.1 hr
  have hle := hpos r' hr'
  have hlast : r'.2.toNat ∈ x₀ :: xs := by
    rw [← hexp]
    exact List.mem_flatMap.2 ⟨_, hr, List.mem_range'_1.2 ⟨by omega, by omega⟩⟩
  have hlt := List.mem_range.1 (hL.mem_iff.1 hlast)
  refine ⟨by omega, by omega, fun hw ↦ hid ?_⟩
  rw [← hexp]
  refine rangeLines_eq_range (by omega) (by rw [hexp, List.length_cons]) ?_
  rw [← hw.1, ← hw.2]
  exact hr

/-- The sequential marker prints as the one range of all the lines. -/
theorem shownRanges_of_head_neg (N : Nat) (os : List Int) :
    shownRanges N (-1 :: os) = [(0, (N : Int) - 1)] := by
  simp [shownRanges]

/-- For an order that `SET LINEORDER` stores, `tmxr_show_lnorder` succeeds and prints the
ranges `shownRanges` finds: the sequential marker as the one range of all the lines, any other
order as its runs. -/
theorem tmxrShowLnorder_shows (mp : Tmxr) (o : List Int) (hN : 1 ≤ mp.lines)
    (ho : mp.lnorder = some o)
    (hstore : o.head? = some (-1) ∨ o.Perm ((List.range mp.lines).map Int.ofNat)) :
    (tmxrShowLnorder mp).2 = .ok ∧ ShowsRanges (tmxrShowLnorder mp).1 (shownRanges mp.lines o) := by
  rcases hstore with hneg | hperm
  · obtain ⟨os, rfl⟩ := List.head?_eq_some_iff.1 hneg
    have htext : tmxrShowLnorder mp =
        ("Order=" ++ "0-" ++ toString ((mp.lines : Int) - 1) ++ "\n", .ok) := by
      simp [tmxrShowLnorder, ho]
    rw [shownRanges_of_head_neg, htext]
    refine ⟨rfl, "0-" ++ toString ((mp.lines : Int) - 1), [], .inl rfl, .nil, ?_⟩
    rw [String.ext_iff]
    simp
  obtain ⟨L, rfl, hL⟩ := exists_perm_of_perm_map hperm
  have hlen : L.length = mp.lines := by rw [hL.length_eq, List.length_range]
  obtain ⟨x₀, xs, rfl⟩ := List.exists_cons_of_length_pos (by omega : 0 < L.length)
  have hne : shownRanges mp.lines ((x₀ :: xs).map Int.ofNat) ≠ [] := by
    rw [← hlen, List.length_cons, shownRanges_cons]
    intro h
    have := (showRuns_expand xs x₀ x₀ (Nat.le_refl x₀)).2
    rw [h] at this
    simp [natRanges, rangeLines] at this
  have hhead : ¬((x₀ :: xs).map Int.ofNat).getD 0 0 < 0 := Int.not_lt.2 (Int.ofNat_nonneg x₀)
  have htext : tmxrShowLnorder mp =
      (runsText true (shownRanges mp.lines ((x₀ :: xs).map Int.ofNat)), .ok) := by
    simp only [tmxrShowLnorder, ho, if_neg hhead]
  rw [htext]
  exact ⟨rfl, runsText_shows hne⟩

/-- The ranges `shownRanges` finds for a stored order, given back to `SET LINEORDER`: they
are accepted and rebuild the same connection order, with the marker exactly when the order had
it or was the numerical order, and any other order entry for entry. -/
theorem shownRanges_readBack (mp : Tmxr) (o : List Int) (hN : 1 ≤ mp.lines)
    (ho : mp.lnorder = some o)
    (hstore : o.head? = some (-1) ∨ o.Perm ((List.range mp.lines).map Int.ofNat)) :
    (∀ r ∈ shownRanges mp.lines o, 0 ≤ r.1 ∧ r.1 ≤ r.2) ∧
      (tmxrSetLnorder mp ((natRanges (shownRanges mp.lines o)).map some)).2 = .ok ∧
      connOrder (tmxrSetLnorder mp ((natRanges (shownRanges mp.lines o)).map some)).1 =
        connOrder mp ∧
      if o.head? = some (-1) ∨ o = (List.range mp.lines).map Int.ofNat then
        ((tmxrSetLnorder mp ((natRanges (shownRanges mp.lines o)).map some)).1.lnorder.getD
          []).head? = some (-1)
      else (tmxrSetLnorder mp ((natRanges (shownRanges mp.lines o)).map some)).1.lnorder = some o := by
  have hwhole := tmxrSetLnorder_all_lines mp ho hN
  have hrun : ∀ r ∈ [((0 : Int), (mp.lines : Int) - 1)], 0 ≤ r.1 ∧ r.1 ≤ r.2 := by simp; omega
  rcases hstore with hneg | hperm
  · obtain ⟨os, rfl⟩ := List.head?_eq_some_iff.1 hneg
    rw [shownRanges_of_head_neg, if_pos (.inl hneg), @connOrder_of_head_neg mp (-1) (by rw [ho]; rfl) (by decide)]
    exact ⟨hrun, hwhole.1, hwhole.2.2, hwhole.2.1⟩
  obtain ⟨L, rfl, hL⟩ := exists_perm_of_perm_map hperm
  have hmpL : connOrder mp = L := connOrder_of_perm ho hL
  by_cases hid : L = List.range mp.lines
  · subst hid
    rw [shownRanges_range hN, if_pos (.inr rfl), hmpL]
    exact ⟨hrun, hwhole.1, hwhole.2.2, hwhole.2.1⟩
  obtain ⟨hpos, hexp, hparts⟩ := shownRanges_parts hL hid
  have hne : natRanges (shownRanges mp.lines (L.map Int.ofNat)) ≠ [] := fun h ↦ by
    rw [h] at hexp
    have := hL.length_eq
    rw [← hexp] at this
    simp [rangeLines] at this
    omega
  obtain ⟨heq, -⟩ := tmxrSetLnorder_parts mp ho hN _ hparts hne
  have hback : lineOrderOf mp.lines (natRanges (shownRanges mp.lines (L.map Int.ofNat))) = L := by
    rw [lineOrderOf_eq_rangeLines (by rw [hexp]; exact hL.nodup_iff.2 (List.nodup_range _))
      fun l hl ↦ by rw [hexp]; exact hL.mem_iff.2 (List.mem_range.2 hl), hexp]
  have hnot : ¬((L.map Int.ofNat).head? = some (-1) ∨
      L.map Int.ofNat = (List.range mp.lines).map Int.ofNat) := by
    rintro (h | h)
    · cases L <;> simp at h
    · exact hid (List.map_injective_iff.2 (fun _ _ ↦ Int.ofNat.inj) h)
  have hsame : { mp with lnorder := some (L.map Int.ofNat) } = mp := by rw [← ho]
  rw [heq, hback, hsame, if_neg hnot]
  exact ⟨hpos, rfl, rfl, ho⟩

/-- Four lines in the order `2;3;0;1`. -/
def rotatedFour : Tmxr :=
  Tmxr.init 4 (some [2, 3, 0, 1]) none

/-- The order prints as two runs. -/
example : (tmxrShowLnorder rotatedFour).1 = "Order=2-3;0-1\n" := by
  decide

end TelnetMux
