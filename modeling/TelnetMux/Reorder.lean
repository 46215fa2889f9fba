import TelnetMux.Console
import TelnetMux.LineOrder

/-!
# Setting the connection order while the multiplexer runs

`SET LINEORDER` (`tmxr_set_lnorder`) may come at any time between the library's calls and the
log commands. The order it stores is one the search of `tmxr_poll_conn` can use, and no call
of the library or log command changes the order or the number of lines; so along every such
run, from a multiplexer whose device declares no order or a usable one, a connection made while
a line is free goes to the first free line of the connection order. Connections accepted one
after the other on free lines therefore fill the lines in that order, each line once.
-/

namespace TelnetMux

/-- A call on the multiplexer, a log command, or `SET LINEORDER` with the ranges of its
value. -/
inductive OrderOp
  | sys (op : Op)
  | lnorder (ranges : List (Option (Nat × Nat)))

def orderStep (c : Consts) (s : LogSys) : OrderOp → LogSys
  | .sys op => sysStep c s op
  | .lnorder ranges => { s with mp := (tmxrSetLnorder s.mp ranges).1 }

def OrderOp.Valid (mp : Tmxr) : OrderOp → Prop
  | .sys op => op.Valid mp
  | .lnorder _ => True

/-- The states reached from `s₀` by valid steps, `SET LINEORDER` among them. -/
inductive OrderReachable (c : Consts) (s₀ : LogSys) : LogSys → Prop
  | init : OrderReachable c s₀ s₀
  | step {s : LogSys} {op : OrderOp} : OrderReachable c s₀ s → op.Valid s.mp →
      OrderReachable c s₀ (orderStep c s op)

section

variable {c : Consts}

/-- No step changes the number of lines, and every step leaves an order the search can use. -/
theorem orderStep_orderOk (s : LogSys) (op : OrderOp) (hN : 1 ≤ s.mp.lines)
    (h : OrderOk s.mp.lines s.mp.lnorder) :
    (orderStep c s op).mp.lines = s.mp.lines ∧
      OrderOk (orderStep c s op).mp.lines (orderStep c s op).mp.lnorder := by
  cases op with
  | sys op =>
    obtain ⟨hl, ho⟩ := sysStep_shape (c := c) s op
    refine ⟨hl, ?_⟩
    show OrderOk (sysStep c s op).mp.lines (sysStep c s op).mp.lnorder
    rw [hl, ho]
    exact h
  | lnorder ranges =>
    exact ⟨tmxrSetLnorder_lines s.mp ranges, tmxrSetLnorder_orderOk s.mp hN h ranges⟩

theorem OrderReachable.orderOk {n : Nat} {ord : Option (List Int)} {dn : Option (List UInt8)}
    {s : LogSys} (hN : 1 ≤ n) (hord : OrderOk n ord)
    (hs : OrderReachable c (LogSys.init (Tmxr.init n ord dn)) s) :
    s.mp.lines = n ∧ OrderOk s.mp.lines s.mp.lnorder := by
  induction hs with
  | init => exact ⟨rfl, hord⟩
  | step _ _ ih =>
    obtain ⟨hl, ho⟩ := orderStep_orderOk _ _ (ih.1 ▸ hN) ih.2
    exact ⟨hl.trans ih.1, ho⟩

/-- Along every run from a multiplexer whose device declares no connection order or one
`tmxr_poll_conn` can use, through any interleaving of the library's calls, log commands and
`SET LINEORDER` commands: while a line is free, `tmxr_poll_conn` connects a socket it accepts
on the first free line of the connection order. -/
theorem orderReachable_first_free {n : Nat} {ord : Option (List Int)} {dn : Option (List UInt8)}
    {s : LogSys} (hN : 1 ≤ n) (hord : OrderOk n ord)
    (hs : OrderReachable c (LogSys.init (Tmxr.init n ord dn)) s)
    (hfree : ∃ l < s.mp.lines, (s.mp.ldsc l).conn = 0) (sock : Nat)
    (w : Nat → SockWrite × SockWrite) :
    ∃ l < s.mp.lines, (connOrder s.mp).find? (fun l ↦ (s.mp.ldsc l).conn = 0) = some l ∧
      (tmxrPollConn c s.mp (some sock) w).2.1 = l ∧
      ((tmxrPollConn c s.mp (some sock) w).1.ldsc l).conn = sock := by
  obtain ⟨l, hl, hfind, -, hidx⟩ := connLineIdx_first_free s.mp (hs.orderOk hN hord).2 hfree
  have h := tmxrPollConn_conn s.mp c sock w (by rw [hidx]; exact_mod_cast hl)
  rw [hidx] at h
  exact ⟨l, hl, hfind, h.1, h.2⟩

end

/-- Two free lines declared in the order `0;1`, then `SET LINEORDER=1`. -/
def pairReordered : LogSys :=
  orderStep sampleConsts (LogSys.init (Tmxr.init 2 (some [0, 1]) none)) (.lnorder [some (1, 1)])

theorem pairReordered_first_free :
    OrderOk 2 (some [0, 1]) ∧
      OrderReachable sampleConsts (LogSys.init (Tmxr.init 2 (some [0, 1]) none)) pairReordered ∧
      (∃ l < pairReordered.mp.lines, (pairReordered.mp.ldsc l).conn = 0) ∧
      ∃ l < pairReordered.mp.lines,
        (connOrder pairReordered.mp).find? (fun l ↦ (pairReordered.mp.ldsc l).conn = 0) = some l ∧
        (tmxrPollConn sampleConsts pairReordered.mp (some 5) fun _ ↦ (.error, .error)).2.1 = l ∧
        ((tmxrPollConn sampleConsts pairReordered.mp (some 5) fun _ ↦ (.error, .error)).1.ldsc
          l).conn = 5 :=
  have hord : OrderOk 2 (some [0, 1]) := by decide
  have hs : OrderReachable sampleConsts (LogSys.init (Tmxr.init 2 (some [0, 1]) none))
      pairReordered := .step .init trivial
  have hfree : ∃ l < pairReordered.mp.lines, (pairReordered.mp.ldsc l).conn = 0 :=
    ⟨0, by decide, by decide⟩
  ⟨hord, hs, hfree, orderReachable_first_free (by decide) hord hs hfree 5 _⟩

/-- The order set puts line 1 first. -/
example : connOrder pairReordered.mp = [1, 0] := by decide

/-! ## A burst of connections -/

section Burst

variable {c : Consts} {mp : Tmxr}

theorem length_connOrder (mp : Tmxr) : (connOrder mp).length = mp.lines := by
  simp only [connOrder, scanLines, List.length_append, List.length_range', List.length_map,
    List.length_take]
  omega

/-- Under an order the search can use, it offers every line once. -/
theorem nodup_connOrder (h : OrderOk mp.lines mp.lnorder) : (connOrder mp).Nodup := by
  have hsub : (List.range mp.lines).Subperm (connOrder mp) :=
    List.subperm_of_subset (List.nodup_range _) fun l hl ↦
      mem_connOrder mp h (List.mem_range.1 hl)
  have hperm := hsub.perm_of_length_le (by rw [length_connOrder, List.length_range])
  exact hperm.nodup_iff.1 (List.nodup_range _)

/-- A connection changes neither the number of lines nor the order. -/
theorem connOrder_tmxrPollConn (acc : Option Nat) (w : Nat → SockWrite × SockWrite) :
    connOrder (tmxrPollConn c mp acc w).1 = connOrder mp := by
  simp only [connOrder, scanLines, tmxrPollConn_lines, tmxrPollConn_lnorder]

/-- A connection accepted while the lines, read along the order, hold the sockets `done` and
then are free, goes to the first free one: the lines then hold `done ++ [sock]`. -/
theorem tmxrPollConn_next_in_order (h : OrderOk mp.lines mp.lnorder) {done : List Nat}
    (hd : ∀ x ∈ done, x ≠ 0) (hlt : done.length < mp.lines)
    (hconn : (connOrder mp).map (fun l ↦ (mp.ldsc l).conn) =
      done ++ List.replicate (mp.lines - done.length) 0)
    (sock : Nat) (w : Nat → SockWrite × SockWrite) :
    (connOrder mp).map (fun l ↦ ((tmxrPollConn c mp (some sock) w).1.ldsc l).conn) =
      (done ++ [sock]) ++ List.replicate (mp.lines - (done.length + 1)) 0 := by
  have hlen : done.length < (connOrder mp).length := by rw [length_connOrder]; exact hlt
  obtain ⟨l, rest, hdrop⟩ : ∃ l rest, (connOrder mp).drop done.length = l :: rest :=
    ⟨_, _, List.drop_eq_getElem_cons hlen⟩
  have hpre : ((connOrder mp).take done.length).map (fun l ↦ (mp.ldsc l).conn) = done := by
    rw [List.map_take, hconn, List.take_left' rfl]
  have hsuf : (l :: rest).map (fun l ↦ (mp.ldsc l).conn) =
      List.replicate (mp.lines - done.length) 0 := by
    rw [← hdrop, List.map_drop, hconn, List.drop_left' rfl]
  have hL : connOrder mp = (connOrder mp).take done.length ++ l :: rest := by
    rw [← hdrop, List.take_append_drop]
  have hnd : ((connOrder mp).take done.length ++ l :: rest).Nodup := by
    rw [← hL]; exact nodup_connOrder h
  generalize (connOrder mp).take done.length = pre at hpre hL hnd
  have hfree : (mp.ldsc l).conn = 0 ∧ rest.map (fun l ↦ (mp.ldsc l).conn) =
      List.replicate (mp.lines - (done.length + 1)) 0 := by
    rw [show mp.lines - done.length = mp.lines - (done.length + 1) + 1 by omega,
      List.replicate_succ, List.map_cons, List.cons.injEq] at hsuf
    exact hsuf
  have hbusy : ∀ x ∈ pre, (mp.ldsc x).conn ≠ 0 := fun x hx ↦
    hd _ (hpre ▸ List.mem_map_of_mem _ hx)
  have hfind : (connOrder mp).find? (fun l ↦ (mp.ldsc l).conn = 0) = some l := by
    rw [hL, List.find?_append, List.find?_eq_none.2 fun x hx ↦ by simpa using hbusy x hx,
      List.find?_cons_of_pos _ (by simpa using hfree.1)]
    rfl
  have hl : l < mp.lines :=
    lt_of_mem_connOrder mp (by rw [hL]; exact List.mem_append_right _ (.head _))
  obtain ⟨l', -, hfind', -, hidx⟩ := connLineIdx_first_free mp h ⟨l, hl, hfree.1⟩
  rw [hfind] at hfind'
  cases hfind'
  have hnew := (tmxrPollConn_conn mp c sock w (by rw [hidx]; exact_mod_cast hl)).2
  rw [hidx, Int.toNat_ofNat] at hnew
  have hkeep (x : Nat) (hx : x ∈ connOrder mp) (hne : x ≠ l) :
      ((tmxrPollConn c mp (some sock) w).1.ldsc x).conn = (mp.ldsc x).conn :=
    (tmxrPollConn_ldsc_of_ne mp c sock w hidx hl (lt_of_mem_connOrder mp hx) hne).conn
  have hnotin := List.nodup_append.1 hnd
  rw [hL, List.map_append, List.map_cons, hnew,
    List.map_congr_left fun x hx ↦ hkeep x (by rw [hL]; exact List.mem_append_left _ hx)
      fun e ↦ hnotin.2.2 (e ▸ hx) (.head _),
    List.map_congr_left fun x hx ↦
      hkeep x (by rw [hL]; exact List.mem_append_right _ (.tail _ hx))
      fun e ↦ (List.nodup_cons.1 hnotin.2.1).1 (e ▸ hx),
    hpre, hfree.2, List.append_assoc, List.singleton_append]

/-- The connections of a burst, taken one after the other. -/
theorem muxRun_next_in_order (h : OrderOk mp.lines mp.lnorder)
    (w : Nat → SockWrite × SockWrite) :
    ∀ (socks done : List Nat) (mp' : Tmxr), connOrder mp' = connOrder mp →
      mp'.lines = mp.lines →
      mp'.lnorder = mp.lnorder → (∀ x ∈ done ++ socks, x ≠ 0) →
      done.length + socks.length ≤ mp.lines →
      (connOrder mp).map (fun l ↦ (mp'.ldsc l).conn) =
        done ++ List.replicate (mp.lines - done.length) 0 →
      (connOrder mp).map (fun l ↦
          ((muxRun c mp' (socks.map fun sock ↦ .pollConn (some sock) w)).ldsc l).conn) =
        (done ++ socks) ++ List.replicate (mp.lines - (done.length + socks.length)) 0
  | [], done, mp', _, _, _, _, _, hconn => by simpa using hconn
  | sock :: socks, done, mp', ho, hl, hn, hs, hlen, hconn => by
    have h' : OrderOk mp'.lines mp'.lnorder := by rw [hl, hn]; exact h
    have hstep := tmxrPollConn_next_in_order (c := c) h'
      (fun x hx ↦ hs x (List.mem_append_left _ hx))
      (by rw [hl]; simp only [List.length_cons] at hlen; omega) (by rw [ho, hl]; exact hconn)
      sock w
    rw [ho, hl] at hstep
    have ih := muxRun_next_in_order h w socks (done ++ [sock]) _
      ((connOrder_tmxrPollConn _ w).trans ho) ((tmxrPollConn_lines _ c w _).trans hl)
      ((tmxrPollConn_lnorder _ c w _).trans hn) (by simpa using hs)
      (by simp only [List.length_append, List.length_cons, List.length_nil] at hlen ⊢; omega)
      (by simpa using hstep)
    have e : (done ++ [sock]).length + socks.length = done.length + (sock :: socks).length := by
      simp only [List.length_append, List.length_cons, List.length_nil]; omega
    rw [e] at ih
    simpa only [List.append_assoc, List.singleton_append, List.cons_append] using ih

/-- Connections accepted one after the other on a multiplexer whose lines are all free, under an
order the search can use (the one `SET LINEORDER` leaves, or none), fill the lines in the
connection order: read along that order, the lines hold the sockets in the order they came, then
free lines. -/
theorem muxRun_pollConn_in_order (h : OrderOk mp.lines mp.lnorder)
    (hfree : ∀ l < mp.lines, (mp.ldsc l).conn = 0) {socks : List Nat}
    (hs : ∀ sock ∈ socks, sock ≠ 0) (hlen : socks.length ≤ mp.lines)
    (w : Nat → SockWrite × SockWrite) :
    (connOrder mp).map
        (fun l ↦ ((muxRun c mp (socks.map fun sock ↦ .pollConn (some sock) w)).ldsc l).conn) =
      socks ++ List.replicate (mp.lines - socks.length) 0 := by
  have hstart : (connOrder mp).map (fun l ↦ (mp.ldsc l).conn) = List.replicate mp.lines 0 :=
    List.eq_replicate_iff.2 ⟨by rw [List.length_map, length_connOrder], fun x hx ↦ by
      obtain ⟨l, hl, rfl⟩ := List.mem_map.1 hx
      exact hfree l (lt_of_mem_connOrder mp hl)⟩
  simpa using muxRun_next_in_order h w socks [] mp rfl rfl rfl (by simpa using hs)
    (by simpa using hlen) (by simpa using hstart)

end Burst

/-- Four free lines in the order `2;0;1;3`, as `SET LINEORDER=2;0` leaves it. -/
def fourOrdered : Tmxr :=
  Tmxr.init 4 (some [2, 0, 1, 3]) none

theorem fourOrdered_fill_in_order :
    OrderOk fourOrdered.lines fourOrdered.lnorder ∧
      (∀ l < fourOrdered.lines, (fourOrdered.ldsc l).conn = 0) ∧
      (∀ sock ∈ [5, 6, 7], sock ≠ 0) ∧ [5, 6, 7].length ≤ fourOrdered.lines ∧
      (connOrder fourOrdered).map (fun l ↦ ((muxRun sampleConsts fourOrdered
          ([5, 6, 7].map fun sock ↦ .pollConn (some sock) fun _ ↦ (.error, .error))).ldsc
            l).conn) =
        [5, 6, 7] ++ List.replicate (fourOrdered.lines - [5, 6, 7].length) 0 :=
  have h : OrderOk fourOrdered.lines fourOrdered.lnorder := by decide
  have hfree : ∀ l < fourOrdered.lines, (fourOrdered.ldsc l).conn = 0 := by decide
  have hs : ∀ sock ∈ [5, 6, 7], sock ≠ 0 := by decide
  have hlen : [5, 6, 7].length ≤ fourOrdered.lines := by decide
  ⟨h, hfree, hs, hlen, muxRun_pollConn_in_order h hfree hs hlen _⟩

/-- The order read: line 2 first, then 0, 1 and 3. -/
example : connOrder fourOrdered = [2, 0, 1, 3] := by decide

end TelnetMux
