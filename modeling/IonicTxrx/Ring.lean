import Mathlib

/-!
# The descriptor ring

`struct ionic_queue` as the transmit and receive paths use it: `num_descs` slots, a power of
two, the producer cursor `head_idx`, the consumer cursor `tail_idx`, one software `desc_info` per
slot, and the doorbell through which the driver announces `head_idx` to the device.

`ionic_q_post`, `ionic_q_space_avail` and `ionic_q_has_space` are defined in `ionic_dev.c`, which
is not part of this repository; they are modelled from the spec (§4.1). The cursor arithmetic
`(x + 1) & (num_descs - 1)` is written as in `ionic_txrx.c`.
-/

namespace IonicTxrx

/-- The ring size `num_descs`, a power of two, so that `x & (num_descs - 1)` wraps a cursor. -/
structure Ring where
  /-- `q->num_descs`. -/
  numDescs : Nat
  /-- Ring sizes are powers of two. -/
  pow2 : ∃ k, numDescs = 2 ^ k

namespace Ring

variable (r : Ring)

theorem numDescs_pos : 0 < r.numDescs := by
  obtain ⟨k, hk⟩ := r.pow2
  exact hk ▸ Nat.two_pow_pos k

/-- Masking with `num_descs - 1` is reduction modulo the ring size. -/
theorem land_eq_mod (x : Nat) : x &&& (r.numDescs - 1) = x % r.numDescs := by
  obtain ⟨k, hk⟩ := r.pow2
  rw [hk, Nat.and_pow_two_sub_one_eq_mod]

/-- `(x + 1) & (q->num_descs - 1)`: the slot after `x`. -/
def next (x : Nat) : Nat := (x + 1) &&& (r.numDescs - 1)

theorem next_eq {x : Nat} (hx : x < r.numDescs) :
    r.next x = if x + 1 < r.numDescs then x + 1 else 0 := by
  rw [next, land_eq_mod]
  split_ifs with h
  · exact Nat.mod_eq_of_lt h
  · rw [show x + 1 = r.numDescs by omega, Nat.mod_self]

theorem next_lt (x : Nat) : r.next x < r.numDescs := by
  rw [next, land_eq_mod]; exact Nat.mod_lt _ r.numDescs_pos

/-- `(head_idx - tail_idx) mod N`: how many slots are posted and not yet completed. -/
def inflight (head tail : Nat) : Nat := (head + r.numDescs - tail) % r.numDescs

theorem inflight_eq {head tail : Nat} (hh : head < r.numDescs) (ht : tail < r.numDescs) :
    r.inflight head tail = if tail ≤ head then head - tail else head + r.numDescs - tail := by
  rw [inflight]
  split_ifs with h
  · rw [show head + r.numDescs - tail = head - tail + r.numDescs by omega, Nat.add_mod_right,
      Nat.mod_eq_of_lt (by omega)]
  · exact Nat.mod_eq_of_lt (by omega)

theorem inflight_lt (head tail : Nat) : r.inflight head tail < r.numDescs :=
  Nat.mod_lt _ r.numDescs_pos

/-- Slot `i` lies in the window `[tail_idx, head_idx)` of posted, uncompleted slots. -/
def InWindow (head tail i : Nat) : Prop := r.inflight i tail < r.inflight head tail

instance (head tail i : Nat) : Decidable (r.InWindow head tail i) :=
  inferInstanceAs (Decidable (_ < _))

theorem next_cases {x : Nat} (hx : x < r.numDescs) :
    (r.next x = x + 1 ∧ x + 1 < r.numDescs) ∨ (r.next x = 0 ∧ x + 1 = r.numDescs) := by
  rw [r.next_eq hx]; split_ifs <;> omega

theorem inflight_next_head {head tail : Nat} (hh : head < r.numDescs) (ht : tail < r.numDescs)
    (hfull : r.inflight head tail + 1 < r.numDescs) :
    r.inflight (r.next head) tail = r.inflight head tail + 1 := by
  have hn := r.next_lt head
  obtain ⟨he, h1⟩ | ⟨he, h1⟩ := r.next_cases hh <;> rw [he] at hn ⊢ <;>
    simp only [r.inflight_eq hh ht, r.inflight_eq hn ht] at hfull ⊢ <;>
    split_ifs at hfull ⊢ <;> omega

theorem inflight_next_tail {head tail : Nat} (hh : head < r.numDescs) (ht : tail < r.numDescs)
    (hne : tail ≠ head) : r.inflight head (r.next tail) + 1 = r.inflight head tail := by
  have hn := r.next_lt tail
  obtain ⟨he, h1⟩ | ⟨he, h1⟩ := r.next_cases ht <;> rw [he] at hn ⊢ <;>
    simp only [r.inflight_eq hh ht, r.inflight_eq hh hn] <;>
    split_ifs <;> omega

/-- Different slots stand at different distances behind one cursor. -/
theorem inflight_inj {head i tail : Nat} (hi : i < r.numDescs) (hh : head < r.numDescs)
    (ht : tail < r.numDescs) : r.inflight i tail = r.inflight head tail ↔ i = head := by
  rw [r.inflight_eq hi ht, r.inflight_eq hh ht]
  split_ifs <;> omega

/-- The slot a cursor just left is the farthest behind it. -/
theorem inflight_next_self {x : Nat} (hx : x < r.numDescs) : r.inflight x (r.next x) = r.numDescs - 1 := by
  have hn := r.next_lt x
  rw [r.inflight_eq hx hn]
  obtain ⟨he, h1⟩ | ⟨he, h1⟩ := r.next_cases hx <;> rw [he] <;> split_ifs <;> omega

/-- Posting at `head_idx` adds exactly the slot `head_idx` to the window, as long as the ring
is not full. -/
theorem inWindow_next_head {head tail i : Nat} (hh : head < r.numDescs) (ht : tail < r.numDescs)
    (hi : i < r.numDescs) (hfull : r.inflight head tail + 1 < r.numDescs) :
    r.InWindow (r.next head) tail i ↔ r.InWindow head tail i ∨ i = head := by
  unfold InWindow
  rw [r.inflight_next_head hh ht hfull, Nat.lt_succ_iff, le_iff_lt_or_eq, r.inflight_inj hi hh ht]

/-- Completing the slot at `tail_idx` removes exactly that slot from a nonempty window. -/
theorem inWindow_next_tail {head tail i : Nat} (hh : head < r.numDescs) (ht : tail < r.numDescs)
    (hi : i < r.numDescs) (hne : tail ≠ head) :
    r.InWindow head (r.next tail) i ↔ r.InWindow head tail i ∧ i ≠ tail := by
  unfold InWindow
  have hd := r.inflight_next_tail hh ht hne
  by_cases hit : i = tail
  · -- the slot just completed is the farthest behind the new `tail_idx`
    subst hit
    have := r.inflight_lt head i
    rw [r.inflight_next_self hi]
    omega
  · have := r.inflight_next_tail hi ht (Ne.symm hit)
    omega

theorem inflight_self (x : Nat) : r.inflight x x = 0 := by
  simp [inflight]

theorem inflight_eq_zero {head tail : Nat} (hh : head < r.numDescs) (ht : tail < r.numDescs) :
    r.inflight head tail = 0 ↔ head = tail := by
  rw [r.inflight_eq hh ht]; split_ifs <;> omega

theorem not_inWindow_of_eq {head i : Nat} : ¬ r.InWindow head head i := by
  simp [InWindow, inflight_self]

theorem next_eq_mod (x : Nat) : r.next x = (x + 1) % r.numDescs := by
  rw [next, land_eq_mod]

/-- The slot `j + 1` places after `x` is `j` places after the slot after `x`. -/
theorem next_add_mod (x j : Nat) : (r.next x + j) % r.numDescs = (x + (j + 1)) % r.numDescs := by
  rw [next_eq_mod, Nat.mod_add_mod, Nat.add_right_comm, Nat.add_assoc]

/-- Within one turn of the ring, `(x + j) mod N` wraps at most once. -/
theorem add_mod_eq {x j : Nat} (hx : x < r.numDescs) (hj : j ≤ r.numDescs) :
    (x + j) % r.numDescs = if x + j < r.numDescs then x + j else x + j - r.numDescs := by
  split_ifs with h
  · exact Nat.mod_eq_of_lt h
  · rw [Nat.mod_eq_sub_mod (by omega), Nat.mod_eq_of_lt (by omega)]

/-- Within one turn of the ring, different offsets from a slot reach different slots. -/
theorem add_mod_inj {x j k : Nat} (hj : j < r.numDescs) (hk : k < r.numDescs)
    (h : (x + j) % r.numDescs = (x + k) % r.numDescs) : j = k := by
  have h' : j % r.numDescs = k % r.numDescs := Nat.ModEq.add_left_cancel' x h
  rwa [Nat.mod_eq_of_lt hj, Nat.mod_eq_of_lt hk] at h'

/-- The slot `j` places after `tail` stands `j` slots into the window from `tail`. -/
theorem inflight_add_mod {t j : Nat} (ht : t < r.numDescs) (hj : j < r.numDescs) :
    r.inflight ((t + j) % r.numDescs) t = j := by
  unfold inflight
  rw [r.add_mod_eq ht hj.le]
  split_ifs
  · rw [show t + j + r.numDescs - t = j + r.numDescs by omega, Nat.add_mod_right, Nat.mod_eq_of_lt hj]
  · rw [show t + j - r.numDescs + r.numDescs - t = j by omega, Nat.mod_eq_of_lt hj]

/-- Walking `inflight head tail` slots from `tail` reaches `head`. -/
theorem add_inflight_mod {h t : Nat} (hh : h < r.numDescs) (ht : t < r.numDescs) :
    (t + r.inflight h t) % r.numDescs = h := by
  rw [r.inflight_eq hh ht]
  split_ifs
  · rw [Nat.add_sub_cancel' (by omega), Nat.mod_eq_of_lt hh]
  · rw [show t + (h + r.numDescs - t) = h + r.numDescs by omega, Nat.add_mod_right, Nat.mod_eq_of_lt hh]

/-- A cursor `x` of the window from `t`, moved `k` slots on without leaving the ring's turn. -/
theorem inflight_add_head {x t k : Nat} (hx : x < r.numDescs) (ht : t < r.numDescs)
    (hk : r.inflight x t + k < r.numDescs) : r.inflight ((x + k) % r.numDescs) t = r.inflight x t + k := by
  conv_lhs => rw [← r.add_inflight_mod hx ht, Nat.mod_add_mod, Nat.add_assoc]
  exact r.inflight_add_mod ht hk

/-- Moving `tail` `k` slots into the window shortens it by `k`. -/
theorem inflight_add_tail {h t k : Nat} (hh : h < r.numDescs) (ht : t < r.numDescs)
    (hk : k ≤ r.inflight h t) : r.inflight h ((t + k) % r.numDescs) = r.inflight h t - k := by
  have hN := r.inflight_lt h t
  conv_lhs => rw [← r.add_inflight_mod hh ht, ← Nat.add_sub_cancel' hk, ← Nat.add_assoc,
    ← Nat.mod_add_mod]
  exact r.inflight_add_mod (Nat.mod_lt _ r.numDescs_pos) (by omega)

/-- A cursor `s` inside the window `[t, h]` splits it in two. -/
theorem inflight_split {h s t : Nat} (hh : h < r.numDescs) (hs : s < r.numDescs) (ht : t < r.numDescs)
    (hle : r.inflight s t ≤ r.inflight h t) : r.inflight h t = r.inflight s t + r.inflight h s := by
  have hd := r.inflight_add_tail hh ht hle
  rw [r.add_inflight_mod hs ht] at hd
  omega

end Ring

/-- Changing the value at one index `i < n` changes a sum over `range n` by the difference. -/
theorem sum_update_arg {β : Type} (g : β → Nat) (arg : Nat → β) {i n : Nat} (hi : i < n) (a : β) :
    ∑ x ∈ Finset.range n, g (Function.update arg i a x) + g (arg i) =
      ∑ x ∈ Finset.range n, g (arg x) + g a := by
  have hm := Finset.mem_range.mpr hi
  have hf : (fun x => g (Function.update arg i a x)) = Function.update (fun x => g (arg x)) i (g a) := by
    funext x
    by_cases hx : x = i
    · subst hx; simp
    · simp [hx]
  rw [hf, Finset.sum_update_of_mem hm, Finset.sdiff_singleton_eq_erase,
    ← Finset.add_sum_erase _ _ hm]
  omega

/-- The fields of `struct ionic_queue` this core reads, over per-slot software state `α`
(`struct ionic_desc_info`). -/
structure Queue (α : Type) where
  /-- `q->index`: the netdev subqueue this queue serves. -/
  index : Nat
  /-- `q->head_idx`: the next slot to post. -/
  headIdx : Nat
  /-- `q->tail_idx`: the oldest posted slot not yet completed. -/
  tailIdx : Nat
  /-- `q->info[]`. -/
  info : Nat → α
  /-- The `head_idx` carried by the last doorbell written for this queue, if any. -/
  dbell : Option Nat
  /-- How many doorbells `ionic_q_post` has rung for this queue: at each it also sets
  `q->dbell_jiffies` and re-arms the `napi_deadline` timer, which live outside the queue here. -/
  rings : Nat

namespace Queue

variable {α : Type} (r : Ring)

/-- Replace the software state of slot `i`. -/
def setInfo (q : Queue α) (i : Nat) (d : α) : Queue α :=
  { q with info := Function.update q.info i d }

@[simp] theorem setInfo_info_self (q : Queue α) (i : Nat) (d : α) : (q.setInfo i d).info i = d := by
  simp [setInfo]

@[simp] theorem setInfo_info_ne (q : Queue α) {i j : Nat} (d : α) (h : j ≠ i) :
    (q.setInfo i d).info j = q.info j := by
  simp [setInfo, h]

@[simp] theorem setInfo_headIdx (q : Queue α) (i : Nat) (d : α) : (q.setInfo i d).headIdx = q.headIdx := rfl
@[simp] theorem setInfo_tailIdx (q : Queue α) (i : Nat) (d : α) : (q.setInfo i d).tailIdx = q.tailIdx := rfl
@[simp] theorem setInfo_index (q : Queue α) (i : Nat) (d : α) : (q.setInfo i d).index = q.index := rfl
@[simp] theorem setInfo_dbell (q : Queue α) (i : Nat) (d : α) : (q.setInfo i d).dbell = q.dbell := rfl
@[simp] theorem setInfo_rings (q : Queue α) (i : Nat) (d : α) : (q.setInfo i d).rings = q.rings := rfl

end Queue

variable {α : Type} (r : Ring)

/-- Modelled from the spec: `ionic_q_post` (`ionic_dev.c`, not in this repository) "writes one
descriptor + software metadata at `head_idx`, advances `head_idx` modulo N, and conditionally
signals hardware via a doorbell". The metadata is the callback argument, written by `meta`; the
doorbell carries the advanced `head_idx`, as every doorbell in `ionic_txrx.c` does
(`q->dbval | q->head_idx`). A ring is counted: the spec's debounce measures "the time since the
last ring", which `ionic_q_post` records in `q->dbell_jiffies` when it rings, re-arming the NAPI
deadline timer with it (`TxDbell.ring`). -/
def ionicQPost (q : Queue α) (ringDbell : Bool) (meta : α → α) : Queue α :=
  { q with
    info := Function.update q.info q.headIdx (meta (q.info q.headIdx))
    headIdx := r.next q.headIdx
    dbell := if ringDbell then some (r.next q.headIdx) else q.dbell
    rings := if ringDbell then q.rings + 1 else q.rings }

/-- Modelled from the spec: `ionic_q_space_avail` returns "count of free slots =
`N - 1 - ((head_idx - tail_idx) mod N)` (one slot always reserved to disambiguate full/empty)". -/
def ionicQSpaceAvail (q : Queue α) : Nat := r.numDescs - 1 - r.inflight q.headIdx q.tailIdx

/-- Modelled from the spec: `ionic_q_has_space(q, n)` "checks before multi-descriptor posts"
that `n` slots are free. -/
def ionicQHasSpace (q : Queue α) (want : Nat) : Bool := want ≤ ionicQSpaceAvail r q

section Post

variable (q : Queue α) (b : Bool) (f : α → α)

@[simp] theorem ionicQPost_headIdx : (ionicQPost r q b f).headIdx = r.next q.headIdx := rfl
@[simp] theorem ionicQPost_tailIdx : (ionicQPost r q b f).tailIdx = q.tailIdx := rfl
@[simp] theorem ionicQPost_index : (ionicQPost r q b f).index = q.index := rfl
@[simp] theorem ionicQPost_dbell :
    (ionicQPost r q b f).dbell = if b then some (r.next q.headIdx) else q.dbell := rfl
@[simp] theorem ionicQPost_rings : (ionicQPost r q b f).rings = if b then q.rings + 1 else q.rings := rfl

theorem ionicQPost_info (i : Nat) :
    (ionicQPost r q b f).info i = if i = q.headIdx then f (q.info q.headIdx) else q.info i := by
  by_cases h : i = q.headIdx <;> simp [ionicQPost, h]

@[simp] theorem ionicQPost_info_head : (ionicQPost r q b f).info q.headIdx = f (q.info q.headIdx) := by
  simp [ionicQPost_info]

@[simp] theorem ionicQPost_info_ne {i : Nat} (h : i ≠ q.headIdx) : (ionicQPost r q b f).info i = q.info i := by
  simp [ionicQPost_info, h]

end Post

theorem ionicQHasSpace_iff (q : Queue α) (n : Nat) :
    ionicQHasSpace r q n = true ↔ n + r.inflight q.headIdx q.tailIdx + 1 ≤ r.numDescs := by
  have := r.inflight_lt q.headIdx q.tailIdx
  simp only [ionicQHasSpace, ionicQSpaceAvail, decide_eq_true_eq]
  omega

/-! ## Steps read off an evaluation

A run of a fallible function is a step of a run relation once its result is known; these let a
concrete run name the result by the function's own value. -/

theorem eq_some_of_map_snd {α β : Type} {o : Option (α × β)} {b : β} (d : α) (h : o.map Prod.snd = some b) :
    o = some ((o.map Prod.fst).getD d, b) := by
  cases o with
  | none => cases h
  | some p => simp only [Option.map_some', Option.some.injEq] at h; subst h; rfl

theorem eq_some_of_map_fst {α β : Type} {o : Option (α × β)} {a : α} (d : β) (h : o.map Prod.fst = some a) :
    o = some (a, (o.map Prod.snd).getD d) := by
  cases o with
  | none => cases h
  | some p => simp only [Option.map_some', Option.some.injEq] at h; subst h; rfl

end IonicTxrx
