import IonicTxrx.Tx.Own

/-!
# The transmit ring is a FIFO of skbs

What a TX queue is for: skbs go in at one end and are freed, once the device has sent them, in
the order they went in. `TxFifo` is that abstract queue, with the ids of the skbs it has freed;
`push` takes an skb in, `free` frees one at once (a drop), `pop k` completes the `k` oldest. The
ring refines it through `TxState.fifo`: the skbs in flight are the callback arguments of the
window's slots from `tail_idx` on (`TxView.queue`; a TSO packet holds its skb in its first slot
only), and every call of the transmit core, from every state a regular queue reaches, is one
operation of the FIFO (`txReach_fifo`).
-/

namespace IonicTxrx

/-! ## The abstract queue -/

/-- A FIFO of skbs and the ids of the skbs freed, most recent first. -/
structure TxFifo where
  queue : List Skb
  freed : List Nat

namespace TxFifo

variable (q : TxFifo)

/-- Take `skb` in at the back. -/
def push (skb : Skb) : TxFifo := ⟨q.queue ++ [skb], q.freed⟩

/-- Free an skb without queueing it. -/
def free (k : Nat) : TxFifo := ⟨q.queue, k :: q.freed⟩

/-- Complete the `k` oldest skbs, freeing them in order. -/
def pop (k : Nat) : TxFifo := ⟨q.queue.drop k, ((q.queue.take k).map Skb.id).reverse ++ q.freed⟩

@[simp] theorem pop_zero : q.pop 0 = q := by
  cases q; simp [pop]

theorem pop_pop (k k' : Nat) : (q.pop k).pop k' = q.pop (k + k') := by
  simp only [pop, List.drop_drop, List.take_add, List.map_append, List.reverse_append, List.append_assoc,
    Nat.add_comm k' k]

/-- Completing at least every skb in flight completes them all. -/
theorem pop_of_le {k : Nat} (hk : q.queue.length ≤ k) : q.pop k = q.pop q.queue.length := by
  simp [pop, List.drop_of_length_le hk, List.take_of_length_le hk]

end TxFifo

/-! ## The skbs in flight -/

/-- The skbs in flight, oldest first: the callback arguments of the window's slots from
`tail_idx` to `head_idx`. -/
def TxView.queue (r : Ring) (v : TxView) : List Skb :=
  (List.range (r.inflight v.head v.tail)).filterMap fun j => v.arg ((v.tail + j) % r.numDescs)

/-- The FIFO a TX state stands for. -/
def TxState.fifo (c : TxqCfg) (s : TxState) : TxFifo := ⟨s.view.queue c.ring, s.released⟩

namespace TxView

variable {r : Ring} {v : TxView}

/-- Posting at `head_idx` while the ring has room puts the slot's skb at the back. -/
theorem queue_post (hh : v.head < r.numDescs) (ht : v.tail < r.numDescs)
    (hroom : r.inflight v.head v.tail + 1 < r.numDescs) (rd : Bool) (a : Option Skb) :
    (v.post r rd a).queue r = v.queue r ++ a.toList := by
  unfold queue
  rw [post_head, post_tail, post_arg, r.inflight_next_head hh ht hroom, List.range_succ, List.filterMap_append]
  congr 1
  · -- the slots already in the window are not `head_idx`
    refine List.filterMap_congr fun j hj => ?_
    have hj' := List.mem_range.mp hj
    rw [Function.update_noteq]
    intro he
    have := r.inflight_add_mod ht (show j < r.numDescs by omega)
    rw [he] at this
    omega
  · simp only [List.filterMap_cons, List.filterMap_nil]
    rw [r.add_inflight_mod hh ht, Function.update_same]
    cases a <;> rfl

/-- Completing the tail slot of a nonempty window takes its skb off the front. -/
theorem queue_complete (hh : v.head < r.numDescs) (ht : v.tail < r.numDescs) (hne : v.tail ≠ v.head) :
    v.queue r = (v.arg v.tail).toList ++ (v.complete r).queue r := by
  have hd := r.inflight_next_tail hh ht hne
  unfold queue
  rw [complete_head, complete_tail, complete_arg, ← hd, List.range_succ_eq_map, List.filterMap_cons,
    Nat.add_zero, Nat.mod_eq_of_lt ht, List.filterMap_map]
  have hrest : ∀ j ∈ List.range (r.inflight v.head (r.next v.tail)),
      ((fun j => v.arg ((v.tail + j) % r.numDescs)) ∘ Nat.succ) j =
        Function.update v.arg v.tail none ((r.next v.tail + j) % r.numDescs) := fun j hj => by
    have hj' := List.mem_range.mp hj
    have hN := r.inflight_lt v.head v.tail
    show v.arg ((v.tail + (j + 1)) % r.numDescs) = _
    rw [r.next_add_mod, Function.update_noteq]
    -- `j + 1` slots past `tail_idx`, inside one turn of the ring, is not `tail_idx`
    intro he
    have := r.add_mod_inj (x := v.tail) (j := j + 1) (k := 0) (by omega) r.numDescs_pos
      (by rw [he, Nat.add_zero, Nat.mod_eq_of_lt ht])
    omega
  rw [List.filterMap_congr hrest]
  cases v.arg v.tail <;> rfl

@[simp] theorem queue_sent (c : TxqCfg) (len : Nat) : (v.sent c len).queue r = v.queue r := by
  unfold sent; split <;> rfl

@[simp] theorem queue_completed (c : TxqCfg) (p b : Nat) : (v.completed c p b).queue r = v.queue r := by
  unfold completed; split_ifs <;> rfl

/-- One descriptor of `ionic_tx_tso_post`: the first carries the skb in. -/
theorem queue_tsoPost {c : TxqCfg} (hh : v.head < c.ring.numDescs) (ht : v.tail < c.ring.numDescs)
    (hroom : c.ring.inflight v.head v.tail + 1 < c.ring.numDescs) (skb : Skb) (g : TsoSeg) :
    (v.tsoPost c skb g).queue c.ring = v.queue c.ring ++ if g.start then [skb] else [] := by
  unfold tsoPost
  split
  · rw [queue_post (by rwa [sent_head]) (by rwa [sent_tail]) (by rwa [sent_head, sent_tail]), queue_sent]; rfl
  · rw [queue_post hh ht hroom]; rfl

/-- The descriptors of one TSO packet, posted while the ring has room for them, carry its skb in
once. -/
theorem queue_foldl_tsoPost {c : TxqCfg} (skb : Skb) :
    ∀ {start : Bool} {segs : List TsoSeg} {v : TxView}, SegFlags start segs → v.head < c.ring.numDescs →
      v.tail < c.ring.numDescs → c.ring.inflight v.head v.tail + segs.length < c.ring.numDescs →
      (segs.foldl (tsoPost c skb) v).queue c.ring = v.queue c.ring ++ if start ∧ segs ≠ [] then [skb] else []
  | _, [], _, _, _, _, _ => by simp
  | start, g :: gs, v, ⟨hst, _, hf⟩, hh, ht, hroom => by
    have hroom₁ : c.ring.inflight v.head v.tail + 1 < c.ring.numDescs := by
      simp only [List.length_cons] at hroom; omega
    obtain ⟨hh', ht'⟩ := tsoPost_head (c := c) skb v g
    have hnext := c.ring.inflight_next_head hh ht hroom₁
    rw [List.foldl_cons, queue_foldl_tsoPost skb hf (by rw [hh']; exact c.ring.next_lt _) (by rwa [ht'])
      (by rw [hh', ht', hnext]; simp only [List.length_cons] at hroom; omega), queue_tsoPost hh ht hroom₁, hst]
    cases start <;> simp

end TxView

/-! ## Each call of the transmit core is one operation of the FIFO -/

section Calls

variable {c : TxqCfg}

theorem TxState.fifo_bqlCompleted (s : TxState) (p b : Nat) : (s.bqlCompleted c p b).fifo c = s.fifo c := by
  unfold TxState.fifo
  rw [TxState.view_bqlCompleted, TxView.queue_completed]
  unfold TxState.bqlCompleted; split_ifs <;> rfl

/-- One pass of the completion loops: the tail slot's skb, if it holds one, is completed. -/
theorem ionicTxCleanTail_fifo (p b : Nat) {s : TxState} (hh : s.q.headIdx < c.ring.numDescs)
    (ht : s.q.tailIdx < c.ring.numDescs) (hne : s.q.tailIdx ≠ s.q.headIdx) :
    (ionicTxCleanTail c p b s).2.2.fifo c = (s.fifo c).pop ((s.q.info s.q.tailIdx).cbArg.toList.length) := by
  obtain ⟨hv, -, -⟩ := ionicTxCleanTail_view c p b s
  have hq : s.view.queue c.ring = (s.q.info s.q.tailIdx).cbArg.toList ++ (s.view.complete c.ring).queue c.ring :=
    TxView.queue_complete hh ht hne
  have hrel : (ionicTxCleanTail c p b s).2.2.released = ((s.q.info s.q.tailIdx).cbArg.map Skb.id).toList ++ s.released := by
    unfold ionicTxCleanTail
    dsimp only
    rw [TxState.released_setInfo, ionicTxClean_released]
    simp [TxState.setInfo]
  unfold TxState.fifo TxFifo.pop
  rw [hv, hrel, hq]
  change TxFifo.mk _ _ = TxFifo.mk (((s.q.info s.q.tailIdx).cbArg.toList ++ _).drop _) _
  cases (s.q.info s.q.tailIdx).cbArg <;> simp

/-- The loop of `ionic_tx_service`, while the slot it stops at lies in the window. -/
theorem ionicTxServiceLoop_fifo {ci : Nat} (hci : ci < c.ring.numDescs) :
    ∀ {fuel p b p' b' : Nat} {s s' : TxState}, BqlInv c s.view p b → c.ring.InWindow s.q.headIdx s.q.tailIdx ci →
      ionicTxServiceLoop c ci fuel p b s = some (p', b', s') → ∃ k, s'.fifo c = (s.fifo c).pop k
  | 0, _, _, _, _, _, _, _, _, h => by simp [ionicTxServiceLoop] at h
  | fuel + 1, p, b, p', b', s, s', hinv, hw, h => by
    have hne : s.q.tailIdx ≠ s.q.headIdx := fun he => c.ring.not_inWindow_of_eq (he ▸ hw)
    have hf := ionicTxCleanTail_fifo p b hinv.head_lt hinv.tail_lt hne
    obtain ⟨hv, hp, hb⟩ := ionicTxCleanTail_view c p b s
    have hinv₁ : BqlInv c (ionicTxCleanTail c p b s).2.2.view (ionicTxCleanTail c p b s).1
        (ionicTxCleanTail c p b s).2.1 := by
      rw [hv, hp, hb]; exact hinv.complete hne
    unfold ionicTxServiceLoop at h
    dsimp only at h
    split_ifs at h with hci'
    · obtain ⟨k, hk⟩ := ionicTxServiceLoop_fifo hci hinv₁ (by
        rw [show (ionicTxCleanTail c p b s).2.2.q.headIdx = s.q.headIdx from congrArg TxView.head hv,
          show (ionicTxCleanTail c p b s).2.2.q.tailIdx = c.ring.next s.q.tailIdx from congrArg TxView.tail hv]
        exact (c.ring.inWindow_next_tail hinv.head_lt hinv.tail_lt hci hne).mpr ⟨hw, Ne.symm hci'⟩) h
      exact ⟨_ + k, by rw [hk, hf, TxFifo.pop_pop]⟩
    · cases h; exact ⟨_, hf⟩

/-- The loop of `ionic_tx_empty` completes every skb in flight. -/
theorem ionicTxEmptyLoop_fifo :
    ∀ {fuel p b p' b' : Nat} {s s' : TxState}, BqlInv c s.view p b →
      ionicTxEmptyLoop c fuel p b s = some (p', b', s') → ∃ k, s'.fifo c = (s.fifo c).pop k ∧ s'.q.tailIdx = s'.q.headIdx
  | 0, _, _, _, _, _, _, _, h => by simp [ionicTxEmptyLoop] at h
  | fuel + 1, p, b, p', b', s, s', hinv, h => by
    unfold ionicTxEmptyLoop at h
    split_ifs at h with he
    · cases h; exact ⟨0, by simp, he.symm⟩
    have hf := ionicTxCleanTail_fifo p b hinv.head_lt hinv.tail_lt (Ne.symm he)
    obtain ⟨hv, hp, hb⟩ := ionicTxCleanTail_view c p b s
    dsimp only at h
    obtain ⟨k, hk, hte⟩ := ionicTxEmptyLoop_fifo (by rw [hv, hp, hb]; exact hinv.complete (Ne.symm he)) h
    exact ⟨_ + k, by rw [hk, hf, TxFifo.pop_pop], hte⟩

/-- `ionic_start_xmit` on a regular queue takes the skb in at the back (a TSO packet once for
all its descriptors), frees it at once, or returns `NETDEV_TX_BUSY` and changes nothing. -/
theorem ionicStartXmit_fifo {lif : Lif} {env : TxEnv} {skb : Skb} {s s' : TxState} {r : NetdevTx}
    (hinv : BqlInv c s.view 0 0) (hwf : skb.Wf) (ht : ionicStartXmitTarget lif skb = .txq s.q.index)
    (hx : ionicStartXmit lif c env skb s = some (s', r)) :
    (r = .ok ∧ ∃ skb₁, skb₁.id = skb.id ∧ s'.fifo c = (s.fifo c).push skb₁) ∨
      (r = .ok ∧ s'.fifo c = (s.fifo c).free skb.id) ∨ (r = .busy ∧ s'.fifo c = s.fifo c) := by
  rcases ionicStartXmit_view ht hx with ⟨hv, hbr⟩ | ⟨hr, hrel, hsp, skb₁, hskb, hng, hg⟩
  · -- a drop or a busy return: nothing enters the ring
    have hq : s'.view.queue c.ring = s.view.queue c.ring := by rw [hv]
    rcases ionicStartXmit_released ht hx with ⟨hr, hrel⟩ | ⟨hr, hrel | hrel⟩
    · exact .inr (.inr ⟨hr, by simp only [TxState.fifo, hq, hrel]⟩)
    · rcases hbr with hb | hb
      · rw [hb] at hr; cases hr
      · exact absurd hrel hb
    · exact .inr (.inl ⟨hr, by simp only [TxState.fifo, TxFifo.free, hq, hrel]⟩)
  · -- the skb, linearized or not, enters at the back
    have hid : skb₁.id = skb.id := by rcases hskb with rfl | rfl <;> rfl
    refine .inl ⟨hr, skb₁, hid, ?_⟩
    have hqueue : s'.view.queue c.ring = s.view.queue c.ring ++ [skb₁] := by
      rw [ionicQHasSpace_iff] at hsp
      change _ + c.ring.inflight s.view.head s.view.tail + 1 ≤ c.ring.numDescs at hsp
      cases hgso : skb.isGso
      · simp only [hgso, Bool.false_eq_true, if_false] at hsp
        rw [hng hgso, TxView.queue_post (by rw [TxView.sent_head]; exact hinv.head_lt)
          (by rw [TxView.sent_tail]; exact hinv.tail_lt) (by rw [TxView.sent_head, TxView.sent_tail]; omega),
          TxView.queue_sent]
        rfl
      · obtain ⟨segs, hf, hb, hv⟩ := hg hgso
        obtain ⟨hhdr, hsegs⟩ := hwf.gso hgso
        have hmss : 0 < skb.gsoSize := by simpa [Skb.isGso, Nat.pos_iff_ne_zero] using hgso
        rw [if_neg (by omega)] at hb
        have hn : segs.length = skb.gsoSegs := by
          rw [← List.length_map segs TsoSeg.bytes, hb, tsoSizes_length hmss hhdr, hsegs]
        have hne : segs ≠ [] := fun h0 => by rw [h0] at hb; simp [tsoSizes] at hb
        simp only [hgso, if_true] at hsp
        rw [hv, TxView.queue_foldl_tsoPost skb₁ hf hinv.head_lt hinv.tail_lt (by omega)]
        simp [hne]
    simp only [TxState.fifo, TxFifo.push, hqueue, hrel]

/-- `ionic_tx_service` with a completion naming a slot in flight completes the oldest skbs. -/
theorem ionicTxService_fifo {cm w : Bool} {ci : Nat} {s s' : TxState} (hinv : BqlInv c s.view 0 0)
    (hci : ci < c.ring.numDescs) (hw : c.ring.InWindow s.q.headIdx s.q.tailIdx ci)
    (hs : ionicTxService c cm ci s = some (w, s')) : ∃ k, s'.fifo c = (s.fifo c).pop k := by
  unfold ionicTxService at hs
  split_ifs at hs
  · cases hs; exact ⟨0, by simp⟩
  · obtain ⟨⟨p, b, s₁⟩, hl, he⟩ := Option.map_eq_some'.mp hs
    cases he
    rw [TxState.fifo_bqlCompleted]
    exact ionicTxServiceLoop_fifo hci hinv hw hl

/-- `ionic_tx_empty` completes every skb in flight. -/
theorem ionicTxEmpty_fifo {s s' : TxState} (hinv : BqlInv c s.view 0 0) (he : ionicTxEmpty c s = some s') :
    s'.fifo c = (s.fifo c).pop (s.fifo c).queue.length := by
  obtain ⟨⟨p, b, s₁⟩, hl, he⟩ := Option.map_eq_some'.mp he
  cases he
  obtain ⟨k, hk, hte⟩ := ionicTxEmptyLoop_fifo hinv hl
  rw [TxState.fifo_bqlCompleted, hk]
  -- the window is empty after the loop, so every skb was completed
  have h0 : (s₁.fifo c).queue = [] := by
    simp [TxState.fifo, TxView.queue, TxState.view, hte, c.ring.inflight_self]
  rw [hk] at h0
  exact TxFifo.pop_of_le _ (List.drop_eq_nil_iff.mp h0)

end Calls

/-- The transmit ring refines a FIFO of skbs: from every state a regular queue that does not
timestamp reaches, `ionic_start_xmit` either takes the skb in at the back (linearized or not),
frees it at once, or returns `NETDEV_TX_BUSY` and changes nothing; `ionic_tx_service` completes
the oldest skbs in flight, freeing them in the order they were sent; and `ionic_tx_empty`
completes every skb in flight, in that order. -/
theorem txReach_fifo {c : TxqCfg} (hc : c.hwstamp = false) {s : TxState} (h : TxReach c s) :
    (∀ {lif : Lif} {env : TxEnv} {skb : Skb} {s' : TxState} {r : NetdevTx}, skb.Wf →
        ionicStartXmitTarget lif skb = .txq s.q.index → ionicStartXmit lif c env skb s = some (s', r) →
        (r = .ok ∧ ∃ skb₁, skb₁.id = skb.id ∧ s'.fifo c = (s.fifo c).push skb₁) ∨
          (r = .ok ∧ s'.fifo c = (s.fifo c).free skb.id) ∨ (r = .busy ∧ s'.fifo c = s.fifo c)) ∧
      (∀ {cm w : Bool} {ci : Nat} {s' : TxState}, ci < c.ring.numDescs → c.ring.InWindow s.q.headIdx s.q.tailIdx ci →
        ionicTxService c cm ci s = some (w, s') → ∃ k, s'.fifo c = (s.fifo c).pop k) ∧
      (∀ {s' : TxState}, ionicTxEmpty c s = some s' → s'.fifo c = (s.fifo c).pop (s.fifo c).queue.length) := by
  have hinv := h.bqlInv hc
  exact ⟨ionicStartXmit_fifo hinv, ionicTxService_fifo hinv, ionicTxEmpty_fifo hinv⟩

/-- A queue of eight slots after a five-segment TSO packet, a 100-byte packet and the completion
of the first: the ring holds the second skb, and the first has been freed. -/
theorem txReach_fifo_mixed :
    let c : TxqCfg := ⟨⟨8, 3, rfl⟩, 8, false⟩
    let send (skb : Skb) (s : TxState) : TxState :=
      ((ionicStartXmit ⟨true, false, 1⟩ c ⟨4096, fun k => 8192 * (k + 1), true, true, false⟩ skb s).map
        Prod.fst).getD s
    let s₂ := send ⟨2, 100, [], 0, 0, 0, 0, false, false⟩
      (send ⟨1, 1055, [3000], 1000, 5, 54, 0, true, false⟩ (TxState.init 0))
    let s := ((ionicTxService c true 4 s₂).map Prod.snd).getD s₂
    ((s.fifo c).queue.map Skb.id, (s.fifo c).freed) = ([2], [1]) ∧
      (∀ {lif : Lif} {env : TxEnv} {skb : Skb} {s' : TxState} {r : NetdevTx}, skb.Wf →
        ionicStartXmitTarget lif skb = .txq s.q.index → ionicStartXmit lif c env skb s = some (s', r) →
        (r = .ok ∧ ∃ skb₁, skb₁.id = skb.id ∧ s'.fifo c = (s.fifo c).push skb₁) ∨
          (r = .ok ∧ s'.fifo c = (s.fifo c).free skb.id) ∨ (r = .busy ∧ s'.fifo c = s.fifo c)) ∧
      (∀ {cm w : Bool} {ci : Nat} {s' : TxState}, ci < c.ring.numDescs → c.ring.InWindow s.q.headIdx s.q.tailIdx ci →
        ionicTxService c cm ci s = some (w, s') → ∃ k, s'.fifo c = (s.fifo c).pop k) ∧
      (∀ {s' : TxState}, ionicTxEmpty c s = some s' → s'.fifo c = (s.fifo c).pop (s.fifo c).queue.length) :=
  ⟨by decide!, txReach_fifo rfl
    (@TxReach.service _ _ _ true true 4
      (@TxReach.xmit _ _ _ ⟨true, false, 1⟩ ⟨4096, fun k => 8192 * (k + 1), true, true, false⟩
        ⟨2, 100, [], 0, 0, 0, 0, false, false⟩ .ok
        (@TxReach.xmit _ _ _ ⟨true, false, 1⟩ ⟨4096, fun k => 8192 * (k + 1), true, true, false⟩
          ⟨1, 1055, [3000], 1000, 5, 54, 0, true, false⟩ .ok (.init 0) ⟨by decide, fun _ => by decide⟩ rfl
          (eq_some_of_map_snd _ (by decide!)))
        ⟨by decide, fun h => absurd h (by decide)⟩ (by decide!) (eq_some_of_map_snd _ (by decide!)))
      (by decide!) (by decide!) (eq_some_of_map_fst _ (by decide!)))⟩

end IonicTxrx
