import IonicTxrx.Tx.View

/-!
# Runs of a TX queue

The states a regular TX queue reaches from its opening, and what holds in all of them. The
invariant `BqlInv` is stated on the view: the window of in-flight slots stays below the ring
size, only slots in the window carry an skb, and the byte-queue-limit counters balance against
the skbs in flight. Each abstract step of `IonicTxrx.Tx.View` keeps it, so each function of the
transmit core does, so every reachable state satisfies it.
-/

namespace IonicTxrx

/-- The states a regular TX queue reaches from its opening: sends through `ionic_start_xmit` of
skbs the stack hands this queue, completions naming a slot in flight, and teardown. -/
inductive TxReach (c : TxqCfg) : TxState → Prop
  | init (index : Nat) : TxReach c (TxState.init index)
  | xmit {s s' : TxState} {lif : Lif} {env : TxEnv} {skb : Skb} {r : NetdevTx} :
      TxReach c s → skb.Wf → ionicStartXmitTarget lif skb = .txq s.q.index →
      ionicStartXmit lif c env skb s = some (s', r) → TxReach c s'
  | service {s s' : TxState} {colorMatch work : Bool} {compIndex : Nat} :
      TxReach c s → compIndex < c.ring.numDescs →
      c.ring.InWindow s.q.headIdx s.q.tailIdx compIndex →
      ionicTxService c colorMatch compIndex s = some (work, s') → TxReach c s'
  | empty {s s' : TxState} : TxReach c s → ionicTxEmpty c s = some s' → TxReach c s'

/-- A send whose fragment fails to map, then teardown: the ring ends empty and the skb is
released, but the head mapping is still live and the zeroed `bufs[1]` was unmapped though it
held no mapping. -/
theorem ionicStartXmit_frag_fail_leaks_head :
    let c : TxqCfg := ⟨⟨8, 3, rfl⟩, 8, false⟩
    let lif : Lif := ⟨true, false, 1⟩
    let env : TxEnv := ⟨4096, fun _ => dmaMappingErrorAddr, true, true, false⟩
    let skb : Skb := ⟨1, 100, [200], 0, 0, 0, 0, false, false⟩
    ((ionicStartXmit lif c env skb (TxState.init 0)).bind fun p => ionicTxEmpty c p.1).map
        (fun s => (s.q.tailIdx == s.q.headIdx, s.released, s.dma)) =
      some (true, [1], ⟨[4096], [0]⟩) := by
  decide

/-! ## Bytes in flight -/

/-- Bytes of the skbs held by the slots below `n`. -/
def heldBytes (n : Nat) (arg : Nat → Option Skb) : Nat := ∑ i ∈ Finset.range n, slotBytes (arg i)

/-- Number of skbs held by the slots below `n`. -/
def heldPkts (n : Nat) (arg : Nat → Option Skb) : Nat := ∑ i ∈ Finset.range n, slotPkts (arg i)

/-! ## The invariant -/

/-- The ring and BQL invariant of a queue that does not timestamp, with `pkts` packets and
`bytes` bytes completed but not yet reported to BQL. -/
structure BqlInv (c : TxqCfg) (v : TxView) (pkts bytes : Nat) : Prop where
  head_lt : v.head < c.ring.numDescs
  tail_lt : v.tail < c.ring.numDescs
  /-- Only slots of the window `[tail_idx, head_idx)` hold an skb. -/
  idle : ∀ i, (c.ring.numDescs ≤ i ∨ ¬ c.ring.InWindow v.head v.tail i) → v.arg i = none
  len_pos : ∀ i skb, v.arg i = some skb → 0 < skb.len
  acc_le : pkts ≤ bytes
  acc_zero : pkts = 0 → bytes = 0
  sentBytes : v.bql.sentBytes = v.bql.doneBytes + bytes + heldBytes c.ring.numDescs v.arg
  sentCalls : v.bql.sentCalls = v.bql.donePkts + pkts + heldPkts c.ring.numDescs v.arg

section Steps

variable {c : TxqCfg} {v : TxView} {p b : Nat}

theorem BqlInv.init (index : Nat) : BqlInv c (TxState.init index).view 0 0 where
  head_lt := c.ring.numDescs_pos
  tail_lt := c.ring.numDescs_pos
  idle _ _ := rfl
  len_pos _ _ h := nomatch h
  acc_le := le_rfl
  acc_zero _ := rfl
  sentBytes := by simp [TxState.init, TxState.view, heldBytes, slotBytes]
  sentCalls := by simp [TxState.init, TxState.view, heldPkts, slotPkts]

theorem BqlInv.arg_head (h : BqlInv c v p b) : v.arg v.head = none :=
  h.idle _ (.inr (lt_irrefl _))

/-- A post of `a` at `head_idx` while the ring has room, counted as sent when it carries an skb:
the slot joins the window and its skb the bytes in flight. -/
theorem BqlInv.post (h : BqlInv c v p b) (hroom : c.ring.inflight v.head v.tail + 1 < c.ring.numDescs)
    {a : Option Skb} (ha : ∀ skb, a = some skb → 0 < skb.len) {v' : TxView}
    (hh : v'.head = c.ring.next v.head) (ht : v'.tail = v.tail)
    (harg : v'.arg = Function.update v.arg v.head a)
    (hsb : v'.bql.sentBytes = v.bql.sentBytes + slotBytes a)
    (hsc : v'.bql.sentCalls = v.bql.sentCalls + slotPkts a)
    (hdb : v'.bql.doneBytes = v.bql.doneBytes) (hdp : v'.bql.donePkts = v.bql.donePkts) :
    BqlInv c v' p b := by
  have hb := sum_update_arg slotBytes v.arg h.head_lt a
  have hp := sum_update_arg slotPkts v.arg h.head_lt a
  rw [h.arg_head, show slotBytes none = 0 from rfl, add_zero] at hb
  rw [h.arg_head, show slotPkts none = 0 from rfl, add_zero] at hp
  have hwin : ∀ i < c.ring.numDescs, c.ring.InWindow v'.head v'.tail i ↔
      c.ring.InWindow v.head v.tail i ∨ i = v.head := fun i hi => by
    rw [hh, ht]; exact c.ring.inWindow_next_head h.head_lt h.tail_lt hi hroom
  refine ⟨hh ▸ c.ring.next_lt _, ht ▸ h.tail_lt, fun i hi => ?_, fun i skb hi => ?_, h.acc_le,
    h.acc_zero, ?_, ?_⟩
  · have hne : i ≠ v.head := by
      rintro rfl
      rcases hi with hi | hi
      · exact absurd h.head_lt (not_lt.mpr hi)
      · exact hi ((hwin _ h.head_lt).mpr (.inr rfl))
    rw [harg, Function.update_noteq hne]
    apply h.idle i
    by_cases hiN : c.ring.numDescs ≤ i
    · exact .inl hiN
    · exact .inr fun hw => hi.resolve_left hiN ((hwin i (not_le.mp hiN)).mpr (.inl hw))
  · rw [harg] at hi
    by_cases hi' : i = v.head
    · subst hi'; rw [Function.update_same] at hi; exact ha skb hi
    · rw [Function.update_noteq hi'] at hi; exact h.len_pos i skb hi
  · rw [hsb, hdb, h.sentBytes, harg, heldBytes, heldBytes, hb]; exact Nat.add_assoc _ _ _
  · rw [hsc, hdp, h.sentCalls, harg, heldPkts, heldPkts, hp]; exact Nat.add_assoc _ _ _

theorem BqlInv.post_none (h : BqlInv c v p b)
    (hroom : c.ring.inflight v.head v.tail + 1 < c.ring.numDescs) (rd : Bool) :
    BqlInv c (v.post c.ring rd none) p b :=
  h.post hroom (fun _ h => by cases h) rfl rfl rfl rfl rfl rfl rfl

theorem BqlInv.sent_post (hc : c.hwstamp = false) (h : BqlInv c v p b)
    (hroom : c.ring.inflight v.head v.tail + 1 < c.ring.numDescs) (rd : Bool) {skb : Skb}
    (hlen : 0 < skb.len) : BqlInv c ((v.sent c skb.len).post c.ring rd (some skb)) p b := by
  unfold TxView.sent
  rw [if_neg (by simp [hc])]
  exact h.post hroom (fun _ h => by cases h; exact hlen) rfl rfl rfl rfl rfl rfl rfl

/-- The descriptors of one TSO packet, posted while the ring has room for all of them. -/
theorem BqlInv.foldl_tsoPost (hc : c.hwstamp = false) {skb : Skb} (hlen : 0 < skb.len) :
    ∀ {segs : List TsoSeg} {v : TxView}, BqlInv c v p b →
      c.ring.inflight v.head v.tail + segs.length < c.ring.numDescs →
      BqlInv c (segs.foldl (TxView.tsoPost c skb) v) p b
  | [], _, h, _ => h
  | g :: gs, v, h, hroom => by
    have hroom₁ : c.ring.inflight v.head v.tail + 1 < c.ring.numDescs := by
      simp only [List.length_cons] at hroom; omega
    have hnext := c.ring.inflight_next_head h.head_lt h.tail_lt hroom₁
    rw [List.foldl_cons]
    refine BqlInv.foldl_tsoPost hc hlen ?_ ?_
    · unfold TxView.tsoPost
      split
      · exact h.sent_post hc hroom₁ false hlen
      · exact h.post_none hroom₁ g.done
    · unfold TxView.tsoPost
      split <;> simp only [TxView.post_head, TxView.post_tail, TxView.sent_head, TxView.sent_tail, hnext] <;>
        simp only [List.length_cons] at hroom <;> omega

/-- Completing the tail slot of a nonempty window moves its skb from the bytes in flight to the
completions not yet reported. -/
theorem BqlInv.complete (h : BqlInv c v p b) (hne : v.tail ≠ v.head) :
    BqlInv c (v.complete c.ring) (p + slotPkts (v.arg v.tail)) (b + slotBytes (v.arg v.tail)) := by
  have hb := sum_update_arg slotBytes v.arg h.tail_lt none
  have hp := sum_update_arg slotPkts v.arg h.tail_lt none
  rw [show slotBytes none = 0 from rfl, add_zero] at hb
  rw [show slotPkts none = 0 from rfl, add_zero] at hp
  refine ⟨h.head_lt, c.ring.next_lt _, fun i hi => ?_, fun i skb hi => ?_, ?_, ?_, ?_, ?_⟩
  · simp only [TxView.complete] at hi ⊢
    by_cases hit : i = v.tail
    · subst hit; exact Function.update_same _ _ _
    rw [Function.update_noteq hit]
    apply h.idle i
    by_cases hiN : c.ring.numDescs ≤ i
    · exact .inl hiN
    · exact .inr fun hw => hi.resolve_left hiN
        ((c.ring.inWindow_next_tail h.head_lt h.tail_lt (not_le.mp hiN) hne).mpr ⟨hw, hit⟩)
  · simp only [TxView.complete] at hi
    by_cases hit : i = v.tail
    · subst hit; simp at hi
    · rw [Function.update_noteq hit] at hi; exact h.len_pos i skb hi
  · cases hv : v.arg v.tail with
    | none => simpa [slotPkts, slotBytes] using h.acc_le
    | some skb =>
      have := h.len_pos _ skb hv
      have := h.acc_le
      simp [slotPkts, slotBytes]; omega
  · cases v.arg v.tail with
    | none => simpa [slotPkts, slotBytes] using h.acc_zero
    | some _ => simp [slotPkts]
  · simp only [TxView.complete, heldBytes]
    rw [h.sentBytes, heldBytes, ← hb]; ac_rfl
  · simp only [TxView.complete, heldPkts]
    rw [h.sentCalls, heldPkts, ← hp]; ac_rfl

/-- Reporting the completions gathered tells BQL exactly what left the window. -/
theorem BqlInv.completed (hc : c.hwstamp = false) (h : BqlInv c v p b) :
    BqlInv c (v.completed c p b) 0 0 := by
  unfold TxView.completed
  split_ifs with h1
  · exact ⟨h.head_lt, h.tail_lt, h.idle, h.len_pos, le_rfl, fun _ => rfl,
      by simp only; have := h.sentBytes; omega, by simp only; have := h.sentCalls; omega⟩
  · obtain ⟨rfl, rfl⟩ : p = 0 ∧ b = 0 := by
      have := h.acc_le; have := h.acc_zero; simp [hc] at h1; omega
    exact h

/-- An empty window holds no skb. -/
theorem BqlInv.held_zero (h : BqlInv c v p b) (he : v.tail = v.head) :
    heldBytes c.ring.numDescs v.arg = 0 ∧ heldPkts c.ring.numDescs v.arg = 0 := by
  have hn : ∀ i, v.arg i = none := fun i => h.idle i (.inr (he ▸ c.ring.not_inWindow_of_eq))
  exact ⟨Finset.sum_eq_zero fun i _ => by rw [hn i]; rfl, Finset.sum_eq_zero fun i _ => by rw [hn i]; rfl⟩

end Steps

/-! ## Every function of the transmit core keeps the invariant -/

section Functions

variable {c : TxqCfg}

/-- The loop of `ionic_tx_service` keeps the invariant while the slot it stops at lies in the
window. -/
theorem ionicTxServiceLoop_inv {ci : Nat} (hci : ci < c.ring.numDescs) :
    ∀ {fuel p b p' b' : Nat} {s s' : TxState}, BqlInv c s.view p b →
      c.ring.InWindow s.q.headIdx s.q.tailIdx ci →
      ionicTxServiceLoop c ci fuel p b s = some (p', b', s') → BqlInv c s'.view p' b'
  | 0, _, _, _, _, _, _, _, _, h => by simp [ionicTxServiceLoop] at h
  | fuel + 1, p, b, p', b', s, s', hinv, hw, h => by
    have hne : s.q.tailIdx ≠ s.q.headIdx := fun he => c.ring.not_inWindow_of_eq (he ▸ hw)
    obtain ⟨hv, hp, hb⟩ := ionicTxCleanTail_view c p b s
    have hinv₁ : BqlInv c (ionicTxCleanTail c p b s).2.2.view (ionicTxCleanTail c p b s).1
        (ionicTxCleanTail c p b s).2.1 := by
      rw [hv, hp, hb]; exact hinv.complete hne
    unfold ionicTxServiceLoop at h
    dsimp only at h
    split_ifs at h with hci'
    · refine ionicTxServiceLoop_inv hci hinv₁ ?_ h
      rw [show (ionicTxCleanTail c p b s).2.2.q.headIdx = s.q.headIdx from congrArg TxView.head hv,
        show (ionicTxCleanTail c p b s).2.2.q.tailIdx = c.ring.next s.q.tailIdx from congrArg TxView.tail hv]
      exact (c.ring.inWindow_next_tail hinv.head_lt hinv.tail_lt hci hne).mpr ⟨hw, Ne.symm hci'⟩
    · cases h; exact hinv₁

/-- The loop of `ionic_tx_empty` keeps the invariant. -/
theorem ionicTxEmptyLoop_inv :
    ∀ {fuel p b p' b' : Nat} {s s' : TxState}, BqlInv c s.view p b →
      ionicTxEmptyLoop c fuel p b s = some (p', b', s') → BqlInv c s'.view p' b'
  | 0, _, _, _, _, _, _, _, h => by simp [ionicTxEmptyLoop] at h
  | fuel + 1, p, b, p', b', s, s', hinv, h => by
    unfold ionicTxEmptyLoop at h
    split_ifs at h with he
    · cases h; exact hinv
    obtain ⟨hv, hp, hb⟩ := ionicTxCleanTail_view c p b s
    dsimp only at h
    refine ionicTxEmptyLoop_inv ?_ h
    rw [hv, hp, hb]; exact hinv.complete (Ne.symm he)

theorem ionicTxService_inv (hc : c.hwstamp = false) {cm w : Bool} {ci : Nat} {s s' : TxState}
    (hinv : BqlInv c s.view 0 0) (hci : ci < c.ring.numDescs)
    (hw : c.ring.InWindow s.q.headIdx s.q.tailIdx ci) (h : ionicTxService c cm ci s = some (w, s')) :
    BqlInv c s'.view 0 0 := by
  unfold ionicTxService at h
  split_ifs at h
  · cases h; exact hinv
  · obtain ⟨⟨p, b, s₁⟩, hl, he⟩ := Option.map_eq_some'.mp h
    cases he
    rw [TxState.view_bqlCompleted]
    exact (ionicTxServiceLoop_inv hci hinv hw hl).completed hc

theorem ionicTxEmpty_inv (hc : c.hwstamp = false) {s s' : TxState} (hinv : BqlInv c s.view 0 0)
    (h : ionicTxEmpty c s = some s') : BqlInv c s'.view 0 0 := by
  obtain ⟨⟨p, b, s₁⟩, hl, he⟩ := Option.map_eq_some'.mp h
  cases he
  rw [TxState.view_bqlCompleted]
  exact (ionicTxEmptyLoop_inv hinv hl).completed hc

/-- A send of an skb the stack hands over keeps the invariant: `ionic_maybe_stop_tx` let it
through only with room for `gso_segs` slots, which is what `ionic_tx_tso` posts. -/
theorem ionicStartXmit_inv (hc : c.hwstamp = false) {lif : Lif} {env : TxEnv} {skb : Skb}
    {s s' : TxState} {r : NetdevTx} {qi : Nat} (hinv : BqlInv c s.view 0 0) (hwf : skb.Wf)
    (ht : ionicStartXmitTarget lif skb = .txq qi) (h : ionicStartXmit lif c env skb s = some (s', r)) :
    BqlInv c s'.view 0 0 := by
  rcases ionicStartXmit_view ht h with ⟨hv, -⟩ | ⟨-, -, hsp, skb₁, hskb, hng, hg⟩
  · rwa [hv]
  have hlen : skb₁.len = skb.len := by rcases hskb with rfl | rfl <;> simp
  rw [ionicQHasSpace_iff] at hsp
  cases hgso : skb.isGso
  · rw [hng hgso, ← hlen]
    simp only [hgso, Bool.false_eq_true, if_false] at hsp
    exact hinv.sent_post hc (show c.ring.inflight s.q.headIdx s.q.tailIdx + 1 < c.ring.numDescs by
      omega) _ (hlen ▸ hwf.len_pos)
  · obtain ⟨segs, -, hb, hv⟩ := hg hgso
    obtain ⟨hhdr, hsegs⟩ := hwf.gso hgso
    have hmss : 0 < skb.gsoSize := by simpa [Skb.isGso, Nat.pos_iff_ne_zero] using hgso
    have hn : segs.length = skb.gsoSegs := by
      rw [← List.length_map segs TsoSeg.bytes, hb, if_neg (by omega), tsoSizes_length hmss hhdr, hsegs]
    simp only [hgso, if_true] at hsp
    rw [hv]
    exact hinv.foldl_tsoPost hc (hlen ▸ hwf.len_pos)
      (show c.ring.inflight s.q.headIdx s.q.tailIdx + segs.length < c.ring.numDescs by omega)

/-- Every reachable state of a queue that does not timestamp satisfies the invariant. -/
theorem TxReach.bqlInv (hc : c.hwstamp = false) {s : TxState} (h : TxReach c s) :
    BqlInv c s.view 0 0 := by
  induction h with
  | init index => exact BqlInv.init index
  | xmit _ hwf ht hs ih => exact ionicStartXmit_inv hc ih hwf ht hs
  | service _ hci hw hs ih => exact ionicTxService_inv hc ih hci hw hs
  | empty _ hs ih => exact ionicTxEmpty_inv hc ih hs

/-- Byte-queue-limit accounting balances on a queue that does not timestamp: along every run, BQL
is never told of more completed bytes or packets than were sent, and the two agree whenever the
ring is empty. -/
theorem txReach_bql_balanced (hc : c.hwstamp = false) {s : TxState} (h : TxReach c s) :
    s.bql.doneBytes ≤ s.bql.sentBytes ∧ s.bql.donePkts ≤ s.bql.sentCalls ∧
      (s.q.tailIdx = s.q.headIdx →
        s.bql.doneBytes = s.bql.sentBytes ∧ s.bql.donePkts = s.bql.sentCalls) := by
  have hi := h.bqlInv hc
  have hb : s.bql.sentBytes = s.bql.doneBytes + heldBytes c.ring.numDescs s.view.arg := hi.sentBytes
  have hp : s.bql.sentCalls = s.bql.donePkts + heldPkts c.ring.numDescs s.view.arg := hi.sentCalls
  refine ⟨hb ▸ Nat.le_add_right _ _, hp ▸ Nat.le_add_right _ _, fun he => ?_⟩
  obtain ⟨h0, h1⟩ := hi.held_zero he
  rw [hb, hp, h0, h1]
  exact ⟨rfl, rfl⟩

/-- A queue of eight slots after a five-segment TSO packet, a 100-byte packet and the completion
of the first: BQL has been told of 4055 of the 4155 bytes sent, and of one of the two packets. -/
theorem txReach_bql_balanced_mixed :
    let c : TxqCfg := ⟨⟨8, 3, rfl⟩, 8, false⟩
    let send (skb : Skb) (s : TxState) : TxState :=
      ((ionicStartXmit ⟨true, false, 1⟩ c ⟨4096, fun k => 8192 * (k + 1), true, true, false⟩ skb s).map
        Prod.fst).getD s
    let s₂ := send ⟨2, 100, [], 0, 0, 0, 0, false, false⟩
      (send ⟨1, 1055, [3000], 1000, 5, 54, 0, true, false⟩ (TxState.init 0))
    let s := ((ionicTxService c true 4 s₂).map Prod.snd).getD s₂
    (s.bql.doneBytes, s.bql.sentBytes, s.bql.donePkts, s.bql.sentCalls) = (4055, 4155, 1, 2) ∧
      s.bql.doneBytes ≤ s.bql.sentBytes ∧ s.bql.donePkts ≤ s.bql.sentCalls ∧
      (s.q.tailIdx = s.q.headIdx →
        s.bql.doneBytes = s.bql.sentBytes ∧ s.bql.donePkts = s.bql.sentCalls) :=
  ⟨by decide!, @txReach_bql_balanced ⟨⟨8, 3, rfl⟩, 8, false⟩ rfl _
    (@TxReach.service _ _ _ true true 4
      (@TxReach.xmit _ _ _ ⟨true, false, 1⟩ ⟨4096, fun k => 8192 * (k + 1), true, true, false⟩
        ⟨2, 100, [], 0, 0, 0, 0, false, false⟩ .ok
        (@TxReach.xmit _ _ _ ⟨true, false, 1⟩ ⟨4096, fun k => 8192 * (k + 1), true, true, false⟩
          ⟨1, 1055, [3000], 1000, 5, 54, 0, true, false⟩ .ok (.init 0) ⟨by decide, fun _ => by decide⟩ rfl
          (eq_some_of_map_snd _ (by decide!)))
        ⟨by decide, fun h => absurd h (by decide)⟩ (by decide!) (eq_some_of_map_snd _ (by decide!)))
      (by decide!) (by decide!) (eq_some_of_map_fst _ (by decide!)))⟩

end Functions

end IonicTxrx
