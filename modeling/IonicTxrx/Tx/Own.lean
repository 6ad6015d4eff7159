import IonicTxrx.Tx.Napi

/-!
# Who owns an skb

Once `ionic_start_xmit` answers `NETDEV_TX_OK` for an skb, the driver owns it: a send that fails
frees it at once (`err_out_drop`), a send that posts parks it in the first slot of its
descriptors (`desc_info->cb_arg`) until `ionic_tx_clean` frees it. `TxState.ownCount` counts, for
one skb id, the times the queue freed it and the slots holding it. Along every run of the TX
system it equals the number of times the queue took that id (`TxOwned`), so no skb is lost, and
none is freed twice or while a slot still holds it (`txSysReach_owned`). Once the device has sent
every posted slot, a flush leaves every skb the queue took freed exactly once
(`txSysReach_flush_drains`), and so does the teardown by `ionic_tx_empty` from any state of a run
(`txSysReach_empty_releases`).
-/

namespace IonicTxrx

/-- How many times slot content `a` holds skb `k`: once or not at all. -/
def slotHolds (k : Nat) (a : Option Skb) : Nat := ((a.map Skb.id).toList).count k

/-- How many of the slots below `n` hold skb `k`. -/
def heldCount (n k : Nat) (arg : Nat → Option Skb) : Nat := ∑ i ∈ Finset.range n, slotHolds k (arg i)

/-- How often skb `k` was freed by the queue, plus the slots holding it. -/
def TxState.ownCount (c : TxqCfg) (k : Nat) (s : TxState) : Nat :=
  s.released.count k + heldCount c.ring.numDescs k s.view.arg

/-- For every skb id, the frees and the slots holding it add up to the times the queue took it. -/
def TxOwned (c : TxqCfg) (x : TxSys) : Prop := ∀ k, x.s.ownCount c k = x.accepted.count k

theorem slotHolds_none (k : Nat) : slotHolds k none = 0 := rfl

theorem count_cons_id (k : Nat) (skb : Skb) (l : List Nat) :
    (skb.id :: l).count k = l.count k + slotHolds k (some skb) := by
  simp [slotHolds, List.count_cons]

/-! ## Slots -/

section Slots

variable {n k i : Nat} {arg : Nat → Option Skb}

/-- Filling an empty slot `i < n` adds what it now holds. -/
theorem heldCount_fill (hi : i < n) (h0 : arg i = none) (a : Option Skb) :
    heldCount n k (Function.update arg i a) = heldCount n k arg + slotHolds k a := by
  have := sum_update_arg (slotHolds k) arg hi a
  rwa [h0, slotHolds_none, add_zero] at this

/-- Emptying slot `i < n` takes out what it held. -/
theorem heldCount_clear (hi : i < n) :
    heldCount n k (Function.update arg i none) + slotHolds k (arg i) = heldCount n k arg := by
  have := sum_update_arg (slotHolds k) arg hi none
  rwa [slotHolds_none, add_zero] at this

theorem heldCount_of_none (h : ∀ i, arg i = none) : heldCount n k arg = 0 :=
  Finset.sum_eq_zero fun i _ => by rw [h i]; rfl

end Slots

/-! ## One call at a time -/

section Calls

variable {c : TxqCfg} {k : Nat}

/-- The descriptors of one TSO packet hold its skb once, in the first, when the list is flagged
as starting the packet. -/
theorem BqlInv.heldCount_foldl_tsoPost (hc : c.hwstamp = false) {skb : Skb} (hlen : 0 < skb.len) (k : Nat) :
    ∀ {start : Bool} {segs : List TsoSeg} {v : TxView} {p b : Nat}, SegFlags start segs → BqlInv c v p b →
      c.ring.inflight v.head v.tail + segs.length < c.ring.numDescs →
      heldCount c.ring.numDescs k (segs.foldl (TxView.tsoPost c skb) v).arg =
        heldCount c.ring.numDescs k v.arg + if start ∧ segs ≠ [] then slotHolds k (some skb) else 0
  | _, [], _, _, _, _, _, _ => by simp
  | start, g :: gs, v, p, b, ⟨hst, _, hf⟩, h, hroom => by
    have hroom₁ : c.ring.inflight v.head v.tail + 1 < c.ring.numDescs := by
      simp only [List.length_cons] at hroom; omega
    obtain ⟨hh, ht⟩ := TxView.tsoPost_head skb v g
    have h₁ : BqlInv c (v.tsoPost c skb g) p b := by
      unfold TxView.tsoPost
      split
      · exact h.sent_post hc hroom₁ false hlen
      · exact h.post_none hroom₁ g.done
    have ih := BqlInv.heldCount_foldl_tsoPost hc hlen k hf h₁ (by
      rw [hh, ht, c.ring.inflight_next_head h.head_lt h.tail_lt hroom₁]
      simp only [List.length_cons] at hroom; omega)
    -- the first descriptor holds the skb exactly when it starts the packet
    have h₀ : heldCount c.ring.numDescs k (v.tsoPost c skb g).arg =
        heldCount c.ring.numDescs k v.arg + if start then slotHolds k (some skb) else 0 := by
      subst hst
      unfold TxView.tsoPost
      split_ifs
      · rw [TxView.post_arg, TxView.sent_arg, TxView.sent_head, heldCount_fill h.head_lt h.arg_head]
      · rw [TxView.post_arg, heldCount_fill h.head_lt h.arg_head, slotHolds_none]
    rw [List.foldl_cons, ih, h₀]
    cases start <;> simp

/-- `ionic_start_xmit` answers `NETDEV_TX_BUSY` having freed nothing, or `NETDEV_TX_OK` having
freed nothing or the skb it was handed. -/
theorem ionicStartXmit_released {lif : Lif} {env : TxEnv} {skb : Skb} {s s' : TxState} {r : NetdevTx} {qi : Nat}
    (ht : ionicStartXmitTarget lif skb = .txq qi) (h : ionicStartXmit lif c env skb s = some (s', r)) :
    (r = .busy ∧ s'.released = s.released) ∨
      (r = .ok ∧ (s'.released = s.released ∨ s'.released = skb.id :: s.released)) := by
  unfold ionicStartXmit at h
  rw [ht] at h
  dsimp only at h
  split at h
  · cases h
    exact .inr ⟨rfl, .inr rfl⟩
  rename_i n skb₁ s₁ hd
  obtain ⟨-, hskb, -, st, rfl⟩ := ionicTxDescsNeeded_some hd
  have hid : skb₁.id = skb.id := by rcases hskb with rfl | rfl <;> rfl
  obtain ⟨-, st₂, stp, hm⟩ := ionicMaybeStopTx_eq c n { s with stats := st }
  by_cases hstop : (ionicMaybeStopTx c n { s with stats := st }).1 = true
  · rw [if_pos hstop] at h
    cases h
    exact .inl ⟨rfl, by rw [hm]⟩
  rw [if_neg hstop] at h
  obtain ⟨⟨err, s₂⟩, hs, he⟩ := Option.map_eq_some'.mp h
  have hrel : s₂.released = s.released := by
    rw [(ionicTxSend_view hs).1, hm]
  obtain ⟨-, st₃, stp₃, hm₃⟩ := ionicMaybeStopTx_eq c 4 s₂
  dsimp only at he
  split_ifs at he <;> cases he
  · exact .inr ⟨rfl, .inr (by simp only [TxState.xmitDrop, TxState.release, hid, hrel])⟩
  · exact .inr ⟨rfl, .inl (by rw [hm₃]; exact hrel)⟩

/-- `ionic_tx_clean` frees the skb it is handed, if any. -/
theorem ionicTxClean_released (i : Nat) (arg : Option Skb) (s : TxState) :
    (ionicTxClean c i arg s).released = (arg.map Skb.id).toList ++ s.released := by
  have hu : (ionicTxDescUnmapBufs i s).released = s.released := by
    unfold ionicTxDescUnmapBufs; dsimp only; split_ifs <;> rfl
  unfold ionicTxClean
  cases arg with
  | none => exact hu
  | some skb => dsimp only; split_ifs <;> simp [TxState.release, TxState.setStopped, hu]

/-- One pass of the completion loops frees the skb of the tail slot as it takes it out of the
slot: the ownership count stays. -/
theorem ionicTxCleanTail_ownCount (p b : Nat) {s : TxState} (ht : s.q.tailIdx < c.ring.numDescs) :
    (ionicTxCleanTail c p b s).2.2.ownCount c k = s.ownCount c k := by
  obtain ⟨hv, -, -⟩ := ionicTxCleanTail_view c p b s
  have hrel : (ionicTxCleanTail c p b s).2.2.released = (((s.view.arg s.view.tail).map Skb.id).toList) ++ s.released := by
    unfold ionicTxCleanTail
    dsimp only
    rw [TxState.released_setInfo, ionicTxClean_released]
    simp [TxState.view, TxState.setInfo]
  have hc := @heldCount_clear c.ring.numDescs k s.view.tail s.view.arg ht
  unfold TxState.ownCount
  rw [hrel, hv, List.count_append, TxView.complete_arg, ← hc]
  change slotHolds k _ + _ + _ = _
  omega

/-- Reporting completions to BQL frees nothing and moves no slot. -/
theorem TxState.bqlCompleted_ownCount (s : TxState) (p b : Nat) :
    (s.bqlCompleted c p b).ownCount c k = s.ownCount c k := by
  unfold TxState.bqlCompleted; split_ifs <;> rfl

/-- The loop of `ionic_tx_service` keeps the ownership count, and `tail_idx` inside the ring. -/
theorem ionicTxServiceLoop_ownCount (ci : Nat) :
    ∀ {fuel p b p' b' : Nat} {s s' : TxState}, s.q.tailIdx < c.ring.numDescs →
      ionicTxServiceLoop c ci fuel p b s = some (p', b', s') →
      s'.q.tailIdx < c.ring.numDescs ∧ s'.ownCount c k = s.ownCount c k
  | 0, _, _, _, _, _, _, _, h => by simp [ionicTxServiceLoop] at h
  | fuel + 1, p, b, p', b', s, s', ht, h => by
    have hc := @ionicTxCleanTail_ownCount c k p b s ht
    have ht₁ : (ionicTxCleanTail c p b s).2.2.q.tailIdx < c.ring.numDescs := by
      rw [show (ionicTxCleanTail c p b s).2.2.q.tailIdx = c.ring.next s.q.tailIdx from
        congrArg TxView.tail (ionicTxCleanTail_view c p b s).1]
      exact c.ring.next_lt _
    unfold ionicTxServiceLoop at h
    dsimp only at h
    split_ifs at h
    · obtain ⟨h₁, h₂⟩ := ionicTxServiceLoop_ownCount ci ht₁ h
      exact ⟨h₁, h₂.trans hc⟩
    · cases h
      exact ⟨ht₁, hc⟩

/-- `ionic_tx_service` keeps the ownership count, whatever its completion names. -/
theorem ionicTxService_ownCount {m w : Bool} {ci : Nat} {s s' : TxState} (ht : s.q.tailIdx < c.ring.numDescs)
    (h : ionicTxService c m ci s = some (w, s')) : s'.q.tailIdx < c.ring.numDescs ∧ s'.ownCount c k = s.ownCount c k := by
  unfold ionicTxService at h
  split_ifs at h
  · cases h
    exact ⟨ht, rfl⟩
  · obtain ⟨⟨p, b, s₁⟩, hl, he⟩ := Option.map_eq_some'.mp h
    cases he
    obtain ⟨h₁, h₂⟩ := ionicTxServiceLoop_ownCount ci ht hl
    exact ⟨(TxState.bqlCompleted_q s₁ c p b).symm ▸ h₁, (TxState.bqlCompleted_ownCount s₁ p b).trans h₂⟩

/-- A service of the completion ring with any budget keeps the ownership count. -/
theorem ionicCqService_ownCount {budget w : Nat} {cq cq' : Cq Nat} {s s' : TxState}
    (ht : s.q.tailIdx < c.ring.numDescs) (h : ionicCqService c.ring (ionicTxService c) budget cq s = some (w, cq', s')) :
    s'.ownCount c k = s.ownCount c k :=
  (ionicCqService_inv (P := fun s₁ => s₁.q.tailIdx < c.ring.numDescs ∧ s₁.ownCount c k = s.ownCount c k)
    (fun _ _ _ _ _ hs hP => ⟨(ionicTxService_ownCount (k := k) hP.1 hs).1,
      (ionicTxService_ownCount hP.1 hs).2.trans hP.2⟩)
    budget ⟨ht, rfl⟩ h).2

/-- The poke at the end of a poll frees nothing and moves no slot. -/
theorem ionicTxNapiPoke_ownCount (napiDeadline now w : Nat) (s : TxState) (tm : TxDbell) :
    (ionicTxNapiPoke napiDeadline now w s tm).1.ownCount c k = s.ownCount c k := by
  unfold ionicTxNapiPoke ionicTxqPokeDoorbell; split_ifs <;> rfl

/-- The loop of `ionic_tx_empty` returns after cleaning every slot of the window, keeping the
ownership count. -/
theorem ionicTxEmptyLoop_drains :
    ∀ {fuel p b : Nat} {s : TxState}, s.q.headIdx < c.ring.numDescs → s.q.tailIdx < c.ring.numDescs →
      c.ring.inflight s.q.headIdx s.q.tailIdx < fuel →
      ∃ p' b' s', ionicTxEmptyLoop c fuel p b s = some (p', b', s') ∧ s'.q.tailIdx = s.q.headIdx ∧
        s'.q.headIdx = s.q.headIdx ∧ ∀ k, s'.ownCount c k = s.ownCount c k
  | 0, _, _, _, _, _, h => absurd h (Nat.not_lt_zero _)
  | fuel + 1, p, b, s, hh, ht, hf => by
    unfold ionicTxEmptyLoop
    by_cases he : s.q.headIdx = s.q.tailIdx
    · rw [if_pos he]
      exact ⟨p, b, s, rfl, he.symm, rfl, fun _ => rfl⟩
    rw [if_neg he]
    -- clean the tail slot, then the rest of the window
    obtain ⟨hv, -, -⟩ := ionicTxCleanTail_view c p b s
    have hh₁ : (ionicTxCleanTail c p b s).2.2.q.headIdx = s.q.headIdx := congrArg TxView.head hv
    have ht₁ : (ionicTxCleanTail c p b s).2.2.q.tailIdx = c.ring.next s.q.tailIdx := congrArg TxView.tail hv
    have hi := c.ring.inflight_next_tail hh ht (Ne.symm he)
    obtain ⟨p', b', s', hl, ht', hh', ho⟩ := @ionicTxEmptyLoop_drains fuel _ _ (ionicTxCleanTail c p b s).2.2
      (hh₁ ▸ hh) (ht₁ ▸ c.ring.next_lt _) (by rw [hh₁, ht₁]; omega)
    exact ⟨p', b', s', hl, ht'.trans hh₁, hh'.trans hh₁, fun k => (ho k).trans (ionicTxCleanTail_ownCount p b ht)⟩

/-- A queue whose window is empty holds no skb: with the ownership count kept, every skb it took
has been freed exactly once, and BQL balances. -/
theorem BqlInv.drained {s : TxState} (h : BqlInv c s.view 0 0) (he : s.q.tailIdx = s.q.headIdx) {acc : List Nat}
    (ho : ∀ k, s.ownCount c k = acc.count k) :
    (∀ i, (s.q.info i).cbArg = none) ∧ (∀ k, s.released.count k = acc.count k) ∧
      s.bql.doneBytes = s.bql.sentBytes ∧ s.bql.donePkts = s.bql.sentCalls := by
  have he' : s.view.tail = s.view.head := he
  have hn : ∀ i, s.view.arg i = none := fun i => h.idle i (.inr (he' ▸ c.ring.not_inWindow_of_eq))
  obtain ⟨hb, hp⟩ := h.held_zero he
  have hsb : s.bql.sentBytes = s.bql.doneBytes + 0 + heldBytes c.ring.numDescs s.view.arg := h.sentBytes
  have hsp : s.bql.sentCalls = s.bql.donePkts + 0 + heldPkts c.ring.numDescs s.view.arg := h.sentCalls
  refine ⟨hn, fun k => ?_, by rw [hsb, hb]; rfl, by rw [hsp, hp]; rfl⟩
  rw [← ho k, TxState.ownCount, heldCount_of_none hn]
  rfl

end Calls

/-! ## Along the runs -/

section Steps

variable {c : TxqCfg} {x : TxSys}

theorem TxOwned.init (index : Nat) (tm : TxDbell) (color : Bool) :
    TxOwned c ⟨TxState.init index, tm, Cq.init color 0, ⟨0, color⟩, 0, []⟩ := fun k => by
  simp [TxState.ownCount, heldCount, TxState.init, TxState.view, slotHolds]

/-- A send: a busy return changes nothing, a drop frees the skb it takes, and a post parks it in
one slot. -/
theorem TxOwned.xmit (hc : c.hwstamp = false) (h : TxSysInv c x) (ho : TxOwned c x) {s' : TxState} {lif : Lif}
    {env : TxEnv} {skb : Skb} {r : NetdevTx} (hwf : skb.Wf) (ht : ionicStartXmitTarget lif skb = .txq x.s.q.index)
    (hs : ionicStartXmit lif c env skb x.s = some (s', r)) (napiDeadline now : Nat) :
    TxOwned c (x.afterXmit napiDeadline now skb s' r) := by
  intro k
  show s'.released.count k + heldCount c.ring.numDescs k s'.view.arg =
    (if r = .ok then skb.id :: x.accepted else x.accepted).count k
  have hk := ho k
  unfold TxState.ownCount at hk
  rcases ionicStartXmit_posts hwf ht hs with ⟨hv, hr⟩ | ⟨rfl, hrel, skb₁, hid, hlen, hp⟩
  · -- nothing posted: a busy return, or a drop that frees the skb
    rw [hv]
    rcases ionicStartXmit_released ht hs with ⟨rfl, hrel⟩ | ⟨rfl, hrel | hrel⟩
    · rw [hrel, if_neg (by decide)]; exact hk
    · exact absurd hrel (hr.resolve_left (by decide))
    · rw [hrel, if_pos rfl, count_cons_id, count_cons_id, ← hk]; omega
  · have hs₁ : slotHolds k (some skb₁) = slotHolds k (some skb) := by simp only [slotHolds, Option.map_some', hid]
    rw [hrel, if_pos rfl, count_cons_id, ← hk, ← hs₁]
    rcases hp with ⟨-, hv⟩ | ⟨segs, hf, hne, hroom, hv⟩
    · rw [hv, TxView.post_arg, TxView.sent_arg, TxView.sent_head, heldCount_fill h.bql.head_lt h.bql.arg_head]
      omega
    · rw [hv, h.bql.heldCount_foldl_tsoPost hc hlen k hf hroom, if_pos ⟨rfl, hne⟩]
      omega

/-- A service of the completion ring frees exactly the skbs it takes out of their slots. -/
theorem TxOwned.service (h : TxSysInv c x) {budget w : Nat} {cq' : Cq Nat} {s' : TxState}
    (hs : ionicCqService c.ring (ionicTxService c) budget x.cq x.s = some (w, cq', s')) (k : Nat) :
    s'.ownCount c k = x.s.ownCount c k :=
  ionicCqService_ownCount h.bql.tail_lt hs

theorem TxOwned.step (hc : c.hwstamp = false) {napiDeadline : Nat} {y : TxSys} (h : TxSysInv c x) (ho : TxOwned c x)
    (hs : TxSysStep c napiDeadline x y) : TxOwned c y := by
  cases hs with
  | xmit now hwf ht hs => exact ho.xmit hc h hwf ht hs napiDeadline now
  | send _ _ => exact ho
  | @napi now budget w cq' s' tm' hs =>
    obtain ⟨⟨w₁, cq₁, s₁⟩, hs₁, he⟩ := Option.map_eq_some'.mp hs
    simp only [Prod.mk.injEq] at he
    obtain ⟨-, -, hp⟩ := he
    have hs' : (ionicTxNapiPoke napiDeadline now w₁ s₁ x.tm).1 = s' := congrArg Prod.fst hp
    intro k
    show s'.ownCount c k = x.accepted.count k
    rw [← hs', ionicTxNapiPoke_ownCount, TxOwned.service h hs₁ k]
    exact ho k
  | flush hs => exact fun k => (TxOwned.service h hs k).trans (ho k)

/-- Every state of a run keeps the ownership count. -/
theorem TxSysReach.owned (hc : c.hwstamp = false) {napiDeadline : Nat} (h : TxSysReach c napiDeadline x) :
    TxOwned c x := by
  induction h with
  | init index tm color => exact TxOwned.init index tm color
  | step hr hs ih => exact ih.step hc (hr.inv hc) hs

end Steps

/-- No skb is lost or freed twice: along every run of a queue that does not timestamp, each skb
id has been freed by the queue, or sits in a slot, as many times in all as `ionic_start_xmit`
answered `NETDEV_TX_OK` for it. An skb taken once is freed once or held by one slot, never both,
and never freed again. -/
theorem txSysReach_owned {c : TxqCfg} (hc : c.hwstamp = false) {napiDeadline : Nat} {x : TxSys}
    (h : TxSysReach c napiDeadline x) (k : Nat) :
    x.s.released.count k + heldCount c.ring.numDescs k (fun i => (x.s.q.info i).cbArg) = x.accepted.count k :=
  h.owned hc k

/-- A queue of four slots that took one skb, posted while more packets follow: one slot holds it. -/
theorem txSysReach_owned_xmit :
    let c : TxqCfg := ⟨⟨4, 2, rfl⟩, 8, false⟩
    let s₁ : TxState := ((ionicStartXmit ⟨true, false, 1⟩ c ⟨4096, fun _ => 8192, true, true, true⟩
      ⟨1, 100, [], 0, 0, 0, 0, false, false⟩ (TxState.init 0)).map Prod.fst).getD (TxState.init 0)
    s₁.released.count 1 + heldCount c.ring.numDescs 1 (fun i => (s₁.q.info i).cbArg) = [1].count 1 :=
  @txSysReach_owned _ rfl 2 _
    (.step (.init 0 ⟨1, 0, none⟩ true) (@TxSysStep.xmit ⟨⟨4, 2, rfl⟩, 8, false⟩ 2 _ _ ⟨true, false, 1⟩
      ⟨4096, fun _ => 8192, true, true, true⟩ ⟨1, 100, [], 0, 0, 0, 0, false, false⟩ .ok 0
      ⟨by decide, fun h => absurd h (by decide)⟩ rfl rfl)) 1

/-- Draining the queue: from every state of a run in which the device has sent every posted slot,
one `ionic_tx_flush` takes every pending completion and empties the ring. No slot holds an skb
any more, every skb the queue took has been freed exactly once, and BQL has been told of as many
completed bytes and packets as were sent. -/
theorem txSysReach_flush_drains {c : TxqCfg} (hc : c.hwstamp = false) {napiDeadline : Nat} {x : TxSys}
    (h : TxSysReach c napiDeadline x) (hs : x.sent = x.s.q.headIdx) :
    ∃ cq' s', ionicTxFlush c x.cq x.s = some (cqCount c.ring x.cq x.d, cq', s') ∧ cqCount c.ring cq' x.d = 0 ∧
      s'.q.tailIdx = x.s.q.headIdx ∧ s'.q.headIdx = x.s.q.headIdx ∧ (∀ i, (s'.q.info i).cbArg = none) ∧
      (∀ k, s'.released.count k = x.accepted.count k) ∧
      s'.bql.doneBytes = s'.bql.sentBytes ∧ s'.bql.donePkts = s'.bql.sentCalls := by
  have hi := h.inv hc
  obtain ⟨w, cq', s', hf, hw, hall, hh, hi'⟩ := hi.service hc c.ring.numDescs
  have h0 := hall hi.cqCount_lt.le
  -- no completion is left, so `tail_idx` has reached the device's cursor
  obtain ⟨ks, -, hsum, hp⟩ := hi'.batches
  have hks : ks = [] := by
    rw [← List.length_eq_zero, ← txBatchComps_length c.ring s'.q.tailIdx, ← hp, cqPending_length]
    exact h0
  subst hks
  have ht : s'.q.tailIdx = x.s.q.headIdx :=
    ((c.ring.inflight_eq_zero hi.sent_lt hi'.bql.tail_lt).mp hsum.symm).symm.trans hs
  obtain ⟨hn, hrel, hb, hp⟩ :=
    hi'.bql.drained (ht.trans hh.symm) fun k => (TxOwned.service hi hf k).trans (h.owned hc k)
  exact ⟨cq', s', by rw [ionicTxFlush, hf, ← hw, h0]; rfl, h0, ht, hh, hn, hrel, hb, hp⟩

/-- A queue of four slots that sent one packet, once the device has sent it, drains with one flush
that frees the skb. -/
theorem txSysReach_flush_drains_sent :
    let c : TxqCfg := ⟨⟨4, 2, rfl⟩, 8, false⟩
    let skb : Skb := ⟨1, 100, [], 0, 0, 0, 0, false, false⟩
    let x₀ : TxSys := ⟨TxState.init 0, ⟨1, 0, none⟩, Cq.init true 0, ⟨0, true⟩, 0, []⟩
    let s₁ := ((ionicStartXmit ⟨true, false, 1⟩ c ⟨4096, fun _ => 8192, true, true, false⟩ skb x₀.s).map
      Prod.fst).getD x₀.s
    let x := (x₀.afterXmit 2 3 skb s₁ .ok).devSend c.ring 1
    x.sent = x.s.q.headIdx ∧ cqCount c.ring x.cq x.d = 1 ∧
    ∃ cq' s', ionicTxFlush c x.cq x.s = some (cqCount c.ring x.cq x.d, cq', s') ∧ cqCount c.ring cq' x.d = 0 ∧
      s'.q.tailIdx = x.s.q.headIdx ∧ s'.q.headIdx = x.s.q.headIdx ∧ (∀ i, (s'.q.info i).cbArg = none) ∧
      (∀ k, s'.released.count k = x.accepted.count k) ∧
      s'.bql.doneBytes = s'.bql.sentBytes ∧ s'.bql.donePkts = s'.bql.sentCalls :=
  ⟨by decide, by decide, @txSysReach_flush_drains _ rfl 2 _
    (.step (.step (.init 0 ⟨1, 0, none⟩ true) (@TxSysStep.xmit ⟨⟨4, 2, rfl⟩, 8, false⟩ 2 _ _ ⟨true, false, 1⟩
      ⟨4096, fun _ => 8192, true, true, false⟩ ⟨1, 100, [], 0, 0, 0, 0, false, false⟩ .ok 3
      ⟨by decide, fun h => absurd h (by decide)⟩ rfl rfl)) (.send (by decide) (by decide))) (by decide)⟩

/-- Teardown: from every state of a run of a queue that does not timestamp, `ionic_tx_empty`
returns with the ring empty (`tail_idx` at `head_idx`; the cursors are not reset), no slot
holding an skb, every skb the queue took freed exactly once, and BQL told of as many completed
bytes and packets as were sent. -/
theorem txSysReach_empty_releases {c : TxqCfg} (hc : c.hwstamp = false) {napiDeadline : Nat} {x : TxSys}
    (h : TxSysReach c napiDeadline x) :
    ∃ s', ionicTxEmpty c x.s = some s' ∧ s'.q.tailIdx = x.s.q.headIdx ∧ s'.q.headIdx = x.s.q.headIdx ∧
      (∀ i, (s'.q.info i).cbArg = none) ∧ (∀ k, s'.released.count k = x.accepted.count k) ∧
      s'.bql.doneBytes = s'.bql.sentBytes ∧ s'.bql.donePkts = s'.bql.sentCalls := by
  have hi := (h.inv hc).bql
  obtain ⟨p, b, s₁, hl, ht, hh, ho⟩ := @ionicTxEmptyLoop_drains c (c.ring.numDescs + 1) 0 0 x.s hi.head_lt
    hi.tail_lt (Nat.lt_succ_of_lt (c.ring.inflight_lt _ _))
  have he : ionicTxEmpty c x.s = some (s₁.bqlCompleted c p b) := by rw [ionicTxEmpty, hl]; rfl
  have hq := TxState.bqlCompleted_q s₁ c p b
  obtain ⟨hn, hrel, hbb, hbp⟩ := (ionicTxEmpty_inv hc hi he).drained (by rw [hq, ht, hh])
    fun k => ((TxState.bqlCompleted_ownCount s₁ p b).trans (ho k)).trans (h.owned hc k)
  exact ⟨_, he, by rw [hq, ht], by rw [hq, hh], hn, hrel, hbb, hbp⟩

/-- The teardown of a queue of four slots holding one skb, posted while more packets follow,
frees it. -/
theorem txSysReach_empty_releases_xmit :
    let c : TxqCfg := ⟨⟨4, 2, rfl⟩, 8, false⟩
    let s₁ : TxState := ((ionicStartXmit ⟨true, false, 1⟩ c ⟨4096, fun _ => 8192, true, true, true⟩
      ⟨1, 100, [], 0, 0, 0, 0, false, false⟩ (TxState.init 0)).map Prod.fst).getD (TxState.init 0)
    ∃ s', ionicTxEmpty c s₁ = some s' ∧ s'.q.tailIdx = s₁.q.headIdx ∧ s'.q.headIdx = s₁.q.headIdx ∧
      (∀ i, (s'.q.info i).cbArg = none) ∧ (∀ k, s'.released.count k = [1].count k) ∧
      s'.bql.doneBytes = s'.bql.sentBytes ∧ s'.bql.donePkts = s'.bql.sentCalls :=
  @txSysReach_empty_releases _ rfl 2 _
    (.step (.init 0 ⟨1, 0, none⟩ true) (@TxSysStep.xmit ⟨⟨4, 2, rfl⟩, 8, false⟩ 2 _ _ ⟨true, false, 1⟩
      ⟨4096, fun _ => 8192, true, true, true⟩ ⟨1, 100, [], 0, 0, 0, 0, false, false⟩ .ok 0
      ⟨by decide, fun h => absurd h (by decide)⟩ rfl rfl))

end IonicTxrx
