import IonicTxrx.Tx.View

/-!
# How far one completion cleans

The `do ... while (index != comp_index)` loop of `ionic_tx_service` walks from `tail_idx`,
cleaning each slot and advancing `tail_idx`, until the slot it cleaned is the one the
completion names. It stops at the first slot equal to `comp_index`, whether or not that slot was
posted: from any `tail_idx` it cleans `(comp_index - tail_idx) mod N + 1` slots
(`ionicTxServiceLoop_walk`), so a completion naming a slot of the window stops inside the window
(`ionicTxService_in_window`), one naming a slot outside it cleans past `head_idx`, and one whose
`comp_index` is `≥ num_descs` is never met (`ionicTxServiceLoop_none`). Unlike
`ionic_rx_service`, the loop checks neither for an empty ring nor that `comp_index` is posted.
-/

namespace IonicTxrx

variable {c : TxqCfg} {ci : Nat}

/-- Completions leave `head_idx` alone. -/
theorem TxView.iterate_complete_head (r : Ring) (n : Nat) (v : TxView) :
    ((TxView.complete r)^[n] v).head = v.head := by
  induction n generalizing v with
  | zero => rfl
  | succ n ih => rw [Function.iterate_succ_apply, ih]; rfl

/-- With more passes than slots from `tail_idx` to `comp_index`, the loop completes those slots,
`tail_idx` first, and stops with `tail_idx` just past `comp_index`. -/
theorem ionicTxServiceLoop_walk (hci : ci < c.ring.numDescs) :
    ∀ {fuel p b : Nat} {s : TxState}, s.q.tailIdx < c.ring.numDescs →
      c.ring.inflight ci s.q.tailIdx < fuel →
      ∃ p' b' s', ionicTxServiceLoop c ci fuel p b s = some (p', b', s') ∧
        s'.view = (TxView.complete c.ring)^[c.ring.inflight ci s.q.tailIdx + 1] s.view ∧
        s'.q.tailIdx = c.ring.next ci
  | 0, _, _, _, _, hf => absurd hf (Nat.not_lt_zero _)
  | fuel + 1, p, b, s, ht, hf => by
    obtain ⟨hv, -, -⟩ := ionicTxCleanTail_view c p b s
    have ht₁ := congrArg TxView.tail hv
    rcases hc : ionicTxCleanTail c p b s with ⟨p₁, b₁, s₁⟩
    rw [hc] at hv ht₁
    simp only [TxState.view, TxView.complete_tail] at ht₁
    rw [ionicTxServiceLoop, hc]
    dsimp only
    by_cases he : s.q.tailIdx = ci
    · -- the slot just cleaned is `comp_index`
      subst he
      rw [if_neg (not_not.mpr rfl), c.ring.inflight_self]
      exact ⟨p₁, b₁, s₁, rfl, hv, ht₁⟩
    · rw [if_pos he]
      have hstep := c.ring.inflight_next_tail hci ht he
      obtain ⟨p', b', s', hl, hv', ht'⟩ := ionicTxServiceLoop_walk hci (p := p₁) (b := b₁) (s := s₁)
        (ht₁ ▸ c.ring.next_lt _) (show c.ring.inflight ci s₁.q.tailIdx < fuel by rw [ht₁]; omega)
      refine ⟨p', b', s', hl, ?_, ht'⟩
      rw [hv', hv, ht₁, ← hstep]
      exact (Function.iterate_succ_apply _ _ _).symm

/-- A `comp_index` past the ring is never the slot just cleaned: no number of passes ends the
loop. -/
theorem ionicTxServiceLoop_none (hci : c.ring.numDescs ≤ ci) :
    ∀ {fuel p b : Nat} {s : TxState}, s.q.tailIdx < c.ring.numDescs →
      ionicTxServiceLoop c ci fuel p b s = none
  | 0, _, _, _, _ => rfl
  | fuel + 1, p, b, s, ht => by
    obtain ⟨hv, -, -⟩ := ionicTxCleanTail_view c p b s
    have ht₁ := congrArg TxView.tail hv
    rcases hc : ionicTxCleanTail c p b s with ⟨p₁, b₁, s₁⟩
    rw [hc] at ht₁
    simp only [TxState.view, TxView.complete_tail] at ht₁
    rw [ionicTxServiceLoop, hc]
    dsimp only
    rw [if_pos (by omega)]
    exact ionicTxServiceLoop_none hci (ht₁ ▸ c.ring.next_lt _)

/-- On a ring with `tail_idx` inside it, a matching completion that names a slot
of the window `[tail_idx, head_idx)` ends `ionic_tx_service` after cleaning the slots from
`tail_idx` through `comp_index`: no more than the `(head_idx - tail_idx) mod N` posted slots,
with `tail_idx` moved forward inside `[tail_idx, head_idx]` and `head_idx` unchanged. -/
theorem ionicTxService_in_window {s : TxState} (ht : s.q.tailIdx < c.ring.numDescs) (hci : ci < c.ring.numDescs)
    (hw : c.ring.InWindow s.q.headIdx s.q.tailIdx ci) :
    ∃ p b s₁, ionicTxServiceLoop c ci c.ring.numDescs 0 0 s = some (p, b, s₁) ∧
      ionicTxService c true ci s = some (true, s₁.bqlCompleted c p b) ∧
      s₁.view = (TxView.complete c.ring)^[c.ring.inflight ci s.q.tailIdx + 1] s.view ∧
      c.ring.inflight ci s.q.tailIdx + 1 ≤ c.ring.inflight s.q.headIdx s.q.tailIdx ∧
      s₁.q.tailIdx = c.ring.next ci ∧
      c.ring.inflight s₁.q.tailIdx s.q.tailIdx = c.ring.inflight ci s.q.tailIdx + 1 ∧
      s₁.q.headIdx = s.q.headIdx := by
  have hlt : c.ring.inflight ci s.q.tailIdx < c.ring.inflight s.q.headIdx s.q.tailIdx := hw
  have hN := c.ring.inflight_lt s.q.headIdx s.q.tailIdx
  obtain ⟨p, b, s₁, hl, hv, ht₁⟩ := ionicTxServiceLoop_walk (p := 0) (b := 0) (s := s) hci ht
    (show c.ring.inflight ci s.q.tailIdx < c.ring.numDescs by omega)
  have hh₁ : s₁.q.headIdx = s.q.headIdx := (congrArg TxView.head hv).trans (TxView.iterate_complete_head _ _ _)
  refine ⟨p, b, s₁, hl, by simp [ionicTxService, hl], hv, hlt, ht₁, ?_, hh₁⟩
  rw [ht₁, c.ring.inflight_next_head hci ht (by omega)]

/-- Completions outside the window: on a freshly opened queue of 4 slots, a matching completion
naming slot 0 makes `ionic_tx_service` clean slot 0, which was never posted, and leaves
`tail_idx = 1` past `head_idx = 0`, so that the ring then counts 3 slots in flight; one naming
slot 4, a `comp_index` the 16-bit field holds, keeps the loop going for any number of passes. -/
theorem ionicTxService_cleans_unposted :
    let c : TxqCfg := ⟨⟨4, 2, rfl⟩, 8, false⟩
    (ionicTxService c true 0 (TxState.init 0)).map
        (fun r => (r.1, r.2.q.tailIdx, r.2.q.headIdx, c.ring.inflight r.2.q.headIdx r.2.q.tailIdx)) =
      some (true, 1, 0, 3) ∧
    ionicTxService c true 4 (TxState.init 0) = none ∧
    ∀ fuel p b, ionicTxServiceLoop c 4 fuel p b (TxState.init 0) = none :=
  ⟨by decide, by simp [ionicTxService, ionicTxServiceLoop_none (c := ⟨⟨4, 2, rfl⟩, 8, false⟩) (le_refl 4)
    (show (TxState.init 0).q.tailIdx < 4 by decide)],
   fun _ _ _ => ionicTxServiceLoop_none (le_refl 4) (show (TxState.init 0).q.tailIdx < 4 by decide)⟩

end IonicTxrx
