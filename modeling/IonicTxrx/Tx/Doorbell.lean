import IonicTxrx.Tx.View

/-!
# Doorbells of the transmit path

`ionic_tx` rings when no more packets follow (`!netdev_xmit_more()`), and `ionic_tx_tso_post`
rings with the last descriptor of a packet unless it is also the first. Nothing else in a call
of `ionic_start_xmit` writes a doorbell: not the drop path, not a busy return, and not the
trailing `ionic_maybe_stop_tx`, even when it stops the subqueue.
-/

namespace IonicTxrx

/-- Posting the descriptors of one TSO packet ends with a doorbell carrying the new `head_idx`
when the last descriptor is not the first. -/
theorem TxView.foldl_tsoPost_dbell (c : TxqCfg) (skb : Skb) :
    ∀ {start : Bool} {segs : List TsoSeg} {v : TxView}, SegFlags start segs → segs ≠ [] →
      (start = false ∨ 2 ≤ segs.length) →
      (segs.foldl (TxView.tsoPost c skb) v).dbell = some (segs.foldl (TxView.tsoPost c skb) v).head
  | _, [], _, _, hne, _ => absurd rfl hne
  | start, [g], v, ⟨hs, hd, _⟩, _, h2 => by
    have hs' : g.start = false := by simpa [hs] using h2
    simp [TxView.tsoPost, hs', hd, TxView.post]
  | start, g :: g' :: gs, v, ⟨_, _, hf⟩, _, _ => by
    rw [List.foldl_cons]
    exact TxView.foldl_tsoPost_dbell c skb hf (List.cons_ne_nil _ _) (.inl rfl)

/-- A packet with more than `hdrlen + mss` bytes is cut into two descriptors or more. -/
theorem two_le_tsoSizes_length {len hdrlen mss : Nat} (hmss : 0 < mss) (h : hdrlen + mss < len) :
    2 ≤ (tsoSizes len hdrlen mss).length := by
  rw [tsoSizes, List.length_cons, laterSizes_eq _ _ hmss, if_neg (by omega)]
  simp

/-- The doorbell of a call of `ionic_start_xmit` on a regular queue. A call that posts a packet
(it returns `NETDEV_TX_OK` and releases nothing) ends with a doorbell carrying `head_idx` when
the packet is not GSO and no more packets follow, or when it is a TSO packet cut into two
descriptors or more; a non-GSO packet posted while more follow leaves the doorbell as it was.
A call that drops the packet or returns `NETDEV_TX_BUSY` writes no doorbell. -/
theorem ionicStartXmit_doorbell {lif : Lif} {c : TxqCfg} {env : TxEnv} {skb : Skb} {s s' : TxState}
    {r : NetdevTx} {qi : Nat} (ht : ionicStartXmitTarget lif skb = .txq qi)
    (h : ionicStartXmit lif c env skb s = some (s', r)) :
    (r = .ok ∧ s'.released = s.released →
      (skb.isGso = false → s'.q.dbell = if env.xmitMore then s.q.dbell else some s'.q.headIdx) ∧
      (skb.isGso = true → skb.hdrlen + skb.gsoSize < skb.len → s'.q.dbell = some s'.q.headIdx)) ∧
    (r = .busy ∨ s'.released ≠ s.released → s'.q.dbell = s.q.dbell) := by
  have hd : ∀ {t : TxState}, t.q.dbell = t.view.dbell := rfl
  have hh : ∀ {t : TxState}, t.q.headIdx = t.view.head := rfl
  rcases ionicStartXmit_view ht h with ⟨hv, hr⟩ | ⟨rfl, hrel, -, skb₁, -, hng, hg⟩
  · refine ⟨fun ⟨hok, hrel⟩ => ?_, fun _ => by rw [hd, hv]; rfl⟩
    rcases hr with rfl | hr
    · cases hok
    · exact absurd hrel hr
  refine ⟨fun _ => ⟨fun hgso => ?_, fun hgso hlen => ?_⟩, fun hr => ?_⟩
  · rw [hd, hh, hng hgso]
    cases env.xmitMore <;> simp [TxState.view]
  · obtain ⟨segs, hf, hb, hv⟩ := hg hgso
    have hmss : 0 < skb.gsoSize := by simpa [Skb.isGso, Nat.pos_iff_ne_zero] using hgso
    have h2 : 2 ≤ segs.length := by
      rw [← List.length_map segs TsoSeg.bytes, hb, if_neg (by omega)]
      exact two_le_tsoSizes_length hmss hlen
    rw [hd, hh, hv]
    exact TxView.foldl_tsoPost_dbell c skb₁ hf (List.ne_nil_of_length_pos (by omega)) (.inr h2)
  · rcases hr with hr | hr
    · cases hr
    · exact absurd hrel hr

/-- A non-GSO send with no more packets following, from an opened queue. -/
theorem ionicStartXmit_doorbell_single :
    ∃ s', ionicStartXmit ⟨true, false, 1⟩ ⟨⟨16, 4, rfl⟩, 8, false⟩ ⟨4096, fun _ => 8192, true, true, false⟩
        ⟨1, 100, [], 0, 0, 0, 0, false, false⟩ (TxState.init 0) = some (s', .ok) ∧
      s'.q.dbell = some s'.q.headIdx := by
  refine ⟨_, rfl, ?_⟩
  exact ((@ionicStartXmit_doorbell ⟨true, false, 1⟩ ⟨⟨16, 4, rfl⟩, 8, false⟩
    ⟨4096, fun _ => 8192, true, true, false⟩ ⟨1, 100, [], 0, 0, 0, 0, false, false⟩ (TxState.init 0) _ _ 0
    rfl rfl).1 ⟨rfl, rfl⟩).1 rfl

/-- Twelve sends while more packets follow on a ring of sixteen slots: the twelfth leaves only
three slots free, so its trailing `ionic_maybe_stop_tx(q, 4)` stops the subqueue, and the call
returns with the subqueue stopped while none of the twelve descriptors has been announced. -/
theorem ionicStartXmit_stopped_unannounced :
    ((List.replicate 12 (⟨1, 100, [], 0, 0, 0, 0, false, false⟩ : Skb)).foldlM
        (fun s skb => (ionicStartXmit ⟨true, false, 1⟩ ⟨⟨16, 4, rfl⟩, 8, false⟩
          ⟨4096, fun _ => 8192, true, true, true⟩ skb s).map Prod.fst) (TxState.init 0)).map
      (fun s => (s.stopped 0, s.q.headIdx, s.q.dbell)) = some (true, 12, none) := by
  decide

end IonicTxrx
