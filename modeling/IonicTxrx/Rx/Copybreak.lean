import IonicTxrx.Rx.Reach

/-!
# What a copied packet reads

`ionic_rx_copybreak` builds a packet of `comp->len <= rx_copybreak` bytes out of `bufs[0]` alone:
it syncs and copies `comp->len` bytes of that buffer's page from `page_offset`. `ionic_rx_fill`
posted `bufs[0]` for `min(len, IONIC_PAGE_SIZE - page_offset)` bytes and the rest of a longer
packet in the SG buffers, which the copy never looks at, and nothing compares `comp->len` with
the region of `bufs[0]`: the sibling `ionic_rx_frags` caps each fragment at its buffer's room,
the copy does not. In every reachable state the copy starts where the region posted for `bufs[0]`
starts (`rxReach_copybreak_source`), so it stays in that region exactly when `comp->len` fits in
it; with a copy-break threshold above that region it reads past the region and past the page
(`ionicRxCopybreak_reads_past_page`).
-/

namespace IonicTxrx

/-- The metadata step keeps what the packet was copied from. -/
@[simp] theorem ionicRxMeta_copiedFrom (c : RxqCfg) (lif : RxLif) (comp : RxComp) (pkt : RxPkt) (st : RxStats) :
    (ionicRxMeta c lif comp pkt st).1.copiedFrom = pkt.copiedFrom := by
  unfold ionicRxMeta
  dsimp only

/-- In every state a receive queue reaches, a completion that `ionic_rx_service` accepts for the
slot at `tail_idx` (status 0, `comp->len` within `mtu + ETH_HLEN + VLAN_HLEN`) and hands to
`ionic_rx_copybreak` (`comp->len <= rx_copybreak`, an skb allocated) delivers one packet copied
from `comp->len` bytes of the page of `bufs[0]`, starting at its `page_offset`: the start of the
region `ionic_rx_fill` posted for `bufs[0]`, a region that ends inside the page. -/
theorem rxReach_copybreak_source {b : RxBuild} {c : RxqCfg} {s : RxState} (h : RxReach b c s) (lif : RxLif)
    (env : RxEnv) (comp : RxComp) (hcm : comp.colorMatch = true) (hne : s.q.tailIdx ≠ s.q.headIdx)
    (hidx : s.q.tailIdx = comp.compIndex) (hst : comp.status = 0)
    (hmtu : comp.len ≤ lif.mtu + ethHlen + vlanHlen) (hcb : comp.len ≤ lif.rxCopybreak) (hskb : env.skbOk = true) :
    ∃ pkt p, (ionicRxService b c lif env comp s).2.delivered = pkt :: s.delivered ∧
      pkt.copiedFrom = some ⟨p, ((s.q.info s.q.tailIdx).bufs 0).pageOffset, comp.len⟩ ∧
      ((s.q.info s.q.tailIdx).bufs 0).page = some p ∧
      postedAddr (s.q.info s.q.tailIdx) 0 =
        ((s.q.info s.q.tailIdx).bufs 0).dmaAddr + ((s.q.info s.q.tailIdx).bufs 0).pageOffset ∧
      ((s.q.info s.q.tailIdx).bufs 0).pageOffset + postedLen (s.q.info s.q.tailIdx) 0 ≤ b.pageSize := by
  have hI := h.inv
  -- the slot at `tail_idx` of a nonempty window is posted
  have hw : c.ring.InWindow s.q.headIdx s.q.tailIdx s.q.tailIdx := by
    have := (c.ring.inflight_eq_zero hI.head_lt hI.tail_lt).not.mpr (Ne.symm hne)
    simp only [Ring.InWindow, c.ring.inflight_self]; omega
  obtain ⟨hn1, hposted⟩ := hI.posted _ hI.tail_lt hw
  obtain ⟨hs, ha, hl⟩ := hposted 0 hn1
  obtain ⟨p, hp⟩ := Option.isSome_iff_exists.mp hs
  have ho := hI.pages.off_lt _ 0 p hp
  have hroom := b.room_le ho.le
  have hd : (ionicRxService b c lif env comp s).2.delivered =
      (ionicRxMeta c lif comp ⟨[], some ⟨p, ((s.q.info s.q.tailIdx).bufs 0).pageOffset, comp.len⟩, comp.len,
        c.index, none, none, none, none⟩
        { s.stats with pkts := s.stats.pkts + 1, bytes := s.stats.bytes + comp.len }).1 :: s.delivered := by
    simp [ionicRxService, ionicRxClean, ionicRxCopybreak, hcm, hne, ← hidx, hst, not_lt.mpr hmtu, hcb, hskb, hp]
  exact ⟨_, p, hd, by simp, hp, ha, by simp only [slotBufs] at ho hroom; omega⟩

/-- A 128-byte packet into the first slot of a freshly filled ring of two slots. -/
theorem rxReach_copybreak_source_fresh :
    let b : RxBuild := ⟨false, 4096, 2048, 3000, 8, 16, by decide, by decide⟩
    let c : RxqCfg := ⟨⟨2, 1, rfl⟩, 0, 2, false⟩
    let lif : RxLif := { mtu := 1500, rxCopybreak := 256 }
    let env : RxEnv := ⟨fun _ => true, fun p => 4096 * (p + 1), fun _ => true, true, []⟩
    let s := ionicRxFill b c lif env (RxState.init 0)
    ∃ pkt p, (ionicRxService b c lif env { len := 128 } s).2.delivered = pkt :: s.delivered ∧
      pkt.copiedFrom = some ⟨p, ((s.q.info s.q.tailIdx).bufs 0).pageOffset, 128⟩ ∧
      ((s.q.info s.q.tailIdx).bufs 0).page = some p ∧
      postedAddr (s.q.info s.q.tailIdx) 0 =
        ((s.q.info s.q.tailIdx).bufs 0).dmaAddr + ((s.q.info s.q.tailIdx).bufs 0).pageOffset ∧
      ((s.q.info s.q.tailIdx).bufs 0).pageOffset + postedLen (s.q.info s.q.tailIdx) 0 ≤ b.pageSize :=
  rxReach_copybreak_source (.fill _ _ .init) _ _ { len := 128 } rfl (by decide) (by decide) rfl (by decide) (by decide) rfl

/-- A copy-break threshold above the room of `bufs[0]`: a fresh ring of two slots with 4 KiB pages,
filled for an MTU of 9000, posts slot 0 with three buffers, `bufs[0]` for its whole page. With
`rx_copybreak` 9000, a 5000-byte completion for slot 0 is copied from 5000 bytes of page 0 from
offset 0: 904 bytes past the region posted for `bufs[0]` and past the end of the page, while the
device wrote them into the page of `bufs[1]`. -/
theorem ionicRxCopybreak_reads_past_page :
    let b : RxBuild := ⟨false, 4096, 2048, 3000, 8, 16, by decide, by decide⟩
    let c : RxqCfg := ⟨⟨2, 1, rfl⟩, 0, 2, false⟩
    let lif : RxLif := { mtu := 9000, rxCopybreak := 9000 }
    let env : RxEnv := ⟨fun _ => true, fun p => 4096 * (p + 1), fun _ => true, true, []⟩
    let s := ionicRxFill b c lif env (RxState.init 0)
    let s' := (ionicRxService b c lif env { len := 5000 } s).2
    ((s.q.info 0).nbufs, (List.range 3).map (postedLen (s.q.info 0)), ((s.q.info 0).bufs 0).page,
        s'.delivered.map RxPkt.copiedFrom) =
      (3, [4096, 4096, 826], some 0, [some ⟨0, 0, 5000⟩]) ∧ b.pageSize < 0 + 5000 := by
  decide

end IonicTxrx
