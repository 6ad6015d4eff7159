import IonicTxrx.Tx.Own

/-!
# DMA mappings of the transmit ring

`ionic_tx_map_skb` maps the head into `bufs[0]` and fragment `k` into `bufs[1 + k]` and sets
`nbufs`; `ionic_tx_desc_unmap_bufs` unmaps `bufs[0 .. nbufs)` and clears `nbufs`, from
`ionic_tx_clean` once the slot completes or from `ionic_tx_tso` when `skb_cow_head` fails; a TSO
packet keeps its mappings in its first slot, and `ionic_tx_tso_post` clears `nbufs` of each slot
after it. The DMA view (`TxState.dmaView`) keeps, per slot, the callback argument and the
addresses the slot owns, with the kernel's mappings; every function of the transmit core is a
short sequence of its steps. `TxDmaInv` states the balance: a slot without a callback argument
owns nothing, the live mappings of each address are those the slots own, and nothing was
unmapped that was not mapped. Along every run in which each mapping succeeds it holds, so no
mapping leaks and none is unmapped twice (`txMapsReach_dma_balanced`); the failure paths of
`ionic_tx_map_skb` break it (`ionicStartXmit_frag_fail_leaks_head`).
-/

namespace IonicTxrx

/-! ## Mapping and unmapping lists -/

namespace Dma

/-- Mapping the addresses of `L` in order adds them to the live mappings. -/
theorem count_foldl_map (L : List Nat) (d : Dma) (a : Nat) :
    (L.foldl Dma.map d).live.count a = d.live.count a + L.count a ∧ (L.foldl Dma.map d).bad = d.bad := by
  induction L generalizing d with
  | nil => exact ⟨rfl, rfl⟩
  | cons x L ih =>
    rw [List.foldl_cons, (ih _).1, (ih _).2, List.count_cons]
    exact ⟨by simp only [Dma.map, List.count_cons]; omega, rfl⟩

/-- Unmapping the addresses of `L` in order, each of them live as often as `L` names it, takes
them out of the live mappings and records nothing as unmapped twice. -/
theorem count_foldl_unmap :
    ∀ (L : List Nat) (d : Dma), (∀ a, L.count a ≤ d.live.count a) →
      (∀ a, (L.foldl Dma.unmap d).live.count a = d.live.count a - L.count a) ∧ (L.foldl Dma.unmap d).bad = d.bad
  | [], _, _ => ⟨fun _ => rfl, rfl⟩
  | x :: L, d, h => by
    have hx : x ∈ d.live := List.count_pos_iff.mp (by have := h x; simp only [List.count_cons_self] at this; omega)
    have hu : d.unmap x = { d with live := d.live.erase x } := if_pos hx
    have hL : ∀ a, L.count a ≤ (d.unmap x).live.count a := fun a => by
      have := h a
      rw [hu, List.count_erase, List.count_cons] at *
      split_ifs at * <;> omega
    obtain ⟨h₁, h₂⟩ := count_foldl_unmap L (d.unmap x) hL
    refine ⟨fun a => ?_, by rw [List.foldl_cons, h₂, hu]⟩
    rw [List.foldl_cons, h₁, hu, List.count_erase, List.count_cons]
    split_ifs <;> omega

end Dma

/-! ## The DMA view -/

/-- The DMA addresses slot `d` owns: `bufs[0 .. nbufs)`, which `ionic_tx_desc_unmap_bufs`
unmaps. -/
def TxDescInfo.mapped (d : TxDescInfo) : List Nat := (List.range d.nbufs).map fun j => (d.bufs j).dmaAddr

theorem TxDescInfo.mapped_of_nbufs {d : TxDescInfo} (h : d.nbufs = 0) : d.mapped = [] := by
  simp [TxDescInfo.mapped, h]

@[simp] theorem TxDescInfo.mapped_cbArg (d : TxDescInfo) (a : Option Skb) : { d with cbArg := a }.mapped = d.mapped := rfl
@[simp] theorem TxDescInfo.mapped_desc (d : TxDescInfo) (x : TxqDesc) : { d with desc := x }.mapped = d.mapped := rfl
@[simp] theorem TxDescInfo.mapped_bytes (d : TxDescInfo) (n : Nat) : { d with bytes := n }.mapped = d.mapped := rfl

/-- What the DMA bookkeeping of a TX queue depends on: the callback argument of each slot, the
addresses each slot owns, and the kernel's mappings. -/
structure TxDmaView where
  arg : Nat → Option Skb
  mapped : Nat → List Nat
  dma : Dma

/-- The DMA view of a TX state. -/
def TxState.dmaView (s : TxState) : TxDmaView :=
  ⟨fun i => (s.q.info i).cbArg, fun i => (s.q.info i).mapped, s.dma⟩

namespace TxDmaView

variable (v : TxDmaView)

/-- Map the addresses `L` in order, for slot `i`. -/
def mapAt (i : Nat) (L : List Nat) : TxDmaView :=
  { v with mapped := Function.update v.mapped i L, dma := L.foldl Dma.map v.dma }

/-- Unmap in order what slot `i` owns, which then owns nothing. -/
def unmapAt (i : Nat) : TxDmaView :=
  { v with mapped := Function.update v.mapped i [], dma := (v.mapped i).foldl Dma.unmap v.dma }

/-- Set the callback argument of slot `i`. -/
def setArg (i : Nat) (a : Option Skb) : TxDmaView := { v with arg := Function.update v.arg i a }

/-- Clear `nbufs` of slot `i` without unmapping. -/
def clear (i : Nat) : TxDmaView := { v with mapped := Function.update v.mapped i [] }

theorem ext' {v w : TxDmaView} (ha : ∀ i, v.arg i = w.arg i) (hm : ∀ i, v.mapped i = w.mapped i)
    (hd : v.dma = w.dma) : v = w := by
  cases v; cases w
  simp only [mk.injEq]
  exact ⟨funext ha, funext hm, hd⟩

theorem clear_of_nil {i : Nat} (h : v.mapped i = []) : v.clear i = v := by
  unfold clear
  rw [← h, Function.update_eq_self]

end TxDmaView

/-! ## The invariant -/

/-- The DMA bookkeeping of a ring of `n` slots: a slot without a callback argument owns no
mapping, each address is live as often as the slots own it, and nothing was unmapped that was not
mapped. -/
structure TxDmaInv (n : Nat) (v : TxDmaView) : Prop where
  unheld : ∀ i, v.arg i = none → v.mapped i = []
  live : ∀ a, v.dma.live.count a = ∑ i ∈ Finset.range n, (v.mapped i).count a
  bad : v.dma.bad = []

namespace TxDmaInv

variable {n i : Nat} {v : TxDmaView}

/-- What a slot below `n` owns is live. -/
theorem owned_le (h : TxDmaInv n v) (hi : i < n) (a : Nat) : (v.mapped i).count a ≤ v.dma.live.count a := by
  rw [h.live a]
  exact Finset.single_le_sum (f := fun j => (v.mapped j).count a) (fun _ _ => Nat.zero_le _)
    (Finset.mem_range.mpr hi)

/-- Mapping `L` for a free slot `i < n` and posting it with an skb. -/
theorem mapPost (h : TxDmaInv n v) (hi : i < n) (h0 : v.mapped i = []) (L : List Nat) (skb : Skb) :
    TxDmaInv n ((v.mapAt i L).setArg i (some skb)) := by
  refine ⟨fun j hj => ?_, fun a => ?_, (Dma.count_foldl_map L v.dma 0).2.trans h.bad⟩
  · simp only [TxDmaView.setArg, TxDmaView.mapAt] at hj ⊢
    by_cases hji : j = i
    · subst hji; simp at hj
    · rw [Function.update_noteq hji] at hj ⊢; exact h.unheld j hj
  · have hs := sum_update_arg (fun l : List Nat => l.count a) v.mapped hi L
    simp only [h0, List.count_nil, add_zero] at hs
    simp only [TxDmaView.setArg, TxDmaView.mapAt, (Dma.count_foldl_map L v.dma a).1, h.live a, hs]

/-- Unmapping what slot `i < n` owns. -/
theorem unmapAt (h : TxDmaInv n v) (hi : i < n) : TxDmaInv n (v.unmapAt i) := by
  obtain ⟨hl, hb⟩ := Dma.count_foldl_unmap (v.mapped i) v.dma (h.owned_le hi)
  refine ⟨fun j hj => ?_, fun a => ?_, hb.trans h.bad⟩
  · simp only [TxDmaView.unmapAt] at hj ⊢
    by_cases hji : j = i
    · subst hji; simp
    · rw [Function.update_noteq hji]; exact h.unheld j hj
  · have hs := sum_update_arg (fun l : List Nat => l.count a) v.mapped hi []
    simp only [List.count_nil, add_zero] at hs
    simp only [TxDmaView.unmapAt, hl a, h.live a]
    omega

/-- A slot owning nothing may lose its callback argument. -/
theorem setArg_none (h : TxDmaInv n v) (h0 : v.mapped i = []) : TxDmaInv n (v.setArg i none) := by
  refine ⟨fun j hj => ?_, h.live, h.bad⟩
  by_cases hji : j = i
  · subst hji; exact h0
  · simp only [TxDmaView.setArg, Function.update_noteq hji] at hj; exact h.unheld j hj

/-- Mapping `L` for a free slot `i < n` and unmapping it again before it is posted. -/
theorem mapUnmap (h : TxDmaInv n v) (h0 : v.mapped i = []) (L : List Nat) :
    TxDmaInv n ((v.mapAt i L).unmapAt i) := by
  have hm : ((v.mapAt i L).unmapAt i).mapped = v.mapped := by
    simp only [TxDmaView.unmapAt, TxDmaView.mapAt, Function.update_idem, ← h0, Function.update_eq_self]
  have hmap := Dma.count_foldl_map L v.dma
  obtain ⟨hl, hb⟩ := Dma.count_foldl_unmap L (L.foldl Dma.map v.dma) fun a => by rw [(hmap a).1]; omega
  refine ⟨fun j hj => ?_, fun a => ?_, ?_⟩
  · rw [hm]; exact h.unheld j hj
  · rw [hm, ← h.live a]
    simp only [TxDmaView.unmapAt, TxDmaView.mapAt, Function.update_same, hl a, (hmap a).1]
    omega
  · simp only [TxDmaView.unmapAt, TxDmaView.mapAt, Function.update_same, hb, (hmap 0).2, h.bad]

end TxDmaInv

/-! ## Each function as steps of the view -/

/-- The addresses `ionic_tx_map_skb` maps for `skb` when every mapping succeeds: the head's, then
each fragment's. -/
def txMapAddrs (env : TxEnv) (skb : Skb) : List Nat := env.mapHead :: (List.range skb.nrFrags).map env.mapFrag

namespace TxState

variable (s : TxState)

@[simp] theorem dmaView_arg (j : Nat) : s.dmaView.arg j = (s.q.info j).cbArg := rfl
@[simp] theorem dmaView_mapped (j : Nat) : s.dmaView.mapped j = (s.q.info j).mapped := rfl
@[simp] theorem dmaView_dma : s.dmaView.dma = s.dma := rfl

@[simp] theorem dmaView_withStats (st : TxStats) : ({ s with stats := st } : TxState).dmaView = s.dmaView := rfl
@[simp] theorem dmaView_release (skb : Skb) : (s.release skb).dmaView = s.dmaView := rfl
@[simp] theorem dmaView_setStopped (i : Nat) (b : Bool) : (s.setStopped i b).dmaView = s.dmaView := rfl
@[simp] theorem dmaView_withTail (t : Nat) : ({ s with q := { s.q with tailIdx := t } } : TxState).dmaView = s.dmaView :=
  rfl

@[simp] theorem bqlSent_q (c : TxqCfg) (len : Nat) : (s.bqlSent c len).q = s.q := by
  unfold bqlSent; split <;> rfl

@[simp] theorem dmaView_bqlSent (c : TxqCfg) (len : Nat) : (s.bqlSent c len).dmaView = s.dmaView := by
  unfold bqlSent; split <;> rfl

@[simp] theorem dmaView_bqlCompleted (c : TxqCfg) (p b : Nat) : (s.bqlCompleted c p b).dmaView = s.dmaView := by
  unfold bqlCompleted; split_ifs <;> rfl

/-- Writing slot `i` with its callback argument and its mappings kept. -/
theorem dmaView_setInfo {i : Nat} {d : TxDescInfo} (ha : d.cbArg = (s.q.info i).cbArg)
    (hm : d.mapped = (s.q.info i).mapped) : (s.setInfo i d).dmaView = s.dmaView :=
  TxDmaView.ext' (fun j => by by_cases hj : j = i <;> simp [hj, ha]) (fun j => by by_cases hj : j = i <;> simp [hj, hm])
    rfl

/-- Setting the callback argument of slot `i`. -/
theorem dmaView_setInfo_cbArg {i : Nat} {d : TxDescInfo} (hm : d.mapped = (s.q.info i).mapped) (a : Option Skb) :
    (s.setInfo i { d with cbArg := a }).dmaView = s.dmaView.setArg i a :=
  TxDmaView.ext' (fun j => by by_cases hj : j = i <;> simp [hj, TxDmaView.setArg])
    (fun j => by by_cases hj : j = i <;> simp [hj, hm, TxDmaView.setArg]) rfl

/-- `nbufs = 0` on slot `i`. -/
theorem dmaView_clearNbufs {i : Nat} {d : TxDescInfo} (ha : d.cbArg = (s.q.info i).cbArg) :
    (s.setInfo i { d with nbufs := 0 }).dmaView = s.dmaView.clear i :=
  TxDmaView.ext' (fun j => by by_cases hj : j = i <;> simp [hj, ha, TxDmaView.clear])
    (fun j => by by_cases hj : j = i <;> simp [hj, TxDmaView.clear, TxDescInfo.mapped]) rfl

theorem dmaView_post (c : TxqCfg) (rd : Bool) (a : Option Skb) :
    (s.post c rd a).dmaView = s.dmaView.setArg s.q.headIdx a :=
  TxDmaView.ext' (fun j => by by_cases hj : j = s.q.headIdx <;> simp [hj, post, TxDmaView.setArg, ionicQPost_info])
    (fun j => by by_cases hj : j = s.q.headIdx <;> simp [hj, post, TxDmaView.setArg, ionicQPost_info]) rfl

@[simp] theorem setInfo_headIdx (i : Nat) (d : TxDescInfo) : (s.setInfo i d).q.headIdx = s.q.headIdx := rfl

@[simp] theorem post_headIdx (c : TxqCfg) (rd : Bool) (a : Option Skb) :
    (s.post c rd a).q.headIdx = c.ring.next s.q.headIdx := rfl

end TxState

/-- When every fragment maps, the loop of `ionic_tx_map_skb` maps fragment `j` into
`bufs[1 + k + j]`, in order. -/
theorem ionicTxMapFrags_ok {env : TxEnv} (hf : ∀ k, dmaMappingError (env.mapFrag k) = false) :
    ∀ (frags : List Nat) (k : Nat) (d : TxDescInfo) (st : TxStats) (dma : Dma),
      (ionicTxMapFrags env k frags d st dma).2.2.2 =
        ((List.range frags.length).map fun j => env.mapFrag (k + j)).foldl Dma.map dma ∧
      ∀ j < frags.length, ((ionicTxMapFrags env k frags d st dma).2.1.bufs (1 + k + j)).dmaAddr = env.mapFrag (k + j)
  | [], _, _, _, _ => ⟨rfl, fun _ hj => absurd hj (Nat.not_lt_zero _)⟩
  | size :: rest, k, d, st, dma => by
    have he : ionicTxMapFrags env k (size :: rest) d st dma =
        ionicTxMapFrags env (k + 1) rest (d.setBuf (1 + k) ⟨env.mapFrag k, size⟩) st (dma.map (env.mapFrag k)) := by
      simp [ionicTxMapFrags, ionicTxMapFrag, hf k]
    obtain ⟨h2, h3⟩ := ionicTxMapFrags_ok hf rest (k + 1) (d.setBuf (1 + k) ⟨env.mapFrag k, size⟩) st
      (dma.map (env.mapFrag k))
    obtain ⟨bufs, hd, hkeep, -⟩ := ionicTxMapFrags_bufs env (k + 1) rest (d.setBuf (1 + k) ⟨env.mapFrag k, size⟩) st
      (dma.map (env.mapFrag k))
    rw [he]
    refine ⟨?_, fun j hj => ?_⟩
    · rw [h2, List.length_cons, List.range_succ_eq_map, List.map_cons, List.map_map, List.foldl_cons, Nat.add_zero]
      congr 2
      funext j
      simp only [Function.comp, Nat.succ_eq_add_one, Nat.add_assoc, Nat.add_comm 1 j]
    · cases j with
      | zero => rw [hd]; simp [hkeep (1 + k) (by omega)]
      | succ j =>
        have := h3 j (by simp only [List.length_cons] at hj; omega)
        rw [show 1 + k + (j + 1) = 1 + (k + 1) + j by omega, this]
        congr 1; omega

/-- When every mapping succeeds, `ionic_tx_map_skb` into slot `i` maps the head and then the
fragments, for slot `i`. -/
theorem ionicTxMapSkb_dmaView {env : TxEnv} (hm : env.MapsOk) (skb : Skb) (i : Nat) (s : TxState) :
    (ionicTxMapSkb env skb i s).2.dmaView = s.dmaView.mapAt i (txMapAddrs env skb) ∧
      (ionicTxMapSkb env skb i s).2.q.headIdx = s.q.headIdx := by
  have hs : ionicTxMapSingle env s.stats s.dma = (env.mapHead, s.stats, s.dma.map env.mapHead) := by
    simp [ionicTxMapSingle, hm.1]
  have h1 := ionicTxMapFrags_none hm.2 skb.frags 0 ((s.q.info i).setBuf 0 ⟨env.mapHead, skb.headlen⟩)
    s.stats (s.dma.map env.mapHead)
  obtain ⟨h2, h3⟩ := ionicTxMapFrags_ok hm.2 skb.frags 0 ((s.q.info i).setBuf 0 ⟨env.mapHead, skb.headlen⟩)
    s.stats (s.dma.map env.mapHead)
  obtain ⟨bufs, hd, hkeep, -⟩ := ionicTxMapFrags_bufs env 0 skb.frags
    ((s.q.info i).setBuf 0 ⟨env.mapHead, skb.headlen⟩) s.stats (s.dma.map env.mapHead)
  unfold ionicTxMapSkb
  rw [hs]
  dsimp only
  rw [if_neg (by simp [hm.1])]
  rcases hf : ionicTxMapFrags env 0 skb.frags ((s.q.info i).setBuf 0 ⟨env.mapHead, skb.headlen⟩) s.stats
    (s.dma.map env.mapHead) with ⟨_ | k, d, st, dma⟩
  · rw [hf] at h2 h3 hd
    simp only at h2 h3 hd
    refine ⟨?_, rfl⟩
    -- slot `i` owns the head and then each fragment
    have hmapped : ({ d with nbufs := 1 + skb.nrFrags } : TxDescInfo).mapped = txMapAddrs env skb := by
      rw [TxDescInfo.mapped, Nat.add_comm, List.range_succ_eq_map, List.map_cons, List.map_map, txMapAddrs]
      simp only [hd, hkeep 0 (by omega), TxDescInfo.setBuf_bufs_self, List.cons.injEq, true_and]
      refine List.map_congr_left fun j hj => ?_
      simpa [hd, Nat.add_comm] using h3 j (List.mem_range.mp hj)
    refine TxDmaView.ext' (fun j => ?_) (fun j => ?_) ?_
    · by_cases hj : j = i
      · subst hj; simp [hd, TxDescInfo.setBuf, TxDmaView.mapAt]
      · simp [hj, TxDmaView.mapAt]
    · by_cases hj : j = i
      · subst hj; simpa [TxDmaView.mapAt] using hmapped
      · simp [hj, TxDmaView.mapAt]
    · simp only [TxDmaView.mapAt, TxState.dmaView_dma, h2, txMapAddrs, List.foldl_cons, Nat.zero_add]
      rfl
  · rw [hf] at h1; cases h1

/-- `ionic_tx_desc_unmap_bufs` unmaps what the slot owns. -/
theorem ionicTxDescUnmapBufs_dmaView (i : Nat) (s : TxState) :
    (ionicTxDescUnmapBufs i s).dmaView = s.dmaView.unmapAt i := by
  unfold ionicTxDescUnmapBufs
  dsimp only
  split_ifs with h0
  · have hm : (s.q.info i).mapped = [] := TxDescInfo.mapped_of_nbufs h0
    refine TxDmaView.ext' (fun _ => rfl) (fun j => ?_) (by simp [TxDmaView.unmapAt, hm])
    by_cases hj : j = i
    · subst hj; simp [TxDmaView.unmapAt, hm]
    · simp [TxDmaView.unmapAt, hj]
  · refine TxDmaView.ext' (fun j => ?_) (fun j => ?_) rfl <;> by_cases hj : j = i
    · subst hj; simp [TxDmaView.unmapAt]
    · simp [TxDmaView.unmapAt, hj]
    · subst hj; simp [TxDmaView.unmapAt, TxDescInfo.mapped]
    · simp [TxDmaView.unmapAt, hj]

/-- `ionic_tx` maps the skb for the slot at `head_idx` and posts the slot with it. -/
theorem ionicTx_dmaView {c : TxqCfg} {env : TxEnv} (hm : env.MapsOk) (skb : Skb) (s : TxState) :
    (ionicTx c env skb s).1 = 0 ∧
      (ionicTx c env skb s).2.dmaView = (s.dmaView.mapAt s.q.headIdx (txMapAddrs env skb)).setArg s.q.headIdx (some skb) := by
  obtain ⟨hv, hh⟩ := ionicTxMapSkb_dmaView hm skb s.q.headIdx s
  unfold ionicTx
  dsimp only
  rw [if_neg (by rw [ionicTxMapSkb_ok hm]; exact fun h => h rfl)]
  refine ⟨rfl, ?_⟩
  simp only [TxState.dmaView_post, TxState.dmaView_bqlSent, TxState.bqlSent_q, TxState.dmaView_withStats,
    TxState.dmaView_setInfo, TxDescInfo.mapped_desc, TxState.setInfo_headIdx, hv, hh]

/-- `ionic_tx_tso_post` posts the slot at `head_idx`, with the skb when it starts the packet, and
clears `nbufs` of the slot after. -/
theorem ionicTxTsoPost_dmaView (c : TxqCfg) (skb : Skb) (s : TxState) (g : TsoSeg) :
    (ionicTxTsoPost c skb s g).dmaView =
      (s.dmaView.setArg s.q.headIdx (if g.start then some skb else none)).clear (c.ring.next s.q.headIdx) := by
  unfold ionicTxTsoPost
  dsimp only
  split <;> simp only [TxState.dmaView_clearNbufs, TxState.dmaView_post, TxState.dmaView_bqlSent, TxState.bqlSent_q,
    TxState.post_headIdx, TxState.dmaView_setInfo, TxDescInfo.mapped_desc, TxState.setInfo_headIdx, if_true,
    if_false, *]

/-- `ionic_tx_clean` unmaps what the slot owns. -/
theorem ionicTxClean_dmaView (c : TxqCfg) (i : Nat) (arg : Option Skb) (s : TxState) :
    (ionicTxClean c i arg s).dmaView = s.dmaView.unmapAt i := by
  unfold ionicTxClean
  split
  · exact ionicTxDescUnmapBufs_dmaView i s
  · dsimp only
    split_ifs <;> simp only [TxState.dmaView_release, TxState.dmaView_withStats, TxState.dmaView_setInfo,
      TxDescInfo.mapped_bytes, TxState.dmaView_setStopped, ionicTxDescUnmapBufs_dmaView]

/-- One pass of the completion loops unmaps the tail slot and takes its callback argument. -/
theorem ionicTxCleanTail_dmaView (c : TxqCfg) (p b : Nat) (s : TxState) :
    (ionicTxCleanTail c p b s).2.2.dmaView = (s.dmaView.unmapAt s.q.tailIdx).setArg s.q.tailIdx none := by
  unfold ionicTxCleanTail
  dsimp only
  simp only [TxState.dmaView_setInfo_cbArg, ionicTxClean_dmaView, TxState.dmaView_withTail, TxState.dmaView_setInfo,
    TxDescInfo.mapped_bytes]

/-! ## Every function of the transmit core keeps the invariant -/

section Functions

variable {c : TxqCfg}

theorem TxDmaInv.init (c : TxqCfg) (index : Nat) : TxDmaInv c.ring.numDescs (TxState.init index).dmaView :=
  ⟨fun _ _ => rfl, fun a => by simp [TxState.init, TxDescInfo.mapped], rfl⟩

theorem ionicTxCleanTail_tailIdx (p b : Nat) (s : TxState) :
    (ionicTxCleanTail c p b s).2.2.q.tailIdx = c.ring.next s.q.tailIdx :=
  congrArg TxView.tail (ionicTxCleanTail_view c p b s).1

theorem TxDmaInv.cleanTail {p b : Nat} {s : TxState} (h : TxDmaInv c.ring.numDescs s.dmaView)
    (ht : s.q.tailIdx < c.ring.numDescs) : TxDmaInv c.ring.numDescs (ionicTxCleanTail c p b s).2.2.dmaView := by
  rw [ionicTxCleanTail_dmaView]
  exact (h.unmapAt ht).setArg_none (by simp [TxDmaView.unmapAt])

theorem ionicTxServiceLoop_dma {ci : Nat} :
    ∀ {fuel p b p' b' : Nat} {s s' : TxState}, TxDmaInv c.ring.numDescs s.dmaView → s.q.tailIdx < c.ring.numDescs →
      ionicTxServiceLoop c ci fuel p b s = some (p', b', s') → TxDmaInv c.ring.numDescs s'.dmaView
  | 0, _, _, _, _, _, _, _, _, h => by simp [ionicTxServiceLoop] at h
  | fuel + 1, p, b, p', b', s, s', hD, ht, h => by
    have ht₁ : (ionicTxCleanTail c p b s).2.2.q.tailIdx < c.ring.numDescs := by
      rw [ionicTxCleanTail_tailIdx]; exact c.ring.next_lt _
    unfold ionicTxServiceLoop at h
    dsimp only at h
    split_ifs at h
    · exact ionicTxServiceLoop_dma (hD.cleanTail ht) ht₁ h
    · cases h; exact hD.cleanTail ht

theorem ionicTxEmptyLoop_dma :
    ∀ {fuel p b p' b' : Nat} {s s' : TxState}, TxDmaInv c.ring.numDescs s.dmaView → s.q.tailIdx < c.ring.numDescs →
      ionicTxEmptyLoop c fuel p b s = some (p', b', s') → TxDmaInv c.ring.numDescs s'.dmaView
  | 0, _, _, _, _, _, _, _, _, h => by simp [ionicTxEmptyLoop] at h
  | fuel + 1, p, b, p', b', s, s', hD, ht, h => by
    unfold ionicTxEmptyLoop at h
    split_ifs at h
    · cases h; exact hD
    dsimp only at h
    exact ionicTxEmptyLoop_dma (hD.cleanTail ht) (by rw [ionicTxCleanTail_tailIdx]; exact c.ring.next_lt _) h

theorem ionicTxService_dma {cm w : Bool} {ci : Nat} {s s' : TxState} (hD : TxDmaInv c.ring.numDescs s.dmaView)
    (ht : s.q.tailIdx < c.ring.numDescs) (h : ionicTxService c cm ci s = some (w, s')) :
    TxDmaInv c.ring.numDescs s'.dmaView := by
  unfold ionicTxService at h
  split_ifs at h
  · cases h; exact hD
  · obtain ⟨⟨p, b, s₁⟩, hl, he⟩ := Option.map_eq_some'.mp h
    cases he
    rw [TxState.dmaView_bqlCompleted]
    exact ionicTxServiceLoop_dma hD ht hl

theorem ionicTxEmpty_dma {s s' : TxState} (hD : TxDmaInv c.ring.numDescs s.dmaView)
    (ht : s.q.tailIdx < c.ring.numDescs) (h : ionicTxEmpty c s = some s') : TxDmaInv c.ring.numDescs s'.dmaView := by
  obtain ⟨⟨p, b, s₁⟩, hl, he⟩ := Option.map_eq_some'.mp h
  cases he
  rw [TxState.dmaView_bqlCompleted]
  exact ionicTxEmptyLoop_dma hD ht hl

/-- One descriptor of `ionic_tx_tso_post` while the ring has room for it, when the invariant
holds once the slot at `head_idx` takes its callback argument: the slot after is free, so
clearing its `nbufs` drops no mapping. -/
theorem TxDmaInv.tsoPost (hc : c.hwstamp = false) {skb : Skb} (hlen : 0 < skb.len) {s : TxState} {g : TsoSeg}
    {p b : Nat} (hB : BqlInv c s.view p b) (hroom : c.ring.inflight s.q.headIdx s.q.tailIdx + 1 < c.ring.numDescs)
    (h : TxDmaInv c.ring.numDescs (s.dmaView.setArg s.q.headIdx (if g.start then some skb else none))) :
    TxDmaInv c.ring.numDescs (ionicTxTsoPost c skb s g).dmaView ∧ BqlInv c (ionicTxTsoPost c skb s g).view p b := by
  have hB' : BqlInv c (ionicTxTsoPost c skb s g).view p b := by
    rw [ionicTxTsoPost_view]
    unfold TxView.tsoPost
    split
    · exact hB.sent_post hc hroom false hlen
    · exact hB.post_none hroom g.done
  have harg : (s.view.tsoPost c skb g).arg =
      Function.update s.view.arg s.view.head (if g.start then some skb else none) := by
    unfold TxView.tsoPost; split <;> simp [*]
  have ha := hB'.arg_head
  rw [ionicTxTsoPost_view, (TxView.tsoPost_head (c := c) skb s.view g).1, harg] at ha
  have hfree : (s.dmaView.setArg s.q.headIdx (if g.start then some skb else none)).arg (c.ring.next s.q.headIdx) =
    none := ha
  refine ⟨?_, hB'⟩
  rw [ionicTxTsoPost_dmaView, TxDmaView.clear_of_nil _ (h.unheld _ hfree)]
  exact h

theorem ionicTxTsoPost_cursors (skb : Skb) (s : TxState) (g : TsoSeg) :
    (ionicTxTsoPost c skb s g).q.headIdx = c.ring.next s.q.headIdx ∧ (ionicTxTsoPost c skb s g).q.tailIdx = s.q.tailIdx := by
  have h := TxView.tsoPost_head (c := c) skb s.view g
  rw [← ionicTxTsoPost_view] at h
  exact h

/-- The descriptors after the first of one TSO packet, posted while the ring has room for all of
them. -/
theorem TxDmaInv.foldl_tsoPost (hc : c.hwstamp = false) {skb : Skb} (hlen : 0 < skb.len) :
    ∀ {segs : List TsoSeg} {s : TxState} {p b : Nat}, SegFlags false segs → BqlInv c s.view p b →
      c.ring.inflight s.q.headIdx s.q.tailIdx + segs.length < c.ring.numDescs →
      TxDmaInv c.ring.numDescs s.dmaView → TxDmaInv c.ring.numDescs (segs.foldl (ionicTxTsoPost c skb) s).dmaView
  | [], _, _, _, _, _, _, h => h
  | g :: gs, s, p, b, ⟨hst, _, hf⟩, hB, hroom, h => by
    have hroom₁ : c.ring.inflight s.q.headIdx s.q.tailIdx + 1 < c.ring.numDescs := by
      simp only [List.length_cons] at hroom; omega
    obtain ⟨hD, hB'⟩ := TxDmaInv.tsoPost (g := g) hc hlen hB hroom₁
      (by simpa [hst] using h.setArg_none (h.unheld s.q.headIdx hB.arg_head))
    obtain ⟨hh, ht⟩ := ionicTxTsoPost_cursors skb s g
    have hnext : c.ring.inflight (c.ring.next s.q.headIdx) s.q.tailIdx = c.ring.inflight s.q.headIdx s.q.tailIdx + 1 :=
      c.ring.inflight_next_head hB.head_lt hB.tail_lt hroom₁
    rw [List.foldl_cons]
    refine TxDmaInv.foldl_tsoPost hc hlen hf hB' ?_ hD
    rw [hh, ht, hnext]
    simp only [List.length_cons] at hroom
    omega

theorem Skb.Wf.linearize {skb : Skb} (h : skb.Wf) : skb.linearize.Wf :=
  ⟨by rw [Skb.linearize_len]; exact h.len_pos, fun hg => by rw [Skb.linearize_len]; exact h.gso hg⟩

/-- `ionic_tx` or `ionic_tx_tso` on a ring with room for the descriptors the skb asks for, when
every mapping succeeds: the skb's mappings go to the slot at `head_idx`, posted with it, or are
undone when `skb_cow_head` fails. -/
theorem TxDmaInv.send (hc : c.hwstamp = false) {env : TxEnv} (hm : env.MapsOk) {skb : Skb} (hwf : skb.Wf)
    {s s' : TxState} {r : Int} (hB : BqlInv c s.view 0 0) (h : TxDmaInv c.ring.numDescs s.dmaView)
    (hsp : ionicQHasSpace c.ring s.q (if skb.isGso then skb.gsoSegs else 1) = true)
    (hs : ionicTxSend c env skb s = some (r, s')) : TxDmaInv c.ring.numDescs s'.dmaView := by
  have h0 : s.dmaView.mapped s.q.headIdx = [] := h.unheld _ hB.arg_head
  unfold ionicTxSend at hs
  split_ifs at hs with hg
  · obtain ⟨hv, hh⟩ := ionicTxMapSkb_dmaView hm skb s.q.headIdx s
    have hmap := ionicTxMapSkb_ok hm skb s.q.headIdx s
    have hview := ionicTxMapSkb_view env skb s.q.headIdx s
    unfold ionicTxTso at hs
    dsimp only at hs
    rw [if_neg (by rw [hmap]; exact fun h => h rfl)] at hs
    split_ifs at hs
    · -- `skb_cow_head` failed: the mappings are undone
      cases hs
      rw [ionicTxDescUnmapBufs_dmaView, hv]
      exact h.mapUnmap h0 _
    obtain ⟨segs, hsegs, he⟩ := Option.map_eq_some'.mp hs
    cases he
    -- the descriptors cut the packet's bytes as `ionic_tx_descs_needed` counted them
    have hmss : 0 < skb.gsoSize := by simpa [Skb.isGso, Nat.pos_iff_ne_zero] using hg
    obtain ⟨hhdr, hgs⟩ := hwf.gso hg
    obtain ⟨segs', hl, hf, hb, -⟩ := ionicTxTsoSegments_cut ((List.range (1 + skb.nrFrags)).map
      ((ionicTxMapSkb env skb s.q.headIdx s).2.q.info s.q.headIdx).bufs) skb.hdrlen hmss
    rw [ionicTxMapSkb_bufBytes hmap] at hl hb
    obtain rfl : segs = segs' := (Option.some.inj (hl.symm.trans hsegs)).symm
    have hn : segs.length = skb.gsoSegs := by
      rw [← List.length_map segs TsoSeg.bytes, hb, if_neg (by omega), tsoSizes_length hmss hhdr, hgs]
    rw [ionicQHasSpace_iff] at hsp
    simp only [hg, if_true] at hsp
    rw [TxState.dmaView_withStats]
    cases segs with
    | nil => rw [if_neg (by omega)] at hb; exact absurd hb (by simp [tsoSizes])
    | cons g gs =>
      obtain ⟨hst, -, hf'⟩ := hf
      have hB₁ : BqlInv c (ionicTxMapSkb env skb s.q.headIdx s).2.view 0 0 := hview ▸ hB
      have hroom : c.ring.inflight (ionicTxMapSkb env skb s.q.headIdx s).2.q.headIdx
          (ionicTxMapSkb env skb s.q.headIdx s).2.q.tailIdx + (g :: gs).length < c.ring.numDescs := by
        rw [hh, show (ionicTxMapSkb env skb s.q.headIdx s).2.q.tailIdx = s.q.tailIdx from congrArg TxView.tail hview,
          hn]
        omega
      -- the first descriptor posts the slot holding the mappings, with the skb
      obtain ⟨hD, hB₂⟩ := TxDmaInv.tsoPost hc hwf.len_pos hB₁ (by simp only [List.length_cons] at hroom; omega)
        (by rw [hst, if_pos rfl, hv, hh]; exact h.mapPost hB.head_lt h0 _ skb)
      obtain ⟨hh₂, ht₂⟩ := ionicTxTsoPost_cursors skb (ionicTxMapSkb env skb s.q.headIdx s).2 g
      rw [List.foldl_cons]
      refine TxDmaInv.foldl_tsoPost hc hwf.len_pos hf' hB₂ ?_ hD
      simp only [List.length_cons] at hroom
      have hnext : c.ring.inflight (c.ring.next (ionicTxMapSkb env skb s.q.headIdx s).2.q.headIdx)
          (ionicTxMapSkb env skb s.q.headIdx s).2.q.tailIdx =
          c.ring.inflight (ionicTxMapSkb env skb s.q.headIdx s).2.q.headIdx (ionicTxMapSkb env skb s.q.headIdx s).2.q.tailIdx + 1 :=
        c.ring.inflight_next_head hB₁.head_lt hB₁.tail_lt (by omega)
      rw [hh₂, ht₂, hnext]
      omega
  · obtain ⟨rfl, rfl⟩ := Prod.ext_iff.mp (Option.some.inj hs).symm
    rw [(ionicTx_dmaView hm skb s).2]
    exact h.mapPost hB.head_lt h0 _ skb

/-- A send through `ionic_start_xmit` on a regular queue, when every mapping succeeds. -/
theorem TxDmaInv.startXmit (hc : c.hwstamp = false) {lif : Lif} {env : TxEnv} {skb : Skb} {s s' : TxState}
    {r : NetdevTx} {qi : Nat} (hm : env.MapsOk) (hwf : skb.Wf) (hB : BqlInv c s.view 0 0)
    (h : TxDmaInv c.ring.numDescs s.dmaView) (ht : ionicStartXmitTarget lif skb = .txq qi)
    (hx : ionicStartXmit lif c env skb s = some (s', r)) : TxDmaInv c.ring.numDescs s'.dmaView := by
  unfold ionicStartXmit at hx
  rw [ht] at hx
  dsimp only at hx
  split at hx
  · cases hx; exact h
  rename_i n skb₁ s₁ hd
  obtain ⟨rfl, hskb, -, st, rfl⟩ := ionicTxDescsNeeded_some hd
  obtain ⟨hfst, st₂, stp, hms⟩ := ionicMaybeStopTx_eq c (if skb.isGso then skb.gsoSegs else 1) { s with stats := st }
  by_cases hstop : (ionicMaybeStopTx c (if skb.isGso then skb.gsoSegs else 1) { s with stats := st }).1 = true
  · rw [if_pos hstop] at hx
    cases hx
    rw [hms]; exact h
  rw [if_neg hstop] at hx
  obtain ⟨⟨err, s₂⟩, hs, he⟩ := Option.map_eq_some'.mp hx
  have hwf₁ : skb₁.Wf := by rcases hskb with rfl | rfl; exacts [hwf, hwf.linearize]
  have hsk : skb₁.isGso = skb.isGso ∧ skb₁.gsoSegs = skb.gsoSegs := by rcases hskb with rfl | rfl <;> exact ⟨rfl, rfl⟩
  rw [hms] at hs
  have hD₂ := TxDmaInv.send (s := { s with stats := st₂, stopped := stp }) hc hm hwf₁ hB h
    (by rw [hsk.1, hsk.2]; simpa [hfst] using hstop) hs
  dsimp only at he
  split_ifs at he <;> cases he
  · exact hD₂
  · obtain ⟨-, st₃, stp₃, hm₃⟩ := ionicMaybeStopTx_eq c 4 s₂
    rw [hm₃]; exact hD₂

end Functions

/-! ## Along the runs -/

section Runs

variable {c : TxqCfg}

/-- The states a regular TX queue reaches along runs in which every DMA mapping succeeds: the runs
of `TxReach`, each send made with a kernel whose mappings all succeed. -/
inductive TxMapsReach (c : TxqCfg) : TxState → Prop
  | init (index : Nat) : TxMapsReach c (TxState.init index)
  | xmit {s s' : TxState} {lif : Lif} {env : TxEnv} {skb : Skb} {r : NetdevTx} :
      TxMapsReach c s → env.MapsOk → skb.Wf → ionicStartXmitTarget lif skb = .txq s.q.index →
      ionicStartXmit lif c env skb s = some (s', r) → TxMapsReach c s'
  | service {s s' : TxState} {colorMatch work : Bool} {compIndex : Nat} :
      TxMapsReach c s → compIndex < c.ring.numDescs →
      c.ring.InWindow s.q.headIdx s.q.tailIdx compIndex →
      ionicTxService c colorMatch compIndex s = some (work, s') → TxMapsReach c s'
  | empty {s s' : TxState} : TxMapsReach c s → ionicTxEmpty c s = some s' → TxMapsReach c s'

theorem TxMapsReach.reach {s : TxState} (h : TxMapsReach c s) : TxReach c s := by
  induction h with
  | init index => exact .init index
  | xmit _ _ hwf ht hx ih => exact .xmit ih hwf ht hx
  | service _ hci hw hs ih => exact .service ih hci hw hs
  | empty _ hs ih => exact .empty ih hs

theorem TxMapsReach.dmaInv (hc : c.hwstamp = false) {s : TxState} (h : TxMapsReach c s) :
    TxDmaInv c.ring.numDescs s.dmaView := by
  induction h with
  | init index => exact TxDmaInv.init c index
  | xmit hr hm hwf ht hx ih => exact ih.startXmit hc hm hwf (hr.reach.bqlInv hc) ht hx
  | service hr _ _ hs ih => exact ionicTxService_dma ih (hr.reach.bqlInv hc).tail_lt hs
  | empty hr hs ih => exact ionicTxEmpty_dma ih (hr.reach.bqlInv hc).tail_lt hs

end Runs

/-- No DMA mapping of the transmit ring leaks or is unmapped twice, along runs in which every
mapping succeeds: in every state a regular TX queue that does not timestamp reaches, nothing was
unmapped that was not mapped, each address is live exactly as often as the slots own it in
`bufs[0 .. nbufs)`, a slot without a callback argument owns no mapping, and `ionic_tx_empty`
returns with no mapping left. -/
theorem txMapsReach_dma_balanced {c : TxqCfg} (hc : c.hwstamp = false) {s : TxState} (h : TxMapsReach c s) :
    s.dma.bad = [] ∧
      (∀ a, s.dma.live.count a = ∑ i ∈ Finset.range c.ring.numDescs, ((s.q.info i).mapped).count a) ∧
      (∀ i, (s.q.info i).cbArg = none → (s.q.info i).nbufs = 0) ∧
      ∃ s', ionicTxEmpty c s = some s' ∧ s'.dma.live = [] ∧ s'.dma.bad = [] := by
  have hD := h.dmaInv hc
  have hB := h.reach.bqlInv hc
  obtain ⟨p, b, s₁, hl, ht, hh, -⟩ := @ionicTxEmptyLoop_drains c (c.ring.numDescs + 1) 0 0 s hB.head_lt hB.tail_lt
    (Nat.lt_succ_of_lt (c.ring.inflight_lt _ _))
  have he : ionicTxEmpty c s = some (s₁.bqlCompleted c p b) := by rw [ionicTxEmpty, hl]; rfl
  have hE := ionicTxEmpty_dma hD hB.tail_lt he
  -- after the teardown the window is empty: no slot holds an skb, so none owns a mapping
  have hEB := (TxReach.empty h.reach he).bqlInv hc
  have hte : (s₁.bqlCompleted c p b).view.tail = (s₁.bqlCompleted c p b).view.head := by
    show (s₁.bqlCompleted c p b).q.tailIdx = (s₁.bqlCompleted c p b).q.headIdx
    rw [TxState.bqlCompleted_q, ht, hh]
  have hnone : ∀ i, ((s₁.bqlCompleted c p b).q.info i).cbArg = none := fun i =>
    hEB.idle i (.inr (hte ▸ c.ring.not_inWindow_of_eq))
  refine ⟨hD.bad, hD.live, fun i hi => ?_, _, he, List.eq_nil_iff_forall_not_mem.mpr fun a ha => ?_, hE.bad⟩
  · simpa [TxDescInfo.mapped] using hD.unheld i hi
  · have hz := hE.live a
    rw [Finset.sum_eq_zero fun i _ => by rw [hE.unheld i (hnone i)]; rfl] at hz
    exact absurd hz (List.count_pos_iff.mpr ha).ne'

/-- A TSO packet of four segments sent on a queue of eight slots, every mapping succeeding. -/
theorem txMapsReach_dma_balanced_tso :
    let c : TxqCfg := ⟨⟨8, 3, rfl⟩, 8, false⟩
    let s : TxState := ((ionicStartXmit ⟨true, false, 1⟩ c ⟨4096, fun _ => 8192, true, true, false⟩
      ⟨1, 100, [3000], 1000, 4, 54, 0, true, false⟩ (TxState.init 0)).map Prod.fst).getD (TxState.init 0)
    c.hwstamp = false ∧ s.dma.bad = [] ∧
      (∀ a, s.dma.live.count a = ∑ i ∈ Finset.range c.ring.numDescs, ((s.q.info i).mapped).count a) ∧
      (∀ i, (s.q.info i).cbArg = none → (s.q.info i).nbufs = 0) ∧
      ∃ s', ionicTxEmpty c s = some s' ∧ s'.dma.live = [] ∧ s'.dma.bad = [] :=
  ⟨rfl, txMapsReach_dma_balanced rfl (@TxMapsReach.xmit ⟨⟨8, 3, rfl⟩, 8, false⟩ _ _ ⟨true, false, 1⟩
    ⟨4096, fun _ => 8192, true, true, false⟩ ⟨1, 100, [3000], 1000, 4, 54, 0, true, false⟩ .ok (.init 0)
    ⟨rfl, fun _ => rfl⟩ ⟨by decide, fun _ => by decide⟩ rfl rfl)⟩

end IonicTxrx
