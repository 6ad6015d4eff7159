import IonicTxrx.Rx.Reach

/-!
# The DMA mappings of the receive ring

`ionic_rx_page_alloc` maps a whole page for a buffer, and the mapping lives as long as the buffer
holds the page: `ionic_rx_frags` unmaps it when `ionic_rx_buf_recycle` gives the page up, and
`ionic_rx_page_free`, called from `ionic_rx_empty`, when the queue is torn down. A mapping that
failed is not recorded, and a recycled page keeps its mapping. `DmaInv` says that only the
buffers `bufs[0 .. IONIC_RX_MAX_SG_ELEMS]` of the slots of the ring hold pages, that the mappings
alive at each address are those of the buffers holding a page mapped there, counted with
multiplicity, and that no unmap ever missed. Every function of the receive path keeps it when the
queue's `max_sg_elems` fits the `bufs[]` array; so along every run nothing is unmapped twice, and
after a teardown no buffer holds a page and nothing stays mapped (`rxReach_dma_unmapped`).
-/

namespace IonicTxrx

/-- A count over the buffers `bufs[0 .. K]` of the slots below `N`, `f` giving each buffer's part. -/
def bufSum (N K : Nat) (f : RxBufInfo → Nat) (B : Nat → Nat → RxBufInfo) : Nat :=
  ∑ i ∈ Finset.range N, ∑ k ∈ Finset.range (K + 1), f (B i k)

/-- Replacing buffer `k ≤ K` of slot `i < N` changes the count by the difference. -/
theorem bufSum_update {N K i k : Nat} (hi : i < N) (hk : k ≤ K) (f : RxBufInfo → Nat) (B : Nat → Nat → RxBufInfo)
    (bi : RxBufInfo) : bufSum N K f (updateBuf B i k bi) + f (B i k) = bufSum N K f B + f bi := by
  have hrow := sum_update_arg f (B i) (show k < K + 1 by omega) bi
  have hsum := sum_update_arg (fun row => ∑ k ∈ Finset.range (K + 1), f (row k)) B hi (Function.update (B i) k bi)
  simp only at hsum
  unfold bufSum updateBuf
  omega

theorem bufSum_eq_zero {N K : Nat} {f : RxBufInfo → Nat} {B : Nat → Nat → RxBufInfo} (h : ∀ i k, f (B i k) = 0) :
    bufSum N K f B = 0 :=
  Finset.sum_eq_zero fun i _ => Finset.sum_eq_zero fun k _ => h i k

/-- The mapping at `a` that buffer `bi` holds: one when it holds a page mapped at `a`. -/
def bufMapped (a : Nat) (bi : RxBufInfo) : Nat := if bi.page.isSome ∧ bi.dmaAddr = a then 1 else 0

/-- The mappings at `a` held by the buffers `bufs[0 .. K]` of the slots below `N`. -/
def mappedCount (N K : Nat) (B : Nat → Nat → RxBufInfo) (a : Nat) : Nat :=
  ∑ i ∈ Finset.range N, ∑ k ∈ Finset.range (K + 1), bufMapped a (B i k)

theorem bufMapped_of_none {a : Nat} {bi : RxBufInfo} (h : bi.page = none) : bufMapped a bi = 0 := by
  simp [bufMapped, h]

theorem mappedCount_update {N K i k : Nat} (hi : i < N) (hk : k ≤ K) (B : Nat → Nat → RxBufInfo)
    (bi : RxBufInfo) (a : Nat) :
    mappedCount N K (updateBuf B i k bi) a + bufMapped a (B i k) = mappedCount N K B a + bufMapped a bi :=
  bufSum_update hi hk (bufMapped a) B bi

theorem mappedCount_of_none {N K : Nat} {B : Nat → Nat → RxBufInfo} (h : ∀ i k, (B i k).page = none) (a : Nat) :
    mappedCount N K B a = 0 :=
  bufSum_eq_zero fun i k => bufMapped_of_none (h i k)

/-- The DMA bookkeeping of the receive ring, for slots below `N` with buffers `bufs[0 .. K]`: only
those buffers hold pages, the mappings alive at each address are those of the buffers holding a
page mapped there, and no unmap ever missed. -/
structure DmaInv (N K : Nat) (B : Nat → Nat → RxBufInfo) (dma : Dma) : Prop where
  inside : ∀ i k, (B i k).page.isSome → i < N ∧ k ≤ K
  live : ∀ a, dma.live.count a = mappedCount N K B a
  bad : dma.bad = []

namespace DmaInv

variable {N K : Nat} {B : Nat → Nat → RxBufInfo} {dma : Dma}

theorem init (N K : Nat) : DmaInv N K (slotBufs fun _ => RxDescInfo.empty) {} :=
  ⟨fun _ _ h => absurd h Bool.false_ne_true, fun a => (mappedCount_of_none (fun _ _ => rfl) a).symm, rfl⟩

/-- Replacing buffer `k ≤ K` of slot `i < N` while the mappings alive change as the buffer's own. -/
theorem update (h : DmaInv N K B dma) {i k : Nat} (hi : i < N) (hk : k ≤ K) {bi : RxBufInfo} {dma' : Dma}
    (hl : ∀ a, dma'.live.count a + bufMapped a (B i k) = dma.live.count a + bufMapped a bi)
    (hb : dma'.bad = dma.bad) : DmaInv N K (updateBuf B i k bi) dma' := by
  refine ⟨fun i' k' hp => ?_, fun a => ?_, hb.trans h.bad⟩
  · rw [updateBuf_apply] at hp
    split at hp
    · rename_i he
      exact ⟨he.1 ▸ hi, he.2 ▸ hk⟩
    · exact h.inside i' k' hp
  · have h₁ := mappedCount_update hi hk B bi a
    have h₂ := hl a
    have h₃ := h.live a
    omega

/-- A buffer that keeps its page and its mapping, or stays without a page. -/
theorem keep (h : DmaInv N K B dma) {i k : Nat} (hi : i < N) (hk : k ≤ K) {bi : RxBufInfo}
    (hm : ∀ a, bufMapped a bi = bufMapped a (B i k)) : DmaInv N K (updateBuf B i k bi) dma :=
  h.update hi hk (fun a => by rw [hm]) rfl

/-- A buffer without a page takes one, freshly mapped. -/
theorem map (h : DmaInv N K B dma) {i k : Nat} (hi : i < N) (hk : k ≤ K) (h0 : (B i k).page = none)
    {bi : RxBufInfo} (hp : bi.page.isSome) : DmaInv N K (updateBuf B i k bi) (dma.map bi.dmaAddr) :=
  h.update hi hk (fun a => by rw [bufMapped_of_none h0]; simp [Dma.map, List.count_cons, bufMapped, hp]) rfl

/-- A buffer holding a page gives it up, and the mapping it held is undone: it was alive, so the
unmap does not miss. -/
theorem unmap (h : DmaInv N K B dma) {i k : Nat} (hp : (B i k).page.isSome) (bi : RxBufInfo)
    (h0 : bi.page = none) : DmaInv N K (updateBuf B i k bi) (dma.unmap (B i k).dmaAddr) := by
  obtain ⟨hi, hk⟩ := h.inside i k hp
  have hpos : 0 < dma.live.count (B i k).dmaAddr := by
    have hc := mappedCount_update hi hk B RxBufInfo.empty (B i k).dmaAddr
    rw [bufMapped_of_none (show RxBufInfo.empty.page = none from rfl), bufMapped, if_pos ⟨hp, rfl⟩] at hc
    rw [h.live]
    omega
  have hmem : (B i k).dmaAddr ∈ dma.live := List.count_pos_iff.mp hpos
  refine h.update hi hk (fun a => ?_) (by simp [Dma.unmap, hmem])
  rw [bufMapped_of_none h0]
  simp only [Dma.unmap, if_pos hmem, List.count_erase, bufMapped, hp, true_and, beq_iff_eq]
  split_ifs with he
  · subst he
    omega
  · omega

end DmaInv

/-! ## The kernel calls -/

section Calls

variable {b : RxBuild} {env : RxEnv}

/-- `ionic_rx_page_alloc` records a mapping exactly when it gives the buffer a page. -/
theorem ionicRxPageAlloc_dma {bi : RxBufInfo} {s : RxState} {r : Int} {bi' : RxBufInfo} {s' : RxState}
    (h : ionicRxPageAlloc b env bi s = (r, bi', s')) :
    (r = 0 ∧ bi'.page.isSome ∧ s'.dma = s.dma.map bi'.dmaAddr) ∨ (bi'.page = bi.page ∧ s'.dma = s.dma) := by
  unfold ionicRxPageAlloc at h
  dsimp only at h
  split_ifs at h <;> simp only [Prod.mk.injEq] at h <;> obtain ⟨rfl, rfl, rfl⟩ := h <;>
    first | exact .inr ⟨rfl, rfl⟩ | exact .inl ⟨rfl, rfl, rfl⟩

theorem ionicRxTakeBias_dma (ns : Nat) (bi : RxBufInfo) (s : RxState) : (ionicRxTakeBias b ns bi s).2.dma = s.dma := by
  unfold ionicRxTakeBias
  dsimp only
  split_ifs <;> (try cases bi.page) <;> rfl

theorem ionicRxBufRecycle_dma {mtu : Nat} {reusable : Bool} {p : Nat} {bi : RxBufInfo} {used : Nat} {s : RxState} :
    (ionicRxBufRecycle b mtu reusable p bi used s).2.2.dma = s.dma := by
  unfold ionicRxBufRecycle
  dsimp only
  split_ifs <;> rfl

/-- `ionic_rx_page_free` undoes the mapping of a buffer holding a page, and leaves one without a page
alone. -/
theorem ionicRxPageFree_dma {bi : RxBufInfo} {s : RxState} {bi' : RxBufInfo} {s' : RxState}
    (h : ionicRxPageFree b bi s = (bi', s')) :
    (bi' = bi ∧ s'.dma = s.dma) ∨ (bi.page.isSome ∧ bi'.page = none ∧ s'.dma = s.dma.unmap bi.dmaAddr) := by
  unfold ionicRxPageFree at h
  split at h
  · cases h
    exact .inl ⟨rfl, rfl⟩
  · rename_i p hp
    simp only [Prod.mk.injEq] at h
    obtain ⟨rfl, rfl⟩ := h
    refine .inr ⟨by rw [hp]; rfl, rfl, ?_⟩
    split <;> rfl

theorem RxState.putFrags_dma (s : RxState) (fs : List RxFrag) : (s.putFrags fs).dma = s.dma := by
  induction fs generalizing s with
  | nil => rfl
  | cons f fs ih => exact ih (s.putPage f.page)

theorem ionicRxCopybreak_dma (d : RxDescInfo) (comp : RxComp) (s : RxState) :
    (ionicRxCopybreak env d comp s).2.dma = s.dma := by
  unfold ionicRxCopybreak
  split <;> rfl

end Calls

/-! ## The fill -/

section Fill

variable {b : RxBuild} {env : RxEnv} {ns N K : Nat} {B : Nat → Nat → RxBufInfo}

/-- The buffer step of the fill, on buffer `k ≤ K` of slot `i < N`. -/
theorem DmaInv.fillBuf {s : RxState} (h : DmaInv N K B s.dma) {i k : Nat} (hi : i < N) (hk : k ≤ K) {ok : Bool}
    {bi' : RxBufInfo} {s' : RxState} (hf : ionicRxFillBuf b env ns (B i k) s = (ok, bi', s')) :
    DmaInv N K (updateBuf B i k bi') s'.dma := by
  cases hp : (B i k).page with
  | some p =>
    rw [ionicRxFillBuf_of_page hp, Prod.mk.injEq, Prod.mk.injEq] at hf
    obtain ⟨-, rfl, rfl⟩ := hf
    rwa [updateBuf_self]
  | none =>
    unfold ionicRxFillBuf at hf
    rw [hp] at hf
    rcases ha : ionicRxPageAlloc b env (B i k) s with ⟨r, bi₁, s₁⟩
    rw [ha] at hf
    dsimp only at hf
    -- after the allocation the buffer has a freshly mapped page, or still none
    have h₁ : (bi₁.page.isSome ∧ s₁.dma = s.dma.map bi₁.dmaAddr) ∨ (bi₁.page = none ∧ s₁.dma = s.dma) := by
      rcases ionicRxPageAlloc_dma ha with ⟨-, h₁, h₂⟩ | ⟨h₁, h₂⟩
      · exact .inl ⟨h₁, h₂⟩
      · exact .inr ⟨h₁.trans hp, h₂⟩
    have hfin : ∀ {bi₂ : RxBufInfo}, bi₂.page = bi₁.page → bi₂.dmaAddr = bi₁.dmaAddr →
        DmaInv N K (updateBuf B i k bi₂) s₁.dma := fun hpg hda => by
      rcases h₁ with ⟨h₁, h₂⟩ | ⟨h₁, h₂⟩
      · rw [h₂, ← hda]
        exact h.map hi hk hp (by rw [hpg]; exact h₁)
      · rw [h₂]
        exact h.keep hi hk fun a => by rw [bufMapped_of_none (hpg.trans h₁), bufMapped_of_none hp]
    split_ifs at hf <;> simp only [Prod.mk.injEq] at hf <;> obtain ⟨-, rfl, rfl⟩ := hf
    · exact hfin rfl rfl
    · obtain ⟨hpg, -, hda, -⟩ := ionicRxTakeBias_spec b ns bi₁ s₁
      rw [ionicRxTakeBias_dma]
      exact hfin hpg hda

/-- The SG loop of the fill on slot `d`, standing for slot `t < N`, writing `bufs[1 + j]` for
`j` below `j + fuel ≤ K`. -/
theorem DmaInv.fillSg {t : Nat} (ht : t < N) :
    ∀ {fuel j remain : Nat} {d : RxDescInfo} {s : RxState}, j + fuel ≤ K →
      DmaInv N K (Function.update B t d.bufs) s.dma →
      DmaInv N K (Function.update B t (sgResult (ionicRxFillSg b env ns fuel j remain d s)).1.bufs)
        (sgResult (ionicRxFillSg b env ns fuel j remain d s)).2.dma
  | 0, _, _, _, _, _, h => h
  | fuel + 1, j, remain, d, s, hj, h => by
    rw [ionicRxFillSg]
    split
    · exact h
    rcases hb : ionicRxFillBuf b env ns (d.bufs (1 + j)) s with ⟨ok, bi, s₁⟩
    have h₁ : DmaInv N K (Function.update B t (Function.update d.bufs (1 + j) bi)) s₁.dma := by
      rw [update_updateBuf]
      exact h.fillBuf ht (by omega) (by rw [Function.update_same]; exact hb)
    cases ok
    · exact h₁
    · exact DmaInv.fillSg ht (by omega) h₁

/-- The fill of one slot `d₀`, standing for slot `t < N`, when `max_sg_elems ≤ K`. -/
theorem DmaInv.fillSlot {c : RxqCfg} (hsg : c.maxSgElems ≤ K) {len t : Nat} (ht : t < N) {d₀ d : RxDescInfo}
    {s s' : RxState} {ok : Bool} (h : DmaInv N K (Function.update B t d₀.bufs) s.dma)
    (hf : ionicRxFillSlot b c env len ns d₀ s = (ok, d, s')) :
    DmaInv N K (Function.update B t d.bufs) s'.dma := by
  rw [ionicRxFillSlot] at hf
  rcases hb : ionicRxFillBuf b env ns (d₀.bufs 0) s with ⟨ok₀, bi, s₁⟩
  rw [hb] at hf
  have h₁ : DmaInv N K (Function.update B t (Function.update d₀.bufs 0 bi)) s₁.dma := by
    rw [update_updateBuf]
    exact h.fillBuf ht (Nat.zero_le K) (by rw [Function.update_same]; exact hb)
  cases ok₀
  · simp only [Bool.not_false, ↓reduceIte, Prod.mk.injEq] at hf
    obtain ⟨-, rfl, rfl⟩ := hf
    exact h₁
  simp only [Bool.not_true, Bool.false_eq_true, ↓reduceIte] at hf
  have hsg' := @DmaInv.fillSg b env ns N K B t ht c.maxSgElems 0
    (len - min (len % 2 ^ 16) (b.room bi.pageOffset)) { d₀ with bufs := Function.update d₀.bufs 0 bi } s₁
    (by omega) h₁
  split at hf <;> rename_i hr <;> rw [hr] at hsg' <;> simp only [Prod.mk.injEq] at hf <;> obtain ⟨-, rfl, rfl⟩ := hf
  · exact hsg'
  · -- the sentinel element leaves the buffers alone
    split <;> exact hsg'

/-- The DMA bookkeeping of a receive queue whose `bufs[]` arrays have `K + 1` entries. -/
def RxState.DmaOk (N K : Nat) (s : RxState) : Prop := DmaInv N K (slotBufs s.q.info) s.dma

theorem RxState.DmaOk.fillLoop {c : RxqCfg} (hsg : c.maxSgElems ≤ K) {len : Nat} :
    ∀ {i : Nat} {s : RxState}, s.q.headIdx < c.ring.numDescs → s.DmaOk c.ring.numDescs K →
      (ionicRxFillLoop b c env len ns i s).2.DmaOk c.ring.numDescs K
  | 0, _, _, h => h
  | i + 1, s, hh, h => by
    rw [ionicRxFillLoop]
    rcases hf : ionicRxFillSlot b c env len ns (s.q.info s.q.headIdx) s with ⟨ok, d, s'⟩
    have h₀ : Function.update (slotBufs s.q.info) s.q.headIdx (s.q.info s.q.headIdx).bufs = slotBufs s.q.info :=
      Function.update_eq_self _ _
    have hD := DmaInv.fillSlot (B := slotBufs s.q.info) hsg hh (by rw [h₀]; exact h) hf
    obtain ⟨hq, -⟩ := ionicRxFillSlot_frame hf
    -- the slot filled takes the place of slot `head_idx`, whether it is posted or not
    have hB : DmaInv c.ring.numDescs K (slotBufs (Function.update s'.q.info s.q.headIdx d)) s'.dma := by
      rw [slotBufs_update, hq]; exact hD
    cases ok
    · exact hB
    · simp only [Bool.not_true, Bool.false_eq_true, ↓reduceIte]
      refine RxState.DmaOk.fillLoop hsg (c.ring.next_lt _) ?_
      show DmaInv c.ring.numDescs K (slotBufs (ionicQPost c.ring (s'.q.setInfo s.q.headIdx d) false id).info) s'.dma
      rw [ionicQPost_id_info]
      exact hB

theorem RxState.DmaOk.fill {c : RxqCfg} (hsg : c.maxSgElems ≤ K) {lif : RxLif} {s : RxState}
    (hh : s.q.headIdx < c.ring.numDescs) (h : s.DmaOk c.ring.numDescs K) :
    (ionicRxFill b c lif env s).DmaOk c.ring.numDescs K := by
  have hl := @RxState.DmaOk.fillLoop b env (b.pageSize / align (lif.mtu + ethHlen + vlanHlen) b.splitSz) K c hsg
    (lif.mtu + ethHlen + vlanHlen) (ionicQSpaceAvail c.ring s.q) s hh h
  unfold ionicRxFill
  dsimp only
  rcases he : ionicRxFillLoop b c env (lif.mtu + ethHlen + vlanHlen)
    (b.pageSize / align (lif.mtu + ethHlen + vlanHlen) b.splitSz) (ionicQSpaceAvail c.ring s.q) s with ⟨done, s'⟩
  rw [he] at hl
  cases done <;> exact hl

end Fill

/-! ## Completions -/

section Clean

variable {b : RxBuild} {mtu : Nat} {env : RxEnv} {N K t : Nat} {B : Nat → Nat → RxBufInfo}

/-- The loop of `ionic_rx_frags` over slot `d`, standing for slot `t`: a buffer that keeps its
page keeps its mapping, and one that gives it up is unmapped. -/
theorem DmaInv.fragsLoop :
    ∀ {i k len : Nat} {d : RxDescInfo} {skb : List RxFrag} {s : RxState},
      DmaInv N K (Function.update B t d.bufs) s.dma →
      DmaInv N K (Function.update B t (ionicRxFragsLoop b mtu env i k len d skb s).1.bufs)
        (ionicRxFragsLoop b mtu env i k len d skb s).2.2.dma
  | 0, _, _, _, _, _, h => h
  | i + 1, k, len, d, skb, s, h => by
    rw [ionicRxFragsLoop]
    split
    · rw [RxState.putFrags_dma]
      exact h
    rename_i p hp
    dsimp only
    rcases hr : ionicRxBufRecycle b mtu (env.reusable p) p (d.bufs k) (min len (b.room (d.bufs k).pageOffset)) s
      with ⟨keep, bi', s₁⟩
    obtain ⟨-, -, -, hpg, hda, -⟩ := ionicRxBufRecycle_spec hr
    have hd₁ : s₁.dma = s.dma := by rw [← ionicRxBufRecycle_dma (s := s), hr]
    have hB : Function.update B t d.bufs t k = d.bufs k := by rw [Function.update_same]
    have hsome : (Function.update B t d.bufs t k).page.isSome := by rw [hB, hp]; rfl
    cases keep
    · -- given up: the page is unmapped
      simp only [Bool.false_eq_true, ↓reduceIte]
      refine DmaInv.fragsLoop ?_
      have hu := h.unmap hsome { bi' with page := none } rfl
      rw [hB, ← hd₁, ← update_updateBuf] at hu
      exact hu
    · -- kept: the page keeps its mapping
      simp only [↓reduceIte]
      refine DmaInv.fragsLoop ?_
      obtain ⟨hi, hk⟩ := h.inside t k hsome
      rw [update_updateBuf, hd₁]
      exact h.keep hi hk fun a => by simp only [bufMapped, hpg, hda, hB]

theorem DmaInv.frags {d : RxDescInfo} {comp : RxComp} {s : RxState} (h : DmaInv N K (Function.update B t d.bufs) s.dma) :
    DmaInv N K (Function.update B t (ionicRxFrags b mtu env d comp s).1.bufs) (ionicRxFrags b mtu env d comp s).2.2.dma := by
  unfold ionicRxFrags
  split
  · exact h
  · exact DmaInv.fragsLoop h

theorem DmaInv.clean {c : RxqCfg} {lif : RxLif} {d : RxDescInfo} {comp : RxComp} {s : RxState}
    (h : DmaInv N K (Function.update B t d.bufs) s.dma) :
    DmaInv N K (Function.update B t (ionicRxClean b c lif env d comp s).1.bufs) (ionicRxClean b c lif env d comp s).2.dma := by
  unfold ionicRxClean
  split
  · exact h
  split
  · exact h
  dsimp only
  split
  · split <;> rename_i s' he <;> have hd := congrArg (·.2.dma) he <;> simp only [ionicRxCopybreak_dma] at hd <;>
      (show DmaInv N K _ s'.dma; rw [← hd]; exact h)
  · have hD := @DmaInv.frags b lif.mtu env N K t B d comp
      { s with stats := { s.stats with pkts := s.stats.pkts + 1, bytes := s.stats.bytes + comp.len } } h
    split <;> rename_i d' r s' he <;> rw [he] at hD <;> exact hD

theorem RxState.DmaOk.service {c : RxqCfg} {lif : RxLif} {comp : RxComp} {s : RxState}
    (h : s.DmaOk c.ring.numDescs K) :
    (ionicRxService b c lif env comp s).2.DmaOk c.ring.numDescs K := by
  unfold ionicRxService
  split
  · exact h
  split
  · exact h
  split
  · exact h
  dsimp only
  have h₀ : Function.update (slotBufs s.q.info) s.q.tailIdx (s.q.info s.q.tailIdx).bufs = slotBufs s.q.info :=
    Function.update_eq_self _ _
  have hD := @DmaInv.clean b env c.ring.numDescs K s.q.tailIdx (slotBufs s.q.info) c lif (s.q.info s.q.tailIdx) comp
    { s with q := { s.q with tailIdx := c.ring.next s.q.tailIdx } } (by rw [h₀]; exact h)
  rcases hc : ionicRxClean b c lif env (s.q.info s.q.tailIdx) comp
    { s with q := { s.q with tailIdx := c.ring.next s.q.tailIdx } } with ⟨d, s'⟩
  have hq := @ionicRxClean_q b env c lif (s.q.info s.q.tailIdx) comp
    { s with q := { s.q with tailIdx := c.ring.next s.q.tailIdx } }
  rw [hc] at hD hq
  show DmaInv c.ring.numDescs K (slotBufs (Function.update s'.q.info s.q.tailIdx d)) s'.dma
  rw [slotBufs_update, hq]
  exact hD

end Clean

/-! ## Teardown and the stack -/

section Empty

variable {b : RxBuild} {N K t : Nat} {B : Nat → Nat → RxBufInfo}

/-- One pass of the inner loop of `ionic_rx_empty`. -/
theorem DmaInv.pageFree {ds : RxDescInfo × RxState} (h : DmaInv N K (Function.update B t ds.1.bufs) ds.2.dma)
    (j : Nat) :
    DmaInv N K (Function.update B t (ionicRxEmptyBuf b ds j).1.bufs) (ionicRxEmptyBuf b ds j).2.dma := by
  have hB : Function.update B t ds.1.bufs t j = ds.1.bufs j := by rw [Function.update_same]
  rcases hf : ionicRxPageFree b (ds.1.bufs j) ds.2 with ⟨bi, s'⟩
  simp only [ionicRxEmptyBuf, hf]
  rw [update_updateBuf]
  rcases ionicRxPageFree_dma hf with ⟨rfl, hd⟩ | ⟨hp, h0, hd⟩
  · rw [← hB, updateBuf_self, hd]
    exact h
  · have hu := h.unmap (by rw [hB]; exact hp) bi h0
    rwa [hB, ← hd] at hu

theorem DmaInv.emptyBufs :
    ∀ (js : List Nat) {ds : RxDescInfo × RxState}, DmaInv N K (Function.update B t ds.1.bufs) ds.2.dma →
      DmaInv N K (Function.update B t (js.foldl (ionicRxEmptyBuf b) ds).1.bufs) (js.foldl (ionicRxEmptyBuf b) ds).2.dma
  | [], _, h => h
  | j :: js, _, h => DmaInv.emptyBufs js (h.pageFree j)

/-- The inner loop of `ionic_rx_empty` leaves every buffer it visits without a page, the others
and the ring as they were. -/
theorem ionicRxEmptyBufs_page :
    ∀ (js : List Nat) (ds : RxDescInfo × RxState),
      (js.foldl (ionicRxEmptyBuf b) ds).2.q = ds.2.q ∧
        ∀ k, ((js.foldl (ionicRxEmptyBuf b) ds).1.bufs k).page = if k ∈ js then none else (ds.1.bufs k).page
  | [], _ => ⟨rfl, fun k => by simp⟩
  | j :: js, ds => by
    rcases hf : ionicRxPageFree b (ds.1.bufs j) ds.2 with ⟨bi, s'⟩
    obtain ⟨hnone, hq, -, -⟩ := ionicRxPageFree_spec hf
    obtain ⟨hq', hk⟩ := ionicRxEmptyBufs_page js (ionicRxEmptyBuf b ds j)
    rw [List.foldl_cons]
    refine ⟨hq'.trans (by simp only [ionicRxEmptyBuf, hf]; exact hq), fun k => ?_⟩
    rw [hk k]
    simp only [ionicRxEmptyBuf, hf, List.mem_cons]
    by_cases hkj : k = j
    · subst hkj; simp [hnone]
    · simp [hkj]

theorem RxState.DmaOk.emptySlot {s : RxState} (h : s.DmaOk N K) (i : Nat) : (ionicRxEmptySlot b s i).DmaOk N K := by
  have h₀ : Function.update (slotBufs s.q.info) i (s.q.info i).bufs = slotBufs s.q.info := Function.update_eq_self _ _
  have hD := @DmaInv.emptyBufs b N K i (slotBufs s.q.info) (List.range (b.maxSgElems + 1)) (s.q.info i, s)
    (by rw [h₀]; exact h)
  obtain ⟨hq, -⟩ := @ionicRxEmptyBufs_page b (List.range (b.maxSgElems + 1)) (s.q.info i, s)
  unfold ionicRxEmptySlot ionicRxEmptyBufs
  rcases he : List.foldl (ionicRxEmptyBuf b) (s.q.info i, s) (List.range (b.maxSgElems + 1)) with ⟨d, s'⟩
  rw [he] at hD hq
  show DmaInv N K (slotBufs (Function.update s'.q.info i { d with nbufs := 0 })) s'.dma
  rw [slotBufs_update, hq]
  exact hD

/-- The outer loop of `ionic_rx_empty` leaves the buffers `bufs[0 .. IONIC_RX_MAX_SG_ELEMS]` of
every slot it visits without a page, and the other slots as they were. -/
theorem ionicRxEmptySlots_page :
    ∀ (is : List Nat) (s : RxState) (i k : Nat), (((is.foldl (ionicRxEmptySlot b) s).q.info i).bufs k).page =
      if i ∈ is ∧ k ≤ b.maxSgElems then none else ((s.q.info i).bufs k).page
  | [], _, _, _ => by simp
  | i₀ :: is, s, i, k => by
    rw [List.foldl_cons, ionicRxEmptySlots_page is]
    obtain ⟨hq, hk⟩ := @ionicRxEmptyBufs_page b (List.range (b.maxSgElems + 1)) (s.q.info i₀, s)
    -- the slot emptied, with the ring of the state the inner loop leaves
    have hslot : ((ionicRxEmptySlot b s i₀).q.info i).bufs k = if i = i₀ then
        (ionicRxEmptyBufs b (s.q.info i₀) s).1.bufs k else (s.q.info i).bufs k := by
      unfold ionicRxEmptySlot ionicRxEmptyBufs at *
      rcases he : List.foldl (ionicRxEmptyBuf b) (s.q.info i₀, s) (List.range (b.maxSgElems + 1)) with ⟨d, s'⟩
      rw [he] at hq
      dsimp only at hq
      simp only [RxState.setInfo_q, hq]
      by_cases hi : i = i₀
      · subst hi; simp
      · simp [hi, Queue.setInfo_info_ne _ _ hi]
    rw [hslot]
    by_cases hi : i = i₀
    · subst hi
      simp only [if_true, ionicRxEmptyBufs, hk k, List.mem_range, List.mem_cons, true_or, true_and]
      by_cases hk' : k ≤ b.maxSgElems
      · simp [hk', Nat.lt_succ_of_le hk']
      · simp [hk', show ¬k < b.maxSgElems + 1 by omega]
    · simp [hi]

theorem RxState.DmaOk.empty {c : RxqCfg} {s : RxState} (h : s.DmaOk N K) : (ionicRxEmpty b c s).DmaOk N K := by
  show ((List.range c.ring.numDescs).foldl (ionicRxEmptySlot b) s).DmaOk N K
  induction List.range c.ring.numDescs generalizing s with
  | nil => exact h
  | cons i is ih => exact ih (h.emptySlot i)

theorem RxState.DmaOk.stackFree {s : RxState} (h : s.DmaOk N K) (f : RxFrag) : (s.stackFree f).DmaOk N K := by
  unfold RxState.stackFree
  split
  · exact h
  · exact h

end Empty

/-! ## Along the runs -/

section Steps

variable {b : RxBuild} {c : RxqCfg} {s : RxState}

/-- Every state a receive queue reaches keeps the DMA bookkeeping, when `max_sg_elems` fits the
`bufs[]` array. -/
theorem RxReach.dmaOk (hsg : c.maxSgElems ≤ b.maxSgElems) (h : RxReach b c s) : s.DmaOk c.ring.numDescs b.maxSgElems := by
  induction h with
  | init => exact DmaInv.init _ _
  | fill lif env hr ih => exact ih.fill hsg hr.inv.head_lt
  | service lif env comp _ ih => exact ih.service
  | empty _ ih => exact ih.empty
  | stackFree f _ ih => exact ih.stackFree f

end Steps

/-- After `ionic_rx_empty` no buffer holds a page: those of the ring by its loops, and the others
never held one. -/
theorem ionicRxEmpty_page_none {b : RxBuild} {c : RxqCfg} {s : RxState}
    (hin : ∀ i k, (slotBufs s.q.info i k).page.isSome → i < c.ring.numDescs ∧ k ≤ b.maxSgElems) (i k : Nat) :
    (((ionicRxEmpty b c s).q.info i).bufs k).page = none := by
  show ((((List.range c.ring.numDescs).foldl (ionicRxEmptySlot b) s).q.info i).bufs k).page = none
  rw [ionicRxEmptySlots_page]
  split_ifs with hr
  · rfl
  · rw [List.mem_range] at hr
    cases hp : ((s.q.info i).bufs k).page with
    | none => rfl
    | some p => exact absurd (hin i k (by simp [slotBufs, hp])) hr

/-- No DMA mapping of the receive ring is unmapped twice or outlives the queue: in every state a
receive queue reaches, when `q->max_sg_elems` fits `bufs[]`, nothing was ever unmapped that was not
mapped, and the mappings alive at each address are those of the buffers holding a page mapped
there; after `ionic_rx_empty` no buffer holds a page and no mapping is left. -/
theorem rxReach_dma_unmapped {b : RxBuild} {c : RxqCfg} {s : RxState} (hsg : c.maxSgElems ≤ b.maxSgElems)
    (h : RxReach b c s) :
    s.dma.bad = [] ∧ (∀ a, s.dma.live.count a = mappedCount c.ring.numDescs b.maxSgElems (slotBufs s.q.info) a) ∧
      (∀ i k, (((ionicRxEmpty b c s).q.info i).bufs k).page = none) ∧ (ionicRxEmpty b c s).dma.live = [] := by
  have hD := h.dmaOk hsg
  have hE := hD.empty (b := b) (c := c)
  have hnone := ionicRxEmpty_page_none hD.inside
  refine ⟨hD.bad, hD.live, hnone, List.eq_nil_iff_forall_not_mem.mpr fun a ha => ?_⟩
  exact absurd ((hE.live a).trans (mappedCount_of_none hnone a)) (List.count_pos_iff.mpr ha).ne'

/-- A queue of two slots filled at open, then torn down. -/
theorem rxReach_dma_unmapped_fill :
    let b : RxBuild := ⟨false, 4096, 2048, 3000, 8, 16, by decide, by decide⟩
    let c : RxqCfg := ⟨⟨2, 1, rfl⟩, 0, 2, false⟩
    let s : RxState := ionicRxFill b c { mtu := 1500, rxCopybreak := 256 }
      ⟨fun _ => true, fun p => 4096 * (p + 1), fun _ => true, true, []⟩ (RxState.init 0)
    c.maxSgElems ≤ b.maxSgElems ∧ s.dma.bad = [] ∧
      (∀ a, s.dma.live.count a = mappedCount c.ring.numDescs b.maxSgElems (slotBufs s.q.info) a) ∧
      (∀ i k, (((ionicRxEmpty b c s).q.info i).bufs k).page = none) ∧ (ionicRxEmpty b c s).dma.live = [] :=
  ⟨by decide, rxReach_dma_unmapped (by decide) (.fill _ _ .init)⟩

end IonicTxrx
