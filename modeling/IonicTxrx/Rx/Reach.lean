import IonicTxrx.Rx.Pages

/-!
# Runs of a receive queue

A slot in the window `[tail_idx, head_idx)` is posted to the device: for each of its buffers
`bufs[k]`, `k < nbufs`, the device may write the region `ionic_rx_fill` gave it, from
`dma_addr + page_offset` for the posted length. `PostedInv` says that these regions start at the
buffer's current offset and fit in the room `min_t` saw there; with the page invariant in the
form that holds whatever page `alloc_pages` hands back, it makes the receive invariant `RxInv`,
which every run of fills, completions (any entries), teardowns and frees by the stack keeps.
-/

namespace IonicTxrx

/-- Every slot of the window `[tail_idx, head_idx)` is posted: it has at least `bufs[0]`, its
buffers `bufs[0 .. nbufs - 1]` hold pages, and the region posted for each starts at the buffer's
`dma_addr + page_offset` and is no longer than the room `min_t` saw there. -/
def PostedInv (b : RxBuild) (c : RxqCfg) (q : Queue RxDescInfo) : Prop :=
  ∀ i < c.ring.numDescs, c.ring.InWindow q.headIdx q.tailIdx i → 1 ≤ (q.info i).nbufs ∧ ∀ k < (q.info i).nbufs,
    ((q.info i).bufs k).page.isSome ∧
      postedAddr (q.info i) k = ((q.info i).bufs k).dmaAddr + ((q.info i).bufs k).pageOffset ∧
      postedLen (q.info i) k ≤ b.room ((q.info i).bufs k).pageOffset

/-- The invariant of a receive queue in every build: held pages below the fresh one with their
offsets inside them, cursors inside the ring, and the window posted. -/
structure RxInv (b : RxBuild) (c : RxqCfg) (s : RxState) : Prop where
  pages : s.PagesOk false b.pageSize
  head_lt : s.q.headIdx < c.ring.numDescs
  tail_lt : s.q.tailIdx < c.ring.numDescs
  posted : PostedInv b c s.q

/-- The states a receive queue reaches from its allocation: fills, completions with any entries,
teardowns and frees of fragments by the stack, in any order, with any MTU and any answers of the
kernel at each call. -/
inductive RxReach (b : RxBuild) (c : RxqCfg) : RxState → Prop
  | init : RxReach b c (RxState.init c.index)
  | fill {s : RxState} (lif : RxLif) (env : RxEnv) : RxReach b c s → RxReach b c (ionicRxFill b c lif env s)
  | service {s : RxState} (lif : RxLif) (env : RxEnv) (comp : RxComp) :
      RxReach b c s → RxReach b c (ionicRxService b c lif env comp s).2
  | empty {s : RxState} : RxReach b c s → RxReach b c (ionicRxEmpty b c s)
  | stackFree {s : RxState} (f : RxFrag) : RxReach b c s → RxReach b c (s.stackFree f)

section Fill

variable {b : RxBuild} {c : RxqCfg} {env : RxEnv} {len ns : Nat}

/-- The loop of the fill posts slot after slot at `head_idx`, each with the regions the fill of
the slot describes, while the ring has room; the window grows by the slots posted. -/
theorem PostedInv.fillLoop :
    ∀ {i : Nat} {s : RxState}, s.q.headIdx < c.ring.numDescs → s.q.tailIdx < c.ring.numDescs →
      i + c.ring.inflight s.q.headIdx s.q.tailIdx + 1 ≤ c.ring.numDescs → PostedInv b c s.q →
      PostedInv b c (ionicRxFillLoop b c env len ns i s).2.q ∧
        (ionicRxFillLoop b c env len ns i s).2.q.headIdx < c.ring.numDescs ∧
        (ionicRxFillLoop b c env len ns i s).2.q.tailIdx = s.q.tailIdx
  | 0, _, hh, _, _, hp => ⟨hp, hh, rfl⟩
  | i + 1, s, hh, ht, hi, hp => by
    rw [ionicRxFillLoop]
    rcases hf : ionicRxFillSlot b c env len ns (s.q.info s.q.headIdx) s with ⟨ok, d, s'⟩
    obtain ⟨hq, -⟩ := ionicRxFillSlot_frame hf
    cases ok
    · -- the slot left behind is at `head_idx`, outside the window
      simp only [Bool.not_false, ↓reduceIte]
      refine ⟨fun j hj hw => ?_, by simpa [hq] using hh, by simp [hq]⟩
      simp only [RxState.setInfo_q, Queue.setInfo_headIdx, Queue.setInfo_tailIdx, hq] at hw ⊢
      have hne : j ≠ s.q.headIdx := by rintro rfl; exact Nat.lt_irrefl _ hw
      rw [Queue.setInfo_info_ne _ _ hne]
      exact hp j hj hw
    · simp only [Bool.not_true, Bool.false_eq_true, ↓reduceIte]
      have hfull : c.ring.inflight s.q.headIdx s.q.tailIdx + 1 < c.ring.numDescs := by omega
      -- the slot filled joins the window at `head_idx`
      have hpost : PostedInv b c (ionicQPost c.ring (s'.q.setInfo s.q.headIdx d) false id) := by
        intro j hj hw
        simp only [ionicQPost_headIdx, ionicQPost_tailIdx, Queue.setInfo_headIdx, Queue.setInfo_tailIdx, hq,
          ionicQPost_id_info] at hw ⊢
        rcases (c.ring.inWindow_next_head hh ht hj hfull).mp hw with hw | rfl
        · have hne : j ≠ s.q.headIdx := by rintro rfl; exact Nat.lt_irrefl _ hw
          rw [Queue.setInfo_info_ne _ _ hne]
          exact hp j hj hw
        · rw [Queue.setInfo_info_self]
          exact ⟨(ionicRxFillSlot_posted hf).1, (ionicRxFillSlot_posted hf).2.1⟩
      obtain ⟨h₁, h₂, h₃⟩ := @PostedInv.fillLoop i
        { s' with q := ionicQPost c.ring (s'.q.setInfo s.q.headIdx d) false id } (c.ring.next_lt _)
        (by simpa [hq] using ht)
        (by simp only [ionicQPost_headIdx, ionicQPost_tailIdx, Queue.setInfo_headIdx, Queue.setInfo_tailIdx, hq]
            rw [c.ring.inflight_next_head hh ht hfull]; omega) hpost
      exact ⟨h₁, h₂, h₃.trans (by simp [hq])⟩

theorem RxInv.fill {s : RxState} (h : RxInv b c s) (lif : RxLif) : RxInv b c (ionicRxFill b c lif env s) := by
  have hl := @PostedInv.fillLoop b c env (lif.mtu + ethHlen + vlanHlen)
    (b.pageSize / align (lif.mtu + ethHlen + vlanHlen) b.splitSz) (ionicQSpaceAvail c.ring s.q) s h.head_lt h.tail_lt
    (by have := c.ring.inflight_lt s.q.headIdx s.q.tailIdx; unfold ionicQSpaceAvail; omega) h.posted
  have hP := @RxState.PagesOk.fill false b env c lif s h.pages nofun
  unfold ionicRxFill at hP ⊢
  dsimp only at hP ⊢
  rcases he : ionicRxFillLoop b c env (lif.mtu + ethHlen + vlanHlen)
    (b.pageSize / align (lif.mtu + ethHlen + vlanHlen) b.splitSz) (ionicQSpaceAvail c.ring s.q) s with ⟨done, s'⟩
  rw [he] at hl hP
  obtain ⟨hpost, hh, ht⟩ := hl
  cases done
  · exact ⟨hP, hh, ht ▸ h.tail_lt, hpost⟩
  · exact ⟨hP, hh, ht ▸ h.tail_lt, hpost⟩

end Fill

section Steps

variable {b : RxBuild} {c : RxqCfg} {s : RxState}

theorem RxInv.init (b : RxBuild) (c : RxqCfg) : RxInv b c (RxState.init c.index) :=
  ⟨PagesInv.init false b.pageSize, c.ring.numDescs_pos, c.ring.numDescs_pos, fun _ _ hw => absurd hw c.ring.not_inWindow_of_eq⟩

/-- A completion cleans the slot at `tail_idx` after taking it out of the window. -/
theorem RxInv.service (h : RxInv b c s) (lif : RxLif) (env : RxEnv) (comp : RxComp) :
    RxInv b c (ionicRxService b c lif env comp s).2 := by
  have hP := @RxState.PagesOk.service false b env c lif comp s h.pages
  unfold ionicRxService at hP ⊢
  by_cases h₁ : (!comp.colorMatch) = true
  · rw [if_pos h₁]; exact h
  by_cases h₂ : s.q.tailIdx = s.q.headIdx
  · rw [if_neg h₁, if_pos h₂]; exact h
  by_cases h₃ : s.q.tailIdx ≠ comp.compIndex
  · rw [if_neg h₁, if_neg h₂, if_pos h₃]; exact h
  rw [if_neg h₁, if_neg h₂, if_neg h₃] at hP ⊢
  dsimp only at hP ⊢
  rcases hc : ionicRxClean b c lif env (s.q.info s.q.tailIdx) comp
    { s with q := { s.q with tailIdx := c.ring.next s.q.tailIdx } } with ⟨d, s'⟩
  have hq := @ionicRxClean_q b env c lif (s.q.info s.q.tailIdx) comp
    { s with q := { s.q with tailIdx := c.ring.next s.q.tailIdx } }
  rw [hc] at hP hq
  dsimp only at hP hq
  refine ⟨hP, by simp [hq, h.head_lt], by simpa [hq] using c.ring.next_lt _, fun j hj hw => ?_⟩
  simp only [RxState.setInfo_q, Queue.setInfo_headIdx, Queue.setInfo_tailIdx, hq] at hw ⊢
  obtain ⟨hw, hne⟩ := (c.ring.inWindow_next_tail h.head_lt h.tail_lt hj h₂).mp hw
  rw [Queue.setInfo_info_ne _ _ hne]
  exact h.posted j hj hw

/-- A teardown empties the window. -/
theorem RxInv.empty (h : RxInv b c s) : RxInv b c (ionicRxEmpty b c s) :=
  ⟨h.pages.empty, c.ring.numDescs_pos, c.ring.numDescs_pos, fun _ _ hw => absurd hw c.ring.not_inWindow_of_eq⟩

theorem RxState.stackFree_q (s : RxState) (f : RxFrag) : (s.stackFree f).q = s.q := by
  unfold RxState.stackFree; split <;> rfl

theorem RxInv.stackFree (h : RxInv b c s) (f : RxFrag) : RxInv b c (s.stackFree f) := by
  have hq := s.stackFree_q f
  exact ⟨h.pages.stackFree f, hq ▸ h.head_lt, hq ▸ h.tail_lt, hq ▸ h.posted⟩

theorem RxReach.inv (h : RxReach b c s) : RxInv b c s := by
  induction h with
  | init => exact RxInv.init b c
  | fill lif env _ ih => exact ih.fill lif
  | service lif env comp _ ih => exact ih.service lif env comp
  | empty _ ih => exact ih.empty
  | stackFree f _ ih => exact ih.stackFree f

end Steps

end IonicTxrx
