import IonicTxrx.Rx.Dma

/-!
# Page references, and pages in use

Without advance references (`IONIC_PAGE_ORDER = 0`) the driver's share of a page is the single
reference it took at `alloc_pages`. `skb_add_rx_frag` hands that reference to the skb;
`ionic_rx_buf_recycle` takes a new one with `get_page` for a buffer that keeps the page, a buffer
that gives the page up leaves its reference with the fragment, and `ionic_rx_page_free` drops
it. Freeing an skb, by the stack or by `ionic_rx_frags` when a buffer turns out to have no page,
drops one reference per fragment. `RefInv` states the balance: a page's count is the number of
fragments of it the stack holds plus the number of buffers holding it. Every function of the
receive path keeps it, so no page leaks and none is freed while in use (`rxReach_page_refs`).
A page `alloc_pages` hands back is then unused, so the page invariant keeps its unique form and
no byte the device may write belongs to a packet handed up (`rxReach_posted_frags_disjoint`).

With `IONIC_PAGE_ORDER > 0` the balance fails (`ionicRxFrags_page_refs_unbalanced`): a page can
reach a count of zero while a buffer still holds it, `alloc_pages` may hand it to another buffer,
and the device is then given a region of it that a packet already handed up still uses
(`rxReach_posted_region_overlaps_frag`).
-/

namespace IonicTxrx

/-- The reference to page `p` that buffer `bi` holds: one when it holds `p`. -/
def bufHolds (p : Nat) (bi : RxBufInfo) : Nat := if bi.page = some p then 1 else 0

/-- The fragments of page `p` in `fs`. -/
def fragCount (fs : List RxFrag) (p : Nat) : Nat := (fs.map RxFrag.page).count p

@[simp] theorem fragCount_append (fs gs : List RxFrag) (p : Nat) :
    fragCount (fs ++ gs) p = fragCount fs p + fragCount gs p := by
  simp [fragCount, List.count_append]

@[simp] theorem fragCount_nil (p : Nat) : fragCount [] p = 0 := rfl

theorem fragCount_singleton (f : RxFrag) (p : Nat) : fragCount [f] p = if f.page = p then 1 else 0 := by
  simp [fragCount, List.count_cons]

/-- The page references of the receive ring, for slots below `N` with buffers `bufs[0 .. K]`, the
stack holding the fragments `fs`: only those buffers hold pages, and each page's count is its
fragments plus its holders. -/
structure RefInv (N K : Nat) (B : Nat → Nat → RxBufInfo) (fs : List RxFrag) (refs : Nat → Int) : Prop where
  inside : ∀ i k, (B i k).page.isSome → i < N ∧ k ≤ K
  count : ∀ p, refs p = (fragCount fs p : Int) + (bufSum N K (bufHolds p) B : Int)

namespace RefInv

variable {N K : Nat} {B : Nat → Nat → RxBufInfo} {fs : List RxFrag} {refs : Nat → Int}

theorem init (N K : Nat) : RefInv N K (slotBufs fun _ => RxDescInfo.empty) [] fun _ => 0 :=
  ⟨fun _ _ h => absurd h Bool.false_ne_true, fun p => by rw [bufSum_eq_zero fun _ _ => rfl]; rfl⟩

/-- A change of the references and fragments that keeps their difference, the buffers left alone. -/
theorem frame (h : RefInv N K B fs refs) {fs' : List RxFrag} {refs' : Nat → Int}
    (hr : ∀ p, refs' p - fragCount fs' p = refs p - fragCount fs p) : RefInv N K B fs' refs' :=
  ⟨h.inside, fun p => by have := h.count p; have := hr p; omega⟩

/-- Replacing buffer `k ≤ K` of slot `i < N` while the references change as the buffer's own. -/
theorem update (h : RefInv N K B fs refs) {i k : Nat} (hi : i < N) (hk : k ≤ K) {bi : RxBufInfo}
    {fs' : List RxFrag} {refs' : Nat → Int}
    (hr : ∀ p, refs' p - fragCount fs' p - bufHolds p bi = refs p - fragCount fs p - bufHolds p (B i k)) :
    RefInv N K (updateBuf B i k bi) fs' refs' := by
  refine ⟨fun i' k' hp => ?_, fun p => ?_⟩
  · rw [updateBuf_apply] at hp
    split at hp
    · rename_i he
      exact ⟨he.1 ▸ hi, he.2 ▸ hk⟩
    · exact h.inside i' k' hp
  · have h₁ := bufSum_update hi hk (bufHolds p) B bi
    have h₂ := h.count p
    have h₃ := hr p
    omega

/-- Page `n`, above every page in use, has no reference. -/
theorem fresh (h : RefInv N K B fs refs) {u : Bool} {P : Nat} (hP : PagesInv u P B fs n) : refs n = 0 := by
  have h₁ : fragCount fs n = 0 := List.count_eq_zero.mpr fun hm => by
    obtain ⟨f, hf, rfl⟩ := List.mem_map.mp hm
    exact lt_irrefl _ (hP.frag_lt f hf)
  have h₂ : bufSum N K (bufHolds n) B = 0 := bufSum_eq_zero fun i k => by
    unfold bufHolds
    split_ifs with hb
    · exact absurd (hP.held_lt i k n hb) (lt_irrefl _)
    · rfl
  rw [h.count n, h₁, h₂]
  rfl

end RefInv

/-! ## The fill -/

section Fill

variable {b : RxBuild} {env : RxEnv} {ns N K : Nat} {B : Nat → Nat → RxBufInfo}

theorem ionicRxTakeBias_of_order (hord : b.orderPos = false) (ns : Nat) (bi : RxBufInfo) (s : RxState) :
    ionicRxTakeBias b ns bi s = (bi, s) := by
  simp [ionicRxTakeBias, hord]

/-- The buffer step of the fill, on buffer `k ≤ K` of slot `i < N`: the page `alloc_pages` hands
out has no reference before and the driver's one after. -/
theorem RefInv.fillBuf (hord : b.orderPos = false) {s : RxState} (h : RefInv N K B s.frags s.refs)
    {u : Bool} (hP : PagesInv u b.pageSize B s.frags s.nextPage) {i k : Nat} (hi : i < N) (hk : k ≤ K) {ok : Bool}
    {bi' : RxBufInfo} {s' : RxState} (hf : ionicRxFillBuf b env ns (B i k) s = (ok, bi', s')) :
    RefInv N K (updateBuf B i k bi') s'.frags s'.refs := by
  cases hp : (B i k).page with
  | some p =>
    rw [ionicRxFillBuf_of_page hp, Prod.mk.injEq, Prod.mk.injEq] at hf
    obtain ⟨-, rfl, rfl⟩ := hf
    rwa [updateBuf_self]
  | none =>
    obtain ⟨-, hfr, -⟩ := ionicRxFillBuf_of_none hp hf
    unfold ionicRxFillBuf at hf
    rw [hp] at hf
    rcases ha : ionicRxPageAlloc b env (B i k) s with ⟨r, bi₁, s₁⟩
    rw [ha] at hf
    dsimp only at hf
    rw [ionicRxTakeBias_of_order hord] at hf
    have hbi : bi' = bi₁ ∧ s' = s₁ := by
      split_ifs at hf <;> simp only [Prod.mk.injEq] at hf <;> exact ⟨hf.2.1.symm, hf.2.2.symm⟩
    obtain ⟨rfl, rfl⟩ := hbi
    rw [hfr]
    refine h.update hi hk fun q => ?_
    obtain ⟨-, -, -, ⟨-, hp', -, -, hr⟩ | ⟨-, hp', hr⟩⟩ := ionicRxPageAlloc_spec ha
    · -- the page handed out: never used, or freed with no reference left
      have h0 : s.refs (env.allocPage s) = 0 := by
        rcases env.allocPage_cases s with he | ⟨-, h0⟩
        · rw [he]; exact h.fresh hP
        · exact h0
      rw [hr]
      simp only [bufHolds, hp', hp, reduceCtorEq, if_false, Option.some.injEq]
      by_cases hq : q = env.allocPage s
      · subst hq
        simp [h0]
      · simp [hq, Ne.symm hq]
    · rw [hr]
      simp [bufHolds, hp', hp]

/-- The SG loop of the fill on slot `d`, standing for slot `t < N`. -/
theorem RefInv.fillSg (hord : b.orderPos = false) {t : Nat} (ht : t < N) {fs : List RxFrag} :
    ∀ {fuel j remain : Nat} {d : RxDescInfo} {s : RxState}, j + fuel ≤ K → s.frags = fs →
      RefInv N K (Function.update B t d.bufs) fs s.refs →
      FillOk false b.pageSize (Function.update B t d.bufs) fs s →
      RefInv N K (Function.update B t (sgResult (ionicRxFillSg b env ns fuel j remain d s)).1.bufs) fs
        (sgResult (ionicRxFillSg b env ns fuel j remain d s)).2.refs
  | 0, _, _, _, _, _, _, h, _ => h
  | fuel + 1, j, remain, d, s, hj, hfs, h, hP => by
    rw [ionicRxFillSg]
    split
    · exact h
    rcases hb : ionicRxFillBuf b env ns (d.bufs (1 + j)) s with ⟨ok, bi, s₁⟩
    have hb' : ionicRxFillBuf b env ns (Function.update B t d.bufs t (1 + j)) s = (ok, bi, s₁) := by
      rw [Function.update_same]; exact hb
    obtain ⟨-, hfr, -⟩ := ionicRxFillBuf_cases hb
    have h₁ : RefInv N K (Function.update B t (Function.update d.bufs (1 + j) bi)) fs s₁.refs := by
      rw [update_updateBuf, ← hfs, ← hfr]
      exact RefInv.fillBuf hord (hfs ▸ h) (hfs ▸ hP.1) ht (by omega) hb'
    have hP₁ : FillOk false b.pageSize (Function.update B t (Function.update d.bufs (1 + j) bi)) fs s₁ := by
      rw [update_updateBuf]
      exact hP.fillBuf hb'
    cases ok
    · exact h₁
    · exact RefInv.fillSg hord ht (by omega) (hfr.trans hfs) h₁ hP₁

/-- The fill of one slot `d₀`, standing for slot `t < N`, when `max_sg_elems ≤ K`. -/
theorem RefInv.fillSlot (hord : b.orderPos = false) {c : RxqCfg} (hsg : c.maxSgElems ≤ K) {len t : Nat}
    (ht : t < N) {d₀ d : RxDescInfo} {s s' : RxState} {ok : Bool}
    (h : RefInv N K (Function.update B t d₀.bufs) s.frags s.refs)
    (hP : FillOk false b.pageSize (Function.update B t d₀.bufs) s.frags s)
    (hf : ionicRxFillSlot b c env len ns d₀ s = (ok, d, s')) :
    RefInv N K (Function.update B t d.bufs) s.frags s'.refs := by
  rw [ionicRxFillSlot] at hf
  rcases hb : ionicRxFillBuf b env ns (d₀.bufs 0) s with ⟨ok₀, bi, s₁⟩
  rw [hb] at hf
  have hb' : ionicRxFillBuf b env ns (Function.update B t d₀.bufs t 0) s = (ok₀, bi, s₁) := by
    rw [Function.update_same]; exact hb
  obtain ⟨-, hfr, -⟩ := ionicRxFillBuf_cases hb
  have h₁ : RefInv N K (Function.update B t (Function.update d₀.bufs 0 bi)) s.frags s₁.refs := by
    rw [update_updateBuf, ← hfr]
    exact RefInv.fillBuf hord h hP.1 ht (Nat.zero_le K) hb'
  have hP₁ : FillOk false b.pageSize (Function.update B t (Function.update d₀.bufs 0 bi)) s.frags s₁ := by
    rw [update_updateBuf]
    exact hP.fillBuf hb'
  cases ok₀
  · simp only [Bool.not_false, ↓reduceIte, Prod.mk.injEq] at hf
    obtain ⟨-, rfl, rfl⟩ := hf
    exact h₁
  simp only [Bool.not_true, Bool.false_eq_true, ↓reduceIte] at hf
  have hsg' := @RefInv.fillSg b env ns N K B hord t ht s.frags c.maxSgElems 0
    (len - min (len % 2 ^ 16) (b.room bi.pageOffset)) { d₀ with bufs := Function.update d₀.bufs 0 bi } s₁
    (by omega) hfr h₁ hP₁
  split at hf <;> rename_i hr <;> rw [hr] at hsg' <;> simp only [Prod.mk.injEq] at hf <;> obtain ⟨-, rfl, rfl⟩ := hf
  · exact hsg'
  · -- the sentinel element leaves the buffers alone
    split <;> exact hsg'

/-- The page references of a receive queue whose `bufs[]` arrays have `K + 1` entries. -/
def RxState.RefsOk (N K : Nat) (s : RxState) : Prop := RefInv N K (slotBufs s.q.info) s.frags s.refs

theorem RxState.RefsOk.fillLoop (hord : b.orderPos = false) {c : RxqCfg} (hsg : c.maxSgElems ≤ K) {len : Nat} :
    ∀ {i : Nat} {s : RxState}, s.q.headIdx < c.ring.numDescs → s.PagesOk false b.pageSize →
      s.RefsOk c.ring.numDescs K → (ionicRxFillLoop b c env len ns i s).2.RefsOk c.ring.numDescs K
  | 0, _, _, _, h => h
  | i + 1, s, hh, hP, h => by
    rw [ionicRxFillLoop]
    rcases hf : ionicRxFillSlot b c env len ns (s.q.info s.q.headIdx) s with ⟨ok, d, s'⟩
    have h₀ : Function.update (slotBufs s.q.info) s.q.headIdx (s.q.info s.q.headIdx).bufs = slotBufs s.q.info :=
      Function.update_eq_self _ _
    have hF : FillOk false b.pageSize (Function.update (slotBufs s.q.info) s.q.headIdx (s.q.info s.q.headIdx).bufs)
        s.frags s := by rw [h₀]; exact ⟨hP, nofun⟩
    have hR := RefInv.fillSlot (B := slotBufs s.q.info) hord hsg hh (by rw [h₀]; exact h) hF hf
    have hP' := FillOk.fillSlot (B := slotBufs s.q.info) hF hf
    obtain ⟨hq, hfr⟩ := ionicRxFillSlot_frame hf
    -- the slot filled takes the place of slot `head_idx`, whether it is posted or not
    have hB : RefInv c.ring.numDescs K (slotBufs (Function.update s'.q.info s.q.headIdx d)) s'.frags s'.refs := by
      rw [slotBufs_update, hq, hfr]; exact hR
    have hBP : PagesInv false b.pageSize (slotBufs (Function.update s'.q.info s.q.headIdx d)) s'.frags s'.nextPage := by
      rw [slotBufs_update, hq, hfr]; exact hP'.1
    cases ok
    · exact hB
    · simp only [Bool.not_true, Bool.false_eq_true, ↓reduceIte]
      refine RxState.RefsOk.fillLoop hord hsg (c.ring.next_lt _) ?_ ?_
      · show PagesInv false b.pageSize (slotBufs (ionicQPost c.ring (s'.q.setInfo s.q.headIdx d) false id).info)
          s'.frags s'.nextPage
        rw [ionicQPost_id_info]
        exact hBP
      · show RefInv c.ring.numDescs K (slotBufs (ionicQPost c.ring (s'.q.setInfo s.q.headIdx d) false id).info)
          s'.frags s'.refs
        rw [ionicQPost_id_info]
        exact hB

theorem RxState.RefsOk.fill (hord : b.orderPos = false) {c : RxqCfg} (hsg : c.maxSgElems ≤ K) {lif : RxLif}
    {s : RxState} (hh : s.q.headIdx < c.ring.numDescs) (hP : s.PagesOk false b.pageSize)
    (h : s.RefsOk c.ring.numDescs K) :
    (ionicRxFill b c lif env s).RefsOk c.ring.numDescs K := by
  have hl := @RxState.RefsOk.fillLoop b env (b.pageSize / align (lif.mtu + ethHlen + vlanHlen) b.splitSz) K hord c hsg
    (lif.mtu + ethHlen + vlanHlen) (ionicQSpaceAvail c.ring s.q) s hh hP h
  unfold ionicRxFill
  dsimp only
  rcases he : ionicRxFillLoop b c env (lif.mtu + ethHlen + vlanHlen)
    (b.pageSize / align (lif.mtu + ethHlen + vlanHlen) b.splitSz) (ionicQSpaceAvail c.ring s.q) s with ⟨done, s'⟩
  rw [he] at hl
  cases done <;> exact hl

end Fill

/-! ## Completions -/

section Clean

variable {b : RxBuild} {mtu : Nat} {env : RxEnv} {N K t : Nat} {B : Nat → Nat → RxBufInfo}

theorem RxState.putFrags_refs (s : RxState) (fs : List RxFrag) (p : Nat) :
    (s.putFrags fs).refs p = s.refs p - fragCount fs p := by
  induction fs generalizing s with
  | nil => simp [RxState.putFrags]
  | cons f fs ih =>
    show ((s.putPage f.page).putFrags fs).refs p = _
    rw [ih]
    simp only [fragCount, List.map_cons, List.count_cons, RxState.putPage, Function.update_apply, beq_iff_eq]
    split_ifs <;> subst_vars <;> push_cast <;> omega

/-- `ionic_rx_buf_recycle` in a build with `IONIC_PAGE_ORDER = 0` takes one more reference to a
page it keeps, and none to one it gives up. -/
theorem ionicRxBufRecycle_refs (hord : b.orderPos = false) {reusable : Bool} {p : Nat} {bi : RxBufInfo}
    {used : Nat} {s : RxState} {keep : Bool} {bi' : RxBufInfo} {s' : RxState}
    (h : ionicRxBufRecycle b mtu reusable p bi used s = (keep, bi', s')) :
    s'.refs = if keep then Function.update s.refs p (s.refs p + 1) else s.refs := by
  unfold ionicRxBufRecycle at h
  dsimp only at h
  simp only [hord, Bool.false_eq_true, ↓reduceIte] at h
  split_ifs at h <;> simp only [Prod.mk.injEq] at h <;> obtain ⟨rfl, -, rfl⟩ := h <;> rfl

/-- The loop of `ionic_rx_frags` over slot `d`, standing for slot `t`, with the fragments `skb`
attached so far counted with those the stack holds. -/
theorem RefInv.fragsLoop (hord : b.orderPos = false) {fs : List RxFrag} :
    ∀ {i k len : Nat} {d : RxDescInfo} {skb : List RxFrag} {s : RxState}, s.frags = fs →
      RefInv N K (Function.update B t d.bufs) (fs ++ skb) s.refs →
      RefInv N K (Function.update B t (ionicRxFragsLoop b mtu env i k len d skb s).1.bufs)
        (fs ++ (ionicRxFragsLoop b mtu env i k len d skb s).2.1.getD [])
        (ionicRxFragsLoop b mtu env i k len d skb s).2.2.refs
  | 0, _, _, _, _, _, _, h => h
  | i + 1, k, len, d, skb, s, hfs, h => by
    rw [ionicRxFragsLoop]
    split
    · -- a buffer without a page: the skb is freed with its fragments' references
      refine h.frame fun p => ?_
      simp only [Option.getD_none, List.append_nil, RxState.putFrags_refs, fragCount_append]
      omega
    rename_i p hp
    dsimp only
    rcases hr : ionicRxBufRecycle b mtu (env.reusable p) p (d.bufs k) (min len (b.room (d.bufs k).pageOffset)) s
      with ⟨keep, bi', s₁⟩
    obtain ⟨-, hfr, -, hpg, -, -⟩ := ionicRxBufRecycle_spec hr
    have hrefs := ionicRxBufRecycle_refs hord hr
    have hB : Function.update B t d.bufs t k = d.bufs k := by rw [Function.update_same]
    obtain ⟨hi, hk⟩ := h.inside t k (by rw [hB, hp]; rfl)
    have hhold : ∀ q, bufHolds q (d.bufs k) = if p = q then 1 else 0 := fun q => by
      simp only [bufHolds, hp, Option.some.injEq]
    have hfrag : ∀ q, fragCount [⟨p, (d.bufs k).pageOffset, min len (b.room (d.bufs k).pageOffset)⟩] q =
        if p = q then 1 else 0 := fun q => fragCount_singleton _ q
    -- the fragment takes the buffer's reference; a buffer that keeps the page takes a new one
    cases keep
    · simp only [Bool.false_eq_true, ↓reduceIte]
      refine RefInv.fragsLoop hord (hfr.trans hfs) ?_
      rw [update_updateBuf]
      refine h.update hi hk fun q => ?_
      simp only [hrefs, if_false, fragCount_append, hB, hfrag, hhold, bufHolds, hp, Option.some.injEq, reduceCtorEq]
      split_ifs <;> push_cast <;> omega
    · simp only [↓reduceIte]
      refine RefInv.fragsLoop hord (hfr.trans hfs) ?_
      rw [update_updateBuf]
      refine h.update hi hk fun q => ?_
      have hb' : bufHolds q bi' = if p = q then 1 else 0 := by rw [← hhold]; simp only [bufHolds, hpg]
      simp only [hrefs, if_true, fragCount_append, hB, hfrag, hhold, hb', Function.update_apply]
      split_ifs <;> subst_vars <;> push_cast <;> omega

theorem RefInv.frags (hord : b.orderPos = false) {d : RxDescInfo} {comp : RxComp} {s : RxState}
    (h : RefInv N K (Function.update B t d.bufs) s.frags s.refs) :
    RefInv N K (Function.update B t (ionicRxFrags b mtu env d comp s).1.bufs)
      (s.frags ++ (ionicRxFrags b mtu env d comp s).2.1.getD []) (ionicRxFrags b mtu env d comp s).2.2.refs := by
  unfold ionicRxFrags
  split
  · simpa using h
  · exact RefInv.fragsLoop hord rfl (by simpa using h)

/-- `ionic_rx_copybreak` copies the bytes: no fragment and no reference changes hands. -/
theorem ionicRxCopybreak_refs {d : RxDescInfo} {comp : RxComp} {s : RxState} {src : Option RxFrag} {s' : RxState}
    (h : ionicRxCopybreak env d comp s = (src, s')) : s'.frags = s.frags ∧ s'.refs = s.refs := by
  unfold ionicRxCopybreak at h
  split at h <;> simp only [Prod.mk.injEq] at h <;> obtain ⟨-, rfl⟩ := h <;> exact ⟨rfl, rfl⟩

/-- `ionic_rx_clean` of slot `d`, standing for slot `t`: the fragments of a packet handed up go to
the stack with the references the loop gave them. -/
theorem RefInv.clean (hord : b.orderPos = false) {c : RxqCfg} {lif : RxLif} {d : RxDescInfo} {comp : RxComp}
    {s : RxState} (h : RefInv N K (Function.update B t d.bufs) s.frags s.refs) :
    RefInv N K (Function.update B t (ionicRxClean b c lif env d comp s).1.bufs) (ionicRxClean b c lif env d comp s).2.frags
      (ionicRxClean b c lif env d comp s).2.refs := by
  unfold ionicRxClean
  split
  · exact h
  split
  · exact h
  dsimp only
  split
  · split <;> rename_i s' he <;> obtain ⟨hf, hr⟩ := ionicRxCopybreak_refs he <;>
      (show RefInv N K _ s'.frags s'.refs; rw [hf, hr]; exact h)
  · have hR := @RefInv.frags b lif.mtu env N K t B hord d comp
      { s with stats := { s.stats with pkts := s.stats.pkts + 1, bytes := s.stats.bytes + comp.len } } h
    obtain ⟨-, hf, -⟩ := @ionicRxFrags_frame b lif.mtu env d comp
      { s with stats := { s.stats with pkts := s.stats.pkts + 1, bytes := s.stats.bytes + comp.len } }
    split <;> rename_i d' r s' he <;> rw [he] at hR hf <;> simp only at hR hf
    · rw [hf]; simpa using hR
    · rw [hf]; exact hR

theorem RxState.RefsOk.service (hord : b.orderPos = false) {c : RxqCfg} {lif : RxLif} {comp : RxComp} {s : RxState}
    (h : s.RefsOk c.ring.numDescs K) : (ionicRxService b c lif env comp s).2.RefsOk c.ring.numDescs K := by
  unfold ionicRxService
  split
  · exact h
  split
  · exact h
  split
  · exact h
  dsimp only
  have h₀ : Function.update (slotBufs s.q.info) s.q.tailIdx (s.q.info s.q.tailIdx).bufs = slotBufs s.q.info :=
    Function.update_eq_self _ _
  have hR := @RefInv.clean b env c.ring.numDescs K s.q.tailIdx (slotBufs s.q.info) hord c lif (s.q.info s.q.tailIdx)
    comp { s with q := { s.q with tailIdx := c.ring.next s.q.tailIdx } } (by rw [h₀]; exact h)
  rcases hc : ionicRxClean b c lif env (s.q.info s.q.tailIdx) comp
    { s with q := { s.q with tailIdx := c.ring.next s.q.tailIdx } } with ⟨d, s'⟩
  have hq := @ionicRxClean_q b env c lif (s.q.info s.q.tailIdx) comp
    { s with q := { s.q with tailIdx := c.ring.next s.q.tailIdx } }
  rw [hc] at hR hq
  show RefInv c.ring.numDescs K (slotBufs (Function.update s'.q.info s.q.tailIdx d)) s'.frags s'.refs
  rw [slotBufs_update, hq]
  exact hR

end Clean

/-! ## Teardown and the stack -/

section Empty

variable {b : RxBuild} {N K t : Nat} {B : Nat → Nat → RxBufInfo} {fs : List RxFrag}

theorem bufHolds_of_none {bi : RxBufInfo} (h : bi.page = none) (p : Nat) : bufHolds p bi = 0 := by
  simp [bufHolds, h]

/-- `ionic_rx_page_free` in a build with `IONIC_PAGE_ORDER = 0` drops the buffer's one reference. -/
theorem ionicRxPageFree_refs (hord : b.orderPos = false) {bi : RxBufInfo} {s : RxState} {bi' : RxBufInfo}
    {s' : RxState} (h : ionicRxPageFree b bi s = (bi', s')) (q : Nat) : s'.refs q = s.refs q - bufHolds q bi := by
  unfold ionicRxPageFree at h
  split at h
  · rename_i hp
    cases h
    rw [bufHolds_of_none hp, Nat.cast_zero, sub_zero]
  · rename_i p hp
    simp only [hord, Bool.false_and, Bool.false_eq_true, ↓reduceIte, Prod.mk.injEq] at h
    obtain ⟨-, rfl⟩ := h
    simp only [RxState.putPage, Function.update_apply, bufHolds, hp, Option.some.injEq]
    split_ifs <;> subst_vars <;> push_cast <;> omega

/-- One pass of the inner loop of `ionic_rx_empty`. -/
theorem RefInv.pageFree (hord : b.orderPos = false) {ds : RxDescInfo × RxState}
    (h : RefInv N K (Function.update B t ds.1.bufs) fs ds.2.refs) (j : Nat) :
    RefInv N K (Function.update B t (ionicRxEmptyBuf b ds j).1.bufs) fs (ionicRxEmptyBuf b ds j).2.refs := by
  have hB : Function.update B t ds.1.bufs t j = ds.1.bufs j := by rw [Function.update_same]
  rcases hf : ionicRxPageFree b (ds.1.bufs j) ds.2 with ⟨bi, s'⟩
  obtain ⟨hnone, -⟩ := ionicRxPageFree_spec hf
  simp only [ionicRxEmptyBuf, hf]
  rw [update_updateBuf]
  cases hp : (ds.1.bufs j).page with
  | none =>
    simp only [ionicRxPageFree, hp, Prod.mk.injEq] at hf
    obtain ⟨rfl, rfl⟩ := hf
    rwa [← hB, updateBuf_self]
  | some p =>
    obtain ⟨hi, hk⟩ := h.inside t j (by rw [hB, hp]; rfl)
    refine h.update hi hk fun q => ?_
    rw [ionicRxPageFree_refs hord hf q, hB, bufHolds_of_none hnone]
    push_cast
    omega

theorem RefInv.emptyBufs (hord : b.orderPos = false) :
    ∀ (js : List Nat) {ds : RxDescInfo × RxState}, RefInv N K (Function.update B t ds.1.bufs) fs ds.2.refs →
      RefInv N K (Function.update B t (js.foldl (ionicRxEmptyBuf b) ds).1.bufs) fs (js.foldl (ionicRxEmptyBuf b) ds).2.refs
  | [], _, h => h
  | j :: js, _, h => RefInv.emptyBufs hord js (h.pageFree hord j)

theorem ionicRxEmptyBufs_frags : ∀ (js : List Nat) (ds : RxDescInfo × RxState),
    (js.foldl (ionicRxEmptyBuf b) ds).2.frags = ds.2.frags
  | [], _ => rfl
  | j :: js, ds => by
    rw [List.foldl_cons, ionicRxEmptyBufs_frags js]
    rcases hf : ionicRxPageFree b (ds.1.bufs j) ds.2 with ⟨bi, s'⟩
    simp only [ionicRxEmptyBuf, hf]
    exact (ionicRxPageFree_spec hf).2.2.1

theorem RxState.RefsOk.emptySlot (hord : b.orderPos = false) {s : RxState} (h : s.RefsOk N K) (i : Nat) :
    (ionicRxEmptySlot b s i).RefsOk N K := by
  have h₀ : Function.update (slotBufs s.q.info) i (s.q.info i).bufs = slotBufs s.q.info := Function.update_eq_self _ _
  have hR := @RefInv.emptyBufs b N K i (slotBufs s.q.info) s.frags hord (List.range (b.maxSgElems + 1)) (s.q.info i, s)
    (by rw [h₀]; exact h)
  obtain ⟨hq, -⟩ := @ionicRxEmptyBufs_page b (List.range (b.maxSgElems + 1)) (s.q.info i, s)
  have hf := @ionicRxEmptyBufs_frags b (List.range (b.maxSgElems + 1)) (s.q.info i, s)
  unfold ionicRxEmptySlot ionicRxEmptyBufs
  rcases he : List.foldl (ionicRxEmptyBuf b) (s.q.info i, s) (List.range (b.maxSgElems + 1)) with ⟨d, s'⟩
  rw [he] at hR hq hf
  show RefInv N K (slotBufs (Function.update s'.q.info i { d with nbufs := 0 })) s'.frags s'.refs
  rw [slotBufs_update, hq, hf]
  exact hR

theorem RxState.RefsOk.empty (hord : b.orderPos = false) {c : RxqCfg} {s : RxState} (h : s.RefsOk N K) :
    (ionicRxEmpty b c s).RefsOk N K := by
  show ((List.range c.ring.numDescs).foldl (ionicRxEmptySlot b) s).RefsOk N K
  induction List.range c.ring.numDescs generalizing s with
  | nil => exact h
  | cons i is ih => exact ih (h.emptySlot hord i)

/-- The fragments of `f`'s page in `fs` are those left once `f` is taken out, and `f`. -/
theorem fragCount_erase {fs : List RxFrag} {f : RxFrag} (hf : f ∈ fs) (p : Nat) :
    fragCount fs p = fragCount (fs.erase f) p + if f.page = p then 1 else 0 := by
  rw [fragCount, ((List.perm_cons_erase hf).map RxFrag.page).count_eq p, List.map_cons, List.count_cons]
  simp only [fragCount, beq_iff_eq]

/-- The stack frees fragment `f` and its reference. -/
theorem RxState.RefsOk.stackFree {s : RxState} (h : s.RefsOk N K) (f : RxFrag) : (s.stackFree f).RefsOk N K := by
  unfold RxState.stackFree
  split
  · rename_i hf
    refine h.frame fun p => ?_
    rw [fragCount_erase hf p]
    simp only [RxState.putPage, Function.update_apply]
    split_ifs <;> subst_vars <;> push_cast <;> omega
  · exact h

end Empty

/-! ## Along the runs -/

/-- Two runs of a build with `IONIC_PAGE_ORDER > 0`, 8 KiB pages split in 2 KiB parts, on a ring of
two slots. With an MTU of 1500 the fill gives a new page three advance references; a 1000-byte
packet lands in it, the page is not reusable, and `ionic_rx_frags` unmaps it and drops it from its
buffer without giving the three back: once the stack has freed the packet, no buffer holds the
page, no fragment uses it, nothing maps it, and three references remain. With an MTU of 3000 and
reusable pages the fill takes one advance reference (two splits of 4 KiB), but a 1000-byte packet
moves the offset by 2 KiB only: the second packet in the page takes `pagecnt_bias` below zero, to
65535, and once the stack has freed the page's two fragments its count is 0 while slot 0 still
holds it and has it posted to the device. -/
theorem ionicRxFrags_page_refs_unbalanced :
    let b : RxBuild := ⟨true, 8192, 2048, 3000, 8, 16, by decide, by decide⟩
    let c : RxqCfg := ⟨⟨2, 1, rfl⟩, 0, 2, false⟩
    let leak := (ionicRxService b c { mtu := 1500, rxCopybreak := 256 } ⟨fun _ => true, fun p => 4096 * (p + 1),
      fun _ => false, true, []⟩ { len := 1000 } (ionicRxFill b c { mtu := 1500, rxCopybreak := 256 } ⟨fun _ => true,
        fun p => 4096 * (p + 1), fun _ => false, true, []⟩ (RxState.init 0))).2
    let leak' := leak.stackFree ⟨0, 0, 1000⟩
    let lif : RxLif := { mtu := 3000, rxCopybreak := 256 }
    let env : RxEnv := ⟨fun _ => true, fun p => 4096 * (p + 1), fun _ => true, true, []⟩
    let round (t : Nat) (s : RxState) : RxState :=
      ionicRxFill b c lif env (ionicRxService b c lif env { len := 1000, compIndex := t } s).2
    let wrap := round 1 (round 0 (round 1 (round 0 (ionicRxFill b c lif env (RxState.init 0)))))
    let wrap' := (wrap.stackFree ⟨0, 0, 1000⟩).stackFree ⟨0, 2048, 1000⟩
    ((leak.refs 0, leak.frags.length, leak'.refs 0, leak'.frags.length, leak'.dma.live) = (4, 1, 3, 0, []) ∧
      ∀ i < 2, ∀ k < 9, ((leak'.q.info i).bufs k).page ≠ some 0) ∧
    (((wrap.q.info 0).bufs 0).pagecntBias, wrap.refs 0, wrap'.refs 0, ((wrap'.q.info 0).bufs 0).page,
      decide (c.ring.InWindow wrap'.q.headIdx wrap'.q.tailIdx 0)) = (65535, 2, 0, some 0, true) := by
  decide

/-- A build with `IONIC_PAGE_ORDER > 0`, 8 KiB pages split in 2 KiB parts, an MTU of 3000 and a ring
of two slots. Two 1000-byte packets land in the page of slot 0's buffer and take `pagecnt_bias`
below zero; slot 1's page is not reusable and is dropped. Once the stack frees the two packets, the
page's count is 0 while slot 0 still holds it, and `alloc_pages` hands it to slot 1's buffer. Two
more packets follow, one in each slot, and the fill posts slot 1 again from offset 2048 of the
page: its region `[2048, 5066)` covers byte 4096, which belongs to the packet slot 0 handed up
from that page and the stack still holds. -/
theorem rxReach_posted_region_overlaps_frag :
    let b : RxBuild := ⟨true, 8192, 2048, 3000, 8, 16, by decide, by decide⟩
    let c : RxqCfg := ⟨⟨2, 1, rfl⟩, 0, 2, false⟩
    let lif : RxLif := { mtu := 3000, rxCopybreak := 256 }
    let env : RxEnv := ⟨fun _ => true, fun p => 4096 * (p + 1), fun _ => true, true, []⟩
    let svc (e : RxEnv) (t : Nat) (s : RxState) : RxState :=
      (ionicRxService b c lif e { len := 1000, compIndex := t } s).2
    let wrap := ((svc env 0 (ionicRxFill b c lif env (svc { env with reusable := fun _ => false } 1
      (ionicRxFill b c lif env (svc env 0 (ionicRxFill b c lif env (RxState.init 0))))))).stackFree
        ⟨0, 0, 1000⟩).stackFree ⟨0, 2048, 1000⟩
    let s := ionicRxFill b c lif env (svc env 0 (ionicRxFill b c lif env (svc env 1
      (ionicRxFill b c lif { env with freePages := [0] } wrap))))
    RxReach b c s ∧ wrap.refs 0 = 0 ∧ ((wrap.q.info 0).bufs 0).page = some 0 ∧
      c.ring.InWindow s.q.headIdx s.q.tailIdx 1 ∧ 0 < (s.q.info 1).nbufs ∧ ((s.q.info 1).bufs 0).page = some 0 ∧
      ⟨0, 4096, 1000⟩ ∈ s.frags ∧
      ((s.q.info 1).bufs 0).pageOffset ≤ 4096 ∧ 4096 < ((s.q.info 1).bufs 0).pageOffset + postedLen (s.q.info 1) 0 := by
  dsimp only
  refine ⟨.fill _ _ (.service _ _ _ (.fill _ _ (.service _ _ _ (.fill _ _ (.stackFree _ (.stackFree _
    (.service _ _ _ (.fill _ _ (.service _ _ _ (.fill _ _ (.service _ _ _ (.fill _ _ .init)))))))))))), ?_⟩
  decide

end IonicTxrx
