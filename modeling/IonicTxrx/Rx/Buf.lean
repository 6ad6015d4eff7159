import IonicTxrx.Rx.Types

/-!
# Receive buffers

`ionic_rx_page_alloc`, `ionic_rx_page_free`, `ionic_rx_buf_recycle`, `ionic_rx_frags` and
`ionic_rx_copybreak`. A buffer holds one page, DMA-mapped whole, and hands the device the part
from `page_offset` on. `skb_add_rx_frag` gives the skb the driver's reference to the page; a
buffer that keeps its page afterwards takes a new one, with `get_page`, or, when
`IONIC_PAGE_ORDER > 0`, from the references `pagecnt_bias` holds in advance.

The `!buf_info` checks of `ionic_rx_page_alloc` and `ionic_rx_page_free` never fire: every
caller passes an entry of `desc_info->bufs`.
-/

namespace IonicTxrx

/-- `alloc_pages` (the kernel's, outside this repository) hands out a page nothing references:
one handed out before whose count has dropped to zero, the first such of `env.freePages`, or
else a page never handed out. -/
def RxEnv.allocPage (env : RxEnv) (s : RxState) : Nat :=
  (env.freePages.find? fun p => decide (p < s.nextPage ∧ s.refs p = 0)).getD s.nextPage

/-- The page `alloc_pages` hands out is never used before, or was handed out and has no
reference left. -/
theorem RxEnv.allocPage_cases (env : RxEnv) (s : RxState) :
    env.allocPage s = s.nextPage ∨ env.allocPage s < s.nextPage ∧ s.refs (env.allocPage s) = 0 := by
  unfold RxEnv.allocPage
  cases h : env.freePages.find? fun p => decide (p < s.nextPage ∧ s.refs p = 0) with
  | none => exact .inl rfl
  | some p =>
    have hp := List.find?_some h
    exact .inr (of_decide_eq_true hp)

/-- `ionic_rx_page_alloc` into `bi`: `0`, `-ENOMEM` or `-EIO`. A page that fails to map is given
back with `__free_pages` before anyone else sees it. -/
def ionicRxPageAlloc (b : RxBuild) (env : RxEnv) (bi : RxBufInfo) (s : RxState) :
    Int × RxBufInfo × RxState :=
  let p := env.allocPage s
  if !env.allocOk p then (enomem, bi, { s with stats := { s.stats with allocErr := s.stats.allocErr + 1 } })
  else
    let bi := { bi with dmaAddr := env.mapPage p }
    if dmaMappingError bi.dmaAddr then
      (eio, bi, { s with nextPage := max s.nextPage (p + 1),
                         stats := { s.stats with dmaMapErr := s.stats.dmaMapErr + 1 } })
    else
      (0, { bi with page := some p, pageOffset := 0, pagecntBias := if b.orderPos then 0 else bi.pagecntBias },
        { s with nextPage := max s.nextPage (p + 1), refs := Function.update s.refs p 1, dma := s.dma.map bi.dmaAddr })

/-- `ionic_rx_page_alloc` leaves the ring and the fragments alone. It gives the buffer the page
`alloc_pages` hands out, at offset 0 and with one reference, or fails, gives it none and changes
no count. -/
theorem ionicRxPageAlloc_spec {b : RxBuild} {env : RxEnv} {bi : RxBufInfo} {s : RxState} {r : Int}
    {bi' : RxBufInfo} {s' : RxState} (h : ionicRxPageAlloc b env bi s = (r, bi', s')) :
    s'.q = s.q ∧ s'.frags = s.frags ∧ s.nextPage ≤ s'.nextPage ∧
      (r = 0 ∧ bi'.page = some (env.allocPage s) ∧ bi'.pageOffset = 0 ∧
          s'.nextPage = max s.nextPage (env.allocPage s + 1) ∧ s'.refs = Function.update s.refs (env.allocPage s) 1 ∨
        r ≠ 0 ∧ bi'.page = bi.page ∧ s'.refs = s.refs) := by
  unfold ionicRxPageAlloc at h
  dsimp only at h
  split_ifs at h <;> simp only [Prod.mk.injEq] at h <;> obtain ⟨rfl, rfl, rfl⟩ := h
  · exact ⟨rfl, rfl, le_rfl, .inr ⟨by decide, rfl, rfl⟩⟩
  · exact ⟨rfl, rfl, le_max_left _ _, .inr ⟨by decide, rfl, rfl⟩⟩
  all_goals exact ⟨rfl, rfl, le_max_left _ _, .inl ⟨rfl, rfl, rfl, rfl, rfl⟩⟩

/-- `ionic_rx_page_free` of `bi`: unmap the page, drop the references `pagecnt_bias` still holds,
and free the driver's own. -/
def ionicRxPageFree (b : RxBuild) (bi : RxBufInfo) (s : RxState) : RxBufInfo × RxState :=
  match bi.page with
  | none => (bi, s)
  | some p =>
    let s := { s with dma := s.dma.unmap bi.dmaAddr }
    let s := if b.orderPos && bi.pagecntBias != 0 then s.pageRefSub p bi.pagecntBias else s
    ({ bi with page := none }, s.putPage p)

/-- `ionic_rx_page_free` leaves the buffer without a page, and the ring and the fragments alone. -/
theorem ionicRxPageFree_spec {b : RxBuild} {bi : RxBufInfo} {s : RxState} {bi' : RxBufInfo} {s' : RxState}
    (h : ionicRxPageFree b bi s = (bi', s')) :
    bi'.page = none ∧ s'.q = s.q ∧ s'.frags = s.frags ∧ s'.nextPage = s.nextPage := by
  unfold ionicRxPageFree at h
  split at h
  · rename_i hp; cases h; exact ⟨hp, rfl, rfl, rfl⟩
  · simp only [Prod.mk.injEq] at h
    obtain ⟨rfl, rfl⟩ := h
    refine ⟨rfl, ?_, ?_, ?_⟩ <;> split <;> rfl

/-- `ionic_rx_buf_recycle(q, buf_info, used)` for a buffer holding page `p`, `reusable` being
`dev_page_is_reusable(p)`: whether the buffer keeps its page, moved past the `used` bytes just
handed up. -/
def ionicRxBufRecycle (b : RxBuild) (mtu : Nat) (reusable : Bool) (p : Nat) (bi : RxBufInfo) (used : Nat)
    (s : RxState) : Bool × RxBufInfo × RxState :=
  if !reusable then (false, bi, s)
  else if mtu > b.splitMaxMtu then (false, bi, s)
  else
    let bi := { bi with pageOffset := bi.pageOffset + align used b.splitSz }
    if bi.pageOffset ≥ b.pageSize then (false, bi, s)
    else if b.orderPos then
      (true, { bi with pagecntBias := b.biasDec bi.pagecntBias }, s)
    else (true, bi, s.getPage p)

/-- `ionic_rx_buf_recycle` changes neither the buffer's page nor its mapping, and the state only
through `get_page`; a buffer it keeps has moved past the bytes handed up and stays inside the
page. -/
theorem ionicRxBufRecycle_spec {b : RxBuild} {mtu : Nat} {reusable : Bool} {p : Nat} {bi : RxBufInfo}
    {used : Nat} {s : RxState} {keep : Bool} {bi' : RxBufInfo} {s' : RxState}
    (h : ionicRxBufRecycle b mtu reusable p bi used s = (keep, bi', s')) :
    s'.q = s.q ∧ s'.frags = s.frags ∧ s'.nextPage = s.nextPage ∧ bi'.page = bi.page ∧ bi'.dmaAddr = bi.dmaAddr ∧
      (keep = true → bi'.pageOffset = bi.pageOffset + align used b.splitSz ∧ bi'.pageOffset < b.pageSize) := by
  unfold ionicRxBufRecycle at h
  dsimp only at h
  split_ifs at h with h1 h2 h3 h4 <;> simp only [Prod.mk.injEq] at h <;> obtain ⟨rfl, rfl, rfl⟩ := h
  · exact ⟨rfl, rfl, rfl, rfl, rfl, fun h => absurd h Bool.false_ne_true⟩
  · exact ⟨rfl, rfl, rfl, rfl, rfl, fun h => absurd h Bool.false_ne_true⟩
  · exact ⟨rfl, rfl, rfl, rfl, rfl, fun h => absurd h Bool.false_ne_true⟩
  · exact ⟨rfl, rfl, rfl, rfl, rfl, fun _ => ⟨rfl, not_le.mp h3⟩⟩
  · exact ⟨rfl, rfl, rfl, rfl, rfl, fun _ => ⟨rfl, not_le.mp h3⟩⟩

/-- The `do ... while` loop of `ionic_rx_frags` from `bufs[k]`, with `i` buffers to go, `len`
bytes left and the fragments `skb` attached so far: the slot after, and the fragments of the
skb, or `none` when a buffer had no page and the skb was freed. A buffer that is not recycled
is unmapped and loses its page. -/
def ionicRxFragsLoop (b : RxBuild) (mtu : Nat) (env : RxEnv) :
    Nat → Nat → Nat → RxDescInfo → List RxFrag → RxState → RxDescInfo × Option (List RxFrag) × RxState
  | 0, _, _, d, skb, s => (d, some skb, s)
  | i + 1, k, len, d, skb, s =>
    match (d.bufs k).page with
    | none => (d, none, s.putFrags skb)
    | some p =>
      let bi := d.bufs k
      let fragLen := min len (b.room bi.pageOffset)
      let skb := skb ++ [⟨p, bi.pageOffset, fragLen⟩]
      let (keep, bi', s) := ionicRxBufRecycle b mtu (env.reusable p) p bi fragLen s
      let (bi', s) := if keep then (bi', s) else ({ bi' with page := none }, { s with dma := s.dma.unmap bi.dmaAddr })
      ionicRxFragsLoop b mtu env i (k + 1) (len - fragLen) { d with bufs := Function.update d.bufs k bi' } skb s

/-- `ionic_rx_frags`: attach `bufs[0 .. num_sg_elems]` to a fresh skb, `comp->len` bytes in
all. -/
def ionicRxFrags (b : RxBuild) (mtu : Nat) (env : RxEnv) (d : RxDescInfo) (comp : RxComp) (s : RxState) :
    RxDescInfo × Option (List RxFrag) × RxState :=
  if !env.skbOk then (d, none, { s with stats := { s.stats with allocErr := s.stats.allocErr + 1 } })
  else ionicRxFragsLoop b mtu env (comp.numSgElems + 1) 0 comp.len d [] s

/-- `ionic_rx_copybreak`: copy `comp->len` bytes of `bufs[0]`'s page, from its `page_offset`, into
a fresh skb; `bufs[0]` keeps its page. The bytes synced and copied, when an skb was built. -/
def ionicRxCopybreak (env : RxEnv) (d : RxDescInfo) (comp : RxComp) (s : RxState) : Option RxFrag × RxState :=
  if !env.skbOk then (none, { s with stats := { s.stats with allocErr := s.stats.allocErr + 1 } })
  else ((d.bufs 0).page.map fun p => ⟨p, (d.bufs 0).pageOffset, comp.len⟩, s)

end IonicTxrx
