import IonicTxrx.Rx.Clean

/-!
# Filling and emptying the receive ring

`ionic_rx_fill` posts every free slot with enough buffers for `mtu + ETH_HLEN + VLAN_HLEN` bytes:
`bufs[0]` in the descriptor and `bufs[1 + j]` in SG element `j`, at most `q->max_sg_elems` of
them, each buffer offering the rest of its page from `page_offset`. A buffer without a page gets
one; when `IONIC_PAGE_ORDER > 0` it also takes `pagecnt_bias = nsplits - 1` references in
advance. A failed allocation ends the fill at once: the slot is not posted and no doorbell is
rung. `ionic_rx_empty` frees the page of every buffer and resets the cursors. The doorbell
deadline and NAPI timer `ionic_rx_fill` arms are added in `Rx/Doorbell` (`ionicRxFillTimed`).
-/

namespace IonicTxrx

/-- The advance references a page new to a buffer takes when `IONIC_PAGE_ORDER > 0`:
`pagecnt_bias = nsplits - 1`, and `page_ref_add` of as many. -/
def ionicRxTakeBias (b : RxBuild) (nsplits : Nat) (bi : RxBufInfo) (s : RxState) : RxBufInfo × RxState :=
  if b.orderPos then
    let bi := { bi with pagecntBias := b.splitBias nsplits }
    (bi, if bi.pagecntBias ≠ 0 then bi.page.elim s fun p => s.pageRefAdd p bi.pagecntBias else s)
  else (bi, s)

/-- Taking the advance references changes the buffer's bias and page counts only. -/
theorem ionicRxTakeBias_spec (b : RxBuild) (ns : Nat) (bi : RxBufInfo) (s : RxState) :
    (ionicRxTakeBias b ns bi s).1.page = bi.page ∧ (ionicRxTakeBias b ns bi s).1.pageOffset = bi.pageOffset ∧
      (ionicRxTakeBias b ns bi s).1.dmaAddr = bi.dmaAddr ∧ (ionicRxTakeBias b ns bi s).2.q = s.q ∧
      (ionicRxTakeBias b ns bi s).2.frags = s.frags ∧ (ionicRxTakeBias b ns bi s).2.nextPage = s.nextPage := by
  unfold ionicRxTakeBias
  by_cases ho : b.orderPos = true
  · rw [if_pos ho]
    dsimp only
    by_cases hz : b.splitBias ns ≠ 0
    · rw [if_pos hz]
      cases bi.page <;> exact ⟨rfl, rfl, rfl, rfl, rfl, rfl⟩
    · rw [if_neg hz]
      exact ⟨rfl, rfl, rfl, rfl, rfl, rfl⟩
  · rw [if_neg ho]
    exact ⟨rfl, rfl, rfl, rfl, rfl, rfl⟩

/-- The advance references go to the buffer's own page, and to no other. -/
theorem ionicRxTakeBias_refs (b : RxBuild) (ns : Nat) (bi : RxBufInfo) (s : RxState) (q : Nat) :
    s.refs q ≤ (ionicRxTakeBias b ns bi s).2.refs q ∧
      (bi.page ≠ some q → (ionicRxTakeBias b ns bi s).2.refs q = s.refs q) := by
  unfold ionicRxTakeBias
  dsimp only
  split_ifs
  · cases hp : bi.page with
    | none => exact ⟨le_rfl, fun _ => rfl⟩
    | some p =>
      simp only [hp, Option.elim, RxState.pageRefAdd, ne_eq, Option.some.injEq]
      by_cases hq : q = p
      · subst hq; simp
      · simp [Function.update_noteq hq, hq]
  all_goals exact ⟨le_rfl, fun _ => rfl⟩

/-- The buffer step of `ionic_rx_fill`: a buffer without a page gets one, with its advance
references. Whether the buffer has a page after. -/
def ionicRxFillBuf (b : RxBuild) (env : RxEnv) (nsplits : Nat) (bi : RxBufInfo) (s : RxState) :
    Bool × RxBufInfo × RxState :=
  match bi.page with
  | some _ => (true, bi, s)
  | none =>
    let (r, bi, s) := ionicRxPageAlloc b env bi s
    if r ≠ 0 then (false, bi, s)
    else
      let (bi, s) := ionicRxTakeBias b nsplits bi s
      (true, bi, s)

/-- The buffer step keeps a buffer that has a page. -/
theorem ionicRxFillBuf_of_page {b : RxBuild} {env : RxEnv} {ns : Nat} {bi : RxBufInfo} {s : RxState} {p : Nat}
    (h : bi.page = some p) : ionicRxFillBuf b env ns bi s = (true, bi, s) := by
  unfold ionicRxFillBuf
  rw [h]

/-- The buffer step on a buffer without a page leaves the ring and the fragments alone, and gives
the buffer the page `alloc_pages` hands out, at offset 0 and referenced, or no page; no other
page's count changes. -/
theorem ionicRxFillBuf_of_none {b : RxBuild} {env : RxEnv} {ns : Nat} {bi : RxBufInfo} {s : RxState}
    (h : bi.page = none) {ok : Bool} {bi' : RxBufInfo} {s' : RxState}
    (hf : ionicRxFillBuf b env ns bi s = (ok, bi', s')) :
    s'.q = s.q ∧ s'.frags = s.frags ∧ s.nextPage ≤ s'.nextPage ∧
      (ok = true ∧ bi'.page = some (env.allocPage s) ∧ bi'.pageOffset = 0 ∧
          s'.nextPage = max s.nextPage (env.allocPage s + 1) ∧ s'.refs (env.allocPage s) ≠ 0 ∧
          (∀ q, q ≠ env.allocPage s → s'.refs q = s.refs q) ∨
        ok = false ∧ bi'.page = none ∧ s'.refs = s.refs) := by
  unfold ionicRxFillBuf at hf
  rw [h] at hf
  rcases ha : ionicRxPageAlloc b env bi s with ⟨r, bi₁, s₁⟩
  obtain ⟨hq, hfr, hle, hr⟩ := ionicRxPageAlloc_spec ha
  rw [ha] at hf
  dsimp only at hf
  rcases hr with ⟨rfl, hp, ho, hn, hrefs⟩ | ⟨hr, hp, hrefs⟩
  · rw [if_neg (not_not.mpr rfl)] at hf
    obtain ⟨hp', ho', -, hq', hfr', hn'⟩ := ionicRxTakeBias_spec b ns bi₁ s₁
    have hb := ionicRxTakeBias_refs b ns bi₁ s₁
    simp only [Prod.mk.injEq] at hf
    obtain ⟨rfl, rfl, rfl⟩ := hf
    refine ⟨hq'.trans hq, hfr'.trans hfr, hle.trans_eq hn'.symm,
      .inl ⟨rfl, hp'.trans hp, ho'.trans ho, hn'.trans hn, ?_, fun q hq => ?_⟩⟩
    · -- the driver's reference, and any advance ones
      have := (hb (env.allocPage s)).1
      rw [hrefs, Function.update_same] at this
      omega
    · rw [(hb q).2 (by rw [hp]; exact fun e => hq (Option.some.inj e).symm), hrefs, Function.update_noteq hq]
  · rw [if_pos hr] at hf
    simp only [Prod.mk.injEq] at hf
    obtain ⟨rfl, rfl, rfl⟩ := hf
    exact ⟨hq, hfr, hle, .inr ⟨rfl, hp.trans h, hrefs⟩⟩

/-- The buffer step leaves the ring and the fragments alone; the buffer keeps what it had, ends
without a page, or gets the page `alloc_pages` hands out, at offset 0 and referenced. -/
theorem ionicRxFillBuf_cases {b : RxBuild} {env : RxEnv} {ns : Nat} {bi : RxBufInfo} {s : RxState} {ok : Bool}
    {bi' : RxBufInfo} {s' : RxState} (h : ionicRxFillBuf b env ns bi s = (ok, bi', s')) :
    s'.q = s.q ∧ s'.frags = s.frags ∧ s.nextPage ≤ s'.nextPage ∧
      (bi' = bi ∧ s' = s ∨ bi'.page = none ∧ s'.refs = s.refs ∨
        bi.page = none ∧ bi'.page = some (env.allocPage s) ∧ bi'.pageOffset = 0 ∧
          s'.nextPage = max s.nextPage (env.allocPage s + 1) ∧ s'.refs (env.allocPage s) ≠ 0 ∧
          ∀ q, q ≠ env.allocPage s → s'.refs q = s.refs q) := by
  cases hp : bi.page with
  | some p =>
    rw [ionicRxFillBuf_of_page hp, Prod.mk.injEq, Prod.mk.injEq] at h
    obtain ⟨-, rfl, rfl⟩ := h
    exact ⟨rfl, rfl, le_rfl, .inl ⟨rfl, rfl⟩⟩
  | none =>
    obtain ⟨hq, hf, hle, ⟨-, hp', ho, hn, hr, hr'⟩ | ⟨-, hp', hr⟩⟩ := ionicRxFillBuf_of_none hp h
    · exact ⟨hq, hf, hle, .inr (.inr ⟨rfl, hp', ho, hn, hr, hr'⟩)⟩
    · exact ⟨hq, hf, hle, .inr (.inl ⟨hp', hr⟩)⟩

/-- The SG loop of `ionic_rx_fill` from element `j`, `remain` bytes still to place, `fuel` being
`q->max_sg_elems - j`: the number of elements written, or the slot as left by a failed
allocation. -/
def ionicRxFillSg (b : RxBuild) (env : RxEnv) (nsplits : Nat) :
    Nat → Nat → Nat → RxDescInfo → RxState → Except (RxDescInfo × RxState) (Nat × RxDescInfo × RxState)
  | 0, j, _, d, s => .ok (j, d, s)
  | fuel + 1, j, remain, d, s =>
    if remain = 0 then .ok (j, d, s)
    else
      let (ok, bi, s) := ionicRxFillBuf b env nsplits (d.bufs (1 + j)) s
      let d := { d with bufs := Function.update d.bufs (1 + j) bi }
      if !ok then .error ({ d with sgElems := Function.update d.sgElems j (0, 0) }, s)
      else
        let fragLen := min (remain % 2 ^ 16) (b.room bi.pageOffset)
        let d := { d with sgElems := Function.update d.sgElems j (bi.dmaAddr + bi.pageOffset, fragLen) }
        ionicRxFillSg b env nsplits fuel (j + 1) (remain - fragLen) d s

/-- One pass of the loop of `ionic_rx_fill` on slot `d`, for `len` bytes: whether the slot can
be posted, and the slot and state after. -/
def ionicRxFillSlot (b : RxBuild) (c : RxqCfg) (env : RxEnv) (len nsplits : Nat) (d : RxDescInfo)
    (s : RxState) : Bool × RxDescInfo × RxState :=
  let (ok, bi, s) := ionicRxFillBuf b env nsplits (d.bufs 0) s
  let d := { d with bufs := Function.update d.bufs 0 bi }
  if !ok then (false, d, s)
  else
    let fragLen := min (len % 2 ^ 16) (b.room bi.pageOffset)
    match ionicRxFillSg b env nsplits c.maxSgElems 0 (len - fragLen) d s with
    | .error (d, s) => (false, d, s)
    | .ok (j, d, s) =>
      -- clear end sg element as a sentinel
      let d := if j < c.maxSgElems then { d with sgElems := Function.update d.sgElems j (0, 0) } else d
      (true, { d with nbufs := 1 + j,
                      desc := ⟨if 1 + j > 1 then .sg else .simple, bi.dmaAddr + bi.pageOffset, fragLen⟩ }, s)

/-- The loop of `ionic_rx_fill` over `i` free slots: whether it went through, and the state
after. -/
def ionicRxFillLoop (b : RxBuild) (c : RxqCfg) (env : RxEnv) (len nsplits : Nat) : Nat → RxState → Bool × RxState
  | 0, s => (true, s)
  | i + 1, s =>
    let h := s.q.headIdx
    let (ok, d, s) := ionicRxFillSlot b c env len nsplits (s.q.info h) s
    if !ok then (false, s.setInfo h d)
    else ionicRxFillLoop b c env len nsplits i { s with q := ionicQPost c.ring (s.q.setInfo h d) false id }

/-- `ionic_rx_fill`: post every free slot, then ring the doorbell once. -/
def ionicRxFill (b : RxBuild) (c : RxqCfg) (lif : RxLif) (env : RxEnv) (s : RxState) : RxState :=
  let len := lif.mtu + ethHlen + vlanHlen
  let nsplits := b.pageSize / align len b.splitSz
  let (done, s) := ionicRxFillLoop b c env len nsplits (ionicQSpaceAvail c.ring s.q) s
  if done then { s with q := { s.q with dbell := some s.q.headIdx } } else s

/-- One pass of the inner loop of `ionic_rx_empty`: free the page of `bufs[j]`. -/
def ionicRxEmptyBuf (b : RxBuild) (ds : RxDescInfo × RxState) (j : Nat) : RxDescInfo × RxState :=
  let (bi, s) := ionicRxPageFree b (ds.1.bufs j) ds.2
  ({ ds.1 with bufs := Function.update ds.1.bufs j bi }, s)

/-- The inner loop of `ionic_rx_empty` over `bufs[0 .. IONIC_RX_MAX_SG_ELEMS]` of one slot. -/
def ionicRxEmptyBufs (b : RxBuild) (d : RxDescInfo) (s : RxState) : RxDescInfo × RxState :=
  (List.range (b.maxSgElems + 1)).foldl (ionicRxEmptyBuf b) (d, s)

/-- One pass of the outer loop of `ionic_rx_empty`: empty slot `i`. -/
def ionicRxEmptySlot (b : RxBuild) (s : RxState) (i : Nat) : RxState :=
  let (d, s) := ionicRxEmptyBufs b (s.q.info i) s
  s.setInfo i { d with nbufs := 0 }

/-- `ionic_rx_empty`: free the pages of every slot, then reset the cursors. -/
def ionicRxEmpty (b : RxBuild) (c : RxqCfg) (s : RxState) : RxState :=
  let s := (List.range c.ring.numDescs).foldl (ionicRxEmptySlot b) s
  { s with q := { s.q with headIdx := 0, tailIdx := 0 } }

end IonicTxrx
