import IonicTxrx.Rx.Fill

/-!
# Where the fragments of a packet come from

`ionic_rx_fill` offers the device, in each buffer of a slot, the rest of the buffer's page from
`page_offset`, as much of it as the remaining length needs (`min_t(u16, remain_len, ..)`), so
the posted lengths are the first `mtu + ETH_HLEN + VLAN_HLEN` bytes cut greedily over the pages'
room. `ionic_rx_frags` cuts `comp->len` over the same rooms with the same rule, but over
`num_sg_elems + 1` buffers, a count the device writes. When that count does not pass the posted
buffers, the fragments are the first `comp->len` bytes of the posted regions
(`ionicRxFrags_posted_prefix`), as long as `comp->len` fits them. A count past the posted buffers
makes `ionic_rx_frags` read buffers the fill did not post, and a count below them hands up a
packet cut short at the last buffer it reads (`ionicRxService_trusts_num_sg_elems`).
-/

namespace IonicTxrx

/-- The first `n` bytes of regions of `caps` bytes, in order: how many fall in each region. -/
def greedyCut : Nat → List Nat → List Nat
  | _, [] => []
  | n, cap :: caps => min n cap :: greedyCut (n - min n cap) caps

@[simp] theorem greedyCut_nil (n : Nat) : greedyCut n [] = [] := rfl

@[simp] theorem greedyCut_cons (n cap : Nat) (caps : List Nat) :
    greedyCut n (cap :: caps) = min n cap :: greedyCut (n - min n cap) caps := rfl

theorem greedyCut_sum (n : Nat) (caps : List Nat) : (greedyCut n caps).sum = min n caps.sum := by
  induction caps generalizing n with
  | nil => simp
  | cons cap caps ih => simp only [greedyCut_cons, List.sum_cons, ih]; omega

/-- Cutting `m` bytes over the first `n ≥ m` bytes of the regions is cutting them over the
regions. -/
theorem greedyCut_greedyCut {m n : Nat} (h : m ≤ n) (caps : List Nat) :
    greedyCut m (greedyCut n caps) = greedyCut m caps := by
  induction caps generalizing m n with
  | nil => rfl
  | cons cap caps ih =>
    simp only [greedyCut_cons, List.cons.injEq]
    exact ⟨by omega, by rw [show min m (min n cap) = min m cap by omega]; exact ih (by omega)⟩

theorem greedyCut_take (n a : Nat) (caps : List Nat) : greedyCut n (caps.take a) = (greedyCut n caps).take a := by
  induction caps generalizing n a with
  | nil => simp
  | cons cap caps ih => cases a <;> simp [ih]

/-- The length buffer `k` of slot `d` offers the device: the descriptor's for `bufs[0]`, SG
element `k - 1`'s for the others. -/
def postedLen (d : RxDescInfo) (k : Nat) : Nat := if k = 0 then d.desc.len else (d.sgElems (k - 1)).2

/-- The DMA address where the region of buffer `k` of slot `d` starts. -/
def postedAddr (d : RxDescInfo) (k : Nat) : Nat := if k = 0 then d.desc.addr else (d.sgElems (k - 1)).1

/-- The room `min_t` sees in buffers `ks` of slot `d`. -/
def RxBuild.rooms (b : RxBuild) (d : RxDescInfo) (ks : List Nat) : List Nat :=
  ks.map fun k => b.room (d.bufs k).pageOffset

/-! ## The fill -/

/-- A buffer step that goes through leaves the buffer with a page. -/
theorem ionicRxFillBuf_page {b : RxBuild} {env : RxEnv} {ns : Nat} {bi : RxBufInfo} {s : RxState}
    {bi' : RxBufInfo} {s' : RxState} (h : ionicRxFillBuf b env ns bi s = (true, bi', s')) : bi'.page.isSome := by
  cases hp : bi.page with
  | some p =>
    rw [ionicRxFillBuf_of_page hp, Prod.mk.injEq, Prod.mk.injEq] at h
    rw [← h.2.1, hp]; rfl
  | none =>
    obtain ⟨-, -, -, ⟨-, h', -⟩ | ⟨h', -⟩⟩ := ionicRxFillBuf_of_none hp h
    · rw [h']; rfl
    · cases h'

/-- The SG loop of the fill, from element `j`, writes elements `j .. j' - 1` for buffers
`bufs[1 + j] .. bufs[j']`, each with a page and no longer than the buffer's room, and touches
nothing before; when `remain < 2^16`, their lengths are the greedy cut of `remain` over the
buffers' room. -/
theorem ionicRxFillSg_ok {b : RxBuild} {env : RxEnv} {ns : Nat} :
    ∀ {fuel j remain : Nat} {d : RxDescInfo} {s : RxState} {j' : Nat} {d' : RxDescInfo} {s' : RxState},
      ionicRxFillSg b env ns fuel j remain d s = .ok (j', d', s') →
      j ≤ j' ∧ (∀ k < 1 + j, d'.bufs k = d.bufs k) ∧ (∀ k < j, d'.sgElems k = d.sgElems k) ∧
      (∀ k, j ≤ k → k < j' → ((d'.bufs (1 + k)).page).isSome ∧
        (d'.sgElems k).1 = (d'.bufs (1 + k)).dmaAddr + (d'.bufs (1 + k)).pageOffset ∧
        (d'.sgElems k).2 ≤ b.room (d'.bufs (1 + k)).pageOffset) ∧
      (remain < 2 ^ 16 → (List.range' j (j' - j)).map (fun k => (d'.sgElems k).2) =
        greedyCut remain (b.rooms d' ((List.range' j (j' - j)).map (1 + ·))))
  | 0, j, remain, d, s, j', d', s', h => by
    cases h
    exact ⟨le_rfl, fun _ _ => rfl, fun _ _ => rfl, fun k h1 h2 => absurd h2 (by omega),
      fun _ => by simp [RxBuild.rooms]⟩
  | fuel + 1, j, remain, d, s, j', d', s', h => by
    rw [ionicRxFillSg] at h
    by_cases h0 : remain = 0
    · rw [if_pos h0] at h
      cases h
      exact ⟨le_rfl, fun _ _ => rfl, fun _ _ => rfl, fun k h1 h2 => absurd h2 (by omega),
        fun _ => by simp [RxBuild.rooms]⟩
    rcases hb : ionicRxFillBuf b env ns (d.bufs (1 + j)) s with ⟨ok, bi, s₁⟩
    rw [if_neg h0, hb] at h
    cases ok
    · cases h
    simp only [Bool.not_true, Bool.false_eq_true, ↓reduceIte] at h
    have hpage := ionicRxFillBuf_page hb
    obtain ⟨hj, hbuf, hsg, hpg, hl⟩ := ionicRxFillSg_ok h
    dsimp only at hbuf hsg
    have hb1 := hbuf (1 + j) (by omega)
    have hs1 := hsg j (by omega)
    simp only [Function.update_same] at hb1 hs1
    refine ⟨by omega, fun k hk => by rw [hbuf k (by omega), Function.update_noteq (by omega)],
      fun k hk => by rw [hsg k (by omega), Function.update_noteq (by omega)], fun k hk hk' => ?_, fun hr => ?_⟩
    · rcases Nat.eq_or_lt_of_le hk with rfl | hk
      · rw [hb1, hs1]; exact ⟨hpage, rfl, Nat.min_le_right _ _⟩
      · exact hpg k (by omega) hk'
    · rw [show j' - j = (j' - (j + 1)) + 1 by omega, List.range'_succ, List.map_cons, List.map_cons,
        RxBuild.rooms, List.map_cons, ← RxBuild.rooms, greedyCut_cons, hl (by omega), hs1, hb1,
        Nat.mod_eq_of_lt hr]

/-- A slot the fill posts: `bufs[0 .. nbufs - 1]` hold pages, and each posted region starts at
its buffer's `dma_addr + page_offset` and is no longer than the room `min_t` saw there. When
`len < 2^16`, the posted lengths are the first `len` bytes cut greedily over the buffers'
room. -/
theorem ionicRxFillSlot_posted {b : RxBuild} {c : RxqCfg} {env : RxEnv} {len ns : Nat} {d₀ d : RxDescInfo}
    {s₀ s : RxState} (h : ionicRxFillSlot b c env len ns d₀ s₀ = (true, d, s)) :
    1 ≤ d.nbufs ∧
      (∀ k < d.nbufs, ((d.bufs k).page).isSome ∧ postedAddr d k = (d.bufs k).dmaAddr + (d.bufs k).pageOffset ∧
        postedLen d k ≤ b.room (d.bufs k).pageOffset) ∧
      (len < 2 ^ 16 → (List.range d.nbufs).map (postedLen d) = greedyCut len (b.rooms d (List.range d.nbufs))) := by
  rw [ionicRxFillSlot] at h
  rcases hb : ionicRxFillBuf b env ns (d₀.bufs 0) s₀ with ⟨ok, bi, s₁⟩
  rw [hb] at h
  cases ok
  · cases h
  simp only [Bool.not_true, Bool.false_eq_true, ↓reduceIte] at h
  split at h
  · cases h
  rename_i j' d₂ s₂ hsg
  obtain ⟨-, hbuf, -, hpg, hl⟩ := ionicRxFillSg_ok hsg
  have hb0 : d₂.bufs 0 = bi := by simpa using hbuf 0 (by omega)
  -- the sentinel written after the last element changes neither the buffers nor elements `< j'`
  obtain ⟨d₃, hd₃, hbufs, hsg₃⟩ : ∃ d₃ : RxDescInfo, (if j' < c.maxSgElems then
      { d₂ with sgElems := Function.update d₂.sgElems j' (0, 0) } else d₂) = d₃ ∧ d₃.bufs = d₂.bufs ∧
      ∀ k < j', d₃.sgElems k = d₂.sgElems k := by
    split
    · exact ⟨_, rfl, rfl, fun k hk => Function.update_noteq (by omega) _ _⟩
    · exact ⟨_, rfl, rfl, fun _ _ => rfl⟩
  rw [hd₃, Prod.mk.injEq, Prod.mk.injEq] at h
  obtain ⟨-, rfl, -⟩ := h
  simp only [Nat.sub_zero] at hpg hl
  have hrooms : ∀ ks, b.rooms { d₃ with nbufs := 1 + j', desc := ⟨if 1 + j' > 1 then .sg else .simple,
      bi.dmaAddr + bi.pageOffset, min (len % 2 ^ 16) (b.room bi.pageOffset)⟩ } ks = b.rooms d₂ ks := by
    intro ks; simp only [RxBuild.rooms, hbufs]
  refine ⟨by simp only; omega, fun k hk => ?_, fun hlen => ?_⟩
  · simp only [postedAddr, postedLen, hbufs] at hk ⊢
    rcases k with _ | k
    · rw [hb0]; exact ⟨ionicRxFillBuf_page hb, rfl, Nat.min_le_right _ _⟩
    · simp only [Nat.add_one_ne_zero, ↓reduceIte, Nat.add_sub_cancel, hsg₃ k (by omega)]
      rw [Nat.add_comm]; exact hpg k (Nat.zero_le k) (by omega)
  · rw [Nat.mod_eq_of_lt hlen] at hl
    simp only [hrooms]
    rw [List.range_eq_range', show 1 + j' = j' + 1 by omega, List.range'_succ, Nat.zero_add,
      ← Nat.add_zero 1, ← List.map_add_range', List.map_cons, RxBuild.rooms, List.map_cons, ← RxBuild.rooms,
      greedyCut_cons, hb0, Nat.mod_eq_of_lt hlen, ← hl (by omega), List.map_map]
    refine congrArg _ (List.map_congr_left fun k hk => ?_)
    rw [List.mem_range'_1] at hk
    simp only [Function.comp, postedLen, show 1 + k ≠ 0 by omega, ↓reduceIte, Nat.add_sub_cancel_left,
      hsg₃ k (by omega)]

/-- `min_t(u16, ..)` truncates `IONIC_PAGE_SIZE - page_offset` to 16 bits, so a 64 KiB page offers
no room from offset 0: with 64 KiB pages a fresh ring of two slots filled for an MTU of 1500 posts
slot 0 with all `1 + max_sg_elems` buffers, each on a fresh page at offset 0 and each with a
region of length 0, covering none of the 1518 bytes, where `min(1518, 65536 - 0)` would have
posted them all in `bufs[0]`. -/
theorem ionicRxFill_zero_regions_64k :
    let b : RxBuild := ⟨false, 65536, 2048, 3000, 8, 16, by decide, by decide⟩
    let c : RxqCfg := ⟨⟨2, 1, rfl⟩, 0, 2, false⟩
    let lif : RxLif := { mtu := 1500, rxCopybreak := 256 }
    let env : RxEnv := ⟨fun _ => true, fun p => 65536 * (p + 1), fun _ => true, true, []⟩
    let s := ionicRxFill b c lif env (RxState.init 0)
    ((s.q.info 0).nbufs, (List.range 3).map (postedLen (s.q.info 0)),
        (List.range 3).map (fun k => ((s.q.info 0).bufs k).pageOffset), s.q.headIdx) =
      (3, [0, 0, 0], [0, 0, 0], 1) ∧
      min (lif.mtu + ethHlen + vlanHlen) (b.pageSize - 0) = 1518 := by
  decide

/-! ## The fragments -/

/-- The loop of `ionic_rx_frags` over `i` buffers from `bufs[k]`, all holding pages, attaches one
fragment per buffer: its page, from its `page_offset`, the lengths being the greedy cut of `len`
over the buffers' room. -/
theorem ionicRxFragsLoop_some {b : RxBuild} {mtu : Nat} {env : RxEnv} :
    ∀ {i k len : Nat} {d : RxDescInfo} {skb : List RxFrag} {s : RxState},
      (∀ j, k ≤ j → j < k + i → ((d.bufs j).page).isSome) →
      ∃ d' fs s', ionicRxFragsLoop b mtu env i k len d skb s = (d', some (skb ++ fs), s') ∧
        fs.map (fun f => some f.page) = (List.range' k i).map (fun j => (d.bufs j).page) ∧
        fs.map RxFrag.off = (List.range' k i).map (fun j => (d.bufs j).pageOffset) ∧
        fs.map RxFrag.len = greedyCut len (b.rooms d (List.range' k i))
  | 0, k, len, d, skb, s, _ => ⟨d, [], s, by simp [ionicRxFragsLoop, RxBuild.rooms]⟩
  | i + 1, k, len, d, skb, s, hp => by
    obtain ⟨p, hpk⟩ := Option.isSome_iff_exists.mp (hp k le_rfl (by omega))
    rcases hr : ionicRxBufRecycle b mtu (env.reusable p) p (d.bufs k) (min len (b.room (d.bufs k).pageOffset)) s
      with ⟨keep, bi', s₁⟩
    -- the buffers after `bufs[k]` are the ones the loop goes on with
    have hnext : ∀ bi : RxBufInfo, ∀ j, k + 1 ≤ j → ({ d with bufs := Function.update d.bufs k bi }).bufs j = d.bufs j :=
      fun bi j hj => Function.update_noteq (by omega) _ _
    obtain ⟨d', fs, s', hrun, hpg, hoff, hlen⟩ := @ionicRxFragsLoop_some b mtu env i (k + 1)
      (len - min len (b.room (d.bufs k).pageOffset))
      { d with bufs := Function.update d.bufs k (if keep then bi' else { bi' with page := none }) }
      (skb ++ [⟨p, (d.bufs k).pageOffset, min len (b.room (d.bufs k).pageOffset)⟩])
      (if keep then s₁ else { s₁ with dma := s₁.dma.unmap (d.bufs k).dmaAddr })
      fun j hj hj' => by rw [hnext _ j hj]; exact hp j (by omega) (by omega)
    have hcongr : ∀ {β : Type} (f : RxBufInfo → β) (bi : RxBufInfo),
        (List.range' (k + 1) i).map (fun j => f (({ d with bufs := Function.update d.bufs k bi }).bufs j)) =
          (List.range' (k + 1) i).map (fun j => f (d.bufs j)) :=
      fun f bi => List.map_congr_left fun j hj => by rw [hnext bi j (List.mem_range'_1.mp hj).1]
    refine ⟨d', ⟨p, (d.bufs k).pageOffset, min len (b.room (d.bufs k).pageOffset)⟩ :: fs, s', ?_, ?_, ?_, ?_⟩
    · rw [ionicRxFragsLoop, hpk]
      simp only [hr]
      cases keep <;> simpa using hrun
    · rw [List.range'_succ, List.map_cons, List.map_cons, hpg, hcongr (·.page), hpk]
    · rw [List.range'_succ, List.map_cons, List.map_cons, hoff, hcongr (·.pageOffset)]
    · rw [List.range'_succ, List.map_cons, hlen, RxBuild.rooms, RxBuild.rooms, List.map_cons, greedyCut_cons,
        hcongr (fun bi => b.room bi.pageOffset)]

/-- The posted lengths of the first `n ≤ nbufs` buffers of a filled slot are the greedy cut of
`len` over those buffers' room. -/
theorem postedLen_take {b : RxBuild} {d : RxDescInfo} {len n : Nat}
    (hg : (List.range d.nbufs).map (postedLen d) = greedyCut len (b.rooms d (List.range d.nbufs)))
    (hn : n ≤ d.nbufs) : (List.range n).map (postedLen d) = greedyCut len (b.rooms d (List.range n)) := by
  have ht : ∀ {β : Type} (f : Nat → β), (List.range n).map f = ((List.range d.nbufs).map f).take n := by
    intro β f; rw [← List.map_take, List.take_range, Nat.min_eq_left hn]
  rw [ht, hg, ← greedyCut_take, RxBuild.rooms, RxBuild.rooms, ← List.map_take, List.take_range, Nat.min_eq_left hn]

/-- For a slot the fill posted for `len < 2^16` bytes and a completion of at most `len` bytes
whose `num_sg_elems` stays within the posted buffers, `ionic_rx_frags` attaches one fragment for
each of `bufs[0 .. num_sg_elems]`: the buffer's page, from the start of the region posted for it,
the lengths being the first `comp->len` bytes of the posted regions in order. -/
theorem ionicRxFrags_posted_prefix {b : RxBuild} {c : RxqCfg} {env : RxEnv} {len ns : Nat}
    {d₀ d : RxDescInfo} {s₀ s₁ : RxState} (hfill : ionicRxFillSlot b c env len ns d₀ s₀ = (true, d, s₁))
    (hlen : len < 2 ^ 16) (mtu : Nat) (env' : RxEnv) (comp : RxComp) (s : RxState)
    (hskb : env'.skbOk = true) (hc : comp.len ≤ len) (hn : comp.numSgElems + 1 ≤ d.nbufs) :
    ∃ d' fs s', ionicRxFrags b mtu env' d comp s = (d', some fs, s') ∧
      fs.map (fun f => some f.page) = (List.range (comp.numSgElems + 1)).map (fun k => (d.bufs k).page) ∧
      fs.map RxFrag.off = (List.range (comp.numSgElems + 1)).map (fun k => (d.bufs k).pageOffset) ∧
      (∀ k < comp.numSgElems + 1, postedAddr d k = (d.bufs k).dmaAddr + (d.bufs k).pageOffset) ∧
      fs.map RxFrag.len = greedyCut comp.len ((List.range (comp.numSgElems + 1)).map (postedLen d)) ∧
      (fs.map RxFrag.len).sum = min comp.len ((List.range (comp.numSgElems + 1)).map (postedLen d)).sum := by
  obtain ⟨-, hbufs, hg⟩ := ionicRxFillSlot_posted hfill
  replace hg := hg hlen
  obtain ⟨d', fs, s', hrun, hpg, hoff, hl⟩ := @ionicRxFragsLoop_some b mtu env' (comp.numSgElems + 1) 0 comp.len d [] s
    fun j _ hj => (hbufs j (by omega)).1
  have hlens : fs.map RxFrag.len = greedyCut comp.len ((List.range (comp.numSgElems + 1)).map (postedLen d)) := by
    rw [postedLen_take hg hn, greedyCut_greedyCut hc, hl, List.range_eq_range']
  refine ⟨d', fs, s', ?_, by rw [hpg, List.range_eq_range'], by rw [hoff, List.range_eq_range'],
    fun k hk => (hbufs k (by omega)).2.1, hlens, by rw [hlens, greedyCut_sum]⟩
  rw [ionicRxFrags, if_neg (by simp [hskb]), hrun, List.nil_append]

/-- A slot of a fresh queue filled for an MTU of 1500, and a 1000-byte completion without SG
elements: one fragment of 1000 bytes. -/
theorem ionicRxFrags_posted_prefix_fresh :
    let b : RxBuild := ⟨false, 4096, 2048, 3000, 8, 16, by decide, by decide⟩
    let env : RxEnv := ⟨fun _ => true, fun p => 4096 * (p + 1), fun _ => true, true, []⟩
    let fill := ionicRxFillSlot b ⟨⟨2, 1, rfl⟩, 0, 2, false⟩ env 1518 2 RxDescInfo.empty (RxState.init 0)
    fill.1 = true ∧ ∃ d' fs s', ionicRxFrags b 1500 env fill.2.1 { len := 1000 } (RxState.init 0) = (d', some fs, s') ∧
      fs.map RxFrag.len = [1000] := by
  intro b env fill
  have h1 : fill.1 = true := by decide
  have hfill : ionicRxFillSlot b ⟨⟨2, 1, rfl⟩, 0, 2, false⟩ env 1518 2 RxDescInfo.empty (RxState.init 0) =
      (true, fill.2.1, fill.2.2) := by
    show fill = _
    rw [← h1]
  obtain ⟨d', fs, s', h, -, -, -, hl, -⟩ :=
    ionicRxFrags_posted_prefix hfill (by decide) 1500 env { len := 1000 } (RxState.init 0) rfl (by decide) (by decide)
  exact ⟨h1, d', fs, s', h, by rw [hl]; decide⟩

/-- `ionic_rx_frags` walks the `num_sg_elems + 1` buffers the device reports, whatever the fill
posted. A fresh ring of two slots filled for an MTU of 1500 posts each slot with one buffer: a
1000-byte completion for slot 0 that reports one SG element makes it read `bufs[1]`, which was not
posted and holds no page, and the packet is dropped; reported without SG element, the same
completion is handed up as one 1000-byte fragment. Filled for an MTU of 5000, slot 0 is posted
with two buffers: a 5000-byte completion reported without SG element is handed up as the 4096
bytes of `bufs[0]`, while `stats->bytes` counts 5000. -/
theorem ionicRxService_trusts_num_sg_elems :
    let b : RxBuild := ⟨false, 4096, 2048, 3000, 8, 16, by decide, by decide⟩
    let c : RxqCfg := ⟨⟨2, 1, rfl⟩, 0, 2, false⟩
    let lif : RxLif := { mtu := 1500, rxCopybreak := 256 }
    let env : RxEnv := ⟨fun _ => true, fun p => 4096 * (p + 1), fun _ => true, true, []⟩
    let s := ionicRxFill b c lif env (RxState.init 0)
    let s₁ := (ionicRxService b c lif env { len := 1000, numSgElems := 1 } s).2
    let s₀ := (ionicRxService b c lif env { len := 1000 } s).2
    let t := ionicRxFill b c { lif with mtu := 5000 } env (RxState.init 0)
    let t₀ := (ionicRxService b c { lif with mtu := 5000 } env { len := 5000 } t).2
    ((s.q.info 0).nbufs, s₁.stats.dropped, s₁.delivered.length, s₀.delivered.map RxPkt.frags) =
      (1, 1, 0, [[⟨0, 0, 1000⟩]]) ∧
    ((t.q.info 0).nbufs, (List.range 2).map (postedLen (t.q.info 0)), t₀.delivered.map RxPkt.frags,
        t₀.stats.bytes) =
      (2, [4096, 922], [[⟨0, 0, 4096⟩]], 5000) := by
  decide

end IonicTxrx
