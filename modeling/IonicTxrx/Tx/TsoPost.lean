import IonicTxrx.Tx.View

/-!
# The slots a TSO send posts

`ionic_tx_tso` posts one descriptor per pass of its outer loop through `ionic_tx_tso_post`, and
after each post sets `nbufs = 0` in the slot at the new `head_idx`. For a GSO packet cut into
`DIV_ROUND_UP(len - hdrlen, mss)` descriptors on a ring with room for them, the slots posted are
that many from `head_idx` on: the first keeps the buffers `ionic_tx_map_skb` recorded
(`nbufs = 1 + nr_frags`) and carries the skb and `IONIC_TXQ_DESC_FLAG_TSO_SOT`, the last carries
`IONIC_TXQ_DESC_FLAG_TSO_EOT`, and every other one carries neither flag, no skb and no buffers
(`ionicTxTso_slots`). The statistics count the same number of packets.
-/

namespace IonicTxrx

/-- `DIV_ROUND_UP(n, d)`. -/
def divRoundUp (n d : Nat) : Nat := (n + d - 1) / d

/-- What a post writes into a slot: the descriptor, the callback argument and `nbufs`. -/
def TxDescInfo.postView (d : TxDescInfo) : TxqDesc × Option Skb × Nat := (d.desc, d.cbArg, d.nbufs)

/-! ## Mapping -/

/-- The fragment loop of `ionic_tx_map_skb` counts no packet. -/
theorem ionicTxMapFrags_pkts (env : TxEnv) (k : Nat) (frags : List Nat) (d : TxDescInfo) (st : TxStats)
    (dma : Dma) : (ionicTxMapFrags env k frags d st dma).2.2.1.pkts = st.pkts := by
  induction frags generalizing k d st dma with
  | nil => rfl
  | cons size rest ih =>
    by_cases h : dmaMappingError (env.mapFrag k) = true <;> simp [ionicTxMapFrags, ionicTxMapFrag, h, ih]

/-- `ionic_tx_map_skb` counts no packet, and when it succeeds the slot owns `1 + nr_frags`
buffers. -/
theorem ionicTxMapSkb_nbufs (env : TxEnv) (skb : Skb) (i : Nat) (s : TxState) :
    (ionicTxMapSkb env skb i s).2.stats.pkts = s.stats.pkts ∧
      ((ionicTxMapSkb env skb i s).1 = 0 → ((ionicTxMapSkb env skb i s).2.q.info i).nbufs = 1 + skb.nrFrags) := by
  unfold ionicTxMapSkb
  rcases h₁ : ionicTxMapSingle env s.stats s.dma with ⟨a, st₁, dma₁⟩
  have hp₁ : st₁.pkts = s.stats.pkts := by
    unfold ionicTxMapSingle at h₁; split_ifs at h₁ <;> cases h₁ <;> rfl
  dsimp only
  split_ifs
  · exact ⟨hp₁, by simp [eio]⟩
  have hp := ionicTxMapFrags_pkts env 0 skb.frags ((s.q.info i).setBuf 0 ⟨a, skb.headlen⟩) st₁ dma₁
  rcases hf : ionicTxMapFrags env 0 skb.frags ((s.q.info i).setBuf 0 ⟨a, skb.headlen⟩) st₁ dma₁ with
    ⟨_ | k, d, st, dma⟩ <;> rw [hf] at hp <;> simp only at hp <;> simp [hp, hp₁, eio]

/-- Descriptor `j` of a list flagged by `SegFlags start` starts the packet exactly when it is the
first (and `start` holds), and ends it exactly when it is the last. -/
theorem SegFlags.get : ∀ {start : Bool} {segs : List TsoSeg}, SegFlags start segs → ∀ j (hj : j < segs.length),
    (segs.get ⟨j, hj⟩).start = (start && decide (j = 0)) ∧ (segs.get ⟨j, hj⟩).done = decide (j + 1 = segs.length)
  | _, [], _, _, hj => absurd hj (Nat.not_lt_zero _)
  | _, g :: gs, ⟨hs, hd, hf⟩, j, hj => by
    cases j with
    | zero => cases gs <;> simp [hs, hd]
    | succ k =>
      obtain ⟨h₁, h₂⟩ := SegFlags.get hf k (by simpa using hj)
      exact ⟨h₁.trans (by simp), h₂.trans (by simp)⟩

/-! ## One post -/

section Post

variable {c : TxqCfg} {skb : Skb}

/-- Both branches of `ionic_tx_tso_post` write the descriptor, post the slot at `head_idx` with
the skb exactly when the descriptor starts the packet, and leave the statistics alone; the loop
then clears `nbufs` at the new `head_idx`. -/
theorem ionicTxTsoPost_eq (s : TxState) (g : TsoSeg) :
    ∃ s₂ : TxState, s₂.q = ionicQPost c.ring (s.q.setInfo s.q.headIdx { s.q.info s.q.headIdx with desc := g.desc })
        (!g.start && g.done) (fun d => { d with cbArg := if g.start then some skb else none }) ∧
      s₂.stats = s.stats ∧
      ionicTxTsoPost c skb s g = s₂.setInfo s₂.q.headIdx { s₂.q.info s₂.q.headIdx with nbufs := 0 } := by
  unfold ionicTxTsoPost TxState.bqlSent
  cases g.start
  · refine ⟨_, ?_, ?_, rfl⟩ <;> rfl
  · cases c.hwstamp <;> refine ⟨_, ?_, ?_, rfl⟩ <;> rfl

/-- `ionic_tx_tso_post` for descriptor `g`, with the loop's `nbufs = 0` after it: the descriptor
and the callback argument go to the slot at `head_idx`, the slot after it loses its buffers, and
`head_idx` advances. -/
theorem ionicTxTsoPost_postView (s : TxState) (g : TsoSeg) (x : Nat) :
    (ionicTxTsoPost c skb s g).q.headIdx = c.ring.next s.q.headIdx ∧
      (ionicTxTsoPost c skb s g).stats = s.stats ∧
      ((ionicTxTsoPost c skb s g).q.info x).postView =
        (if x = s.q.headIdx then g.desc else (s.q.info x).desc,
          if x = s.q.headIdx then (if g.start then some skb else none) else (s.q.info x).cbArg,
          if x = c.ring.next s.q.headIdx then 0 else (s.q.info x).nbufs) := by
  obtain ⟨s₂, hq, hst, he⟩ := @ionicTxTsoPost_eq c skb s g
  have hn : s₂.q.headIdx = c.ring.next s.q.headIdx := by rw [hq]; rfl
  have hi : ∀ y, s₂.q.info y = if y = s.q.headIdx then
      { s.q.info s.q.headIdx with desc := g.desc, cbArg := if g.start then some skb else none } else s.q.info y := by
    intro y
    rw [hq, ionicQPost_info, Queue.setInfo_headIdx, Queue.setInfo_info_self]
    by_cases h₀ : y = s.q.headIdx
    · rw [if_pos h₀, if_pos h₀]
    · rw [if_neg h₀, if_neg h₀, Queue.setInfo_info_ne _ _ h₀]
  rw [he]
  refine ⟨hn, hst, ?_⟩
  rw [TxState.setInfo_q, hn]
  by_cases h₁ : x = c.ring.next s.q.headIdx
  · -- the slot after `head_idx` loses its buffers
    subst h₁
    rw [Queue.setInfo_info_self, hi, if_pos rfl]
    split_ifs <;> rfl
  · rw [Queue.setInfo_info_ne _ _ h₁, hi, if_neg h₁]
    split_ifs <;> subst_vars <;> rfl

/-- The posts of `ionic_tx_tso` for descriptors `segs`, fewer than the ring's slots, from a
`head_idx` inside the ring: descriptor `j` and its callback argument go to the slot `j` places
after `head_idx`, every posted slot after the first loses its buffers, `head_idx` moves past them,
and the slots beyond them are left alone. -/
theorem foldl_tsoPost_postView :
    ∀ (segs : List TsoSeg) (s : TxState), segs.length < c.ring.numDescs → s.q.headIdx < c.ring.numDescs →
      (segs.foldl (ionicTxTsoPost c skb) s).q.headIdx = (s.q.headIdx + segs.length) % c.ring.numDescs ∧
      (segs.foldl (ionicTxTsoPost c skb) s).stats = s.stats ∧
      (∀ j (hj : j < segs.length),
        ((segs.foldl (ionicTxTsoPost c skb) s).q.info ((s.q.headIdx + j) % c.ring.numDescs)).postView =
          ((segs.get ⟨j, hj⟩).desc, if (segs.get ⟨j, hj⟩).start then some skb else none,
            if j = 0 then (s.q.info s.q.headIdx).nbufs else 0)) ∧
      ∀ x, (∀ j ≤ segs.length, x ≠ (s.q.headIdx + j) % c.ring.numDescs) →
        ((segs.foldl (ionicTxTsoPost c skb) s).q.info x).postView = (s.q.info x).postView
  | [], s, _, hh => ⟨by simp [Nat.mod_eq_of_lt hh], rfl, fun _ hj => absurd hj (Nat.not_lt_zero _), fun _ _ => rfl⟩
  | g :: gs, s, hn, hh => by
    have hs := @ionicTxTsoPost_postView c skb s g
    have hN : gs.length + 1 < c.ring.numDescs := hn
    have h₀ : (s.q.headIdx + 0) % c.ring.numDescs = s.q.headIdx := Nat.mod_eq_of_lt hh
    -- slot `head_idx + j` is `head_idx` only for `j = 0`
    have hne : ∀ {j}, j < c.ring.numDescs → j ≠ 0 → s.q.headIdx ≠ (s.q.headIdx + j) % c.ring.numDescs :=
      fun hj hj0 he => hj0 (c.ring.add_mod_inj (by omega) hj (h₀.trans he)).symm
    have hnext : c.ring.next s.q.headIdx = (s.q.headIdx + 1) % c.ring.numDescs := c.ring.next_eq_mod _
    obtain ⟨ih₁, ih₂, ih₃, ih₄⟩ := foldl_tsoPost_postView gs (ionicTxTsoPost c skb s g) (by omega)
      ((hs 0).1 ▸ c.ring.next_lt _)
    rw [(hs 0).1] at ih₁ ih₃ ih₄
    simp only [List.foldl_cons, List.length_cons]
    refine ⟨by rw [ih₁, c.ring.next_add_mod], ih₂.trans (hs 0).2.1, fun j hj => ?_, fun x hx => ?_⟩
    · cases j with
      | zero =>
        have hhn : s.q.headIdx ≠ c.ring.next s.q.headIdx := hnext ▸ hne (by omega) one_ne_zero
        rw [h₀, ih₄ _ fun j hj' => by rw [c.ring.next_add_mod]; exact hne (by omega) (by omega), (hs _).2.2]
        simp [hhn]
      | succ k =>
        have hnb : ((ionicTxTsoPost c skb s g).q.info (c.ring.next s.q.headIdx)).nbufs = 0 := by
          simpa [TxDescInfo.postView] using congrArg (fun v => v.2.2) (hs (c.ring.next s.q.headIdx)).2.2
        rw [← c.ring.next_add_mod, ih₃ k (by simpa using hj)]
        simp [hnb]
    · have hx₀ : x ≠ s.q.headIdx := h₀ ▸ hx 0 (Nat.zero_le _)
      have hx₁ : x ≠ c.ring.next s.q.headIdx := hnext ▸ hx 1 (by omega)
      rw [ih₄ _ fun j hj' => by rw [c.ring.next_add_mod]; exact hx (j + 1) (by omega), (hs x).2.2]
      simp [hx₀, hx₁, TxDescInfo.postView]

end Post

/-- `ionic_tx_tso` on a GSO packet (`mss = gso_size > 0`, `hdrlen < len`), with `head_idx` inside
a ring that has room for its `DIV_ROUND_UP(len - hdrlen, mss)` descriptors, as `ionic_start_xmit`
checks before the call: it returns, posting nothing when it fails, and it succeeds when every DMA
mapping and `skb_cow_head` do. When it succeeds it posts
exactly that many slots from `head_idx`, all `IONIC_TXQ_DESC_OPCODE_TSO`. The first alone carries
`IONIC_TXQ_DESC_FLAG_TSO_SOT`, the skb and the `1 + nr_frags` buffers mapped for it, the last alone
`IONIC_TXQ_DESC_FLAG_TSO_EOT`, and every other slot posted has no skb and `nbufs = 0`.
`stats->pkts` grows by the same number while `len + mss` fits the `unsigned int` it is computed
in. -/
theorem ionicTxTso_slots (c : TxqCfg) (env : TxEnv) (skb : Skb) (s : TxState) (hg : 0 < skb.gsoSize)
    (hhdr : skb.hdrlen < skb.len) (hh : s.q.headIdx < c.ring.numDescs)
    (hroom : divRoundUp (skb.len - skb.hdrlen) skb.gsoSize < c.ring.numDescs) :
    ∃ r s', ionicTxTso c env skb s = some (r, s') ∧ (r ≠ 0 → s'.view = s.view) ∧
      (env.MapsOk → env.cowOk = true → r = 0) ∧
      (r = 0 →
        s'.q.headIdx = (s.q.headIdx + divRoundUp (skb.len - skb.hdrlen) skb.gsoSize) % c.ring.numDescs ∧
        (∀ j < divRoundUp (skb.len - skb.hdrlen) skb.gsoSize,
          (s'.q.info ((s.q.headIdx + j) % c.ring.numDescs)).desc.opcode = .tso ∧
          (s'.q.info ((s.q.headIdx + j) % c.ring.numDescs)).desc.sot = decide (j = 0) ∧
          (s'.q.info ((s.q.headIdx + j) % c.ring.numDescs)).desc.eot =
            decide (j + 1 = divRoundUp (skb.len - skb.hdrlen) skb.gsoSize) ∧
          (s'.q.info ((s.q.headIdx + j) % c.ring.numDescs)).cbArg = (if j = 0 then some skb else none) ∧
          (s'.q.info ((s.q.headIdx + j) % c.ring.numDescs)).nbufs = (if j = 0 then 1 + skb.nrFrags else 0)) ∧
        (skb.len + skb.gsoSize ≤ 2 ^ 32 →
          s'.stats.pkts = s.stats.pkts + divRoundUp (skb.len - skb.hdrlen) skb.gsoSize)) := by
  obtain ⟨hpk, hnb⟩ := ionicTxMapSkb_nbufs env skb s.q.headIdx s
  have hv := ionicTxMapSkb_view env skb s.q.headIdx s
  have hh₁ : (ionicTxMapSkb env skb s.q.headIdx s).2.q.headIdx = s.q.headIdx := congrArg TxView.head hv
  unfold ionicTxTso
  dsimp only
  split_ifs with hr hcow
  · exact ⟨_, _, rfl, fun _ => hv, fun hm _ => absurd (ionicTxMapSkb_ok hm skb _ s) hr, fun h => absurd h (by simp [eio])⟩
  · exact ⟨_, _, rfl, fun _ => (ionicTxDescUnmapBufs_view _ _).trans hv, fun _ hc => by simp [hc] at hcow,
      fun h => absurd h (by simp [enomem])⟩
  have hmap : (ionicTxMapSkb env skb s.q.headIdx s).1 = 0 := not_not.mp hr
  set s₁ := (ionicTxMapSkb env skb s.q.headIdx s).2
  obtain ⟨segs, hl, hf, hb, -⟩ :=
    ionicTxTsoSegments_cut ((List.range (1 + skb.nrFrags)).map (s₁.q.info s.q.headIdx).bufs) skb.hdrlen hg
  rw [ionicTxMapSkb_bufBytes hmap, if_neg (by omega)] at hb
  rw [ionicTxMapSkb_bufBytes hmap] at hl
  have hn : segs.length = divRoundUp (skb.len - skb.hdrlen) skb.gsoSize := by
    rw [← List.length_map segs TsoSeg.bytes, hb, tsoSizes_length hg hhdr]; rfl
  obtain ⟨f₁, f₂, f₃, -⟩ := @foldl_tsoPost_postView c skb segs s₁ (hn ▸ hroom) (hh₁ ▸ hh)
  rw [hh₁] at f₁ f₃
  rw [hl]
  refine ⟨0, _, rfl, fun h => absurd rfl h, fun _ _ => rfl, fun _ => ⟨by rw [← hn]; exact f₁, fun j hj => ?_, fun hlen => ?_⟩⟩
  · obtain ⟨hd, hr⟩ := Prod.mk.inj_iff.mp (f₃ j (hn ▸ hj))
    obtain ⟨ha, hnb'⟩ := Prod.mk.inj_iff.mp hr
    obtain ⟨hst, hdn⟩ := SegFlags.get hf j (hn ▸ hj)
    refine ⟨by rw [hd]; rfl, by rw [hd]; simpa [TsoSeg.desc] using hst, by rw [hd]; simpa [TsoSeg.desc, hn] using hdn,
      by rw [ha, hst]; by_cases hj0 : j = 0 <;> simp [hj0], by rw [hnb', hnb hmap]⟩
  · simp only [f₂, hpk, u32]
    congr 1
    rw [divRoundUp, show (skb.len + 2 ^ 32 - skb.hdrlen) % 2 ^ 32 = skb.len - skb.hdrlen by omega,
      Nat.mod_eq_of_lt (by omega), Nat.mod_eq_of_lt (by omega)]

/-- A 4055-byte TSO packet (54 bytes of headers, a 1055-byte head and one 3000-byte fragment,
`gso_size` 1000) sent on a freshly opened 8-slot queue: five descriptors. -/
theorem ionicTxTso_slots_five :
    let c : TxqCfg := ⟨⟨8, 3, rfl⟩, 8, false⟩
    let env : TxEnv := ⟨4096, fun k => 8192 * (k + 1), true, true, false⟩
    let skb : Skb := ⟨1, 1055, [3000], 1000, 5, 54, 0, true, false⟩
    ∃ r s', ionicTxTso c env skb (TxState.init 0) = some (r, s') ∧ (r ≠ 0 → s'.view = (TxState.init 0).view) ∧
      (env.MapsOk → env.cowOk = true → r = 0) ∧
      (r = 0 →
        s'.q.headIdx = ((TxState.init 0).q.headIdx + divRoundUp (skb.len - skb.hdrlen) skb.gsoSize) %
          c.ring.numDescs ∧
        (∀ j < divRoundUp (skb.len - skb.hdrlen) skb.gsoSize,
          (s'.q.info (((TxState.init 0).q.headIdx + j) % c.ring.numDescs)).desc.opcode = .tso ∧
          (s'.q.info (((TxState.init 0).q.headIdx + j) % c.ring.numDescs)).desc.sot = decide (j = 0) ∧
          (s'.q.info (((TxState.init 0).q.headIdx + j) % c.ring.numDescs)).desc.eot =
            decide (j + 1 = divRoundUp (skb.len - skb.hdrlen) skb.gsoSize) ∧
          (s'.q.info (((TxState.init 0).q.headIdx + j) % c.ring.numDescs)).cbArg =
            (if j = 0 then some skb else none) ∧
          (s'.q.info (((TxState.init 0).q.headIdx + j) % c.ring.numDescs)).nbufs =
            (if j = 0 then 1 + skb.nrFrags else 0)) ∧
        (skb.len + skb.gsoSize ≤ 2 ^ 32 →
          s'.stats.pkts = (TxState.init 0).stats.pkts + divRoundUp (skb.len - skb.hdrlen) skb.gsoSize)) :=
  ionicTxTso_slots _ _ _ _ (by decide) (by decide) (by decide) (by decide)

end IonicTxrx
