import IonicTxrx.Tx.Types

/-!
# Mapping a packet for the device

`ionic_tx_map_single`, `ionic_tx_map_frag`, `ionic_tx_map_skb` and `ionic_tx_desc_unmap_bufs`.
`ionic_tx_map_skb` records the head in `bufs[0]` and fragment `k` in `bufs[1 + k]`; on a
fragment failure it walks `buf_info` back over the fragments it mapped and then unmaps the entry
`buf_info` is left on, `bufs[1]`, so the head mapping stays live (`ionicTxMapSkb_frag_fail`).
Entries of `bufs` that a call does not write keep their old contents, so the model keeps the
whole array.
-/

namespace IonicTxrx

namespace TxDescInfo

/-- Write `bufs[k]`. -/
def setBuf (d : TxDescInfo) (k : Nat) (b : TxBufInfo) : TxDescInfo :=
  { d with bufs := Function.update d.bufs k b }

@[simp] theorem setBuf_bufs_self (d : TxDescInfo) (k : Nat) (b : TxBufInfo) :
    (d.setBuf k b).bufs k = b := by simp [setBuf]

@[simp] theorem setBuf_bufs_ne (d : TxDescInfo) {k j : Nat} (b : TxBufInfo) (h : j ≠ k) :
    (d.setBuf k b).bufs j = d.bufs j := by simp [setBuf, h]

@[simp] theorem setBuf_nbufs (d : TxDescInfo) (k : Nat) (b : TxBufInfo) :
    (d.setBuf k b).nbufs = d.nbufs := rfl

end TxDescInfo

/-- `ionic_tx_map_single`: map the head with `dma_map_single`; on a mapping error count it and
return `0`. -/
def ionicTxMapSingle (env : TxEnv) (st : TxStats) (dma : Dma) : Nat × TxStats × Dma :=
  if dmaMappingError env.mapHead then (0, { st with dmaMapErr := st.dmaMapErr + 1 }, dma)
  else (env.mapHead, st, dma.map env.mapHead)

/-- `ionic_tx_map_frag` for fragment `k`: map it with `skb_frag_dma_map`; on a mapping error
count it and return the erroneous address. -/
def ionicTxMapFrag (env : TxEnv) (k : Nat) (st : TxStats) (dma : Dma) : Nat × TxStats × Dma :=
  if dmaMappingError (env.mapFrag k) then (env.mapFrag k, { st with dmaMapErr := st.dmaMapErr + 1 }, dma)
  else (env.mapFrag k, st, dma.map (env.mapFrag k))

/-- The fragment loop of `ionic_tx_map_skb` from `frag_idx = k` (writing `bufs[1 + k]`): either
every remaining fragment is mapped (`none`), or fragment `j` fails (`some j`). -/
def ionicTxMapFrags (env : TxEnv) : Nat → List Nat → TxDescInfo → TxStats → Dma →
    Option Nat × TxDescInfo × TxStats × Dma
  | _, [], d, st, dma => (none, d, st, dma)
  | k, size :: rest, d, st, dma =>
    let (a, st, dma) := ionicTxMapFrag env k st dma
    if dmaMappingError a then (some k, d, { st with dmaMapErr := st.dmaMapErr + 1 }, dma)
    else ionicTxMapFrags env (k + 1) rest (d.setBuf (1 + k) ⟨a, size⟩) st dma

/-- The `dma_fail` unwinding of `ionic_tx_map_skb`, entered with `frag_idx = k` and `buf_info`
at `bufs[p]`: `k` times step `buf_info` back and `dma_unmap_page` it, then `dma_unmap_single`
the entry `buf_info` is left on. -/
def ionicTxMapUnwind (bufs : Nat → TxBufInfo) : Nat → Nat → Dma → Dma
  | 0, p, dma => dma.unmap (bufs p).dmaAddr
  | k + 1, p, dma => ionicTxMapUnwind bufs k (p - 1) (dma.unmap (bufs (p - 1)).dmaAddr)

/-- `ionic_tx_map_skb` into slot `i`: `0` with `nbufs = 1 + nr_frags`, or `-EIO`. -/
def ionicTxMapSkb (env : TxEnv) (skb : Skb) (i : Nat) (s : TxState) : Int × TxState :=
  let (a, st, dma) := ionicTxMapSingle env s.stats s.dma
  if dmaMappingError a then (eio, { s with stats := { st with dmaMapErr := st.dmaMapErr + 1 }, dma })
  else
    let d := (s.q.info i).setBuf 0 ⟨a, skb.headlen⟩
    match ionicTxMapFrags env 0 skb.frags d st dma with
    | (none, d, st, dma) =>
      (0, { s with q := s.q.setInfo i { d with nbufs := 1 + skb.nrFrags }, stats := st, dma })
    | (some k, d, st, dma) =>
      (eio, { s with q := s.q.setInfo i d, stats := st, dma := ionicTxMapUnwind d.bufs k (1 + k) dma })

/-- Every DMA mapping the kernel is asked for succeeds: the head's and every fragment's. -/
def TxEnv.MapsOk (env : TxEnv) : Prop := dmaMappingError env.mapHead = false ∧ ∀ k, dmaMappingError (env.mapFrag k) = false

/-- When every fragment maps, the fragment loop of `ionic_tx_map_skb` runs to its end. -/
theorem ionicTxMapFrags_none {env : TxEnv} (hf : ∀ k, dmaMappingError (env.mapFrag k) = false) :
    ∀ (frags : List Nat) (k : Nat) (d : TxDescInfo) (st : TxStats) (dma : Dma),
      (ionicTxMapFrags env k frags d st dma).1 = none
  | [], _, _, _, _ => rfl
  | size :: rest, k, d, st, dma => by
    simp only [ionicTxMapFrags, ionicTxMapFrag, hf k, Bool.false_eq_true, if_false]
    exact ionicTxMapFrags_none hf rest _ _ _ _

/-- When every mapping succeeds, `ionic_tx_map_skb` returns 0. -/
theorem ionicTxMapSkb_ok {env : TxEnv} (hm : env.MapsOk) (skb : Skb) (i : Nat) (s : TxState) :
    (ionicTxMapSkb env skb i s).1 = 0 := by
  unfold ionicTxMapSkb ionicTxMapSingle
  simp only [hm.1, Bool.false_eq_true, if_false]
  have h := ionicTxMapFrags_none hm.2 skb.frags 0 ((s.q.info i).setBuf 0 ⟨env.mapHead, skb.headlen⟩) s.stats
    (s.dma.map env.mapHead)
  rcases hf : ionicTxMapFrags env 0 skb.frags ((s.q.info i).setBuf 0 ⟨env.mapHead, skb.headlen⟩) s.stats
    (s.dma.map env.mapHead) with ⟨_ | k, d, st, dma⟩
  · rfl
  · rw [hf] at h; cases h

/-- `ionic_tx_desc_unmap_bufs` for slot `i`: unmap `bufs[0]` and `bufs[1 .. nbufs - 1]`, then
`nbufs = 0`. -/
def ionicTxDescUnmapBufs (i : Nat) (s : TxState) : TxState :=
  let d := s.q.info i
  if d.nbufs = 0 then s
  else
    { s with
      q := s.q.setInfo i { d with nbufs := 0 }
      dma := ((List.range d.nbufs).map fun j => (d.bufs j).dmaAddr).foldl Dma.unmap s.dma }

/-- The unwinding entered after fragment `k` failed unmaps `bufs[k], …, bufs[1]` and then
`bufs[1]` once more: the head mapping in `bufs[0]` is never unmapped, and for `k = 0` the
address unmapped is whatever `bufs[1]` held before the call. -/
theorem ionicTxMapUnwind_eq (bufs : Nat → TxBufInfo) (k : Nat) (dma : Dma) :
    ionicTxMapUnwind bufs k (1 + k) dma =
      (((List.range k).reverse.map fun j => (bufs (1 + j)).dmaAddr) ++ [(bufs 1).dmaAddr]).foldl
        Dma.unmap dma := by
  induction k generalizing dma with
  | zero => rfl
  | succ k ih =>
    rw [ionicTxMapUnwind, show 1 + (k + 1) - 1 = 1 + k by omega, ih, List.range_succ]
    simp

/-- When fragments `k₀ .. k₀ + k - 1` map and fragment `k₀ + k` does not, the fragment loop of
`ionic_tx_map_skb` stops at `k₀ + k` having mapped the first `k` into `bufs[1 + k₀ ..]`, and the
other entries keep what they held. -/
theorem ionicTxMapFrags_fail {env : TxEnv} :
    ∀ (k : Nat) (frags : List Nat) (k₀ : Nat) (d : TxDescInfo) (st : TxStats) (dma : Dma), k < frags.length →
      (∀ j < k, dmaMappingError (env.mapFrag (k₀ + j)) = false) → dmaMappingError (env.mapFrag (k₀ + k)) = true →
      ∃ d' st', ionicTxMapFrags env k₀ frags d st dma =
          (some (k₀ + k), d', st', ((List.range k).map fun j => env.mapFrag (k₀ + j)).foldl Dma.map dma) ∧
        (∀ j < k, (d'.bufs (1 + k₀ + j)).dmaAddr = env.mapFrag (k₀ + j)) ∧
        ∀ m, m < 1 + k₀ ∨ 1 + k₀ + k ≤ m → d'.bufs m = d.bufs m
  | _, [], _, _, _, _, hk, _, _ => absurd hk (Nat.not_lt_zero _)
  | 0, size :: rest, k₀, d, st, dma, _, _, hfail => by
    simp only [Nat.add_zero] at hfail
    simp [ionicTxMapFrags, ionicTxMapFrag, hfail]
  | k + 1, size :: rest, k₀, d, st, dma, hk, hok, hfail => by
    have h0 : dmaMappingError (env.mapFrag k₀) = false := hok 0 (Nat.succ_pos _)
    obtain ⟨d', st', hf, hb, hkeep⟩ := ionicTxMapFrags_fail k rest (k₀ + 1) (d.setBuf (1 + k₀) ⟨env.mapFrag k₀, size⟩)
      st (dma.map (env.mapFrag k₀)) (by simpa using hk) (fun j hj => by rw [Nat.add_right_comm]; exact hok (j + 1) (by omega))
      (by rw [Nat.add_right_comm]; exact hfail)
    refine ⟨d', st', ?_, fun j hj => ?_, fun m hm => ?_⟩
    · simp only [ionicTxMapFrags, ionicTxMapFrag, h0, Bool.false_eq_true, if_false, hf, List.range_succ_eq_map,
        List.map_cons, List.map_map, List.foldl_cons, Nat.add_zero, Nat.add_right_comm k₀ k 1]
      have e : ∀ j, k₀ + 1 + j = k₀ + (j + 1) := fun j => by omega
      simp only [Function.comp_def, Nat.succ_eq_add_one, e]
    · cases j with
      | zero => rw [hkeep _ (.inl (by omega))]; simp
      | succ j =>
        rw [show 1 + k₀ + (j + 1) = 1 + (k₀ + 1) + j by omega, hb j (by omega), Nat.add_right_comm, Nat.add_assoc]
    · rw [hkeep m (by omega), TxDescInfo.setBuf_bufs_ne _ _ (by omega)]

/-- `ionic_tx_map_skb` on a packet whose head maps and whose fragment `k` is the first that fails
returns `-EIO` after mapping the head and fragments `0 .. k - 1`. It unmaps those fragments from
the last to the first and then `bufs[1]` once more: fragment 0's address a second time, or for
`k = 0` whatever `bufs[1]` held before the call. The head mapping is never unmapped. -/
theorem ionicTxMapSkb_frag_fail (env : TxEnv) (skb : Skb) (i : Nat) (s : TxState) (k : Nat)
    (hh : dmaMappingError env.mapHead = false) (hk : k < skb.nrFrags)
    (hok : ∀ j < k, dmaMappingError (env.mapFrag j) = false) (hfail : dmaMappingError (env.mapFrag k) = true) :
    (ionicTxMapSkb env skb i s).1 = eio ∧
      (ionicTxMapSkb env skb i s).2.dma =
        ((List.range k).reverse.map env.mapFrag ++ [if k = 0 then ((s.q.info i).bufs 1).dmaAddr else env.mapFrag 0]).foldl
          Dma.unmap (((List.range k).map env.mapFrag).foldl Dma.map (s.dma.map env.mapHead)) := by
  obtain ⟨d', st', hf, hb, hkeep⟩ := ionicTxMapFrags_fail k skb.frags 0
    ((s.q.info i).setBuf 0 ⟨env.mapHead, skb.headlen⟩) s.stats (s.dma.map env.mapHead) hk
    (by simpa only [Nat.zero_add] using hok) (by simpa only [Nat.zero_add] using hfail)
  simp only [Nat.zero_add, Nat.add_zero] at hf hb hkeep
  unfold ionicTxMapSkb ionicTxMapSingle
  simp only [hh, Bool.false_eq_true, if_false, hf, ionicTxMapUnwind_eq, true_and]
  congr 1
  refine congrArg₂ _ (List.map_congr_left fun j hj => ?_) ?_
  · exact hb j (List.mem_range.mp (List.mem_reverse.mp hj))
  · cases k with
    | zero => simp [hkeep 1 (.inr le_rfl)]
    | succ k => simpa using hb 0 (Nat.succ_pos _)

/-- A packet with two fragments whose second mapping fails: fragment 0's address is unmapped twice
and the head's never. -/
theorem ionicTxMapSkb_frag_fail_second :
    let env : TxEnv := ⟨4096, fun k => if k = 0 then 8192 else dmaMappingErrorAddr, true, true, false⟩
    let skb : Skb := ⟨1, 100, [200, 300], 0, 0, 0, 0, false, false⟩
    let s := TxState.init 0
    dmaMappingError env.mapHead = false ∧ 1 < skb.nrFrags ∧ (∀ j < 1, dmaMappingError (env.mapFrag j) = false) ∧
      dmaMappingError (env.mapFrag 1) = true ∧ (ionicTxMapSkb env skb 0 s).1 = eio ∧
      (ionicTxMapSkb env skb 0 s).2.dma =
        ((List.range 1).reverse.map env.mapFrag ++ [if 1 = 0 then ((s.q.info 0).bufs 1).dmaAddr else env.mapFrag 0]).foldl
          Dma.unmap (((List.range 1).map env.mapFrag).foldl Dma.map (s.dma.map env.mapHead)) :=
  ⟨by decide, by decide, by decide, by decide,
    ionicTxMapSkb_frag_fail _ _ _ _ 1 (by decide) (by decide) (by decide) (by decide)⟩

/-- A packet with one fragment whose mapping fails: `ionic_tx_map_skb` returns `-EIO` but leaves
the head mapping live and unmaps the zeroed `bufs[1]` instead; a packet whose head mapping fails
is reported mapped, with address `0`, and nothing mapped. -/
theorem ionicTxMapSkb_unwind_misses_head :
    let s : TxState := TxState.init 0
    let skb : Skb := ⟨1, 100, [200], 0, 0, 0, 0, false, false⟩
    let fragFails : TxEnv := ⟨4096, fun _ => dmaMappingErrorAddr, true, true, false⟩
    let headFails : TxEnv := ⟨dmaMappingErrorAddr, fun _ => 0, true, true, false⟩
    (ionicTxMapSkb fragFails skb 0 s).1 = eio ∧
      (ionicTxMapSkb fragFails skb 0 s).2.dma = ⟨[4096], [0]⟩ ∧
      (ionicTxMapSkb headFails { skb with frags := [] } 0 s).1 = 0 ∧
      (ionicTxMapSkb headFails { skb with frags := [] } 0 s).2.dma = {} := by
  decide

end IonicTxrx
