import IonicTxrx.Tx.Tso

/-!
# The transmit entry points

`ionic_tx` (one descriptor with checksum offload and SG elements), `ionic_tx_tso` with
`ionic_tx_tso_post`, `ionic_tx_descs_needed`, `ionic_maybe_stop_tx`, `ionic_start_hwstamp_xmit`
and `ionic_start_xmit`. The build modelled has `IONIC_SUPPORTS_BQL` and `HAVE_SKB_XMIT_MORE`
defined; a kernel without `netdev_xmit_more` is the case `xmitMore = false`.

A function that can fail to return (the TSO loop when `gso_size = 0`) answers `none` for it.
-/

namespace IonicTxrx

/-- Truncation to `unsigned int`. -/
def u32 (x : Nat) : Nat := x % 2 ^ 32

namespace TxState

variable (s : TxState)

/-- Release `skb` (`dev_kfree_skb`, `dev_consume_skb_any`). -/
def release (skb : Skb) : TxState := { s with released := skb.id :: s.released }

/-- `netif_stop_subqueue` / `netif_wake_subqueue` on subqueue `i`. -/
def setStopped (i : Nat) (b : Bool) : TxState := { s with stopped := Function.update s.stopped i b }

/-- Replace the software state of slot `i`. -/
def setInfo (i : Nat) (d : TxDescInfo) : TxState := { s with q := s.q.setInfo i d }

/-- `netdev_tx_sent_queue(q_to_ndq(q), len)`, unless the queue timestamps. -/
def bqlSent (c : TxqCfg) (len : Nat) : TxState :=
  if c.hwstamp then s
  else { s with bql := { s.bql with sentBytes := s.bql.sentBytes + len, sentCalls := s.bql.sentCalls + 1 } }

/-- `ionic_txq_post(q, ring_dbell, cb, cb_arg)`. -/
def post (c : TxqCfg) (ringDbell : Bool) (arg : Option Skb) : TxState :=
  { s with q := ionicQPost c.ring s.q ringDbell fun d => { d with cbArg := arg } }

@[simp] theorem setInfo_q (i : Nat) (d : TxDescInfo) : (s.setInfo i d).q = s.q.setInfo i d := rfl
@[simp] theorem released_setInfo (i : Nat) (d : TxDescInfo) : (s.setInfo i d).released = s.released := rfl
@[simp] theorem released_post (c : TxqCfg) (b : Bool) (a : Option Skb) : (s.post c b a).released = s.released := rfl
@[simp] theorem released_bqlSent (c : TxqCfg) (len : Nat) : (s.bqlSent c len).released = s.released := by
  unfold bqlSent; split <;> rfl

end TxState

/-! ## One descriptor: `ionic_tx` -/

/-- The descriptor `ionic_tx_calc_csum` and `ionic_tx_calc_no_csum` write, under the opcode that
tells them apart: the main buffer `bufs[0]` and `nr_frags` SG elements; the SG element list is
written by `ionic_tx_skb_frags`. -/
def ionicTxCalcDesc (opcode : TxOpcode) (skb : Skb) (d : TxDescInfo) : TxqDesc :=
  { d.desc with opcode, sot := false, eot := false,
                nsge := skb.nrFrags % 2 ^ 8, addr := (d.bufs 0).dmaAddr, len := (d.bufs 0).len % 2 ^ 16 }

/-- `ionic_tx_calc_csum`. -/
def ionicTxCalcCsum (skb : Skb) (d : TxDescInfo) : TxqDesc := ionicTxCalcDesc .csumPartial skb d

/-- `ionic_tx_calc_no_csum`. -/
def ionicTxCalcNoCsum (skb : Skb) (d : TxDescInfo) : TxqDesc := ionicTxCalcDesc .csumNone skb d

/-- `ionic_tx_skb_frags`: SG element `k` is `bufs[1 + k]`. -/
def ionicTxSkbFrags (skb : Skb) (d : TxDescInfo) : List (Nat × Nat) :=
  (List.range skb.nrFrags).map fun k => ((d.bufs (1 + k)).dmaAddr, (d.bufs (1 + k)).len % 2 ^ 16)

/-- `ionic_tx`: map, write one descriptor, account, post with the skb as callback argument. -/
def ionicTx (c : TxqCfg) (env : TxEnv) (skb : Skb) (s : TxState) : Int × TxState :=
  let i := s.q.headIdx
  let (r, s) := ionicTxMapSkb env skb i s
  if r ≠ 0 then (eio, s)
  else
    let d := s.q.info i
    let desc := if skb.csumPartial then ionicTxCalcCsum skb d else ionicTxCalcNoCsum skb d
    let s := s.setInfo i { d with desc := { desc with elems := ionicTxSkbFrags skb d } }
    let s := { s with stats := { s.stats with pkts := s.stats.pkts + 1, bytes := s.stats.bytes + skb.len } }
    let s := s.bqlSent c skb.len
    (0, s.post c (!env.xmitMore) (some skb))

/-! ## Segmentation offload: `ionic_tx_tso` -/

/-- `ionic_tx_tso_post` for descriptor `g`, followed by the loop's
`desc_info = &q->info[q->head_idx]; desc_info->nbufs = 0`. The first descriptor carries the skb
and is posted without a doorbell; a later one carries nothing and rings when it is the last. -/
def ionicTxTsoPost (c : TxqCfg) (skb : Skb) (s : TxState) (g : TsoSeg) : TxState :=
  let i := s.q.headIdx
  let s := s.setInfo i { s.q.info i with desc := g.desc }
  let s := if g.start then (s.bqlSent c skb.len).post c false (some skb) else s.post c g.done none
  s.setInfo s.q.headIdx { s.q.info s.q.headIdx with nbufs := 0 }

/-- `ionic_tx_tso`. The statistics add `DIV_ROUND_UP(len - hdrlen, mss)` packets, computed in
`unsigned int`, and set `tso_bytes` to `len`. -/
def ionicTxTso (c : TxqCfg) (env : TxEnv) (skb : Skb) (s : TxState) : Option (Int × TxState) :=
  let i := s.q.headIdx
  let (r, s) := ionicTxMapSkb env skb i s
  if r ≠ 0 then some (eio, s)
  -- the pseudo-checksum step fails when `skb_cow_head` does
  else if !env.cowOk then some (enomem, ionicTxDescUnmapBufs i s)
  else
    let bufs := (List.range (1 + skb.nrFrags)).map (s.q.info i).bufs
    (ionicTxTsoSegments bufs skb.len skb.hdrlen skb.gsoSize).map fun segs =>
      let s := segs.foldl (ionicTxTsoPost c skb) s
      (0, { s with stats := { s.stats with
        pkts := s.stats.pkts + u32 (u32 (u32 (skb.len + 2 ^ 32 - skb.hdrlen) + skb.gsoSize - 1)) / skb.gsoSize
        bytes := s.stats.bytes + skb.len, tso := s.stats.tso + 1, tsoBytes := skb.len } })

/-! ## Admission -/

/-- `ionic_tx_descs_needed`: `gso_segs` descriptors for a GSO skb, else one; an skb with more
fragments than SG elements is linearized first. `none` is the error return. -/
def ionicTxDescsNeeded (c : TxqCfg) (env : TxEnv) (skb : Skb) (s : TxState) :
    Option (Nat × Skb × TxState) :=
  let ndescs := if skb.isGso then skb.gsoSegs else 1
  if skb.nrFrags ≤ c.maxSgElems then some (ndescs, skb, s)
  else if env.linearizeOk then
    some (ndescs, skb.linearize, { s with stats := { s.stats with linearize := s.stats.linearize + 1 } })
  else none

/-- `ionic_maybe_stop_tx(q, ndescs)` run on its own: stop the subqueue when `ndescs` slots are not
free, and wake it again if the re-check finds them. Returns whether it stayed stopped. -/
def ionicMaybeStopTx (c : TxqCfg) (ndescs : Nat) (s : TxState) : Bool × TxState :=
  if ionicQHasSpace c.ring s.q ndescs then (false, s)
  else
    let s := { s.setStopped s.q.index true with stats := { s.stats with stop := s.stats.stop + 1 } }
    -- might race with ionic_tx_clean, check again
    if ionicQHasSpace c.ring s.q ndescs then (false, s.setStopped s.q.index false) else (true, s)

/-- The send of an admitted skb: `ionic_tx_tso` for a GSO skb, else `ionic_tx`. -/
def ionicTxSend (c : TxqCfg) (env : TxEnv) (skb : Skb) (s : TxState) : Option (Int × TxState) :=
  if skb.isGso then ionicTxTso c env skb s else some (ionicTx c env skb s)

/-- `ionic_start_hwstamp_xmit` on the timestamping queue: no stop or wake; a packet that cannot be
posted at once is dropped. -/
def ionicStartHwstampXmit (c : TxqCfg) (env : TxEnv) (skb : Skb) (s : TxState) :
    Option (TxState × NetdevTx) :=
  let drop (skb : Skb) (s : TxState) : TxState :=
    { s with stats := { s.stats with drop := s.stats.drop + 1 } }.release skb
  match ionicTxDescsNeeded c env skb s with
  | none => some (drop skb s, .ok)
  | some (ndescs, skb, s) =>
    if !ionicQHasSpace c.ring s.q ndescs then some (drop skb s, .ok)
    else
      let skb := { skb with hwTstamp := true }
      (ionicTxSend c env skb s).map fun (err, s) =>
        if err ≠ 0 then (drop skb s, .ok) else (s, .ok)

/-- Which queue `ionic_start_xmit` hands an skb to: none when the LIF is down, the timestamping
queue, or regular queue `queue_index` (out-of-range mappings go to queue 0). -/
inductive XmitTarget where
  | down
  | hwstamp
  | txq (index : Nat)
  deriving DecidableEq, Repr

/-- The queue selection at the top of `ionic_start_xmit`. -/
def ionicStartXmitTarget (lif : Lif) (skb : Skb) : XmitTarget :=
  if !lif.up then .down
  else if skb.hwTstamp && lif.hwstampTx then .hwstamp
  else .txq (if skb.queueMapping ≥ lif.nxqs then 0 else skb.queueMapping)

/-- The `err_out_drop` label of `ionic_start_xmit`: count a stop and a drop, free the skb. -/
def TxState.xmitDrop (s : TxState) (skb : Skb) : TxState :=
  { s with stats := { s.stats with stop := s.stats.stop + 1, drop := s.stats.drop + 1 } }.release skb

/-- `ionic_start_xmit`, with `s` the state of the queue `ionicStartXmitTarget` selects. -/
def ionicStartXmit (lif : Lif) (c : TxqCfg) (env : TxEnv) (skb : Skb) (s : TxState) :
    Option (TxState × NetdevTx) :=
  match ionicStartXmitTarget lif skb with
  | .down => some (s.release skb, .ok)
  | .hwstamp => ionicStartHwstampXmit c env skb s
  | .txq _ =>
    match ionicTxDescsNeeded c env skb s with
    | none => some (s.xmitDrop skb, .ok)
    | some (ndescs, skb, s) =>
      let (stopped, s) := ionicMaybeStopTx c ndescs s
      if stopped then some (s, .busy)
      else
        (ionicTxSend c env skb s).map fun (err, s) =>
          if err ≠ 0 then (s.xmitDrop skb, .ok)
          -- stop the queue if there aren't descriptors for the next packet
          else ((ionicMaybeStopTx c 4 s).2, .ok)

end IonicTxrx
