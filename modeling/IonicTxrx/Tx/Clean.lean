import IonicTxrx.Tx.Xmit

/-!
# Transmit completions

`ionic_tx_clean`, `ionic_tx_service` and `ionic_tx_empty`. Both loops clean the slot at
`tail_idx` with the same body (`ionicTxCleanTail`); `ionic_tx_service` stops after the slot
named by the completion's `comp_index`, `ionic_tx_empty` when the ring is empty. The body of
`ionic_tx_service` is a `do ... while`: a `comp_index` that the walk from `tail_idx` never meets
(one `≥ num_descs`) keeps it going forever, which the model reports as `none` after a whole turn
of the ring.
-/

namespace IonicTxrx

/-- `ionic_tx_clean` for slot `i` with its callback argument `arg`: unmap the slot's buffers and,
for an skb, wake its subqueue if stopped (unless the queue timestamps), record its length in
`desc_info->bytes` and release it. -/
def ionicTxClean (c : TxqCfg) (i : Nat) (arg : Option Skb) (s : TxState) : TxState :=
  let s := ionicTxDescUnmapBufs i s
  match arg with
  | none => s
  | some skb =>
    let qi := skb.queueMapping
    let s := if c.hwstamp then s
      else if s.stopped qi then
        { s.setStopped qi false with stats := { s.stats with wake := s.stats.wake + 1 } }
      else s
    let s := s.setInfo i { s.q.info i with bytes := skb.len }
    { s with stats := { s.stats with clean := s.stats.clean + 1 } }.release skb

/-- The body shared by the loops of `ionic_tx_service` and `ionic_tx_empty`: clean the slot at
`tail_idx`, advance `tail_idx`, and count the packet and bytes of a slot that held an skb. -/
def ionicTxCleanTail (c : TxqCfg) (pkts bytes : Nat) (s : TxState) : Nat × Nat × TxState :=
  let t := s.q.tailIdx
  let s := s.setInfo t { s.q.info t with bytes := 0 }
  let s := { s with q := { s.q with tailIdx := c.ring.next t } }
  let arg := (s.q.info t).cbArg
  let s := ionicTxClean c t arg s
  let (pkts, bytes) := if arg.isSome then (pkts + 1, bytes + (s.q.info t).bytes) else (pkts, bytes)
  (pkts, bytes, s.setInfo t { s.q.info t with cbArg := none })

/-- `netdev_tx_completed_queue(q_to_ndq(q), pkts, bytes)` when `pkts && bytes` and the queue does
not timestamp. -/
def TxState.bqlCompleted (s : TxState) (c : TxqCfg) (pkts bytes : Nat) : TxState :=
  if pkts ≠ 0 ∧ bytes ≠ 0 ∧ !c.hwstamp then
    { s with bql := { s.bql with doneBytes := s.bql.doneBytes + bytes, donePkts := s.bql.donePkts + pkts } }
  else s

theorem TxState.bqlCompleted_q (s : TxState) (c : TxqCfg) (pkts bytes : Nat) : (s.bqlCompleted c pkts bytes).q = s.q := by
  unfold bqlCompleted; split_ifs <;> rfl

/-- The `do ... while (index != comp_index)` loop of `ionic_tx_service`. -/
def ionicTxServiceLoop (c : TxqCfg) (compIndex : Nat) : Nat → Nat → Nat → TxState →
    Option (Nat × Nat × TxState)
  | 0, _, _, _ => none
  | fuel + 1, pkts, bytes, s =>
    let index := s.q.tailIdx
    let (pkts, bytes, s) := ionicTxCleanTail c pkts bytes s
    if index ≠ compIndex then ionicTxServiceLoop c compIndex fuel pkts bytes s else some (pkts, bytes, s)

/-- `ionic_tx_service` for a completion entry whose color matches or not, naming `comp_index`:
whether work was done, and the state after. -/
def ionicTxService (c : TxqCfg) (colorMatch : Bool) (compIndex : Nat) (s : TxState) :
    Option (Bool × TxState) :=
  if !colorMatch then some (false, s)
  else (ionicTxServiceLoop c compIndex c.ring.numDescs 0 0 s).map fun (pkts, bytes, s) =>
    (true, s.bqlCompleted c pkts bytes)

/-- The `while (q->head_idx != q->tail_idx)` loop of `ionic_tx_empty`. -/
def ionicTxEmptyLoop (c : TxqCfg) : Nat → Nat → Nat → TxState → Option (Nat × Nat × TxState)
  | 0, _, _, _ => none
  | fuel + 1, pkts, bytes, s =>
    if s.q.headIdx = s.q.tailIdx then some (pkts, bytes, s)
    else
      let (pkts, bytes, s) := ionicTxCleanTail c pkts bytes s
      ionicTxEmptyLoop c fuel pkts bytes s

/-- `ionic_tx_empty`: clean every slot still in flight. -/
def ionicTxEmpty (c : TxqCfg) (s : TxState) : Option TxState :=
  (ionicTxEmptyLoop c (c.ring.numDescs + 1) 0 0 s).map fun (pkts, bytes, s) => s.bqlCompleted c pkts bytes

end IonicTxrx
