import IonicTxrx.Ring
import IonicTxrx.Kernel

/-!
# Transmit-side data

The network buffer (`struct sk_buff`) as the transmit path reads it, the software state of one
TX slot, the descriptor the driver writes for the device, and the kernel state the transmit path
changes: released buffers, subqueue stop flags and the byte-queue-limit (BQL)
counters. The kernel services themselves (DMA mapping, `skb_linearize`, `skb_cow_head`,
`netdev_xmit_more`) are inputs: their outcome for one call is a `TxEnv`.
-/

namespace IonicTxrx

/-- The part of `struct sk_buff` and its `skb_shared_info` that the transmit path reads. -/
structure Skb where
  /-- Identity of the buffer, to follow its release. -/
  id : Nat
  /-- `skb_headlen(skb)`: bytes in the linear head. -/
  headlen : Nat
  /-- `skb_frag_size` of each entry of `skb_shinfo(skb)->frags`. -/
  frags : List Nat
  /-- `skb_shinfo(skb)->gso_size`; the skb is GSO when it is nonzero (`skb_is_gso`). -/
  gsoSize : Nat
  /-- `skb_shinfo(skb)->gso_segs`. -/
  gsoSegs : Nat
  /-- The header length `ionic_tx_tso` computes: the offset through the TCP header (the inner
  one when the skb is encapsulated). -/
  hdrlen : Nat
  /-- `skb_get_queue_mapping(skb)`. -/
  queueMapping : Nat
  /-- `skb->ip_summed == CHECKSUM_PARTIAL`. -/
  csumPartial : Bool
  /-- `skb_shinfo(skb)->tx_flags & SKBTX_HW_TSTAMP`. -/
  hwTstamp : Bool
  deriving DecidableEq, Repr

namespace Skb

/-- `skb->len`: the head and every fragment. -/
def len (s : Skb) : Nat := s.headlen + s.frags.sum

/-- `skb_shinfo(skb)->nr_frags`. -/
def nrFrags (s : Skb) : Nat := s.frags.length

/-- `skb_is_gso(skb)`. -/
def isGso (s : Skb) : Bool := s.gsoSize != 0

/-- `skb_linearize` when it succeeds: every fragment is pulled into the head. -/
def linearize (s : Skb) : Skb := { s with headlen := s.len, frags := [] }

@[simp] theorem linearize_len (s : Skb) : s.linearize.len = s.len := by simp [linearize, len]
@[simp] theorem linearize_nrFrags (s : Skb) : s.linearize.nrFrags = 0 := rfl
@[simp] theorem linearize_isGso (s : Skb) : s.linearize.isGso = s.isGso := rfl
@[simp] theorem linearize_gsoSize (s : Skb) : s.linearize.gsoSize = s.gsoSize := rfl
@[simp] theorem linearize_hdrlen (s : Skb) : s.linearize.hdrlen = s.hdrlen := rfl

/-- What the network stack promises of an skb it hands to `ndo_start_xmit`: it is not empty, and
a GSO skb carries payload past its headers and counts its segments in `gso_segs`. -/
structure Wf (s : Skb) : Prop where
  len_pos : 0 < s.len
  gso : s.isGso → s.hdrlen < s.len ∧ s.gsoSegs = (s.len - s.hdrlen + s.gsoSize - 1) / s.gsoSize

end Skb

/-- `struct ionic_buf_info` on the transmit side: one DMA-mapped piece of a packet. -/
structure TxBufInfo where
  /-- `buf_info->dma_addr`. -/
  dmaAddr : Nat
  /-- `buf_info->len`. -/
  len : Nat
  deriving DecidableEq, Repr

/-- Opcodes of `struct ionic_txq_desc` written by this core. -/
inductive TxOpcode where
  | csumNone
  | csumPartial
  | tso
  deriving DecidableEq, Repr

/-- A TX descriptor as the device reads it: the fields of `ionic_txq_desc` packed by
`encode_txq_desc_cmd`, its `len`, and the scatter-gather elements written to the slot's
`ionic_txq_sg_desc` for it. -/
structure TxqDesc where
  opcode : TxOpcode
  /-- `IONIC_TXQ_DESC_FLAG_TSO_SOT`. -/
  sot : Bool
  /-- `IONIC_TXQ_DESC_FLAG_TSO_EOT`. -/
  eot : Bool
  /-- The `nsge` field: how many SG elements the device reads. -/
  nsge : Nat
  /-- Address of the main buffer. -/
  addr : Nat
  /-- `desc->len`, a 16-bit field. -/
  len : Nat
  /-- The SG elements written for this descriptor, as (address, length). -/
  elems : List (Nat × Nat)
  deriving DecidableEq, Repr

/-- The descriptor of a slot that was never written. -/
def TxqDesc.empty : TxqDesc := ⟨.csumNone, false, false, 0, 0, 0, []⟩

/-- `struct ionic_desc_info` of a TX slot. -/
structure TxDescInfo where
  /-- `desc_info->bufs[]`; entries past `nbufs` keep whatever was last written there. -/
  bufs : Nat → TxBufInfo
  /-- `desc_info->nbufs`: how many of `bufs` are mapped and owned by this slot. -/
  nbufs : Nat
  /-- `desc_info->cb_arg`: the skb this slot releases on completion. -/
  cbArg : Option Skb
  /-- `desc_info->bytes`. -/
  bytes : Nat
  /-- The descriptor last written for this slot. -/
  desc : TxqDesc

/-- The configuration of one TX queue, fixed while it runs. -/
structure TxqCfg where
  ring : Ring
  /-- `q->max_sg_elems`. -/
  maxSgElems : Nat
  /-- `q->features & IONIC_TXQ_F_HWSTAMP`. -/
  hwstamp : Bool

/-- Counters of `struct ionic_tx_stats` and of the queue that this core updates. -/
structure TxStats where
  pkts : Nat := 0
  bytes : Nat := 0
  tso : Nat := 0
  tsoBytes : Nat := 0
  clean : Nat := 0
  linearize : Nat := 0
  dmaMapErr : Nat := 0
  /-- `q->stop`. -/
  stop : Nat := 0
  /-- `q->drop`. -/
  drop : Nat := 0
  /-- `q->wake`. -/
  wake : Nat := 0

/-- The byte-queue-limit counters of the queue's `netdev_queue`: running totals passed to
`netdev_tx_sent_queue` and `netdev_tx_completed_queue`. -/
structure Bql where
  sentBytes : Nat := 0
  sentCalls : Nat := 0
  doneBytes : Nat := 0
  donePkts : Nat := 0
  deriving DecidableEq, Repr

/-- The transmit-side state of one queue together with the kernel state the driver changes. -/
structure TxState where
  q : Queue TxDescInfo
  stats : TxStats
  dma : Dma
  /-- Ids of the skbs released (`dev_kfree_skb`, `dev_consume_skb_any`), most recent first. -/
  released : List Nat
  /-- `__netif_subqueue_stopped`, by subqueue index. -/
  stopped : Nat → Bool
  bql : Bql

/-- A TX queue as it is opened: cursors at zero, every slot zeroed, no mapping, no doorbell, no
subqueue stopped. -/
def TxState.init (index : Nat) : TxState :=
  { q := ⟨index, 0, 0, fun _ => ⟨fun _ => ⟨0, 0⟩, 0, none, 0, TxqDesc.empty⟩, none, 0⟩
    stats := {}, dma := {}, released := [], stopped := fun _ => false, bql := {} }

/-- What the kernel answers during one transmit call. -/
structure TxEnv where
  /-- The value `dma_map_single` returns for the head. -/
  mapHead : Nat
  /-- The value `skb_frag_dma_map` returns for fragment `k`. -/
  mapFrag : Nat → Nat
  /-- `skb_linearize` succeeds. -/
  linearizeOk : Bool
  /-- `skb_cow_head` succeeds. -/
  cowOk : Bool
  /-- `netdev_xmit_more()`. -/
  xmitMore : Bool

/-- The LIF state `ionic_start_xmit` reads. -/
structure Lif where
  /-- `test_bit(IONIC_LIF_F_UP, lif->state)`. -/
  up : Bool
  /-- `lif->hwstamp_txq && lif->phc->ts_config_tx_mode`. -/
  hwstampTx : Bool
  /-- `lif->nxqs`. -/
  nxqs : Nat

/-- `netdev_tx_t`. -/
inductive NetdevTx where
  | ok
  | busy
  deriving DecidableEq, Repr

end IonicTxrx
