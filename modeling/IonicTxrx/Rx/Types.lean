import IonicTxrx.Ring
import IonicTxrx.Kernel

/-!
# Receive-side data

The software state of one RX slot (`struct ionic_desc_info` with its `bufs[]` of
`struct ionic_buf_info`), the descriptor and SG list `ionic_rx_fill` writes for the device, the
completion the device writes back, and the kernel state the receive path changes: page reference
counts, DMA mappings, and the page fragments of the skbs handed to the stack.

The build constants `IONIC_PAGE_ORDER`, `IONIC_PAGE_SIZE`, `IONIC_PAGE_SPLIT_SZ`,
`IONIC_PAGE_SPLIT_MAX_MTU` and `IONIC_RX_MAX_SG_ELEMS`, and the width of
`buf_info->pagecnt_bias`, are defined in headers outside this repository; they are the fields of
`RxBuild`. Pages are numbered in the order `alloc_pages` hands them out. The kernel services
(`alloc_pages`, `dma_map_page`, `dev_page_is_reusable`, skb allocation) are inputs: their answers
during one call are an `RxEnv`.
-/

namespace IonicTxrx

/-- The build constants of the receive path. -/
structure RxBuild where
  /-- `IONIC_PAGE_ORDER > 0`: a page is shared by several buffers through `pagecnt_bias`. -/
  orderPos : Bool
  /-- `IONIC_PAGE_SIZE`. -/
  pageSize : Nat
  /-- `IONIC_PAGE_SPLIT_SZ`, a power of two. -/
  splitSz : Nat
  /-- `IONIC_PAGE_SPLIT_MAX_MTU`. -/
  splitMaxMtu : Nat
  /-- `IONIC_RX_MAX_SG_ELEMS`. -/
  maxSgElems : Nat
  /-- The width in bits of `buf_info->pagecnt_bias`. -/
  biasBits : Nat
  pageSize_pos : 0 < pageSize
  splitSz_pos : 0 < splitSz

/-- `ETH_HLEN`. -/
def ethHlen : Nat := 14

/-- `VLAN_HLEN`. -/
def vlanHlen : Nat := 4

/-- `IONIC_PAGE_SIZE - page_offset` as `min_t(u16, ..)` sees it: computed in `unsigned long`,
then truncated to 16 bits (`room_eq`). It is written without adding `2 ^ 64` to the offset, which
the kernel would unfold one unit at a time. -/
def RxBuild.room (b : RxBuild) (off : Nat) : Nat :=
  if off ≤ b.pageSize then (b.pageSize - off) % 2 ^ 16 else (2 ^ 64 - (off - b.pageSize)) % 2 ^ 16

theorem RxBuild.room_eq (b : RxBuild) (off : Nat) : b.room off = (b.pageSize + 2 ^ 64 - off) % 2 ^ 16 := by
  unfold RxBuild.room
  split <;> omega

/-- Inside the page, the room ends at or before the page's end. -/
theorem RxBuild.room_le (b : RxBuild) {off : Nat} (h : off ≤ b.pageSize) : b.room off ≤ b.pageSize - off := by
  rw [RxBuild.room, if_pos h]
  exact Nat.mod_le _ _

/-- `nsplits - 1`, computed in `unsigned int` and stored in `pagecnt_bias` (`splitBias_eq`). -/
def RxBuild.splitBias (b : RxBuild) (nsplits : Nat) : Nat :=
  (if nsplits = 0 then 2 ^ 32 - 1 else (nsplits - 1) % 2 ^ 32) % 2 ^ b.biasBits

theorem RxBuild.splitBias_eq (b : RxBuild) (n : Nat) :
    b.splitBias n = (n + 2 ^ 32 - 1) % 2 ^ 32 % 2 ^ b.biasBits := by
  have h : (if n = 0 then 2 ^ 32 - 1 else (n - 1) % 2 ^ 32) = (n + 2 ^ 32 - 1) % 2 ^ 32 := by
    split <;> omega
  rw [RxBuild.splitBias, h]

/-- `pagecnt_bias--` (`biasDec_eq`). -/
def RxBuild.biasDec (b : RxBuild) (bias : Nat) : Nat :=
  if bias = 0 then 2 ^ b.biasBits - 1 else (bias - 1) % 2 ^ b.biasBits

theorem RxBuild.biasDec_eq (b : RxBuild) (bias : Nat) :
    b.biasDec bias = (bias + 2 ^ b.biasBits - 1) % 2 ^ b.biasBits := by
  have hp := Nat.one_le_two_pow (n := b.biasBits)
  unfold RxBuild.biasDec
  split
  · subst bias
    rw [Nat.zero_add, Nat.mod_eq_of_lt (by omega)]
  · rw [show bias + 2 ^ b.biasBits - 1 = bias - 1 + 2 ^ b.biasBits by omega, Nat.add_mod_right]

/-- `ALIGN(x, a)` for a power of two `a`: `x` rounded up to a multiple of `a`. -/
def align (x a : Nat) : Nat := (x + a - 1) / a * a

theorem le_align (x : Nat) {a : Nat} (ha : 0 < a) : x ≤ align x a := by
  unfold align
  have h := Nat.lt_succ_of_le (Nat.div_mul_le_self (x + a - 1) a)
  have h2 := Nat.lt_div_mul_add (a := x + a - 1) ha
  omega

/-- `struct ionic_buf_info` of an RX buffer. -/
structure RxBufInfo where
  /-- `buf_info->page`, `none` for `NULL`. -/
  page : Option Nat
  dmaAddr : Nat
  pageOffset : Nat
  /-- `buf_info->pagecnt_bias`, present in a build with `IONIC_PAGE_ORDER > 0`. -/
  pagecntBias : Nat
  deriving DecidableEq, Repr

/-- A zeroed `ionic_buf_info`. -/
def RxBufInfo.empty : RxBufInfo := ⟨none, 0, 0, 0⟩

/-- `IONIC_RXQ_DESC_OPCODE_SIMPLE` or `IONIC_RXQ_DESC_OPCODE_SG`. -/
inductive RxqOpcode where
  | simple
  | sg
  deriving DecidableEq, Repr

/-- `struct ionic_rxq_desc` as `ionic_rx_fill` writes it. -/
structure RxqDesc where
  opcode : RxqOpcode
  addr : Nat
  len : Nat
  deriving DecidableEq, Repr

/-- `struct ionic_desc_info` of an RX slot, with the slot's SG list. -/
structure RxDescInfo where
  /-- `desc_info->bufs[]`; an entry past `nbufs` keeps the page it last held. -/
  bufs : Nat → RxBufInfo
  nbufs : Nat
  /-- The descriptor last committed for this slot. -/
  desc : RxqDesc
  /-- `desc_info->sg_desc->elems[]`: the address and length of each SG element. -/
  sgElems : Nat → Nat × Nat

/-- A slot that was never written. -/
def RxDescInfo.empty : RxDescInfo := ⟨fun _ => .empty, 0, ⟨.simple, 0, 0⟩, fun _ => (0, 0)⟩

/-- The packet type of a completion (`comp->pkt_type_color & IONIC_RXQ_COMP_PKT_TYPE_MASK`). -/
inductive RxPktType where
  | ipv4
  | ipv6
  | ipv4Tcp
  | ipv6Tcp
  | ipv4Udp
  | ipv6Udp
  | other
  deriving DecidableEq, Repr

/-- `struct ionic_rxq_comp`, and the hardware timestamp word stored before it in the completion
descriptor. -/
structure RxComp where
  status : Nat := 0
  /-- `le16_to_cpu(comp->comp_index)`. -/
  compIndex : Nat := 0
  /-- `color_match(comp->pkt_type_color, cq->done_color)`. -/
  colorMatch : Bool := true
  /-- `le16_to_cpu(comp->len)`. -/
  len : Nat
  /-- `comp->num_sg_elems`, a `u8` the device writes. -/
  numSgElems : Nat := 0
  pktType : RxPktType := .other
  rssHash : Nat := 0
  csum : Nat := 0
  /-- `IONIC_RXQ_COMP_CSUM_F_CALC` in `comp->csum_flags`. -/
  csumCalc : Bool := false
  /-- `IONIC_RXQ_COMP_CSUM_F_TCP_BAD`, `_UDP_BAD` or `_IP_BAD` in `comp->csum_flags`. -/
  csumBad : Bool := false
  /-- `IONIC_RXQ_COMP_CSUM_F_VLAN` in `comp->csum_flags`. -/
  vlan : Bool := false
  vlanTci : Nat := 0
  hwstamp : Nat := 0

/-- The netdev and LIF settings the receive path reads. -/
structure RxLif where
  mtu : Nat
  /-- `lif->rx_copybreak`. -/
  rxCopybreak : Nat
  /-- `netdev->features & NETIF_F_RXHASH`. -/
  rxhash : Bool := true
  /-- `netdev->features & NETIF_F_RXCSUM`. -/
  rxcsum : Bool := true
  /-- `netdev->features & NETIF_F_HW_VLAN_CTAG_RX`. -/
  vlanRx : Bool := true

/-- The configuration of one RX queue, fixed while it runs. -/
structure RxqCfg where
  ring : Ring
  /-- `q->index`. -/
  index : Nat
  /-- `q->max_sg_elems`. -/
  maxSgElems : Nat
  /-- `q->features & IONIC_RXQ_F_HWSTAMP`. -/
  hwstamp : Bool

/-- A page fragment attached to an skb: `len` bytes of page `page` from offset `off`. -/
structure RxFrag where
  page : Nat
  off : Nat
  len : Nat
  deriving DecidableEq, Repr

/-- The hash `skb_set_hash` records. -/
inductive RxHashType where
  | l3
  | l4
  deriving DecidableEq, Repr

/-- A packet `ionic_rx_clean` hands to the stack. -/
structure RxPkt where
  /-- The page fragments of an skb built by `ionic_rx_frags`; empty for a copied packet. -/
  frags : List RxFrag
  /-- For an skb built by `ionic_rx_copybreak` and passed to `napi_gro_receive`: the bytes of
  `bufs[0]`'s page it synced and copied into the skb. -/
  copiedFrom : Option RxFrag
  len : Nat
  /-- `skb_record_rx_queue`. -/
  queue : Nat
  hash : Option (Nat × RxHashType)
  /-- `skb->csum` with `CHECKSUM_COMPLETE`. -/
  csum : Option Nat
  vlanTci : Option Nat
  /-- The raw hardware timestamp `ionic_lif_phc_ktime` converts. -/
  hwstamp : Option Nat
  deriving DecidableEq, Repr

/-- Counters of `struct ionic_rx_stats` this core updates (the build modelled has no
`IONIC_DEBUG_STATS`). -/
structure RxStats where
  pkts : Nat := 0
  bytes : Nat := 0
  dropped : Nat := 0
  allocErr : Nat := 0
  dmaMapErr : Nat := 0
  csumError : Nat := 0
  hwstampValid : Nat := 0
  hwstampInvalid : Nat := 0
  deriving DecidableEq, Repr

/-- What the kernel answers during one call of the receive path. -/
structure RxEnv where
  /-- `alloc_pages` succeeds when page `p` is the one it would hand out. -/
  allocOk : Nat → Bool
  /-- The address `dma_map_page` returns for page `p`. -/
  mapPage : Nat → Nat
  /-- `dev_page_is_reusable(page)`. -/
  reusable : Nat → Bool
  /-- `napi_get_frags` or `napi_alloc_skb` returns an skb. -/
  skbOk : Bool
  /-- Pages freed earlier that `alloc_pages` may hand back, in the order it would try them
  (`RxEnv.allocPage`). -/
  freePages : List Nat

/-- The receive-side state of one queue together with the kernel state the driver changes. -/
structure RxState where
  q : Queue RxDescInfo
  /-- `page_ref_count` of each page. -/
  refs : Nat → Int
  dma : Dma
  /-- One above every page `alloc_pages` has handed out: the page it hands out when no freed
  page comes back. -/
  nextPage : Nat
  /-- The page fragments of the skbs handed to the stack and not yet freed. -/
  frags : List RxFrag
  /-- The packets handed to the stack, most recent first. -/
  delivered : List RxPkt
  stats : RxStats

/-- An RX queue as it is allocated: cursors at zero, every slot zeroed, no page. -/
def RxState.init (index : Nat) : RxState :=
  ⟨⟨index, 0, 0, fun _ => .empty, none, 0⟩, fun _ => 0, {}, 0, [], [], {}⟩

namespace RxState

variable (s : RxState)

/-- `get_page`. -/
def getPage (p : Nat) : RxState := { s with refs := Function.update s.refs p (s.refs p + 1) }

/-- `put_page` or `__free_pages` of one reference. -/
def putPage (p : Nat) : RxState := { s with refs := Function.update s.refs p (s.refs p - 1) }

/-- `page_ref_add`. -/
def pageRefAdd (p n : Nat) : RxState := { s with refs := Function.update s.refs p (s.refs p + n) }

/-- `page_ref_sub`. -/
def pageRefSub (p n : Nat) : RxState := { s with refs := Function.update s.refs p (s.refs p - n) }

/-- Freeing an skb drops the page reference each of its fragments holds. -/
def putFrags (fs : List RxFrag) : RxState := fs.foldl (fun s f => s.putPage f.page) s

/-- The stack frees a fragment of a packet it was handed. -/
def stackFree (f : RxFrag) : RxState :=
  if f ∈ s.frags then { s.putPage f.page with frags := s.frags.erase f } else s

/-- Replace the software state of slot `i`. -/
def setInfo (i : Nat) (d : RxDescInfo) : RxState := { s with q := s.q.setInfo i d }

@[simp] theorem setInfo_q (i : Nat) (d : RxDescInfo) : (s.setInfo i d).q = s.q.setInfo i d := rfl
@[simp] theorem setInfo_frags (i : Nat) (d : RxDescInfo) : (s.setInfo i d).frags = s.frags := rfl
@[simp] theorem setInfo_nextPage (i : Nat) (d : RxDescInfo) : (s.setInfo i d).nextPage = s.nextPage := rfl
@[simp] theorem setInfo_delivered (i : Nat) (d : RxDescInfo) : (s.setInfo i d).delivered = s.delivered := rfl
@[simp] theorem getPage_q (p : Nat) : (s.getPage p).q = s.q := rfl
@[simp] theorem getPage_frags (p : Nat) : (s.getPage p).frags = s.frags := rfl
@[simp] theorem getPage_nextPage (p : Nat) : (s.getPage p).nextPage = s.nextPage := rfl
@[simp] theorem putPage_q (p : Nat) : (s.putPage p).q = s.q := rfl
@[simp] theorem putPage_frags (p : Nat) : (s.putPage p).frags = s.frags := rfl
@[simp] theorem putPage_nextPage (p : Nat) : (s.putPage p).nextPage = s.nextPage := rfl
@[simp] theorem pageRefAdd_q (p n : Nat) : (s.pageRefAdd p n).q = s.q := rfl
@[simp] theorem pageRefAdd_frags (p n : Nat) : (s.pageRefAdd p n).frags = s.frags := rfl
@[simp] theorem pageRefAdd_nextPage (p n : Nat) : (s.pageRefAdd p n).nextPage = s.nextPage := rfl
@[simp] theorem pageRefSub_q (p n : Nat) : (s.pageRefSub p n).q = s.q := rfl
@[simp] theorem pageRefSub_frags (p n : Nat) : (s.pageRefSub p n).frags = s.frags := rfl
@[simp] theorem pageRefSub_nextPage (p n : Nat) : (s.pageRefSub p n).nextPage = s.nextPage := rfl

theorem putFrags_frame (fs : List RxFrag) :
    (s.putFrags fs).q = s.q ∧ (s.putFrags fs).frags = s.frags ∧ (s.putFrags fs).nextPage = s.nextPage := by
  induction fs generalizing s with
  | nil => exact ⟨rfl, rfl, rfl⟩
  | cons f fs ih => exact ih (s.putPage f.page)

@[simp] theorem putFrags_q (fs : List RxFrag) : (s.putFrags fs).q = s.q := (putFrags_frame s fs).1
@[simp] theorem putFrags_frags (fs : List RxFrag) : (s.putFrags fs).frags = s.frags := (putFrags_frame s fs).2.1
@[simp] theorem putFrags_nextPage (fs : List RxFrag) : (s.putFrags fs).nextPage = s.nextPage :=
  (putFrags_frame s fs).2.2

end RxState

end IonicTxrx
