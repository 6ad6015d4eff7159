import IonicTxrx.Rx.Buf

/-!
# Receive completions

`ionic_rx_clean` and `ionic_rx_service`. A completion with a nonzero status or a length beyond
`mtu + ETH_HLEN + VLAN_HLEN` is dropped and its slot keeps its buffers; an accepted one is copied
out (`len <= rx_copybreak`) or handed up as page fragments, and either way the packet carries
the hash, checksum, VLAN tag and timestamp the completion reports. `ionic_rx_service` cleans one
slot per completion, the one at `tail_idx`, and only when the completion names it. The build
modelled has neither `CSUM_DEBUG` nor `IONIC_DEBUG_STATS`.
-/

namespace IonicTxrx

/-- Modelled from the spec: `IONIC_HWSTAMP_INVALID` (defined outside this repository), "a
reserved all-ones pattern meaning not available". -/
def ionicHwstampInvalid : Nat := 2 ^ 64 - 1

/-- The part of `ionic_rx_clean` after the skb is built: the hash, checksum, VLAN tag and
timestamp it records on packet `pkt`, and the counters it bumps. -/
def ionicRxMeta (c : RxqCfg) (lif : RxLif) (comp : RxComp) (pkt : RxPkt) (st : RxStats) : RxPkt × RxStats :=
  let hash := if lif.rxhash then
      match comp.pktType with
      | .ipv4 | .ipv6 => some (comp.rssHash, .l3)
      | .ipv4Tcp | .ipv6Tcp | .ipv4Udp | .ipv6Udp => some (comp.rssHash, .l4)
      | .other => none
    else none
  let csum := if lif.rxcsum && comp.csumCalc then some comp.csum else none
  let st := if comp.csumBad then { st with csumError := st.csumError + 1 } else st
  let vlanTci := if lif.vlanRx && comp.vlan then some comp.vlanTci else none
  let (hwstamp, st) :=
    if !c.hwstamp then (none, st)
    else if comp.hwstamp ≠ ionicHwstampInvalid then (some comp.hwstamp, { st with hwstampValid := st.hwstampValid + 1 })
    else (none, { st with hwstampInvalid := st.hwstampInvalid + 1 })
  ({ pkt with hash := hash, csum := csum, vlanTci := vlanTci, hwstamp := hwstamp }, st)

/-- `ionic_rx_clean` of slot `d` for completion `comp`: the slot after, and the state with the
packet handed up or counted as dropped. -/
def ionicRxClean (b : RxBuild) (c : RxqCfg) (lif : RxLif) (env : RxEnv) (d : RxDescInfo) (comp : RxComp)
    (s : RxState) : RxDescInfo × RxState :=
  let drop (s : RxState) : RxState := { s with stats := { s.stats with dropped := s.stats.dropped + 1 } }
  if comp.status ≠ 0 then (d, drop s)
  else if comp.len > lif.mtu + ethHlen + vlanHlen then (d, drop s)
  else
    let s := { s with stats := { s.stats with pkts := s.stats.pkts + 1, bytes := s.stats.bytes + comp.len } }
    if comp.len ≤ lif.rxCopybreak then
      match ionicRxCopybreak env d comp s with
      | (none, s) => (d, drop s)
      | (some src, s) =>
        let (pkt, st) := ionicRxMeta c lif comp ⟨[], some src, comp.len, c.index, none, none, none, none⟩ s.stats
        (d, { s with stats := st, delivered := pkt :: s.delivered })
    else
      match ionicRxFrags b lif.mtu env d comp s with
      | (d, none, s) => (d, drop s)
      | (d, some fs, s) =>
        let (pkt, st) :=
          ionicRxMeta c lif comp ⟨fs, none, (fs.map RxFrag.len).sum, c.index, none, none, none, none⟩ s.stats
        (d, { s with stats := st, frags := s.frags ++ fs, delivered := pkt :: s.delivered })

/-- `ionic_rx_service` for completion `comp`: whether it cleaned a slot, and the state after. -/
def ionicRxService (b : RxBuild) (c : RxqCfg) (lif : RxLif) (env : RxEnv) (comp : RxComp) (s : RxState) :
    Bool × RxState :=
  if !comp.colorMatch then (false, s)
  else if s.q.tailIdx = s.q.headIdx then (false, s)
  else if s.q.tailIdx ≠ comp.compIndex then (false, s)
  else
    let t := s.q.tailIdx
    let s := { s with q := { s.q with tailIdx := c.ring.next t } }
    let (d, s) := ionicRxClean b c lif env (s.q.info t) comp s
    (true, s.setInfo t d)

end IonicTxrx
