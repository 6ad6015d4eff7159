import IonicTxrx.Rx.Account
import IonicTxrx.Tx.Own

/-!
# One NAPI context for a queue pair

`ionic_txrx_napi` runs on the NAPI context of an RX queue and also services the TX queue of the
same index: it services the TX completion ring with `tx_budget` and the RX one with the poll's
`budget`, refills the RX queue as `ionic_rx_napi` does, pokes the doorbell of each queue that had
no work, and re-arms the RX queue's NAPI deadline timer when either poke reports descriptors
posted. Over every interleaving of the steps of either queue with its device and of these joint
polls (`TxrxSysReach`), both invariants hold: the TX queue keeps its BQL invariant, the RX queue
its receive invariant and doorbell range, neither completion ring overflows, and a joint poll
returns with `min budget pending` RX completions taken (`txrxSysReach_napi`). The bookkeeping of
both queues holds across these interleavings too: every skb the TX queue accepted is freed or
held once, and every packet the RX device reported is delivered, dropped or still pending
(`txrxSysReach_accounted`).
-/

namespace IonicTxrx

/-- `!rx_work_done && ionic_rxq_poke_doorbell(&rxqcq->q)`: the RX poke, run only when no RX work
was done. -/
def rxPokeIfIdle (t : RxDbellBuild) (now workDone : Nat) (s : RxState) (tm : RxDbell) : Bool × RxState × RxDbell :=
  if workDone = 0 then ionicRxqPokeDoorbell t now s tm else (false, s, tm)

/-- `!tx_work_done && ionic_txq_poke_doorbell(&txqcq->q)`: the TX poke, run only when no TX work
was done. -/
def txPokeIfIdle (now workDone : Nat) (s : TxState) (tm : TxDbell) : Bool × TxState × TxDbell :=
  if workDone = 0 then ionicTxqPokeDoorbell now s tm else (false, s, tm)

/-- `ionic_txrx_napi` at `jiffies = now` without the interrupt credits and DIM, for the RX queue
`rxcq`/`rxs` with its doorbell timing `rtm` and the TX queue `txcq`/`txs` with `ttm`, with the
module parameter `tx_budget`: `rx_work_done`, and each queue's ring, state and timing after. -/
def ionicTxrxNapi (nb : RxNapiBuild) (t : RxDbellBuild) (b : RxBuild) (c : RxqCfg) (lif : RxLif) (env : RxEnv)
    (tc : TxqCfg) (txBudget now budget : Nat) (rxcq : Cq RxComp) (rxs : RxState) (rtm : RxDbell) (txcq : Cq Nat)
    (txs : TxState) (ttm : TxDbell) :
    Option (Nat × (Cq RxComp × RxState × RxDbell) × (Cq Nat × TxState × TxDbell)) :=
  (ionicCqService tc.ring (ionicTxService tc) txBudget txcq txs).bind fun tx =>
  (ionicCqService c.ring (ionicRxServiceCb b c lif env) budget rxcq rxs).map fun rx =>
    let f := ionicRxNapiFill nb t b c lif env now rx.1 rx.2.2 rtm
    let rp := rxPokeIfIdle t now rx.1 f.1 f.2
    let tp := txPokeIfIdle now tx.1 tx.2.2 ttm
    -- resched
    let rtm := if rp.1 || tp.1 then { rp.2.2 with napiExpires := some ((now + t.napiDeadline) % 2 ^ 64) }
      else rp.2.2
    (rx.1, (rx.2.1, rp.2.1, rtm), (tx.2.1, tp.2.1, tp.2.2))

/-- An RX queue and the TX queue of the same index, serviced by one NAPI context, each with its
device. -/
structure TxrxSys where
  rx : RxSys
  tx : TxSys

/-- The runs of a queue pair: both queues are opened with empty completion rings and the RX
doorbell deadline in range, then, in any order, either queue takes a step with its device, or the
shared NAPI context polls with any budget at any `jiffies`. -/
inductive TxrxSysReach (nb : RxNapiBuild) (t : RxDbellBuild) (b : RxBuild) (c : RxqCfg) (tc : TxqCfg)
    (txBudget : Nat) : TxrxSys → Prop
  | init {rtm : RxDbell} (ttm : TxDbell) (rcol tcol : Bool) (comp₀ : RxComp) (index : Nat) : rtm.InRange t →
      TxrxSysReach nb t b c tc txBudget
        ⟨⟨RxState.init c.index, rtm, Cq.init rcol comp₀, ⟨0, rcol⟩, 0, 0⟩, ⟨TxState.init index, ttm, Cq.init tcol 0, ⟨0, tcol⟩, 0, []⟩⟩
  | rx {x : TxrxSys} {y : RxSys} : TxrxSysReach nb t b c tc txBudget x → RxSysStep nb t b c x.rx y →
      TxrxSysReach nb t b c tc txBudget { x with rx := y }
  | tx {x : TxrxSys} {y : TxSys} : TxrxSysReach nb t b c tc txBudget x → TxSysStep tc t.napiDeadline x.tx y →
      TxrxSysReach nb t b c tc txBudget { x with tx := y }
  | poll {x : TxrxSys} {lif : RxLif} {env : RxEnv} {now budget w : Nat} {rxcq : Cq RxComp} {rxs : RxState}
      {rtm : RxDbell} {txcq : Cq Nat} {txs : TxState} {ttm : TxDbell} : TxrxSysReach nb t b c tc txBudget x →
      ionicTxrxNapi nb t b c lif env tc txBudget now budget x.rx.cq x.rx.s x.rx.tm x.tx.cq x.tx.s x.tx.tm =
        some (w, (rxcq, rxs, rtm), (txcq, txs, ttm)) →
      TxrxSysReach nb t b c tc txBudget ⟨{ x.rx with cq := rxcq, s := rxs, tm := rtm }, { x.tx with cq := txcq, s := txs, tm := ttm }⟩

section Poll

variable {t : RxDbellBuild} {b : RxBuild} {c : RxqCfg} {tc : TxqCfg}

theorem rxPokeIfIdle_inv {s : RxState} {tm : RxDbell} (now w : Nat) (h : RxInv b c s) (hr : tm.InRange t) :
    RxInv b c (rxPokeIfIdle t now w s tm).2.1 ∧ (rxPokeIfIdle t now w s tm).2.2.InRange t ∧
      (rxPokeIfIdle t now w s tm).2.1.q.tailIdx = s.q.tailIdx ∧ (rxPokeIfIdle t now w s tm).2.1.q.headIdx = s.q.headIdx := by
  unfold rxPokeIfIdle
  split_ifs
  · exact ionicRxqPokeDoorbell_inv now h hr
  · exact ⟨h, hr, rfl, rfl⟩

theorem txPokeIfIdle_inv {s : TxState} {tm : TxDbell} (now w : Nat) (h : BqlInv tc s.view 0 0) :
    BqlInv tc (txPokeIfIdle now w s tm).2.1.view 0 0 ∧ (txPokeIfIdle now w s tm).2.1.q.tailIdx = s.q.tailIdx ∧
      (txPokeIfIdle now w s tm).2.1.q.headIdx = s.q.headIdx := by
  unfold txPokeIfIdle
  split_ifs
  · exact ionicTxqPokeDoorbell_inv now h
  · exact ⟨h, rfl, rfl⟩

/-- A joint poll with any budgets at any `jiffies` returns having taken `min budget pending` RX
completions, and keeps both invariants. -/
theorem TxrxSys.poll (nb : RxNapiBuild) (hc : tc.hwstamp = false) {x : TxrxSys} (hr : RxSysInv t b c x.rx)
    (ht : TxSysInv tc x.tx) (lif : RxLif) (env : RxEnv) (txBudget now budget : Nat) :
    ∃ rxcq rxs rtm txcq txs ttm,
      ionicTxrxNapi nb t b c lif env tc txBudget now budget x.rx.cq x.rx.s x.rx.tm x.tx.cq x.tx.s x.tx.tm =
        some (min budget (cqCount c.ring x.rx.cq x.rx.d), (rxcq, rxs, rtm), (txcq, txs, ttm)) ∧
      RxSysInv t b c { x.rx with cq := rxcq, s := rxs, tm := rtm } ∧
      TxSysInv tc { x.tx with cq := txcq, s := txs, tm := ttm } := by
  obtain ⟨w, txcq, txs₁, hts, -, -, -, ht₁⟩ := ht.service hc txBudget
  obtain ⟨rxcq, rxs₁, hrs, -, -, hr₁⟩ := hr.service lif env budget
  -- the RX refill, then the pokes of the queues that had no work
  obtain ⟨hi₂, hr₂, ht₂, hw₂⟩ :=
    @ionicRxNapiFill_inv b c env rxs₁ t x.rx.tm nb lif now (min budget (cqCount c.ring x.rx.cq x.rx.d)) hr₁.inv hr₁.range
  have hr₂' := hr₁.grow hi₂ hr₂ ht₂ hw₂
  obtain ⟨hi₃, hr₃, ht₃, hh₃⟩ := rxPokeIfIdle_inv now (min budget (cqCount c.ring x.rx.cq x.rx.d)) hr₂'.inv hr₂'.range
  have hr₃' := hr₂'.grow hi₃ hr₃ ht₃ (hh₃ ▸ le_rfl)
  obtain ⟨ht₄, htt, hth⟩ := @txPokeIfIdle_inv tc txs₁ x.tx.tm now w ht₁.bql
  -- re-arming the NAPI timer leaves the doorbell deadline alone
  refine ⟨rxcq, _, _, txcq, _, _, by simp only [ionicTxrxNapi, hts, hrs, Option.some_bind, Option.map_some']; rfl,
    hr₃'.grow hr₃'.inv (by split_ifs <;> exact hr₃) rfl le_rfl, ht₁.grow _ ht₄ htt (hth ▸ le_rfl)⟩

/-- Every state of a run satisfies both invariants. -/
theorem TxrxSysReach.inv (nb : RxNapiBuild) (hc : tc.hwstamp = false) {txBudget : Nat} {x : TxrxSys}
    (h : TxrxSysReach nb t b c tc txBudget x) : RxSysInv t b c x.rx ∧ TxSysInv tc x.tx := by
  induction h with
  | init ttm rcol tcol comp₀ index hr => exact ⟨RxSysInv.init rcol comp₀ hr, TxSysInv.init index ttm tcol⟩
  | rx _ hs ih => exact ⟨ih.1.step hs, ih.2⟩
  | tx _ hs ih => exact ⟨ih.1, ih.2.step hc hs⟩
  | @poll x lif env now budget w rxcq rxs rtm txcq txs ttm _ hs ih =>
    obtain ⟨rxcq₁, rxs₁, rtm₁, txcq₁, txs₁, ttm₁, hs₁, hr, ht⟩ := TxrxSys.poll nb hc ih.1 ih.2 lif env txBudget now budget
    rw [hs] at hs₁
    simp only [Option.some.injEq, Prod.mk.injEq] at hs₁
    obtain ⟨-, ⟨rfl, rfl, rfl⟩, rfl, rfl, rfl⟩ := hs₁
    exact ⟨hr, ht⟩

end Poll

/-- Over every interleaving of the steps of an RX queue and of the TX queue of the same index with
their in-order devices, and of joint polls with any budgets at any `jiffies`, the TX queue keeps
its BQL invariant, the RX queue its receive invariant and doorbell deadline range, neither
completion ring overflows, and `ionic_txrx_napi` returns with `min budget pending` RX completions
taken: neither service stalls or spins. -/
theorem txrxSysReach_napi {nb : RxNapiBuild} {t : RxDbellBuild} {b : RxBuild} {c : RxqCfg} {tc : TxqCfg}
    {txBudget : Nat} {x : TxrxSys} (hc : tc.hwstamp = false) (h : TxrxSysReach nb t b c tc txBudget x) :
    BqlInv tc x.tx.s.view 0 0 ∧ RxInv b c x.rx.s ∧ x.rx.tm.InRange t ∧
      cqCount tc.ring x.tx.cq x.tx.d < tc.ring.numDescs ∧ cqCount c.ring x.rx.cq x.rx.d < c.ring.numDescs ∧
      ∀ lif env now budget, ∃ rx' tx',
        ionicTxrxNapi nb t b c lif env tc txBudget now budget x.rx.cq x.rx.s x.rx.tm x.tx.cq x.tx.s x.tx.tm =
          some (min budget (cqCount c.ring x.rx.cq x.rx.d), rx', tx') := by
  obtain ⟨hr, ht⟩ := h.inv nb hc
  refine ⟨ht.bql, hr.inv, hr.range, ht.cqCount_lt, hr.cqCount_lt, fun lif env now budget => ?_⟩
  obtain ⟨rxcq, rxs, rtm, txcq, txs, ttm, hs, -⟩ := TxrxSys.poll nb hc hr ht lif env txBudget now budget
  exact ⟨_, _, hs⟩

/-- A queue pair of two RX and four TX slots: the RX queue filled and a packet received, a packet
sent and sent on by the TX device, a joint poll at jiffies 4 that takes both completions, and a
second packet received. -/
theorem txrxSysReach_napi_polled :
    let nb : RxNapiBuild := ⟨16, 8⟩
    let t : RxDbellBuild := ⟨1, 8, 2, by decide⟩
    let b : RxBuild := ⟨false, 4096, 2048, 3000, 8, 16, by decide, by decide⟩
    let c : RxqCfg := ⟨⟨2, 1, rfl⟩, 0, 2, false⟩
    let tc : TxqCfg := ⟨⟨4, 2, rfl⟩, 8, false⟩
    let lif : RxLif := { mtu := 1500, rxCopybreak := 256 }
    let env : RxEnv := ⟨fun _ => true, fun p => 4096 * (p + 1), fun _ => true, true, []⟩
    let skb : Skb := ⟨1, 100, [], 0, 0, 0, 0, false, false⟩
    let r₀ : RxSys := ⟨RxState.init 0, ⟨1, 0, none⟩, Cq.init true { len := 0 }, ⟨0, true⟩, 0, 0⟩
    let t₀ : TxSys := ⟨TxState.init 0, ⟨1, 0, none⟩, Cq.init true 0, ⟨0, true⟩, 0, []⟩
    let r₁ : RxSys := ({ r₀ with s := (ionicRxFillTimed t b c lif env 0 r₀.s r₀.tm).1,
                                 tm := (ionicRxFillTimed t b c lif env 0 r₀.s r₀.tm).2 }).devRecv c.ring
      { len := 1000 }
    let s₁ := ((ionicStartXmit ⟨true, false, 1⟩ tc ⟨4096, fun _ => 8192, true, true, false⟩ skb t₀.s).map
      Prod.fst).getD t₀.s
    let t₁ : TxSys := (t₀.afterXmit 2 3 skb s₁ .ok).devSend tc.ring 1
    let p := ((ionicTxrxNapi nb t b c lif env tc 256 4 64 r₁.cq r₁.s r₁.tm t₁.cq t₁.s t₁.tm).map Prod.snd).getD
      ((Cq.init true { len := 0 }, RxState.init 0, ⟨1, 0, none⟩), (Cq.init true 0, TxState.init 0, ⟨1, 0, none⟩))
    let x : TxrxSys := ⟨({ r₁ with cq := p.1.1, s := p.1.2.1, tm := p.1.2.2 }).devRecv c.ring { len := 1000 },
      { t₁ with cq := p.2.1, s := p.2.2.1, tm := p.2.2.2 }⟩
    (x.rx.s.delivered.length, x.tx.s.released, cqCount c.ring x.rx.cq x.rx.d, cqCount tc.ring x.tx.cq x.tx.d) =
        (1, [1], 1, 0) ∧
      BqlInv tc x.tx.s.view 0 0 ∧ RxInv b c x.rx.s ∧ x.rx.tm.InRange t ∧
      cqCount tc.ring x.tx.cq x.tx.d < tc.ring.numDescs ∧ cqCount c.ring x.rx.cq x.rx.d < c.ring.numDescs ∧
      ∀ lif env now budget, ∃ rx' tx',
        ionicTxrxNapi nb t b c lif env tc 256 now budget x.rx.cq x.rx.s x.rx.tm x.tx.cq x.tx.s x.tx.tm =
          some (min budget (cqCount c.ring x.rx.cq x.rx.d), rx', tx') :=
  ⟨by decide!, txrxSysReach_napi rfl
    (.rx
      (@TxrxSysReach.poll _ _ _ _ _ _ _ { mtu := 1500, rxCopybreak := 256 }
        ⟨fun _ => true, fun p => 4096 * (p + 1), fun _ => true, true, []⟩ 4 64 1 _ _ _ _ _ _
        (.tx
          (.rx
            (.tx
              (.rx (@TxrxSysReach.init _ _ _ _ _ _ ⟨1, 0, none⟩ ⟨1, 0, none⟩ true true { len := 0 } 0 (by decide))
                (.fill { mtu := 1500, rxCopybreak := 256 }
                  ⟨fun _ => true, fun p => 4096 * (p + 1), fun _ => true, true, []⟩ 0))
              (@TxSysStep.xmit ⟨⟨4, 2, rfl⟩, 8, false⟩ 2 _ _ ⟨true, false, 1⟩ ⟨4096, fun _ => 8192, true, true, false⟩
                ⟨1, 100, [], 0, 0, 0, 0, false, false⟩ .ok 3 ⟨by decide, fun h => absurd h (by decide)⟩ (by decide!)
                (eq_some_of_map_snd (TxState.init 0) (by decide!))))
            (.recv { len := 1000 } (by decide!)))
          (@TxSysStep.send ⟨⟨4, 2, rfl⟩, 8, false⟩ 2 _ 1 (by decide!) (by decide!)))
        (eq_some_of_map_fst ((Cq.init true { len := 0 }, RxState.init 0, ⟨1, 0, none⟩),
          (Cq.init true 0, TxState.init 0, ⟨1, 0, none⟩)) (by decide!)))
      (.recv { len := 1000 } (by decide!)))⟩

/-! ## Bookkeeping of the pair -/

section Accounting

variable {nb : RxNapiBuild} {t : RxDbellBuild} {b : RxBuild} {c : RxqCfg} {tc : TxqCfg}

theorem rxPokeIfIdle_handled {s : RxState} {tm : RxDbell} (now w : Nat) :
    (rxPokeIfIdle t now w s tm).2.1.handled = s.handled := by
  unfold rxPokeIfIdle
  split_ifs
  · exact ionicRxqPokeDoorbell_handled s
  · rfl

theorem txPokeIfIdle_ownCount {s : TxState} {tm : TxDbell} (now w k : Nat) :
    (txPokeIfIdle now w s tm).2.1.ownCount tc k = s.ownCount tc k := by
  unfold txPokeIfIdle ionicTxqPokeDoorbell
  split_ifs <;> rfl

/-- The bookkeeping of a queue pair: every packet the RX device reported is handled or pending,
and every skb the TX queue accepted is freed or held, once. -/
def TxrxSys.Accounted (c : RxqCfg) (tc : TxqCfg) (x : TxrxSys) : Prop := x.rx.Balanced c ∧ TxOwned tc x.tx

/-- A joint poll moves as many RX completions from pending to handled as it takes, and frees
exactly the skbs its TX service takes out of their slots. -/
theorem TxrxSys.Accounted.poll {x : TxrxSys} (hr : RxSysInv t b c x.rx) (ht : TxSysInv tc x.tx)
    (ha : x.Accounted c tc) {lif : RxLif} {env : RxEnv} {txBudget now budget w : Nat} {rxcq : Cq RxComp}
    {rxs : RxState} {rtm : RxDbell} {txcq : Cq Nat} {txs : TxState} {ttm : TxDbell}
    (hs : ionicTxrxNapi nb t b c lif env tc txBudget now budget x.rx.cq x.rx.s x.rx.tm x.tx.cq x.tx.s x.tx.tm =
      some (w, (rxcq, rxs, rtm), (txcq, txs, ttm))) :
    TxrxSys.Accounted c tc ⟨{ x.rx with cq := rxcq, s := rxs, tm := rtm }, { x.tx with cq := txcq, s := txs, tm := ttm }⟩ := by
  obtain ⟨⟨wt, txcq₁, txs₁⟩, hts, hs⟩ := Option.bind_eq_some.mp hs
  obtain ⟨⟨wr, rxcq₁, rxs₁⟩, hrs, he⟩ := Option.map_eq_some'.mp hs
  simp only [Prod.mk.injEq] at he
  obtain ⟨-, ⟨rfl, hrxs, -⟩, rfl, htxs, -⟩ := he
  obtain ⟨rxcq₂, rxs₂, hrs₂, hc₂, -, -⟩ := hr.service lif env budget
  rw [hrs] at hrs₂
  simp only [Option.some.injEq, Prod.mk.injEq] at hrs₂
  obtain ⟨rfl, rfl, rfl⟩ := hrs₂
  refine ⟨?_, fun k => ?_⟩
  · -- the RX service handles what it takes; the refill and the poke touch nothing counted
    have hb : x.rx.s.handled + cqCount c.ring x.rx.cq x.rx.d = x.rx.received := ha.1
    show rxs.handled + cqCount c.ring _ x.rx.d = x.rx.received
    rw [← hrxs, rxPokeIfIdle_handled, ionicRxNapiFill_handled, ionicCqService_handled hrs, hc₂]
    omega
  · show txs.ownCount tc k = x.tx.accepted.count k
    rw [← htxs, txPokeIfIdle_ownCount, TxOwned.service ht hts k]
    exact ha.2 k

/-- Every state of a run of the pair keeps the bookkeeping of both queues. -/
theorem TxrxSysReach.accounted (hc : tc.hwstamp = false) {txBudget : Nat} {x : TxrxSys}
    (h : TxrxSysReach nb t b c tc txBudget x) : x.Accounted c tc := by
  induction h with
  | init ttm rcol tcol comp₀ index hr =>
    exact ⟨(@RxSysReach.init nb t b c _ rcol comp₀ hr).balanced, TxOwned.init index ttm tcol⟩
  | rx hx hs ih => exact ⟨ih.1.step (hx.inv nb hc).1 hs, ih.2⟩
  | tx hx hs ih => exact ⟨ih.1, ih.2.step hc (hx.inv nb hc).2 hs⟩
  | poll hx hs ih => exact ih.poll (hx.inv nb hc).1 (hx.inv nb hc).2 hs

end Accounting

/-- No packet or skb is lost or handled twice on a queue pair: over every interleaving of the
steps of both queues with their devices and of joint polls with any budgets, every skb the TX
queue accepted has been freed or sits in a slot, once in all, and the packets the RX queue
delivered and dropped, with its pending completions, add up to the packets its device reported. -/
theorem txrxSysReach_accounted {nb : RxNapiBuild} {t : RxDbellBuild} {b : RxBuild} {c : RxqCfg} {tc : TxqCfg}
    {txBudget : Nat} {x : TxrxSys} (hc : tc.hwstamp = false) (h : TxrxSysReach nb t b c tc txBudget x) :
    (∀ k, x.tx.s.released.count k + heldCount tc.ring.numDescs k (fun i => (x.tx.s.q.info i).cbArg) =
        x.tx.accepted.count k) ∧
      x.rx.s.delivered.length + x.rx.s.stats.dropped + cqCount c.ring x.rx.cq x.rx.d = x.rx.received :=
  ⟨(h.accounted hc).2, (h.accounted hc).1⟩

/-- The queue pair of the run above: the skb sent has been freed and one RX packet handed up, one
pending. -/
theorem txrxSysReach_accounted_polled :
    let nb : RxNapiBuild := ⟨16, 8⟩
    let t : RxDbellBuild := ⟨1, 8, 2, by decide⟩
    let b : RxBuild := ⟨false, 4096, 2048, 3000, 8, 16, by decide, by decide⟩
    let c : RxqCfg := ⟨⟨2, 1, rfl⟩, 0, 2, false⟩
    let tc : TxqCfg := ⟨⟨4, 2, rfl⟩, 8, false⟩
    let lif : RxLif := { mtu := 1500, rxCopybreak := 256 }
    let env : RxEnv := ⟨fun _ => true, fun p => 4096 * (p + 1), fun _ => true, true, []⟩
    let skb : Skb := ⟨1, 100, [], 0, 0, 0, 0, false, false⟩
    let r₀ : RxSys := ⟨RxState.init 0, ⟨1, 0, none⟩, Cq.init true { len := 0 }, ⟨0, true⟩, 0, 0⟩
    let t₀ : TxSys := ⟨TxState.init 0, ⟨1, 0, none⟩, Cq.init true 0, ⟨0, true⟩, 0, []⟩
    let r₁ : RxSys := ({ r₀ with s := (ionicRxFillTimed t b c lif env 0 r₀.s r₀.tm).1,
                                 tm := (ionicRxFillTimed t b c lif env 0 r₀.s r₀.tm).2 }).devRecv c.ring
      { len := 1000 }
    let s₁ := ((ionicStartXmit ⟨true, false, 1⟩ tc ⟨4096, fun _ => 8192, true, true, false⟩ skb t₀.s).map
      Prod.fst).getD t₀.s
    let t₁ : TxSys := (t₀.afterXmit 2 3 skb s₁ .ok).devSend tc.ring 1
    let p := ((ionicTxrxNapi nb t b c lif env tc 256 4 64 r₁.cq r₁.s r₁.tm t₁.cq t₁.s t₁.tm).map Prod.snd).getD
      ((Cq.init true { len := 0 }, RxState.init 0, ⟨1, 0, none⟩), (Cq.init true 0, TxState.init 0, ⟨1, 0, none⟩))
    let x : TxrxSys := ⟨({ r₁ with cq := p.1.1, s := p.1.2.1, tm := p.1.2.2 }).devRecv c.ring { len := 1000 },
      { t₁ with cq := p.2.1, s := p.2.2.1, tm := p.2.2.2 }⟩
    (x.tx.accepted, x.rx.received) = ([1], 2) ∧
      (∀ k, x.tx.s.released.count k + heldCount tc.ring.numDescs k (fun i => (x.tx.s.q.info i).cbArg) =
        x.tx.accepted.count k) ∧
      x.rx.s.delivered.length + x.rx.s.stats.dropped + cqCount c.ring x.rx.cq x.rx.d = x.rx.received :=
  ⟨by decide!, @txrxSysReach_accounted ⟨16, 8⟩ ⟨1, 8, 2, by decide⟩ ⟨false, 4096, 2048, 3000, 8, 16, by decide, by decide⟩
    _ _ 256 _ rfl
    (.rx
      (@TxrxSysReach.poll _ _ _ _ _ _ _ { mtu := 1500, rxCopybreak := 256 }
        ⟨fun _ => true, fun p => 4096 * (p + 1), fun _ => true, true, []⟩ 4 64 1 _ _ _ _ _ _
        (.tx
          (.rx
            (.tx
              (.rx (@TxrxSysReach.init _ _ _ _ _ _ ⟨1, 0, none⟩ ⟨1, 0, none⟩ true true { len := 0 } 0 (by decide))
                (.fill { mtu := 1500, rxCopybreak := 256 }
                  ⟨fun _ => true, fun p => 4096 * (p + 1), fun _ => true, true, []⟩ 0))
              (@TxSysStep.xmit ⟨⟨4, 2, rfl⟩, 8, false⟩ 2 _ _ ⟨true, false, 1⟩ ⟨4096, fun _ => 8192, true, true, false⟩
                ⟨1, 100, [], 0, 0, 0, 0, false, false⟩ .ok 3 ⟨by decide, fun h => absurd h (by decide)⟩ (by decide!)
                (eq_some_of_map_snd (TxState.init 0) (by decide!))))
            (.recv { len := 1000 } (by decide!)))
          (@TxSysStep.send ⟨⟨4, 2, rfl⟩, 8, false⟩ 2 _ 1 (by decide!) (by decide!)))
        (eq_some_of_map_fst ((Cq.init true { len := 0 }, RxState.init 0, ⟨1, 0, none⟩),
          (Cq.init true 0, TxState.init 0, ⟨1, 0, none⟩)) (by decide!)))
      (.recv { len := 1000 } (by decide!)))⟩

end IonicTxrx
