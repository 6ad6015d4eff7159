import IonicTxrx.Cq
import IonicTxrx.Rx.Doorbell
import IonicTxrx.Tx.Run
import IonicTxrx.Tx.Service

/-!
# The transmit completion path as a system

`ionic_tx_napi` and `ionic_tx_flush` service the TX completion ring with `ionic_tx_service` as
the callback of `ionic_cq_service`; a poll that found no work then pokes the doorbell
(`ionic_txq_poke_doorbell`) and re-arms the NAPI deadline timer. Here the loop is closed with the
device as the spec describes it: the device sends posted slots in order and reports each batch
with one completion naming its last slot ("one completion can finalize several descriptors, e.g.
multi-descriptor TSO sends"). Over every interleaving of sends by the stack, batches sent by the
device, polls with any budget at any `jiffies` and flushes (`TxSysReach`), the pending
completions name the last slots of consecutive batches from `tail_idx` up to the device's
cursor, which stays inside the window (`TxSysInv`). So the BQL invariant holds, the completion
ring never overflows, and a poll or a flush always returns (`txSysReach_safe`): each completion
names a posted slot, which the `do ... while` loop of `ionic_tx_service` meets
(`ionicTxService_cleans_unposted` shows what happens otherwise).
-/

namespace IonicTxrx

/-- The doorbell timing of a TX queue: `q->dbell_deadline`, `q->dbell_jiffies` (both also set
outside this repository, by queue setup and by `ionic_q_post` when it rings), and the expiry of
the `napi_deadline` timer of its NAPI context, when armed. -/
structure TxDbell where
  deadline : Nat
  jiffies : Nat
  napiExpires : Option Nat
  deriving DecidableEq, Repr

/-- Modelled from the spec: what `ionic_q_post` (`ionic_dev.c`, not in this repository) does to the
timing when it rings at `jiffies = now`, so that the debounce measures "the time since the last
ring": `q->dbell_jiffies = jiffies`, and
`mod_timer(&napi_qcq->napi_deadline, jiffies + IONIC_NAPI_DEADLINE)`. -/
def TxDbell.ring (napiDeadline now : Nat) (tm : TxDbell) : TxDbell :=
  { tm with jiffies := now, napiExpires := some ((now + napiDeadline) % 2 ^ 64) }

/-- `ionic_txq_poke_doorbell` at `jiffies = now`: whether descriptors are posted, and the queue
and timing after. Unlike the RX poke it leaves `dbell_deadline` as it is. -/
def ionicTxqPokeDoorbell (now : Nat) (s : TxState) (tm : TxDbell) : Bool × TxState × TxDbell :=
  if s.q.tailIdx = s.q.headIdx then (false, s, tm)
  else if ulongSub now tm.jiffies > tm.deadline then
    (true, { s with q := { s.q with dbell := some s.q.headIdx } }, { tm with jiffies := now })
  else (true, s, tm)

/-- The end of `ionic_tx_napi` at `jiffies = now`: when no work was done,
`ionic_txq_poke_doorbell`, and `mod_timer(&qcq->napi_deadline, jiffies + IONIC_NAPI_DEADLINE)`
when it reports descriptors posted. -/
def ionicTxNapiPoke (napiDeadline now workDone : Nat) (s : TxState) (tm : TxDbell) : TxState × TxDbell :=
  if workDone = 0 then
    let p := ionicTxqPokeDoorbell now s tm
    (p.2.1, if p.1 then { p.2.2 with napiExpires := some ((now + napiDeadline) % 2 ^ 64) } else p.2.2)
  else (s, tm)

/-- `ionic_tx_napi` at `jiffies = now` without the interrupt credits and DIM, with
`IONIC_NAPI_DEADLINE = napiDeadline`: service at most `budget` completions with
`ionic_tx_service`, then the poke; `work_done`, and the completion ring, the queue and its timing
after. The completion ring has as many entries as the queue (`ionic_qcq_alloc`, not in this
repository). -/
def ionicTxNapi (c : TxqCfg) (napiDeadline now budget : Nat) (cq : Cq Nat) (s : TxState) (tm : TxDbell) :
    Option (Nat × Cq Nat × TxState × TxDbell) :=
  (ionicCqService c.ring (ionicTxService c) budget cq s).map fun p =>
    (p.1, p.2.1, ionicTxNapiPoke napiDeadline now p.1 p.2.2 tm)

/-- `ionic_tx_flush` without the interrupt credits: service a whole ring's worth of completions. -/
def ionicTxFlush (c : TxqCfg) (cq : Cq Nat) (s : TxState) : Option (Nat × Cq Nat × TxState) :=
  ionicCqService c.ring (ionicTxService c) c.ring.numDescs cq s

theorem ionicTxService_false (c : TxqCfg) (ci : Nat) (s : TxState) : ionicTxService c false ci s = some (false, s) :=
  rfl

/-! ## The device -/

/-- The completions of consecutive batches of `ks` slots sent from slot `t` on, each naming the
last slot of its batch. -/
def txBatchComps (r : Ring) : Nat → List Nat → List Nat
  | _, [] => []
  | t, k :: ks => (t + (k - 1)) % r.numDescs :: txBatchComps r ((t + k) % r.numDescs) ks

theorem txBatchComps_length (r : Ring) (t : Nat) (ks : List Nat) : (txBatchComps r t ks).length = ks.length := by
  induction ks generalizing t <;> simp [txBatchComps, *]

/-- One more batch adds its completion at the end. -/
theorem txBatchComps_append (r : Ring) (k : Nat) :
    ∀ (t : Nat) (ks : List Nat), txBatchComps r t (ks ++ [k]) =
      txBatchComps r t ks ++ [(t + ks.sum + (k - 1)) % r.numDescs]
  | t, [] => by simp [txBatchComps]
  | t, k' :: ks => by
    rw [List.cons_append, txBatchComps, txBatchComps, txBatchComps_append r k _ ks, List.cons_append, List.sum_cons]
    simp only [Nat.add_assoc, Nat.mod_add_mod]

/-- A TX queue with its doorbell timing, its completion ring and the device, and the stack's
record of the skbs the queue took. -/
structure TxSys where
  s : TxState
  tm : TxDbell
  cq : Cq Nat
  d : CqDev
  /-- The slot the device sends next. -/
  sent : Nat
  /-- Ids of the skbs `ionic_start_xmit` answered `NETDEV_TX_OK` for, most recent first: the driver
  owns them from then on, and must free each once. -/
  accepted : List Nat

/-- The TX device, as the spec describes the hardware: it sends the next `k` posted slots from
its cursor and reports them with one completion naming the last. -/
def TxSys.devSend (r : Ring) (k : Nat) (x : TxSys) : TxSys :=
  let p := cqDevPost r x.cq x.d ((x.sent + (k - 1)) % r.numDescs)
  { x with cq := p.1, d := p.2, sent := (x.sent + k) % r.numDescs }

/-- The system after `ionic_start_xmit` of `skb` at `jiffies = now` returned `r` and left the queue
`s'`: a post that rang recorded the time, and the stack handed the skb over unless it was told
`NETDEV_TX_BUSY`. -/
def TxSys.afterXmit (napiDeadline now : Nat) (skb : Skb) (x : TxSys) (s' : TxState) (r : NetdevTx) : TxSys :=
  { x with
    s := s'
    tm := if s'.q.rings = x.s.q.rings then x.tm else x.tm.ring napiDeadline now
    accepted := if r = .ok then skb.id :: x.accepted else x.accepted }

/-- One step of a regular TX queue with its device: the stack sends an skb for this queue at any
`jiffies`, the device sends a nonempty batch of posted slots, NAPI polls with any budget at any
`jiffies`, or the ring is flushed. -/
inductive TxSysStep (c : TxqCfg) (napiDeadline : Nat) : TxSys → TxSys → Prop
  | xmit {x : TxSys} {s' : TxState} {lif : Lif} {env : TxEnv} {skb : Skb} {r : NetdevTx} (now : Nat) :
      skb.Wf → ionicStartXmitTarget lif skb = .txq x.s.q.index →
      ionicStartXmit lif c env skb x.s = some (s', r) →
      TxSysStep c napiDeadline x (x.afterXmit napiDeadline now skb s' r)
  | send {x : TxSys} {k : Nat} : 0 < k → k ≤ c.ring.inflight x.s.q.headIdx x.sent →
      TxSysStep c napiDeadline x (x.devSend c.ring k)
  | napi {x : TxSys} {now budget w : Nat} {cq' : Cq Nat} {s' : TxState} {tm' : TxDbell} :
      ionicTxNapi c napiDeadline now budget x.cq x.s x.tm = some (w, cq', s', tm') →
      TxSysStep c napiDeadline x { x with s := s', tm := tm', cq := cq' }
  | flush {x : TxSys} {w : Nat} {cq' : Cq Nat} {s' : TxState} :
      ionicTxFlush c x.cq x.s = some (w, cq', s') → TxSysStep c napiDeadline x { x with s := s', cq := cq' }

/-- The runs of a regular TX queue with its device: the queue is opened with an empty completion
ring, then takes steps in any order. -/
inductive TxSysReach (c : TxqCfg) (napiDeadline : Nat) : TxSys → Prop
  | init (index : Nat) (tm : TxDbell) (color : Bool) :
      TxSysReach c napiDeadline ⟨TxState.init index, tm, Cq.init color 0, ⟨0, color⟩, 0, []⟩
  | step {x y : TxSys} : TxSysReach c napiDeadline x → TxSysStep c napiDeadline x y → TxSysReach c napiDeadline y

/-- What holds along the runs: the BQL invariant, the layout of the completion ring, the device
having sent only posted slots, and the pending completions naming the last slots of consecutive
nonempty batches from `tail_idx` up to the device's cursor. -/
structure TxSysInv (c : TxqCfg) (x : TxSys) : Prop where
  bql : BqlInv c x.s.view 0 0
  cq : CqInv c.ring x.cq x.d
  sent_lt : x.sent < c.ring.numDescs
  sent_le : c.ring.inflight x.sent x.s.q.tailIdx ≤ c.ring.inflight x.s.q.headIdx x.s.q.tailIdx
  batches : ∃ ks : List Nat, (∀ k ∈ ks, 0 < k) ∧ ks.sum = c.ring.inflight x.sent x.s.q.tailIdx ∧
    cqPending c.ring x.cq x.d = txBatchComps c.ring x.s.q.tailIdx ks

section Steps

variable {c : TxqCfg}

theorem TxView.tsoPost_head (skb : Skb) (v : TxView) (g : TsoSeg) :
    (TxView.tsoPost c skb v g).head = c.ring.next v.head ∧ (TxView.tsoPost c skb v g).tail = v.tail := by
  unfold TxView.tsoPost; split <;> simp

/-- Posting the descriptors of one TSO packet moves `head_idx` past them and leaves `tail_idx`. -/
theorem TxView.foldl_tsoPost_cursors (skb : Skb) :
    ∀ (segs : List TsoSeg) (v : TxView), v.head < c.ring.numDescs →
      (segs.foldl (TxView.tsoPost c skb) v).head = (v.head + segs.length) % c.ring.numDescs ∧
        (segs.foldl (TxView.tsoPost c skb) v).tail = v.tail
  | [], v, hh => ⟨(Nat.mod_eq_of_lt hh).symm, rfl⟩
  | g :: gs, v, _ => by
    obtain ⟨hh, ht⟩ := TxView.tsoPost_head skb v g
    obtain ⟨ih₁, ih₂⟩ := TxView.foldl_tsoPost_cursors skb gs _ (hh ▸ c.ring.next_lt v.head)
    rw [List.foldl_cons, ih₁, ih₂, hh, ht, c.ring.next_add_mod, List.length_cons]
    exact ⟨rfl, rfl⟩

/-- A send that posts hands the skb (linearized or not: same id, same length) to one descriptor,
or to the nonempty list of descriptors `ionic_tx_tso` cuts, with room for them in the ring. -/
theorem ionicStartXmit_posts {lif : Lif} {env : TxEnv} {skb : Skb} {s s' : TxState} {r : NetdevTx} {qi : Nat}
    (hwf : skb.Wf) (ht : ionicStartXmitTarget lif skb = .txq qi) (h : ionicStartXmit lif c env skb s = some (s', r)) :
    (s'.view = s.view ∧ (r = .busy ∨ s'.released ≠ s.released)) ∨
    (r = .ok ∧ s'.released = s.released ∧ ∃ skb₁ : Skb, skb₁.id = skb.id ∧ 0 < skb₁.len ∧
      ((c.ring.inflight s.q.headIdx s.q.tailIdx + 1 < c.ring.numDescs ∧
          s'.view = (s.view.sent c skb₁.len).post c.ring (!env.xmitMore) (some skb₁)) ∨
        ∃ segs, SegFlags true segs ∧ segs ≠ [] ∧
          c.ring.inflight s.q.headIdx s.q.tailIdx + segs.length < c.ring.numDescs ∧
          s'.view = segs.foldl (TxView.tsoPost c skb₁) s.view)) := by
  rcases ionicStartXmit_view ht h with hd | ⟨hr, hrel, hsp, skb₁, hskb, hng, hg⟩
  · exact .inl hd
  have hsk : skb₁.id = skb.id ∧ skb₁.len = skb.len := by
    rcases hskb with rfl | rfl
    exacts [⟨rfl, rfl⟩, ⟨rfl, Skb.linearize_len _⟩]
  rw [ionicQHasSpace_iff] at hsp
  refine .inr ⟨hr, hrel, skb₁, hsk.1, hsk.2 ▸ hwf.len_pos, ?_⟩
  cases hgso : skb.isGso
  · simp only [hgso, Bool.false_eq_true, if_false] at hsp
    exact .inl ⟨by omega, by rw [hng hgso, hsk.2]⟩
  · obtain ⟨segs, hf, hb, hv⟩ := hg hgso
    obtain ⟨hhdr, hsegs⟩ := hwf.gso hgso
    have hmss : 0 < skb.gsoSize := by simpa [Skb.isGso, Nat.pos_iff_ne_zero] using hgso
    rw [if_neg (by omega)] at hb
    have hn : segs.length = skb.gsoSegs := by
      rw [← List.length_map segs TsoSeg.bytes, hb, tsoSizes_length hmss hhdr, hsegs]
    simp only [hgso, if_true] at hsp
    exact .inr ⟨segs, hf, fun he => by simp [he, tsoSizes] at hb, by omega, hv⟩

/-- A send leaves `tail_idx` and only adds slots to the window. -/
theorem ionicStartXmit_window {lif : Lif} {env : TxEnv} {skb : Skb} {s s' : TxState} {r : NetdevTx} {qi : Nat}
    (hinv : BqlInv c s.view 0 0) (hwf : skb.Wf) (ht : ionicStartXmitTarget lif skb = .txq qi)
    (h : ionicStartXmit lif c env skb s = some (s', r)) :
    s'.q.tailIdx = s.q.tailIdx ∧
      c.ring.inflight s.q.headIdx s.q.tailIdx ≤ c.ring.inflight s'.q.headIdx s'.q.tailIdx := by
  have hh : s.q.headIdx < c.ring.numDescs := hinv.head_lt
  rcases ionicStartXmit_posts hwf ht h with ⟨hv, -⟩ | ⟨-, -, skb₁, -, -, hp⟩
  · have hh' : s'.q.headIdx = s.q.headIdx := congrArg TxView.head hv
    have ht' : s'.q.tailIdx = s.q.tailIdx := congrArg TxView.tail hv
    exact ⟨ht', by rw [hh', ht']⟩
  -- the send posted `m` slots, with room for them
  obtain ⟨m, hm, hh', ht'⟩ : ∃ m, c.ring.inflight s.q.headIdx s.q.tailIdx + m < c.ring.numDescs ∧
      s'.q.headIdx = (s.q.headIdx + m) % c.ring.numDescs ∧ s'.q.tailIdx = s.q.tailIdx := by
    rcases hp with ⟨hroom, hv⟩ | ⟨segs, -, -, hroom, hv⟩
    · have hv := congrArg (fun v => (v.head, v.tail)) hv
      simp only [TxView.post_head, TxView.post_tail, TxView.sent_head, TxView.sent_tail, Prod.mk.injEq] at hv
      exact ⟨1, hroom, hv.1.trans (c.ring.next_eq_mod _), hv.2⟩
    · obtain ⟨h₁, h₂⟩ := TxView.foldl_tsoPost_cursors skb₁ segs s.view hh
      exact ⟨segs.length, hroom, (congrArg TxView.head hv).trans h₁, (congrArg TxView.tail hv).trans h₂⟩
  rw [hh', ht', c.ring.inflight_add_head hh (show s.q.tailIdx < c.ring.numDescs from hinv.tail_lt) hm]
  exact ⟨rfl, Nat.le_add_right _ _⟩

/-- `ionic_tx_service`, handed in order the completions of batches of posted slots from
`tail_idx`, cleans batch after batch: whatever the budget it returns, taking one completion per
batch cleaned and all of them when the budget allows, the BQL invariant is kept, and the
completions left are those of the batches not yet cleaned. -/
theorem cqServiceFifo_txBatches (hc : c.hwstamp = false) :
    ∀ (n : Nat) (ks : List Nat) (s : TxState), BqlInv c s.view 0 0 → (∀ k ∈ ks, 0 < k) →
      ks.sum ≤ c.ring.inflight s.q.headIdx s.q.tailIdx →
      ∃ ks₀ ks₁ s', ks = ks₀ ++ ks₁ ∧ (ks.length ≤ n → ks₁ = []) ∧ BqlInv c s'.view 0 0 ∧
        s'.q.headIdx = s.q.headIdx ∧ s'.q.tailIdx = (s.q.tailIdx + ks₀.sum) % c.ring.numDescs ∧
        cqServiceFifo (ionicTxService c) n (txBatchComps c.ring s.q.tailIdx ks) s =
          some (ks₀.length, txBatchComps c.ring s'.q.tailIdx ks₁, s')
  | 0, ks, s, hr, _, _ =>
    ⟨[], ks, s, rfl, List.eq_nil_of_length_eq_zero ∘ Nat.eq_zero_of_le_zero, hr, rfl,
      (Nat.mod_eq_of_lt hr.tail_lt).symm, by simp [cqServiceFifo]⟩
  | n + 1, [], s, hr, _, _ =>
    ⟨[], [], s, rfl, fun _ => rfl, hr, rfl, (Nat.mod_eq_of_lt hr.tail_lt).symm, by simp [txBatchComps, cqServiceFifo]⟩
  | n + 1, k :: ks, s, hr, hpos, hsum => by
    have ht : s.q.tailIdx < c.ring.numDescs := hr.tail_lt
    have hh : s.q.headIdx < c.ring.numDescs := hr.head_lt
    have hk : 0 < k := hpos k (List.mem_cons_self _ _)
    have hsum' : k + ks.sum ≤ c.ring.inflight s.q.headIdx s.q.tailIdx := hsum
    have hN := c.ring.inflight_lt s.q.headIdx s.q.tailIdx
    -- the completion names the last slot of the first batch, inside the window
    have hci : (s.q.tailIdx + (k - 1)) % c.ring.numDescs < c.ring.numDescs := Nat.mod_lt _ c.ring.numDescs_pos
    have hw : c.ring.InWindow s.q.headIdx s.q.tailIdx ((s.q.tailIdx + (k - 1)) % c.ring.numDescs) := by
      unfold Ring.InWindow; rw [c.ring.inflight_add_mod ht (by omega)]; omega
    obtain ⟨p, b, s₁, -, hsv, -, -, ht₁, -, hh₁⟩ := ionicTxService_in_window ht hci hw
    have hq₂ := TxState.bqlCompleted_q s₁ c p b
    have ht₂ : (s₁.bqlCompleted c p b).q.tailIdx = (s.q.tailIdx + k) % c.ring.numDescs := by
      rw [hq₂, ht₁, c.ring.next_eq_mod, Nat.mod_add_mod, Nat.add_assoc, Nat.sub_add_cancel hk]
    have hh₂ : (s₁.bqlCompleted c p b).q.headIdx = s.q.headIdx := by rw [hq₂, hh₁]
    obtain ⟨ks₀, ks₁, s', hks, hall, hr', hh', ht', hf⟩ := cqServiceFifo_txBatches hc n ks _
      (ionicTxService_inv hc hr hci hw hsv) (fun k hk => hpos k (List.mem_cons_of_mem _ hk))
      (by rw [hh₂, ht₂, c.ring.inflight_add_tail hh ht (by omega)]; omega)
    refine ⟨k :: ks₀, ks₁, s', by rw [hks]; rfl, fun hl => hall (Nat.le_of_succ_le_succ hl), hr', hh'.trans hh₂,
      ?_, ?_⟩
    · rw [ht', ht₂, Nat.mod_add_mod, List.sum_cons, Nat.add_assoc]
    · simp only [txBatchComps, cqServiceFifo, hsv, ← ht₂, hf]
      rfl

/-- The doorbell is not part of the BQL invariant. -/
theorem BqlInv.setDbell {s : TxState} (h : BqlInv c s.view 0 0) (x : Option Nat) :
    BqlInv c ({ s with q := { s.q with dbell := x } } : TxState).view 0 0 :=
  ⟨h.head_lt, h.tail_lt, h.idle, h.len_pos, h.acc_le, h.acc_zero, h.sentBytes, h.sentCalls⟩

/-- A poke changes the queue only by ringing the doorbell: it keeps the BQL invariant and both
cursors. -/
theorem ionicTxqPokeDoorbell_inv {s : TxState} {tm : TxDbell} (now : Nat) (h : BqlInv c s.view 0 0) :
    BqlInv c (ionicTxqPokeDoorbell now s tm).2.1.view 0 0 ∧
      (ionicTxqPokeDoorbell now s tm).2.1.q.tailIdx = s.q.tailIdx ∧
      (ionicTxqPokeDoorbell now s tm).2.1.q.headIdx = s.q.headIdx := by
  unfold ionicTxqPokeDoorbell
  split_ifs <;> first | exact ⟨h, rfl, rfl⟩ | exact ⟨h.setDbell _, rfl, rfl⟩

/-- The poke at the end of a poll keeps the BQL invariant and both cursors. -/
theorem ionicTxNapiPoke_inv {s : TxState} {tm : TxDbell} (napiDeadline now w : Nat) (h : BqlInv c s.view 0 0) :
    BqlInv c (ionicTxNapiPoke napiDeadline now w s tm).1.view 0 0 ∧
      (ionicTxNapiPoke napiDeadline now w s tm).1.q.tailIdx = s.q.tailIdx ∧
      (ionicTxNapiPoke napiDeadline now w s tm).1.q.headIdx = s.q.headIdx := by
  unfold ionicTxNapiPoke
  split_ifs
  · exact ionicTxqPokeDoorbell_inv now h
  · exact ⟨h, rfl, rfl⟩

/-! ## The invariant along the runs -/

theorem TxSysInv.init (index : Nat) (tm : TxDbell) (color : Bool) :
    TxSysInv c ⟨TxState.init index, tm, Cq.init color 0, ⟨0, color⟩, 0, []⟩ :=
  ⟨BqlInv.init index, CqInv.init c.ring color 0, c.ring.numDescs_pos, le_rfl,
    ⟨[], by simp, (c.ring.inflight_self 0).symm, by simp [cqPending, cqCount_init, txBatchComps]⟩⟩

/-- The completion ring never overflows: each pending completion covers at least one slot sent
and not yet cleaned. -/
theorem TxSysInv.cqCount_lt {x : TxSys} (h : TxSysInv c x) : cqCount c.ring x.cq x.d < c.ring.numDescs := by
  obtain ⟨ks, hpos, hsum, hp⟩ := h.batches
  have hl := congrArg List.length hp
  rw [cqPending_length, txBatchComps_length] at hl
  have := List.length_le_sum_of_one_le ks hpos
  have := c.ring.inflight_lt x.sent x.s.q.tailIdx
  omega

/-- A change of the queue that keeps the BQL invariant and `tail_idx` and only adds slots to the
window keeps the invariant. -/
theorem TxSysInv.grow {x : TxSys} (h : TxSysInv c x) {s' : TxState} (tm' : TxDbell) (hi : BqlInv c s'.view 0 0)
    (ht : s'.q.tailIdx = x.s.q.tailIdx)
    (hw : c.ring.inflight x.s.q.headIdx x.s.q.tailIdx ≤ c.ring.inflight s'.q.headIdx x.s.q.tailIdx) :
    TxSysInv c { x with s := s', tm := tm' } := by
  obtain ⟨ks, hpos, hsum, hp⟩ := h.batches
  exact ⟨hi, h.cq, h.sent_lt, by simp only [ht]; exact h.sent_le.trans hw, ks, hpos, by simp only [ht]; exact hsum,
    by simp only [ht]; exact hp⟩

theorem TxSysInv.xmit (hc : c.hwstamp = false) {x : TxSys} {s' : TxState} {lif : Lif} {env : TxEnv} {skb : Skb}
    {r : NetdevTx} (h : TxSysInv c x) (hwf : skb.Wf) (ht : ionicStartXmitTarget lif skb = .txq x.s.q.index)
    (hs : ionicStartXmit lif c env skb x.s = some (s', r)) (tm' : TxDbell) (a : List Nat) :
    TxSysInv c { x with s := s', tm := tm', accepted := a } := by
  obtain ⟨htl, hle⟩ := ionicStartXmit_window h.bql hwf ht hs
  have h' := h.grow tm' (ionicStartXmit_inv hc h.bql hwf ht hs) htl (htl ▸ hle)
  exact ⟨h'.bql, h'.cq, h'.sent_lt, h'.sent_le, h'.batches⟩

/-- A batch of `k` posted slots sent by the device adds the completion of its last slot. -/
theorem TxSysInv.devSend {x : TxSys} {k : Nat} (h : TxSysInv c x) (hk : 0 < k)
    (hkh : k ≤ c.ring.inflight x.s.q.headIdx x.sent) : TxSysInv c (x.devSend c.ring k) := by
  have hh : x.s.q.headIdx < c.ring.numDescs := h.bql.head_lt
  have ht : x.s.q.tailIdx < c.ring.numDescs := h.bql.tail_lt
  obtain ⟨ks, hpos, hsum, hp⟩ := h.batches
  have hsplit := c.ring.inflight_split hh h.sent_lt ht h.sent_le
  have hN := c.ring.inflight_lt x.s.q.headIdx x.s.q.tailIdx
  have hsent : c.ring.inflight ((x.sent + k) % c.ring.numDescs) x.s.q.tailIdx =
      c.ring.inflight x.sent x.s.q.tailIdx + k := c.ring.inflight_add_head h.sent_lt ht (by omega)
  obtain ⟨hcq, -, hp'⟩ := h.cq.devPost h.cqCount_lt ((x.sent + (k - 1)) % c.ring.numDescs)
  refine ⟨h.bql, hcq, Nat.mod_lt _ c.ring.numDescs_pos, by simp only [TxSys.devSend]; omega,
    ks ++ [k], ?_, by simp only [TxSys.devSend, List.sum_append, List.sum_singleton]; omega, ?_⟩
  · simpa [or_imp, forall_and] using ⟨hpos, hk⟩
  · simp only [TxSys.devSend, hp', hp, txBatchComps_append, hsum]
    rw [← Nat.mod_add_mod (x.s.q.tailIdx + _), c.ring.add_inflight_mod h.sent_lt ht]

/-- A service of the completion ring with any budget returns and keeps the invariant and
`head_idx`. It takes one completion per batch it cleans, and every pending one when the budget
allows. -/
theorem TxSysInv.service (hc : c.hwstamp = false) {x : TxSys} (h : TxSysInv c x) (budget : Nat) :
    ∃ w cq' s', ionicCqService c.ring (ionicTxService c) budget x.cq x.s = some (w, cq', s') ∧
      w + cqCount c.ring cq' x.d = cqCount c.ring x.cq x.d ∧
      (cqCount c.ring x.cq x.d ≤ budget → cqCount c.ring cq' x.d = 0) ∧ s'.q.headIdx = x.s.q.headIdx ∧
      TxSysInv c { x with s := s', cq := cq' } := by
  obtain ⟨ks, hpos, hsum, hp⟩ := h.batches
  have hl : cqCount c.ring x.cq x.d = ks.length := by rw [← cqPending_length, hp, txBatchComps_length]
  obtain ⟨h₁, h₂⟩ := ionicCqService_fifo (ionicTxService_false c) budget h.cq x.s
  obtain ⟨ks₀, ks₁, s', rfl, hall, hr', hh', ht', hf⟩ :=
    cqServiceFifo_txBatches hc budget _ x.s h.bql hpos (hsum ▸ h.sent_le)
  rw [hp, hf] at h₁
  obtain ⟨⟨w, cq', s₂⟩, hsvc, he⟩ := Option.map_eq_some'.mp h₁
  simp only [Prod.mk.injEq] at he
  obtain ⟨hw, hp', rfl⟩ := he
  have hl' : cqCount c.ring cq' x.d = ks₁.length := by rw [← cqPending_length, hp', txBatchComps_length]
  have hh : x.s.q.headIdx < c.ring.numDescs := h.bql.head_lt
  have ht : x.s.q.tailIdx < c.ring.numDescs := h.bql.tail_lt
  have hs₀ : ks₀.sum ≤ c.ring.inflight x.sent x.s.q.tailIdx := by rw [← hsum, List.sum_append]; omega
  refine ⟨w, cq', _, hsvc, by rw [hw, hl', hl, List.length_append], fun hb => by rw [hl', hall (hl ▸ hb)]; rfl, hh',
    hr', h₂ _ hsvc, h.sent_lt, ?_, ks₁, fun k hk => hpos k (List.mem_append_right _ hk), ?_, hp'⟩
  · simp only [hh', ht', c.ring.inflight_add_tail hh ht (hs₀.trans h.sent_le), c.ring.inflight_add_tail h.sent_lt ht hs₀]
    have := h.sent_le
    omega
  · simp only [ht', c.ring.inflight_add_tail h.sent_lt ht hs₀, ← hsum, List.sum_append]
    omega

/-- A poll with any budget at any `jiffies` returns, and keeps the invariant. -/
theorem TxSysInv.napi (hc : c.hwstamp = false) {x : TxSys} (h : TxSysInv c x) (napiDeadline now budget : Nat) :
    ∃ w cq' s' tm', ionicTxNapi c napiDeadline now budget x.cq x.s x.tm = some (w, cq', s', tm') ∧
      TxSysInv c { x with s := s', tm := tm', cq := cq' } := by
  obtain ⟨w, cq', s₁, hs, -, -, -, h₁⟩ := h.service hc budget
  obtain ⟨hi, ht, hh⟩ := @ionicTxNapiPoke_inv c s₁ x.tm napiDeadline now w h₁.bql
  exact ⟨w, cq', (ionicTxNapiPoke napiDeadline now w s₁ x.tm).1, (ionicTxNapiPoke napiDeadline now w s₁ x.tm).2,
    by rw [ionicTxNapi, hs]; rfl, h₁.grow _ hi ht (hh ▸ le_rfl)⟩

/-- Every step keeps the invariant. -/
theorem TxSysInv.step (hc : c.hwstamp = false) {napiDeadline : Nat} {x y : TxSys} (h : TxSysInv c x)
    (hs : TxSysStep c napiDeadline x y) : TxSysInv c y := by
  cases hs with
  | xmit _ hwf ht hs => exact h.xmit hc hwf ht hs _ _
  | send hk hkh => exact h.devSend hk hkh
  | @napi now budget w cq' s' tm' hs =>
    obtain ⟨w₁, cq₁, s₁, tm₁, hs₁, hinv⟩ := h.napi hc napiDeadline now budget
    rw [hs] at hs₁
    simp only [Option.some.injEq, Prod.mk.injEq] at hs₁
    obtain ⟨-, rfl, rfl, rfl⟩ := hs₁
    exact hinv
  | @flush w cq' s' hs =>
    obtain ⟨w₁, cq₁, s₁, hs₁, -, -, -, hinv⟩ := h.service hc c.ring.numDescs
    unfold ionicTxFlush at hs
    rw [hs] at hs₁
    simp only [Option.some.injEq, Prod.mk.injEq] at hs₁
    obtain ⟨-, rfl, rfl⟩ := hs₁
    exact hinv

/-- Every state of a run satisfies the invariant. -/
theorem TxSysReach.inv (hc : c.hwstamp = false) {napiDeadline : Nat} {x : TxSys} (h : TxSysReach c napiDeadline x) :
    TxSysInv c x := by
  induction h with
  | init index tm color => exact TxSysInv.init index tm color
  | step _ hs ih => exact ih.step hc hs

end Steps

/-- Over every interleaving of sends by the stack, batches sent by an in-order device, polls with
any budget at any `jiffies` and flushes, the BQL invariant holds (the counters balance against
the skbs in flight), the completion ring never overflows, and `ionic_tx_napi` and
`ionic_tx_flush` return: every completion names a posted slot, which the loop of
`ionic_tx_service` meets. -/
theorem txSysReach_safe {c : TxqCfg} (hc : c.hwstamp = false) {napiDeadline : Nat} {x : TxSys}
    (h : TxSysReach c napiDeadline x) :
    BqlInv c x.s.view 0 0 ∧ cqCount c.ring x.cq x.d < c.ring.numDescs ∧
      (∀ now budget, ∃ w cq' s' tm', ionicTxNapi c napiDeadline now budget x.cq x.s x.tm = some (w, cq', s', tm')) ∧
      ∃ w cq' s', ionicTxFlush c x.cq x.s = some (w, cq', s') := by
  have hi := h.inv hc
  refine ⟨hi.bql, hi.cqCount_lt, fun now budget => ?_, ?_⟩
  · obtain ⟨w, cq', s', tm', hs, -⟩ := hi.napi hc napiDeadline now budget
    exact ⟨w, cq', s', tm', hs⟩
  · obtain ⟨w, cq', s', hs, -⟩ := hi.service hc c.ring.numDescs
    exact ⟨w, cq', s', hs⟩

/-- A queue of four slots after a packet sent, sent on by the device, and a second packet sent: one
completion is pending. -/
theorem txSysReach_safe_sent :
    let c : TxqCfg := ⟨⟨4, 2, rfl⟩, 8, false⟩
    let lif : Lif := ⟨true, false, 1⟩
    let env : TxEnv := ⟨4096, fun _ => 8192, true, true, false⟩
    let skb (id : Nat) : Skb := ⟨id, 100, [], 0, 0, 0, 0, false, false⟩
    let x₀ : TxSys := ⟨TxState.init 0, ⟨1, 0, none⟩, Cq.init true 0, ⟨0, true⟩, 0, []⟩
    let s₁ := ((ionicStartXmit lif c env (skb 1) x₀.s).map Prod.fst).getD x₀.s
    let x₁ := (x₀.afterXmit 2 3 (skb 1) s₁ .ok).devSend c.ring 1
    let s₂ := ((ionicStartXmit lif c env (skb 2) x₁.s).map Prod.fst).getD x₁.s
    let x := x₁.afterXmit 2 4 (skb 2) s₂ .ok
    cqCount c.ring x.cq x.d = 1 ∧ x.s.q.headIdx = 2 ∧
    BqlInv c x.s.view 0 0 ∧ cqCount c.ring x.cq x.d < c.ring.numDescs ∧
      (∀ now budget, ∃ w cq' s' tm', ionicTxNapi c 2 now budget x.cq x.s x.tm = some (w, cq', s', tm')) ∧
      ∃ w cq' s', ionicTxFlush c x.cq x.s = some (w, cq', s') :=
  ⟨by decide, by decide, txSysReach_safe rfl (.step (.step (.step (.init 0 ⟨1, 0, none⟩ true)
    (@TxSysStep.xmit ⟨⟨4, 2, rfl⟩, 8, false⟩ 2 _ _ ⟨true, false, 1⟩ ⟨4096, fun _ => 8192, true, true, false⟩
      ⟨1, 100, [], 0, 0, 0, 0, false, false⟩ .ok 3 ⟨by decide, fun h => absurd h (by decide)⟩ rfl rfl))
    (.send (by decide) (by decide)))
    (@TxSysStep.xmit ⟨⟨4, 2, rfl⟩, 8, false⟩ 2 _ _ ⟨true, false, 1⟩ ⟨4096, fun _ => 8192, true, true, false⟩
      ⟨2, 100, [], 0, 0, 0, 0, false, false⟩ .ok 4 ⟨by decide, fun h => absurd h (by decide)⟩ rfl rfl))⟩

/-- The poke is the backstop of `netdev_xmit_more`: from every state of a run with slots posted and
no completion pending, a poll more than `dbell_deadline` jiffies after the last ring, counted in
`unsigned long`, does no work, rings the doorbell with `head_idx` and re-arms the NAPI deadline
timer. -/
theorem txSysReach_idle_poll_rings {c : TxqCfg} (hc : c.hwstamp = false) {napiDeadline : Nat} {x : TxSys}
    (h : TxSysReach c napiDeadline x) (h0 : cqCount c.ring x.cq x.d = 0) (hne : x.s.q.tailIdx ≠ x.s.q.headIdx)
    {now : Nat} (hlate : x.tm.deadline < ulongSub now x.tm.jiffies) (budget : Nat) :
    ∃ s' tm', ionicTxNapi c napiDeadline now budget x.cq x.s x.tm = some (0, x.cq, s', tm') ∧
      s'.q.dbell = some x.s.q.headIdx ∧ s'.q.headIdx = x.s.q.headIdx ∧ s'.q.tailIdx = x.s.q.tailIdx ∧
      tm'.jiffies = now ∧ tm'.napiExpires = some ((now + napiDeadline) % 2 ^ 64) := by
  rw [ionicTxNapi, ionicCqService_idle (ionicTxService_false c) budget (h.inv hc).cq h0]
  refine ⟨_, _, rfl, ?_⟩
  simp [ionicTxNapiPoke, ionicTxqPokeDoorbell, hne, hlate]

/-- On a queue of four slots, a packet sent at jiffies 3 rings the doorbell and one sent at
jiffies 4 while more follow is left unannounced; an idle poll at jiffies 5, two after the last
ring, rings it. -/
theorem txSysReach_idle_poll_rings_xmitMore :
    let c : TxqCfg := ⟨⟨4, 2, rfl⟩, 8, false⟩
    let lif : Lif := ⟨true, false, 1⟩
    let env (more : Bool) : TxEnv := ⟨4096, fun _ => 8192, true, true, more⟩
    let skb : Skb := ⟨1, 100, [], 0, 0, 0, 0, false, false⟩
    let x₀ : TxSys := ⟨TxState.init 0, ⟨1, 0, none⟩, Cq.init true 0, ⟨0, true⟩, 0, []⟩
    let s₁ := ((ionicStartXmit lif c (env false) skb x₀.s).map Prod.fst).getD x₀.s
    let x₁ := x₀.afterXmit 2 3 skb s₁ .ok
    let s₂ := ((ionicStartXmit lif c (env true) skb x₁.s).map Prod.fst).getD x₁.s
    let x := x₁.afterXmit 2 4 skb s₂ .ok
    x.tm = ⟨1, 3, some 5⟩ ∧ x.s.q.dbell = some 1 ∧ cqCount c.ring x.cq x.d = 0 ∧ x.s.q.tailIdx ≠ x.s.q.headIdx ∧
      x.tm.deadline < ulongSub 5 x.tm.jiffies ∧
      ∃ s' tm', ionicTxNapi c 2 5 64 x.cq x.s x.tm = some (0, x.cq, s', tm') ∧
        s'.q.dbell = some x.s.q.headIdx ∧ s'.q.headIdx = x.s.q.headIdx ∧ s'.q.tailIdx = x.s.q.tailIdx ∧
        tm'.jiffies = 5 ∧ tm'.napiExpires = some ((5 + 2) % 2 ^ 64) :=
  ⟨by decide, by decide, cqCount_init _ _ _, by decide, by decide,
    txSysReach_idle_poll_rings rfl (.step (.step (.init 0 ⟨1, 0, none⟩ true)
      (@TxSysStep.xmit ⟨⟨4, 2, rfl⟩, 8, false⟩ 2 _ _ ⟨true, false, 1⟩ ⟨4096, fun _ => 8192, true, true, false⟩
        ⟨1, 100, [], 0, 0, 0, 0, false, false⟩ .ok 3
        ⟨by decide, fun h => absurd h (by decide)⟩ rfl rfl))
      (@TxSysStep.xmit ⟨⟨4, 2, rfl⟩, 8, false⟩ 2 _ _ ⟨true, false, 1⟩ ⟨4096, fun _ => 8192, true, true, true⟩
        ⟨1, 100, [], 0, 0, 0, 0, false, false⟩ .ok 4
        ⟨by decide, fun h => absurd h (by decide)⟩ rfl rfl))
      (cqCount_init _ _ _) (by decide) (by decide) 64⟩

end IonicTxrx
