import IonicTxrx.Cq
import IonicTxrx.Rx.Doorbell

/-!
# The receive completion path as a system

`ionic_rx_napi` services the RX completion ring with `ionic_rx_service` as the callback of
`ionic_cq_service`, refills the ring once enough slots are free, and, when it found no work,
pokes the doorbell and re-arms the NAPI deadline timer. `ionic_rx_service` refuses a completion
whose `comp_index` is not `tail_idx`, and `ionic_cq_service` then stops without advancing: a
refused completion would stall the ring. Here the loop is closed with the device as the spec
describes it: it receives into the posted slots in order and reports each packet with one
completion naming its slot. Over every interleaving of fills, packets received by the device,
polls with any budget at any `jiffies`, and frees by the stack (`RxSysReach`), the pending
completions name the slots from `tail_idx` up to the device's cursor, which stays inside the
window (`RxSysInv`). So the queue keeps the receive invariant, the doorbell deadline its range,
the completion ring never overflows, and each poll takes `min budget pending` completions, refusing
none (`rxSysReach_napi`).
-/

namespace IonicTxrx

/-- The fill threshold of NAPI, constants defined outside this repository. -/
structure RxNapiBuild where
  /-- `IONIC_RX_FILL_THRESHOLD`. -/
  fillThreshold : Nat
  /-- `IONIC_RX_FILL_DIV`. -/
  fillDiv : Nat

/-- `ionic_rx_service` as the callback of `ionic_cq_service`: the color test is the one of the
entry at `tail_idx`; it always returns. -/
def ionicRxServiceCb (b : RxBuild) (c : RxqCfg) (lif : RxLif) (env : RxEnv) (colorMatch : Bool) (comp : RxComp)
    (s : RxState) : Option (Bool × RxState) :=
  some (ionicRxService b c lif env { comp with colorMatch := colorMatch } s)

/-- `rx_fill_threshold = min_t(u16, IONIC_RX_FILL_THRESHOLD, cq->num_descs / IONIC_RX_FILL_DIV)`;
the completion ring has as many entries as the queue. -/
def rxFillThreshold (nb : RxNapiBuild) (r : Ring) : Nat :=
  min (nb.fillThreshold % 2 ^ 16) (r.numDescs / nb.fillDiv % 2 ^ 16)

/-- The refill of `ionic_rx_napi` at `jiffies = now`: `ionic_rx_fill` when work was done and
`ionic_q_space_avail` reaches the threshold. -/
def ionicRxNapiFill (nb : RxNapiBuild) (t : RxDbellBuild) (b : RxBuild) (c : RxqCfg) (lif : RxLif) (env : RxEnv)
    (now workDone : Nat) (s : RxState) (tm : RxDbell) : RxState × RxDbell :=
  if workDone ≠ 0 ∧ rxFillThreshold nb c.ring ≤ ionicQSpaceAvail c.ring s.q then ionicRxFillTimed t b c lif env now s tm
  else (s, tm)

/-- The end of `ionic_rx_napi` at `jiffies = now`: when no work was done,
`ionic_rxq_poke_doorbell`, and `mod_timer(&qcq->napi_deadline, jiffies + IONIC_NAPI_DEADLINE)`
when it reports descriptors posted. -/
def ionicRxNapiPoke (t : RxDbellBuild) (now workDone : Nat) (s : RxState) (tm : RxDbell) : RxState × RxDbell :=
  if workDone = 0 then
    let p := ionicRxqPokeDoorbell t now s tm
    (p.2.1, if p.1 then { p.2.2 with napiExpires := some ((now + t.napiDeadline) % 2 ^ 64) } else p.2.2)
  else (s, tm)

/-- `ionic_rx_napi` at `jiffies = now` without the interrupt credits and DIM: `work_done`, and
the completion ring, the queue and its doorbell timing after. -/
def ionicRxNapi (nb : RxNapiBuild) (t : RxDbellBuild) (b : RxBuild) (c : RxqCfg) (lif : RxLif) (env : RxEnv)
    (now budget : Nat) (cq : Cq RxComp) (s : RxState) (tm : RxDbell) : Option (Nat × Cq RxComp × RxState × RxDbell) :=
  (ionicCqService c.ring (ionicRxServiceCb b c lif env) budget cq s).map fun p =>
    let f := ionicRxNapiFill nb t b c lif env now p.1 p.2.2 tm
    (p.1, p.2.1, ionicRxNapiPoke t now p.1 f.1 f.2)

/-! ## One poll -/

section Poll

variable {b : RxBuild} {c : RxqCfg} {env : RxEnv} {s : RxState}

/-- The loop of the fill only adds slots at `head_idx`: `tail_idx` stays and the window grows. -/
theorem ionicRxFillLoop_window {len ns : Nat} :
    ∀ {i : Nat} {s : RxState}, s.q.headIdx < c.ring.numDescs → s.q.tailIdx < c.ring.numDescs →
      i + c.ring.inflight s.q.headIdx s.q.tailIdx + 1 ≤ c.ring.numDescs →
      (ionicRxFillLoop b c env len ns i s).2.q.tailIdx = s.q.tailIdx ∧
        c.ring.inflight s.q.headIdx s.q.tailIdx ≤
          c.ring.inflight (ionicRxFillLoop b c env len ns i s).2.q.headIdx s.q.tailIdx
  | 0, _, _, _, _ => ⟨rfl, le_rfl⟩
  | i + 1, s, hh, ht, hi => by
    rw [ionicRxFillLoop]
    rcases hf : ionicRxFillSlot b c env len ns (s.q.info s.q.headIdx) s with ⟨ok, d, s'⟩
    obtain ⟨hq, -⟩ := ionicRxFillSlot_frame hf
    cases ok
    · simp [hq]
    · simp only [Bool.not_true, Bool.false_eq_true, ↓reduceIte]
      have hfull : c.ring.inflight s.q.headIdx s.q.tailIdx + 1 < c.ring.numDescs := by omega
      have hnext := c.ring.inflight_next_head hh ht hfull
      obtain ⟨h₁, h₂⟩ := @ionicRxFillLoop_window len ns i
        { s' with q := ionicQPost c.ring (s'.q.setInfo s.q.headIdx d) false id } (c.ring.next_lt _)
        (by simpa [hq] using ht)
        (by simp only [ionicQPost_headIdx, ionicQPost_tailIdx, Queue.setInfo_headIdx, Queue.setInfo_tailIdx, hq]; omega)
      have ht' : s'.q.tailIdx = s.q.tailIdx := congrArg Queue.tailIdx hq
      have hh' : s'.q.headIdx = s.q.headIdx := congrArg Queue.headIdx hq
      simp only [ionicQPost_headIdx, ionicQPost_tailIdx, Queue.setInfo_headIdx, Queue.setInfo_tailIdx, ht', hh'] at h₁ h₂
      exact ⟨h₁, by omega⟩

/-- `ionic_rx_fill` keeps `tail_idx` and only adds slots to the window. -/
theorem ionicRxFill_window (h : RxInv b c s) (lif : RxLif) :
    (ionicRxFill b c lif env s).q.tailIdx = s.q.tailIdx ∧
      c.ring.inflight s.q.headIdx s.q.tailIdx ≤ c.ring.inflight (ionicRxFill b c lif env s).q.headIdx s.q.tailIdx := by
  have hl := @ionicRxFillLoop_window b c env (lif.mtu + ethHlen + vlanHlen)
    (b.pageSize / align (lif.mtu + ethHlen + vlanHlen) b.splitSz) (ionicQSpaceAvail c.ring s.q) s h.head_lt h.tail_lt
    (by have := c.ring.inflight_lt s.q.headIdx s.q.tailIdx; unfold ionicQSpaceAvail; omega)
  unfold ionicRxFill
  dsimp only
  rcases he : ionicRxFillLoop b c env (lif.mtu + ethHlen + vlanHlen)
    (b.pageSize / align (lif.mtu + ethHlen + vlanHlen) b.splitSz) (ionicQSpaceAvail c.ring s.q) s with ⟨done, s'⟩
  rw [he] at hl
  cases done <;> exact hl

/-- A completion whose color matches, naming the slot at `tail_idx` of a nonempty window, is
taken: `tail_idx` moves past the slot and `head_idx` stays. -/
theorem ionicRxService_take (lif : RxLif) {comp : RxComp} (hcm : comp.colorMatch = true)
    (hne : s.q.tailIdx ≠ s.q.headIdx) (hci : comp.compIndex = s.q.tailIdx) :
    (ionicRxService b c lif env comp s).1 = true ∧
      (ionicRxService b c lif env comp s).2.q.tailIdx = c.ring.next s.q.tailIdx ∧
      (ionicRxService b c lif env comp s).2.q.headIdx = s.q.headIdx := by
  unfold ionicRxService
  rw [if_neg (by simp [hcm]), if_neg hne, if_neg (by simp [hci])]
  dsimp only
  rcases hc : ionicRxClean b c lif env (s.q.info s.q.tailIdx) comp
    { s with q := { s.q with tailIdx := c.ring.next s.q.tailIdx } } with ⟨d, s'⟩
  have hq := @ionicRxClean_q b env c lif (s.q.info s.q.tailIdx) comp
    { s with q := { s.q with tailIdx := c.ring.next s.q.tailIdx } }
  rw [hc] at hq
  simp only at hq
  simp [hq]

/-- Completions naming the slots from `t` on, one after the other. -/
def rxInOrder (r : Ring) : Nat → List RxComp → Prop
  | _, [] => True
  | t, comp :: comps => comp.compIndex = t ∧ rxInOrder r (r.next t) comps

/-- One more completion, naming the slot after those named, keeps the order. -/
theorem rxInOrder_append (r : Ring) (x : RxComp) :
    ∀ {t : Nat} {comps : List RxComp}, t < r.numDescs → rxInOrder r t comps →
      x.compIndex = (t + comps.length) % r.numDescs → rxInOrder r t (comps ++ [x])
  | t, [], ht, _, hx => ⟨hx.trans (Nat.mod_eq_of_lt ht), trivial⟩
  | t, _ :: comps, _, ⟨h₁, h₂⟩, hx =>
    ⟨h₁, rxInOrder_append r x (r.next_lt t) h₂ (by rw [hx, r.next_add_mod, List.length_cons])⟩

/-- `ionic_rx_service`, handed in order completions naming the slots from `tail_idx` on, all
inside the window, takes `min n` of them with budget `n` and refuses none: the rest is left,
`tail_idx` moves past the slots taken, and `head_idx` and the invariant are kept. -/
theorem cqServiceFifo_rxInOrder (lif : RxLif) :
    ∀ (n : Nat) (comps : List RxComp) (s : RxState), RxInv b c s → rxInOrder c.ring s.q.tailIdx comps →
      comps.length ≤ c.ring.inflight s.q.headIdx s.q.tailIdx →
      ∃ s', cqServiceFifo (ionicRxServiceCb b c lif env) n comps s =
          some (min n comps.length, comps.drop (min n comps.length), s') ∧
        RxInv b c s' ∧ s'.q.headIdx = s.q.headIdx ∧
        s'.q.tailIdx = (s.q.tailIdx + min n comps.length) % c.ring.numDescs ∧
        rxInOrder c.ring s'.q.tailIdx (comps.drop (min n comps.length))
  | 0, comps, s, h, ho, _ => ⟨s, by simp [cqServiceFifo], h, rfl, by simp [Nat.mod_eq_of_lt h.tail_lt], by simpa using ho⟩
  | n + 1, [], s, h, _, _ => ⟨s, by simp [cqServiceFifo], h, rfl, by simp [Nat.mod_eq_of_lt h.tail_lt], trivial⟩
  | n + 1, comp :: comps, s, h, ⟨hci, ho⟩, hlen => by
    have hne : s.q.tailIdx ≠ s.q.headIdx := by
      intro he
      rw [he, Ring.inflight_self, List.length_cons] at hlen
      omega
    obtain ⟨h₁, h₂, h₃⟩ := @ionicRxService_take b c env s lif { comp with colorMatch := true } rfl hne hci
    have hinv := h.service lif env { comp with colorMatch := true }
    obtain ⟨s', hf, hinv', hh', ht', ho'⟩ := cqServiceFifo_rxInOrder lif n comps _ hinv (h₂ ▸ ho)
      (by
        have := c.ring.inflight_next_tail h.head_lt h.tail_lt hne
        rw [h₂, h₃]; simp only [List.length_cons] at hlen; omega)
    refine ⟨s', ?_, hinv', hh'.trans h₃, ?_, by rwa [List.length_cons, Nat.succ_min_succ, List.drop_succ_cons]⟩
    · simp only [cqServiceFifo, ionicRxServiceCb, Option.some.injEq] at hf ⊢
      rw [show ionicRxService b c lif env { comp with colorMatch := true } s =
        (true, (ionicRxService b c lif env { comp with colorMatch := true } s).2) from Prod.ext h₁ rfl]
      simp [hf, Nat.succ_min_succ]
    · rw [ht', h₂, c.ring.next_add_mod, List.length_cons, Nat.succ_min_succ]

variable {t : RxDbellBuild} {tm : RxDbell}

/-- The refill keeps the invariant and the deadline's range, keeps `tail_idx`, and only adds
slots to the window. -/
theorem ionicRxNapiFill_inv (nb : RxNapiBuild) (lif : RxLif) (now w : Nat) (h : RxInv b c s) (hr : tm.InRange t) :
    RxInv b c (ionicRxNapiFill nb t b c lif env now w s tm).1 ∧ (ionicRxNapiFill nb t b c lif env now w s tm).2.InRange t ∧
      (ionicRxNapiFill nb t b c lif env now w s tm).1.q.tailIdx = s.q.tailIdx ∧
      c.ring.inflight s.q.headIdx s.q.tailIdx ≤
        c.ring.inflight (ionicRxNapiFill nb t b c lif env now w s tm).1.q.headIdx s.q.tailIdx := by
  unfold ionicRxNapiFill
  split_ifs
  · rw [ionicRxFillTimed_fst]
    exact ⟨h.fill lif, ionicRxFillTimed_inRange hr lif env now s, ionicRxFill_window h lif⟩
  · exact ⟨h, hr, rfl, le_rfl⟩

/-- A poke changes the queue only by ringing the doorbell: it keeps the invariant, the deadline's
range and both cursors. -/
theorem ionicRxqPokeDoorbell_inv (now : Nat) (h : RxInv b c s) (hr : tm.InRange t) :
    RxInv b c (ionicRxqPokeDoorbell t now s tm).2.1 ∧ (ionicRxqPokeDoorbell t now s tm).2.2.InRange t ∧
      (ionicRxqPokeDoorbell t now s tm).2.1.q.tailIdx = s.q.tailIdx ∧
      (ionicRxqPokeDoorbell t now s tm).2.1.q.headIdx = s.q.headIdx := by
  refine ⟨?_, ionicRxqPokeDoorbell_inRange hr now s, ?_⟩ <;>
    rcases ionicRxqPokeDoorbell_queue now s tm with he | he <;> rw [he]
  · exact h
  · exact h.setDbell _
  · exact ⟨rfl, rfl⟩
  · exact ⟨rfl, rfl⟩

/-- The poke at the end of a poll keeps the invariant, the deadline's range and both cursors. -/
theorem ionicRxNapiPoke_inv (now w : Nat) (h : RxInv b c s) (hr : tm.InRange t) :
    RxInv b c (ionicRxNapiPoke t now w s tm).1 ∧ (ionicRxNapiPoke t now w s tm).2.InRange t ∧
      (ionicRxNapiPoke t now w s tm).1.q.tailIdx = s.q.tailIdx ∧
      (ionicRxNapiPoke t now w s tm).1.q.headIdx = s.q.headIdx := by
  unfold ionicRxNapiPoke
  split_ifs
  · obtain ⟨h₁, h₂, h₃⟩ := ionicRxqPokeDoorbell_inv now h hr
    dsimp only
    exact ⟨h₁, by split_ifs <;> exact h₂, h₃⟩
  · exact ⟨h, hr, rfl, rfl⟩

end Poll

/-! ## The system -/

/-- A receive queue with its doorbell timing, its completion ring and the device. -/
structure RxSys where
  s : RxState
  tm : RxDbell
  cq : Cq RxComp
  d : CqDev
  /-- The slot the device receives into next. -/
  recv : Nat
  /-- How many packets the device has reported since the queue was opened. -/
  received : Nat

/-- The RX device, as the spec describes the hardware: it receives a packet into the posted slot
at its cursor and reports it with a completion naming that slot. -/
def RxSys.devRecv (r : Ring) (comp : RxComp) (x : RxSys) : RxSys :=
  let p := cqDevPost r x.cq x.d { comp with compIndex := x.recv }
  { x with cq := p.1, d := p.2, recv := r.next x.recv, received := x.received + 1 }

/-- One step of a receive queue with its device: the driver fills it (as at open), the device
receives into the posted slot at its cursor, NAPI polls with any budget at any `jiffies`, or the
stack frees a fragment. -/
inductive RxSysStep (nb : RxNapiBuild) (t : RxDbellBuild) (b : RxBuild) (c : RxqCfg) : RxSys → RxSys → Prop
  | fill {x : RxSys} (lif : RxLif) (env : RxEnv) (now : Nat) :
      RxSysStep nb t b c x { x with s := (ionicRxFillTimed t b c lif env now x.s x.tm).1,
                                    tm := (ionicRxFillTimed t b c lif env now x.s x.tm).2 }
  | recv {x : RxSys} (comp : RxComp) :
      c.ring.InWindow x.s.q.headIdx x.s.q.tailIdx x.recv → RxSysStep nb t b c x (x.devRecv c.ring comp)
  | napi {x : RxSys} {lif : RxLif} {env : RxEnv} {now budget w : Nat} {cq' : Cq RxComp} {s' : RxState}
      {tm' : RxDbell} : ionicRxNapi nb t b c lif env now budget x.cq x.s x.tm = some (w, cq', s', tm') →
      RxSysStep nb t b c x { x with s := s', tm := tm', cq := cq' }
  | stackFree {x : RxSys} (f : RxFrag) : RxSysStep nb t b c x { x with s := x.s.stackFree f }

/-- The runs of a receive queue with its device: the queue is allocated with an empty completion
ring and a doorbell deadline in range, then takes steps in any order. -/
inductive RxSysReach (nb : RxNapiBuild) (t : RxDbellBuild) (b : RxBuild) (c : RxqCfg) : RxSys → Prop
  | init {tm : RxDbell} (color : Bool) (comp₀ : RxComp) : tm.InRange t →
      RxSysReach nb t b c ⟨RxState.init c.index, tm, Cq.init color comp₀, ⟨0, color⟩, 0, 0⟩
  | step {x y : RxSys} : RxSysReach nb t b c x → RxSysStep nb t b c x y → RxSysReach nb t b c y

/-- What holds along the runs: the receive invariant, the deadline's range, the layout of the
completion ring, the device's cursor inside the window, and the pending completions naming the
slots from `tail_idx` up to that cursor, in order. -/
structure RxSysInv (t : RxDbellBuild) (b : RxBuild) (c : RxqCfg) (x : RxSys) : Prop where
  inv : RxInv b c x.s
  range : x.tm.InRange t
  cq : CqInv c.ring x.cq x.d
  recv_lt : x.recv < c.ring.numDescs
  recv_le : c.ring.inflight x.recv x.s.q.tailIdx ≤ c.ring.inflight x.s.q.headIdx x.s.q.tailIdx
  count : cqCount c.ring x.cq x.d = c.ring.inflight x.recv x.s.q.tailIdx
  order : rxInOrder c.ring x.s.q.tailIdx (cqPending c.ring x.cq x.d)

section Steps

variable {t : RxDbellBuild} {b : RxBuild} {c : RxqCfg} {x : RxSys}

theorem RxSysInv.init {tm : RxDbell} (color : Bool) (comp₀ : RxComp) (hr : tm.InRange t) :
    RxSysInv t b c ⟨RxState.init c.index, tm, Cq.init color comp₀, ⟨0, color⟩, 0, 0⟩ := by
  have h0 := cqCount_init c.ring color comp₀
  exact ⟨RxInv.init b c, hr, CqInv.init c.ring color comp₀, c.ring.numDescs_pos, le_rfl,
    h0.trans (c.ring.inflight_self 0).symm, by simp [cqPending, h0, rxInOrder]⟩

/-- The completion ring never overflows: the device never runs more than the window ahead of
`tail_idx`. -/
theorem RxSysInv.cqCount_lt (h : RxSysInv t b c x) : cqCount c.ring x.cq x.d < c.ring.numDescs := by
  rw [h.count]
  exact lt_of_le_of_lt h.recv_le (c.ring.inflight_lt _ _)

/-- A change of the queue that keeps `tail_idx` and only adds slots to the window keeps the
invariant. -/
theorem RxSysInv.grow (h : RxSysInv t b c x) {s' : RxState} {tm' : RxDbell} (hi : RxInv b c s') (hr : tm'.InRange t)
    (ht : s'.q.tailIdx = x.s.q.tailIdx)
    (hw : c.ring.inflight x.s.q.headIdx x.s.q.tailIdx ≤ c.ring.inflight s'.q.headIdx x.s.q.tailIdx) :
    RxSysInv t b c { x with s := s', tm := tm' } :=
  ⟨hi, hr, h.cq, h.recv_lt, by simp only [ht]; exact h.recv_le.trans hw, by simp only [ht]; exact h.count,
    by simp only [ht]; exact h.order⟩

theorem RxSysInv.fill (h : RxSysInv t b c x) (lif : RxLif) (env : RxEnv) (now : Nat) :
    RxSysInv t b c { x with s := (ionicRxFillTimed t b c lif env now x.s x.tm).1,
                            tm := (ionicRxFillTimed t b c lif env now x.s x.tm).2 } := by
  have hw := @ionicRxFill_window b c env x.s h.inv lif
  rw [← ionicRxFillTimed_fst t b c lif env now x.s x.tm] at hw
  exact h.grow (ionicRxFillTimed_fst t b c lif env now x.s x.tm ▸ h.inv.fill lif)
    (ionicRxFillTimed_inRange h.range lif env now x.s) hw.1 hw.2

theorem RxSysInv.stackFree (h : RxSysInv t b c x) (f : RxFrag) : RxSysInv t b c { x with s := x.s.stackFree f } := by
  have hq := x.s.stackFree_q f
  exact h.grow (h.inv.stackFree f) h.range (by rw [hq]) (by rw [hq])

/-- A packet received into the posted slot at the device's cursor adds the completion naming
that slot. -/
theorem RxSysInv.devRecv (h : RxSysInv t b c x) (comp : RxComp) (hw : c.ring.InWindow x.s.q.headIdx x.s.q.tailIdx x.recv) :
    RxSysInv t b c (x.devRecv c.ring comp) := by
  have hN := c.ring.inflight_lt x.s.q.headIdx x.s.q.tailIdx
  have hw' : c.ring.inflight x.recv x.s.q.tailIdx < c.ring.inflight x.s.q.headIdx x.s.q.tailIdx := hw
  obtain ⟨hcq, hk, hp⟩ := h.cq.devPost (by rw [h.count]; omega) { comp with compIndex := x.recv }
  have hnext := c.ring.inflight_next_head h.recv_lt h.inv.tail_lt (by omega)
  refine ⟨h.inv, h.range, hcq, c.ring.next_lt _, by simp only [RxSys.devRecv]; omega,
    by simp only [RxSys.devRecv, hk, h.count, hnext], ?_⟩
  simp only [RxSys.devRecv, hp]
  refine rxInOrder_append c.ring _ h.inv.tail_lt h.order ?_
  rw [cqPending_length, h.count, c.ring.add_inflight_mod h.recv_lt h.inv.tail_lt]

/-- A service of the completion ring with any budget takes `min budget pending` completions,
refusing none, and keeps the invariant and `head_idx`. -/
theorem RxSysInv.service (h : RxSysInv t b c x) (lif : RxLif) (env : RxEnv) (budget : Nat) :
    ∃ cq' s', ionicCqService c.ring (ionicRxServiceCb b c lif env) budget x.cq x.s =
        some (min budget (cqCount c.ring x.cq x.d), cq', s') ∧
      cqCount c.ring cq' x.d = cqCount c.ring x.cq x.d - budget ∧ s'.q.headIdx = x.s.q.headIdx ∧
      RxSysInv t b c { x with s := s', cq := cq' } := by
  obtain ⟨h₁, h₂⟩ := ionicCqService_fifo (fun _ _ => rfl : ∀ comp s, ionicRxServiceCb b c lif env false comp s = some (false, s))
    budget h.cq x.s
  have hlen : (cqPending c.ring x.cq x.d).length ≤ c.ring.inflight x.s.q.headIdx x.s.q.tailIdx := by
    rw [cqPending_length, h.count]; exact h.recv_le
  obtain ⟨s₁, hf, hinv₁, hh₁, ht₁, ho₁⟩ := @cqServiceFifo_rxInOrder b c env lif budget _ x.s h.inv h.order hlen
  rw [cqPending_length] at hf ho₁ ht₁
  rw [hf] at h₁
  obtain ⟨⟨w, cq', s₂⟩, hsvc, he⟩ := Option.map_eq_some'.mp h₁
  simp only [Prod.mk.injEq] at he
  obtain ⟨hw, hp', hs⟩ := he
  subst hw hs
  -- the window after the service, `min budget pending` slots shorter on both sides
  have hm : min budget (cqCount c.ring x.cq x.d) ≤ c.ring.inflight x.recv x.s.q.tailIdx :=
    h.count ▸ Nat.min_le_right _ _
  have hrecv := c.ring.inflight_add_tail h.recv_lt h.inv.tail_lt hm
  have hhead := c.ring.inflight_add_tail h.inv.head_lt h.inv.tail_lt (hm.trans h.recv_le)
  have hH := h.recv_le
  have hl := congrArg List.length hp'
  rw [cqPending_length, List.length_drop, cqPending_length] at hl
  refine ⟨cq', _, hsvc, by rw [hl]; omega, hh₁, hinv₁, h.range, h₂ _ hsvc, h.recv_lt, ?_, ?_,
    by simp only [hp']; exact ho₁⟩
  · simp only [hh₁, ht₁]
    omega
  · rw [hl, ht₁, hrecv, h.count]

/-- A poll with any budget at any `jiffies` returns having taken `min budget pending`
completions, and keeps the invariant. -/
theorem RxSysInv.napi (nb : RxNapiBuild) (h : RxSysInv t b c x) (lif : RxLif) (env : RxEnv) (now budget : Nat) :
    ∃ cq' s' tm', ionicRxNapi nb t b c lif env now budget x.cq x.s x.tm =
        some (min budget (cqCount c.ring x.cq x.d), cq', s', tm') ∧
      RxSysInv t b c { x with s := s', tm := tm', cq := cq' } := by
  obtain ⟨cq', s₁, hs, -, -, h₁⟩ := h.service lif env budget
  -- the refill and the poke after the service
  obtain ⟨hi₂, hr₂, ht₂, hw₂⟩ :=
    @ionicRxNapiFill_inv b c env s₁ t x.tm nb lif now (min budget (cqCount c.ring x.cq x.d)) h₁.inv h₁.range
  have h₂ := h₁.grow hi₂ hr₂ ht₂ hw₂
  obtain ⟨hi₃, hr₃, ht₃, hh₃⟩ := ionicRxNapiPoke_inv now (min budget (cqCount c.ring x.cq x.d)) h₂.inv h₂.range
  exact ⟨cq', _, _, by rw [ionicRxNapi, hs]; rfl, h₂.grow hi₃ hr₃ ht₃ (hh₃ ▸ le_rfl)⟩

/-- Every step keeps the invariant. -/
theorem RxSysInv.step {nb : RxNapiBuild} {y : RxSys} (h : RxSysInv t b c x) (hs : RxSysStep nb t b c x y) :
    RxSysInv t b c y := by
  cases hs with
  | fill lif env now => exact h.fill lif env now
  | recv comp hw => exact h.devRecv comp hw
  | @napi lif env now budget w cq' s' tm' hs =>
    obtain ⟨cq₁, s₁, tm₁, hs₁, hinv⟩ := h.napi nb lif env now budget
    rw [hs] at hs₁
    simp only [Option.some.injEq, Prod.mk.injEq] at hs₁
    obtain ⟨-, rfl, rfl, rfl⟩ := hs₁
    exact hinv
  | stackFree f => exact h.stackFree f

/-- Every state of a run satisfies the invariant. -/
theorem RxSysReach.inv {nb : RxNapiBuild} (h : RxSysReach nb t b c x) : RxSysInv t b c x := by
  induction h with
  | init color comp₀ hr => exact RxSysInv.init color comp₀ hr
  | step _ hs ih => exact ih.step hs

end Steps

/-- Over every interleaving of fills, packets received by an in-order device, polls with any
budget at any `jiffies`, and frees by the stack, the queue keeps the receive invariant and the
doorbell deadline its range, the completion ring never overflows, and every poll takes
`min budget pending` completions: `ionic_rx_service` refuses none, so the ring never stalls. -/
theorem rxSysReach_napi {nb : RxNapiBuild} {t : RxDbellBuild} {b : RxBuild} {c : RxqCfg} {x : RxSys}
    (h : RxSysReach nb t b c x) :
    RxInv b c x.s ∧ x.tm.InRange t ∧ cqCount c.ring x.cq x.d < c.ring.numDescs ∧
      ∀ lif env now budget, ∃ cq' s' tm', ionicRxNapi nb t b c lif env now budget x.cq x.s x.tm =
        some (min budget (cqCount c.ring x.cq x.d), cq', s', tm') := by
  have hi := h.inv
  refine ⟨hi.inv, hi.range, hi.cqCount_lt, fun lif env now budget => ?_⟩
  obtain ⟨cq', s', tm', hs, -⟩ := hi.napi nb lif env now budget
  exact ⟨cq', s', tm', hs⟩

/-- A queue of two slots filled at open, a 1000-byte packet received, a poll at jiffies 1 that hands
it up and refills, and a second packet received: one completion is pending. -/
theorem rxSysReach_napi_polled :
    let nb : RxNapiBuild := ⟨16, 8⟩
    let t : RxDbellBuild := ⟨1, 8, 2, by decide⟩
    let b : RxBuild := ⟨false, 4096, 2048, 3000, 8, 16, by decide, by decide⟩
    let c : RxqCfg := ⟨⟨2, 1, rfl⟩, 0, 2, false⟩
    let lif : RxLif := { mtu := 1500, rxCopybreak := 256 }
    let env : RxEnv := ⟨fun _ => true, fun p => 4096 * (p + 1), fun _ => true, true, []⟩
    let x₀ : RxSys := ⟨RxState.init 0, ⟨1, 0, none⟩, Cq.init true { len := 0 }, ⟨0, true⟩, 0, 0⟩
    let x₁ : RxSys := ({ x₀ with s := (ionicRxFillTimed t b c lif env 0 x₀.s x₀.tm).1,
                                 tm := (ionicRxFillTimed t b c lif env 0 x₀.s x₀.tm).2 }).devRecv c.ring
      { len := 1000 }
    let p := ((ionicRxNapi nb t b c lif env 1 64 x₁.cq x₁.s x₁.tm).map Prod.snd).getD
      (Cq.init true { len := 0 }, RxState.init 0, ⟨1, 0, none⟩)
    let x : RxSys := ({ x₁ with s := p.2.1, tm := p.2.2, cq := p.1 }).devRecv c.ring { len := 1000 }
    (x.s.delivered.length, cqCount c.ring x.cq x.d) = (1, 1) ∧
    RxInv b c x.s ∧ x.tm.InRange t ∧ cqCount c.ring x.cq x.d < c.ring.numDescs ∧
      ∀ lif env now budget, ∃ cq' s' tm', ionicRxNapi nb t b c lif env now budget x.cq x.s x.tm =
        some (min budget (cqCount c.ring x.cq x.d), cq', s', tm') :=
  ⟨by decide!, rxSysReach_napi (.step (.step (.step (.step (@RxSysReach.init _ _ _ _ ⟨1, 0, none⟩ true { len := 0 }
    (by decide))
    (.fill { mtu := 1500, rxCopybreak := 256 } ⟨fun _ => true, fun p => 4096 * (p + 1), fun _ => true, true, []⟩ 0))
    (.recv { len := 1000 } (by decide!)))
    (@RxSysStep.napi _ _ _ _ _ { mtu := 1500, rxCopybreak := 256 }
      ⟨fun _ => true, fun p => 4096 * (p + 1), fun _ => true, true, []⟩ 1 64 1 _ _ _
      (eq_some_of_map_fst (Cq.init true { len := 0 }, RxState.init 0, ⟨1, 0, none⟩) (by decide!))))
    (.recv { len := 1000 } (by decide!)))⟩

/-- Draining the receive queue: from every state of a run in which the device has received into
every posted slot, a service with a budget of at least the pending completions takes them all and
empties the window, `tail_idx` reaching `head_idx`. -/
theorem rxSysReach_service_drains {nb : RxNapiBuild} {t : RxDbellBuild} {b : RxBuild} {c : RxqCfg} {x : RxSys}
    (h : RxSysReach nb t b c x) (hr : x.recv = x.s.q.headIdx) (lif : RxLif) (env : RxEnv) {budget : Nat}
    (hb : cqCount c.ring x.cq x.d ≤ budget) :
    ∃ cq' s', ionicCqService c.ring (ionicRxServiceCb b c lif env) budget x.cq x.s =
        some (cqCount c.ring x.cq x.d, cq', s') ∧ cqCount c.ring cq' x.d = 0 ∧
      s'.q.tailIdx = x.s.q.headIdx ∧ s'.q.headIdx = x.s.q.headIdx ∧ RxInv b c s' := by
  have hi := h.inv
  obtain ⟨cq', s', hs, hc, hh, hi'⟩ := hi.service lif env budget
  have h0 : cqCount c.ring cq' x.d = 0 := by omega
  -- no completion is left, so `tail_idx` has reached the device's cursor
  have ht : x.recv = s'.q.tailIdx := (c.ring.inflight_eq_zero hi.recv_lt hi'.inv.tail_lt).mp (hi'.count ▸ h0)
  exact ⟨cq', s', by rw [hs, Nat.min_eq_right hb], h0, ht.symm.trans hr, hh, hi'.inv⟩

/-- A queue of two slots: filled at open, then a 100-byte packet received into its posted slot,
drained by a service of budget one. -/
theorem rxSysReach_service_drains_recv :
    let b : RxBuild := ⟨false, 4096, 2048, 3000, 8, 16, by decide, by decide⟩
    let c : RxqCfg := ⟨⟨2, 1, rfl⟩, 0, 2, false⟩
    let t : RxDbellBuild := ⟨1, 8, 2, by decide⟩
    let lif : RxLif := { mtu := 1500, rxCopybreak := 256 }
    let env : RxEnv := ⟨fun _ => true, fun p => 4096 * (p + 1), fun _ => true, true, []⟩
    let x₀ : RxSys := ⟨RxState.init 0, ⟨1, 0, none⟩, Cq.init true { len := 0 }, ⟨0, true⟩, 0, 0⟩
    let x₁ : RxSys := { x₀ with s := (ionicRxFillTimed t b c lif env 0 x₀.s x₀.tm).1,
                                 tm := (ionicRxFillTimed t b c lif env 0 x₀.s x₀.tm).2 }
    let x : RxSys := x₁.devRecv c.ring { len := 100 }
    ∃ cq' s', ionicCqService c.ring (ionicRxServiceCb b c lif env) 1 x.cq x.s =
        some (cqCount c.ring x.cq x.d, cq', s') ∧ cqCount c.ring cq' x.d = 0 ∧
      s'.q.tailIdx = x.s.q.headIdx ∧ s'.q.headIdx = x.s.q.headIdx ∧ RxInv b c s' :=
  @rxSysReach_service_drains ⟨16, 8⟩ ⟨1, 8, 2, by decide⟩ _ _ _
    (.step (.step (.init true { len := 0 } (by decide)) (.fill { mtu := 1500, rxCopybreak := 256 }
      ⟨fun _ => true, fun p => 4096 * (p + 1), fun _ => true, true, []⟩ 0)) (.recv { len := 100 } (by decide)))
    (by decide) _ _ 1 (by decide)

end IonicTxrx
