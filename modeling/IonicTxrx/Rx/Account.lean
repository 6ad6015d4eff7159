import IonicTxrx.Rx.Napi

/-!
# Every received packet is accounted for

`ionic_rx_service` cleans each completion it takes exactly once, and `ionic_rx_clean` ends every
one of its paths (a bad status, an oversize length, a failed skb allocation, a buffer without a
page, or a packet built) by handing one packet to the stack or by counting one drop. Nothing
else on the receive path, neither the fill nor a doorbell poke nor a free by the stack, touches
either count. So along every run of the receive system, the packets delivered and dropped, with
the completions still pending, add up to the packets the device reported, and a poll whose budget
covers the pending completions accounts for every packet (`rxSysReach_received`): none is lost
and none is handled twice.
-/

namespace IonicTxrx

/-- The completions handled so far: the packets handed to the stack and those dropped. -/
def RxState.handled (s : RxState) : Nat := s.delivered.length + s.stats.dropped

theorem RxState.putFrags_handled (s : RxState) (fs : List RxFrag) : (s.putFrags fs).handled = s.handled := by
  induction fs generalizing s with
  | nil => rfl
  | cons f fs ih => exact ih (s.putPage f.page)

theorem RxState.stackFree_handled (s : RxState) (f : RxFrag) : (s.stackFree f).handled = s.handled := by
  unfold RxState.stackFree
  split <;> rfl

/-! ## The fill and the pokes leave the count alone -/

section Fill

variable {b : RxBuild} {c : RxqCfg} {env : RxEnv} {ns : Nat}

theorem ionicRxPageAlloc_handled (bi : RxBufInfo) (s : RxState) :
    (ionicRxPageAlloc b env bi s).2.2.handled = s.handled := by
  unfold ionicRxPageAlloc
  dsimp only
  split_ifs <;> rfl

theorem ionicRxTakeBias_handled (b : RxBuild) (ns : Nat) (bi : RxBufInfo) (s : RxState) :
    (ionicRxTakeBias b ns bi s).2.handled = s.handled := by
  unfold ionicRxTakeBias
  dsimp only
  split_ifs <;> (try cases bi.page) <;> rfl

theorem ionicRxFillBuf_handled (bi : RxBufInfo) (s : RxState) :
    (ionicRxFillBuf b env ns bi s).2.2.handled = s.handled := by
  unfold ionicRxFillBuf
  split
  · rfl
  rcases ha : ionicRxPageAlloc b env bi s with ⟨r, bi₁, s₁⟩
  have h₁ : s₁.handled = s.handled := by rw [← ionicRxPageAlloc_handled bi s, ha]
  dsimp only
  split_ifs
  · exact h₁
  · exact (ionicRxTakeBias_handled b ns bi₁ s₁).trans h₁

theorem ionicRxFillSg_handled :
    ∀ {fuel j remain : Nat} {d : RxDescInfo} {s : RxState},
      (sgResult (ionicRxFillSg b env ns fuel j remain d s)).2.handled = s.handled
  | 0, _, _, _, _ => rfl
  | fuel + 1, j, remain, d, s => by
    rw [ionicRxFillSg]
    split
    · rfl
    rcases hb : ionicRxFillBuf b env ns (d.bufs (1 + j)) s with ⟨ok, bi, s₁⟩
    have h₁ : s₁.handled = s.handled := by rw [← ionicRxFillBuf_handled (d.bufs (1 + j)) s, hb]
    cases ok
    · exact h₁
    · exact ionicRxFillSg_handled.trans h₁

theorem ionicRxFillSlot_handled {len : Nat} (d₀ : RxDescInfo) (s : RxState) :
    (ionicRxFillSlot b c env len ns d₀ s).2.2.handled = s.handled := by
  rw [ionicRxFillSlot]
  rcases hb : ionicRxFillBuf b env ns (d₀.bufs 0) s with ⟨ok₀, bi, s₁⟩
  have h₁ : s₁.handled = s.handled := by rw [← ionicRxFillBuf_handled (d₀.bufs 0) s, hb]
  cases ok₀
  · exact h₁
  simp only [Bool.not_true, Bool.false_eq_true, ↓reduceIte]
  have h₂ := @ionicRxFillSg_handled b env ns c.maxSgElems 0 (len - min (len % 2 ^ 16) (b.room bi.pageOffset))
    { d₀ with bufs := Function.update d₀.bufs 0 bi } s₁
  split <;> rename_i hr <;> rw [hr] at h₂ <;> exact h₂.trans h₁

theorem ionicRxFillLoop_handled {len : Nat} :
    ∀ (i : Nat) (s : RxState), (ionicRxFillLoop b c env len ns i s).2.handled = s.handled
  | 0, _ => rfl
  | i + 1, s => by
    rw [ionicRxFillLoop]
    rcases hf : ionicRxFillSlot b c env len ns (s.q.info s.q.headIdx) s with ⟨ok, d, s'⟩
    have h₁ : s'.handled = s.handled := by rw [← ionicRxFillSlot_handled (s.q.info s.q.headIdx) s, hf]
    cases ok
    · exact h₁
    · exact (ionicRxFillLoop_handled i _).trans h₁

theorem ionicRxFill_handled (lif : RxLif) (s : RxState) : (ionicRxFill b c lif env s).handled = s.handled := by
  have hl := @ionicRxFillLoop_handled b c env (b.pageSize / align (lif.mtu + ethHlen + vlanHlen) b.splitSz)
    (lif.mtu + ethHlen + vlanHlen) (ionicQSpaceAvail c.ring s.q) s
  unfold ionicRxFill
  dsimp only
  rcases he : ionicRxFillLoop b c env (lif.mtu + ethHlen + vlanHlen)
    (b.pageSize / align (lif.mtu + ethHlen + vlanHlen) b.splitSz) (ionicQSpaceAvail c.ring s.q) s with ⟨done, s'⟩
  rw [he] at hl
  cases done <;> exact hl

variable {t : RxDbellBuild} {lif : RxLif} {now : Nat} {tm : RxDbell}

theorem ionicRxFillTimed_handled (s : RxState) : (ionicRxFillTimed t b c lif env now s tm).1.handled = s.handled := by
  rw [ionicRxFillTimed_fst]
  exact ionicRxFill_handled lif s

theorem ionicRxNapiFill_handled (nb : RxNapiBuild) (w : Nat) (s : RxState) :
    (ionicRxNapiFill nb t b c lif env now w s tm).1.handled = s.handled := by
  unfold ionicRxNapiFill
  split_ifs
  · exact ionicRxFillTimed_handled s
  · rfl

theorem ionicRxqPokeDoorbell_handled (s : RxState) : (ionicRxqPokeDoorbell t now s tm).2.1.handled = s.handled := by
  rcases ionicRxqPokeDoorbell_queue now s tm with he | he
  · rw [he]
  · rw [he]
    rfl

theorem ionicRxNapiPoke_handled (w : Nat) (s : RxState) : (ionicRxNapiPoke t now w s tm).1.handled = s.handled := by
  unfold ionicRxNapiPoke
  split_ifs
  · exact ionicRxqPokeDoorbell_handled s
  · rfl

end Fill

/-! ## A completion cleaned is handled once -/

section Clean

variable {b : RxBuild} {mtu : Nat} {env : RxEnv}

theorem ionicRxFragsLoop_handled :
    ∀ {i k len : Nat} {d : RxDescInfo} {skb : List RxFrag} {s : RxState},
      (ionicRxFragsLoop b mtu env i k len d skb s).2.2.handled = s.handled
  | 0, _, _, _, _, _ => rfl
  | i + 1, k, len, d, skb, s => by
    rw [ionicRxFragsLoop]
    split
    · exact s.putFrags_handled skb
    rename_i p _
    dsimp only
    rcases hr : ionicRxBufRecycle b mtu (env.reusable p) p (d.bufs k) (min len (b.room (d.bufs k).pageOffset)) s
      with ⟨keep, bi', s₁⟩
    have h₁ : s₁.handled = s.handled := by
      have he := congrArg (·.2.2.handled) hr
      unfold ionicRxBufRecycle at he
      dsimp only at he
      split_ifs at he <;> exact he.symm
    cases keep <;> exact ionicRxFragsLoop_handled.trans h₁

theorem ionicRxFrags_handled (d : RxDescInfo) (comp : RxComp) (s : RxState) :
    (ionicRxFrags b mtu env d comp s).2.2.handled = s.handled := by
  unfold ionicRxFrags
  split
  · rfl
  · exact ionicRxFragsLoop_handled

theorem ionicRxCopybreak_handled (d : RxDescInfo) (comp : RxComp) (s : RxState) :
    (ionicRxCopybreak env d comp s).2.handled = s.handled := by
  unfold ionicRxCopybreak
  split <;> rfl

theorem ionicRxMeta_dropped (c : RxqCfg) (lif : RxLif) (comp : RxComp) (pkt : RxPkt) (st : RxStats) :
    (ionicRxMeta c lif comp pkt st).2.dropped = st.dropped := by
  unfold ionicRxMeta
  dsimp only
  split <;> split_ifs <;> rfl

/-- `ionic_rx_clean` handles its completion once, on every path: it hands one packet to the stack
or counts one drop. -/
theorem ionicRxClean_handled (c : RxqCfg) (lif : RxLif) (d : RxDescInfo) (comp : RxComp) (s : RxState) :
    (ionicRxClean b c lif env d comp s).2.handled = s.handled + 1 := by
  unfold ionicRxClean
  split
  · rfl
  split
  · rfl
  dsimp only
  split
  · -- copied out
    split <;> rename_i s' he <;> have h₁ := congrArg (·.2.handled) he <;>
      simp only [ionicRxCopybreak_handled] at h₁
    · exact (congrArg (· + 1) h₁).symm
    · simp only [RxState.handled, List.length_cons, ionicRxMeta_dropped] at h₁ ⊢
      omega
  · -- handed up as page fragments
    split <;> rename_i d' r s' he <;> have h₁ := congrArg (·.2.2.handled) he <;>
      simp only [ionicRxFrags_handled] at h₁
    · exact (congrArg (· + 1) h₁).symm
    · simp only [RxState.handled, List.length_cons, ionicRxMeta_dropped] at h₁ ⊢
      omega

/-- `ionic_rx_service` handles one completion when it takes one, and changes nothing when it
refuses. -/
theorem ionicRxService_handled (c : RxqCfg) (lif : RxLif) (comp : RxComp) (s : RxState) :
    (ionicRxService b c lif env comp s).2.handled = s.handled + (ionicRxService b c lif env comp s).1.toNat := by
  unfold ionicRxService
  split_ifs
  · rfl
  · rfl
  · rfl
  · exact @ionicRxClean_handled b env c lif (s.q.info s.q.tailIdx) comp
      { s with q := { s.q with tailIdx := c.ring.next s.q.tailIdx } }

variable {c : RxqCfg} {lif : RxLif}

/-- A service of the completion ring handles as many completions as it reports done. -/
theorem ionicCqService_handled {n w : Nat} {cq cq' : Cq RxComp} {s s' : RxState}
    (hs : ionicCqService c.ring (ionicRxServiceCb b c lif env) n cq s = some (w, cq', s')) :
    s'.handled = s.handled + w :=
  ionicCqService_count (f := RxState.handled) (fun m comp s₀ _ _ h => by
    rw [ionicRxServiceCb, Option.some.injEq] at h
    have he := @ionicRxService_handled b env c lif { comp with colorMatch := m } s₀
    rwa [h] at he) n hs

/-- A poll handles as many completions as it reports done, and leaves the same ring as the service
it starts with. -/
theorem ionicRxNapi_handled {nb : RxNapiBuild} {t : RxDbellBuild} {now budget w : Nat} {cq cq' : Cq RxComp}
    {s s' : RxState} {tm tm' : RxDbell} (hs : ionicRxNapi nb t b c lif env now budget cq s tm = some (w, cq', s', tm')) :
    ∃ s₁, ionicCqService c.ring (ionicRxServiceCb b c lif env) budget cq s = some (w, cq', s₁) ∧
      s'.handled = s.handled + w := by
  obtain ⟨⟨w₁, cq₁, s₁⟩, hs₁, he⟩ := Option.map_eq_some'.mp hs
  simp only [Prod.mk.injEq] at he
  obtain ⟨rfl, rfl, hp⟩ := he
  refine ⟨s₁, hs₁, ?_⟩
  have hs' : (ionicRxNapiPoke t now w₁ (ionicRxNapiFill nb t b c lif env now w₁ s₁ tm).1
      (ionicRxNapiFill nb t b c lif env now w₁ s₁ tm).2).1 = s' := congrArg Prod.fst hp
  rw [← hs', ionicRxNapiPoke_handled, ionicRxNapiFill_handled]
  exact ionicCqService_handled hs₁

end Clean

/-! ## Along the runs -/

/-- The accounting of a receive queue: the completions handled and those still pending add up to
the packets the device reported. -/
def RxSys.Balanced (c : RxqCfg) (x : RxSys) : Prop := x.s.handled + cqCount c.ring x.cq x.d = x.received

section Steps

variable {nb : RxNapiBuild} {t : RxDbellBuild} {b : RxBuild} {c : RxqCfg} {x : RxSys}

/-- A packet the device reports adds one pending completion; a poll moves as many from pending
to handled as it takes; a fill and a free by the stack touch neither. -/
theorem RxSys.Balanced.step {y : RxSys} (h : RxSysInv t b c x) (hb : x.Balanced c) (hs : RxSysStep nb t b c x y) :
    y.Balanced c := by
  cases hs with
  | fill lif env now =>
    show (ionicRxFillTimed t b c lif env now x.s x.tm).1.handled + _ = _
    rw [ionicRxFillTimed_handled]
    exact hb
  | recv comp hw =>
    have hw' : c.ring.inflight x.recv x.s.q.tailIdx < c.ring.inflight x.s.q.headIdx x.s.q.tailIdx := hw
    have hN := c.ring.inflight_lt x.s.q.headIdx x.s.q.tailIdx
    obtain ⟨-, hk, -⟩ := h.cq.devPost (by rw [h.count]; omega) { comp with compIndex := x.recv }
    unfold RxSys.Balanced at hb ⊢
    simp only [RxSys.devRecv, hk]
    omega
  | @napi lif env now budget w cq' s' tm' hs =>
    obtain ⟨s₁, hs₁, hh⟩ := ionicRxNapi_handled hs
    obtain ⟨cq₂, s₂, hs₂, hc₂, -, -⟩ := h.service lif env budget
    rw [hs₁] at hs₂
    simp only [Option.some.injEq, Prod.mk.injEq] at hs₂
    obtain ⟨rfl, rfl, -⟩ := hs₂
    unfold RxSys.Balanced at hb
    show s'.handled + cqCount c.ring cq' x.d = x.received
    rw [hh, hc₂]
    omega
  | stackFree f =>
    show (x.s.stackFree f).handled + _ = _
    rw [RxState.stackFree_handled]
    exact hb

/-- Every state of a run keeps the accounting. -/
theorem RxSysReach.balanced (h : RxSysReach nb t b c x) : x.Balanced c := by
  induction h with
  | init color comp₀ _ =>
    show (RxState.init c.index).handled + cqCount c.ring (Cq.init color comp₀) ⟨0, color⟩ = 0
    rw [cqCount_init]
    rfl
  | step hr hs ih => exact ih.step hr.inv hs

end Steps

/-- No received packet is lost or handled twice: along every run of a receive queue, the packets
handed to the stack and those counted as dropped, with the completions still pending, add up to
the packets the device reported; and a poll whose budget covers the pending completions returns
with every reported packet handed up or dropped. -/
theorem rxSysReach_received {nb : RxNapiBuild} {t : RxDbellBuild} {b : RxBuild} {c : RxqCfg} {x : RxSys}
    (h : RxSysReach nb t b c x) :
    x.s.delivered.length + x.s.stats.dropped + cqCount c.ring x.cq x.d = x.received ∧
      ∀ lif env now budget, cqCount c.ring x.cq x.d ≤ budget → ∃ cq' s' tm',
        ionicRxNapi nb t b c lif env now budget x.cq x.s x.tm = some (cqCount c.ring x.cq x.d, cq', s', tm') ∧
          s'.delivered.length + s'.stats.dropped = x.received := by
  have hb := h.balanced
  refine ⟨hb, fun lif env now budget hle => ?_⟩
  obtain ⟨cq', s', tm', hs, -⟩ := h.inv.napi nb lif env now budget
  rw [Nat.min_eq_right hle] at hs
  obtain ⟨-, -, hh⟩ := ionicRxNapi_handled hs
  exact ⟨cq', s', tm', hs, hh.trans hb⟩

/-- A queue of two slots: filled at open, then a 100-byte packet received into its posted slot. -/
theorem rxSysReach_received_recv :
    let b : RxBuild := ⟨false, 4096, 2048, 3000, 8, 16, by decide, by decide⟩
    let c : RxqCfg := ⟨⟨2, 1, rfl⟩, 0, 2, false⟩
    let t : RxDbellBuild := ⟨1, 8, 2, by decide⟩
    let lif : RxLif := { mtu := 1500, rxCopybreak := 256 }
    let env : RxEnv := ⟨fun _ => true, fun p => 4096 * (p + 1), fun _ => true, true, []⟩
    let x₀ : RxSys := ⟨RxState.init 0, ⟨1, 0, none⟩, Cq.init true { len := 0 }, ⟨0, true⟩, 0, 0⟩
    let x₁ : RxSys := { x₀ with s := (ionicRxFillTimed t b c lif env 0 x₀.s x₀.tm).1,
                                 tm := (ionicRxFillTimed t b c lif env 0 x₀.s x₀.tm).2 }
    let x : RxSys := x₁.devRecv c.ring { len := 100 }
    x.s.delivered.length + x.s.stats.dropped + cqCount c.ring x.cq x.d = x.received ∧
      ∀ lif env now budget, cqCount c.ring x.cq x.d ≤ budget → ∃ cq' s' tm',
        ionicRxNapi ⟨16, 8⟩ t b c lif env now budget x.cq x.s x.tm = some (cqCount c.ring x.cq x.d, cq', s', tm') ∧
          s'.delivered.length + s'.stats.dropped = x.received :=
  @rxSysReach_received ⟨16, 8⟩ ⟨1, 8, 2, by decide⟩ _ _ _
    (.step (.step (.init true { len := 0 } (by decide)) (.fill { mtu := 1500, rxCopybreak := 256 }
      ⟨fun _ => true, fun p => 4096 * (p + 1), fun _ => true, true, []⟩ 0)) (.recv { len := 100 } (by decide)))

end IonicTxrx
