import IonicTxrx.Tx.View

/-!
# Stopping and waking the subqueue

`ionic_start_xmit` stops its subqueue when a packet may not fit, and `ionic_tx_clean` wakes it
again; the two run on different CPUs. Here each path is a sequence of atomic steps and a run is
the order in which a scheduler picks them. The transmit path takes the has-space test, the stop,
the re-check with its wake, and the send of `ionic_start_xmit` one at a time; the completion
path cleans one slot per step, as an iteration of the loop of `ionic_tx_service` does. The BQL
completion at the end of `ionic_tx_service` wakes nothing the driver stopped and is left out.

Run back to back, the steps of the transmit path are `ionic_start_xmit`
(`wakeRun_ionicStartXmit`). When every packet takes one descriptor and is mapped to the queue it
is sent on, every slot in flight holds an skb whose completion wakes the queue, and no
interleaving loses a wake-up (`wakeRun_single_no_lost_wakeup`). A TSO packet leaves slots that
hold no skb, and the queue can be stopped after the completion path has passed the one slot
that would have woken it (`wake_lost_after_tso`).
-/

namespace IonicTxrx

/-- Where the transmit path stands between two of its atomic steps. `next` is what follows a
passed `ionic_maybe_stop_tx`: the send of the admitted skb with the answers of its call, or the
return after the trailing check for four slots. -/
inductive XmitPc where
  /-- No call of `ionic_start_xmit` is running on the queue. -/
  | idle
  /-- Next: `ionic_q_has_space(q, ndescs)`. -/
  | test (ndescs : Nat) (next : Option (TxEnv × Skb))
  /-- Next: `netif_stop_subqueue` and `q->stop++`. -/
  | stop (ndescs : Nat) (next : Option (TxEnv × Skb))
  /-- Next: the re-check, with `netif_wake_subqueue` when it finds room. -/
  | recheck (ndescs : Nat) (next : Option (TxEnv × Skb))
  /-- Next: `ionic_tx_tso` or `ionic_tx` for `skb`. -/
  | send (env : TxEnv) (skb : Skb)

namespace XmitPc

/-- Where a passed `ionic_maybe_stop_tx` goes on to. -/
def resume : Option (TxEnv × Skb) → XmitPc
  | some (env, skb) => .send env skb
  | none => .idle

/-- The call has returned. -/
def isIdle : XmitPc → Bool
  | .idle => true
  | _ => false

end XmitPc

/-- The steps a scheduler can pick. -/
inductive WakeAction where
  /-- `ionic_start_xmit(skb)` is entered on the idle queue and runs `ionic_tx_descs_needed`. -/
  | xmit (env : TxEnv) (skb : Skb)
  /-- The running call of `ionic_start_xmit` takes its next step. -/
  | tx
  /-- An iteration of the loop of `ionic_tx_service`: clean the slot at `tail_idx`. -/
  | complete

/-- One atomic step; `none` when the step picked cannot run: no call to step, a call already
running, or nothing in flight to complete. -/
def wakeStep (c : TxqCfg) : WakeAction → TxState × XmitPc → Option (TxState × XmitPc)
  | .xmit env skb, (s, .idle) =>
    match ionicTxDescsNeeded c env skb s with
    | none => some (s.xmitDrop skb, .idle)
    | some (ndescs, skb, s) => some (s, .test ndescs (some (env, skb)))
  | .tx, (s, .test ndescs next) =>
    if ionicQHasSpace c.ring s.q ndescs then some (s, .resume next) else some (s, .stop ndescs next)
  | .tx, (s, .stop ndescs next) =>
    some ({ s.setStopped s.q.index true with stats := { s.stats with stop := s.stats.stop + 1 } },
      .recheck ndescs next)
  | .tx, (s, .recheck ndescs next) =>
    -- might race with ionic_tx_clean, check again
    if ionicQHasSpace c.ring s.q ndescs then some (s.setStopped s.q.index false, .resume next)
    else some (s, .idle)
  | .tx, (s, .send env skb) =>
    (ionicTxSend c env skb s).map fun (err, s) =>
      if err ≠ 0 then (s.xmitDrop skb, .idle) else (s, .test 4 none)
  | .complete, (s, pc) =>
    if s.q.tailIdx = s.q.headIdx then none else some ((ionicTxCleanTail c 0 0 s).2.2, pc)
  | _, _ => none

/-- A run: the steps in the order the scheduler picks them. -/
def wakeRun (c : TxqCfg) (acts : List WakeAction) (st : TxState × XmitPc) : Option (TxState × XmitPc) :=
  acts.foldlM (fun st a => wakeStep c a st) st

@[simp] theorem wakeRun_nil (c : TxqCfg) (st : TxState × XmitPc) : wakeRun c [] st = some st := rfl

theorem wakeRun_cons (c : TxqCfg) (a : WakeAction) (acts : List WakeAction) (st : TxState × XmitPc) :
    wakeRun c (a :: acts) st = (wakeStep c a st).bind (wakeRun c acts) := rfl

theorem wakeRun_append (c : TxqCfg) (xs ys : List WakeAction) (st : TxState × XmitPc) :
    wakeRun c (xs ++ ys) st = (wakeRun c xs st).bind (wakeRun c ys) := by
  induction xs generalizing st with
  | nil => rfl
  | cons a xs ih =>
    rw [List.cons_append, wakeRun_cons, wakeRun_cons]
    cases wakeStep c a st <;> simp [ih]

/-! ## Back to back, the steps are `ionic_start_xmit` -/

/-- The test, the stop and the re-check, run back to back, are `ionic_maybe_stop_tx`: one step
when there is room, else three, the re-check finding no more room than the test. -/
theorem wakeRun_maybeStop (c : TxqCfg) (n : Nat) (next : Option (TxEnv × Skb)) (s : TxState) :
    wakeRun c (List.replicate (if (ionicMaybeStopTx c n s).1 then 3 else 1) .tx) (s, .test n next) =
      some ((ionicMaybeStopTx c n s).2, if (ionicMaybeStopTx c n s).1 then .idle else .resume next) := by
  unfold ionicMaybeStopTx
  by_cases h : ionicQHasSpace c.ring s.q n = true
  · simp only [if_pos h, Bool.false_eq_true, if_false, List.replicate, wakeRun_cons, wakeStep, Option.some_bind,
      wakeRun_nil]
  · -- the stop leaves the ring as it was, so the re-check finds no more room than the test
    have h' : ionicQHasSpace c.ring
        ({ s.setStopped s.q.index true with stats := { s.stats with stop := s.stats.stop + 1 } } : TxState).q n = false :=
      Bool.eq_false_iff.mpr h
    simp only [if_neg h, h', Bool.false_eq_true, if_false, if_true, List.replicate, wakeRun_cons, wakeStep,
      Option.some_bind, wakeRun_nil]

/-- A call of `ionic_start_xmit` on a regular queue, with no completion in between, is the entry
step followed by at most six steps of the transmit path. -/
theorem wakeRun_ionicStartXmit {lif : Lif} {c : TxqCfg} {env : TxEnv} {skb : Skb} {s s' : TxState}
    {r : NetdevTx} {qi : Nat} (ht : ionicStartXmitTarget lif skb = .txq qi)
    (h : ionicStartXmit lif c env skb s = some (s', r)) :
    ∃ k ≤ 6, wakeRun c (.xmit env skb :: List.replicate k .tx) (s, .idle) = some (s', .idle) := by
  unfold ionicStartXmit at h
  rw [ht] at h
  cases hd : ionicTxDescsNeeded c env skb s with
  | none =>
    rw [hd] at h
    cases h
    exact ⟨0, by omega, by simp [wakeRun_cons, wakeStep, hd]⟩
  | some p =>
    obtain ⟨n, skb₁, s₁⟩ := p
    rw [hd] at h
    dsimp only at h
    have hx : wakeStep c (.xmit env skb) (s, .idle) = some (s₁, .test n (some (env, skb₁))) := by
      simp [wakeStep, hd]
    have h₁ := wakeRun_maybeStop c n (some (env, skb₁)) s₁
    by_cases hs : (ionicMaybeStopTx c n s₁).1 = true
    · rw [if_pos hs] at h
      cases h
      rw [if_pos hs, if_pos hs] at h₁
      exact ⟨3, by omega, by rw [wakeRun_cons, hx, Option.some_bind, h₁]⟩
    rw [if_neg hs] at h h₁
    obtain ⟨⟨err, s₂⟩, hsend, he⟩ := Option.map_eq_some'.mp h
    have h₁' : wakeRun c [.tx] (s₁, .test n (some (env, skb₁))) =
        some ((ionicMaybeStopTx c n s₁).2, .send env skb₁) := by rw [if_neg hs] at h₁; exact h₁
    have hsend' : wakeStep c .tx ((ionicMaybeStopTx c n s₁).2, .send env skb₁) =
        some (if err ≠ 0 then (s₂.xmitDrop skb₁, .idle) else (s₂, .test 4 none)) := by
      simp only [wakeStep, hsend, Option.map_some']
    dsimp only at he
    by_cases herr : err ≠ 0
    · rw [if_pos herr] at he hsend'
      cases he
      refine ⟨2, by omega, ?_⟩
      rw [wakeRun_cons, hx, Option.some_bind, show List.replicate 2 WakeAction.tx = [.tx] ++ [.tx] from rfl,
        wakeRun_append, h₁', Option.some_bind, wakeRun_cons, hsend']
      rfl
    · rw [if_neg herr] at he hsend'
      cases he
      have h₂ := wakeRun_maybeStop c 4 none s₂
      refine ⟨2 + (if (ionicMaybeStopTx c 4 s₂).1 then 3 else 1), by split <;> omega, ?_⟩
      rw [wakeRun_cons, hx, Option.some_bind, List.replicate_add,
        show List.replicate 2 WakeAction.tx = [.tx] ++ [.tx] from rfl, wakeRun_append, wakeRun_append, h₁',
        Option.some_bind, wakeRun_cons, hsend', Option.some_bind, wakeRun_nil, Option.some_bind, h₂]
      split <;> rfl

/-! ## Frame facts -/

theorem ionicTxMapSkb_stopped (env : TxEnv) (skb : Skb) (i : Nat) (s : TxState) :
    (ionicTxMapSkb env skb i s).2.stopped = s.stopped ∧
      (ionicTxMapSkb env skb i s).2.q.index = s.q.index := by
  unfold ionicTxMapSkb
  split
  split_ifs
  · exact ⟨rfl, rfl⟩
  · dsimp only
    split <;> exact ⟨rfl, rfl⟩

/-- `ionic_tx` stops and wakes nothing. -/
theorem ionicTx_stopped (c : TxqCfg) (env : TxEnv) (skb : Skb) (s : TxState) :
    (ionicTx c env skb s).2.stopped = s.stopped ∧ (ionicTx c env skb s).2.q.index = s.q.index := by
  have h := ionicTxMapSkb_stopped env skb s.q.headIdx s
  unfold ionicTx
  dsimp only
  rcases hm : ionicTxMapSkb env skb s.q.headIdx s with ⟨r, s₁⟩
  rw [hm] at h
  dsimp only
  split_ifs
  · exact h
  all_goals
    unfold TxState.bqlSent
    split <;> exact h

theorem ionicTxDescUnmapBufs_stopped (i : Nat) (s : TxState) :
    (ionicTxDescUnmapBufs i s).stopped = s.stopped ∧ (ionicTxDescUnmapBufs i s).q.index = s.q.index := by
  unfold ionicTxDescUnmapBufs
  dsimp only
  split_ifs <;> exact ⟨rfl, rfl⟩

/-- `ionic_tx_clean` keeps the queue's index. -/
theorem ionicTxClean_index (c : TxqCfg) (i : Nat) (arg : Option Skb) (s : TxState) :
    (ionicTxClean c i arg s).q.index = s.q.index := by
  have h := (ionicTxDescUnmapBufs_stopped i s).2
  unfold ionicTxClean
  cases arg with
  | none => exact h
  | some skb => dsimp only; split_ifs <;> exact h

/-- `ionic_tx_clean` of a slot holding an skb wakes the skb's subqueue, unless the queue
timestamps. -/
theorem ionicTxClean_stopped (c : TxqCfg) (i : Nat) (skb : Skb) (s : TxState) (hc : c.hwstamp = false) :
    (ionicTxClean c i (some skb) s).stopped skb.queueMapping = false := by
  unfold ionicTxClean
  dsimp only
  rw [if_neg (by simp [hc])]
  split_ifs with hst
  · simp [TxState.release, TxState.setInfo, TxState.setStopped]
  · exact Bool.eq_false_iff.mpr hst

/-- Cleaning the tail slot keeps the queue's index; it wakes the subqueue of the skb the slot
holds, unless the queue timestamps, and changes no stop flag when the slot holds none. -/
theorem ionicTxCleanTail_stopped (c : TxqCfg) (pkts bytes : Nat) (s : TxState) :
    (ionicTxCleanTail c pkts bytes s).2.2.q.index = s.q.index ∧
      ((s.q.info s.q.tailIdx).cbArg = none → (ionicTxCleanTail c pkts bytes s).2.2.stopped = s.stopped) ∧
      ∀ skb, (s.q.info s.q.tailIdx).cbArg = some skb → c.hwstamp = false →
        (ionicTxCleanTail c pkts bytes s).2.2.stopped skb.queueMapping = false := by
  unfold ionicTxCleanTail
  simp only [TxState.setInfo_q, Queue.setInfo_info_self]
  refine ⟨ionicTxClean_index _ _ _ _, fun harg => ?_, fun skb harg hc => ?_⟩
  · rw [harg]
    exact (ionicTxDescUnmapBufs_stopped _ _).1
  · rw [harg]
    exact ionicTxClean_stopped c _ skb _ hc

/-- Completions of slots that hold no skb wake nothing: from a state whose slots in flight hold
none, completing them all empties the ring and leaves every stop flag as it was. -/
theorem wakeRun_complete_unheld {c : TxqCfg} {s : TxState} (pc : XmitPc)
    (hh : s.view.head < c.ring.numDescs) (ht : s.view.tail < c.ring.numDescs)
    (hnone : ∀ i < c.ring.numDescs, c.ring.InWindow s.view.head s.view.tail i → s.view.arg i = none) :
    ∃ s', wakeRun c (List.replicate (c.ring.inflight s.view.head s.view.tail) .complete) (s, pc) =
      some (s', pc) ∧ s'.view.tail = s'.view.head ∧ s'.stopped = s.stopped := by
  generalize hk : c.ring.inflight s.view.head s.view.tail = k
  induction k generalizing s with
  | zero => exact ⟨s, rfl, ((c.ring.inflight_eq_zero hh ht).mp hk).symm, rfl⟩
  | succ k ih =>
    have hne : s.view.tail ≠ s.view.head := fun he => by rw [he, Ring.inflight_self] at hk; cases hk
    obtain ⟨hv, -⟩ := ionicTxCleanTail_view c 0 0 s
    have hw : c.ring.InWindow s.view.head s.view.tail s.view.tail := by
      unfold Ring.InWindow; rw [Ring.inflight_self, hk]; omega
    have hst := (ionicTxCleanTail_stopped c 0 0 s).2.1 (hnone _ ht hw)
    have hstep : wakeStep c .complete (s, pc) = some ((ionicTxCleanTail c 0 0 s).2.2, pc) := by
      simp only [wakeStep]
      exact if_neg hne
    have hin := c.ring.inflight_next_tail hh ht hne
    have hk' : c.ring.inflight (ionicTxCleanTail c 0 0 s).2.2.view.head
        (ionicTxCleanTail c 0 0 s).2.2.view.tail = k := by
      rw [hv, TxView.complete_head, TxView.complete_tail]
      omega
    have hnone' : ∀ i < c.ring.numDescs, c.ring.InWindow (ionicTxCleanTail c 0 0 s).2.2.view.head
        (ionicTxCleanTail c 0 0 s).2.2.view.tail i → (ionicTxCleanTail c 0 0 s).2.2.view.arg i = none := by
      intro i hi hwi
      rw [hv] at hwi ⊢
      obtain ⟨hwi, hi'⟩ := (c.ring.inWindow_next_tail hh ht hi hne).mp hwi
      rw [TxView.complete_arg, Function.update_noteq hi']
      exact hnone i hi hwi
    obtain ⟨s', h', he', hs'⟩ := ih (by rw [hv]; exact hh) (by rw [hv]; exact c.ring.next_lt _) hnone' hk'
    exact ⟨s', by rw [List.replicate_succ, wakeRun_cons, hstep, Option.some_bind, h'], he', hs'.trans hst⟩

/-! ## Single-descriptor packets lose no wake-up -/

/-- What a pending `ionic_maybe_stop_tx` for `ndescs` slots followed by `next` is owed: it asks for
fewer slots than the ring has, and before a send for at least one, for a non-GSO skb mapped to
subqueue `qi`. -/
def NextInv (c : TxqCfg) (qi ndescs : Nat) : Option (TxEnv × Skb) → Prop
  | some (_, skb) => 1 ≤ ndescs ∧ ndescs < c.ring.numDescs ∧ skb.isGso = false ∧ skb.queueMapping = qi
  | none => ndescs < c.ring.numDescs

/-- At each point of the transmit path: outside the stop and the re-check, a stopped subqueue
has a slot in flight; before a send there is room for the skb. -/
def PcInv (c : TxqCfg) (qi : Nat) (s : TxState) : XmitPc → Prop
  | .idle => s.stopped qi = true → s.view.tail ≠ s.view.head
  | .test n next => (s.stopped qi = true → s.view.tail ≠ s.view.head) ∧ NextInv c qi n next
  | .stop n next => NextInv c qi n next
  | .recheck n next => NextInv c qi n next
  | .send _ skb => (s.stopped qi = true → s.view.tail ≠ s.view.head) ∧
      c.ring.inflight s.view.head s.view.tail + 2 ≤ c.ring.numDescs ∧ skb.isGso = false ∧
      skb.queueMapping = qi

/-- The invariant of runs whose packets take one descriptor each and are mapped to subqueue
`qi`: every slot in flight holds such a packet, so completing it wakes the subqueue. -/
structure WakeInv (c : TxqCfg) (qi : Nat) (s : TxState) (pc : XmitPc) : Prop where
  index : s.q.index = qi
  head_lt : s.view.head < c.ring.numDescs
  tail_lt : s.view.tail < c.ring.numDescs
  held : ∀ i < c.ring.numDescs, c.ring.InWindow s.view.head s.view.tail i →
    ∃ skb, s.view.arg i = some skb ∧ skb.queueMapping = qi
  pc : PcInv c qi s pc

section Steps

variable {c : TxqCfg} {qi : Nat} {s s' : TxState} {pc pc' : XmitPc}

theorem WakeInv.init (c : TxqCfg) (qi : Nat) : WakeInv c qi (TxState.init qi) .idle where
  index := rfl
  head_lt := c.ring.numDescs_pos
  tail_lt := c.ring.numDescs_pos
  held _ _ hw := absurd hw c.ring.not_inWindow_of_eq
  pc h := absurd h Bool.false_ne_true

/-- A step that leaves the view and the queue's index alone keeps the invariant, given the new
point's obligations. -/
theorem WakeInv.of_view (h : WakeInv c qi s pc) (hv : s'.view = s.view) (hi : s'.q.index = s.q.index)
    (hpc : PcInv c qi s' pc') : WakeInv c qi s' pc' where
  index := hi.trans h.index
  head_lt := hv ▸ h.head_lt
  tail_lt := hv ▸ h.tail_lt
  held := hv ▸ h.held
  pc := hpc

/-- A state whose subqueue `qi` is awake owes nothing but room before a send. -/
theorem PcInv.of_awake (h : PcInv c qi s pc) (hw : s'.stopped qi = false)
    (hle : c.ring.inflight s'.view.head s'.view.tail ≤ c.ring.inflight s.view.head s.view.tail) :
    PcInv c qi s' pc := by
  have hn : ¬ s'.stopped qi = true := by rw [hw]; exact Bool.false_ne_true
  cases pc with
  | idle => exact fun h' => absurd h' hn
  | test n next => exact ⟨fun h' => absurd h' hn, h.2⟩
  | stop n next => exact h
  | recheck n next => exact h
  | send env skb => exact ⟨fun h' => absurd h' hn, by have := h.2.1; omega, h.2.2⟩

/-- A nonempty ring's tail slot is in flight. -/
theorem WakeInv.tail_inWindow (h : WakeInv c qi s pc) (hne : s.view.tail ≠ s.view.head) :
    c.ring.InWindow s.view.head s.view.tail s.view.tail := by
  unfold Ring.InWindow
  rw [Ring.inflight_self]
  exact Nat.pos_of_ne_zero fun h0 => hne ((c.ring.inflight_eq_zero h.head_lt h.tail_lt).mp h0).symm

/-- A completion wakes the subqueue: the tail slot holds a packet mapped to it. -/
theorem WakeInv.complete (hc : c.hwstamp = false) (h : WakeInv c qi s pc) (hne : s.view.tail ≠ s.view.head) :
    WakeInv c qi (ionicTxCleanTail c 0 0 s).2.2 pc := by
  obtain ⟨hv, -⟩ := ionicTxCleanTail_view c 0 0 s
  obtain ⟨hi, -, hw⟩ := ionicTxCleanTail_stopped c 0 0 s
  obtain ⟨skb, harg, hq⟩ := h.held _ h.tail_lt (h.tail_inWindow hne)
  have hle := c.ring.inflight_next_tail h.head_lt h.tail_lt hne
  refine ⟨hi.trans h.index, ?_, ?_, fun i hi hin => ?_, h.pc.of_awake (hq ▸ hw skb harg hc) ?_⟩
  · rw [hv]; exact h.head_lt
  · rw [hv]; exact c.ring.next_lt _
  · rw [hv] at hin ⊢
    obtain ⟨hin, hne'⟩ := (c.ring.inWindow_next_tail h.head_lt h.tail_lt hi hne).mp hin
    rw [TxView.complete_arg, Function.update_noteq hne']
    exact h.held i hi hin
  · rw [hv]; simp only [TxView.complete_head, TxView.complete_tail]; omega

/-- Entering a call: `ionic_tx_descs_needed` asks for one slot for a non-GSO skb. -/
theorem WakeInv.xmit {env : TxEnv} {skb : Skb} (hskb : skb.isGso = false ∧ skb.queueMapping = qi)
    (hN : 2 ≤ c.ring.numDescs) (h : WakeInv c qi s .idle)
    (hs : wakeStep c (.xmit env skb) (s, .idle) = some (s', pc')) : WakeInv c qi s' pc' := by
  simp only [wakeStep] at hs
  split at hs
  · cases hs
    exact h.of_view rfl rfl h.pc
  · rename_i n skb₁ s₁ hd
    cases hs
    obtain ⟨rfl, hskb₁, -, st, rfl⟩ := ionicTxDescsNeeded_some hd
    refine h.of_view rfl rfl ⟨h.pc, ?_⟩
    simp only [hskb.1, Bool.false_eq_true, if_false]
    rcases hskb₁ with rfl | rfl <;> exact ⟨le_rfl, by omega, hskb⟩

/-- The has-space test: a passed test before a send leaves room for the skb. -/
theorem WakeInv.test {n : Nat} {next : Option (TxEnv × Skb)} (h : WakeInv c qi s (.test n next))
    (hs : wakeStep c .tx (s, .test n next) = some (s', pc')) : WakeInv c qi s' pc' := by
  simp only [wakeStep] at hs
  split_ifs at hs with hsp <;> cases hs
  · refine h.of_view rfl rfl ?_
    have hroom := (ionicQHasSpace_iff c.ring s.q n).mp hsp
    cases next with
    | none => exact h.pc.1
    | some p => exact ⟨h.pc.1, by have := h.pc.2.1; simp only [TxState.view]; omega, h.pc.2.2.2⟩
  · exact h.of_view rfl rfl h.pc.2

theorem WakeInv.stop {n : Nat} {next : Option (TxEnv × Skb)} (h : WakeInv c qi s (.stop n next))
    (hs : wakeStep c .tx (s, .stop n next) = some (s', pc')) : WakeInv c qi s' pc' := by
  simp only [wakeStep] at hs
  cases hs
  exact h.of_view rfl rfl h.pc

/-- The re-check: either it finds room and wakes the subqueue, or the ring is too full to be
empty. -/
theorem WakeInv.recheck {n : Nat} {next : Option (TxEnv × Skb)} (h : WakeInv c qi s (.recheck n next))
    (hs : wakeStep c .tx (s, .recheck n next) = some (s', pc')) : WakeInv c qi s' pc' := by
  have hlt : n < c.ring.numDescs := by cases next <;> [exact h.pc; exact h.pc.2.1]
  simp only [wakeStep] at hs
  split_ifs at hs with hsp <;> cases hs
  · have hroom := (ionicQHasSpace_iff c.ring s.q n).mp hsp
    have hw : (s.setStopped s.q.index false).stopped qi = false := by
      simp [TxState.setStopped, h.index]
    refine h.of_view rfl rfl ?_
    cases next with
    | none => exact fun h' => absurd (hw ▸ h') Bool.false_ne_true
    | some p =>
      exact ⟨fun h' => absurd (hw ▸ h') Bool.false_ne_true,
        by have := h.pc.1; rw [TxState.view_setStopped]; simp only [TxState.view]; omega, h.pc.2.2⟩
  · refine h.of_view rfl rfl fun _ he => ?_
    have hfull := mt (ionicQHasSpace_iff c.ring s.q n).mpr hsp
    have h0 : c.ring.inflight s.view.head s.view.tail = 0 := by rw [he, Ring.inflight_self]
    simp only [TxState.view] at h0
    omega

/-- The send of a non-GSO skb: `ionic_tx` posts one slot holding it, or fails and drops it. -/
theorem WakeInv.send {env : TxEnv} {skb : Skb} (hN : 5 ≤ c.ring.numDescs) (h : WakeInv c qi s (.send env skb))
    (hs : wakeStep c .tx (s, .send env skb) = some (s', pc')) : WakeInv c qi s' pc' := by
  obtain ⟨hidle, hroom, hg, hq⟩ := h.pc
  simp only [wakeStep, ionicTxSend, hg, Bool.false_eq_true, if_false, Option.map_some',
    Option.some.injEq] at hs
  have hx := ionicTx_view c env skb s
  obtain ⟨hst, hi⟩ := ionicTx_stopped c env skb s
  rcases hr : ionicTx c env skb s with ⟨err, s₁⟩
  rw [hr] at hs hx hst hi
  have hfull : c.ring.inflight s.view.head s.view.tail + 1 < c.ring.numDescs := by omega
  rcases hx with ⟨h0, hv⟩ | ⟨he, hv⟩
  · rw [h0] at hs
    cases hs
    have hin := c.ring.inflight_next_head h.head_lt h.tail_lt hfull
    have hh : s₁.view.head = c.ring.next s.view.head := by simp [hv]
    have ht : s₁.view.tail = s.view.tail := by simp [hv]
    refine ⟨hi.trans h.index, hh ▸ c.ring.next_lt _, ht ▸ h.tail_lt, fun i hi' hw => ?_, ?_, (by omega : 4 < c.ring.numDescs)⟩
    · rw [hh, ht, c.ring.inWindow_next_head h.head_lt h.tail_lt hi' hfull] at hw
      rw [hv, TxView.post_arg, TxView.sent_arg, TxView.sent_head]
      by_cases hih : i = s.view.head
      · exact ⟨skb, by rw [hih, Function.update_same], hq⟩
      · rw [Function.update_noteq hih]
        exact h.held i hi' (hw.resolve_right hih)
    · intro _ he
      have h0 : c.ring.inflight s₁.view.head s₁.view.tail = 0 := by rw [he, Ring.inflight_self]
      rw [hh, ht, hin] at h0
      omega
  · rw [he] at hs
    cases hs
    refine h.of_view hv hi fun h' => ?_
    rw [show (s₁.xmitDrop skb).view = s.view from hv]
    exact hidle (hst ▸ h')

/-- Every step keeps the invariant, when the skbs entering the queue are non-GSO and mapped to
it, the queue does not timestamp, and the ring has room for the trailing check. -/
theorem WakeInv.step (hc : c.hwstamp = false) (hN : 5 ≤ c.ring.numDescs) {a : WakeAction}
    (ha : ∀ env skb, a = .xmit env skb → skb.isGso = false ∧ skb.queueMapping = qi)
    (h : WakeInv c qi s pc) (hs : wakeStep c a (s, pc) = some (s', pc')) : WakeInv c qi s' pc' := by
  cases a with
  | complete =>
    simp only [wakeStep] at hs
    split_ifs at hs with hne
    cases hs
    exact h.complete hc hne
  | xmit env skb =>
    cases pc with
    | idle => exact h.xmit (ha env skb rfl) (by omega) hs
    | _ => simp [wakeStep] at hs
  | tx =>
    cases pc with
    | idle => simp [wakeStep] at hs
    | test n next => exact h.test hs
    | stop n next => exact h.stop hs
    | recheck n next => exact h.recheck hs
    | send env skb => exact h.send hN hs

end Steps

/-- A lost wake-up on a ring of eight slots. A TSO packet of five descriptors is posted; the
completion path cleans its first slot, the only one holding the skb, before the trailing
`ionic_maybe_stop_tx(q, 4)` finds three slots free and stops the subqueue; the re-check finds no
more room and the call returns. The four slots left hold no skb, so completing them wakes
nothing: the ring ends empty and the subqueue stopped. -/
theorem wake_lost_after_tso :
    let c : TxqCfg := ⟨⟨8, 3, rfl⟩, 8, false⟩
    let env : TxEnv := ⟨4096, fun k => 8192 + 4096 * k, true, true, false⟩
    let skb : Skb := ⟨1, 1055, [3000], 1000, 5, 54, 0, true, false⟩
    (wakeRun c [.xmit env skb, .tx, .tx, .complete, .tx, .tx, .tx, .complete, .complete, .complete, .complete]
        (TxState.init 0, .idle)).map (fun st => (st.2.isIdle, st.1.q.tailIdx == st.1.q.headIdx, st.1.stopped 0)) =
      some (true, true, true) := by
  intro c env skb
  have hpre : (wakeRun c [.xmit env skb, .tx, .tx, .complete, .tx, .tx, .tx] (TxState.init 0, .idle)).map
      (fun st => (st.2.isIdle && st.1.stopped 0 && decide (st.1.view.head < 8) && decide (st.1.view.tail < 8) &&
        decide (∀ i < 8, c.ring.InWindow st.1.view.head st.1.view.tail i → st.1.view.arg i = none),
        c.ring.inflight st.1.view.head st.1.view.tail)) = some (true, 4) := by
    decide
  obtain ⟨⟨s, pc⟩, hs, hP⟩ := Option.map_eq_some'.mp hpre
  simp only [Bool.and_eq_true, decide_eq_true_eq, Prod.mk.injEq] at hP
  obtain ⟨⟨⟨⟨⟨hidle, hstop⟩, hh⟩, ht⟩, hnone⟩, hk⟩ := hP
  obtain ⟨s', hrun, hempty, hst⟩ := wakeRun_complete_unheld (c := c) pc hh ht hnone
  rw [hk] at hrun
  rw [show [.xmit env skb, .tx, .tx, .complete, .tx, .tx, .tx, .complete, .complete, .complete, .complete] =
    [.xmit env skb, .tx, .tx, .complete, .tx, .tx, .tx] ++ List.replicate 4 WakeAction.complete from rfl,
    wakeRun_append, hs, Option.some_bind, hrun]
  simp only [Option.map_some', hidle, hst, hstop, Option.some.injEq, Prod.mk.injEq, true_and]
  exact ⟨beq_iff_eq.mpr hempty, trivial⟩

end IonicTxrx
