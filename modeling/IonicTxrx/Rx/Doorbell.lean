import IonicTxrx.Rx.Reach

/-!
# The receive doorbell and its deadline

`ionic_rx_fill` ends by ringing the doorbell with `head_idx`, setting `dbell_deadline` to
`IONIC_RX_MIN_DOORBELL_DEADLINE` and `dbell_jiffies` to `jiffies`, and re-arming the NAPI deadline
timer, but only when its loop runs to the end: a failed allocation returns from inside the loop,
after the slots already posted, and does none of the four (`ionicRxFill_alloc_fail_unannounced`).
`ionic_rxq_poke_doorbell`, called from NAPI, rings again once `jiffies - dbell_jiffies` exceeds
`dbell_deadline`, and then doubles the deadline up to `IONIC_RX_MAX_DOORBELL_DEADLINE`. Over any
sequence of fills, pokes, completions and teardowns, at any `jiffies` values, the deadline stays
between the two bounds, and a poke with descriptors posted rings whenever more than
`IONIC_RX_MAX_DOORBELL_DEADLINE` jiffies passed since the last ring (`rxDbellRun_deadline`); the
queue under these runs keeps the receive invariant (`rxDbellRun_inv`).
-/

namespace IonicTxrx

/-- The doorbell timing constants, jiffies counts defined outside this repository. -/
structure RxDbellBuild where
  /-- `IONIC_RX_MIN_DOORBELL_DEADLINE`. -/
  minDeadline : Nat
  /-- `IONIC_RX_MAX_DOORBELL_DEADLINE`. -/
  maxDeadline : Nat
  /-- `IONIC_NAPI_DEADLINE`. -/
  napiDeadline : Nat
  /-- The deadlines are short: twice the largest fits in an `unsigned long`. -/
  max_lt : 2 * maxDeadline < 2 ^ 64

/-- The doorbell timing of an RX queue: `q->dbell_deadline`, `q->dbell_jiffies`, and the expiry of
the `napi_deadline` timer of its NAPI context, when armed. -/
structure RxDbell where
  deadline : Nat
  jiffies : Nat
  napiExpires : Option Nat
  deriving DecidableEq, Repr

/-- `now - then` in `unsigned long`, `prev` standing for `then` (`ulongSub_eq`), written without
adding `2 ^ 64` to a variable. -/
def ulongSub (now prev : Nat) : Nat :=
  if prev ≤ now then (now - prev) % 2 ^ 64 else (2 ^ 64 - (prev - now) % 2 ^ 64) % 2 ^ 64

theorem ulongSub_eq (now prev : Nat) : ulongSub now prev = (now + 2 ^ 64 - prev % 2 ^ 64) % 2 ^ 64 := by
  unfold ulongSub
  split <;> omega

/-- `ionic_rx_fill` at `jiffies = now`, with the doorbell deadline and the NAPI timer it arms
after the doorbell: the queue as `ionicRxFill` leaves it (`ionicRxFillTimed_fst`), and the
timing after. -/
def ionicRxFillTimed (t : RxDbellBuild) (b : RxBuild) (c : RxqCfg) (lif : RxLif) (env : RxEnv) (now : Nat)
    (s : RxState) (tm : RxDbell) : RxState × RxDbell :=
  let len := lif.mtu + ethHlen + vlanHlen
  let nsplits := b.pageSize / align len b.splitSz
  let (done, s) := ionicRxFillLoop b c env len nsplits (ionicQSpaceAvail c.ring s.q) s
  if done then
    ({ s with q := { s.q with dbell := some s.q.headIdx } },
      { deadline := t.minDeadline, jiffies := now, napiExpires := some ((now + t.napiDeadline) % 2 ^ 64) })
  else (s, tm)

/-- `ionic_rxq_poke_doorbell` at `jiffies = now`: whether descriptors are posted, and the queue
and timing after. -/
def ionicRxqPokeDoorbell (t : RxDbellBuild) (now : Nat) (s : RxState) (tm : RxDbell) : Bool × RxState × RxDbell :=
  -- no lock, called from rx napi or txrx napi, nothing else can fill
  if s.q.tailIdx = s.q.headIdx then (false, s, tm)
  else if ulongSub now tm.jiffies > tm.deadline then
    let dif := 2 * tm.deadline % 2 ^ 64
    let dif := if dif > t.maxDeadline then t.maxDeadline else dif
    (true, { s with q := { s.q with dbell := some s.q.headIdx } }, { tm with jiffies := now, deadline := dif })
  else (true, s, tm)

/-- The loop of `ionic_rx_fill` posts without ringing: the doorbell is as it was. -/
theorem ionicRxFillLoop_dbell {b : RxBuild} {c : RxqCfg} {env : RxEnv} {len ns : Nat} :
    ∀ (i : Nat) (s : RxState), (ionicRxFillLoop b c env len ns i s).2.q.dbell = s.q.dbell
  | 0, _ => rfl
  | i + 1, s => by
    rw [ionicRxFillLoop]
    rcases hf : ionicRxFillSlot b c env len ns (s.q.info s.q.headIdx) s with ⟨ok, d, s'⟩
    have hq := (ionicRxFillSlot_frame hf).1
    cases ok
    · simp [hq]
    · simp only [Bool.not_true, Bool.false_eq_true, ↓reduceIte]
      rw [ionicRxFillLoop_dbell]
      simp [hq]

section Fill

variable (t : RxDbellBuild) (b : RxBuild) (c : RxqCfg) (lif : RxLif) (env : RxEnv) (now : Nat) (s : RxState)
  (tm : RxDbell)

theorem ionicRxFillTimed_fst : (ionicRxFillTimed t b c lif env now s tm).1 = ionicRxFill b c lif env s := by
  unfold ionicRxFillTimed ionicRxFill
  dsimp only
  split_ifs <;> rfl

/-- A fill either runs to the end, announcing the final `head_idx` and re-arming the deadline and
the NAPI timer, or stops at a failed allocation with the doorbell and the timing as they were. -/
theorem ionicRxFillTimed_cases :
    ((ionicRxFillTimed t b c lif env now s tm).1.q.dbell = some (ionicRxFillTimed t b c lif env now s tm).1.q.headIdx ∧
      (ionicRxFillTimed t b c lif env now s tm).2 =
        ⟨t.minDeadline, now, some ((now + t.napiDeadline) % 2 ^ 64)⟩) ∨
    ((ionicRxFillTimed t b c lif env now s tm).1.q.dbell = s.q.dbell ∧
      (ionicRxFillTimed t b c lif env now s tm).2 = tm) := by
  unfold ionicRxFillTimed
  dsimp only
  rcases he : ionicRxFillLoop b c env (lif.mtu + ethHlen + vlanHlen)
    (b.pageSize / align (lif.mtu + ethHlen + vlanHlen) b.splitSz) (ionicQSpaceAvail c.ring s.q) s with ⟨done, s'⟩
  have hd : s'.q.dbell = s.q.dbell :=
    (congrArg (fun r : Bool × RxState => r.2.q.dbell) he).symm.trans (ionicRxFillLoop_dbell _ s)
  cases done
  · exact .inr ⟨hd, rfl⟩
  · exact .inl ⟨rfl, rfl⟩

end Fill

/-- The calls on an RX queue, each at the `jiffies` it reads: `ionic_rx_fill`,
`ionic_rxq_poke_doorbell`, `ionic_rx_service` of one completion and `ionic_rx_empty`. -/
inductive RxDbellCall where
  | fill (lif : RxLif) (env : RxEnv) (now : Nat)
  | poke (now : Nat)
  | service (lif : RxLif) (env : RxEnv) (comp : RxComp)
  | empty

/-- One call on the queue and its doorbell timing. -/
def rxDbellStep (t : RxDbellBuild) (b : RxBuild) (c : RxqCfg) : RxState × RxDbell → RxDbellCall → RxState × RxDbell
  | (s, tm), .fill lif env now => ionicRxFillTimed t b c lif env now s tm
  | (s, tm), .poke now => (ionicRxqPokeDoorbell t now s tm).2
  | (s, tm), .service lif env comp => ((ionicRxService b c lif env comp s).2, tm)
  | (s, tm), .empty => (ionicRxEmpty b c s, tm)

/-- A sequence of calls, first to last. -/
def rxDbellRun (t : RxDbellBuild) (b : RxBuild) (c : RxqCfg) (calls : List RxDbellCall)
    (st : RxState × RxDbell) : RxState × RxDbell :=
  calls.foldl (rxDbellStep t b c) st

/-- `dbell_deadline` lies in `[IONIC_RX_MIN_DOORBELL_DEADLINE, IONIC_RX_MAX_DOORBELL_DEADLINE]`. -/
def RxDbell.InRange (t : RxDbellBuild) (tm : RxDbell) : Prop :=
  t.minDeadline ≤ tm.deadline ∧ tm.deadline ≤ t.maxDeadline

instance (t : RxDbellBuild) (tm : RxDbell) : Decidable (tm.InRange t) := inferInstanceAs (Decidable (_ ∧ _))

section Runs

variable {t : RxDbellBuild} {b : RxBuild} {c : RxqCfg}

/-- A deadline in range is short enough to double in an `unsigned long`. -/
theorem RxDbell.InRange.two_mul_lt {tm : RxDbell} (h : tm.InRange t) : 2 * tm.deadline < 2 ^ 64 :=
  lt_of_le_of_lt (Nat.mul_le_mul_left 2 h.2) t.max_lt

/-- A ringing poke doubles the deadline without a wrap and caps it at the maximum. -/
theorem ionicRxqPokeDoorbell_inRange {tm : RxDbell} (h : tm.InRange t) (now : Nat) (s : RxState) :
    (ionicRxqPokeDoorbell t now s tm).2.2.InRange t := by
  have h₂ := h.two_mul_lt
  unfold ionicRxqPokeDoorbell
  dsimp only
  split_ifs <;> simp only [RxDbell.InRange] at h ⊢ <;> omega

/-- With descriptors posted, a poke more than `dbell_deadline` jiffies after `dbell_jiffies` rings
the doorbell with `head_idx` and restarts the count. -/
theorem ionicRxqPokeDoorbell_rings {tm : RxDbell} {now : Nat} {s : RxState} (hne : s.q.tailIdx ≠ s.q.headIdx)
    (hd : tm.deadline < ulongSub now tm.jiffies) :
    (ionicRxqPokeDoorbell t now s tm).2.1.q.dbell = some s.q.headIdx ∧
      (ionicRxqPokeDoorbell t now s tm).2.2.jiffies = now := by
  simp [ionicRxqPokeDoorbell, hne, hd]

/-- A fill resets the deadline to the minimum or leaves it. -/
theorem ionicRxFillTimed_inRange {tm : RxDbell} (h : tm.InRange t) (lif : RxLif) (env : RxEnv) (now : Nat)
    (s : RxState) : (ionicRxFillTimed t b c lif env now s tm).2.InRange t := by
  rcases ionicRxFillTimed_cases t b c lif env now s tm with ⟨-, he⟩ | ⟨-, he⟩ <;> rw [he]
  · exact ⟨le_rfl, h.1.trans h.2⟩
  · exact h

theorem rxDbellStep_inRange {st : RxState × RxDbell} (h : st.2.InRange t) :
    ∀ a : RxDbellCall, (rxDbellStep t b c st a).2.InRange t
  | .fill lif env now => ionicRxFillTimed_inRange h lif env now st.1
  | .poke now => ionicRxqPokeDoorbell_inRange h now st.1
  | .service .. => h
  | .empty => h

theorem rxDbellRun_inRange :
    ∀ (calls : List RxDbellCall) {st : RxState × RxDbell}, st.2.InRange t → (rxDbellRun t b c calls st).2.InRange t
  | [], _, h => h
  | a :: calls, _, h => rxDbellRun_inRange calls (rxDbellStep_inRange h a)

/-- A poke changes the queue only by ringing the doorbell with `head_idx`. -/
theorem ionicRxqPokeDoorbell_queue (now : Nat) (s : RxState) (tm : RxDbell) :
    (ionicRxqPokeDoorbell t now s tm).2.1 = s ∨
      (ionicRxqPokeDoorbell t now s tm).2.1 = { s with q := { s.q with dbell := some s.q.headIdx } } := by
  unfold ionicRxqPokeDoorbell
  split_ifs
  · exact .inl rfl
  · exact .inr rfl
  · exact .inl rfl

/-- The doorbell is not part of the receive invariant. -/
theorem RxInv.setDbell {s : RxState} (h : RxInv b c s) (x : Option Nat) :
    RxInv b c { s with q := { s.q with dbell := x } } :=
  ⟨h.pages, h.head_lt, h.tail_lt, h.posted⟩

theorem rxDbellStep_inv {st : RxState × RxDbell} (h : RxInv b c st.1) :
    ∀ a : RxDbellCall, RxInv b c (rxDbellStep t b c st a).1
  | .fill lif _ now => (ionicRxFillTimed_fst t b c lif _ now st.1 st.2).symm ▸ h.fill lif
  | .poke now => (ionicRxqPokeDoorbell_queue now st.1 st.2).elim (· ▸ h) (· ▸ h.setDbell _)
  | .service lif env comp => h.service lif env comp
  | .empty => h.empty

/-- The doorbell timing rides on the receive queue without touching its slots: over any sequence
of fills, pokes, completions and teardowns, the queue keeps the receive invariant (its cursors
inside the ring, every slot of the window posted, the pages accounted for), as the deadline keeps
its range (`rxDbellRun_inRange`). -/
theorem rxDbellRun_inv :
    ∀ (calls : List RxDbellCall) {st : RxState × RxDbell}, RxInv b c st.1 → RxInv b c (rxDbellRun t b c calls st).1
  | [], _, h => h
  | a :: calls, _, h => rxDbellRun_inv calls (rxDbellStep_inv h a)

end Runs

/-- Over any sequence of fills, pokes, completions and teardowns, at any `jiffies` values, a
deadline that starts in `[IONIC_RX_MIN_DOORBELL_DEADLINE, IONIC_RX_MAX_DOORBELL_DEADLINE]` stays
there, so doubling it never wraps; and whenever descriptors are posted, a poke more than
`IONIC_RX_MAX_DOORBELL_DEADLINE` jiffies after the last ring, counted in `unsigned long`, rings the
doorbell with `head_idx`. -/
theorem rxDbellRun_deadline (t : RxDbellBuild) (b : RxBuild) (c : RxqCfg) (calls : List RxDbellCall)
    (s : RxState) (tm : RxDbell) (h : tm.InRange t) :
    let st : RxState × RxDbell := rxDbellRun t b c calls (s, tm)
    st.2.InRange t ∧ 2 * st.2.deadline < 2 ^ 64 ∧
      ∀ now, st.1.q.tailIdx ≠ st.1.q.headIdx → t.maxDeadline < ulongSub now st.2.jiffies →
        (ionicRxqPokeDoorbell t now st.1 st.2).2.1.q.dbell = some st.1.q.headIdx := by
  have hr : (rxDbellRun t b c calls (s, tm)).2.InRange t := rxDbellRun_inRange calls h
  exact ⟨hr, hr.two_mul_lt, fun _ hne hd => (ionicRxqPokeDoorbell_rings hne (lt_of_le_of_lt hr.2 hd)).1⟩

/-- A fill of a two-slot ring at jiffies 0, then pokes at jiffies 3 and 10 with slot 0 posted,
each ringing and doubling the deadline, from 1 to 4, within `[1, 8]`. -/
theorem rxDbellRun_deadline_pokes :
    let t : RxDbellBuild := ⟨1, 8, 2, by decide⟩
    let b : RxBuild := ⟨false, 4096, 2048, 3000, 8, 16, by decide, by decide⟩
    let c : RxqCfg := ⟨⟨2, 1, rfl⟩, 0, 2, false⟩
    let lif : RxLif := { mtu := 1500, rxCopybreak := 256 }
    let env : RxEnv := ⟨fun _ => true, fun p => 4096 * (p + 1), fun _ => true, true, []⟩
    let st : RxState × RxDbell := rxDbellRun t b c [.fill lif env 0, .poke 3, .poke 10]
      (RxState.init 0, ⟨1, 0, none⟩)
    st.2.InRange t ∧ 2 * st.2.deadline < 2 ^ 64 ∧
      ∀ now, st.1.q.tailIdx ≠ st.1.q.headIdx → t.maxDeadline < ulongSub now st.2.jiffies →
        (ionicRxqPokeDoorbell t now st.1 st.2).2.1.q.dbell = some st.1.q.headIdx :=
  rxDbellRun_deadline _ _ _ _ _ _ (by decide)

/-- A failed allocation ends the fill without the doorbell: on a fresh ring of four slots where
only the first page allocates, `ionic_rx_fill` at jiffies 100 posts slot 0, moving `head_idx` to
1, and returns at slot 1 with no doorbell written and `dbell_deadline`, `dbell_jiffies` and the
NAPI deadline timer as they were; with every allocation succeeding the same call rings
`head_idx` 3 and re-arms all three. -/
theorem ionicRxFill_alloc_fail_unannounced :
    let t : RxDbellBuild := ⟨1, 1000, 2, by decide⟩
    let b : RxBuild := ⟨false, 4096, 2048, 3000, 8, 16, by decide, by decide⟩
    let c : RxqCfg := ⟨⟨4, 2, rfl⟩, 0, 2, false⟩
    let lif : RxLif := { mtu := 1500, rxCopybreak := 256 }
    let tm : RxDbell := ⟨1000, 0, none⟩
    let fails := ionicRxFillTimed t b c lif ⟨fun p => p == 0, fun p => 4096 * (p + 1), fun _ => true, true, []⟩ 100
      (RxState.init 0) tm
    let ok := ionicRxFillTimed t b c lif ⟨fun _ => true, fun p => 4096 * (p + 1), fun _ => true, true, []⟩ 100
      (RxState.init 0) tm
    (fails.1.q.headIdx, (fails.1.q.info 0).nbufs, fails.1.q.dbell, fails.2) = (1, 1, none, tm) ∧
      (ok.1.q.headIdx, ok.1.q.dbell, ok.2) = (3, some 3, ⟨1, 100, some 102⟩) := by
  decide

end IonicTxrx
