import IonicTxrx.Ring

/-!
# The completion ring and its color bit

The device reports finished descriptors through a completion ring of its own: it writes entries
in order, each stamped with the color of the generation it is in, a color that flips each time
its cursor wraps. The driver keeps `tail_idx` and `done_color`, the color of the generation it
reads: the entry at `tail_idx` is new exactly when its color is `done_color`.
`ionic_tx_service` and `ionic_rx_service` begin with that test (`color_match`), and
`ionic_cq_service` (`ionic_dev.c`, outside this repository, modelled from the spec) calls one of
them on the entry at `tail_idx` until it declines or the budget is spent, advancing `tail_idx`
and flipping `done_color` as it wraps.

While the device stays at most one ring ahead of the driver, the ring with its two cursors
refines a FIFO of pending completions (`cqPending`): the entry at `tail_idx` carries
`done_color` exactly when a completion is pending, and then it is the oldest one. A write by the
device appends to the FIFO (`CqInv.devPost`), the driver's advance removes its front
(`CqInv.advance`), and `ionic_cq_service` hands its callback the pending completions in order
(`ionicCqService_fifo`): none is lost, none is taken twice, and no stale entry is taken for a new
one (`cqReach_fifo`).
-/

namespace IonicTxrx

/-- A completion entry as the driver reads it: its color bit and the fields the service reads. -/
structure CqEntry (α : Type) where
  color : Bool
  comp : α

/-- Modelled from the spec: the driver's side of `struct ionic_cq` (`ionic_dev.h`, not in this
repository), "expected color bit per generation, flipping each time `tail` wraps past the ring
end": the cursor `tail_idx`, `done_color`, and `cq->info[]`, the entries the device writes. -/
structure Cq (α : Type) where
  tailIdx : Nat
  doneColor : Bool
  info : Nat → CqEntry α

/-- The device's side of a completion ring, as the spec describes the hardware: the entry it
writes next and the color of its generation. -/
structure CqDev where
  headIdx : Nat
  color : Bool
  deriving DecidableEq, Repr

variable {α σ : Type} (r : Ring)

namespace Cq

/-- What `ionic_cq_service` does once the callback took the entry at `tail_idx`: flip
`done_color` at the last entry of the ring, and advance `tail_idx`. -/
def advance (cq : Cq α) : Cq α :=
  { cq with doneColor := if cq.tailIdx = r.numDescs - 1 then !cq.doneColor else cq.doneColor
            tailIdx := r.next cq.tailIdx }

/-- The color of the generation of the entry `j` places after `tail_idx`: `done_color` up to
the end of the ring, the other color past it. -/
def colorAt (cq : Cq α) (j : Nat) : Bool := if cq.tailIdx + j < r.numDescs then cq.doneColor else !cq.doneColor

end Cq

/-- The device writes completion `x` at its cursor, stamped with its color, and moves on,
flipping its color as it wraps. -/
def cqDevPost (cq : Cq α) (d : CqDev) (x : α) : Cq α × CqDev :=
  ({ cq with info := Function.update cq.info d.headIdx ⟨d.color, x⟩ },
    ⟨r.next d.headIdx, if d.headIdx = r.numDescs - 1 then !d.color else d.color⟩)

/-- Modelled from the spec: `ionic_cq_service(cq, work_to_do, cb)` (`ionic_dev.c`, not in this
repository) "repeatedly checks next completion entry's color against expected; on mismatch,
stops ... Stops at `budget` or when color no longer matches": the callback gets the color test
and the entry at `tail_idx` and answers whether it took it, `none` when it does not return. The
count of entries taken, `work_done`, and the ring and state after. -/
def ionicCqService (cb : Bool → α → σ → Option (Bool × σ)) : Nat → Cq α → σ → Option (Nat × Cq α × σ)
  | 0, cq, s => some (0, cq, s)
  | n + 1, cq, s =>
    match cb ((cq.info cq.tailIdx).color == cq.doneColor) (cq.info cq.tailIdx).comp s with
    | none => none
    | some (false, s) => some (0, cq, s)
    | some (true, s) => (ionicCqService cb n (cq.advance r) s).map fun p => (p.1 + 1, p.2)

/-! ## The FIFO the ring stands for -/

/-- How many completions are pending: `(head - tail) mod N`, or the whole ring when the cursors
meet with the device a generation ahead. -/
def cqCount (cq : Cq α) (d : CqDev) : Nat :=
  if d.headIdx = cq.tailIdx ∧ d.color ≠ cq.doneColor then r.numDescs else r.inflight d.headIdx cq.tailIdx

/-- The pending completions, oldest first. -/
def cqPending (cq : Cq α) (d : CqDev) : List α :=
  (List.range (cqCount r cq d)).map fun j => (cq.info ((cq.tailIdx + j) % r.numDescs)).comp

/-- The abstract service: hand the callback the pending completions in order, each with a
matching color, until it declines, it does not return, the budget is spent or none is left. -/
def cqServiceFifo (cb : Bool → α → σ → Option (Bool × σ)) : Nat → List α → σ → Option (Nat × List α × σ)
  | 0, xs, s => some (0, xs, s)
  | _ + 1, [], s => some (0, [], s)
  | n + 1, x :: xs, s =>
    match cb true x s with
    | none => none
    | some (false, s) => some (0, x :: xs, s)
    | some (true, s) => (cqServiceFifo cb n xs s).map fun p => (p.1 + 1, p.2)

/-- The layout of a completion ring whose device is at most one ring ahead: the pending entries
follow `tail_idx` with the colors of their generations, the others still carry the color of the
generation before, and the device's color is that of the entry it writes next. -/
structure CqInv (cq : Cq α) (d : CqDev) : Prop where
  tail_lt : cq.tailIdx < r.numDescs
  head_eq : d.headIdx = (cq.tailIdx + cqCount r cq d) % r.numDescs
  color : d.color = cq.colorAt r (cqCount r cq d)
  entry : ∀ j < r.numDescs, (cq.info ((cq.tailIdx + j) % r.numDescs)).color =
    if j < cqCount r cq d then cq.colorAt r j else !cq.colorAt r j

theorem cqCount_le (cq : Cq α) (d : CqDev) : cqCount r cq d ≤ r.numDescs := by
  unfold cqCount
  split_ifs
  · exact le_rfl
  · exact (r.inflight_lt _ _).le

/-- A device `k ≤ N` entries past `tail_idx`, with the color of that entry's generation, has `k`
completions pending. -/
theorem cqCount_of {cq : Cq α} {d : CqDev} {k : Nat} (ht : cq.tailIdx < r.numDescs) (hk : k ≤ r.numDescs)
    (hh : d.headIdx = (cq.tailIdx + k) % r.numDescs) (hc : d.color = cq.colorAt r k) : cqCount r cq d = k := by
  rw [r.add_mod_eq ht hk] at hh
  unfold cqCount
  unfold Cq.colorAt at hc
  by_cases hkN : k = r.numDescs
  · -- the cursors meet a generation apart
    subst hkN
    rw [if_neg (by omega)] at hh hc
    rw [if_pos ⟨by omega, by rw [hc]; cases cq.doneColor <;> decide⟩]
  · have hhl : d.headIdx < r.numDescs := by split_ifs at hh <;> omega
    rw [r.inflight_eq hhl ht]
    by_cases hk0 : k = 0
    · subst hk0
      rw [if_pos (by omega)] at hc hh
      rw [if_neg (by rw [hc]; exact fun h => h.2 rfl)]
      split_ifs <;> omega
    · rw [if_neg (by split_ifs at hh <;> omega)]
      split_ifs at hh ⊢ <;> omega

namespace Cq

variable {r}

/-- A ring as the driver sets it up: both sides at entry 0 in the generation of color `c`, every
entry still carrying the other color. -/
def init (c : Bool) (x₀ : α) : Cq α := ⟨0, c, fun _ => ⟨!c, x₀⟩⟩

@[simp] theorem advance_info (cq : Cq α) : (cq.advance r).info = cq.info := rfl

theorem colorAt_zero {cq : Cq α} (ht : cq.tailIdx < r.numDescs) : cq.colorAt r 0 = cq.doneColor := by
  simp [colorAt, ht]

/-- One turn after `tail_idx` the generation is the next one. -/
theorem colorAt_numDescs (cq : Cq α) : cq.colorAt r r.numDescs = !cq.doneColor := by
  simp [colorAt]

/-- After the advance, the generations are those seen from one entry further on. -/
theorem colorAt_advance {cq : Cq α} (ht : cq.tailIdx < r.numDescs) {j : Nat} (hj : j < r.numDescs) :
    (cq.advance r).colorAt r j = cq.colorAt r (j + 1) := by
  unfold advance colorAt
  dsimp only
  rw [r.next_eq ht]
  split_ifs <;> first | rfl | omega

end Cq

theorem cqPending_length (cq : Cq α) (d : CqDev) : (cqPending r cq d).length = cqCount r cq d := by
  simp [cqPending]

/-- The entry at `tail_idx` carries `done_color` exactly when a completion is pending. -/
theorem CqInv.colorMatch {cq : Cq α} {d : CqDev} (h : CqInv r cq d) :
    ((cq.info cq.tailIdx).color == cq.doneColor) = decide (0 < cqCount r cq d) := by
  have he := h.entry 0 r.numDescs_pos
  rw [Nat.add_zero, Nat.mod_eq_of_lt h.tail_lt, Cq.colorAt_zero h.tail_lt] at he
  rw [he]
  by_cases h0 : 0 < cqCount r cq d <;> simp [h0]

theorem cqCount_init (c : Bool) (x₀ : α) : cqCount r (Cq.init c x₀) ⟨0, c⟩ = 0 :=
  cqCount_of r r.numDescs_pos (Nat.zero_le _) (by simp [Cq.init]) (by simp [Cq.init, Cq.colorAt, r.numDescs_pos])

theorem CqInv.init (c : Bool) (x₀ : α) : CqInv r (Cq.init c x₀) ⟨0, c⟩ := by
  have hN := r.numDescs_pos
  have hc := cqCount_init r c x₀
  refine ⟨hN, ?_, ?_, fun j hj => ?_⟩ <;> rw [hc]
  · simp [Cq.init]
  · rw [Cq.colorAt_zero hN]; rfl
  · simp [Cq.init, Cq.colorAt, hj]

variable {r}

/-- Taking the oldest completion removes the front of the FIFO. -/
theorem CqInv.advance {cq : Cq α} {d : CqDev} (h : CqInv r cq d) (hc : 0 < cqCount r cq d) :
    CqInv r (cq.advance r) d ∧ cqCount r (cq.advance r) d = cqCount r cq d - 1 ∧
      cqPending r cq d = (cq.info cq.tailIdx).comp :: cqPending r (cq.advance r) d := by
  have ht := h.tail_lt
  have hle := cqCount_le r cq d
  -- the entry `j` places after the new `tail_idx` is `j + 1` places after the old one
  have hidx : ∀ j, ((cq.advance r).tailIdx + j) % r.numDescs = (cq.tailIdx + (j + 1)) % r.numDescs :=
    r.next_add_mod cq.tailIdx
  have hk : cqCount r (cq.advance r) d = cqCount r cq d - 1 := by
    refine cqCount_of r (r.next_lt _) (by omega) ?_ ?_
    · rw [hidx, Nat.sub_add_cancel hc]; exact h.head_eq
    · rw [Cq.colorAt_advance ht (by omega), Nat.sub_add_cancel hc]; exact h.color
  refine ⟨⟨r.next_lt _, by rw [hk, hidx, Nat.sub_add_cancel hc]; exact h.head_eq,
    by rw [hk, Cq.colorAt_advance ht (by omega), Nat.sub_add_cancel hc]; exact h.color, fun j hj => ?_⟩, hk, ?_⟩
  · rw [hidx, hk, Cq.advance_info]
    by_cases hj1 : j + 1 < r.numDescs
    · rw [h.entry _ hj1, Cq.colorAt_advance ht hj]
      split_ifs <;> first | rfl | omega
    · -- the entry just taken is the last one seen from the new `tail_idx`
      have hjN : j + 1 = r.numDescs := by omega
      rw [hjN, Nat.add_mod_right, ← Nat.add_zero cq.tailIdx, h.entry 0 r.numDescs_pos, if_pos hc,
        if_neg (by omega), Cq.colorAt_advance ht hj, hjN, Cq.colorAt_numDescs, Cq.colorAt_zero ht, Bool.not_not]
  · obtain ⟨k, hk'⟩ : ∃ k, cqCount r cq d = k + 1 := ⟨_, (Nat.succ_pred_eq_of_pos hc).symm⟩
    rw [cqPending, cqPending, hk, hk', List.range_succ_eq_map, Nat.add_sub_cancel, List.map_cons, List.map_map]
    simp only [Nat.add_zero, Nat.mod_eq_of_lt ht, Function.comp_def, Nat.succ_eq_add_one, hidx, Cq.advance_info]

/-- A write by the device, while it is less than a ring ahead, appends to the FIFO. -/
theorem CqInv.devPost {cq : Cq α} {d : CqDev} (h : CqInv r cq d) (hc : cqCount r cq d < r.numDescs) (x : α) :
    CqInv r (cqDevPost r cq d x).1 (cqDevPost r cq d x).2 ∧
      cqCount r (cqDevPost r cq d x).1 (cqDevPost r cq d x).2 = cqCount r cq d + 1 ∧
      cqPending r (cqDevPost r cq d x).1 (cqDevPost r cq d x).2 = cqPending r cq d ++ [x] := by
  have ht := h.tail_lt
  have hhd : d.headIdx = (cq.tailIdx + cqCount r cq d) % r.numDescs := h.head_eq
  -- the device's color moves to the next generation exactly when its entry ends the ring
  have hcol : (cqDevPost r cq d x).2.color = cq.colorAt r (cqCount r cq d + 1) := by
    simp only [cqDevPost]
    rw [h.color]
    rw [r.add_mod_eq ht hc.le] at hhd
    unfold Cq.colorAt
    split_ifs at hhd ⊢ <;> first | rfl | omega
  have hk : cqCount r (cqDevPost r cq d x).1 (cqDevPost r cq d x).2 = cqCount r cq d + 1 :=
    cqCount_of r ht hc (by simp only [cqDevPost]; rw [r.next_eq_mod, hhd, Nat.mod_add_mod, Nat.add_assoc]) hcol
  -- the entry written is the one `cqCount` places after `tail_idx`
  have hidx : ∀ j < r.numDescs, (cq.tailIdx + j) % r.numDescs = d.headIdx ↔ j = cqCount r cq d := fun j hj =>
    ⟨fun he => r.add_mod_inj hj hc (he.trans hhd), fun he => he ▸ hhd.symm⟩
  refine ⟨⟨ht, by rw [hk]; simp only [cqDevPost]; rw [r.next_eq_mod, hhd, Nat.mod_add_mod, Nat.add_assoc],
    by rw [hk]; exact hcol, fun j hj => ?_⟩, hk, ?_⟩
  · rw [hk]
    simp only [cqDevPost, Function.update_apply]
    by_cases hj' : j = cqCount r cq d
    · rw [if_pos ((hidx j hj).mpr hj'), if_pos (by omega), hj']
      exact h.color
    · rw [if_neg (mt (hidx j hj).mp hj'), h.entry j hj]
      split_ifs <;> first | rfl | omega
  · rw [cqPending, cqPending, hk, List.range_succ, List.map_append, List.map_singleton]
    congr 1
    · refine List.map_congr_left fun j hj => ?_
      simp only [cqDevPost, Function.update_apply]
      rw [if_neg (mt (hidx j (by simp at hj; omega)).mp (by simp at hj; omega))]
    · simp [cqDevPost, hhd]

/-! ## The service refines the FIFO -/

section Service

variable {cb : Bool → α → σ → Option (Bool × σ)}

/-- `ionic_cq_service`, with a callback that declines an entry whose color does not match, hands
it the pending completions in order as `cqServiceFifo` does, and leaves a ring of the same
layout. -/
theorem ionicCqService_fifo (hcb : ∀ x s, cb false x s = some (false, s)) (n : Nat) {cq : Cq α}
    {d : CqDev} (h : CqInv r cq d) (s : σ) :
    (ionicCqService r cb n cq s).map (fun p => (p.1, cqPending r p.2.1 d, p.2.2)) =
        cqServiceFifo cb n (cqPending r cq d) s ∧
      ∀ p ∈ ionicCqService r cb n cq s, CqInv r p.2.1 d := by
  induction n generalizing cq s with
  | zero => simp [ionicCqService, cqServiceFifo, h]
  | succ n ih =>
    by_cases hc : 0 < cqCount r cq d
    · -- the entry at `tail_idx` is the oldest pending completion
      obtain ⟨h', -, hp⟩ := h.advance hc
      rw [hp]
      simp only [ionicCqService, cqServiceFifo, h.colorMatch, decide_eq_true hc]
      rcases cb true (cq.info cq.tailIdx).comp s with _ | ⟨_ | _, s'⟩ <;> dsimp only
      · simp
      · simp [hp, h]
      · obtain ⟨ih₁, ih₂⟩ := ih h' s'
        refine ⟨by rw [← ih₁, Option.map_map, Option.map_map]; rfl, fun p hp => ?_⟩
        obtain ⟨q, hq, rfl⟩ := Option.mem_map.mp hp
        exact ih₂ q hq
    · -- nothing is pending, and the color at `tail_idx` does not match
      have h0 : cqCount r cq d = 0 := by omega
      have hp : cqPending r cq d = [] := by simp [cqPending, h0]
      simp [ionicCqService, cqServiceFifo, h.colorMatch, h0, hp, hcb, h]

/-- With nothing pending, the service takes nothing and changes nothing. -/
theorem ionicCqService_idle (hcb : ∀ x s, cb false x s = some (false, s)) (n : Nat) {cq : Cq α} {d : CqDev}
    (h : CqInv r cq d) (h0 : cqCount r cq d = 0) (s : σ) : ionicCqService r cb n cq s = some (0, cq, s) := by
  cases n <;> simp [ionicCqService, h.colorMatch, h0, hcb]

/-- What every call of the callback keeps, the service keeps. -/
theorem ionicCqService_inv {P : σ → Prop} (hcb : ∀ m x s b s', cb m x s = some (b, s') → P s → P s') (n : Nat)
    {cq cq' : Cq α} {s s' : σ} {w : Nat} (h : P s) (he : ionicCqService r cb n cq s = some (w, cq', s')) : P s' := by
  induction n generalizing cq s w with
  | zero => cases he; exact h
  | succ n ih =>
    rw [ionicCqService] at he
    rcases hc : cb ((cq.info cq.tailIdx).color == cq.doneColor) (cq.info cq.tailIdx).comp s with _ | ⟨_ | _, s₁⟩ <;>
      rw [hc] at he
    · cases he
    · cases he
      exact hcb _ _ _ _ _ hc h
    · obtain ⟨⟨w₁, cq₁, s₂⟩, hs, he⟩ := Option.map_eq_some'.mp he
      cases he
      exact ih (hcb _ _ _ _ _ hc h) hs

/-- A count the callback raises by one for each completion it takes, and keeps when it declines,
is raised by the service by the number of completions it took. -/
theorem ionicCqService_count {f : σ → Nat} (hcb : ∀ m x s b s', cb m x s = some (b, s') → f s' = f s + b.toNat)
    (n : Nat) {cq cq' : Cq α} {s s' : σ} {w : Nat} (he : ionicCqService r cb n cq s = some (w, cq', s')) :
    f s' = f s + w := by
  induction n generalizing cq s w with
  | zero => cases he; rfl
  | succ n ih =>
    rw [ionicCqService] at he
    rcases hc : cb ((cq.info cq.tailIdx).color == cq.doneColor) (cq.info cq.tailIdx).comp s with _ | ⟨_ | _, s₁⟩ <;>
      rw [hc] at he
    · cases he
    · cases he
      exact hcb _ _ _ _ _ hc
    · obtain ⟨⟨w₁, cq₁, s₂⟩, hs, he⟩ := Option.map_eq_some'.mp he
      cases he
      rw [ih hs, hcb _ _ _ _ _ hc, Bool.toNat_true]
      omega

/-- The callback with a ghost log of the completions it took. -/
def cqLog (cb : Bool → α → σ → Option (Bool × σ)) (m : Bool) (x : α) (st : σ × List α) :
    Option (Bool × σ × List α) :=
  (cb m x st.1).map fun p => (p.1, p.2, if p.1 then st.2 ++ [x] else st.2)

theorem cqLog_false (hcb : ∀ x s, cb false x s = some (false, s)) (x : α) (st : σ × List α) :
    cqLog cb false x st = some (false, st) := by
  simp [cqLog, hcb]

/-- The abstract service moves completions from the front of the FIFO to the end of the log. -/
theorem cqServiceFifo_log (n : Nat) (xs : List α) (st : σ × List α) {w : Nat} {ys : List α}
    {st' : σ × List α} (h : cqServiceFifo (cqLog cb) n xs st = some (w, ys, st')) :
    st'.2 ++ ys = st.2 ++ xs := by
  induction n generalizing xs st w with
  | zero => simp only [cqServiceFifo, Option.some.injEq, Prod.mk.injEq] at h; rw [← h.2.1, h.2.2]
  | succ n ih =>
    match xs, h with
    | [], h => simp only [cqServiceFifo, Option.some.injEq, Prod.mk.injEq] at h; rw [← h.2.1, h.2.2]
    | x :: xs, h =>
      rcases hx : cb true x st.1 with _ | ⟨_ | _, s⟩ <;>
        simp only [cqServiceFifo, cqLog, hx, Option.map_none', Option.map_some', reduceCtorEq, ↓reduceIte,
          Bool.false_eq_true] at h
      · simp only [Option.some.injEq, Prod.mk.injEq] at h
        obtain ⟨-, rfl, rfl⟩ := h
        rfl
      · obtain ⟨⟨w₁, ys₁, st₁⟩, hr, he⟩ := Option.map_eq_some'.mp h
        cases he
        rw [ih _ _ hr, List.append_assoc, List.singleton_append]

end Service

/-! ## Runs of the protocol -/

/-- The runs of a completion ring: the driver sets it up, then, in any order, the device writes
completions while it is less than a ring ahead and the driver services the ring with any
budget. The last index is every completion the device wrote; the log in the callback's state,
every one the driver took. -/
inductive CqReach (r : Ring) (cb : Bool → α → σ → Option (Bool × σ)) : Cq α → CqDev → σ × List α → List α → Prop
  | init (c : Bool) (x₀ : α) (s : σ) : CqReach r cb (Cq.init c x₀) ⟨0, c⟩ (s, []) []
  | post {cq : Cq α} {d : CqDev} {st : σ × List α} {posted : List α} (x : α) :
      CqReach r cb cq d st posted → cqCount r cq d < r.numDescs →
      CqReach r cb (cqDevPost r cq d x).1 (cqDevPost r cq d x).2 st (posted ++ [x])
  | service {cq cq' : Cq α} {d : CqDev} {st st' : σ × List α} {posted : List α} {n w : Nat} :
      CqReach r cb cq d st posted → ionicCqService r (cqLog cb) n cq st = some (w, cq', st') →
      CqReach r cb cq' d st' posted

/-- Over any interleaving of device writes and services, the completions the driver took,
followed by those still pending, are exactly those the device wrote, in order: none is lost,
none is taken twice, and no stale entry is taken for a new one. -/
theorem cqReach_fifo {cb : Bool → α → σ → Option (Bool × σ)} (hcb : ∀ x s, cb false x s = some (false, s))
    {cq : Cq α} {d : CqDev} {st : σ × List α} {posted : List α} (h : CqReach r cb cq d st posted) :
    CqInv r cq d ∧ st.2 ++ cqPending r cq d = posted := by
  induction h with
  | init c x₀ s => exact ⟨CqInv.init r c x₀, by simp [cqPending, cqCount_init]⟩
  | post x _ hc ih =>
    obtain ⟨h', -, hp⟩ := ih.1.devPost hc x
    exact ⟨h', by rw [hp, ← List.append_assoc, ih.2]⟩
  | @service cq cq' d st st' posted n w _ hs ih =>
    obtain ⟨h₁, h₂⟩ := ionicCqService_fifo (cqLog_false hcb) n ih.1 st
    rw [hs] at h₁ h₂
    exact ⟨h₂ _ rfl, (cqServiceFifo_log n _ st h₁.symm).trans ih.2⟩

/-- On a ring of four entries: the device writes 7, 8 and 9, a service with a budget of 2 takes 7
and 8, the device writes 10 and 11 past the end of the ring in the next color, and a service with
a budget of 4 takes 9, 10 and 11, across the wrap, and stops at the stale entry after them. -/
theorem cqReach_fifo_wrap :
    let r : Ring := ⟨4, 2, rfl⟩
    let cb : Bool → Nat → Unit → Option (Bool × Unit) := fun m _ s => some (m, s)
    let post (x : Nat) (p : Cq Nat × CqDev) : Cq Nat × CqDev := cqDevPost r p.1 p.2 x
    let svc (n : Nat) (cq : Cq Nat) (st : Unit × List Nat) : Cq Nat × Unit × List Nat :=
      ((ionicCqService r (cqLog cb) n cq st).map Prod.snd).getD (Cq.init true 0, (), [])
    let p₁ := post 9 (post 8 (post 7 (Cq.init true 0, ⟨0, true⟩)))
    let q₁ := svc 2 p₁.1 ((), [])
    let p₂ := post 11 (post 10 (q₁.1, p₁.2))
    let q₂ := svc 4 p₂.1 q₁.2
    (q₁.2.2, q₂.2.2, p₂.2, q₂.1.doneColor) = ([7, 8], [7, 8, 9, 10, 11], ⟨1, false⟩, false) ∧
      CqInv r q₂.1 p₂.2 ∧ q₂.2.2 ++ cqPending r q₂.1 p₂.2 = [7, 8, 9, 10, 11] :=
  ⟨by decide!, @cqReach_fifo Nat Unit _ (fun m _ s => some (m, s)) (fun _ _ => rfl) _ _ _ _
    (@CqReach.service _ _ _ _ _ _ _ _ _ _ 4 3
      (.post 11 (.post 10 (@CqReach.service _ _ _ _ _ _ _ _ _ _ 2 2
        (.post 9 (.post 8 (.post 7 (.init true 0 ()) (by decide!)) (by decide!)) (by decide!))
        (eq_some_of_map_fst (Cq.init true 0, (), []) (by decide!))) (by decide!)) (by decide!))
      (eq_some_of_map_fst (Cq.init true 0, (), []) (by decide!)))⟩

end IonicTxrx
