import IonicTxrx.Tx.Clean

/-!
# The ring as its completions see it

What decides which slots are in flight and what their completion does: the two cursors, the
callback argument of every slot, the last doorbell and the BQL counters. On this view every
function of the transmit core is one of five abstract steps (post a slot, count bytes as sent,
complete the tail slot, report completions, or nothing), and this module proves, one lemma per
function, which. The invariants of whole runs are stated and proved on the view.
-/

namespace IonicTxrx

/-- The completion-relevant part of a TX queue. -/
structure TxView where
  head : Nat
  tail : Nat
  /-- The callback argument of each slot. -/
  arg : Nat → Option Skb
  dbell : Option Nat
  bql : Bql

namespace TxView

variable (r : Ring) (c : TxqCfg) (v : TxView)

/-- Post the slot at `head` with callback argument `a`, with or without a doorbell. -/
def post (ringDbell : Bool) (a : Option Skb) : TxView :=
  { v with head := r.next v.head, arg := Function.update v.arg v.head a,
           dbell := if ringDbell then some (r.next v.head) else v.dbell }

/-- `netdev_tx_sent_queue` of `len` bytes, unless the queue timestamps. -/
def sent (len : Nat) : TxView :=
  if c.hwstamp then v
  else { v with bql := { v.bql with sentBytes := v.bql.sentBytes + len, sentCalls := v.bql.sentCalls + 1 } }

/-- Complete the slot at `tail`: its callback argument is consumed and `tail` advances. -/
def complete : TxView :=
  { v with tail := r.next v.tail, arg := Function.update v.arg v.tail none }

/-- `netdev_tx_completed_queue` of `pkts` packets and `bytes` bytes, as `ionic_tx_service` and
`ionic_tx_empty` guard it. -/
def completed (pkts bytes : Nat) : TxView :=
  if pkts ≠ 0 ∧ bytes ≠ 0 ∧ !c.hwstamp then
    { v with bql := { v.bql with doneBytes := v.bql.doneBytes + bytes, donePkts := v.bql.donePkts + pkts } }
  else v

/-- What `ionic_tx_tso_post` does to the view for descriptor `g` of `skb`. -/
def tsoPost (skb : Skb) (v : TxView) (g : TsoSeg) : TxView :=
  if g.start then (v.sent c skb.len).post c.ring false (some skb) else v.post c.ring g.done none

@[simp] theorem post_head (rd : Bool) (a : Option Skb) : (v.post r rd a).head = r.next v.head := rfl
@[simp] theorem post_tail (rd : Bool) (a : Option Skb) : (v.post r rd a).tail = v.tail := rfl
@[simp] theorem sent_head (len : Nat) : (v.sent c len).head = v.head := by unfold sent; split <;> rfl
@[simp] theorem sent_tail (len : Nat) : (v.sent c len).tail = v.tail := by unfold sent; split <;> rfl
@[simp] theorem sent_dbell (len : Nat) : (v.sent c len).dbell = v.dbell := by unfold sent; split <;> rfl
@[simp] theorem post_dbell (rd : Bool) (a : Option Skb) :
    (v.post r rd a).dbell = if rd then some (r.next v.head) else v.dbell := rfl
@[simp] theorem post_arg (rd : Bool) (a : Option Skb) : (v.post r rd a).arg = Function.update v.arg v.head a := rfl
@[simp] theorem sent_arg (len : Nat) : (v.sent c len).arg = v.arg := by unfold sent; split <;> rfl
@[simp] theorem complete_head : (v.complete r).head = v.head := rfl
@[simp] theorem complete_tail : (v.complete r).tail = r.next v.tail := rfl
@[simp] theorem complete_arg : (v.complete r).arg = Function.update v.arg v.tail none := rfl

end TxView

/-- Bytes of the skb a slot holds. -/
def slotBytes (a : Option Skb) : Nat := a.elim 0 Skb.len

/-- One for a slot that holds an skb. -/
def slotPkts (a : Option Skb) : Nat := a.elim 0 fun _ => 1

/-- The view of a TX state. -/
def TxState.view (s : TxState) : TxView :=
  ⟨s.q.headIdx, s.q.tailIdx, fun i => (s.q.info i).cbArg, s.q.dbell, s.bql⟩

namespace TxState

variable {s s' : TxState} (c : TxqCfg)

/-- Two states with the same cursors, callback arguments, doorbell and counters have one view. -/
theorem view_eq (hh : s'.q.headIdx = s.q.headIdx) (ht : s'.q.tailIdx = s.q.tailIdx)
    (ha : ∀ j, (s'.q.info j).cbArg = (s.q.info j).cbArg) (hd : s'.q.dbell = s.q.dbell)
    (hb : s'.bql = s.bql) : s'.view = s.view := by
  simp only [view, hh, ht, hd, hb, funext ha]

theorem setInfo_cbArg {i : Nat} {d : TxDescInfo} (h : d.cbArg = (s.q.info i).cbArg) (j : Nat) :
    ((s.q.setInfo i d).info j).cbArg = (s.q.info j).cbArg := by
  by_cases hj : j = i <;> simp [hj, h]

theorem view_setInfo_arg (i : Nat) (d : TxDescInfo) :
    (s.setInfo i d).view = { s.view with arg := Function.update s.view.arg i d.cbArg } := by
  simp only [view, setInfo, TxView.mk.injEq, Queue.setInfo_headIdx, Queue.setInfo_tailIdx,
    Queue.setInfo_dbell, true_and, and_true]
  funext j
  by_cases hj : j = i
  · subst hj; simp
  · simp [hj]

theorem view_setInfo {i : Nat} {d : TxDescInfo} (h : d.cbArg = (s.q.info i).cbArg) :
    (s.setInfo i d).view = s.view :=
  view_eq rfl rfl (setInfo_cbArg h) rfl rfl

@[simp] theorem view_release (skb : Skb) : (s.release skb).view = s.view := rfl
@[simp] theorem view_setStopped (i : Nat) (b : Bool) : (s.setStopped i b).view = s.view := rfl
@[simp] theorem view_withStats (st : TxStats) : ({ s with stats := st } : TxState).view = s.view := rfl

theorem view_bqlSent (len : Nat) : (s.bqlSent c len).view = s.view.sent c len := by
  unfold bqlSent TxView.sent
  split <;> rfl

theorem view_bqlCompleted (pkts bytes : Nat) :
    (s.bqlCompleted c pkts bytes).view = s.view.completed c pkts bytes := by
  unfold bqlCompleted TxView.completed
  split <;> rfl

theorem view_post (b : Bool) (a : Option Skb) : (s.post c b a).view = s.view.post c.ring b a := by
  simp only [post, view, TxView.post, ionicQPost_headIdx, ionicQPost_tailIdx, ionicQPost_dbell,
    TxView.mk.injEq, true_and, and_true]
  funext j
  by_cases hj : j = s.q.headIdx
  · subst hj; simp
  · simp [hj]

end TxState

/-! ## Mapping and unmapping leave the view alone -/

/-- The fragment loop writes only `bufs`; when every fragment maps, `bufs[1 + k + j]` holds
fragment `j` and the entries before `bufs[1 + k]` are untouched. -/
theorem ionicTxMapFrags_bufs (env : TxEnv) (k : Nat) (frags : List Nat) (d : TxDescInfo)
    (st : TxStats) (dma : Dma) :
    ∃ bufs, (ionicTxMapFrags env k frags d st dma).2.1 = { d with bufs := bufs } ∧
      (∀ j < 1 + k, bufs j = d.bufs j) ∧
      ((ionicTxMapFrags env k frags d st dma).1 = none →
        (List.range frags.length).map (fun j => (bufs (1 + k + j)).len) = frags) := by
  induction frags generalizing k d st dma with
  | nil => exact ⟨d.bufs, rfl, fun _ _ => rfl, fun _ => rfl⟩
  | cons size rest ih =>
    unfold ionicTxMapFrags
    split
    rename_i a st₁ dma₁ _
    split_ifs with ha
    · exact ⟨d.bufs, rfl, fun _ _ => rfl, by simp⟩
    obtain ⟨bufs, h1, h2, h3⟩ := ih (k + 1) (d.setBuf (1 + k) ⟨a, size⟩) st₁ dma₁
    refine ⟨bufs, h1, fun j hj => by rw [h2 j (by omega), TxDescInfo.setBuf_bufs_ne _ _ (by omega)],
      fun hn => ?_⟩
    rw [List.length_cons, List.range_succ_eq_map, List.map_cons, List.map_map, h2 _ (by omega)]
    simp only [Nat.add_zero, TxDescInfo.setBuf_bufs_self, List.cons.injEq, true_and]
    conv_rhs => rw [← h3 hn]
    exact List.map_congr_left fun j _ => by simp only [Function.comp]; congr 2; omega

theorem ionicTxMapSkb_view (env : TxEnv) (skb : Skb) (i : Nat) (s : TxState) :
    (ionicTxMapSkb env skb i s).2.view = s.view := by
  unfold ionicTxMapSkb
  split
  split_ifs
  · rfl
  dsimp only
  split
  all_goals
    rename_i d _ _ h
    obtain ⟨bufs, hd, -⟩ := ionicTxMapFrags_bufs env 0 skb.frags ((s.q.info i).setBuf 0 ⟨_, skb.headlen⟩) _ _
    rw [h] at hd
    exact TxState.view_eq rfl rfl (TxState.setInfo_cbArg (by simp only at hd; rw [hd]; rfl)) rfl rfl

theorem ionicTxDescUnmapBufs_view (i : Nat) (s : TxState) : (ionicTxDescUnmapBufs i s).view = s.view := by
  unfold ionicTxDescUnmapBufs
  dsimp only
  split_ifs
  · rfl
  · exact TxState.view_eq rfl rfl (TxState.setInfo_cbArg rfl) rfl rfl

/-- When `ionic_tx_map_skb` succeeds, `bufs[0 .. nr_frags]` hold the head and the fragments. -/
theorem ionicTxMapSkb_lens {env : TxEnv} {skb : Skb} {i : Nat} {s : TxState}
    (h : (ionicTxMapSkb env skb i s).1 = 0) :
    (List.range (1 + skb.nrFrags)).map (fun j => (((ionicTxMapSkb env skb i s).2.q.info i).bufs j).len) =
      skb.headlen :: skb.frags := by
  revert h
  unfold ionicTxMapSkb
  split
  split_ifs
  · simp [eio]
  dsimp only
  split
  · rename_i d _ _ hf
    obtain ⟨bufs, hd, h0, hl⟩ := ionicTxMapFrags_bufs env 0 skb.frags ((s.q.info i).setBuf 0 ⟨_, skb.headlen⟩) _ _
    rw [hf] at hd hl
    simp only at hd
    intro _
    rw [Nat.add_comm, List.range_succ_eq_map, List.map_cons, List.map_map]
    simp only [Queue.setInfo_info_self, hd, h0 0 (by omega), TxDescInfo.setBuf_bufs_self, List.cons.injEq,
      true_and]
    conv_rhs => rw [← hl rfl]
    exact List.map_congr_left fun j _ => by simp [Nat.add_comm 1 j, Skb.nrFrags]
  · simp [eio]

theorem ionicTxMapSkb_bufBytes {env : TxEnv} {skb : Skb} {i : Nat} {s : TxState}
    (h : (ionicTxMapSkb env skb i s).1 = 0) :
    bufBytes ((List.range (1 + skb.nrFrags)).map ((ionicTxMapSkb env skb i s).2.q.info i).bufs) = skb.len := by
  rw [bufBytes, List.map_map]
  exact (congrArg List.sum (ionicTxMapSkb_lens h)).trans (by simp [Skb.len])

theorem ionicTxMapSkb_released (env : TxEnv) (skb : Skb) (i : Nat) (s : TxState) :
    (ionicTxMapSkb env skb i s).2.released = s.released := by
  unfold ionicTxMapSkb; split; split_ifs
  · rfl
  · dsimp only; split <;> rfl

/-! ## Posting -/

/-- `ionic_tx` either counts the skb's bytes and posts its slot, ringing the doorbell unless more
packets follow, or fails in the mapping and leaves the view alone. -/
theorem ionicTx_view (c : TxqCfg) (env : TxEnv) (skb : Skb) (s : TxState) :
    ((ionicTx c env skb s).1 = 0 ∧
      (ionicTx c env skb s).2.view = (s.view.sent c skb.len).post c.ring (!env.xmitMore) (some skb)) ∨
    ((ionicTx c env skb s).1 = eio ∧ (ionicTx c env skb s).2.view = s.view) := by
  have hv := ionicTxMapSkb_view env skb s.q.headIdx s
  unfold ionicTx
  dsimp only
  split_ifs
  · exact .inr ⟨rfl, hv⟩
  all_goals exact .inl ⟨rfl, by simp only [TxState.view_post, TxState.view_bqlSent, TxState.view_withStats,
    TxState.view_setInfo, hv]⟩

theorem ionicTx_released (c : TxqCfg) (env : TxEnv) (skb : Skb) (s : TxState) :
    (ionicTx c env skb s).2.released = s.released := by
  unfold ionicTx; dsimp only; split_ifs <;> simp [ionicTxMapSkb_released]

theorem ionicTxTsoPost_view (c : TxqCfg) (skb : Skb) (s : TxState) (g : TsoSeg) :
    (ionicTxTsoPost c skb s g).view = s.view.tsoPost c skb g := by
  unfold ionicTxTsoPost TxView.tsoPost
  dsimp only
  split <;> simp only [TxState.view_post, TxState.view_bqlSent, TxState.view_setInfo]

theorem released_foldl_tsoPost (c : TxqCfg) (skb : Skb) (segs : List TsoSeg) (s : TxState) :
    (segs.foldl (ionicTxTsoPost c skb) s).released = s.released := by
  induction segs generalizing s with
  | nil => rfl
  | cons g gs ih =>
    rw [List.foldl_cons, ih]
    unfold ionicTxTsoPost
    split <;> simp

/-- What `ionic_tx_tso` does to the view: a failure in the mapping or in the pseudo-checksum step
posts nothing; otherwise the descriptors cutting the packet's `len` bytes are posted in order,
flagged as `ionic_tx_tso_post` expects. No skb is released. -/
theorem ionicTxTso_view {c : TxqCfg} {env : TxEnv} {skb : Skb} {s s' : TxState} {r : Int}
    (hg : 0 < skb.gsoSize) (h : ionicTxTso c env skb s = some (r, s')) :
    s'.released = s.released ∧ ((r ≠ 0 ∧ s'.view = s.view) ∨
    (r = 0 ∧ ∃ segs, SegFlags true segs ∧
      segs.map TsoSeg.bytes = (if skb.len = 0 then [] else tsoSizes skb.len skb.hdrlen skb.gsoSize) ∧
      s'.view = segs.foldl (TxView.tsoPost c skb) s.view)) := by
  have hv := ionicTxMapSkb_view env skb s.q.headIdx s
  have hrel := ionicTxMapSkb_released env skb s.q.headIdx s
  unfold ionicTxTso at h
  dsimp only at h
  split_ifs at h with hr hcow
  · cases h; exact ⟨hrel, .inl ⟨by simp [eio], hv⟩⟩
  · cases h
    refine ⟨?_, .inl ⟨by simp [enomem], (ionicTxDescUnmapBufs_view _ _).trans hv⟩⟩
    unfold ionicTxDescUnmapBufs; dsimp only; split_ifs <;> exact hrel
  · obtain ⟨segs, hs, he⟩ := Option.map_eq_some'.mp h
    cases he
    have hmap : (ionicTxMapSkb env skb s.q.headIdx s).1 = 0 := not_not.mp hr
    obtain ⟨segs', hl, hf, hb, -⟩ := ionicTxTsoSegments_cut ((List.range (1 + skb.nrFrags)).map
      ((ionicTxMapSkb env skb s.q.headIdx s).2.q.info s.q.headIdx).bufs) skb.hdrlen hg
    rw [ionicTxMapSkb_bufBytes hmap] at hl hb
    obtain rfl := Option.some.inj (hl.symm.trans hs)
    refine ⟨(released_foldl_tsoPost c skb _ _).trans hrel, .inr ⟨rfl, segs', hf, hb, ?_⟩⟩
    rw [TxState.view_withStats, ← hv]
    exact (List.foldl_hom TxState.view _ _ segs' _ fun x y => (ionicTxTsoPost_view c skb x y).symm).symm

/-! ## Admission and the whole call -/

/-- `ionic_tx_descs_needed` asks for `gso_segs` slots for a GSO skb and one otherwise, hands on
the skb (linearized when it has more fragments than SG elements) and changes only counters. -/
theorem ionicTxDescsNeeded_some {c : TxqCfg} {env : TxEnv} {skb skb₁ : Skb} {s s₁ : TxState} {n : Nat}
    (h : ionicTxDescsNeeded c env skb s = some (n, skb₁, s₁)) :
    n = (if skb.isGso then skb.gsoSegs else 1) ∧ (skb₁ = skb ∨ skb₁ = skb.linearize) ∧
      skb₁.nrFrags ≤ c.maxSgElems ∧ ∃ st, s₁ = { s with stats := st } := by
  unfold ionicTxDescsNeeded at h
  by_cases h1 : skb.nrFrags ≤ c.maxSgElems
  · simp only [if_pos h1, Option.some.injEq, Prod.mk.injEq] at h
    obtain ⟨rfl, rfl, rfl⟩ := h
    exact ⟨rfl, .inl rfl, h1, s.stats, rfl⟩
  · by_cases h2 : env.linearizeOk <;>
      simp only [if_neg h1, h2, if_true, if_false, Option.some.injEq, Prod.mk.injEq, reduceCtorEq] at h
    obtain ⟨rfl, rfl, rfl⟩ := h
    exact ⟨rfl, .inr rfl, by simp, _, rfl⟩

/-- `ionic_maybe_stop_tx` reports a stop exactly when `ndescs` slots are not free, and changes
only counters and stop flags. -/
theorem ionicMaybeStopTx_eq (c : TxqCfg) (n : Nat) (s : TxState) :
    (ionicMaybeStopTx c n s).1 = !ionicQHasSpace c.ring s.q n ∧
      ∃ st stopped, (ionicMaybeStopTx c n s).2 = { s with stats := st, stopped := stopped } := by
  unfold ionicMaybeStopTx
  dsimp only
  split_ifs with h1 h2
  · exact ⟨by simp [h1], _, _, rfl⟩
  · exact absurd h2 h1
  · exact ⟨by simp [h1], _, _, rfl⟩

/-- `ionic_tx` or `ionic_tx_tso`, as the skb asks: nothing posted on an error, else the skb's
descriptors posted; no skb is released. -/
theorem ionicTxSend_view {c : TxqCfg} {env : TxEnv} {skb : Skb} {s s' : TxState} {r : Int}
    (h : ionicTxSend c env skb s = some (r, s')) :
    s'.released = s.released ∧ ((r ≠ 0 ∧ s'.view = s.view) ∨
    (r = 0 ∧ (skb.isGso = false → s'.view = (s.view.sent c skb.len).post c.ring (!env.xmitMore) (some skb)) ∧
      (skb.isGso = true → ∃ segs, SegFlags true segs ∧
        segs.map TsoSeg.bytes = (if skb.len = 0 then [] else tsoSizes skb.len skb.hdrlen skb.gsoSize) ∧
        s'.view = segs.foldl (TxView.tsoPost c skb) s.view))) := by
  unfold ionicTxSend at h
  split_ifs at h with hg
  · obtain ⟨hrel, hv⟩ := ionicTxTso_view (by simpa [Skb.isGso, Nat.pos_iff_ne_zero] using hg) h
    exact ⟨hrel, hv.imp id fun ⟨h0, hv⟩ => ⟨h0, fun h' => by simp [hg] at h', fun _ => hv⟩⟩
  · obtain ⟨rfl, rfl⟩ := Prod.ext_iff.mp (Option.some.inj h).symm
    refine ⟨ionicTx_released c env skb s, ?_⟩
    rcases ionicTx_view c env skb s with ⟨h0, hv⟩ | ⟨h0, hv⟩
    · exact .inr ⟨h0, fun _ => hv, fun h' => absurd h' hg⟩
    · exact .inl ⟨by simp [h0, eio], hv⟩

/-- What one call of `ionic_start_xmit` on a regular queue does to the view: a drop or a busy
return leaves it alone; otherwise the call found room for `ndescs` slots, released nothing, and
posted the skb (linearized or not) as `ionic_tx` or `ionic_tx_tso` does. -/
theorem ionicStartXmit_view {lif : Lif} {c : TxqCfg} {env : TxEnv} {skb : Skb} {s s' : TxState}
    {r : NetdevTx} {qi : Nat} (ht : ionicStartXmitTarget lif skb = .txq qi)
    (h : ionicStartXmit lif c env skb s = some (s', r)) :
    (s'.view = s.view ∧ (r = .busy ∨ s'.released ≠ s.released)) ∨
    (r = .ok ∧ s'.released = s.released ∧
      ionicQHasSpace c.ring s.q (if skb.isGso then skb.gsoSegs else 1) = true ∧
      ∃ skb₁, (skb₁ = skb ∨ skb₁ = skb.linearize) ∧
        (skb.isGso = false → s'.view = (s.view.sent c skb.len).post c.ring (!env.xmitMore) (some skb₁)) ∧
        (skb.isGso = true → ∃ segs, SegFlags true segs ∧
          segs.map TsoSeg.bytes = (if skb.len = 0 then [] else tsoSizes skb.len skb.hdrlen skb.gsoSize) ∧
          s'.view = segs.foldl (TxView.tsoPost c skb₁) s.view)) := by
  unfold ionicStartXmit at h
  rw [ht] at h
  dsimp only at h
  split at h
  · cases h
    exact .inl ⟨rfl, .inr (List.cons_ne_self _ _)⟩
  rename_i n skb₁ s₁ hd
  obtain ⟨rfl, hskb, -, st, rfl⟩ := ionicTxDescsNeeded_some hd
  obtain ⟨hfst, st₂, stp, hm⟩ := ionicMaybeStopTx_eq c (if skb.isGso then skb.gsoSegs else 1) { s with stats := st }
  have hv₀ : (ionicMaybeStopTx c (if skb.isGso then skb.gsoSegs else 1) { s with stats := st }).2.view =
      s.view := by rw [hm]; rfl
  have hrel₀ : (ionicMaybeStopTx c (if skb.isGso then skb.gsoSegs else 1)
      { s with stats := st }).2.released = s.released := by rw [hm]
  by_cases hstop : (ionicMaybeStopTx c (if skb.isGso then skb.gsoSegs else 1) { s with stats := st }).1 = true
  · rw [if_pos hstop] at h
    cases h
    exact .inl ⟨hv₀, .inl rfl⟩
  rw [if_neg hstop] at h
  obtain ⟨⟨err, s₂⟩, hs, he⟩ := Option.map_eq_some'.mp h
  obtain ⟨hrel, hv⟩ := ionicTxSend_view hs
  have hsk : skb₁.len = skb.len ∧ skb₁.isGso = skb.isGso ∧ skb₁.hdrlen = skb.hdrlen ∧
      skb₁.gsoSize = skb.gsoSize := by
    rcases hskb with rfl | rfl <;> simp
  dsimp only at he
  split_ifs at he with herr
  · cases he
    rcases hv with ⟨-, hv⟩ | ⟨h0, -⟩
    · exact .inl ⟨hv.trans hv₀, .inr (by
        simp only [TxState.xmitDrop, TxState.release, hrel, hrel₀]; exact List.cons_ne_self _ _)⟩
    · exact absurd h0 herr
  cases he
  obtain ⟨-, st₃, stp₃, hm₃⟩ := ionicMaybeStopTx_eq c 4 s₂
  have hv₃ : (ionicMaybeStopTx c 4 s₂).2.view = s₂.view := by rw [hm₃]; rfl
  rcases hv with ⟨h0, -⟩ | ⟨-, hv₁, hv₂⟩
  · exact absurd (not_not.mp herr) h0
  refine .inr ⟨rfl, by rw [hm₃]; exact hrel.trans hrel₀, by simpa [hfst] using hstop, skb₁, hskb,
    fun hg => ?_, fun hg => ?_⟩
  · rw [hv₃, hv₁ (hsk.2.1.trans hg), hv₀, hsk.1]
  · obtain ⟨segs, hf, hb, hv⟩ := hv₂ (hsk.2.1.trans hg)
    exact ⟨segs, hf, by rw [hb, hsk.1, hsk.2.2.1, hsk.2.2.2], by rw [hv₃, hv, hv₀]⟩

/-! ## Completions -/

/-- `ionic_tx_clean` unmaps, wakes and releases, but leaves every callback argument in place. -/
theorem ionicTxClean_view (c : TxqCfg) (i : Nat) (arg : Option Skb) (s : TxState) :
    (ionicTxClean c i arg s).view = s.view := by
  unfold ionicTxClean
  split
  · exact ionicTxDescUnmapBufs_view i s
  · dsimp only
    split_ifs <;> simp only [TxState.view_release, TxState.view_withStats, TxState.view_setInfo,
      TxState.view_setStopped, ionicTxDescUnmapBufs_view]

theorem ionicTxClean_bytes (c : TxqCfg) (i : Nat) (skb : Skb) (s : TxState) :
    ((ionicTxClean c i (some skb) s).q.info i).bytes = skb.len := by
  unfold ionicTxClean
  dsimp only
  split_ifs <;> simp [TxState.release, TxState.setInfo]

/-- One pass of the completion loops completes the tail slot and counts the skb it held. -/
theorem ionicTxCleanTail_view (c : TxqCfg) (pkts bytes : Nat) (s : TxState) :
    (ionicTxCleanTail c pkts bytes s).2.2.view = s.view.complete c.ring ∧
      (ionicTxCleanTail c pkts bytes s).1 = pkts + slotPkts (s.q.info s.q.tailIdx).cbArg ∧
      (ionicTxCleanTail c pkts bytes s).2.1 = bytes + slotBytes (s.q.info s.q.tailIdx).cbArg := by
  have h₁ : ({ s.setInfo s.q.tailIdx { s.q.info s.q.tailIdx with bytes := 0 } with
      q := { (s.setInfo s.q.tailIdx { s.q.info s.q.tailIdx with bytes := 0 }).q with
        tailIdx := c.ring.next s.q.tailIdx } } : TxState).view =
      { s.view with tail := c.ring.next s.q.tailIdx } := by
    rw [← TxState.view_setInfo (i := s.q.tailIdx) (d := { s.q.info s.q.tailIdx with bytes := 0 }) rfl]; rfl
  dsimp only at h₁
  unfold ionicTxCleanTail
  dsimp only
  rw [TxState.view_setInfo_arg, ionicTxClean_view, h₁]
  refine ⟨rfl, ?_⟩
  cases h : (s.q.info s.q.tailIdx).cbArg <;> simp [h, ionicTxClean_bytes, slotPkts, slotBytes]

end IonicTxrx
