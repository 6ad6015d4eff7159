import IonicTxrx.Rx.Frags

/-!
# The pages of the receive ring

Which buffer holds which page, where in the page it stands, and which fragments of the page the
stack holds. A buffer hands the device the part of its page from `page_offset` on; every
fragment it handed up lies below that offset, because `ionic_rx_buf_recycle` moves the offset
past a fragment by `ALIGN(used, IONIC_PAGE_SPLIT_SZ)` before the buffer is posted again, and
gives the page up once the offset reaches `IONIC_PAGE_SIZE`.

`PagesInv` states this over the buffers of all slots (`B i k` is `bufs[k]` of slot `i`); each
function of the receive path keeps it, and while a slot is being filled or cleaned the
invariant is stated over the slot being worked on in place of the one in the ring. Its unique
form (a page held by one buffer at most, fragments below the holder's offset) needs
`alloc_pages` never to hand back a page still in use (`FreeUnused`): `alloc_pages` hands back
any page whose count has dropped to zero, and only the reference balance of a build with
`IONIC_PAGE_ORDER = 0` (`Rx/RefCount`) makes such a page unused.
-/

namespace IonicTxrx

/-- The buffers of all slots: `bufs[k]` of slot `i` at `slotBufs info i k`. -/
def slotBufs (info : Nat → RxDescInfo) : Nat → Nat → RxBufInfo := fun i => (info i).bufs

/-- Buffer `k` of slot `i` replaced by `bi`. -/
def updateBuf (B : Nat → Nat → RxBufInfo) (i k : Nat) (bi : RxBufInfo) : Nat → Nat → RxBufInfo :=
  Function.update B i (Function.update (B i) k bi)

theorem slotBufs_update (info : Nat → RxDescInfo) (t : Nat) (d : RxDescInfo) :
    slotBufs (Function.update info t d) = Function.update (slotBufs info) t d.bufs := by
  funext i
  by_cases h : i = t
  · subst h; simp [slotBufs]
  · simp [slotBufs, h]

theorem updateBuf_apply {B : Nat → Nat → RxBufInfo} {i k : Nat} {bi : RxBufInfo} (i' k' : Nat) :
    updateBuf B i k bi i' k' = if i' = i ∧ k' = k then bi else B i' k' := by
  by_cases h : i' = i
  · subst h; by_cases h' : k' = k <;> simp [updateBuf, h']
  · simp [updateBuf, h]

/-- A buffer holding a page after an update is the new one or one the update left alone. -/
theorem updateBuf_page {B : Nat → Nat → RxBufInfo} {i k : Nat} {bi : RxBufInfo} {i' k' q : Nat}
    (hp : (updateBuf B i k bi i' k').page = some q) :
    (i' = i ∧ k' = k ∧ bi.page = some q ∧ updateBuf B i k bi i' k' = bi) ∨
      (¬(i' = i ∧ k' = k) ∧ (B i' k').page = some q ∧ updateBuf B i k bi i' k' = B i' k') := by
  rw [updateBuf_apply] at hp ⊢
  split at hp
  · rename_i he; exact .inl ⟨he.1, he.2, hp, if_pos he⟩
  · rename_i hne; exact .inr ⟨hne, hp, if_neg hne⟩

theorem updateBuf_self (B : Nat → Nat → RxBufInfo) (i k : Nat) : updateBuf B i k (B i k) = B := by
  simp [updateBuf]

theorem update_updateBuf (B : Nat → Nat → RxBufInfo) (t k : Nat) (bufs : Nat → RxBufInfo) (bi : RxBufInfo) :
    Function.update B t (Function.update bufs k bi) = updateBuf (Function.update B t bufs) t k bi := by
  simp [updateBuf]

/-- The page invariant of the receive ring, for pages of `P` bytes: `next` is above every page in
use and a held page's offset lies inside it; and in the unique form (`u`), a page is held by one
buffer at most and every live fragment of a held page ends at or below the holder's offset. -/
structure PagesInv (u : Bool) (P : Nat) (B : Nat → Nat → RxBufInfo) (frags : List RxFrag) (next : Nat) : Prop where
  held_lt : ∀ i k p, (B i k).page = some p → p < next
  held_unique : u → ∀ i k i' k' p, (B i k).page = some p → (B i' k').page = some p → i = i' ∧ k = k'
  frag_lt : ∀ f ∈ frags, f.page < next
  off_lt : ∀ i k p, (B i k).page = some p → (B i k).pageOffset < P
  frag_below : u → ∀ i k, ∀ f ∈ frags, (B i k).page = some f.page → f.off + f.len ≤ (B i k).pageOffset

/-- Every page `alloc_pages` may hand back, one below `next` with no reference left, is held by no
buffer and used by no live fragment. -/
def FreeUnused (B : Nat → Nat → RxBufInfo) (frags : List RxFrag) (refs : Nat → Int) (next : Nat) : Prop :=
  ∀ p < next, refs p = 0 → (∀ i k, (B i k).page ≠ some p) ∧ ∀ f ∈ frags, f.page ≠ p

/-- A page no buffer holds is held by none after a buffer takes another page. -/
theorem unused_updateBuf {B : Nat → Nat → RxBufInfo} {p i k : Nat} {bi : RxBufInfo}
    (hB : ∀ i k, (B i k).page ≠ some p) (hbi : bi.page ≠ some p) : ∀ i' k', (updateBuf B i k bi i' k').page ≠ some p :=
  fun i' k' => by
    rw [updateBuf_apply]
    split
    exacts [hbi, hB i' k']

namespace PagesInv

variable {u : Bool} {P : Nat} {B : Nat → Nat → RxBufInfo} {fs : List RxFrag} {n : Nat}

theorem init (u : Bool) (P : Nat) : PagesInv u P (slotBufs fun _ => RxDescInfo.empty) [] 0 := by
  constructor <;> intros <;> simp_all [slotBufs, RxDescInfo.empty, RxBufInfo.empty]

/-- A page at or above `next` is unused. -/
theorem unused_of_le (h : PagesInv u P B fs n) {p : Nat} (hp : n ≤ p) :
    (∀ i k, (B i k).page ≠ some p) ∧ ∀ f ∈ fs, f.page ≠ p :=
  ⟨fun i k hb => absurd (h.held_lt i k p hb) (not_lt.mpr hp),
    fun f hf he => absurd (he ▸ h.frag_lt f hf) (not_lt.mpr hp)⟩

/-- A page with no reference is unused, whether it was freed or never handed out. -/
theorem unused_of_free (h : PagesInv u P B fs n) {refs : Nat → Int} (hU : u → FreeUnused B fs refs n) (hu : u)
    {p : Nat} (hp : refs p = 0) : (∀ i k, (B i k).page ≠ some p) ∧ ∀ f ∈ fs, f.page ≠ p := by
  rcases lt_or_le p n with hlt | hle
  · exact hU hu p hlt hp
  · exact h.unused_of_le hle

/-- Fewer live fragments. -/
theorem subset (h : PagesInv u P B fs n) {fs' : List RxFrag} (hs : ∀ f ∈ fs', f ∈ fs) : PagesInv u P B fs' n :=
  { h with
    frag_lt := fun f hf => h.frag_lt f (hs f hf)
    frag_below := fun hu i k f hf => h.frag_below hu i k f (hs f hf) }

/-- A later fresh page. -/
theorem mono (h : PagesInv u P B fs n) {n' : Nat} (hn : n ≤ n') : PagesInv u P B fs n' :=
  { h with
    held_lt := fun i k p hp => Nat.lt_of_lt_of_le (h.held_lt i k p hp) hn
    frag_lt := fun f hf => Nat.lt_of_lt_of_le (h.frag_lt f hf) hn }

/-- A buffer that gives up its page, or never had one. -/
theorem update_none (h : PagesInv u P B fs n) {i k : Nat} {bi : RxBufInfo} (hbi : bi.page = none) :
    PagesInv u P (updateBuf B i k bi) fs n := by
  have hB : ∀ {i' k' q}, (updateBuf B i k bi i' k').page = some q →
      (B i' k').page = some q ∧ updateBuf B i k bi i' k' = B i' k' := fun hp => by
    rcases updateBuf_page hp with ⟨-, -, h', -⟩ | ⟨-, h'⟩
    · rw [hbi] at h'; cases h'
    · exact h'
  refine ⟨fun i' k' q hp => h.held_lt i' k' q (hB hp).1,
    fun hu i₁ k₁ i₂ k₂ q h₁ h₂ => h.held_unique hu i₁ k₁ i₂ k₂ q (hB h₁).1 (hB h₂).1, h.frag_lt,
    fun i' k' q hp => ?_, fun hu i' k' f hf hp => ?_⟩
  · rw [(hB hp).2]; exact h.off_lt i' k' q (hB hp).1
  · rw [(hB hp).2]; exact h.frag_below hu i' k' f hf (hB hp).1

/-- A buffer that takes page `p` from `alloc_pages`: the never-used page `n`, or a page below it
that, for the unique form, nothing uses. -/
theorem update_alloc (h : PagesInv u P B fs n) {i k p : Nat} {bi : RxBufInfo} (hbi : bi.page = some p)
    (ho : bi.pageOffset < P) (hp : p = n ∨ p < n ∧ (u → (∀ i k, (B i k).page ≠ some p) ∧ ∀ f ∈ fs, f.page ≠ p)) :
    PagesInv u P (updateBuf B i k bi) fs (max n (p + 1)) := by
  -- in the unique form nothing else uses `p`
  have hfree : u → (∀ i k, (B i k).page ≠ some p) ∧ ∀ f ∈ fs, f.page ≠ p := fun hu => by
    rcases hp with rfl | ⟨-, hp⟩
    exacts [h.unused_of_le le_rfl, hp hu]
  refine ⟨fun i' k' q hq => ?_, fun hu i₁ k₁ i₂ k₂ q h₁ h₂ => ?_, fun f hf => lt_max_of_lt_left (h.frag_lt f hf),
    fun i' k' q hq => ?_, fun hu i' k' f hf hq => ?_⟩
  · rcases updateBuf_page hq with ⟨-, -, h', -⟩ | ⟨-, h', -⟩
    · rw [hbi] at h'; cases h'; exact lt_max_of_lt_right (Nat.lt_succ_self _)
    · exact lt_max_of_lt_left (h.held_lt _ _ _ h')
  · rcases updateBuf_page h₁ with ⟨rfl, rfl, h₁', -⟩ | ⟨-, h₁', -⟩ <;>
      rcases updateBuf_page h₂ with ⟨rfl, rfl, h₂', -⟩ | ⟨-, h₂', -⟩
    · exact ⟨rfl, rfl⟩
    · rw [hbi] at h₁'; cases h₁'; exact ((hfree hu).1 _ _ h₂').elim
    · rw [hbi] at h₂'; cases h₂'; exact ((hfree hu).1 _ _ h₁').elim
    · exact h.held_unique hu _ _ _ _ q h₁' h₂'
  · rcases updateBuf_page hq with ⟨-, -, -, he⟩ | ⟨-, h', he⟩ <;> rw [he]
    · exact ho
    · exact h.off_lt i' k' q h'
  · rcases updateBuf_page hq with ⟨-, -, h', -⟩ | ⟨-, h', he⟩
    · rw [hbi, Option.some.injEq] at h'
      exact ((hfree hu).2 f hf h'.symm).elim
    · rw [he]; exact h.frag_below hu i' k' f hf h'

/-- Buffer `bufs[k]` of slot `i`, `bi₀` holding page `p`, hands up a fragment of `l` bytes from its
offset and then either gives the page up or keeps it with its offset moved past the fragment. -/
theorem update_recycle (h : PagesInv u P B fs n) {i k p l : Nat} {bi₀ : RxBufInfo} (hB : B i k = bi₀)
    (hp : bi₀.page = some p) {bi : RxBufInfo}
    (hbi : bi.page = none ∨ bi.page = some p ∧ bi₀.pageOffset + l ≤ bi.pageOffset ∧ bi.pageOffset < P) :
    PagesInv u P (updateBuf B i k bi) (fs ++ [⟨p, bi₀.pageOffset, l⟩]) n := by
  subst hB
  have hpn := h.held_lt i k p hp
  -- in the unique form the new fragment's page is held by no other buffer
  have hother : u → ∀ i' k', (B i' k').page = some p → ¬(i' = i ∧ k' = k) → False := fun hu _ _ h' hne =>
    hne (h.held_unique hu _ _ _ _ p h' hp)
  have hmem : ∀ {f : RxFrag}, f ∈ fs ++ [⟨p, (B i k).pageOffset, l⟩] → f ∈ fs ∨ f = ⟨p, (B i k).pageOffset, l⟩ := by
    intro f hf; simpa using hf
  refine ⟨fun i' k' q hq => ?_, fun hu i₁ k₁ i₂ k₂ q h₁ h₂ => ?_, fun f hf => ?_, fun i' k' q hq => ?_,
    fun hu i' k' f hf hq => ?_⟩
  · rcases updateBuf_page hq with ⟨-, -, h', -⟩ | ⟨-, h', -⟩
    · rcases hbi with hb | ⟨hb, -⟩ <;> rw [hb] at h' <;> cases h'
      exact hpn
    · exact h.held_lt _ _ _ h'
  · rcases updateBuf_page h₁ with ⟨rfl, rfl, h₁', -⟩ | ⟨hne₁, h₁', -⟩ <;>
      rcases updateBuf_page h₂ with ⟨rfl, rfl, h₂', -⟩ | ⟨hne₂, h₂', -⟩
    · exact ⟨rfl, rfl⟩
    · rcases hbi with hb | ⟨hb, -⟩ <;> rw [hb] at h₁' <;> cases h₁'; exact (hother hu _ _ h₂' hne₂).elim
    · rcases hbi with hb | ⟨hb, -⟩ <;> rw [hb] at h₂' <;> cases h₂'; exact (hother hu _ _ h₁' hne₁).elim
    · exact h.held_unique hu _ _ _ _ q h₁' h₂'
  · rcases hmem hf with hf | rfl
    · exact h.frag_lt f hf
    · exact hpn
  · rcases updateBuf_page hq with ⟨-, -, h', he⟩ | ⟨-, h', he⟩ <;> rw [he]
    · rcases hbi with hb | ⟨-, -, hb⟩
      · rw [hb] at h'; cases h'
      · exact hb
    · exact h.off_lt _ _ _ h'
  · rcases updateBuf_page hq with ⟨rfl, rfl, h', he⟩ | ⟨hne, h', he⟩ <;> rw [he]
    · rcases hbi with hb | ⟨hb, hle, -⟩
      · rw [hb] at h'; cases h'
      · rw [hb, Option.some_inj] at h'
        rcases hmem hf with hf | rfl
        · have := h.frag_below hu i' k' f hf (by rw [hp, h']); omega
        · exact hle
    · rcases hmem hf with hf | rfl
      · exact h.frag_below hu i' k' f hf h'
      · exact (hother hu _ _ h' hne).elim

end PagesInv

theorem ionicQPost_id_info {α : Type} (r : Ring) (q : Queue α) (bd : Bool) : (ionicQPost r q bd id).info = q.info := by
  funext i
  rw [ionicQPost_info]
  split <;> simp_all

/-- The page invariant of a receive queue, with pages of `P` bytes. -/
def RxState.PagesOk (u : Bool) (P : Nat) (s : RxState) : Prop := PagesInv u P (slotBufs s.q.info) s.frags s.nextPage

/-- Every page `alloc_pages` may hand back to the queue is unused. -/
def RxState.FreeUnused (s : RxState) : Prop := IonicTxrx.FreeUnused (slotBufs s.q.info) s.frags s.refs s.nextPage

/-- The page invariant while a fill is under way, with the slots `B` and the counts and fresh page
of `s`: in the unique form, every page `alloc_pages` may hand back is unused. -/
def FillOk (u : Bool) (P : Nat) (B : Nat → Nat → RxBufInfo) (fs : List RxFrag) (s : RxState) : Prop :=
  PagesInv u P B fs s.nextPage ∧ (u → FreeUnused B fs s.refs s.nextPage)

/-- The slot and state the SG loop of the fill leaves, whether it went through or not. -/
def sgResult : Except (RxDescInfo × RxState) (Nat × RxDescInfo × RxState) → RxDescInfo × RxState
  | .error r => r
  | .ok (_, r) => r

/-! ## The fill -/

section Fill

variable {u : Bool} {b : RxBuild} {env : RxEnv} {ns : Nat} {B : Nat → Nat → RxBufInfo} {fs : List RxFrag}

/-- The buffer step of the fill keeps the invariant: a buffer that takes a page takes the one
`alloc_pages` hands out, and no page loses its last reference. -/
theorem FillOk.fillBuf {s : RxState} (h : FillOk u b.pageSize B fs s) {i k : Nat} {ok : Bool}
    {bi' : RxBufInfo} {s' : RxState} (hf : ionicRxFillBuf b env ns (B i k) s = (ok, bi', s')) :
    FillOk u b.pageSize (updateBuf B i k bi') fs s' := by
  obtain ⟨hP, hU⟩ := h
  obtain ⟨-, -, hle, ⟨rfl, rfl⟩ | ⟨hp, hr⟩ | ⟨-, hp, ho, hn, hr, hr'⟩⟩ := ionicRxFillBuf_cases hf
  · rw [updateBuf_self]; exact ⟨hP, hU⟩
  · refine ⟨(hP.update_none hp).mono hle, fun hu q _ h0 => ?_⟩
    obtain ⟨hB, hF⟩ := hP.unused_of_free hU hu (by rwa [hr] at h0)
    exact ⟨unused_updateBuf hB (by simp [hp]), hF⟩
  · have hP' := hP.update_alloc (i := i) (k := k) hp (by rw [ho]; exact b.pageSize_pos)
      ((env.allocPage_cases s).imp_right fun ⟨hlt, h0⟩ => ⟨hlt, fun hu => hU hu _ hlt h0⟩)
    refine ⟨by rw [hn]; exact hP', fun hu q _ h0 => ?_⟩
    -- the page handed out has a reference now; every other page the count it had
    have hq : q ≠ env.allocPage s := fun he => hr (he ▸ h0)
    obtain ⟨hB, hF⟩ := hP.unused_of_free hU hu ((hr' q hq).symm.trans h0)
    exact ⟨unused_updateBuf hB (by rw [hp]; exact fun he => hq (Option.some.inj he).symm), hF⟩

theorem ionicRxFillSg_frame :
    ∀ {fuel j remain : Nat} {d : RxDescInfo} {s : RxState},
      (sgResult (ionicRxFillSg b env ns fuel j remain d s)).2.q = s.q ∧
        (sgResult (ionicRxFillSg b env ns fuel j remain d s)).2.frags = s.frags
  | 0, _, _, _, _ => ⟨rfl, rfl⟩
  | fuel + 1, j, remain, d, s => by
    rw [ionicRxFillSg]
    split
    · exact ⟨rfl, rfl⟩
    rcases hb : ionicRxFillBuf b env ns (d.bufs (1 + j)) s with ⟨ok, bi, s₁⟩
    obtain ⟨hq, hf, -⟩ := ionicRxFillBuf_cases hb
    cases ok
    · exact ⟨hq, hf⟩
    · exact ⟨ionicRxFillSg_frame.1.trans hq, ionicRxFillSg_frame.2.trans hf⟩

theorem FillOk.fillSg {t : Nat} :
    ∀ {fuel j remain : Nat} {d : RxDescInfo} {s : RxState},
      FillOk u b.pageSize (Function.update B t d.bufs) fs s →
      FillOk u b.pageSize (Function.update B t (sgResult (ionicRxFillSg b env ns fuel j remain d s)).1.bufs) fs
        (sgResult (ionicRxFillSg b env ns fuel j remain d s)).2
  | 0, _, _, _, _, h => h
  | fuel + 1, j, remain, d, s, h => by
    rw [ionicRxFillSg]
    split
    · exact h
    rcases hb : ionicRxFillBuf b env ns (d.bufs (1 + j)) s with ⟨ok, bi, s₁⟩
    have h₁ : FillOk u b.pageSize (Function.update B t (Function.update d.bufs (1 + j) bi)) fs s₁ := by
      rw [update_updateBuf]
      exact h.fillBuf (i := t) (by rw [Function.update_same]; exact hb)
    cases ok
    · exact h₁
    · exact FillOk.fillSg h₁

theorem ionicRxFillSlot_frame {c : RxqCfg} {len : Nat} {d₀ d : RxDescInfo} {s s' : RxState} {ok : Bool}
    (hf : ionicRxFillSlot b c env len ns d₀ s = (ok, d, s')) : s'.q = s.q ∧ s'.frags = s.frags := by
  rw [ionicRxFillSlot] at hf
  rcases hb : ionicRxFillBuf b env ns (d₀.bufs 0) s with ⟨ok₀, bi, s₁⟩
  rw [hb] at hf
  obtain ⟨hq₁, hf₁, -⟩ := ionicRxFillBuf_cases hb
  cases ok₀
  · simp only [Bool.not_false, ↓reduceIte, Prod.mk.injEq] at hf
    obtain ⟨-, -, rfl⟩ := hf
    exact ⟨hq₁, hf₁⟩
  simp only [Bool.not_true, Bool.false_eq_true, ↓reduceIte] at hf
  obtain ⟨hq₂, hf₂⟩ := @ionicRxFillSg_frame b env ns c.maxSgElems 0 (len - min (len % 2 ^ 16) (b.room bi.pageOffset))
    { d₀ with bufs := Function.update d₀.bufs 0 bi } s₁
  split at hf <;> rename_i hr <;> rw [hr] at hq₂ hf₂ <;> simp only [Prod.mk.injEq] at hf <;>
    obtain ⟨-, -, rfl⟩ := hf <;> exact ⟨hq₂.trans hq₁, hf₂.trans hf₁⟩

/-- The fill of one slot `d₀`, standing for slot `t`: the invariant holds of the slot it leaves. -/
theorem FillOk.fillSlot {c : RxqCfg} {len t : Nat} {d₀ d : RxDescInfo} {s s' : RxState} {ok : Bool}
    (h : FillOk u b.pageSize (Function.update B t d₀.bufs) fs s)
    (hf : ionicRxFillSlot b c env len ns d₀ s = (ok, d, s')) :
    FillOk u b.pageSize (Function.update B t d.bufs) fs s' := by
  rw [ionicRxFillSlot] at hf
  rcases hb : ionicRxFillBuf b env ns (d₀.bufs 0) s with ⟨ok₀, bi, s₁⟩
  rw [hb] at hf
  have h₁ : FillOk u b.pageSize (Function.update B t (Function.update d₀.bufs 0 bi)) fs s₁ := by
    rw [update_updateBuf]
    exact h.fillBuf (i := t) (by rw [Function.update_same]; exact hb)
  cases ok₀
  · simp only [Bool.not_false, ↓reduceIte, Prod.mk.injEq] at hf
    obtain ⟨-, rfl, rfl⟩ := hf
    exact h₁
  simp only [Bool.not_true, Bool.false_eq_true, ↓reduceIte] at hf
  have hsg := @FillOk.fillSg u b env ns B fs t c.maxSgElems 0 (len - min (len % 2 ^ 16) (b.room bi.pageOffset))
    { d₀ with bufs := Function.update d₀.bufs 0 bi } s₁ h₁
  split at hf
  · rename_i d₂ s₂ hr
    rw [hr] at hsg
    simp only [Prod.mk.injEq] at hf
    obtain ⟨-, rfl, rfl⟩ := hf
    exact hsg
  · rename_i j' d₂ s₂ hr
    rw [hr] at hsg
    simp only [Prod.mk.injEq] at hf
    obtain ⟨-, rfl, rfl⟩ := hf
    -- the sentinel element leaves the buffers alone
    have hbufs : (if j' < c.maxSgElems then { d₂ with sgElems := Function.update d₂.sgElems j' (0, 0) }
        else d₂).bufs = d₂.bufs := by split <;> rfl
    show FillOk u _ (Function.update B t (if j' < c.maxSgElems then _ else d₂).bufs) fs s₂
    rw [hbufs]
    exact hsg

theorem FillOk.fillLoop {c : RxqCfg} {len : Nat} :
    ∀ {i : Nat} {s : RxState}, FillOk u b.pageSize (slotBufs s.q.info) s.frags s →
      FillOk u b.pageSize (slotBufs (ionicRxFillLoop b c env len ns i s).2.q.info)
        (ionicRxFillLoop b c env len ns i s).2.frags (ionicRxFillLoop b c env len ns i s).2
  | 0, _, h => h
  | i + 1, s, h => by
    rw [ionicRxFillLoop]
    rcases hf : ionicRxFillSlot b c env len ns (s.q.info s.q.headIdx) s with ⟨ok, d, s'⟩
    have h₀ : Function.update (slotBufs s.q.info) s.q.headIdx (s.q.info s.q.headIdx).bufs = slotBufs s.q.info :=
      Function.update_eq_self _ _
    have hP := FillOk.fillSlot (B := slotBufs s.q.info) (by rw [h₀]; exact h) hf
    obtain ⟨hq, hfr⟩ := ionicRxFillSlot_frame hf
    -- the slot filled takes the place of slot `head_idx`, whether it is posted or not
    have hB : FillOk u b.pageSize (slotBufs (Function.update s'.q.info s.q.headIdx d)) s'.frags s' := by
      rw [slotBufs_update, hq, hfr]; exact hP
    cases ok
    · exact hB
    · simp only [Bool.not_true, Bool.false_eq_true, ↓reduceIte]
      refine FillOk.fillLoop ?_
      show FillOk u b.pageSize (slotBufs (ionicQPost c.ring (s'.q.setInfo s.q.headIdx d) false id).info) s'.frags s'
      rw [ionicQPost_id_info]
      exact hB

/-- `ionic_rx_fill` keeps the page invariant; its unique form when every page `alloc_pages` may
hand back is unused. -/
theorem RxState.PagesOk.fill {c : RxqCfg} {lif : RxLif} {s : RxState} (h : s.PagesOk u b.pageSize)
    (hU : u → s.FreeUnused) : (ionicRxFill b c lif env s).PagesOk u b.pageSize := by
  have hl := @FillOk.fillLoop u b env (b.pageSize / align (lif.mtu + ethHlen + vlanHlen) b.splitSz) c
    (lif.mtu + ethHlen + vlanHlen) (ionicQSpaceAvail c.ring s.q) s ⟨h, hU⟩
  unfold ionicRxFill
  dsimp only
  rcases he : ionicRxFillLoop b c env (lif.mtu + ethHlen + vlanHlen)
    (b.pageSize / align (lif.mtu + ethHlen + vlanHlen) b.splitSz) (ionicQSpaceAvail c.ring s.q) s with ⟨done, s'⟩
  rw [he] at hl
  cases done <;> exact hl.1

end Fill

/-! ## Completions -/

section Clean

variable {u : Bool} {b : RxBuild} {mtu : Nat} {env : RxEnv} {B : Nat → Nat → RxBufInfo} {t : Nat}

theorem ionicRxFragsLoop_frame :
    ∀ {i k len : Nat} {d : RxDescInfo} {skb : List RxFrag} {s : RxState},
      (ionicRxFragsLoop b mtu env i k len d skb s).2.2.q = s.q ∧
        (ionicRxFragsLoop b mtu env i k len d skb s).2.2.frags = s.frags ∧
        (ionicRxFragsLoop b mtu env i k len d skb s).2.2.nextPage = s.nextPage
  | 0, _, _, _, _, _ => ⟨rfl, rfl, rfl⟩
  | i + 1, k, len, d, skb, s => by
    rw [ionicRxFragsLoop]
    split
    · simp
    rename_i p _
    dsimp only
    rcases hr : ionicRxBufRecycle b mtu (env.reusable p) p (d.bufs k) (min len (b.room (d.bufs k).pageOffset)) s
      with ⟨keep, bi', s₁⟩
    obtain ⟨hq, hf, hn, -⟩ := ionicRxBufRecycle_spec hr
    cases keep
    · exact ⟨ionicRxFragsLoop_frame.1.trans hq, ionicRxFragsLoop_frame.2.1.trans hf,
        ionicRxFragsLoop_frame.2.2.trans hn⟩
    · exact ⟨ionicRxFragsLoop_frame.1.trans hq, ionicRxFragsLoop_frame.2.1.trans hf,
        ionicRxFragsLoop_frame.2.2.trans hn⟩

/-- The loop of `ionic_rx_frags` over slot `d`, standing for slot `t`, with the fragments `skb`
attached so far counted as live: the invariant holds of the slot it leaves and of the fragments
of the skb it hands back, if any. -/
theorem PagesInv.fragsLoop :
    ∀ {i k len : Nat} {d : RxDescInfo} {skb : List RxFrag} {s : RxState},
      PagesInv u b.pageSize (Function.update B t d.bufs) (s.frags ++ skb) s.nextPage →
      PagesInv u b.pageSize (Function.update B t (ionicRxFragsLoop b mtu env i k len d skb s).1.bufs)
        (s.frags ++ (ionicRxFragsLoop b mtu env i k len d skb s).2.1.getD []) s.nextPage
  | 0, _, _, _, _, _, h => h
  | i + 1, k, len, d, skb, s, h => by
    rw [ionicRxFragsLoop]
    split
    · exact h.subset fun f hf => List.mem_append_left _ (by simpa using hf)
    rename_i p hp
    dsimp only
    rcases hr : ionicRxBufRecycle b mtu (env.reusable p) p (d.bufs k) (min len (b.room (d.bufs k).pageOffset)) s
      with ⟨keep, bi', s₁⟩
    obtain ⟨hq, hf, hn, hpg, -, hkeep⟩ := ionicRxBufRecycle_spec hr
    have hrec : ∀ {bi : RxBufInfo}, bi.page = none ∨ bi.page = some p ∧
        (d.bufs k).pageOffset + min len (b.room (d.bufs k).pageOffset) ≤ bi.pageOffset ∧ bi.pageOffset < b.pageSize →
        PagesInv u b.pageSize (Function.update B t (Function.update d.bufs k bi))
          (s.frags ++ (skb ++ [⟨p, (d.bufs k).pageOffset, min len (b.room (d.bufs k).pageOffset)⟩])) s.nextPage :=
      fun hbi => by
        rw [update_updateBuf, ← List.append_assoc]
        exact h.update_recycle (congrFun (Function.update_same _ _ _) k) hp hbi
    -- the rest of the loop, on the state the recycle leaves
    have hrest : ∀ (bi : RxBufInfo) (s₂ : RxState), s₂.frags = s.frags → s₂.nextPage = s.nextPage →
        (bi.page = none ∨ bi.page = some p ∧ (d.bufs k).pageOffset + min len (b.room (d.bufs k).pageOffset) ≤
          bi.pageOffset ∧ bi.pageOffset < b.pageSize) →
        PagesInv u b.pageSize (Function.update B t (ionicRxFragsLoop b mtu env i (k + 1)
            (len - min len (b.room (d.bufs k).pageOffset)) { d with bufs := Function.update d.bufs k bi }
            (skb ++ [⟨p, (d.bufs k).pageOffset, min len (b.room (d.bufs k).pageOffset)⟩]) s₂).1.bufs)
          (s.frags ++ (ionicRxFragsLoop b mtu env i (k + 1) (len - min len (b.room (d.bufs k).pageOffset))
            { d with bufs := Function.update d.bufs k bi }
            (skb ++ [⟨p, (d.bufs k).pageOffset, min len (b.room (d.bufs k).pageOffset)⟩]) s₂).2.1.getD [])
          s.nextPage := by
      intro bi s₂ hf₂ hn₂ hbi
      have := @PagesInv.fragsLoop i (k + 1) (len - min len (b.room (d.bufs k).pageOffset))
        { d with bufs := Function.update d.bufs k bi }
        (skb ++ [⟨p, (d.bufs k).pageOffset, min len (b.room (d.bufs k).pageOffset)⟩]) s₂
        (by rw [hf₂, hn₂]; exact hrec hbi)
      rwa [hf₂, hn₂] at this
    cases keep
    · simp only [Bool.false_eq_true, ↓reduceIte]
      exact hrest _ _ hf hn (.inl rfl)
    · obtain ⟨hoff, hlt⟩ := hkeep rfl
      simp only [↓reduceIte]
      exact hrest _ _ hf hn (.inr ⟨by rw [hpg, hp], by
        rw [hoff]; exact Nat.add_le_add_left (le_align _ b.splitSz_pos) _, hlt⟩)

theorem ionicRxFrags_frame {d : RxDescInfo} {comp : RxComp} {s : RxState} :
    (ionicRxFrags b mtu env d comp s).2.2.q = s.q ∧ (ionicRxFrags b mtu env d comp s).2.2.frags = s.frags ∧
      (ionicRxFrags b mtu env d comp s).2.2.nextPage = s.nextPage := by
  unfold ionicRxFrags
  split
  · exact ⟨rfl, rfl, rfl⟩
  · exact ionicRxFragsLoop_frame

theorem PagesInv.frags {d : RxDescInfo} {comp : RxComp} {s : RxState}
    (h : PagesInv u b.pageSize (Function.update B t d.bufs) s.frags s.nextPage) :
    PagesInv u b.pageSize (Function.update B t (ionicRxFrags b mtu env d comp s).1.bufs)
      (s.frags ++ (ionicRxFrags b mtu env d comp s).2.1.getD []) s.nextPage := by
  unfold ionicRxFrags
  split
  · simpa using h
  · exact PagesInv.fragsLoop (by simpa using h)

theorem ionicRxCopybreak_frame {env : RxEnv} {d : RxDescInfo} {comp : RxComp} {s : RxState} :
    (ionicRxCopybreak env d comp s).2.q = s.q ∧ (ionicRxCopybreak env d comp s).2.frags = s.frags ∧
      (ionicRxCopybreak env d comp s).2.nextPage = s.nextPage := by
  unfold ionicRxCopybreak
  split <;> exact ⟨rfl, rfl, rfl⟩

theorem ionicRxClean_q {c : RxqCfg} {lif : RxLif} {d : RxDescInfo} {comp : RxComp} {s : RxState} :
    (ionicRxClean b c lif env d comp s).2.q = s.q := by
  unfold ionicRxClean
  split
  · rfl
  split
  · rfl
  dsimp only
  split
  · split <;> rename_i he <;> exact (congrArg (·.2.q) he).symm.trans ionicRxCopybreak_frame.1
  · split <;> rename_i he <;> exact (congrArg (·.2.2.q) he).symm.trans (@ionicRxFrags_frame b lif.mtu env _ _ _).1

/-- `ionic_rx_clean` of slot `d`, standing for slot `t`: the invariant holds of the slot it leaves
and of the fragments the stack holds after it. -/
theorem PagesInv.clean {c : RxqCfg} {lif : RxLif} {d : RxDescInfo} {comp : RxComp} {s : RxState}
    (h : PagesInv u b.pageSize (Function.update B t d.bufs) s.frags s.nextPage) :
    PagesInv u b.pageSize (Function.update B t (ionicRxClean b c lif env d comp s).1.bufs)
      (ionicRxClean b c lif env d comp s).2.frags (ionicRxClean b c lif env d comp s).2.nextPage := by
  unfold ionicRxClean
  split
  · exact h
  split
  · exact h
  dsimp only
  split
  · obtain ⟨-, hf, hn⟩ := @ionicRxCopybreak_frame env d comp
      { s with stats := { s.stats with pkts := s.stats.pkts + 1, bytes := s.stats.bytes + comp.len } }
    split <;> rename_i s' he <;> rw [he] at hf hn <;> (simp only at hf hn ⊢; rw [hf, hn]; exact h)
  · have hP := @PagesInv.frags u b lif.mtu env B t d comp
      { s with stats := { s.stats with pkts := s.stats.pkts + 1, bytes := s.stats.bytes + comp.len } } h
    obtain ⟨-, hf, hn⟩ := @ionicRxFrags_frame b lif.mtu env d comp
      { s with stats := { s.stats with pkts := s.stats.pkts + 1, bytes := s.stats.bytes + comp.len } }
    split <;> rename_i d' r s' he <;> rw [he] at hP hf hn <;> simp only at hP
    · rw [hf, hn]; simpa using hP
    · rw [hf, hn]; exact hP

theorem RxState.PagesOk.service {c : RxqCfg} {lif : RxLif} {comp : RxComp} {s : RxState}
    (h : s.PagesOk u b.pageSize) : (ionicRxService b c lif env comp s).2.PagesOk u b.pageSize := by
  unfold ionicRxService
  split
  · exact h
  split
  · exact h
  split
  · exact h
  dsimp only
  have h₀ : Function.update (slotBufs s.q.info) s.q.tailIdx (s.q.info s.q.tailIdx).bufs = slotBufs s.q.info :=
    Function.update_eq_self _ _
  have hP := @PagesInv.clean u b env (slotBufs s.q.info) s.q.tailIdx c lif (s.q.info s.q.tailIdx) comp
    { s with q := { s.q with tailIdx := c.ring.next s.q.tailIdx } } (by rw [h₀]; exact h)
  rcases hc : ionicRxClean b c lif env (s.q.info s.q.tailIdx) comp
    { s with q := { s.q with tailIdx := c.ring.next s.q.tailIdx } } with ⟨d, s'⟩
  have hq := @ionicRxClean_q b env c lif (s.q.info s.q.tailIdx) comp
    { s with q := { s.q with tailIdx := c.ring.next s.q.tailIdx } }
  rw [hc] at hP hq
  show PagesInv u b.pageSize (slotBufs (Function.update s'.q.info s.q.tailIdx d)) s'.frags s'.nextPage
  rw [slotBufs_update, hq]
  exact hP

end Clean

/-! ## Teardown and the stack -/

section Empty

variable {u : Bool} {b : RxBuild} {B : Nat → Nat → RxBufInfo} {t : Nat} {fs : List RxFrag}

theorem PagesInv.emptyBufs :
    ∀ (js : List Nat) (ds : RxDescInfo × RxState),
      PagesInv u b.pageSize (Function.update B t ds.1.bufs) fs ds.2.nextPage →
      PagesInv u b.pageSize (Function.update B t (js.foldl (ionicRxEmptyBuf b) ds).1.bufs) fs
          (js.foldl (ionicRxEmptyBuf b) ds).2.nextPage ∧
        (js.foldl (ionicRxEmptyBuf b) ds).2.q = ds.2.q ∧ (js.foldl (ionicRxEmptyBuf b) ds).2.frags = ds.2.frags
  | [], _, h => ⟨h, rfl, rfl⟩
  | j :: js, ds, h => by
    rcases hf : ionicRxPageFree b (ds.1.bufs j) ds.2 with ⟨bi, s'⟩
    obtain ⟨hnone, hq, hfr, hn⟩ := ionicRxPageFree_spec hf
    have h₁ : PagesInv u b.pageSize (Function.update B t (ionicRxEmptyBuf b ds j).1.bufs) fs
        (ionicRxEmptyBuf b ds j).2.nextPage := by
      simp only [ionicRxEmptyBuf, hf]
      rw [update_updateBuf, hn]
      exact h.update_none hnone
    have hstep : (ionicRxEmptyBuf b ds j).2.q = ds.2.q ∧ (ionicRxEmptyBuf b ds j).2.frags = ds.2.frags := by
      simp only [ionicRxEmptyBuf, hf]; exact ⟨hq, hfr⟩
    obtain ⟨hP, hq', hf'⟩ := PagesInv.emptyBufs js _ h₁
    rw [List.foldl_cons]
    exact ⟨hP, hq'.trans hstep.1, hf'.trans hstep.2⟩

theorem RxState.PagesOk.emptySlot {s : RxState} (h : s.PagesOk u b.pageSize) (i : Nat) :
    (ionicRxEmptySlot b s i).PagesOk u b.pageSize := by
  have h₀ : Function.update (slotBufs s.q.info) i (s.q.info i).bufs = slotBufs s.q.info :=
    Function.update_eq_self _ _
  obtain ⟨hP, hq, hf⟩ := @PagesInv.emptyBufs u b (slotBufs s.q.info) i s.frags (List.range (b.maxSgElems + 1))
    (s.q.info i, s) (by rw [h₀]; exact h)
  unfold ionicRxEmptySlot ionicRxEmptyBufs
  rcases he : List.foldl (ionicRxEmptyBuf b) (s.q.info i, s) (List.range (b.maxSgElems + 1)) with ⟨d, s'⟩
  rw [he] at hP hq hf
  show PagesInv u b.pageSize (slotBufs (Function.update s'.q.info i { d with nbufs := 0 })) s'.frags s'.nextPage
  rw [slotBufs_update, hq, hf]
  exact hP

theorem RxState.PagesOk.empty {c : RxqCfg} {s : RxState} (h : s.PagesOk u b.pageSize) :
    (ionicRxEmpty b c s).PagesOk u b.pageSize := by
  show ((List.range c.ring.numDescs).foldl (ionicRxEmptySlot b) s).PagesOk u b.pageSize
  induction List.range c.ring.numDescs generalizing s with
  | nil => exact h
  | cons i is ih => exact ih (h.emptySlot i)

end Empty

theorem RxState.PagesOk.stackFree {u : Bool} {P : Nat} {s : RxState} (h : s.PagesOk u P) (f : RxFrag) :
    (s.stackFree f).PagesOk u P := by
  unfold RxState.stackFree
  split
  · exact h.subset fun _ hg => List.mem_of_mem_erase hg
  · exact h

end IonicTxrx
