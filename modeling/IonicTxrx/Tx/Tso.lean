import IonicTxrx.Tx.Map

/-!
# TSO segmentation

The loop of `ionic_tx_tso` that cuts a mapped packet into descriptors: the outer loop posts one
descriptor per pass, the first carrying `min(len, hdrlen + mss)` bytes and each later one
`min(tso_rem, mss)`; the inner loop fills a descriptor from the buffers `bufs[0 .. nr_frags]`,
taking the main buffer from the first chunk and an SG element from each further chunk.

The C loops carry no bound; the model runs them with a pass budget (`fuel`) and answers `none`
when the budget runs out or when the inner loop would read a buffer past `bufs[nr_frags]`.
`ionicTxTsoSegments_spec` shows that neither happens for a GSO packet and that the chunks are the
buffers cut at the descriptor sizes (`cutBufs`).
-/

namespace IonicTxrx

/-- The variables `ionic_tx_tso`'s loops thread from one pass to the next. -/
structure TsoCursor where
  /-- `frag_addr`: address of the next unsent byte of the current buffer. -/
  fragAddr : Nat
  /-- `frag_rem`: unsent bytes left in the current buffer. -/
  fragRem : Nat
  /-- The buffers `buf_info` has not reached yet (up to `bufs[nr_frags]`). -/
  bufs : List TxBufInfo
  /-- `tso_rem`: bytes not yet placed in a descriptor. -/
  tsoRem : Nat
  /-- `seg_rem`: bytes still to place in the current descriptor. -/
  segRem : Nat

namespace TsoCursor

/-- "If the fragment is exhausted then move to the next one": `none` when there is none. -/
def grab (c : TsoCursor) : Option TsoCursor :=
  if c.fragRem = 0 then
    match c.bufs with
    | [] => none
    | b :: rest => some { c with fragAddr := b.dmaAddr, fragRem := b.len, bufs := rest }
  else some c

/-- Place `chunk` bytes of the current buffer. -/
def take (c : TsoCursor) (chunk : Nat) : TsoCursor :=
  { c with fragAddr := c.fragAddr + chunk, fragRem := c.fragRem - chunk,
           tsoRem := c.tsoRem - chunk, segRem := c.segRem - chunk }

end TsoCursor

/-- The inner `while (seg_rem > 0)` loop: the (address, length) chunks of one descriptor in the
order written (main buffer first, then SG elements) and the cursor after it. -/
def ionicTxTsoSegLoop : Nat → TsoCursor → Option (List (Nat × Nat) × TsoCursor)
  | 0, _ => none
  | fuel + 1, c =>
    if c.segRem = 0 then some ([], c)
    else
      match c.grab with
      | none => none
      | some c =>
        let chunk := min c.fragRem c.segRem
        (ionicTxTsoSegLoop fuel (c.take chunk)).map fun r => ((c.fragAddr, chunk) :: r.1, r.2)

/-- One descriptor produced by the outer loop, before `ionic_tx_tso_post` writes it. -/
structure TsoSeg where
  /-- The chunks, main buffer first. -/
  chunks : List (Nat × Nat)
  /-- `start`: the first descriptor of the packet. -/
  start : Bool
  /-- `done`: `tso_rem == 0` after this descriptor. -/
  done : Bool
  deriving DecidableEq, Repr

/-- Bytes carried by a descriptor. -/
def TsoSeg.bytes (g : TsoSeg) : Nat := (g.chunks.map Prod.snd).sum

/-- The descriptor `ionic_tx_tso_post` writes for `g`: `desc_len` and each SG `len` are 16-bit
fields and `desc_nsge` an 8-bit one. With no chunk, `desc_addr`, `desc_len` and `desc_nsge`
keep their initial `0`. -/
def TsoSeg.desc (g : TsoSeg) : TxqDesc :=
  { opcode := .tso, sot := g.start, eot := g.done, nsge := (g.chunks.length - 1) % 2 ^ 8,
    addr := (g.chunks.headD (0, 0)).1, len := (g.chunks.headD (0, 0)).2 % 2 ^ 16,
    elems := g.chunks.tail.map fun ch => (ch.1, ch.2 % 2 ^ 16) }

/-- The (address, length) pairs the device reads for a descriptor, main buffer first. -/
def TxqDesc.chunks (d : TxqDesc) : List (Nat × Nat) := (d.addr, d.len) :: d.elems

/-- The outer `while (tso_rem > 0)` loop: the descriptors in posting order. -/
def ionicTxTsoLoop (mss : Nat) : Nat → Bool → TsoCursor → Option (List TsoSeg)
  | 0, _, _ => none
  | fuel + 1, start, c =>
    if c.tsoRem = 0 then some []
    else
      match ionicTxTsoSegLoop (fuel + 1) c with
      | none => none
      | some (chunks, c) =>
        (ionicTxTsoLoop mss fuel false { c with segRem := min c.tsoRem mss }).map
          (⟨chunks, start, c.tsoRem = 0⟩ :: ·)

/-- The segmentation of `ionic_tx_tso` over the mapped buffers `bufs[0 .. nr_frags]`:
`tso_rem = len`, `seg_rem = min(tso_rem, hdrlen + mss)`, `frag_rem = 0`, `start = true`. The pass
budget `len + nr_frags + 3` exceeds what either loop needs whenever `mss > 0`. -/
def ionicTxTsoSegments (bufs : List TxBufInfo) (len hdrlen mss : Nat) : Option (List TsoSeg) :=
  ionicTxTsoLoop mss (len + bufs.length + 2) true ⟨0, 0, bufs, len, min len (hdrlen + mss)⟩

/-- The flags of one packet's descriptors: the first carries `start`, later ones do not, and
exactly the last is `done`. -/
def SegFlags : Bool → List TsoSeg → Prop
  | _, [] => True
  | start, g :: gs => g.start = start ∧ g.done = gs.isEmpty ∧ SegFlags false gs

/-- The outer loop emits no descriptor exactly when nothing is left, and flags its descriptors as
`ionic_tx_tso_post` expects. -/
theorem ionicTxTsoLoop_flags {mss fuel : Nat} {start : Bool} {c : TsoCursor} {segs : List TsoSeg}
    (h : ionicTxTsoLoop mss fuel start c = some segs) : (segs = [] ↔ c.tsoRem = 0) ∧ SegFlags start segs := by
  induction fuel generalizing start c segs with
  | zero => simp [ionicTxTsoLoop] at h
  | succ fuel ih =>
    unfold ionicTxTsoLoop at h
    split_ifs at h with ht
    · cases h; exact ⟨by simp [ht], trivial⟩
    split at h
    · cases h
    · rename_i c₁ _
      obtain ⟨segs', h', rfl⟩ := Option.map_eq_some'.mp h
      obtain ⟨hnil, hf⟩ := ih h'
      have hnil : segs' = [] ↔ c₁.tsoRem = 0 := hnil
      refine ⟨by simp [ht], rfl, ?_, hf⟩
      cases segs' with
      | nil => simp [hnil.mp rfl]
      | cons g gs => simpa using mt hnil.mpr (List.cons_ne_nil g gs)

/-! ## The buffers cut at the descriptor sizes -/

/-- The bytes of a chunk, as DMA addresses. -/
def chunkRange (ch : Nat × Nat) : List Nat := List.range' ch.1 ch.2

/-- A buffer as a chunk. -/
def TxBufInfo.chunk (b : TxBufInfo) : Nat × Nat := (b.dmaAddr, b.len)

/-- Total length of a list of buffers. -/
def bufBytes (l : List TxBufInfo) : Nat := (l.map TxBufInfo.len).sum

/-- The first `n` bytes of `bufs` as chunks, and the buffers left: the buffer the cut falls inside
is split there; empty buffers met before the cut become empty chunks. -/
def takeBytes : List TxBufInfo → Nat → List (Nat × Nat) × List TxBufInfo
  | [], _ => ([], [])
  | b :: bs, n =>
    if n = 0 then ([], b :: bs)
    else if b.len ≤ n then ((b.dmaAddr, b.len) :: (takeBytes bs (n - b.len)).1, (takeBytes bs (n - b.len)).2)
    else ([(b.dmaAddr, n)], ⟨b.dmaAddr + n, b.len - n⟩ :: bs)

/-- `bufs` cut into consecutive descriptors of the given sizes: each descriptor takes the next
`size` bytes, and a buffer is split only where a descriptor ends. -/
def cutBufs : List TxBufInfo → List Nat → List (List (Nat × Nat))
  | _, [] => []
  | bufs, n :: ns => (takeBytes bufs n).1 :: cutBufs (takeBytes bufs n).2 ns

/-- The sizes of the descriptors after the first: `min(rem, mss)` each until nothing remains. -/
def laterSizes (mss rem : Nat) : List Nat :=
  if rem = 0 ∨ mss = 0 then [] else min rem mss :: laterSizes mss (rem - min rem mss)
termination_by rem
decreasing_by omega

/-- The bytes each descriptor of a TSO packet carries: `min(len, hdrlen + mss)`, then
`min(rem, mss)` for what remains. -/
def tsoSizes (len hdrlen mss : Nat) : List Nat :=
  min len (hdrlen + mss) :: laterSizes mss (len - min len (hdrlen + mss))

section TakeBytes

variable {b : TxBufInfo} {bs l : List TxBufInfo} {n : Nat}

@[simp] theorem bufBytes_nil : bufBytes [] = 0 := rfl
@[simp] theorem bufBytes_cons : bufBytes (b :: bs) = b.len + bufBytes bs := by simp [bufBytes]

@[simp] theorem takeBytes_zero (l : List TxBufInfo) : takeBytes l 0 = ([], l) := by
  cases l <;> simp [takeBytes]

theorem takeBytes_cons_of_le (hn : n ≠ 0) (h : b.len ≤ n) :
    takeBytes (b :: bs) n =
      ((b.dmaAddr, b.len) :: (takeBytes bs (n - b.len)).1, (takeBytes bs (n - b.len)).2) := by
  simp [takeBytes, hn, h]

theorem takeBytes_cons_of_lt (hn : n ≠ 0) (h : n < b.len) :
    takeBytes (b :: bs) n = ([(b.dmaAddr, n)], ⟨b.dmaAddr + n, b.len - n⟩ :: bs) := by
  simp [takeBytes, hn, Nat.not_le.mpr h]

/-- Taking `n ≤` the available bytes takes exactly `n` bytes, in order, leaving the rest. -/
theorem takeBytes_spec (h : n ≤ bufBytes l) :
    ((takeBytes l n).1.map Prod.snd).sum = n ∧
      bufBytes (takeBytes l n).2 = bufBytes l - n ∧
      (takeBytes l n).1.flatMap chunkRange ++
          (takeBytes l n).2.flatMap (chunkRange ∘ TxBufInfo.chunk) =
        l.flatMap (chunkRange ∘ TxBufInfo.chunk) := by
  induction l generalizing n with
  | nil => simp_all
  | cons b bs ih =>
    by_cases hn : n = 0
    · subst hn; simp
    rcases Nat.lt_or_ge n b.len with hlt | hle
    · rw [takeBytes_cons_of_lt hn hlt]
      refine ⟨by simp, by simp; omega, ?_⟩
      simp only [List.flatMap_cons, List.flatMap_nil, List.append_nil, Function.comp, chunkRange,
        TxBufInfo.chunk, ← List.append_assoc, List.range'_append_1]
      rw [show b.len - n + n = b.len by omega]
    · rw [takeBytes_cons_of_le hn hle]
      obtain ⟨h1, h2, h3⟩ := ih (n := n - b.len) (by simp at h; omega)
      refine ⟨by simp [h1]; omega, by simp [h2]; omega, ?_⟩
      simp only [List.flatMap_cons, List.append_assoc, h3, Function.comp, TxBufInfo.chunk]

theorem takeBytes_rest_length (l : List TxBufInfo) (n : Nat) :
    (takeBytes l n).2.length ≤ l.length := by
  induction l generalizing n with
  | nil => simp [takeBytes]
  | cons b bs ih =>
    unfold takeBytes
    split_ifs <;> simp; exact Nat.le_succ_of_le (ih _)

theorem takeBytes_chunk_le (l : List TxBufInfo) (n : Nat) : ∀ ch ∈ (takeBytes l n).1, ch.2 ≤ n := by
  induction l generalizing n with
  | nil => simp [takeBytes]
  | cons b bs ih =>
    unfold takeBytes
    split_ifs with h0 h1
    · simp
    · simp only [List.mem_cons, forall_eq_or_imp]
      exact ⟨h1, fun ch hch => (ih _ ch hch).trans (Nat.sub_le _ _)⟩
    · simp

theorem takeBytes_ne_nil (hn : 0 < n) (h : n ≤ bufBytes l) : (takeBytes l n).1 ≠ [] := by
  cases l with
  | nil => simp at h; omega
  | cons b bs =>
    unfold takeBytes
    split_ifs <;> simp_all

end TakeBytes

theorem laterSizes_eq (mss rem : Nat) (hmss : 0 < mss) :
    laterSizes mss rem = if rem = 0 then [] else min rem mss :: laterSizes mss (rem - min rem mss) := by
  rw [laterSizes]
  by_cases h : rem = 0 <;> simp [h, Nat.pos_iff_ne_zero.mp hmss]

/-! ## The loops against the cut -/

namespace TsoCursor

/-- The bytes the cursor has not placed yet, as buffers: the rest of the current buffer, then
the buffers `buf_info` has not reached. -/
def pending (c : TsoCursor) : List TxBufInfo :=
  if c.fragRem = 0 then c.bufs else ⟨c.fragAddr, c.fragRem⟩ :: c.bufs

theorem grab_of_pending {c : TsoCursor} {b : TxBufInfo} {rest : List TxBufInfo}
    (h : c.pending = b :: rest) :
    c.grab = some { c with fragAddr := b.dmaAddr, fragRem := b.len, bufs := rest } := by
  unfold pending at h
  unfold grab
  split_ifs at h ⊢ with hf
  · simp [h]
  · cases h; rfl

end TsoCursor

/-- The inner loop places the next `seg_rem` pending bytes: its chunks are `takeBytes`. -/
theorem ionicTxTsoSegLoop_spec {fuel : Nat} {c : TsoCursor} (hfuel : c.pending.length < fuel)
    (hseg : c.segRem ≤ bufBytes c.pending) :
    ∃ c', ionicTxTsoSegLoop fuel c = some ((takeBytes c.pending c.segRem).1, c') ∧
      c'.pending = (takeBytes c.pending c.segRem).2 ∧ c'.tsoRem = c.tsoRem - c.segRem ∧
      c'.segRem = 0 := by
  induction fuel generalizing c with
  | zero => omega
  | succ fuel ih =>
    by_cases hs : c.segRem = 0
    · exact ⟨c, by simp [ionicTxTsoSegLoop, hs], by simp [hs], by simp [hs], hs⟩
    obtain ⟨b, rest, hp⟩ : ∃ b rest, c.pending = b :: rest := by
      cases h : c.pending with
      | nil => rw [h] at hseg; simp at hseg; omega
      | cons b rest => exact ⟨b, rest, rfl⟩
    rw [hp] at hfuel hseg ⊢
    simp only [ionicTxTsoSegLoop, hs, if_false, TsoCursor.grab_of_pending hp]
    rcases Nat.lt_or_ge c.segRem b.len with hlt | hle
    · -- the descriptor ends inside `b`
      obtain ⟨f, rfl⟩ : ∃ f, fuel = f + 1 := ⟨fuel - 1, by simp at hfuel; omega⟩
      rw [takeBytes_cons_of_lt hs hlt, Nat.min_eq_right hlt.le]
      refine ⟨⟨b.dmaAddr + c.segRem, b.len - c.segRem, rest, c.tsoRem - c.segRem, 0⟩, ?_, ?_, rfl, rfl⟩
      · simp [ionicTxTsoSegLoop, TsoCursor.take]
      · simp [TsoCursor.pending, Nat.sub_ne_zero_of_lt hlt]
    · -- `b` is placed whole and the loop goes on with the buffers after it
      rw [takeBytes_cons_of_le hs hle, Nat.min_eq_left hle]
      have hp₂ : (({ c with fragAddr := b.dmaAddr, fragRem := b.len, bufs := rest } : TsoCursor).take
          b.len).pending = rest := by simp [TsoCursor.pending, TsoCursor.take]
      obtain ⟨c', h1, h2, h3, h4⟩ :=
        ih (c := ({ c with fragAddr := b.dmaAddr, fragRem := b.len, bufs := rest } : TsoCursor).take b.len)
          (by rw [hp₂]; simp at hfuel; omega) (by rw [hp₂]; simp [TsoCursor.take] at hseg ⊢; omega)
      rw [hp₂] at h1 h2
      refine ⟨c', by rw [h1]; rfl, h2, ?_, h4⟩
      rw [h3]; simp [TsoCursor.take]; omega

/-- The outer loop posts the pending bytes in descriptors of `seg_rem`, then `min(rem, mss)`
bytes, each the next bytes of the buffers. -/
theorem ionicTxTsoLoop_spec {mss fuel : Nat} {start : Bool} {c : TsoCursor} (hmss : 0 < mss)
    (hfuel : c.tsoRem + c.pending.length < fuel) (hbytes : bufBytes c.pending = c.tsoRem)
    (hseg : c.segRem ≤ c.tsoRem) (hpos : 0 < c.tsoRem → 0 < c.segRem) :
    ∃ segs, ionicTxTsoLoop mss fuel start c = some segs ∧
      segs.map TsoSeg.bytes =
        (if c.tsoRem = 0 then [] else c.segRem :: laterSizes mss (c.tsoRem - c.segRem)) ∧
      segs.map TsoSeg.chunks = cutBufs c.pending
        (if c.tsoRem = 0 then [] else c.segRem :: laterSizes mss (c.tsoRem - c.segRem)) := by
  induction fuel generalizing start c with
  | zero => omega
  | succ fuel ih =>
    by_cases ht : c.tsoRem = 0
    · exact ⟨[], by simp [ionicTxTsoLoop, ht], by simp [ht], by simp [ht, cutBufs]⟩
    have hs : 0 < c.segRem := hpos (Nat.pos_of_ne_zero ht)
    obtain ⟨c₁, h1, h2, h3, h4⟩ := ionicTxTsoSegLoop_spec (c := c)
      (show c.pending.length < fuel + 1 by omega) (by omega)
    obtain ⟨hsum, hrest, -⟩ := takeBytes_spec (l := c.pending) (n := c.segRem) (by omega)
    have hlen := takeBytes_rest_length c.pending c.segRem
    have hp₂ : ({ c₁ with segRem := min c₁.tsoRem mss } : TsoCursor).pending =
        (takeBytes c.pending c.segRem).2 := h2
    obtain ⟨segs, hl, hb, hc⟩ := @ih false { c₁ with segRem := min c₁.tsoRem mss }
      (by rw [hp₂]; simp only [h3]; omega) (by rw [hp₂, hrest, hbytes, h3])
      (by simp only; omega) (by simp only; omega)
    have hlater : (if c₁.tsoRem = 0 then [] else
        min c₁.tsoRem mss :: laterSizes mss (c₁.tsoRem - min c₁.tsoRem mss)) =
        laterSizes mss (c.tsoRem - c.segRem) := by
      rw [h3]; exact (laterSizes_eq _ _ hmss).symm
    simp only [hp₂] at hb hc
    rw [hlater] at hb hc
    refine ⟨⟨(takeBytes c.pending c.segRem).1, start, c₁.tsoRem = 0⟩ :: segs,
      by simp [ionicTxTsoLoop, ht, h1, hl], ?_, ?_⟩
    · simp [ht, hb, TsoSeg.bytes, hsum]
    · simp [ht, hc, cutBufs]

/-! ## Facts about the cut -/

theorem laterSizes_spec {mss : Nat} (hmss : 0 < mss) (rem : Nat) :
    (laterSizes mss rem).sum = rem ∧ ∀ n ∈ laterSizes mss rem, 0 < n ∧ n ≤ mss := by
  induction rem using Nat.strong_induction_on with
  | _ rem ih =>
    rw [laterSizes_eq _ _ hmss]
    split_ifs with h
    · simp [h]
    · obtain ⟨h1, h2⟩ := ih (rem - min rem mss) (by omega)
      refine ⟨by rw [List.sum_cons, h1]; omega, ?_⟩
      simp only [List.mem_cons, forall_eq_or_imp]
      exact ⟨⟨by omega, Nat.min_le_right _ _⟩, h2⟩

theorem laterSizes_length {mss : Nat} (hmss : 0 < mss) (rem : Nat) :
    (laterSizes mss rem).length = (rem + mss - 1) / mss := by
  induction rem using Nat.strong_induction_on with
  | _ rem ih =>
    rw [laterSizes_eq _ _ hmss]
    split_ifs with h
    · subst h; exact (Nat.div_eq_of_lt (by omega)).symm
    · rw [List.length_cons, ih _ (by omega), show rem + mss - 1 = (rem - 1) + mss by omega,
        Nat.add_div_right _ hmss, Nat.add_right_cancel_iff]
      rcases Nat.lt_or_ge rem mss with hlt | hge
      · rw [Nat.min_eq_left hlt.le, Nat.div_eq_of_lt (by omega), Nat.div_eq_of_lt (by omega)]
      · rw [Nat.min_eq_right hge]; congr 1; omega

/-- A packet with payload is cut into `DIV_ROUND_UP(len - hdrlen, mss)` descriptors. -/
theorem tsoSizes_length {len hdrlen mss : Nat} (hmss : 0 < mss) (hlt : hdrlen < len) :
    (tsoSizes len hdrlen mss).length = (len - hdrlen + mss - 1) / mss := by
  rw [tsoSizes, List.length_cons, laterSizes_length hmss,
    show len - hdrlen + mss - 1 = (len - hdrlen - 1) + mss by omega, Nat.add_div_right _ hmss,
    Nat.add_right_cancel_iff]
  rcases Nat.lt_or_ge len (hdrlen + mss) with h | h
  · rw [Nat.min_eq_left h.le, Nat.div_eq_of_lt (by omega), Nat.div_eq_of_lt (by omega)]
  · rw [Nat.min_eq_right h]; congr 1; omega

theorem flatMap_range_eq_nil {l : List TxBufInfo} (h : bufBytes l = 0) :
    l.flatMap (chunkRange ∘ TxBufInfo.chunk) = [] := by
  induction l with
  | nil => rfl
  | cons b bs ih =>
    simp only [bufBytes_cons, Nat.add_eq_zero] at h
    simp [ih h.2, chunkRange, TxBufInfo.chunk, h.1]

/-- Cutting at sizes that add up to all the bytes covers every byte of the buffers exactly once,
in order. -/
theorem cutBufs_range {l : List TxBufInfo} {sizes : List Nat} (h : sizes.sum = bufBytes l) :
    (cutBufs l sizes).flatten.flatMap chunkRange = l.flatMap (chunkRange ∘ TxBufInfo.chunk) := by
  induction sizes generalizing l with
  | nil => simp [cutBufs, flatMap_range_eq_nil h.symm]
  | cons n ns ih =>
    simp only [List.sum_cons] at h
    obtain ⟨-, hrest, hcat⟩ := takeBytes_spec (l := l) (n := n) (by omega)
    simp only [cutBufs, List.flatten_cons, List.flatMap_append, ih (by rw [hrest]; omega), hcat]

/-- Every descriptor of the cut has a chunk, and no chunk is longer than its descriptor. -/
theorem cutBufs_chunks {l : List TxBufInfo} {sizes : List Nat} {B : Nat}
    (h : sizes.sum ≤ bufBytes l) (hsz : ∀ n ∈ sizes, 0 < n ∧ n ≤ B) :
    ∀ cs ∈ cutBufs l sizes, cs ≠ [] ∧ ∀ ch ∈ cs, ch.2 ≤ B := by
  induction sizes generalizing l with
  | nil => simp [cutBufs]
  | cons n ns ih =>
    simp only [List.sum_cons] at h
    simp only [List.mem_cons, forall_eq_or_imp] at hsz
    obtain ⟨-, hrest, -⟩ := takeBytes_spec (l := l) (n := n) (by omega)
    simp only [cutBufs, List.mem_cons, forall_eq_or_imp]
    exact ⟨⟨takeBytes_ne_nil hsz.1.1 (by omega),
        fun ch hch => (takeBytes_chunk_le l n ch hch).trans hsz.1.2⟩,
      ih (by rw [hrest]; omega) hsz.2⟩

/-- When the lengths fit their 16-bit fields, the descriptor written carries the chunks. -/
theorem TsoSeg.desc_chunks (g : TsoSeg) (hne : g.chunks ≠ []) (hlt : ∀ ch ∈ g.chunks, ch.2 < 2 ^ 16) :
    g.desc.chunks = g.chunks := by
  obtain ⟨⟨a, n⟩, rest, h⟩ := List.exists_cons_of_ne_nil hne
  rw [h] at hlt
  simp only [List.mem_cons, forall_eq_or_imp] at hlt
  have hrest : rest.map (fun ch => (ch.1, ch.2 % 2 ^ 16)) = rest := by
    conv_rhs => rw [← List.map_id rest]
    exact List.map_congr_left fun ch hch => by rw [Nat.mod_eq_of_lt (hlt.2 ch hch)]; rfl
  simp only [TsoSeg.desc, TxqDesc.chunks, h, List.headD_cons, List.tail_cons, hrest]
  rw [Nat.mod_eq_of_lt hlt.1]

theorem tsoSizes_spec {len hdrlen mss : Nat} (hmss : 0 < mss) (hlen : 0 < len) :
    (tsoSizes len hdrlen mss).sum = len ∧ ∀ n ∈ tsoSizes len hdrlen mss, 0 < n ∧ n ≤ hdrlen + mss := by
  obtain ⟨h1, h2⟩ := laterSizes_spec hmss (len - min len (hdrlen + mss))
  refine ⟨by rw [tsoSizes, List.sum_cons, h1]; omega, ?_⟩
  simp only [tsoSizes, List.mem_cons, forall_eq_or_imp]
  exact ⟨⟨by omega, Nat.min_le_right _ _⟩, fun n hn => ⟨(h2 n hn).1, by have := (h2 n hn).2; omega⟩⟩

/-- The segmentation over buffers holding `len` bytes returns, flags its descriptors as
`ionic_tx_tso_post` expects, and cuts the buffers at `tsoSizes`. -/
theorem ionicTxTsoSegments_cut (bufs : List TxBufInfo) (hdrlen : Nat) {mss : Nat} (hmss : 0 < mss) :
    ∃ segs, ionicTxTsoSegments bufs (bufBytes bufs) hdrlen mss = some segs ∧ SegFlags true segs ∧
      segs.map TsoSeg.bytes = (if bufBytes bufs = 0 then [] else tsoSizes (bufBytes bufs) hdrlen mss) ∧
      segs.map TsoSeg.chunks =
        cutBufs bufs (if bufBytes bufs = 0 then [] else tsoSizes (bufBytes bufs) hdrlen mss) := by
  have hc₀ : (⟨0, 0, bufs, bufBytes bufs, min (bufBytes bufs) (hdrlen + mss)⟩ : TsoCursor).pending =
      bufs := rfl
  obtain ⟨segs, hl, hb, hc⟩ := @ionicTxTsoLoop_spec mss (bufBytes bufs + bufs.length + 2) true
    ⟨0, 0, bufs, bufBytes bufs, min (bufBytes bufs) (hdrlen + mss)⟩ hmss
    (by rw [hc₀]; simp) (by rw [hc₀]) (Nat.min_le_left _ _) (fun h => by simp only at h ⊢; omega)
  rw [hc₀] at hc
  exact ⟨segs, hl, (ionicTxTsoLoop_flags hl).2, hb, hc⟩

/-- `ionic_tx_tso` segments a GSO packet as the hardware expects: the loops end without reading
past `bufs[nr_frags]`; the first descriptor carries `min(len, hdrlen + mss)` bytes and each later
one `min(bytes remaining, mss)`; and the chunks written, in posting order, are the mapped buffers
cut at those sizes, covering every byte once and in order. -/
theorem ionicTxTsoSegments_spec (bufs : List TxBufInfo) (hdrlen mss : Nat) (hmss : 0 < mss)
    (hhdr : hdrlen < bufBytes bufs) (h16 : hdrlen + mss < 2 ^ 16) :
    ∃ segs, ionicTxTsoSegments bufs (bufBytes bufs) hdrlen mss = some segs ∧
      segs.map TsoSeg.bytes = tsoSizes (bufBytes bufs) hdrlen mss ∧
      segs.map (fun g => g.desc.chunks) = cutBufs bufs (tsoSizes (bufBytes bufs) hdrlen mss) ∧
      (segs.map fun g => g.desc.chunks).flatten.flatMap chunkRange =
        bufs.flatMap (chunkRange ∘ TxBufInfo.chunk) := by
  obtain ⟨hsum, hsz⟩ := @tsoSizes_spec (bufBytes bufs) hdrlen mss hmss (by omega)
  obtain ⟨segs, hl, -, hb, hc⟩ := ionicTxTsoSegments_cut bufs hdrlen hmss
  simp only [show bufBytes bufs ≠ 0 by omega, if_false] at hb hc
  have hdesc : segs.map (fun g => g.desc.chunks) = segs.map TsoSeg.chunks := by
    refine List.map_congr_left fun g hg => g.desc_chunks ?_ ?_ <;>
      have hcs := cutBufs_chunks (B := hdrlen + mss) (by rw [hsum]) hsz g.chunks
        (by rw [← hc]; exact List.mem_map_of_mem _ hg)
    · exact hcs.1
    · exact fun ch hch => (hcs.2 ch hch).trans_lt h16
  refine ⟨segs, hl, hb, hdesc.trans hc, ?_⟩
  rw [hdesc, hc, cutBufs_range hsum]

/-- A 380-byte packet in four buffers, one of them empty, cut after a 54-byte header with mss
100. -/
theorem ionicTxTsoSegments_spec_four_bufs :
    let bufs : List TxBufInfo := [⟨1000, 100⟩, ⟨2000, 0⟩, ⟨3000, 250⟩, ⟨4000, 30⟩]
    ∃ segs, ionicTxTsoSegments bufs (bufBytes bufs) 54 100 = some segs ∧
      segs.map TsoSeg.bytes = tsoSizes (bufBytes bufs) 54 100 ∧
      segs.map (fun g => g.desc.chunks) = cutBufs bufs (tsoSizes (bufBytes bufs) 54 100) ∧
      (segs.map fun g => g.desc.chunks).flatten.flatMap chunkRange =
        bufs.flatMap (chunkRange ∘ TxBufInfo.chunk) :=
  ionicTxTsoSegments_spec _ 54 100 (by decide) (by decide) (by decide)

end IonicTxrx
