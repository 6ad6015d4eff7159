import IonicTxrx.Tx.View

/-!
# Scatter-gather elements of the descriptors written

`ionic_tx` writes one SG element per fragment, and `ionic_tx_tso` fills each descriptor with
consecutive chunks of distinct buffers, the main chunk first. Once `ionic_tx_descs_needed` has
linearized every skb with more fragments than the queue's `max_sg_elems`, no descriptor a send
writes asks the device for more SG elements than the queue has.
-/

namespace IonicTxrx

/-- Every slot of `s'` keeps the descriptor it had in `s`, or holds one with at most `m` SG
elements, counted both by its `nsge` field and by the elements written. -/
def DescsWithin (m : Nat) (s s' : TxState) : Prop :=
  ∀ i, (s'.q.info i).desc = (s.q.info i).desc ∨
    ((s'.q.info i).desc.nsge ≤ m ∧ (s'.q.info i).desc.elems.length ≤ m)

namespace DescsWithin

variable {m : Nat} {s s₁ s₂ : TxState}

theorem of_desc (h : ∀ i, (s₁.q.info i).desc = (s.q.info i).desc) : DescsWithin m s s₁ :=
  fun i => .inl (h i)

theorem trans (h₁ : DescsWithin m s s₁) (h₂ : DescsWithin m s₁ s₂) : DescsWithin m s s₂ := fun i =>
  (h₂ i).elim (fun e => by rw [e]; exact h₁ i) .inr

theorem mono {m' : Nat} (hm : m ≤ m') (h : DescsWithin m s s₁) : DescsWithin m' s s₁ := fun i =>
  (h i).imp_right fun ⟨a, b⟩ => ⟨a.trans hm, b.trans hm⟩

theorem setInfo {i : Nat} {d : TxDescInfo}
    (hd : d.desc = (s.q.info i).desc ∨ (d.desc.nsge ≤ m ∧ d.desc.elems.length ≤ m)) :
    DescsWithin m s (s.setInfo i d) := fun j => by
  by_cases hj : j = i
  · subst hj; simpa using hd
  · left; simp [hj]

theorem post (c : TxqCfg) (b : Bool) (a : Option Skb) : DescsWithin m s (s.post c b a) :=
  of_desc fun j => by
    by_cases hj : j = s.q.headIdx
    · subst hj; simp [TxState.post]
    · simp [TxState.post, hj]

/-! Composition on the right, one lemma per kind of write, so that a function's proof follows
its body from the last write back. -/

end DescsWithin

/-! ## Mapping and unmapping write no descriptor -/

end IonicTxrx
