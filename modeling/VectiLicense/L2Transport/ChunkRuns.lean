import VectiLicense.Core.Run
import VectiLicense.L2Transport.Chunk

/-!
# `vl_chunk_t` over resets and feeds

The state's owner may reset it at any time, with any sizes, and feed it
anything. The sizes that count are those of the last reset, and only if that
one was accepted (`armedWith`): then the state satisfies `Inv` for the feeds
since, otherwise it is all zero.

* `reset_cases`, `feed_cases`: what one call does to the state.
* `run_rep`: what the state is after any sequence of calls.
* `chunk_invariant`: the counters, the bitmap and the buffer agree, and what a
  call may write.
-/
namespace VectiLicense.L2.Chunk

open VectiLicense.Core VectiLicense.L0

/-! ## Calls -/

inductive ChunkOp where
  | reset (chunkSize totalLen : Nat)
  | feed (seq : UInt32) (data : Span)
  deriving DecidableEq, Repr

/-- The state that a call leaves, with its status. -/
def settled (r : VlStatus × Option VlChunk) : Option (VlStatus × VlChunk) :=
  r.2.map fun c => (r.1, c)

theorem settled_eq_some {r : VlStatus × Option VlChunk} {st : VlStatus} {c : VlChunk} :
    settled r = some (st, c) ↔ r = (st, some c) := by
  obtain ⟨st₀, c₀⟩ := r
  cases c₀ <;> simp [settled]

/-- `none` is an access outside the state's arrays. -/
def ChunkOp.apply (c : VlChunk) : ChunkOp → Option (VlStatus × VlChunk)
  | .reset chunkSize totalLen => settled (vlChunkReset (some c) chunkSize totalLen)
  | .feed seq data => (vlChunkFeed (some c) seq data).bind settled

/-- A call with its status. -/
def ChunkStep (c : VlChunk) (l : ChunkOp × VlStatus) (c' : VlChunk) : Prop :=
  l.1.apply c = some (l.2, c')

/-- The sizes after a call. -/
def rearm (sizes : Option (Nat × Nat)) : ChunkOp × VlStatus → Option (Nat × Nat)
  | (.reset cs tl, st) => if st = .ok then some (cs, tl) else none
  | (.feed _ _, _) => sizes

/-- The sizes of the last reset, if it was accepted. -/
def armedWith (ls : List (ChunkOp × VlStatus)) : Option (Nat × Nat) := ls.foldl rearm none

/-! ## What one call does -/

/-- A reset stores its sizes or clears the state. -/
theorem reset_cases {c c' : VlChunk} {cs tl : Nat} {st : VlStatus}
    (h : (ChunkOp.reset cs tl).apply c = some (st, c')) :
    (st = .ok ∧ Inv cs tl [] c') ∨ (st = .errInvalidArg ∧ c' = VlChunk.zero) := by
  have hreset : vlChunkReset (some c) cs tl = (st, some c') := settled_eq_some.mp h
  by_cases hok : st = .ok
  · subst hok
    exact .inl ⟨rfl, reset_inv hreset⟩
  · unfold vlChunkReset at hreset
    dsimp only at hreset
    split at hreset
    · obtain ⟨rfl, hc⟩ := Prod.mk.inj hreset
      exact .inr ⟨rfl, (Option.some.inj hc).symm⟩
    split at hreset
    · obtain ⟨rfl, hc⟩ := Prod.mk.inj hreset
      exact .inr ⟨rfl, (Option.some.inj hc).symm⟩
    · exact absurd (Prod.mk.inj hreset).1.symm hok

theorem feed_disarmed {c : VlChunk} (h : c.armed = 0) (seq : UInt32) (data : Span) :
    (ChunkOp.feed seq data).apply c = some (.errInvalidArg, c) := by
  unfold ChunkOp.apply vlChunkFeed
  simp only [h, if_true, Option.bind_some, settled, Option.map_some]

/-- What storing a chunk changes: the bytes of its position, one bit, and the count. -/
structure Stored (cs tl : Nat) (c : VlChunk) (seq : UInt32) (ds : List UInt8) (c' : VlChunk) :
    Prop where
  inRange : seq.toNat < chunkCount cs tl
  length : ds.length = chunkLen cs tl seq.toNat
  fresh : c.seen.bit seq.toNat = false
  written : c.buf.copyIn? (seq.toNat * cs) ds = some c'.buf
  rest : ∃ seen, c' = { c with buf := c'.buf, seen, haveCount := c.haveCount + 1 }

theorem feedBytes_cases {cs tl : Nat} {c c' : VlChunk} (h : Sizes cs tl c) {seq : UInt32}
    {ds : List UInt8} {st : VlStatus} (hf : feedBytes c seq ds = some (st, c')) :
    c' = c ∨ (st = .ok ∧ Stored cs tl c seq ds c') := by
  unfold feedBytes at hf
  split at hf
  · rw [Option.some.injEq, Prod.mk.injEq] at hf
    exact .inl hf.2.symm
  rename_i hlt
  rw [ge_iff_le, UInt32.le_iff_toNat_le, h.expect] at hlt
  obtain ⟨hoff, hwant, -⟩ := h.position (Nat.lt_of_not_le hlt)
  simp only [hoff, hwant] at hf
  split at hf
  · rw [Option.some.injEq, Prod.mk.injEq] at hf
    exact .inl hf.2.symm
  rename_i hlen
  split at hf
  · rename_i hidx
    split at hf
    · obtain ⟨_, -, heq⟩ := Option.map_eq_some_iff.mp hf
      exact .inl (Prod.mk.inj heq).2.symm
    · rename_i hfresh
      obtain ⟨buf, hbuf, heq⟩ := Option.map_eq_some_iff.mp hf
      obtain ⟨rfl, rfl⟩ := Prod.mk.inj heq
      obtain ⟨hi, hmask⟩ := seq_bit seq
      refine .inr ⟨rfl, Nat.lt_of_not_le hlt, Decidable.not_not.mp hlen, ?_, hbuf, _, rfl⟩
      rw [Buf.and_mask_ne_zero hmask] at hfresh
      have hin : seq.toNat / 8 < 24 := by omega
      rw [Buf.bit, Vector.getElem?_eq_getElem hin, Option.getD_some]
      simpa only [hi, Bool.not_eq_true] using hfresh
  · cases hf

/-- **A feed** changes nothing, or stores one chunk. -/
theorem feed_cases {cs tl : Nat} {c c' : VlChunk} (h : Sizes cs tl c) {seq : UInt32} {data : Span}
    {st : VlStatus} (hf : (ChunkOp.feed seq data).apply c = some (st, c')) :
    c' = c ∨ (st = .ok ∧ ∃ ds, Stored cs tl c seq ds c') := by
  unfold ChunkOp.apply vlChunkFeed at hf
  simp only [h.armed, if_false] at hf
  -- either way `feedBytes` is all that is left of the call
  have hbytes : ∀ {ds}, ((feedBytes c seq ds).map fun r => (r.1, some r.2)).bind settled =
      some (st, c') → c' = c ∨ (st = .ok ∧ ∃ ds, Stored cs tl c seq ds c') := by
    intro ds hds
    obtain ⟨r, hr, hset⟩ := Option.bind_eq_some_iff.mp hds
    obtain ⟨r', hr', rfl⟩ := Option.map_eq_some_iff.mp hr
    obtain ⟨hst, hc⟩ := Prod.mk.inj (settled_eq_some.mp hset)
    have hwhole : feedBytes c seq ds = some (st, c') := by
      rw [hr', ← hst, ← Option.some.inj hc]
    exact (feedBytes_cases h hwhole).imp_right fun hs => ⟨hs.1, _, hs.2⟩
  cases data with
  | null len =>
    dsimp only at hf
    split at hf
    · obtain ⟨-, hc⟩ := Prod.mk.inj (settled_eq_some.mp hf)
      exact .inl (Option.some.inj hc).symm
    · exact hbytes hf
  | bytes ds => exact hbytes hf

/-! ## Any sequence of calls -/

/-- What the state is, by the sizes of the last reset. -/
def Rep : Option (Nat × Nat) → VlChunk → Prop
  | none, c => c = VlChunk.zero
  | some (cs, tl), c => ∃ fs, Inv cs tl fs c

theorem Rep.answers {sizes : Option (Nat × Nat)} {c : VlChunk} (h : Rep sizes c) (op : ChunkOp) :
    ∃ st c', op.apply c = some (st, c') := by
  cases op with
  | reset cs tl =>
    have hsome : ∃ r c', vlChunkReset (some c) cs tl = (r, some c') := by
      unfold vlChunkReset
      dsimp only
      split
      · exact ⟨_, _, rfl⟩
      split <;> exact ⟨_, _, rfl⟩
    obtain ⟨st, c', hr⟩ := hsome
    exact ⟨st, c', settled_eq_some.mpr hr⟩
  | feed seq data =>
    cases sizes with
    | none =>
      obtain rfl : c = VlChunk.zero := h
      exact ⟨_, _, feed_disarmed rfl seq data⟩
    | some sizes =>
      obtain ⟨fs, hinv⟩ := h
      obtain ⟨st, c', hf, -⟩ := feed_spec hinv (seq, data)
      exact ⟨st, c', by rw [ChunkOp.apply, hf]; rfl⟩

theorem step_rep {sizes : Option (Nat × Nat)} {c c' : VlChunk} {l : ChunkOp × VlStatus}
    (h : ChunkStep c l c') (hr : Rep sizes c) : Rep (rearm sizes l) c' := by
  obtain ⟨op, st⟩ := l
  cases op with
  | reset cs tl =>
    rcases reset_cases h with ⟨rfl, hinv⟩ | ⟨rfl, rfl⟩
    · exact ⟨[], hinv⟩
    · exact rfl
  | feed seq data =>
    cases sizes with
    | none =>
      obtain rfl : c = VlChunk.zero := hr
      have hd := (feed_disarmed rfl seq data).symm.trans h
      exact (Prod.mk.inj (Option.some.inj hd)).2.symm
    | some sizes =>
      obtain ⟨fs, hinv⟩ := hr
      obtain ⟨st₁, c₁, hf, hinv₁, -⟩ := feed_spec hinv (seq, data)
      have happly : (ChunkOp.feed seq data).apply c = some (st₁, c₁) := by
        rw [ChunkOp.apply, hf]
        rfl
      obtain ⟨-, rfl⟩ := Prod.mk.inj (Option.some.inj (happly.symm.trans h))
      exact ⟨_, hinv₁⟩

theorem run_rep_from {sizes : Option (Nat × Nat)} {c c' : VlChunk} {ls : List (ChunkOp × VlStatus)}
    (h : Run ChunkStep c ls c') (hr : Rep sizes c) : Rep (ls.foldl rearm sizes) c' := by
  induction h generalizing sizes with
  | nil => exact hr
  | cons hstep _ ih => exact ih (step_rep hstep hr)

/-- **What the state is after any sequence of calls.** -/
theorem run_rep {c : VlChunk} {ls : List (ChunkOp × VlStatus)} (h : Run ChunkStep VlChunk.zero ls c) :
    Rep (armedWith ls) c :=
  run_rep_from h rfl

/-! ## The invariant, in terms of the fields -/

/-- The fields of an armed state agree with the sizes and with each other, and
no 32-bit expression of a feed in range wraps. -/
structure Consistent (cs tl : Nat) (c : VlChunk) : Prop where
  totalLen : c.totalLen.toNat = tl
  total_pos : 1 ≤ tl
  total_le : tl ≤ VL_CHUNK_MAX_LEN
  chunkSize : c.chunkSize.toNat = cs
  size_pos : 1 ≤ cs
  expect : c.expect.toNat = (tl + cs - 1) / cs
  expect_le : c.expect.toNat ≤ VL_CHUNK_MAX_LEN
  count : c.haveCount.toNat = (List.range 192).countP c.seen.bit
  beyond : ∀ j, c.expect.toNat ≤ j → c.seen.bit j = false
  inRange : ∀ seq : UInt32, seq < c.expect →
    (seq * c.chunkSize).toNat = seq.toNat * cs ∧ seq.toNat * cs < tl ∧
      (c.totalLen - seq * c.chunkSize).toNat = tl - seq.toNat * cs ∧ (seq >>> 3).toNat < 24
  counts : (c.haveCount + 1).toNat = c.haveCount.toNat + 1

theorem countP_range_of_beyond {m n : Nat} {p : Nat → Bool} (hmn : m ≤ n)
    (h : ∀ j, m ≤ j → p j = false) : (List.range n).countP p = (List.range m).countP p := by
  obtain ⟨k, rfl⟩ := Nat.exists_eq_add_of_le hmn
  have hrest : ((List.range k).map (m + ·)).countP p = 0 := by
    rw [List.countP_eq_zero]
    intro j hj
    obtain ⟨i, -, rfl⟩ := List.mem_map.mp hj
    rw [h _ (Nat.le_add_right m i)]
    exact Bool.false_ne_true
  rw [List.range_add, List.countP_append, hrest, Nat.add_zero]

theorem Inv.beyond {cs tl : Nat} {fs : List Feed} {c : VlChunk} (h : Inv cs tl fs c) {j : Nat}
    (hj : chunkCount cs tl ≤ j) : c.seen.bit j = false := by
  rw [h.seen, ← Bool.not_eq_true]
  intro hsome
  obtain ⟨ds, hds⟩ := Option.isSome_iff_exists.mp hsome
  have hlt := (firstCopy_spec hds).2.1
  omega

theorem Inv.consistent {cs tl : Nat} {fs : List Feed} {c : VlChunk} (h : Inv cs tl fs c) :
    Consistent cs tl c := by
  have hmax := h.tl_le
  have hcount := chunkCount_le h.cs_pos h.tl_pos
  have hsmall : VL_CHUNK_MAX_LEN = 192 := rfl
  have hbits : c.haveCount.toNat = (List.range 192).countP c.seen.bit := by
    rw [h.count, countP_range_of_beyond (show chunkCount cs tl ≤ 192 by omega) fun _ => h.beyond]
    exact List.countP_congr fun j _ => by rw [h.seen]
  have hle : c.haveCount.toNat ≤ 192 := by
    rw [hbits]
    exact Nat.le_trans List.countP_le_length (Nat.le_of_eq List.length_range)
  refine ⟨h.totalLen, h.tl_pos, h.tl_le, h.chunkSize, h.cs_pos, h.expect, ?_, hbits, ?_, ?_, ?_⟩
  · rw [h.expect]
    omega
  · intro j hj
    rw [h.expect] at hj
    exact h.beyond hj
  · intro seq hseq
    rw [UInt32.lt_iff_toNat_lt, h.expect] at hseq
    obtain ⟨hoff, -, -⟩ := h.toSizes.position hseq
    have hlt := seq_mul_lt h.cs_pos h.tl_pos hseq
    refine ⟨hoff, hlt, ?_, ?_⟩
    · have hle' : seq * c.chunkSize ≤ c.totalLen := by
        rw [UInt32.le_iff_toNat_le, hoff, h.totalLen]
        omega
      rw [UInt32.toNat_sub_of_le _ _ hle', hoff, h.totalLen]
    · rw [(seq_bit seq).1]
      omega
  · rw [UInt32.toNat_add, UInt32.toNat_one]
    exact Nat.mod_eq_of_lt (by omega)

/-- **The state of a reassembly, after any resets and feeds.** -/
theorem chunk_invariant {c : VlChunk} {ls : List (ChunkOp × VlStatus)}
    (h : Run ChunkStep VlChunk.zero ls c) :
    -- armed by the last reset, or all zero
    (c.armed ≠ 0 ↔ (armedWith ls).isSome) ∧
    (∀ cs tl, armedWith ls = some (cs, tl) → Consistent cs tl c) ∧
    (armedWith ls = none → c = VlChunk.zero ∧
      (∀ seq data, (ChunkOp.feed seq data).apply c = some (.errInvalidArg, c)) ∧
      ∀ out cap outLen, ∃ r, vlChunkComplete (some c) out cap outLen = some r ∧
        r.status = .errInvalidArg) ∧
    -- no access leaves the arrays
    (∀ op : ChunkOp, ∃ st c', op.apply c = some (st, c')) ∧
    -- what a call may change
    (∀ cs tl st c', (ChunkOp.reset cs tl).apply c = some (st, c') → st ≠ .ok → c' = VlChunk.zero) ∧
    ∀ seq data st c', (ChunkOp.feed seq data).apply c = some (st, c') →
      (st ≠ .ok ∨ c.seen.bit seq.toNat = true → c' = c) ∧
      ∀ j, c.totalLen.toNat ≤ j → c'.buf[j]? = c.buf[j]? := by
  have hrep := run_rep h
  refine ⟨?_, ?_, ?_, hrep.answers, ?_, ?_⟩
  · cases hsizes : armedWith ls with
    | none =>
      rw [hsizes] at hrep
      obtain rfl : c = VlChunk.zero := hrep
      exact iff_of_false (not_not_intro rfl) Bool.false_ne_true
    | some sizes =>
      rw [hsizes] at hrep
      obtain ⟨fs, hinv⟩ := hrep
      exact iff_of_true hinv.armed rfl
  · intro cs tl hsizes
    rw [hsizes] at hrep
    obtain ⟨fs, hinv⟩ := hrep
    exact hinv.consistent
  · intro hnone
    rw [hnone] at hrep
    obtain rfl : c = VlChunk.zero := hrep
    refine ⟨rfl, feed_disarmed rfl, fun out cap outLen => ?_⟩
    cases out <;> cases outLen <;> exact ⟨_, rfl, rfl⟩
  · intro cs tl st c' hreset hst
    rcases reset_cases hreset with ⟨hok, -⟩ | ⟨-, hzero⟩
    · exact absurd hok hst
    · exact hzero
  · intro seq data st c' hfeed
    cases hsizes : armedWith ls with
    | none =>
      rw [hsizes] at hrep
      obtain rfl : c = VlChunk.zero := hrep
      have hd := (feed_disarmed rfl seq data).symm.trans hfeed
      obtain ⟨-, rfl⟩ := Prod.mk.inj (Option.some.inj hd)
      exact ⟨fun _ => rfl, fun _ _ => rfl⟩
    | some sizes =>
      rw [hsizes] at hrep
      obtain ⟨fs, hinv⟩ := hrep
      rcases feed_cases hinv.toSizes hfeed with rfl | ⟨rfl, ds, hs⟩
      · exact ⟨fun _ => rfl, fun _ _ => rfl⟩
      · refine ⟨fun hor => ?_, fun j hj => ?_⟩
        · rcases hor with hne | hbit
          · exact absurd rfl hne
          · rw [hs.fresh] at hbit
            cases hbit
        · rw [hinv.totalLen] at hj
          refine Buf.getElem?_copyIn_outside hs.written (.inr ?_)
          have hlt := seq_mul_lt hinv.cs_pos hinv.tl_pos hs.inRange
          rw [hs.length, chunkLen]
          omega

/-- Calls one after another: each one's status, and the state after them. -/
def applyAll (c : VlChunk) : List ChunkOp → Option (List VlStatus × VlChunk)
  | [] => some ([], c)
  | op :: ops => do
    let (st, c₁) ← op.apply c
    let (sts, c') ← applyAll c₁ ops
    return (st :: sts, c')

theorem run_applyAll {ops : List ChunkOp} {c c' : VlChunk} {sts : List VlStatus}
    (h : applyAll c ops = some (sts, c')) : Run ChunkStep c (ops.zip sts) c' := by
  induction ops generalizing c sts with
  | nil =>
    obtain ⟨rfl, rfl⟩ := Prod.mk.inj (Option.some.inj h)
    exact .nil _
  | cons op ops ih =>
    obtain ⟨⟨st, c₁⟩, hop, h⟩ := Option.bind_eq_some_iff.mp h
    obtain ⟨⟨sts', c₂⟩, hops, h⟩ := Option.bind_eq_some_iff.mp h
    obtain ⟨rfl, rfl⟩ := Prod.mk.inj (Option.some.inj h)
    exact .cons hop (ih hops)

/-- Three bytes in chunks of two: the ragged last one, one that is too short,
one that contradicts the first copy, and the first. -/
def raggedOps : List ChunkOp :=
  [.reset 2 3, .feed 1 (.bytes [7]), .feed 0 (.bytes [5]), .feed 1 (.bytes [8]),
    .feed 0 (.bytes [5, 6])]

/-- Behind them the state is armed and consistent. A reset to a zero size
clears it. -/
theorem chunk_invariant_fed : ∃ c,
    Run ChunkStep VlChunk.zero
      (raggedOps.zip [.ok, .ok, .errBadFormat, .errBadFormat, .ok]) c ∧
    c.armed ≠ 0 ∧ Consistent 2 3 c ∧
    ∀ st c', (ChunkOp.reset 0 3).apply c = some (st, c') → st ≠ .ok → c' = VlChunk.zero := by
  have hcalls : (applyAll VlChunk.zero raggedOps).map Prod.fst =
      some [.ok, .ok, .errBadFormat, .errBadFormat, .ok] := by
    decide +kernel
  obtain ⟨⟨sts, c⟩, hops, rfl⟩ := Option.map_eq_some_iff.mp hcalls
  have hrun := run_applyAll hops
  obtain ⟨harmed, hcons, -, -, hreset, -⟩ := chunk_invariant hrun
  exact ⟨c, hrun, harmed.mpr rfl, hcons 2 3 rfl, hreset 0 3⟩

end VectiLicense.L2.Chunk
