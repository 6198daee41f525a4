import VectiLicense.Core.Blocks
import VectiLicense.Core.Mem

/-!
# The streaming hash: `update` and `final`

`core/vl_sha256.c` and `core/vl_sha512.c` have the same `update` and the same
`final` up to the compression function, the block length, the unit their
counter counts in and the length field. `hashUpdate` and `hashFinal` are these
two functions with the differences as parameters.

The context's buffer is an array. Every copy into it can run past its end,
and is `none` then.

* `hashUpdate_spec`: no update runs past the buffer; afterwards the context
  has absorbed that much more (`Streamed`).
* `hashFinal_spec`: neither does `final`, which folds the padded message.
-/
namespace VectiLicense.L1.Hash

open VectiLicense.Core

/-- `vl_sha256_ctx_t` and `vl_sha512_ctx_t`; `count` is `bit_count` in one and
`byte_count` in the other.
mirrors core/vl_sha256.h:20-25 -/
structure HashCtx (σ : Type) (B : Nat) where
  state : σ
  count : UInt64
  buffer : Buf B
  bufferLen : Nat

section
variable {σ : Type} {B : Nat} (compress : σ → List UInt8 → σ)

/-- `if (ctx->buffer_len > 0u)`: top up the buffer first.
mirrors core/vl_sha256.c:110-123 -/
def hashTopUp (ctx : HashCtx σ B) (p : List UInt8) : Option (HashCtx σ B × List UInt8) :=
  if ctx.bufferLen > 0 then
    let take := min (B - ctx.bufferLen) p.length
    match ctx.buffer.copyIn? ctx.bufferLen (p.take take) with
    | none => none
    | some buffer =>
      let bufferLen := ctx.bufferLen + take
      let p := p.drop take
      if bufferLen = B then
        some ({ ctx with state := compress ctx.state buffer.toList, buffer, bufferLen := 0 }, p)
      else some ({ ctx with buffer, bufferLen }, p)
  else some (ctx, p)

/-- `while (len >= BLOCK_LEN)`, at most `n` times.
mirrors core/vl_sha256.c:124-128 -/
def hashBlocks (B : Nat) : (n : Nat) → σ → List UInt8 → σ × List UInt8
  | 0, state, p => (state, p)
  | n + 1, state, p =>
    if p.length ≥ B then hashBlocks B n (compress state (p.take B)) (p.drop B) else (state, p)

/-- `none` is a NULL `data`, whatever its length; `ctx` is not NULL. A block
has at least one byte, so `|p|` turns are enough for the loop.
mirrors core/vl_sha256.c:92-133, core/vl_sha512.c:106-147 -/
def hashUpdate (unit : UInt64) (ctx : HashCtx σ B) (data : Option (List UInt8)) :
    Option (HashCtx σ B) :=
  match data with
  | none => some ctx
  | some p =>
    if p.length = 0 then some ctx
    else
      let ctx := { ctx with count := ctx.count + UInt64.ofNat p.length * unit }
      match hashTopUp compress ctx p with
      | none => none
      | some (ctx, p) =>
        let (state, p) := hashBlocks compress B p.length ctx.state p
        let ctx := { ctx with state }
        if p.length > 0 then
          match ctx.buffer.copyIn? 0 p with
          | none => none
          | some buffer => some { ctx with buffer, bufferLen := p.length }
        else some ctx

/-- `if (ctx->buffer_len > lenAt)`: no room for the length field in this block.
mirrors core/vl_sha256.c:149-153 -/
def hashSpill (lenAt : Nat) (ctx : HashCtx σ B) : Option (HashCtx σ B) :=
  if ctx.bufferLen > lenAt then
    match ctx.buffer.copyIn? ctx.bufferLen (List.replicate (B - ctx.bufferLen) 0) with
    | none => none
    | some buffer =>
      some { ctx with state := compress ctx.state buffer.toList, buffer, bufferLen := 0 }
  else some ctx

/-- The state after the last block, whose length field `lenField` begins at
`lenAt`.
mirrors core/vl_sha256.c:146-159, core/vl_sha512.c:161-174 -/
def hashFinal (lenAt : Nat) (lenField : List UInt8) (ctx : HashCtx σ B) : Option σ :=
  match ctx.buffer.store? ctx.bufferLen 0x80 with
  | none => none
  | some buffer =>
    match hashSpill compress lenAt { ctx with buffer, bufferLen := ctx.bufferLen + 1 } with
    | none => none
    | some ctx =>
      match ctx.buffer.copyIn? ctx.bufferLen (List.replicate (lenAt - ctx.bufferLen) 0) with
      | none => none
      | some buffer =>
        match buffer.copyIn? lenAt lenField with
        | none => none
        | some buffer => some (compress ctx.state buffer.toList)

end

/-! ## What the context stands for -/

section
variable {σ : Type} {B : Nat} {compress : σ → List UInt8 → σ} {iv : σ}

/-- The used part of the buffer. -/
def HashCtx.pending (ctx : HashCtx σ B) : List UInt8 := ctx.buffer.toList.take ctx.bufferLen

/-- The context has read `m` and nothing else. -/
structure Streamed (compress : σ → List UInt8 → σ) (iv : σ) (unit : UInt64) (m : List UInt8)
    (ctx : HashCtx σ B) : Prop where
  absorbed : Absorbed B compress iv m ctx.state ctx.pending
  len : ctx.bufferLen < B
  count : ctx.count = UInt64.ofNat m.length * unit

theorem HashCtx.length_pending {ctx : HashCtx σ B} (h : ctx.bufferLen ≤ B) :
    ctx.pending.length = ctx.bufferLen := by
  rw [pending, List.length_take, Vector.length_toList, Nat.min_eq_left h]

theorem copyIn_pending {ctx : HashCtx σ B} {ds : List UInt8} (h : ctx.bufferLen + ds.length ≤ B) :
    ∃ q, ctx.buffer.copyIn? ctx.bufferLen ds = some q ∧
      q.toList.take (ctx.bufferLen + ds.length) = ctx.pending ++ ds := by
  obtain ⟨q, hq, htoList⟩ := @Buf.copyIn?_eq _ ctx.buffer ctx.bufferLen ds h
  have hlen : (ctx.pending ++ ds).length = ctx.bufferLen + ds.length := by
    rw [List.length_append, HashCtx.length_pending (by omega)]
  refine ⟨q, hq, ?_⟩
  rw [htoList, ← hlen]
  exact List.take_left' rfl

/-- The counter does not see where the input was cut. -/
theorem count_append (m p : List UInt8) (unit : UInt64) :
    UInt64.ofNat (m ++ p).length * unit =
      UInt64.ofNat m.length * unit + UInt64.ofNat p.length * unit := by
  rw [List.length_append, UInt64.ofNat_add, UInt64.add_mul]

/-! ## `update` -/

/-- The topped-up context and the input that is left, none unless the buffer
has been emptied. -/
theorem hashTopUp_spec {m : List UInt8} {ctx : HashCtx σ B}
    (h : Absorbed B compress iv m ctx.state ctx.pending) (hlen : ctx.bufferLen < B)
    (p : List UInt8) :
    ∃ ctx' used rest, hashTopUp compress ctx p = some (ctx', rest) ∧ p = used ++ rest ∧
      Absorbed B compress iv (m ++ used) ctx'.state ctx'.pending ∧ ctx'.bufferLen < B ∧
      ctx'.count = ctx.count ∧ (ctx'.bufferLen = 0 ∨ rest = []) := by
  unfold hashTopUp
  by_cases h0 : ctx.bufferLen > 0
  · rw [if_pos h0]
    let take := min (B - ctx.bufferLen) p.length
    have htake : (p.take take).length = take := by
      rw [List.length_take]
      omega
    obtain ⟨q, hq, hpending⟩ := @copyIn_pending _ _ ctx (p.take take) (by omega)
    rw [htake] at hpending
    have hfilled : (ctx.pending ++ p.take take).length = ctx.bufferLen + take := by
      rw [List.length_append, HashCtx.length_pending (by omega), htake]
    simp only [hq, take]
    by_cases hfull : ctx.bufferLen + take = B
    · rw [if_pos hfull]
      have hblock : q.toList = ctx.pending ++ p.take take := by
        rw [← hpending, hfull, List.take_of_length_le (by simp)]
      refine ⟨_, p.take take, p.drop take, rfl, (List.take_append_drop ..).symm, ?_,
        Nat.lt_of_le_of_lt (Nat.zero_le _) hlen, rfl, .inl rfl⟩
      have hdone := h.complete (hfilled.trans hfull)
      rw [← hblock] at hdone
      exact hdone
    · rw [if_neg hfull]
      have hall : take = p.length := by omega
      have hroom : ctx.bufferLen + take < B := by omega
      refine ⟨_, p.take take, p.drop take, rfl, (List.take_append_drop ..).symm, ?_, hroom, rfl,
        .inr (List.drop_of_length_le (by omega))⟩
      have hmore := h.fill (p := p.take take) (by omega)
      rw [← hpending] at hmore
      exact hmore
  · rw [if_neg h0]
    exact ⟨ctx, [], p, rfl, rfl, by rwa [List.append_nil], hlen, rfl, .inl (by omega)⟩

/-- The loop folds the complete blocks and leaves less than one. -/
theorem hashBlocks_spec (hB : 0 < B) (n : Nat) {m : List UInt8} {state : σ} {p : List UInt8}
    (hn : p.length ≤ n) (h : Absorbed B compress iv m state []) :
    ∃ state' used rest, hashBlocks compress B n state p = (state', rest) ∧ p = used ++ rest ∧
      rest.length < B ∧ Absorbed B compress iv (m ++ used) state' [] := by
  induction n generalizing m state p with
  | zero =>
    exact ⟨state, [], p, rfl, rfl, by omega, by rwa [List.append_nil]⟩
  | succ n ih =>
    unfold hashBlocks
    by_cases hp : p.length ≥ B
    · rw [if_pos hp]
      have hblock : ([] ++ p.take B).length = B := by
        rw [List.nil_append, List.length_take, Nat.min_eq_left hp]
      obtain ⟨state', used, rest, heq, hsplit, hrest, hdone⟩ :=
        ih (p := p.drop B) (by rw [List.length_drop]; omega) (h.complete hblock)
      refine ⟨state', p.take B ++ used, rest, heq, ?_, hrest, ?_⟩
      · rw [List.append_assoc, ← hsplit, List.take_append_drop]
      · rwa [← List.append_assoc]
    · rw [if_neg hp]
      exact ⟨state, [], p, rfl, rfl, by omega, by rwa [List.append_nil]⟩

theorem hashUpdate_spec {unit : UInt64} {m : List UInt8} {ctx : HashCtx σ B}
    (h : Streamed compress iv unit m ctx) (data : Option (List UInt8)) :
    ∃ ctx', hashUpdate compress unit ctx data = some ctx' ∧
      Streamed compress iv unit (m ++ data.getD []) ctx' := by
  have hB : 0 < B := Nat.lt_of_le_of_lt (Nat.zero_le _) h.len
  unfold hashUpdate
  cases data with
  | none => exact ⟨ctx, rfl, by rwa [Option.getD_none, List.append_nil]⟩
  | some p =>
    dsimp only
    rw [Option.getD_some]
    by_cases hnil : p.length = 0
    · rw [if_pos hnil, List.length_eq_zero_iff.mp hnil, List.append_nil]
      exact ⟨ctx, rfl, h⟩
    rw [if_neg hnil]
    let counted := { ctx with count := ctx.count + UInt64.ofNat p.length * unit }
    have hcount : counted.count = UInt64.ofNat (m ++ p).length * unit := by
      rw [count_append, ← h.count]
    obtain ⟨ctx₁, used, left, htop, rfl, habs, hlen, hcount₁, hempty⟩ :=
      @hashTopUp_spec _ _ _ _ _ counted h.absorbed h.len p
    simp only [counted] at htop
    rw [htop]
    dsimp only
    rcases hempty with h0 | rfl
    · have hnone : ctx₁.pending = [] := by rw [HashCtx.pending, h0, List.take_zero]
      rw [hnone] at habs
      obtain ⟨state, used', rest, hblocks, rfl, hrest, habs'⟩ :=
        hashBlocks_spec hB left.length (Nat.le_refl _) habs
      rw [hblocks]
      dsimp only
      by_cases hmore : rest.length > 0
      · rw [if_pos hmore]
        obtain ⟨q, hq, htoList⟩ := @Buf.copyIn?_eq _ ctx₁.buffer 0 rest (by omega)
        rw [hq]
        refine ⟨_, rfl, ?_, hrest, hcount₁.trans hcount⟩
        have hpending : q.toList.take rest.length = [] ++ rest := by
          rw [htoList, List.take_zero]
          exact List.take_left' rfl
        have hfill := habs'.fill (p := rest) hrest
        rw [← hpending, List.append_assoc, List.append_assoc] at hfill
        exact hfill
      · rw [if_neg hmore]
        refine ⟨_, rfl, ?_, hlen, hcount₁.trans hcount⟩
        have hrest0 : rest = [] := List.length_eq_zero_iff.mp (by omega)
        have hnone' : HashCtx.pending { ctx₁ with state } = [] := hnone
        rw [hnone', hrest0, List.append_nil, ← List.append_assoc]
        exact habs'
    · have hblocks : hashBlocks compress B ([] : List UInt8).length ctx₁.state [] =
          (ctx₁.state, []) := rfl
      rw [hblocks]
      dsimp only
      rw [if_neg (by simp)]
      exact ⟨_, rfl, by rwa [List.append_nil], hlen, hcount₁.trans hcount⟩

/-! ## `final` -/

/-- The last block: zeros up to the length field, then the field. -/
theorem lastBlock_spec {ctx : HashCtx σ B} {lenAt : Nat} {lenField : List UInt8}
    (hroom : ctx.bufferLen ≤ lenAt) (hfield : lenAt + lenField.length = B) :
    ∃ b q, ctx.buffer.copyIn? ctx.bufferLen (List.replicate (lenAt - ctx.bufferLen) 0) = some b ∧
      b.copyIn? lenAt lenField = some q ∧
      q.toList = ctx.pending ++ (List.replicate (lenAt - ctx.bufferLen) 0 ++ lenField) := by
  obtain ⟨b, hb, hzeros⟩ := @copyIn_pending _ _ ctx (List.replicate (lenAt - ctx.bufferLen) 0)
    (by rw [List.length_replicate]; omega)
  rw [List.length_replicate, Nat.add_sub_cancel' hroom] at hzeros
  obtain ⟨q, hq, htoList⟩ := @Buf.copyIn?_eq _ b lenAt lenField (by omega)
  refine ⟨b, q, hb, hq, ?_⟩
  rw [htoList, hzeros, hfield, List.drop_of_length_le (by simp), List.append_nil, List.append_assoc]

/-- **The last call** folds the padded message. -/
theorem hashFinal_spec {lenAt : Nat} {lenField m : List UInt8} {ctx : HashCtx σ B}
    (hlenAt : lenAt < B) (hfield : lenAt + lenField.length = B)
    (h : Absorbed B compress iv m ctx.state ctx.pending) (hlen : ctx.bufferLen < B) :
    hashFinal compress lenAt lenField ctx =
      some (absorb B compress iv (m ++ mdPad B lenAt m.length lenField)) := by
  have hB : 0 < B := Nat.lt_of_le_of_lt (Nat.zero_le _) hlen
  have hr : m.length % B = ctx.bufferLen := by
    rw [h.length_mod, HashCtx.length_pending (by omega)]
  rw [h.finish, mdPad, padZeros_eq hr hlen hlenAt]
  let marked : HashCtx σ B := { ctx with
    buffer := ctx.buffer.set ctx.bufferLen 0x80, bufferLen := ctx.bufferLen + 1 }
  have hmarked : marked.pending = ctx.pending ++ [0x80] := Buf.take_set_succ hlen 0x80
  have hstore : ctx.buffer.store? ctx.bufferLen 0x80 = some marked.buffer := Buf.store?_eq hlen
  unfold hashFinal hashSpill
  simp only [hstore]
  by_cases hroom : ctx.bufferLen + 1 ≤ lenAt
  · rw [if_neg (by omega), if_pos hroom]
    obtain ⟨b, q, hb, hq, htoList⟩ := @lastBlock_spec _ _ marked lenAt lenField hroom hfield
    have hb' : marked.buffer.copyIn? (ctx.bufferLen + 1)
        (List.replicate (lenAt - (ctx.bufferLen + 1)) 0) = some b := hb
    simp only [hb', hq]
    have hblock : ctx.pending ++ 0x80 ::
        (List.replicate (lenAt - (ctx.bufferLen + 1)) 0 ++ lenField) = q.toList := by
      rw [htoList, hmarked, List.append_assoc, List.singleton_append]
    rw [hblock, absorb_block hB _ (by simp)]
  · rw [if_pos (by omega), if_neg hroom]
    obtain ⟨b, hb, hzeros⟩ := @copyIn_pending _ _ marked
      (List.replicate (B - (ctx.bufferLen + 1)) 0)
      (by rw [List.length_replicate]; show ctx.bufferLen + 1 + _ ≤ B; omega)
    have hb' : marked.buffer.copyIn? (ctx.bufferLen + 1)
        (List.replicate (B - (ctx.bufferLen + 1)) 0) = some b := hb
    have hfirst : b.toList = ctx.pending ++ 0x80 :: List.replicate (B - (ctx.bufferLen + 1)) 0 := by
      have hend : marked.bufferLen + (B - (ctx.bufferLen + 1)) = B := by
        show ctx.bufferLen + 1 + _ = B
        omega
      rw [List.length_replicate, hend, List.take_of_length_le (by simp), hmarked] at hzeros
      rw [hzeros, List.append_assoc, List.singleton_append]
    let spilt : HashCtx σ B := { marked with
      state := compress ctx.state b.toList, buffer := b, bufferLen := 0 }
    obtain ⟨b₂, q, hb₂, hq, htoList⟩ :=
      @lastBlock_spec _ _ spilt lenAt lenField (Nat.zero_le _) hfield
    have hb₂' : b.copyIn? 0 (List.replicate (lenAt - 0) 0) = some b₂ := hb₂
    simp only [hb', hb₂', hq]
    have hsecond : q.toList = List.replicate lenAt 0 ++ lenField := htoList
    have hsplit : ctx.pending ++ 0x80 ::
        (List.replicate (B - (ctx.bufferLen + 1) + lenAt) 0 ++ lenField) = b.toList ++ q.toList := by
      rw [hfirst, hsecond, ← List.replicate_append_replicate]
      simp only [List.append_assoc, List.cons_append]
    rw [hsplit, absorb_append hB _ (by simp), absorb_block hB _ (by simp),
      absorb_block hB _ (by simp)]

end

end VectiLicense.L1.Hash
