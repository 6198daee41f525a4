import VectiLicense.Core.Mem
import VectiLicense.L0Api.Header

/-!
# Chunk reassembly: `transport/vl_chunk.c`

`vlChunkFeed` stores chunk `seq` at `buf[seq * chunk_size ..]` and marks it in
the bitmap `seen`; `have` counts the marks and `vlChunkComplete` compares it
with `expect`. Loads and stores on the state's own arrays are checked: a call
that answers has stayed inside them.

The specification keeps no state. A feed is `WellFormed` for its position and
length alone, and what a position holds is its `firstCopy`: the bytes of the
first well-formed feed of that `seq` in the whole sequence.

* `feed_spec`: one feed from a state that satisfies `Inv` for the feeds before.
* `reassembly`: status of every feed, and `vlChunkComplete` after them.
-/
namespace VectiLicense.L2.Chunk

open VectiLicense.Core VectiLicense.L0

/-- mirrors transport/vl_chunk.h:62-64 -/
def VL_CHUNK_MAX_LEN : Nat := 192

/-- mirrors transport/vl_chunk.h:69-77 -/
structure VlChunk where
  buf : Buf 193
  seen : Buf 24
  chunkSize : UInt32
  totalLen : UInt32
  expect : UInt32
  haveCount : UInt32
  armed : UInt8
  deriving DecidableEq, Repr

/-- `memset(c, 0, sizeof *c)` -/
def VlChunk.zero : VlChunk := ⟨Vector.replicate 193 0, Vector.replicate 24 0, 0, 0, 0, 0, 0⟩

/-- mirrors transport/vl_chunk.c:17-49 -/
def vlChunkReset : Option VlChunk → Nat → Nat → VlStatus × Option VlChunk
  | none, _, _ => (.errInvalidArg, none)
  | some _, chunkSize, totalLen =>
    let cs := UInt32.ofNat chunkSize
    if cs = 0 ∨ cs.toNat ≠ chunkSize then (.errInvalidArg, some VlChunk.zero)
    else if totalLen = 0 ∨ totalLen > VL_CHUNK_MAX_LEN then (.errInvalidArg, some VlChunk.zero)
    else
      (.ok, some { VlChunk.zero with
        chunkSize := cs
        totalLen := UInt32.ofNat totalLen
        expect := UInt32.ofNat ((totalLen - 1) / cs.toNat + 1)
        armed := 1 })

/-- A `const void *data, size_t len` pair: NULL with a length, or that many bytes. -/
inductive Span where
  | null (len : Nat)
  | bytes (data : List UInt8)
  deriving DecidableEq, Repr

/-- From the sequence bound on, with `data` readable for its length.
mirrors transport/vl_chunk.c:60-84 -/
def feedBytes (c : VlChunk) (seq : UInt32) (data : List UInt8) : Option (VlStatus × VlChunk) :=
  if seq ≥ c.expect then some (.errBadFormat, c)
  else
    let off := seq * c.chunkSize
    let want := c.totalLen - off
    let want := if want > c.chunkSize then c.chunkSize else want
    if data.length ≠ want.toNat then some (.errBadFormat, c)
    else
      let mask := ((1 : UInt32) <<< (seq &&& 7)).toUInt8
      let i := (seq >>> 3).toNat
      if h : i < 24 then
        if c.seen[i] &&& mask ≠ 0 then
          (c.buf.read? off.toNat data.length).map fun held =>
            (if held = data then .ok else .errBadFormat, c)
        else
          (c.buf.copyIn? off.toNat data).map fun buf =>
            (.ok, { c with
              buf, seen := c.seen.set i (c.seen[i] ||| mask), haveCount := c.haveCount + 1 })
      else none

/-- `none` is an access outside the state's arrays.
mirrors transport/vl_chunk.c:51-85 -/
def vlChunkFeed : Option VlChunk → UInt32 → Span → Option (VlStatus × Option VlChunk)
  | none, _, _ => some (.errInvalidArg, none)
  | some c, seq, data =>
    if c.armed = 0 then some (.errInvalidArg, some c)
    else
      match data with
      | .null len =>
        if len ≠ 0 then some (.errInvalidArg, some c)
        else (feedBytes c seq []).map fun (st, c) => (st, some c)
      | .bytes ds => (feedBytes c seq ds).map fun (st, c) => (st, some c)

/-- A return value, the stores through `out`, and what `*out_len` was set to. -/
structure CompleteResult where
  status : VlStatus
  writes : Writes
  outLen : Option Nat
  deriving DecidableEq, Repr

/-- mirrors transport/vl_chunk.c:87-102 -/
def vlChunkComplete (c : Option VlChunk) (out : OutPtr) (cap : Nat) (outLen : OutPtr) :
    Option CompleteResult :=
  match c, out, outLen with
  | some c, .buf, .buf =>
    if c.armed = 0 then some ⟨.errInvalidArg, [], some 0⟩
    else if c.haveCount ≠ c.expect then some ⟨.errNotFound, [], some 0⟩
    else if cap < c.totalLen.toNat + 1 then some ⟨.errBufferTooSmall, [], some 0⟩
    else
      (c.buf.read? 0 c.totalLen.toNat).map fun msg =>
        ⟨.ok, seqWrites (msg ++ [0]), some c.totalLen.toNat⟩
  | _, _, _ => some ⟨.errInvalidArg, [], none⟩

abbrev Feed := UInt32 × Span

/-- Feeds one after another: each one's status, and the state after them. -/
def feedAll (c : VlChunk) : List Feed → Option (List VlStatus × VlChunk)
  | [] => some ([], c)
  | f :: fs =>
    match vlChunkFeed (some c) f.1 f.2 with
    | some (st, some c') => (feedAll c' fs).map fun (sts, c'') => (st :: sts, c'')
    | _ => none

/-! ## The specification -/

/-- `ceil(total_len / chunk_size)` -/
def chunkCount (cs tl : Nat) : Nat := (tl + cs - 1) / cs

/-- The length chunk `seq` must have. -/
def chunkLen (cs tl seq : Nat) : Nat := min cs (tl - seq * cs)

/-- Chunk `seq` of a message. -/
def chunk (cs : Nat) (msg : List UInt8) (seq : Nat) : List UInt8 := (msg.drop (seq * cs)).take cs

/-- The bytes of a feed with a position in range and the length of that position. -/
def wellFormed? (cs tl : Nat) (f : Feed) : Option (List UInt8) :=
  match f.2 with
  | .null _ => none
  | .bytes ds =>
    if f.1.toNat < chunkCount cs tl ∧ ds.length = chunkLen cs tl f.1.toNat then some ds else none

def WellFormed (cs tl : Nat) (f : Feed) : Prop := (wellFormed? cs tl f).isSome

/-- The bytes of the first well-formed feed of `seq`. -/
def firstCopy (cs tl : Nat) (feeds : List Feed) (seq : Nat) : Option (List UInt8) :=
  feeds.findSome? fun f => if f.1.toNat = seq then wellFormed? cs tl f else none

/-- A well-formed feed that agrees with the first of its position. -/
def Agrees (cs tl : Nat) (feeds : List Feed) (f : Feed) : Prop :=
  WellFormed cs tl f ∧ firstCopy cs tl feeds f.1.toNat = wellFormed? cs tl f

/-! ## Positions -/

theorem chunkCount_eq {cs tl : Nat} (hcs : 1 ≤ cs) (htl : 1 ≤ tl) :
    chunkCount cs tl = (tl - 1) / cs + 1 := by
  unfold chunkCount
  rw [show tl + cs - 1 = tl - 1 + cs by omega, Nat.add_div_right _ hcs]

/-- A position in range starts inside the message. -/
theorem seq_mul_lt {cs tl seq : Nat} (hcs : 1 ≤ cs) (htl : 1 ≤ tl) (h : seq < chunkCount cs tl) :
    seq * cs < tl := by
  rw [chunkCount_eq hcs htl] at h
  have h₁ : seq * cs ≤ (tl - 1) / cs * cs := Nat.mul_le_mul_right cs (by omega)
  have h₂ := Nat.div_mul_le_self (tl - 1) cs
  omega

theorem chunkCount_le {cs tl : Nat} (hcs : 1 ≤ cs) (htl : 1 ≤ tl) : chunkCount cs tl ≤ tl := by
  rw [chunkCount_eq hcs htl]
  have := Nat.div_le_self (tl - 1) cs
  omega

theorem ranges_disjoint {cs tl i j : Nat} (h : i ≠ j) :
    i * cs + chunkLen cs tl i ≤ j * cs ∨ j * cs + chunkLen cs tl j ≤ i * cs := by
  unfold chunkLen
  rcases Nat.lt_or_gt_of_ne h with h | h
  · have : (i + 1) * cs ≤ j * cs := Nat.mul_le_mul_right cs h
    rw [Nat.add_mul] at this
    omega
  · have : (j + 1) * cs ≤ i * cs := Nat.mul_le_mul_right cs h
    rw [Nat.add_mul] at this
    omega

/-- A message is determined by its length and its chunks. -/
theorem eq_of_chunks {cs tl : Nat} (hcs : 1 ≤ cs) (htl : 1 ≤ tl) {a b : List UInt8}
    (ha : a.length = tl) (hb : b.length = tl)
    (h : ∀ seq < chunkCount cs tl, chunk cs a seq = chunk cs b seq) : a = b := by
  apply List.ext_getElem?
  intro i
  by_cases hi : i < tl
  · have hseq : i / cs < chunkCount cs tl := by
      rw [chunkCount_eq hcs htl]
      have := Nat.div_le_div_right (c := cs) (show i ≤ tl - 1 by omega)
      omega
    have hc := congrArg (fun l => l[i % cs]?) (h _ hseq)
    have hlt : i % cs < cs := Nat.mod_lt i hcs
    simpa only [chunk, List.getElem?_take_of_lt hlt, List.getElem?_drop,
      Nat.mul_comm (i / cs) cs, Nat.div_add_mod] using hc
  · rw [List.getElem?_eq_none (by omega), List.getElem?_eq_none (by omega)]

theorem length_chunk {cs tl seq : Nat} {msg : List UInt8} (h : msg.length = tl) :
    (chunk cs msg seq).length = chunkLen cs tl seq := by
  simp [chunk, chunkLen, h]

/-! ## First copies -/

section
variable {cs tl : Nat}

theorem firstCopy_append (fs gs : List Feed) (seq : Nat) :
    firstCopy cs tl (fs ++ gs) seq = (firstCopy cs tl fs seq).or (firstCopy cs tl gs seq) := by
  simp [firstCopy, List.findSome?_append]

theorem firstCopy_singleton (f : Feed) (seq : Nat) :
    firstCopy cs tl [f] seq = if f.1.toNat = seq then wellFormed? cs tl f else none := by
  unfold firstCopy
  simp only [List.findSome?_cons, List.findSome?_nil]
  split <;> simp_all

theorem wellFormed?_spec {f : Feed} {ds : List UInt8} (h : wellFormed? cs tl f = some ds) :
    f.2 = .bytes ds ∧ f.1.toNat < chunkCount cs tl ∧ ds.length = chunkLen cs tl f.1.toNat := by
  unfold wellFormed? at h
  split at h
  · cases h
  · split at h
    · rename_i ds' heq hw
      rw [Option.some.injEq] at h
      subst h
      exact ⟨heq, hw⟩
    · cases h

/-- A first copy is a well-formed feed of its position. -/
theorem firstCopy_spec {fs : List Feed} {seq : Nat} {ds : List UInt8}
    (h : firstCopy cs tl fs seq = some ds) :
    (∃ f ∈ fs, f.1.toNat = seq ∧ wellFormed? cs tl f = some ds) ∧ seq < chunkCount cs tl ∧
      ds.length = chunkLen cs tl seq := by
  obtain ⟨f, hf, h⟩ := List.exists_of_findSome?_eq_some h
  split at h
  · rename_i hseq
    have hs := wellFormed?_spec h
    rw [hseq] at hs
    exact ⟨⟨f, hf, hseq, h⟩, hs.2⟩
  · cases h

theorem firstCopy_isSome {fs : List Feed} {seq : Nat} :
    (firstCopy cs tl fs seq).isSome ↔ ∃ f ∈ fs, f.1.toNat = seq ∧ WellFormed cs tl f := by
  unfold firstCopy WellFormed
  rw [List.findSome?_isSome_iff]
  refine ⟨?_, ?_⟩
  · intro h
    obtain ⟨f, hf, h⟩ := h
    by_cases hs : f.1.toNat = seq
    · exact ⟨f, hf, hs, by simpa [hs] using h⟩
    · simp [hs] at h
  · intro h
    obtain ⟨f, hf, hs, hw⟩ := h
    exact ⟨f, hf, by simpa [hs] using hw⟩

end

/-- Adding one index to a set adds one to its count. -/
theorem countP_range_insert {n j : Nat} {p q : Nat → Bool} (hj : j < n) (hp : p j = false)
    (hq : ∀ i, q i = (p i || decide (i = j))) :
    (List.range n).countP q = (List.range n).countP p + 1 := by
  induction n with
  | zero => omega
  | succ n ih =>
    rw [List.range_succ, List.countP_append, List.countP_append, List.countP_singleton,
      List.countP_singleton, hq n]
    by_cases hn : n = j
    · have hsame : (List.range n).countP q = (List.range n).countP p := by
        refine List.countP_congr fun i hi => ?_
        have : ¬ i = j := by have := List.mem_range.mp hi; omega
        simp [hq, this]
      rw [hsame, hn, hp]
      simp
    · rw [ih (by omega)]
      simp only [hn, decide_false, Bool.or_false]
      omega

/-! ## The invariant -/

/-- The sizes a successful `vl_chunk_reset` stored. -/
structure Sizes (cs tl : Nat) (c : VlChunk) : Prop where
  cs_pos : 1 ≤ cs
  tl_pos : 1 ≤ tl
  tl_le : tl ≤ VL_CHUNK_MAX_LEN
  chunkSize : c.chunkSize.toNat = cs
  totalLen : c.totalLen.toNat = tl
  expect : c.expect.toNat = chunkCount cs tl
  armed : c.armed ≠ 0

/-- The state after the feeds `fs`. -/
structure Inv (cs tl : Nat) (fs : List Feed) (c : VlChunk) : Prop extends Sizes cs tl c where
  seen : ∀ seq, c.seen.bit seq = (firstCopy cs tl fs seq).isSome
  count : c.haveCount.toNat =
    (List.range (chunkCount cs tl)).countP fun seq => (firstCopy cs tl fs seq).isSome
  held : ∀ seq ds, firstCopy cs tl fs seq = some ds →
    c.buf.read? (seq * cs) ds.length = some ds

theorem reset_ok (c₀ : VlChunk) {cs tl : Nat} (hcs : 1 ≤ cs) (hfit : cs < 2 ^ 32) (htl : 1 ≤ tl)
    (hmax : tl ≤ VL_CHUNK_MAX_LEN) : ∃ c, vlChunkReset (some c₀) cs tl = (.ok, some c) := by
  have hback : (UInt32.ofNat cs).toNat = cs := by
    rw [UInt32.toNat_ofNat']
    exact Nat.mod_eq_of_lt hfit
  have hne : ¬ UInt32.ofNat cs = 0 := fun h0 => by
    rw [h0, UInt32.toNat_zero] at hback
    omega
  unfold vlChunkReset
  dsimp only
  rw [if_neg (not_or.mpr ⟨hne, not_not_intro hback⟩), if_neg (by omega)]
  exact ⟨_, rfl⟩

theorem reset_inv {c₀ c : VlChunk} {cs tl : Nat}
    (h : vlChunkReset (some c₀) cs tl = (.ok, some c)) : Inv cs tl [] c := by
  unfold vlChunkReset at h
  simp only at h
  split at h
  · cases h
  split at h
  · cases h
  rename_i hcs htl
  rw [Prod.mk.injEq, Option.some.injEq] at h
  obtain ⟨-, rfl⟩ := h
  have hcs0 : ¬ UInt32.ofNat cs = 0 := fun h0 => hcs (.inl h0)
  have hcsn : (UInt32.ofNat cs).toNat = cs := by
    by_cases hn : (UInt32.ofNat cs).toNat = cs
    · exact hn
    · exact absurd (.inr hn) hcs
  have hcs1 : 1 ≤ cs := by
    rcases Nat.eq_zero_or_pos cs with h0 | h0
    · exact absurd (by rw [h0]; rfl) hcs0
    · exact h0
  have htl1 : 1 ≤ tl := by omega
  have hmax : tl ≤ VL_CHUNK_MAX_LEN := by omega
  have hcount := chunkCount_le hcs1 htl1
  have hsmall : VL_CHUNK_MAX_LEN < 2 ^ 32 := by decide
  refine ⟨⟨hcs1, htl1, hmax, hcsn, ?_, ?_, by simp⟩, ?_, ?_, ?_⟩
  · show (UInt32.ofNat tl).toNat = tl
    rw [UInt32.toNat_ofNat']
    exact Nat.mod_eq_of_lt (by omega)
  · show (UInt32.ofNat ((tl - 1) / (UInt32.ofNat cs).toNat + 1)).toNat = _
    rw [hcsn, ← chunkCount_eq hcs1 htl1, UInt32.toNat_ofNat']
    exact Nat.mod_eq_of_lt (by omega)
  · intro seq
    exact Buf.bit_replicate seq
  · simp [firstCopy, VlChunk.zero]
  · intro seq ds h
    cases h

/-- Where the code puts chunk `seq`, and how long it wants it: no product or
difference wraps. -/
theorem Sizes.position {cs tl : Nat} {c : VlChunk} (h : Sizes cs tl c) {seq : UInt32}
    (hs : seq.toNat < chunkCount cs tl) :
    (seq * c.chunkSize).toNat = seq.toNat * cs ∧
      (if c.totalLen - seq * c.chunkSize > c.chunkSize then c.chunkSize
        else c.totalLen - seq * c.chunkSize).toNat = chunkLen cs tl seq.toNat ∧
      seq.toNat * cs + chunkLen cs tl seq.toNat ≤ VL_CHUNK_MAX_LEN := by
  have hlt := seq_mul_lt h.cs_pos h.tl_pos hs
  have hmax := h.tl_le
  have hsmall : VL_CHUNK_MAX_LEN < 2 ^ 32 := by decide
  have hoff : (seq * c.chunkSize).toNat = seq.toNat * cs := by
    rw [UInt32.toNat_mul, h.chunkSize]
    exact Nat.mod_eq_of_lt (by omega)
  have hsub : (c.totalLen - seq * c.chunkSize).toNat = tl - seq.toNat * cs := by
    rw [UInt32.toNat_sub_of_le _ _ (by rw [UInt32.le_iff_toNat_le, hoff, h.totalLen]; omega),
      hoff, h.totalLen]
  refine ⟨hoff, ?_, by unfold chunkLen; omega⟩
  unfold chunkLen
  have hcs := h.chunkSize
  split
  · rename_i hgt
    rw [gt_iff_lt, UInt32.lt_iff_toNat_lt, hsub, hcs] at hgt
    omega
  · rename_i hgt
    rw [gt_iff_lt, UInt32.lt_iff_toNat_lt, hsub, hcs] at hgt
    omega

theorem seq_bit (seq : UInt32) :
    (seq >>> 3).toNat = seq.toNat / 8 ∧
      (((1 : UInt32) <<< (seq &&& 7)).toUInt8).toNat = 2 ^ (seq.toNat % 8) := by
  have hk : (seq &&& 7).toNat = seq.toNat % 8 := by
    rw [UInt32.toNat_and]
    exact Nat.and_two_pow_sub_one_eq_mod seq.toNat 3
  have hlt : seq.toNat % 8 < 8 := Nat.mod_lt _ (by decide)
  have hpow : 2 ^ (seq.toNat % 8) < 2 ^ 8 := Nat.pow_lt_pow_right (by decide) hlt
  refine ⟨?_, ?_⟩
  · rw [UInt32.toNat_shiftRight]
    exact Nat.shiftRight_eq_div_pow _ _
  · rw [UInt32.toNat_toUInt8, UInt32.toNat_shiftLeft, hk, Nat.mod_eq_of_lt (show _ < 32 by omega),
      Nat.shiftLeft_eq]
    simp only [UInt32.toNat_one, Nat.one_mul]
    rw [Nat.mod_eq_of_lt (Nat.lt_of_lt_of_le hpow (by decide)), Nat.mod_eq_of_lt hpow]

/-! ## One feed -/

/-- The invariant sees the history through its first copies alone. -/
theorem Inv.congr {cs tl : Nat} {fs gs : List Feed} {c : VlChunk} (h : Inv cs tl fs c)
    (hf : ∀ seq, firstCopy cs tl gs seq = firstCopy cs tl fs seq) : Inv cs tl gs c := by
  refine ⟨h.toSizes, fun seq => by rw [hf]; exact h.seen seq, ?_, fun seq ds => ?_⟩
  · simp only [hf]; exact h.count
  · rw [hf]; exact h.held seq ds

/-- A feed that is not well-formed leaves the first copies as they were. -/
theorem firstCopy_skip {cs tl : Nat} {f : Feed} (hw : wellFormed? cs tl f = none) (fs : List Feed)
    (seq : Nat) : firstCopy cs tl (fs ++ [f]) seq = firstCopy cs tl fs seq := by
  rw [firstCopy_append, firstCopy_singleton, hw]
  simp

theorem not_agrees {cs tl : Nat} {f : Feed} (hw : wellFormed? cs tl f = none) (fs : List Feed) :
    ¬ Agrees cs tl fs f := fun ha => by
  have := ha.1
  simp [WellFormed, hw] at this

theorem Inv.store {cs tl : Nat} {fs : List Feed} {c : VlChunk} (h : Inv cs tl fs c) {seq : UInt32}
    {ds : List UInt8} (hw : wellFormed? cs tl (seq, .bytes ds) = some ds)
    (hnew : firstCopy cs tl fs seq.toNat = none) {buf : Buf 193} {seen : Buf 24}
    (hbuf : c.buf.copyIn? (seq.toNat * cs) ds = some buf)
    (hseen : ∀ j, seen.bit j = (c.seen.bit j || decide (j = seq.toNat))) :
    Inv cs tl (fs ++ [(seq, .bytes ds)]) { c with buf, seen, haveCount := c.haveCount + 1 } := by
  obtain ⟨-, hlt, hlen⟩ := wellFormed?_spec hw
  have hfirst : ∀ j, firstCopy cs tl (fs ++ [(seq, .bytes ds)]) j =
      if seq.toNat = j then some ds else firstCopy cs tl fs j := by
    intro j
    rw [firstCopy_append, firstCopy_singleton]
    by_cases hj : seq.toNat = j
    · subst hj
      simp [hnew, hw]
    · simp [hj]
  have hsome : ∀ j, (firstCopy cs tl (fs ++ [(seq, .bytes ds)]) j).isSome =
      ((firstCopy cs tl fs j).isSome || decide (j = seq.toNat)) := by
    intro j
    rw [hfirst]
    by_cases hj : seq.toNat = j
    · simp [hj]
    · simp [hj, Ne.symm hj]
  refine ⟨⟨h.cs_pos, h.tl_pos, h.tl_le, h.chunkSize, h.totalLen, h.expect, h.armed⟩, ?_, ?_, ?_⟩
  · intro j
    rw [hsome, hseen, h.seen]
  · have hins := countP_range_insert hlt (by simp [hnew]) hsome
    have hle : (List.range (chunkCount cs tl)).countP
        (fun j => (firstCopy cs tl fs j).isSome) ≤ VL_CHUNK_MAX_LEN := by
      refine Nat.le_trans List.countP_le_length ?_
      rw [List.length_range]
      exact Nat.le_trans (chunkCount_le h.cs_pos h.tl_pos) h.tl_le
    have hsmall : VL_CHUNK_MAX_LEN < 2 ^ 32 - 1 := by decide
    show (c.haveCount + 1).toNat = _
    rw [hins, UInt32.toNat_add, h.count, UInt32.toNat_one]
    exact Nat.mod_eq_of_lt (by omega)
  · intro j es hj
    rw [hfirst] at hj
    by_cases hs : seq.toNat = j
    · rw [if_pos hs, Option.some.injEq] at hj
      subst hj hs
      exact Buf.read?_copyIn hbuf
    · rw [if_neg hs] at hj
      have hjlen := (firstCopy_spec hj).2.2
      show buf.read? (j * cs) es.length = some es
      rw [Buf.read?_copyIn_disjoint hbuf, h.held j es hj]
      rw [hjlen, hlen]
      exact (@ranges_disjoint cs tl _ _ hs).symm

theorem feedBytes_spec {cs tl : Nat} {fs : List Feed} {c : VlChunk} (h : Inv cs tl fs c)
    (seq : UInt32) (ds : List UInt8) :
    ∃ st c', feedBytes c seq ds = some (st, c') ∧ Inv cs tl (fs ++ [(seq, .bytes ds)]) c' ∧
      (st = .ok ↔ Agrees cs tl (fs ++ [(seq, .bytes ds)]) (seq, .bytes ds)) := by
  unfold feedBytes
  by_cases hge : seq ≥ c.expect
  · rw [if_pos hge]
    rw [ge_iff_le, UInt32.le_iff_toNat_le, h.expect] at hge
    have hw : wellFormed? cs tl (seq, .bytes ds) = none := if_neg (by simp only; omega)
    exact ⟨_, c, rfl, h.congr (firstCopy_skip hw fs), by simpa using not_agrees hw _⟩
  rw [if_neg hge]
  rw [ge_iff_le, UInt32.le_iff_toNat_le, h.expect] at hge
  have hlt : seq.toNat < chunkCount cs tl := by omega
  obtain ⟨hoff, hwant, hfit⟩ := h.toSizes.position hlt
  simp only [hoff, hwant]
  by_cases hlen : ds.length = chunkLen cs tl seq.toNat
  · rw [if_neg (by simpa using hlen)]
    have hw : wellFormed? cs tl (seq, .bytes ds) = some ds := if_pos ⟨hlt, hlen⟩
    obtain ⟨hidx, hmask⟩ := seq_bit seq
    have hmax := h.tl_le
    have hcount := chunkCount_le h.cs_pos h.tl_pos
    have hi : seq.toNat / 8 < 24 := by unfold VL_CHUNK_MAX_LEN at hmax; omega
    have hbufsize : VL_CHUNK_MAX_LEN ≤ 193 := by decide
    simp only [hidx, hi, dif_pos]
    have hbit : c.seen.bit seq.toNat = (c.seen[seq.toNat / 8]).toNat.testBit (seq.toNat % 8) := by
      rw [Buf.bit, Vector.getElem?_eq_getElem hi, Option.getD_some]
    by_cases hseen : c.seen[seq.toNat / 8] &&& ((1 : UInt32) <<< (seq &&& 7)).toUInt8 ≠ 0
    · -- a copy is held: the new one only has to agree with it
      rw [if_pos hseen]
      rw [Buf.and_mask_ne_zero hmask, ← hbit, h.seen] at hseen
      obtain ⟨es, hes⟩ := Option.isSome_iff_exists.mp hseen
      have heslen := (firstCopy_spec hes).2.2
      have hread := h.held _ _ hes
      rw [heslen, ← hlen] at hread
      have hkeep : ∀ j, firstCopy cs tl (fs ++ [(seq, .bytes ds)]) j = firstCopy cs tl fs j := by
        intro j
        rw [firstCopy_append, firstCopy_singleton]
        by_cases hj : seq.toNat = j
        · subst hj
          simp [hes]
        · simp [hj]
      refine ⟨_, c, by rw [hread, Option.map_some], h.congr hkeep, ?_⟩
      unfold Agrees WellFormed
      rw [hkeep, hes, hw]
      by_cases heq : es = ds <;> simp [heq]
    · rw [if_neg hseen]
      rw [Buf.and_mask_ne_zero hmask, ← hbit, h.seen, Bool.not_eq_true,
        Option.isSome_eq_false_iff, Option.isNone_iff_eq_none] at hseen
      obtain ⟨buf, hbuf⟩ : ∃ buf, c.buf.copyIn? (seq.toNat * cs) ds = some buf := by
        rw [Buf.copyIn?, if_pos (by omega)]
        exact ⟨_, rfl⟩
      refine ⟨.ok, _, by rw [hbuf, Option.map_some],
        h.store hw hseen hbuf (Buf.bit_set hi hmask), ?_⟩
      unfold Agrees WellFormed
      rw [firstCopy_append, firstCopy_singleton, hseen, hw]
      simp
  · rw [if_pos (by simpa using hlen)]
    have hw : wellFormed? cs tl (seq, .bytes ds) = none := if_neg fun hw => hlen hw.2
    exact ⟨_, c, rfl, h.congr (firstCopy_skip hw fs), by simpa using not_agrees hw _⟩

theorem empty_not_wellFormed {cs tl : Nat} (hcs : 1 ≤ cs) (htl : 1 ≤ tl) (seq : UInt32) :
    wellFormed? cs tl (seq, .bytes []) = none := by
  refine if_neg fun hw => ?_
  have hlt : seq.toNat * cs < tl := seq_mul_lt hcs htl hw.1
  have hlen : 0 = chunkLen cs tl seq.toNat := hw.2
  unfold chunkLen at hlen
  omega

theorem feed_spec {cs tl : Nat} {fs : List Feed} {c : VlChunk} (h : Inv cs tl fs c) (f : Feed) :
    ∃ st c', vlChunkFeed (some c) f.1 f.2 = some (st, some c') ∧ Inv cs tl (fs ++ [f]) c' ∧
      (st = .ok ↔ Agrees cs tl (fs ++ [f]) f) := by
  obtain ⟨seq, data⟩ := f
  simp only [vlChunkFeed, h.armed, if_false]
  cases data with
  | bytes ds =>
    obtain ⟨st, c', hf, hinv, hst⟩ := feedBytes_spec h seq ds
    exact ⟨st, c', by simp only [hf, Option.map_some], hinv, hst⟩
  | null len =>
    have hnull : wellFormed? cs tl (seq, .null len) = none := rfl
    by_cases hlen : len = 0
    · -- NULL with length 0 is an empty chunk
      have hempty := empty_not_wellFormed h.cs_pos h.tl_pos seq
      obtain ⟨st, c', hf, hinv, hst⟩ := feedBytes_spec h seq []
      refine ⟨st, c', by simp only [hlen, ne_eq, not_true, if_false, hf, Option.map_some],
        hinv.congr fun j => ?_, ?_⟩
      · rw [firstCopy_skip hnull, firstCopy_skip hempty]
      · rw [hst]
        exact iff_of_false (not_agrees hempty _) (not_agrees hnull _)
    · exact ⟨.errInvalidArg, c, by simp only [ne_eq, hlen, not_false_eq_true, if_true],
        h.congr (firstCopy_skip hnull fs), iff_of_false (by simp) (not_agrees hnull _)⟩

/-! ## Sequences of feeds -/

/-- Later feeds do not change whether a feed agreed with the first of its position. -/
theorem agrees_append {cs tl : Nat} {fs : List Feed} {f : Feed} (gs : List Feed) (hf : f ∈ fs) :
    Agrees cs tl (fs ++ gs) f ↔ Agrees cs tl fs f := by
  unfold Agrees
  refine and_congr_right fun hw => ?_
  obtain ⟨ds, hds⟩ := Option.isSome_iff_exists.mp (firstCopy_isSome.mpr ⟨f, hf, rfl, hw⟩)
  rw [firstCopy_append, hds, Option.some_or]

theorem feedAll_spec {cs tl : Nat} (gs : List Feed) : ∀ (fs : List Feed) (c : VlChunk),
    Inv cs tl fs c → ∃ sts c', feedAll c gs = some (sts, c') ∧ Inv cs tl (fs ++ gs) c' ∧
      sts.length = gs.length ∧
      ∀ x ∈ gs.zip sts, (x.2 = .ok ↔ Agrees cs tl (fs ++ gs) x.1) := by
  induction gs with
  | nil =>
    intro fs c h
    exact ⟨[], c, rfl, by simpa using h, rfl, by simp⟩
  | cons f gs ih =>
    intro fs c h
    obtain ⟨st, c₁, hf, hinv, hst⟩ := feed_spec h f
    obtain ⟨sts, c', hfs, hinv', hlen, hsts⟩ := ih _ c₁ hinv
    rw [List.append_assoc, List.singleton_append] at hinv' hsts
    refine ⟨st :: sts, c', by simp only [feedAll, hf, hfs, Option.map_some], hinv',
      by simp [hlen], ?_⟩
    intro x hx
    rcases List.mem_cons.mp (List.zip_cons_cons ▸ hx) with rfl | hx
    · have happ := @agrees_append cs tl _ f gs (show f ∈ fs ++ [f] by simp)
      rw [List.append_assoc, List.singleton_append] at happ
      rw [hst, happ]
    · exact hsts x hx

/-- The counter agrees with the bitmap. -/
theorem Inv.complete_iff {cs tl : Nat} {fs : List Feed} {c : VlChunk} (h : Inv cs tl fs c) :
    c.haveCount = c.expect ↔ ∀ seq < chunkCount cs tl, (firstCopy cs tl fs seq).isSome := by
  rw [← UInt32.toNat_inj, h.count, h.expect]
  have hl : chunkCount cs tl = (List.range (chunkCount cs tl)).length := List.length_range.symm
  conv => lhs; rhs; rw [hl]
  rw [List.countP_eq_length]
  simp only [List.mem_range]

theorem complete_spec {cs tl : Nat} {fs : List Feed} {c : VlChunk} (h : Inv cs tl fs c) {cap : Nat}
    (hcap : tl + 1 ≤ cap) :
    ((∀ seq < chunkCount cs tl, (firstCopy cs tl fs seq).isSome) →
      ∃ msg : List UInt8, msg.length = tl ∧
        vlChunkComplete (some c) .buf cap .buf = some ⟨.ok, seqWrites (msg ++ [0]), some tl⟩ ∧
        ∀ seq < chunkCount cs tl, firstCopy cs tl fs seq = some (chunk cs msg seq)) ∧
    (¬ (∀ seq < chunkCount cs tl, (firstCopy cs tl fs seq).isSome) →
      vlChunkComplete (some c) .buf cap .buf = some ⟨.errNotFound, [], some 0⟩) := by
  have hbuf : tl ≤ 193 := Nat.le_trans h.tl_le (by decide)
  simp only [vlChunkComplete, h.armed, if_false, ← h.complete_iff]
  refine ⟨?_, ?_⟩
  · intro hall
    rw [if_neg (by simpa using hall), h.totalLen, if_neg (by omega), Buf.read?_eq (by omega)]
    refine ⟨c.buf.toList.take tl, by simp; omega, rfl, ?_⟩
    intro seq hseq
    obtain ⟨ds, hds⟩ := Option.isSome_iff_exists.mp (h.complete_iff.mp hall seq hseq)
    have hlen := (firstCopy_spec hds).2.2
    have hread := h.held seq ds hds
    have hlt := seq_mul_lt h.cs_pos h.tl_pos hseq
    have hfit : seq * cs + ds.length ≤ 193 := by unfold chunkLen at hlen; omega
    rw [Buf.read?_eq hfit, Option.some.injEq, hlen] at hread
    rw [hds, ← hread, chunk, chunkLen, List.drop_take, List.take_take]
  · intro hno
    rw [if_pos hno]

/-- The feeds of a message: every one of them is one of its chunks. -/
def OwnChunks (cs : Nat) (msg : List UInt8) (feeds : List Feed) : Prop :=
  ∀ f ∈ feeds, f.1.toNat < chunkCount cs msg.length ∧ f.2 = .bytes (chunk cs msg f.1.toNat)

theorem OwnChunks.wellFormed? {cs : Nat} {msg : List UInt8} {feeds : List Feed}
    (h : OwnChunks cs msg feeds) {f : Feed} (hf : f ∈ feeds) :
    wellFormed? cs msg.length f = some (chunk cs msg f.1.toNat) := by
  obtain ⟨hlt, hd⟩ := h f hf
  unfold Chunk.wellFormed?
  rw [hd]
  exact if_pos ⟨hlt, length_chunk rfl⟩

/-- Every first copy is the message's own chunk, so every feed agrees with it. -/
theorem OwnChunks.firstCopy {cs : Nat} {msg : List UInt8} {feeds : List Feed}
    (h : OwnChunks cs msg feeds) {f : Feed} (hf : f ∈ feeds) :
    firstCopy cs msg.length feeds f.1.toNat = some (chunk cs msg f.1.toNat) := by
  have hsome := firstCopy_isSome.mpr ⟨f, hf, rfl, by rw [WellFormed, h.wellFormed? hf]; rfl⟩
  obtain ⟨ds, hds⟩ := Option.isSome_iff_exists.mp hsome
  obtain ⟨⟨g, hg, hseq, hw⟩, -⟩ := firstCopy_spec hds
  rw [h.wellFormed? hg, Option.some.injEq, hseq] at hw
  rw [hds, hw]

theorem Inv.complete_own {cs : Nat} {msg : List UInt8} {feeds : List Feed} {c : VlChunk}
    (h : Inv cs msg.length feeds c) (hown : OwnChunks cs msg feeds)
    (hcover : ∀ seq < chunkCount cs msg.length, ∃ f ∈ feeds, f.1.toNat = seq) {cap : Nat}
    (hcap : msg.length + 1 ≤ cap) :
    vlChunkComplete (some c) .buf cap .buf =
      some ⟨.ok, seqWrites (msg ++ [0]), some msg.length⟩ := by
  have hfirst : ∀ seq < chunkCount cs msg.length,
      Chunk.firstCopy cs msg.length feeds seq = some (chunk cs msg seq) := by
    intro seq hseq
    obtain ⟨f, hf, rfl⟩ := hcover seq hseq
    exact hown.firstCopy hf
  obtain ⟨out, hlen, hr, hcopies⟩ :=
    (complete_spec h hcap).1 fun seq hseq => by rw [hfirst seq hseq]; rfl
  have heq : out = msg := by
    refine eq_of_chunks h.cs_pos h.tl_pos hlen rfl fun seq hseq => ?_
    exact Option.some.inj ((hcopies seq hseq).symm.trans (hfirst seq hseq))
  rw [hr, heq]

/-- **Reassembly is correct for any delivery.** -/
theorem reassembly {c₀ c : VlChunk} {cs tl : Nat}
    (h : vlChunkReset (some c₀) cs tl = (.ok, some c)) (feeds : List Feed) :
    ∃ sts c', feedAll c feeds = some (sts, c') ∧
      -- every feed's status
      (sts.length = feeds.length ∧ ∀ x ∈ feeds.zip sts, (x.2 = .ok ↔ Agrees cs tl feeds x.1)) ∧
      ∀ cap, tl + 1 ≤ cap →
        -- the output after them
        (∃ r, vlChunkComplete (some c') .buf cap .buf = some r ∧
          (r.status = .ok ↔
            ∀ seq < chunkCount cs tl, ∃ f ∈ feeds, f.1.toNat = seq ∧ WellFormed cs tl f) ∧
          (r.status = .ok → ∃ msg : List UInt8, msg.length = tl ∧
            r.writes = seqWrites (msg ++ [0]) ∧ r.outLen = some tl ∧
            ∀ seq < chunkCount cs tl, firstCopy cs tl feeds seq = some (chunk cs msg seq)) ∧
          (r.status ≠ .ok → r = ⟨.errNotFound, [], some 0⟩)) ∧
        -- a message delivered as its own chunks
        (∀ msg : List UInt8, msg.length = tl →
          (∀ f ∈ feeds, f.1.toNat < chunkCount cs tl ∧ f.2 = .bytes (chunk cs msg f.1.toNat)) →
          (∀ seq < chunkCount cs tl, ∃ f ∈ feeds, f.1.toNat = seq) →
          vlChunkComplete (some c') .buf cap .buf = some ⟨.ok, seqWrites (msg ++ [0]), some tl⟩) := by
  obtain ⟨sts, c', hf, hinv, hsts⟩ := feedAll_spec feeds [] c (reset_inv h)
  rw [List.nil_append] at hinv hsts
  refine ⟨sts, c', hf, hsts, fun cap hcap => ?_⟩
  obtain ⟨hyes, hno⟩ := complete_spec hinv hcap
  constructor
  · simp only [← firstCopy_isSome]
    by_cases hall : ∀ seq < chunkCount cs tl, (firstCopy cs tl feeds seq).isSome
    · obtain ⟨msg, hlen, hr, hcopies⟩ := hyes hall
      exact ⟨_, hr, iff_of_true rfl hall, fun _ => ⟨msg, hlen, rfl, rfl, hcopies⟩,
        fun hne => absurd rfl hne⟩
    · exact ⟨_, hno hall, iff_of_false (by simp) hall, fun hok => (by cases hok), fun _ => rfl⟩
  · intro msg hmsg hown hcover
    subst hmsg
    exact hinv.complete_own hown hcover hcap

/-- Three bytes in chunks of two, the ragged last chunk first. -/
theorem reassembly_ragged :
    ∃ c, vlChunkReset (some VlChunk.zero) 2 3 = (.ok, some c) ∧
      ∃ sts c', feedAll c [(1, .bytes [7]), (0, .bytes [5, 6])] = some (sts, c') ∧
        vlChunkComplete (some c') .buf 4 .buf = some ⟨.ok, seqWrites [5, 6, 7, 0], some 3⟩ := by
  refine ⟨_, rfl, ?_⟩
  obtain ⟨sts, c', hf, -, hc⟩ :=
    @reassembly VlChunk.zero _ 2 3 rfl [(1, .bytes [7]), (0, .bytes [5, 6])]
  exact ⟨sts, c', hf, (hc 4 (by decide)).2 [5, 6, 7] rfl (by decide) (by decide)⟩

end VectiLicense.L2.Chunk
