import VectiLicense.L3Verify.Commitment

/-!
# What an identity callback must do

The contract of `read_id_segment`, with what differs between boards left open. A
board has identity sources; each needs some room in the caller's buffer and either
has bytes to hand out or, when the hardware did not answer, has not.

* `Reads`: for every capacity and every content of the buffer, a call stays inside
  the buffer, and its answer is the source's; behind the last source it is the sentinel.
* `Reads.yields`: sources that all answer are segments the fingerprint commits to.
* `Reads.refused`: one source that does not answer, and there is no fingerprint.
-/
namespace VectiLicense.L5

open VectiLicense.Core VectiLicense.L0 VectiLicense.L3

/-! ## Where a call writes -/

/-- `out` and `*out_len`; `none` is NULL. -/
structure Dest (cap : Nat) where
  out : Option (Buf cap)
  outLen : Option Nat

namespace Dest

variable {cap : Nat}

/-- `memcpy(out + off, ds, |ds|)`; `none` is a store outside the buffer. -/
def put? (d : Dest cap) (off : Nat) (ds : List UInt8) : Option (Dest cap) := do
  let out ← d.out
  let out ← out.copyIn? off ds
  return { d with out := some out }

/-- The bytes `out[off .. off + len - 1]`. -/
def read? (d : Dest cap) (off len : Nat) : Option (List UInt8) := do
  let out ← d.out
  out.read? off len

/-- `*out_len = n` -/
def setLen? (d : Dest cap) (n : Nat) : Option (Dest cap) := do
  let _ ← d.outLen
  return { d with outLen := some n }

variable {out : Buf cap} {len : Option Nat} {ds bs : List UInt8}

theorem put?_behind (h : ds.length ≤ cap) (hfit : (ds ++ bs).length ≤ cap) :
    put? ⟨some (out.copyFront ds h), len⟩ ds.length bs =
      some ⟨some (out.copyFront (ds ++ bs) hfit), len⟩ := by
  have hroom : ds.length + bs.length ≤ cap := by simpa using hfit
  obtain ⟨q, hq, hlist⟩ := Buf.copyIn?_eq (p := out.copyFront ds h) hroom
  have hput : q = out.copyFront (ds ++ bs) hfit := by
    rw [← Vector.toList_inj, hlist]
    simp [List.drop_append]
  simp [put?, hq, hput]

theorem put?_over (h : ds.length ≤ cap) (hlen : bs.length = ds.length) :
    put? ⟨some (out.copyFront ds h), len⟩ 0 bs =
      some ⟨some (out.copyFront bs (hlen ▸ h)), len⟩ := by
  have hroom : 0 + bs.length ≤ cap := by omega
  obtain ⟨q, hq, hlist⟩ := Buf.copyIn?_eq (p := out.copyFront ds h) hroom
  have hput : q = out.copyFront bs (hlen ▸ h) := by
    rw [← Vector.toList_inj, hlist]
    simp [hlen]
  simp [put?, hq, hput]

@[simp] theorem copyFront_nil (h : ([] : List UInt8).length ≤ cap) : out.copyFront [] h = out := by
  rw [← Vector.toList_inj]
  simp

theorem put?_first (hfit : bs.length ≤ cap) :
    put? ⟨some out, len⟩ 0 bs = some ⟨some (out.copyFront bs hfit), len⟩ := by
  have h : put? ⟨some (out.copyFront [] (Nat.zero_le _)), len⟩ 0 bs = _ :=
    put?_behind (Nat.zero_le _) hfit
  rwa [copyFront_nil] at h

theorem read?_written (h : ds.length ≤ cap) :
    read? ⟨some (out.copyFront ds h), len⟩ 0 ds.length = some ds := by
  have hroom : 0 + ds.length ≤ cap := by omega
  simp [read?, Buf.read?_eq (p := out.copyFront ds h) hroom]

end Dest

/-! ## Sources -/

/-- An identity source: the room it asks for, and its bytes if it answers. -/
structure Source where
  width : Nat
  bytes : Option (List UInt8)
  small : width ≤ 255
  fits : ∀ bs, bytes = some bs → bs.length ≤ width

/-- The answer to a call for segment `idx`: the status, and with `VL_OK` the segment. -/
def answerOf (srcs : Nat → Option Source) (cap idx : Nat) : VlStatus × Option (List UInt8) :=
  match srcs idx with
  | none => (.errNoMoreSegments, none)
  | some s =>
    if cap < s.width then (.errBufferTooSmall, none)
    else (if s.bytes.isSome then .ok else .errPlatform, s.bytes)

theorem answerOf_cases (srcs : Nat → Option Source) (cap idx : Nat) :
    (∃ src bs, srcs idx = some src ∧ src.bytes = some bs ∧ src.width ≤ cap ∧
      answerOf srcs cap idx = (.ok, some bs)) ∨
    (∃ src st, srcs idx = some src ∧ (st = .errBufferTooSmall ∨ st = .errPlatform) ∧
      answerOf srcs cap idx = (st, none)) ∨
    srcs idx = none ∧ answerOf srcs cap idx = (.errNoMoreSegments, none) := by
  unfold answerOf
  cases hsrc : srcs idx with
  | none => exact .inr (.inr ⟨rfl, rfl⟩)
  | some src =>
    by_cases hcap : cap < src.width
    · exact .inr (.inl ⟨src, _, rfl, .inl rfl, if_pos hcap⟩)
    · cases hbytes : src.bytes with
      | none => exact .inr (.inl ⟨src, _, rfl, .inr rfl, by simp [hcap, hbytes]⟩)
      | some bs => exact .inl ⟨src, bs, rfl, hbytes, Nat.le_of_not_lt hcap, by simp [hcap, hbytes]⟩

/-- The room of a source; no source, no room. -/
def roomOf (srcs : Nat → Option Source) (idx : Nat) : Nat := ((srcs idx).map Source.width).getD 0

/-- The callback, for every capacity. -/
abbrev SegmentReader := (cap : Nat) → UInt32 → Dest cap → Option (VlStatus × Dest cap)

/-- What a call leaves: `ds` in front of the buffer, of which the segment is the first part,
and `*out_len` as it was unless there is a segment. -/
structure Answers {cap : Nat} (r : VlStatus × Option (List UInt8)) (room : Nat) (out : Buf cap)
    (n : Nat) (got : Option (VlStatus × Dest cap)) : Prop where
  left : ∃ ds, ∃ h : ds.length ≤ cap,
    got = some (r.1, ⟨some (out.copyFront ds h), some ((r.2.map List.length).getD n)⟩) ∧
    ds.length ≤ room ∧ ∀ bs, r.2 = some bs → bs <+: ds

/-- The callback is the sources. -/
def Reads (srcs : Nat → Option Source) (read : SegmentReader) : Prop :=
  ∀ (cap : Nat) (idx : UInt32) (out : Buf cap) (n : Nat),
    Answers (answerOf srcs cap idx.toNat) (roomOf srcs idx.toNat) out n
      (read cap idx ⟨some out, some n⟩)

/-- All sources answer, with the segments `segs`. -/
structure Gives (srcs : Nat → Option Source) (segs : List (List UInt8)) : Prop where
  nonempty : segs ≠ []
  few : segs.length ≤ VL_ID_SEGMENT_COUNT_MAX
  bytes : ∀ i, i < segs.length → ∃ s, srcs i = some s ∧ s.bytes = some (segs.getD i [])
  ended : srcs segs.length = none

/-- A source among the first 64 does not answer. -/
structure Refuses (srcs : Nat → Option Source) (i : Nat) : Prop where
  reached : i < VL_ID_SEGMENT_COUNT_MAX
  before : ∀ j, j < i → ∃ s bs, srcs j = some s ∧ s.bytes = some bs
  refused : ∃ s, srcs i = some s ∧ s.bytes = none

/-! ## One source behind three guards -/

/-- The bus answered with nothing. -/
def Stuck (bs : List UInt8) : Prop := (∀ b ∈ bs, b = 0) ∨ ∀ b ∈ bs, b = 0xFF

instance (bs : List UInt8) : Decidable (Stuck bs) := inferInstanceAs (Decidable (_ ∨ _))

/-- An id that counts unless the bus is stuck. -/
def uidSource (bs : List UInt8) (h : bs.length ≤ 255) : Source where
  width := bs.length
  bytes := if Stuck bs then none else some bs
  small := h
  fits := by
    intro ds hds
    rw [ite_eq_iff] at hds
    simp_all

/-- A board with one source. -/
def single (src : Source) (i : Nat) : Option Source := if i = 0 then some src else none

/-- The guards that the HALs with one segment share, and what each does behind them. -/
def oneSegment (width : Nat) (body : (cap : Nat) → Dest cap → Option (VlStatus × Dest cap)) :
    SegmentReader := fun cap idx d =>
  if d.out.isNone ∨ d.outLen.isNone then some (.errInvalidArg, d)
  else if idx ≠ 0 then some (.errNoMoreSegments, d)
  else if cap < width then some (.errBufferTooSmall, d)
  else body cap d

theorem Answers.untouched {cap : Nat} {st : VlStatus} {room : Nat} {out : Buf cap} {n : Nat} :
    Answers (st, none) room out n (some (st, ⟨some out, some n⟩)) :=
  ⟨⟨[], Nat.zero_le _, by simp [Dest.copyFront_nil], Nat.zero_le _, fun _ h => by cases h⟩⟩

/-- The answer of a stuck bus, whatever was in the buffer by then. -/
theorem Answers.platform {cap room n : Nat} {out : Buf cap} {ds : List UInt8} (h : ds.length ≤ cap)
    (hroom : ds.length ≤ room) :
    Answers (.errPlatform, none) room out n
      (some (.errPlatform, ⟨some (out.copyFront ds h), some n⟩)) :=
  ⟨⟨ds, h, rfl, hroom, fun _ h => by cases h⟩⟩

theorem Answers.ok {cap room n : Nat} {out : Buf cap} {ds bs : List UInt8} (h : ds.length ≤ cap)
    (hroom : ds.length ≤ room) (hlead : bs <+: ds) :
    Answers (.ok, some bs) room out n
      (some (.ok, ⟨some (out.copyFront ds h), some bs.length⟩)) :=
  ⟨⟨ds, h, rfl, hroom, fun bs' h => by rwa [← Option.some.inj h]⟩⟩

theorem Answers.source {srcs : Nat → Option Source} {cap i n width : Nat}
    {bytes : Option (List UInt8)} {out : Buf cap} {got : Option (VlStatus × Dest cap)}
    (hsrc : ∃ src, srcs i = some src ∧ src.width = width ∧ src.bytes = bytes)
    (hsmall : cap < width → got = some (.errBufferTooSmall, ⟨some out, some n⟩))
    (hbody : ¬ cap < width →
      Answers (if bytes.isSome then .ok else .errPlatform, bytes) width out n got) :
    Answers (answerOf srcs cap i) (roomOf srcs i) out n got := by
  obtain ⟨src, hsrc, rfl, rfl⟩ := hsrc
  have hroom : roomOf srcs i = src.width := by simp [roomOf, hsrc]
  rw [hroom]
  by_cases hcap : cap < src.width
  · rw [hsmall hcap]
    simpa [answerOf, hsrc, hcap] using Answers.untouched
  · simpa [answerOf, hsrc, hcap] using hbody hcap

theorem Answers.ended {srcs : Nat → Option Source} {cap i n : Nat} {out : Buf cap}
    (hsrc : srcs i = none) :
    Answers (answerOf srcs cap i) (roomOf srcs i) out n
      (some (.errNoMoreSegments, ⟨some out, some n⟩)) := by
  simpa [answerOf, hsrc] using Answers.untouched

theorem oneSegment_reads {src : Source}
    {body : (cap : Nat) → Dest cap → Option (VlStatus × Dest cap)}
    (hbody : ∀ (cap : Nat) (out : Buf cap) (n : Nat), src.width ≤ cap →
      Answers (if src.bytes.isSome then .ok else .errPlatform, src.bytes) src.width out n
        (body cap ⟨some out, some n⟩)) :
    Reads (single src) (oneSegment src.width body) := by
  intro cap idx out n
  by_cases hidx : idx = 0
  · subst hidx
    refine Answers.source ⟨src, rfl, rfl, rfl⟩ (fun hcap => ?_) fun hcap => ?_
    · simp [oneSegment, hcap]
    · simpa [oneSegment, hcap] using hbody cap out n (Nat.le_of_not_lt hcap)
  · have hnat : idx.toNat ≠ 0 := fun h => hidx (UInt32.toNat_inj.mp h)
    simpa [oneSegment, hidx] using Answers.ended (show single src idx.toNat = none from if_neg hnat)

/-! ## The device -/

/-- A HAL whose identity is `read`. The other callbacks are those of `rest`; `stale` is what
the core's `segment` happens to hold when it asks. -/
def identityHal {σ : Type} (read : SegmentReader) (rest : VlHal σ) (stale : UInt32 → σ → Buf 255) :
    VlHal σ :=
  { rest with
    readIdSegment := some fun idx s =>
      match read 255 idx ⟨some (stale idx s), some 0⟩ with
      | some (st, ⟨some out, some len⟩) => (⟨st, out, len⟩, s)
      | _ => (⟨.errInternal, stale idx s, 0⟩, s) }

section
variable {σ : Type} {srcs : Nat → Option Source} {read : SegmentReader}
  (rest : VlHal σ) (stale : UInt32 → σ → Buf 255) (s : σ)

theorem segIdx {i : Nat} (h : i ≤ VL_ID_SEGMENT_COUNT_MAX) : (UInt32.ofNat i).toNat = i := by
  simp only [VL_ID_SEGMENT_COUNT_MAX] at h
  exact UInt32.toNat_ofNat_of_lt' (by simp only [UInt32.size]; omega)

theorem Reads.handled (hr : Reads srcs read) (idx : UInt32) :
    ∃ out len, (identityHal read rest stale).handler (.readIdSegment idx) s =
        (⟨(answerOf srcs 255 idx.toNat).1, out, len⟩, s) ∧
      ∀ bs, (answerOf srcs 255 idx.toNat).2 = some bs →
        len = bs.length ∧ out.toList.take bs.length = bs := by
  obtain ⟨ds, hfit, hgot, -, hprefix⟩ := (hr 255 idx (stale idx s) 0).left
  refine ⟨(stale idx s).copyFront ds hfit, _, ?_,
    fun bs hbs => ⟨congrArg (fun o => (o.map List.length).getD 0) hbs, ?_⟩⟩
  · simp only [identityHal, VlHal.handler, hgot]
  obtain ⟨more, rfl⟩ := hprefix bs hbs
  simp

theorem answerOf_given {i : Nat} {src : Source} {bs : List UInt8} (h : srcs i = some src)
    (hbytes : src.bytes = some bs) : answerOf srcs 255 i = (.ok, some bs) ∧ bs.length ≤ 255 := by
  have hsmall := src.small
  have hfits := src.fits bs hbytes
  refine ⟨?_, by omega⟩
  simp [answerOf, h, hbytes, Nat.not_lt.mpr hsmall]

theorem Reads.readState_eq (hr : Reads srcs read) (i : Nat) :
    readState (identityHal read rest stale) s i = s := by
  induction i with
  | zero => rfl
  | succ i ih =>
    obtain ⟨out, len, hcall, -⟩ := hr.handled rest stale s (UInt32.ofNat i)
    rw [readState, ih, hcall]

/-- **Sources that answer** are segments. -/
theorem Reads.yields (hr : Reads srcs read) {segs : List (List UInt8)} (hg : Gives srcs segs) :
    Yields (identityHal read rest stale) s (some segs.length) fun i => segs.getD i [] := by
  have hfew := hg.few
  have hidx : ∀ i, i ≤ segs.length → (UInt32.ofNat i).toNat = i := fun i hi =>
    segIdx (Nat.le_trans hi hfew)
  have hseg : ∀ i, Below (some segs.length) i →
      (readAnswer (identityHal read rest stale) s i).status = .ok ∧
      (readAnswer (identityHal read rest stale) s i).segLen = (segs.getD i []).length ∧
      (segs.getD i []).length ≤ 255 ∧
      (readAnswer (identityHal read rest stale) s i).segment.toList.take (segs.getD i []).length =
        segs.getD i [] := by
    intro i hi
    have hlt := hi _ rfl
    obtain ⟨src, hsrc, hbytes⟩ := hg.bytes i hlt
    obtain ⟨hanswer, hshort⟩ := answerOf_given hsrc hbytes
    obtain ⟨out, len, hcall, hgot⟩ := hr.handled rest stale s (UInt32.ofNat i)
    rw [hidx i (Nat.le_of_lt hlt), hanswer] at hcall hgot
    obtain ⟨hlen, htake⟩ := hgot _ rfl
    rw [readAnswer, hr.readState_eq rest stale s, hcall]
    exact ⟨rfl, hlen, hshort, htake⟩
  refine ⟨rfl, ?_, fun i hi => (hseg i hi).1, fun i hi => ⟨(hseg i hi).2.1, (hseg i hi).2.2.1⟩,
    fun i hi => (hseg i hi).2.2.2, ?_⟩
  · intro hzero
    exact hg.nonempty (List.length_eq_zero_iff.mp (Option.some.inj hzero))
  · intro n hn
    obtain rfl := Option.some.inj hn
    obtain ⟨out, len, hcall, -⟩ := hr.handled rest stale s (UInt32.ofNat segs.length)
    rw [readAnswer, hr.readState_eq rest stale s, hcall, hidx _ (Nat.le_refl _)]
    simp [answerOf, hg.ended]

/-- The loop, from segment `idx` on, up to the source that does not answer. -/
theorem Reads.loop_refused (hr : Reads srcs read) {cr : Crypto} {i : Nat} (hi : Refuses srcs i)
    (n : Nat) : ∀ (idx : Nat) (ctx : cr.Sha) (accepted : Nat), idx ≤ i → i < idx + n →
      ∃ t, Prog.Exec (identityHal read rest stale).handler.env (segmentLoop cr n idx ctx accepted)
        s t (.error .errPlatform) s := by
  induction n with
  | zero => intro idx ctx accepted _ _; omega
  | succ n ih =>
    intro idx ctx accepted hle hlt
    have hreached := hi.reached
    have hidx : (UInt32.ofNat idx).toNat = idx := segIdx (by omega)
    obtain ⟨out, len, hcall, hgot⟩ := hr.handled rest stale s (UInt32.ofNat idx)
    rw [hidx] at hcall hgot
    have hask : (identityHal read rest stale).handler.env (.readIdSegment (UInt32.ofNat idx)) s
        ⟨(answerOf srcs 255 idx).1, out, len⟩ s := hcall
    rcases Nat.eq_or_lt_of_le hle with rfl | hbefore
    · obtain ⟨src, hsrc, hbytes⟩ := hi.refused
      have hanswer : (answerOf srcs 255 idx).1 = .errPlatform := by
        simp [answerOf, hsrc, hbytes, Nat.not_lt.mpr src.small]
      rw [hanswer] at hask
      exact ⟨_, Prog.exec_call.mpr ⟨_, _, [], rfl, hask, .ret _ _⟩⟩
    · obtain ⟨src, bs, hsrc, hbytes⟩ := hi.before idx hbefore
      obtain ⟨hanswer, hshort⟩ := answerOf_given hsrc hbytes
      rw [hanswer] at hask hgot
      obtain ⟨rfl, -⟩ := hgot bs rfl
      obtain ⟨t, hexec⟩ := ih (idx + 1) (absorbSegment cr ctx ⟨.ok, out, bs.length⟩) (accepted + 1)
        hbefore (by omega)
      refine ⟨_, Prog.exec_call.mpr ⟨_, _, t, rfl, hask, ?_⟩⟩
      rw [if_neg (by simp), if_neg (by simp)]
      dsimp only
      rw [if_neg (show ¬ bs.length > VL_ID_SEGMENT_MAX from Nat.not_lt.mpr hshort)]
      exact hexec

/-- **A source that does not answer**: no fingerprint, and zeros in its place. -/
theorem Reads.refused (hr : Reads srcs read) {i : Nat} (hi : Refuses srcs i) (cr : Crypto)
    (out : Vector UInt8 32) :
    ((vlComputeFingerprint cr (some (identityHal read rest stale).mask) (some out)).run
      (identityHal read rest stale).handler s).val =
        (.errPlatform, some (Vector.replicate 32 0)) := by
  have hreached := hi.reached
  obtain ⟨t, hexec⟩ := hr.loop_refused rest stale s hi VL_ID_SEGMENT_COUNT_MAX 0
    (cr.vlSha256Update cr.vlSha256Init VL_FP_DOMAIN) 0 (Nat.zero_le _) (by omega)
  have hwhole : Prog.Exec (identityHal read rest stale).handler.env
      (vlComputeFingerprint cr (some (identityHal read rest stale).mask) (some out)) s (t ++ [])
      (.errPlatform, some (Vector.replicate 32 0)) s := by
    have hread : (identityHal read rest stale).mask.readIdSegment = true := rfl
    simp only [vlComputeFingerprint, hread, if_true]
    exact Prog.exec_bind.mpr ⟨_, s, t, [], rfl, hexec, .ret _ _⟩
  rw [Prog.exec_env_iff.mp hwhole]

end

end VectiLicense.L5
