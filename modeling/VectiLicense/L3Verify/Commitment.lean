import VectiLicense.L1Hash.Sha256
import VectiLicense.L3Verify.Fingerprint

/-!
# What the fingerprint commits to

A HAL hands out its identity segments one by one. The fingerprint hashes a
domain string and then every segment behind its length, up to the 64th;
whatever way the hash is fed, that is one byte string (`preimage`), and
different segment lists have different ones.

* `HashesAs`: the three calls of a `Crypto` compute `H` of what was fed.
* `sha256Crypto`: the contexts of `core/vl_sha256.c` that a sequence of calls
  can reach; with them the calls compute `sha256`.
* `segmentLoop_yields`, `fingerprint_yields`: the loop feeds the first 64
  segments of any HAL that hands some out.
* `preimage_inj`: the preimage determines the segments.
-/
namespace VectiLicense.L3

open VectiLicense.Core VectiLicense.L0 VectiLicense.L1.Hash

/-! ## Hashing what was fed -/

/-- `Reads m ctx`: the context has been fed `m`. -/
structure HashesAs (cr : Crypto) (H : List UInt8 → Vector UInt8 32)
    (Reads : List UInt8 → cr.Sha → Prop) : Prop where
  init : Reads [] cr.vlSha256Init
  update : ∀ m ctx p, Reads m ctx → Reads (m ++ p) (cr.vlSha256Update ctx p)
  final : ∀ m ctx, Reads m ctx → cr.vlSha256Final ctx = H m

/-- A context some calls lead to. -/
abbrev ReachedCtx := { ctx : VlSha256Ctx // ∃ m, Sha256Read m ctx }

theorem ReachedCtx.update_isSome (c : ReachedCtx) (p : List UInt8) :
    (vlSha256Update c.val (some p)).isSome := by
  obtain ⟨m, hm⟩ := c.property
  obtain ⟨ctx, h, -⟩ := vlSha256Update_spec hm (some p)
  rw [h]
  rfl

def ReachedCtx.update (c : ReachedCtx) (p : List UInt8) : ReachedCtx where
  val := (vlSha256Update c.val (some p)).get (c.update_isSome p)
  property := by
    obtain ⟨m, hm⟩ := c.property
    obtain ⟨ctx, h, hctx⟩ := vlSha256Update_spec hm (some p)
    exact ⟨m ++ p, by simpa only [h, Option.get_some, Option.getD_some] using hctx⟩

theorem ReachedCtx.final_isSome (c : ReachedCtx) : (vlSha256Final c.val).isSome := by
  obtain ⟨m, hm⟩ := c.property
  rw [vlSha256Final_spec hm]
  rfl

/-- The hash of `core/vl_sha256.c`, with the buffer's first content and the
signature check left open. -/
def sha256Crypto (buffer : Buf 64) (verify : List UInt8 → List UInt8 → Vector UInt8 32 → Bool) :
    Crypto where
  Sha := ReachedCtx
  vlSha256Init := ⟨vlSha256Init buffer, [], vlSha256Init_spec buffer⟩
  vlSha256Update := ReachedCtx.update
  vlSha256Final c := (vlSha256Final c.val).get c.final_isSome
  vlEd25519Verify := verify

theorem hashesAs_sha256 (buffer : Buf 64)
    (verify : List UInt8 → List UInt8 → Vector UInt8 32 → Bool) :
    HashesAs (sha256Crypto buffer verify) sha256 fun m (c : ReachedCtx) => Sha256Read m c.val where
  init := vlSha256Init_spec buffer
  update := by
    intro m c p hm
    obtain ⟨ctx, h, hctx⟩ := vlSha256Update_spec hm (some p)
    simpa only [sha256Crypto, ReachedCtx.update, h, Option.get_some, Option.getD_some] using hctx
  final := by
    intro m c hm
    simp only [sha256Crypto, vlSha256Final_spec hm, Option.get_some]

/-! ## Segments -/

section
variable {σ : Type}

/-- The HAL's state before segment `i` is asked for. -/
def readState (hal : VlHal σ) (s : σ) : Nat → σ
  | 0 => s
  | i + 1 => (hal.handler (.readIdSegment (UInt32.ofNat i)) (readState hal s i)).2

/-- Its answer. -/
def readAnswer (hal : VlHal σ) (s : σ) (i : Nat) : SegRead :=
  (hal.handler (.readIdSegment (UInt32.ofNat i)) (readState hal s i)).1

/-- Below the count, which `none` makes infinite. -/
def Below (count : Option Nat) (i : Nat) : Prop := ∀ n, count = some n → i < n

/-- From state `s` on the HAL hands out `count` segments, at least one, and
then the sentinel. -/
structure Yields (hal : VlHal σ) (s : σ) (count : Option Nat) (seg : Nat → List UInt8) : Prop where
  provided : hal.readIdSegment.isSome
  nonempty : count ≠ some 0
  status : ∀ i, Below count i → (readAnswer hal s i).status = .ok
  length : ∀ i, Below count i → (readAnswer hal s i).segLen = (seg i).length ∧
    (seg i).length ≤ 255
  bytes : ∀ i, Below count i → (readAnswer hal s i).segment.toList.take (seg i).length = seg i
  ended : ∀ n, count = some n → (readAnswer hal s n).status = .errNoMoreSegments

/-- How many of the next `n` segments, from `idx` on, there are. -/
def remaining (count : Option Nat) (idx n : Nat) : Nat :=
  match count with
  | none => n
  | some c => min n (c - idx)

/-- The segments that count. -/
def firstSegments (count : Option Nat) (seg : Nat → List UInt8) : List (List UInt8) :=
  (List.range (remaining count 0 VL_ID_SEGMENT_COUNT_MAX)).map seg

/-- What is hashed. -/
def preimage (segs : List (List UInt8)) : List UInt8 := VL_FP_DOMAIN ++ prefixed segs

variable {cr : Crypto} {H : List UInt8 → Vector UInt8 32} {Reads : List UInt8 → cr.Sha → Prop}
  {hal : VlHal σ} {s : σ} {count : Option Nat} {seg : Nat → List UInt8}

theorem absorbSegment_reads (hh : HashesAs cr H Reads) {m : List UInt8} {ctx : cr.Sha}
    (hctx : Reads m ctx) (r : SegRead) (hlen : r.segLen ≤ 255) :
    Reads (m ++ prefixed [r.segment.toList.take r.segLen]) (absorbSegment cr ctx r) := by
  have hl : (r.segment.toList.take r.segLen).length = r.segLen := by simp [hlen]
  have hfirst := hh.update m ctx [UInt8.ofNat r.segLen] hctx
  rw [prefixed_cons, prefixed_nil, List.append_nil, hl]
  unfold absorbSegment
  by_cases h0 : r.segLen > 0
  · rw [if_pos h0]
    have hsecond := hh.update _ _ (r.segment.toList.take r.segLen) hfirst
    rwa [List.append_assoc] at hsecond
  · rw [if_neg h0]
    have hnil : r.segLen = 0 := by omega
    rw [hnil, List.take_zero]
    rwa [hnil] at hfirst

theorem segmentLoop_yields (hh : HashesAs cr H Reads) (hy : Yields hal s count seg) (n : Nat) :
    ∀ (idx : Nat) (m : List UInt8) (ctx : cr.Sha) (accepted : Nat), Reads m ctx →
      (∀ c, count = some c → idx ≤ c) →
      ∃ t s' ctx', Prog.Exec hal.handler.env (segmentLoop cr n idx ctx accepted)
          (readState hal s idx) t (.ok (ctx', accepted + remaining count idx n)) s' ∧
        Reads (m ++ prefixed ((List.range' idx (remaining count idx n)).map seg)) ctx' := by
  induction n with
  | zero =>
    intro idx m ctx accepted hctx _
    have hnone : remaining count idx 0 = 0 := by cases count <;> simp [remaining]
    rw [hnone]
    exact ⟨[], _, ctx, .ret _ _, by simpa using hctx⟩
  | succ n ih =>
    intro idx m ctx accepted hctx hidx
    have hask : hal.handler.env (.readIdSegment (UInt32.ofNat idx)) (readState hal s idx)
      (readAnswer hal s idx) (readState hal s (idx + 1)) := rfl
    by_cases hend : count = some idx
    · have hnone : remaining count idx (n + 1) = 0 := by simp [hend, remaining]
      rw [hnone]
      refine ⟨_, readState hal s (idx + 1), ctx,
        Prog.exec_call.mpr ⟨_, _, [], rfl, hask, ?_⟩, by simpa using hctx⟩
      rw [if_pos (hy.ended idx hend)]
      exact .ret _ _
    · have hbelow : Below count idx := by
        intro c hc
        have hle := hidx c hc
        have hne : c ≠ idx := fun h => hend (by rw [hc, h])
        omega
      have hmore : remaining count idx (n + 1) = remaining count (idx + 1) n + 1 := by
        cases hcount : count with
        | none => rfl
        | some c =>
          have hlt := hbelow c hcount
          simp only [remaining]
          omega
      obtain ⟨hsegLen, hshort⟩ := hy.length idx hbelow
      have hfed := absorbSegment_reads hh hctx (readAnswer hal s idx) (by omega)
      rw [hsegLen, hy.bytes idx hbelow] at hfed
      obtain ⟨t, s', ctx', hexec, hreads⟩ := ih (idx + 1) _ _ (accepted + 1) hfed
        (fun c hc => hbelow c hc)
      refine ⟨_, s', ctx', Prog.exec_call.mpr ⟨_, _, t, rfl, hask, ?_⟩, ?_⟩
      · have hstatus := hy.status idx hbelow
        rw [if_neg (by rw [hstatus]; decide), if_neg (not_not.mpr hstatus),
          if_neg (by rw [hsegLen]; exact Nat.not_lt.mpr hshort), hmore]
        rwa [show accepted + (remaining count (idx + 1) n + 1) =
          accepted + 1 + remaining count (idx + 1) n by omega]
      · rw [hmore, List.range'_succ, List.map_cons, prefixed_cons]
        simpa only [prefixed_cons, prefixed_nil, List.append_nil, List.append_assoc,
          List.cons_append] using hreads

/-- **The fingerprint** of a HAL that hands out segments. -/
theorem fingerprint_yields (hh : HashesAs cr H Reads) (hy : Yields hal s count seg)
    (out : Vector UInt8 32) :
    ((vlComputeFingerprint cr (some hal.mask) (some out)).run hal.handler s).val =
      (.ok, some (H (preimage (firstSegments count seg)))) := by
  have hdomain := hh.update _ _ VL_FP_DOMAIN hh.init
  rw [List.nil_append] at hdomain
  obtain ⟨t, s', ctx, hexec, hreads⟩ := segmentLoop_yields hh hy VL_ID_SEGMENT_COUNT_MAX 0 _ _ 0
    hdomain (fun c _ => Nat.zero_le c)
  rw [← List.range_eq_range'] at hreads
  have hsome : ¬ 0 + remaining count 0 VL_ID_SEGMENT_COUNT_MAX = 0 := by
    have hne := hy.nonempty
    cases hcount : count with
    | none => decide
    | some c =>
      have hc : c ≠ 0 := fun h => hne (by rw [hcount, h])
      simp only [remaining, VL_ID_SEGMENT_COUNT_MAX]
      omega
  have hread : hal.mask.readIdSegment = true := hy.provided
  have hwhole : Prog.Exec hal.handler.env (vlComputeFingerprint cr (some hal.mask) (some out)) s
      (t ++ []) (.ok, some (H (preimage (firstSegments count seg)))) s' := by
    simp only [vlComputeFingerprint, hread, if_true]
    refine Prog.exec_bind.mpr ⟨_, s', t, [], rfl, hexec, ?_⟩
    dsimp only
    rw [if_neg hsome, hh.final _ _ hreads]
    exact .ret _ _
  rw [Prog.exec_env_iff.mp hwhole]

end

/-! ## Unambiguity -/

theorem preimage_inj {l l' : List (List UInt8)} (hl : ∀ f ∈ l, f.length ≤ 255)
    (hl' : ∀ f ∈ l', f.length ≤ 255) (h : preimage l = preimage l') : l = l' :=
  prefixed_inj hl hl' (List.append_cancel_left h)

end VectiLicense.L3
