import VectiLicense.L2Transport.Chunk
import VectiLicense.L2Transport.Line
import VectiLicense.L4Mark.Device
import VectiLicense.L6Bridge.Methods

/-!
# Every delivery path gives the same verdict

A licence string can reach `vl_verify` as it is, as a line of a serial
stream, in chunks, or through the inbox of a `License`. The framer drops
blanks that the decoder rejects and blanks that it skips; what is left of an
accepted string spells the same bytes, and `vl_verify` looks at nothing else.
The other two paths hand up the very string.

* `line_delivers`, `chunk_delivers`, `inbox_delivers`: one path each.
* `delivery`: the three of them, for one string.
-/
namespace VectiLicense.L6

open VectiLicense.Core VectiLicense.L0 VectiLicense.L1.Base32 VectiLicense.L3
open VectiLicense.L2.Line (VlLine Idle pushAll pushAll_line isTerm isBlank content reference observe
  holds_nil_iff VL_LINE_MAX_LEN)
open VectiLicense.L2.Chunk (VlChunk Feed OwnChunks feedAll feedAll_spec vlChunkReset
  vlChunkComplete chunk chunkCount reset_ok reset_inv VL_CHUNK_MAX_LEN)
open VectiLicense.L4.Mark (devEnv vltReadIdSegment fixCrypto fixConfig vltHalFull FIX_BLOB_WINDOWED)

section
variable [Target]

/-! ## As a line -/

/-- The framer's blanks carry no symbol of an accepted string. -/
theorem content_decodes {s : CStr} {b : List UInt8} (h : DecodesTo s b) :
    ∃ t : CStr, t.bytes = content s.bytes ∧ DecodesTo t b := by
  obtain ⟨-, g⟩ := (decode_ok_iff (by decide)).mp (Option.isSome_iff_exists.mpr ⟨_, h.2.1⟩)
  have hblank : ∀ c : UInt8, isBlank c = true → IsGrouping c ∨ ¬ IsSymbol c := by
    refine forall_byte ?_
    decide +kernel
  have hsub : ∀ c ∈ content s.bytes, c ∈ s.bytes := fun c hc => (List.mem_filter.mp hc).1
  have hsig : sigChars (content s.bytes) = sigChars s.bytes := by
    rw [sigChars, content, List.filter_filter]
    refine List.filter_congr fun c hc => ?_
    by_cases hg : IsGrouping c
    · simp [hg]
    · have hs := (g.alphabet c hc).resolve_left hg
      have hno : isBlank c ≠ true := fun hb => (hblank c hb).elim hg fun hns => hns hs
      simp [hg, hno]
  refine ⟨⟨content s.bytes, fun h0 => s.nonul (hsub 0 h0)⟩, rfl, ?_⟩
  refine h.of_norm ?_ (fun c hc => g.alphabet c (hsub c hc)) hsig
  exact Nat.le_trans (List.length_filter_le _ _) g.short

/-- What the framer hands up for an accepted string verifies as the string. -/
theorem line_delivers {s : CStr} {b : List UInt8} (h : DecodesTo s b) {l : VlLine} {c : UInt8}
    (hidle : Idle l) (hc : isTerm c = true) (hline : ∀ x ∈ s.bytes, isTerm x = false)
    (hfit : (content s.bytes).length ≤ VL_LINE_MAX_LEN) :
    ∃ outs last, pushAll l (s.bytes ++ [c]) = some (outs ++ [(.ok, last)]) ∧
      (∀ o ∈ outs, o.1 = .errNotFound) ∧ DecodesTo (CStr.ofMem last.buf.toList) b := by
  obtain ⟨t, ht, hdec⟩ := content_decodes h
  have hne : content s.bytes ≠ [] := by
    intro hnil
    have hlen := hdec.length_norm
    rw [ht, hnil] at hlen
    cases hlen
  obtain ⟨outs, st, last, ho, hquiet, hobs, -⟩ :=
    pushAll_line s.bytes [] l c (holds_nil_iff.mpr hidle) hline hc
  rw [List.nil_append, reference, if_neg (Nat.not_lt.mpr hfit), if_neg hne] at hobs
  obtain ⟨hst, hbuf⟩ := Prod.mk.inj hobs
  dsimp only at hst
  subst hst
  rw [if_pos rfl, Option.some.injEq, Prod.mk.injEq] at hbuf
  have hmem : last.buf.toList = t.bytes ++ 0 :: last.buf.toList.drop (last.len + 1) := by
    refine (List.take_append_drop (last.len + 1) last.buf.toList).symm.trans ?_
    rw [hbuf.2, ht, List.append_assoc, List.singleton_append]
  refine ⟨outs, last, ho, hquiet, ?_⟩
  rw [hmem, t.ofMem_append]
  exact hdec

/-! ## In chunks -/

omit [Target] in
theorem chunk_delivers {s : CStr} {cs : Nat} {feeds : List Feed} (c₀ : VlChunk) (hcs : 1 ≤ cs)
    (hfit : cs < 2 ^ 32) (hne : 1 ≤ s.bytes.length) (hmax : s.bytes.length ≤ VL_CHUNK_MAX_LEN)
    (hown : OwnChunks cs s.bytes feeds)
    (hcover : ∀ seq < chunkCount cs s.bytes.length, ∃ f ∈ feeds, f.1.toNat = seq) :
    ∃ c sts c', vlChunkReset (some c₀) cs s.bytes.length = (.ok, some c) ∧
      feedAll c feeds = some (sts, c') ∧ (∀ st ∈ sts, st = .ok) ∧
      ∀ mem : List UInt8, s.bytes.length + 1 ≤ mem.length →
        ∃ r, vlChunkComplete (some c') .buf mem.length .buf = some r ∧ r.status = .ok ∧
          CStr.ofMem (storeAll mem r.writes) = s := by
  obtain ⟨c, hreset⟩ := reset_ok c₀ hcs hfit hne hmax
  obtain ⟨sts, c', hfeed, hinv, hlen, hsts⟩ := feedAll_spec feeds [] c (reset_inv hreset)
  rw [List.nil_append] at hinv hsts
  refine ⟨c, sts, c', hreset, hfeed, fun st hst => ?_, fun mem hcap => ?_⟩
  · obtain ⟨i, hi, rfl⟩ := List.mem_iff_getElem.mp hst
    have hi' : i < feeds.length := by omega
    have hzip : (feeds[i], sts[i]) ∈ feeds.zip sts :=
      List.mem_iff_getElem.mpr ⟨i, by simp; omega, by simp⟩
    refine (hsts _ hzip).mpr ⟨?_, ?_⟩
    · rw [L2.Chunk.WellFormed, hown.wellFormed? (List.getElem_mem hi')]
      rfl
    · rw [hown.firstCopy (List.getElem_mem hi'), hown.wellFormed? (List.getElem_mem hi')]
  · refine ⟨_, hinv.complete_own hown hcover hcap, rfl, ?_⟩
    rw [storeAll_seqWrites (by simp; omega), List.append_assoc]
    exact s.ofMem_append _

/-! ## Through the inbox -/

variable {σ : Type} {cr : Crypto} {cfg : Option VlConfig} {hal : Option HalMask}
  {env : Env HalCall.Resp σ}

/-- `_apply` leaves the object with the verdict and the licence of its call of
`vl_verify`. -/
theorem apply_verdict {blob : BlobArg} {str : CStr} {persist : Bool} {l l' : License} {s s' : σ}
    {t : List BridgeEvent} {ret : VlStatus} (hstr : blob.str l.blob = some str)
    (h : ApplyStep (bridgeEnv cr cfg hal env) hal blob persist l s t ret l' s') :
    ∃ st lic t₁ s₁, Prog.Exec env (vlVerify cr (some str) cfg hal (some VlLicense.zero)) s t₁
        (st, some lic) s₁ ∧ l'.status = st ∧ l'.lic = lic := by
  cases h with
  | refused hv hne =>
    rw [hstr] at hv
    obtain ⟨t₁, hexec⟩ := bridgeEnv_verify.mp hv
    rename_i lic
    have hzero : lic = VlLicense.zero := by
      rcases exec_vlVerify.mp hexec with ⟨rc, -, -, heq, -⟩ | ⟨_, _, _, _, r, -, -, heq⟩
      · exact Option.some.inj (Prod.mk.inj heq).2
      · cases r with
        | error rc => exact Option.some.inj (Prod.mk.inj heq).2
        | ok lic' => exact absurd (Prod.mk.inj heq).1 hne
    exact ⟨_, _, t₁, _, hexec, rfl, hzero.symm⟩
  | held hv _ | persisted hv _ _ _ _ =>
    rw [hstr] at hv
    obtain ⟨t₁, hexec⟩ := bridgeEnv_verify.mp hv
    exact ⟨_, _, t₁, _, hexec, rfl, rfl⟩

theorem inbox_delivers {str : CStr} {l : License} (hempty : l.pendingFlag = false)
    (hne : 1 ≤ str.bytes.length) (hfit : str.bytes.length < VL_BRIDGE_BLOB_MAX) :
    (l.submit (some str.bytes)).1 = true ∧
      ∀ {s : σ} {t ret l' s'}, Prog.Exec (bridgeEnv cr cfg hal env)
          ((l.submit (some str.bytes)).2.pump hal) s t (ret, l') s' →
        ret.isSome ∧ ∃ st lic t₁ s₁,
          Prog.Exec env (vlVerify cr (some str) cfg hal (some VlLicense.zero)) s t₁
            (st, some lic) s₁ ∧ l'.status = st ∧ l'.lic = lic := by
  obtain ⟨hret, hflag, hpending⟩ := submit_empty hempty hne hfit
  refine ⟨hret, fun hpump => ?_⟩
  cases exec_pump hpump with
  | idle hno =>
    rw [hflag] at hno
    cases hno
  | pumped _ happly =>
    rw [hpending] at happly
    obtain ⟨st, lic, t₁, s₁, hexec, hst, hlic⟩ := apply_verdict rfl happly
    exact ⟨rfl, st, lic, t₁, s₁, hexec, hst, hlic⟩

theorem bridgeEnv_total (henv : ∀ e s, ∃ r s', env e s r s') (e : BridgeCall) (s : σ) :
    ∃ r s', bridgeEnv cr cfg hal env e s r s' := by
  obtain ⟨t, r, s', h⟩ := Prog.exists_exec henv (BridgeCall.body cr cfg hal e) s
  exact ⟨r, s', t, h⟩

/-! ## All of them -/

/-- **Every delivery path gives the same verdict.** -/
theorem delivery (cr : Crypto) (cfg : Option VlConfig) (hal : Option HalMask) {s : CStr}
    (h : (vlBase32Decode (some s) .buf VL_BLOB_BIN_LEN VL_BLOB_BIN_LEN).ret =
      some VL_BLOB_BIN_LEN) :
    -- as a line
    (∀ l c, Idle l → isTerm c = true → (∀ x ∈ s.bytes, isTerm x = false) →
      (content s.bytes).length ≤ VL_LINE_MAX_LEN →
      ∃ outs last, pushAll l (s.bytes ++ [c]) = some (outs ++ [(.ok, last)]) ∧
        (∀ o ∈ outs, o.1 = .errNotFound) ∧
        ∀ out, vlVerify cr (some (CStr.ofMem last.buf.toList)) cfg hal out =
          vlVerify cr (some s) cfg hal out) ∧
    -- in chunks
    (∀ (cs : Nat) (feeds : List Feed) (c₀ : VlChunk), 1 ≤ cs → cs < 2 ^ 32 →
      s.bytes.length ≤ VL_CHUNK_MAX_LEN → OwnChunks cs s.bytes feeds →
      (∀ seq < chunkCount cs s.bytes.length, ∃ f ∈ feeds, f.1.toNat = seq) →
      ∃ c sts c', vlChunkReset (some c₀) cs s.bytes.length = (.ok, some c) ∧
        feedAll c feeds = some (sts, c') ∧ (∀ st ∈ sts, st = .ok) ∧
        ∀ mem : List UInt8, s.bytes.length + 1 ≤ mem.length →
          ∃ r, vlChunkComplete (some c') .buf mem.length .buf = some r ∧ r.status = .ok ∧
            ∀ out, vlVerify cr (some (CStr.ofMem (storeAll mem r.writes))) cfg hal out =
              vlVerify cr (some s) cfg hal out) ∧
    -- through the inbox
    (s.bytes.length < VL_BRIDGE_BLOB_MAX → ∀ l : License, l.pendingFlag = false →
      (l.submit (some s.bytes)).1 = true ∧
      ∀ (σ : Type) (env : Env HalCall.Resp σ) (σ₀ : σ),
        ((∀ e s, ∃ r s', env e s r s') → ∃ t o s', Prog.Exec (bridgeEnv cr cfg hal env)
          ((l.submit (some s.bytes)).2.pump hal) σ₀ t o s') ∧
        ∀ t ret l' s', Prog.Exec (bridgeEnv cr cfg hal env)
            ((l.submit (some s.bytes)).2.pump hal) σ₀ t (ret, l') s' →
          ret.isSome ∧ ∃ st lic t₁ s₁,
            Prog.Exec env (vlVerify cr (some s) cfg hal (some VlLicense.zero)) σ₀ t₁
              (st, some lic) s₁ ∧ l'.status = st ∧ l'.lic = lic) := by
  obtain ⟨b, hdec⟩ := DecodesTo.exists h
  have hne : 1 ≤ s.bytes.length := by
    have hlen := hdec.length_norm
    have hle := length_norm_le s.bytes
    omega
  refine ⟨fun l c hidle hc hline hfit => ?_, fun cs feeds c₀ hcs hfit hmax hown hcover => ?_,
    fun hfit l hempty => ?_⟩
  · obtain ⟨outs, last, ho, hquiet, hdec'⟩ := line_delivers hdec hidle hc hline hfit
    exact ⟨outs, last, ho, hquiet, vlVerify_spelling hdec' hdec cr cfg hal⟩
  · obtain ⟨c, sts, c', hreset, hfeed, hsts, hdone⟩ :=
      chunk_delivers c₀ hcs hfit hne hmax hown hcover
    refine ⟨c, sts, c', hreset, hfeed, hsts, fun mem hcap => ?_⟩
    obtain ⟨r, hr, hst, hback⟩ := hdone mem hcap
    exact ⟨r, hr, hst, fun out => by rw [hback]⟩
  · refine ⟨(submit_empty hempty hne hfit).1, fun σ env σ₀ => ⟨fun henv => ?_, ?_⟩⟩
    · exact Prog.exists_exec (bridgeEnv_total henv) _ σ₀
    · intro t ret l' s' hpump
      exact (inbox_delivers hempty hne hfit).2 hpump

end

/-- The fixture's blob in chunks of fifty: the ragged last one first, and the
first one twice. -/
def windowedFeeds : List Feed :=
  [3, 0, 2, 0, 1].map fun seq => (seq, .bytes (chunk 50 FIX_BLOB_WINDOWED.bytes seq.toNat))

/-- The fixture's blob, typed into an idle framer, fed in chunks, and submitted. -/
theorem delivery_windowed :
    (∃ outs last,
      pushAll VlLine.zero (FIX_BLOB_WINDOWED.bytes ++ [0x0A]) = some (outs ++ [(.ok, last)]) ∧
      ∀ out, @vlVerify host64 fixCrypto (some (CStr.ofMem last.buf.toList)) (some fixConfig)
        (some vltHalFull) out =
        @vlVerify host64 fixCrypto (some FIX_BLOB_WINDOWED) (some fixConfig) (some vltHalFull)
          out) ∧
    (∃ c sts c' r, vlChunkReset (some VlChunk.zero) 50 160 = (.ok, some c) ∧
      feedAll c windowedFeeds = some (sts, c') ∧ (∀ st ∈ sts, st = .ok) ∧
      vlChunkComplete (some c') .buf 224 .buf = some r ∧ r.status = .ok ∧
      ∀ out, @vlVerify host64 fixCrypto
        (some (CStr.ofMem (storeAll (List.replicate 224 0xA5) r.writes))) (some fixConfig)
        (some vltHalFull) out =
        @vlVerify host64 fixCrypto (some FIX_BLOB_WINDOWED) (some fixConfig) (some vltHalFull)
          out) ∧
    ∃ t ret l' s' t₁ s₁,
      Prog.Exec (@bridgeEnv _ host64 fixCrypto (some fixConfig) (some vltHalFull)
          (devEnv False vltReadIdSegment (.ok, 1750000000)))
        (((License.new (Vector.replicate 27 0) (Vector.replicate 161 0)).submit
          (some FIX_BLOB_WINDOWED.bytes)).2.pump (some vltHalFull)) 1750000000 t (ret, l') s' ∧
      Prog.Exec (devEnv False vltReadIdSegment (.ok, 1750000000))
        (@vlVerify host64 fixCrypto (some FIX_BLOB_WINDOWED) (some fixConfig) (some vltHalFull)
          (some VlLicense.zero)) 1750000000 t₁ (l'.status, some l'.lic) s₁ := by
  have h : (@vlBase32Decode host64 (some FIX_BLOB_WINDOWED) .buf VL_BLOB_BIN_LEN
      VL_BLOB_BIN_LEN).ret = some VL_BLOB_BIN_LEN := by decide +kernel
  have hbytes : (∀ x ∈ FIX_BLOB_WINDOWED.bytes, isTerm x = false) ∧
      (content FIX_BLOB_WINDOWED.bytes).length ≤ VL_LINE_MAX_LEN ∧
      FIX_BLOB_WINDOWED.bytes.length = 160 := by decide +kernel
  obtain ⟨hline, hfit, hlen⟩ := hbytes
  have hown : OwnChunks 50 FIX_BLOB_WINDOWED.bytes windowedFeeds := by
    intro f hf
    obtain ⟨seq, hseq, rfl⟩ := List.mem_map.mp hf
    have hlt : ([3, 0, 2, 0, 1] : List UInt32).all fun k => k.toNat < chunkCount 50 160 := by decide
    exact ⟨by rw [hlen]; exact of_decide_eq_true (List.all_eq_true.mp hlt seq hseq), rfl⟩
  have hcover : ∀ seq < chunkCount 50 FIX_BLOB_WINDOWED.bytes.length,
      ∃ f ∈ windowedFeeds, f.1.toNat = seq := by
    have hall : ∀ seq < chunkCount 50 160,
        ([3, 0, 2, 0, 1] : List UInt32).any fun k => k.toNat = seq := by
      decide
    intro seq hseq
    rw [hlen] at hseq
    obtain ⟨k, hk, hseq⟩ := List.any_eq_true.mp (hall seq hseq)
    exact ⟨_, List.mem_map_of_mem hk, of_decide_eq_true hseq⟩
  obtain ⟨hserial, hchunks, hinbox⟩ :=
    @delivery host64 fixCrypto (some fixConfig) (some vltHalFull) _ h
  obtain ⟨outs, last, ho, -, hsame⟩ := hserial VlLine.zero 0x0A ⟨rfl, .inr rfl⟩ rfl hline hfit
  obtain ⟨c, sts, c', hreset, hfeed, hsts, hdone⟩ := hchunks 50 windowedFeeds VlChunk.zero
    (by decide) (by decide) (by rw [hlen]; decide) hown hcover
  obtain ⟨r, hr, hst, hverdict⟩ := hdone (List.replicate 224 0xA5)
    (by rw [hlen, List.length_replicate]; decide)
  rw [List.length_replicate] at hr
  rw [hlen] at hreset
  obtain ⟨-, hpump⟩ := hinbox (by rw [hlen]; decide)
    (License.new (Vector.replicate 27 0) (Vector.replicate 161 0)) rfl
  obtain ⟨hends, hany⟩ := hpump UInt32 (devEnv False vltReadIdSegment (.ok, 1750000000)) 1750000000
  obtain ⟨t, ⟨ret, l'⟩, s', hexec⟩ := hends (L4.Mark.devEnv_total _ _ _)
  obtain ⟨-, st, lic, t₁, s₁, hverify, rfl, rfl⟩ := hany t ret l' s' hexec
  exact ⟨⟨outs, last, ho, hsame⟩, ⟨c, sts, c', r, hreset, hfeed, hsts, hr, hst, hverdict⟩,
    t, ret, l', s', t₁, s₁, hexec, hverify⟩

end VectiLicense.L6
