import VectiLicense.L6Bridge.Closed

/-!
# `blob()` is what the encoder would write

`_apply` folds the operator's spelling in a loop of its own, with its own
tables and its own stop condition, over the decoder's argument, which may be
`_blob` itself. `Accepts` is one such call whose `vl_verify` answered `VL_OK`;
its spelling and its bytes are then related by the codec alone.

* `Accepts.spells`: the array afterwards is the encoder's output for the
  decoded bytes, the NUL included.
* `Accepts.stores`: and its characters are what `blob_store` is handed.
* `apply_canonical`: so `blob()` names the bytes, and applying it again
  changes nothing.
-/
namespace VectiLicense.L6

open VectiLicense.Core VectiLicense.L0 VectiLicense.L1.Base32 VectiLicense.L3
open VectiLicense.L4.Mark (fixCrypto fixConfig vltHalFull FIX_BLOB_WINDOWED)

/-- What a call of `blob_store` hands over. -/
def handed? : BridgeEvent → Option (List UInt8)
  | ⟨.blobStore bytes, _⟩ => some bytes
  | _ => none

/-- `_blob` holds a string of 160 characters that fills it up to the NUL. -/
structure Filled (blob : CharArray 161) : Prop where
  length : blob.str.bytes.length = 160
  mem : blob.mem.toList = blob.str.bytes ++ [0]

theorem Filled.of_length {blob : CharArray 161} (h : blob.str.bytes.length = 160) :
    Filled blob := by
  refine ⟨h, ?_⟩
  have hsplit := List.takeWhile_append_dropWhile (p := (· ≠ (0 : UInt8))) (l := blob.mem.toList)
  have hlen := congrArg List.length hsplit
  rw [List.length_append, Vector.length_toList, show
    (blob.mem.toList.takeWhile (· ≠ (0 : UInt8))).length = 160 from h] at hlen
  obtain ⟨c, hc⟩ := List.length_eq_one_iff.mp (show
    (blob.mem.toList.dropWhile (· ≠ (0 : UInt8))).length = 1 by omega)
  have hzero : c = 0 := by
    have hhead := List.head_dropWhile_not (p := (· ≠ (0 : UInt8))) (l := blob.mem.toList)
      (by rw [hc]; exact List.cons_ne_nil _ _)
    simp only [hc, List.head_cons] at hhead
    simpa using hhead
  rw [← hsplit, hc, hzero]
  rfl

theorem Filled.ext {blob blob' : CharArray 161} (h : Filled blob) (h' : Filled blob')
    (hstr : blob.str = blob'.str) : blob = blob' := by
  have hmem : blob.mem = blob'.mem := by
    apply Vector.toList_inj.mp
    rw [h.mem, h'.mem, hstr]
  cases blob
  cases blob'
  simpa using hmem

section
variable {σ : Type} [Target]

/-- One call of `_apply` on the string `s` whose `vl_verify` answered `VL_OK`. -/
structure Accepts (cr : Crypto) (cfg : Option VlConfig) (hal : Option HalMask)
    (env : Env HalCall.Resp σ) (blob : BlobArg) (persist : Bool) (l : License) (w : σ)
    (s : CStr) (t : List BridgeEvent) (st : VlStatus) (l' : License) (w' : σ) : Prop where
  run : Prog.Exec (bridgeEnv cr cfg hal env) (l.apply hal blob persist) w t (st, l') w'
  arg : blob.str l.blob = some s
  verdict : ∃ lic, ⟨.verify (some s), (.ok, lic)⟩ ∈ t

variable {cr : Crypto} {cfg : Option VlConfig} {hal : Option HalMask} {env : Env HalCall.Resp σ}
  {blob : BlobArg} {persist : Bool} {l l' : License} {w w' : σ} {s : CStr}
  {t : List BridgeEvent} {st : VlStatus}

/-- The object such a call leaves, the verdict behind it and the call of
`blob_store`, if there is one. -/
theorem Accepts.cases (h : Accepts cr cfg hal env blob persist l w s t st l' w') :
    ∃ lic w₁, bridgeEnv cr cfg hal env (.verify (some s)) w (.ok, lic) w₁ ∧
      l' = l.inForce blob lic ∧
      t.filterMap handed? = if persist ∧ License.hasStore hal then
        [(l.inForce blob lic).blob.mem.toList.take (canonicalise blob l.blob).1] else [] := by
  obtain ⟨hrun, harg, lic, hmem⟩ := h
  cases exec_apply.mp hrun with
  | refused hv hne =>
    rw [harg, List.mem_singleton] at hmem
    cases hmem
    exact absurd rfl hne
  | held hv hp =>
    rw [harg] at hv
    exact ⟨_, _, hv, rfl, by rw [if_neg hp]; rfl⟩
  | persisted hv hp hs hb hstore =>
    rw [harg] at hv
    subst hb
    exact ⟨_, _, hv, rfl, by rw [if_pos ⟨hp, hs⟩]; rfl⟩

/-- **One call.** The bytes decoded from the string; the array is what the
encoder writes for them. -/
theorem Accepts.spells (h : Accepts cr cfg hal env blob persist l w s t st l' w') :
    ∃ b, DecodesTo s b ∧ l'.blobStr = canon s ∧ Filled l'.blob ∧
      vlBase32Encode (some b) .buf VL_BLOB_STR_BUF_LEN =
        ⟨some VL_BLOB_STR_LEN, seqWrites l'.blob.mem.toList⟩ := by
  obtain ⟨lic, w₁, hv, rfl, -⟩ := h.cases
  rw [← h.arg] at hv
  obtain ⟨str, hstr, hblob, -⟩ := inForce_blobStr hv
  obtain ⟨str', _, _, b, hstr', -, -, hdec, hlen, -⟩ := verify_accepted hv
  rw [h.arg, Option.some.injEq] at hstr hstr'
  subst hstr
  subst hstr'
  have hfilled : Filled (l.inForce blob lic).blob := Filled.of_length (by
    rw [show (l.inForce blob lic).blob.str.bytes = norm s.bytes from hblob]
    exact hlen)
  refine ⟨b, hdec, CStr.ext_bytes hblob, hfilled, ?_⟩
  rw [hfilled.mem, show (l.inForce blob lic).blob.str.bytes = norm s.bytes from hblob]
  have henc := decode_encode (by decide) (by decide) hdec.2.1 hdec.2.2
    (show 161 ≤ VL_BLOB_STR_BUF_LEN by decide)
  rwa [hlen] at henc

/-- The string handed to `blob_store`, if there is one to hand it to. -/
theorem Accepts.stores (h : Accepts cr cfg hal env blob persist l w s t st l' w') :
    t.filterMap handed? = if persist ∧ License.hasStore hal then [l'.blobStr.bytes] else [] := by
  obtain ⟨lic, w₁, hv, rfl, hstores⟩ := h.cases
  rw [← h.arg] at hv
  obtain ⟨str, -, hblob, htake⟩ := inForce_blobStr hv
  rw [hstores, htake, hblob]

/-- The licence handed out is a function of the bytes. -/
theorem Accepts.object (h : Accepts cr cfg hal env blob persist l w s t st l' w') {b : List UInt8}
    (hb : DecodesTo s b) : ∃ c m, cfg = some c ∧ hal = some m ∧
      l' = l.inForce blob { readPayload b with checked := checkedBits c m } := by
  obtain ⟨lic, w₁, hv, rfl, -⟩ := h.cases
  obtain ⟨str, c, m, b', hstr, hcfg, hhal, hdec, -, -, hlic⟩ := verify_accepted hv
  obtain rfl := Option.some.inj hstr
  obtain rfl : b = b' := seqWrites_inj (hb.2.2.symm.trans hdec.2.2)
  exact ⟨c, m, hcfg, hhal, by rw [hlic]⟩

/-- Two calls, on any two objects: one string in both arrays, or two strings
of different bytes. -/
theorem Accepts.same_blob {σ' : Type} {cr' : Crypto} {cfg' : Option VlConfig}
    {hal' : Option HalMask} {env' : Env HalCall.Resp σ'} {blob' : BlobArg} {persist' : Bool}
    {k k' : License} {v v' : σ'} {r : CStr} {u : List BridgeEvent} {su : VlStatus}
    (h : Accepts cr cfg hal env blob persist l w s t st l' w')
    (h' : Accepts cr' cfg' hal' env' blob' persist' k v r u su k' v') {b c : List UInt8}
    (hb : DecodesTo s b) (hc : DecodesTo r c) : l'.blobStr = k'.blobStr ↔ b = c := by
  obtain ⟨-, -, hl, -⟩ := h.spells
  obtain ⟨-, -, hk, -⟩ := h'.spells
  rw [hl, hk, decode_eq_iff_norm (by decide) hb.2.1 hb.2.2 hc.2.1 hc.2.2]
  exact ⟨congrArg CStr.bytes, fun hnorm => CStr.ext_bytes hnorm⟩

/-- `blob()`, spelt as it is and applied again, is accepted with the same
bytes, and the object is the one it was. -/
theorem Accepts.again {σ' : Type} {env' : Env HalCall.Resp σ'} {blob' : BlobArg} {persist' : Bool}
    {l'' : License} {v v' : σ'} {u : List BridgeEvent} {su : VlStatus}
    (h : Accepts cr cfg hal env blob persist l w s t st l' w')
    (h' : Accepts cr cfg hal env' blob' persist' l' v l'.blobStr u su l'' v') : l'' = l' := by
  obtain ⟨b, hdec, hcanon, hfilled, -⟩ := h.spells
  have hdec' : DecodesTo l'.blobStr b := by
    rw [hcanon]
    exact hdec.canon
  obtain ⟨-, -, hcanon', hfilled', -⟩ := h'.spells
  have hstr : l''.blob.str = l'.blob.str :=
    show l''.blobStr = l'.blobStr by rw [hcanon', hcanon, canon_canon]
  have hblob : l''.blob = l'.blob := hfilled'.ext hfilled hstr
  obtain ⟨c, m, rfl, rfl, hobj⟩ := h.object hdec
  obtain ⟨c', m', hcfg, hhal, hobj'⟩ := h'.object hdec'
  obtain rfl := Option.some.inj hcfg
  obtain rfl := Option.some.inj hhal
  have hlic : l'.lic = { readPayload b with checked := checkedBits c m } := by rw [hobj]; rfl
  have hstatus : l'.status = .ok := by rw [hobj]; rfl
  rw [hobj'] at hblob ⊢
  cases l'
  simp only [License.inForce] at hblob hlic hstatus ⊢
  rw [hblob, hlic, hstatus]

/-- **The facade's spelling is the codec's.** -/
theorem apply_canonical (cr : Crypto) (cfg : Option VlConfig) (hal : Option HalMask)
    (env : Env HalCall.Resp σ) (blob : BlobArg) (persist : Bool) (l : License) (w : σ) (s : CStr)
    (t : List BridgeEvent) (st : VlStatus) (l' : License) (w' : σ)
    (h : Accepts cr cfg hal env blob persist l w s t st l' w') :
    (∃ b, DecodesTo s b ∧ l'.blobStr.bytes.length = 160 ∧
      l'.blob.mem.toList = l'.blobStr.bytes ++ [0] ∧
      vlBase32Encode (some b) .buf VL_BLOB_STR_BUF_LEN =
        ⟨some VL_BLOB_STR_LEN, seqWrites (l'.blobStr.bytes ++ [0])⟩) ∧
    t.filterMap handed? = (if persist ∧ License.hasStore hal then [l'.blobStr.bytes] else []) ∧
    (∀ (σ' : Type) (cr' : Crypto) (cfg' : Option VlConfig) (hal' : Option HalMask)
      (env' : Env HalCall.Resp σ') blob' persist' k v r u su k' v' b c,
      Accepts cr' cfg' hal' env' blob' persist' k v r u su k' v' → DecodesTo s b →
      DecodesTo r c → (l'.blobStr = k'.blobStr ↔ b = c)) ∧
    (∀ out, vlVerify cr (some l'.blobStr) cfg hal out = vlVerify cr (some s) cfg hal out) ∧
    (∀ (σ' : Type) (env' : Env HalCall.Resp σ') blob' persist' v u su l'' v',
      Accepts cr cfg hal env' blob' persist' l' v l'.blobStr u su l'' v' → l'' = l') := by
  obtain ⟨b, hdec, hcanon, hfilled, henc⟩ := h.spells
  refine ⟨⟨b, hdec, hfilled.length, hfilled.mem, ?_⟩, h.stores, ?_, ?_, ?_⟩
  · rw [henc, hfilled.mem]
    rfl
  · intro _ _ _ _ _ _ _ _ _ _ _ _ _ _ _ _ h' hb hc
    exact h.same_blob h' hb hc
  · intro out
    rw [hcanon]
    exact vlVerify_spelling hdec.canon hdec cr cfg hal out
  · intro _ _ _ _ _ _ _ _ _ h'
    exact h.again h'

end

/-- A call on the test suite's device, with a `blob_store` that works. -/
theorem fix_accepts {l : License} {blob : BlobArg} {s : CStr} (harg : blob.str l.blob = some s)
    (hv : @bridgeEnv _ host64 fixCrypto (some fixConfig) (some vltHalFull) fixEnv
      (.verify (some s)) 1750000000 (.ok, fixLicense) 1750000000) :
    ∃ t, @Accepts _ host64 fixCrypto (some fixConfig) (some vltHalFull) fixEnv blob true l
      1750000000 s t .ok (l.inForce blob fixLicense) 1750000000 := by
  have hstore : ∀ bytes, @bridgeEnv _ host64 fixCrypto (some fixConfig) (some vltHalFull) fixEnv
      (.blobStore bytes) 1750000000 .ok 1750000000 := fun bytes => ⟨[_], .call rfl (.ret _ _)⟩
  rw [← harg] at hv
  refine ⟨_, @Accepts.mk _ host64 _ _ _ _ _ _ _ _ _ _ _ _ _
    (exec_apply.mpr (.persisted hv rfl rfl rfl (hstore _))) harg ⟨fixLicense, ?_⟩⟩
  rw [harg]
  exact List.mem_cons_self

/-- The fixture's blob, activated; then `activate(blob())`. -/
theorem apply_canonical_fixture : ∃ t u l'',
    @Accepts _ host64 fixCrypto (some fixConfig) (some vltHalFull) fixEnv (.text FIX_BLOB_WINDOWED)
      true (License.new (Vector.replicate 27 0) (Vector.replicate 161 0)) 1750000000
      FIX_BLOB_WINDOWED t .ok fixActivated 1750000000 ∧
    t.filterMap handed? = [fixActivated.blobStr.bytes] ∧
    @Accepts _ host64 fixCrypto (some fixConfig) (some vltHalFull) fixEnv .own true fixActivated
      1750000000 fixActivated.blobStr u .ok l'' 1750000000 ∧ l'' = fixActivated := by
  have hv := @fix_verify 1750000000 1750000000 (by decide)
  obtain ⟨t, h⟩ := @fix_accepts (License.new (Vector.replicate 27 0) (Vector.replicate 161 0))
    (.text FIX_BLOB_WINDOWED) _ rfl hv
  obtain ⟨-, hstores, -, hspell, hagain⟩ :=
    @apply_canonical _ host64 _ _ _ _ _ _ _ _ _ _ _ _ _ h
  obtain ⟨u, hexec⟩ := (@bridgeEnv_verify _ host64 ..).mp hv
  rw [← hspell] at hexec
  obtain ⟨u, h'⟩ := @fix_accepts fixActivated .own _ rfl
    ((@bridgeEnv_verify _ host64 ..).mpr ⟨u, hexec⟩)
  exact ⟨t, u, _, h, hstores, h', hagain _ _ _ _ _ _ _ _ _ h'⟩

end VectiLicense.L6
