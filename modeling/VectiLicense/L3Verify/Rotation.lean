import VectiLicense.L3Verify.Accept

/-!
# Key rotation and revocation are local

A firmware release changes the key array and the deny-list under licences
already in the field. Of the keys `vl_verify` sees the first entry with the
blob's key id, of the deny-list whether it is there and has the blob's serial,
so a release that leaves these alone leaves the verdict alone.

* `VerifyStep.congr`: what a run depends on of the configuration.
* `EditedOutside.find?_eq`: edits of other key ids keep the entry found.
* `verifyOn_unknownKey`, `verifyOn_revoked`: what dropping the blob's keys and
  listing its serial do to an accepted blob.
* `rotation_local`: two releases, one verdict.
-/
namespace VectiLicense.L3

open VectiLicense.Core VectiLicense.L0 VectiLicense.L1.Base32

/-! ## What a run depends on -/

section
variable {σ : Type} {env : Env HalCall.Resp σ} {c c' : VlConfig} {s s' : σ} {t : List HalEvent}
  {r : Except VlStatus VlLicense}

theorem TimeStep.of_flags {hal : HalMask} {lic : VlLicense} (hflags : c'.flags = c.flags)
    (h : TimeStep env c hal lic s t r s') : TimeStep env c' hal lic s t r s' := by
  have hreq : c'.requireClock ↔ c.requireClock := by unfold VlConfig.requireClock; rw [hflags]
  have hhwm : c'.enforceHwm ↔ c.enforceHwm := by unfold VlConfig.enforceHwm; rw [hflags]
  cases h with
  | noClock hclock h => exact .noClock hclock (hreq.mpr h)
  | unchecked hclock h => exact .unchecked hclock (mt hreq.mp h)
  | clockFailed hclock hn hst => exact .clockFailed hclock hn hst
  | notYetValid hclock hn he => exact .notYetValid hclock hn he
  | expired hclock hn he hl => exact .expired hclock hn he hl
  | inWindow hclock hn he hl hf => exact .inWindow hclock hn he hl (mt hhwm.mp hf)
  | marked hclock hn he hl hf hm => exact .marked hclock hn he hl (hhwm.mpr hf) hm

variable [Target] {cr : Crypto}

/-- Steps 2 to 6 look at the outcome of `authenticate`, at what the deny-list
says of the serial it read, and at the flags. -/
theorem VerifyStep.congr {keys keys' : List VlPubkey} {hal : HalMask} {blob : CStr}
    (hauth : authenticate cr c' keys' blob = authenticate cr c keys blob)
    (hrev : ∀ lic, authenticate cr c keys blob = .ok lic →
      checkRevocation c' (lic.withChecked VL_CHECKED_DEVICE) =
        checkRevocation c (lic.withChecked VL_CHECKED_DEVICE))
    (hflags : c'.flags = c.flags) (h : VerifyStep cr env c keys hal blob s t r s') :
    VerifyStep cr env c' keys' hal blob s t r s' := by
  cases h with
  | rejected h => exact .rejected (hauth.trans h)
  | identityFailed h hfp hrc => exact .identityFailed (hauth.trans h) hfp hrc
  | otherDevice h hfp hdev => exact .otherDevice (hauth.trans h) hfp hdev
  | revoked h hfp hdev hrc =>
    exact .revoked (hauth.trans h) hfp hdev ((hrev _ h).trans hrc)
  | timed h hfp hdev hrc ht =>
    exact .timed (hauth.trans h) hfp hdev ((hrev _ h).trans hrc) (ht.of_flags hflags)

omit [Target] in
theorem checkRevocation_congr {lic : VlLicense}
    (h : (isRevoked c' lic.serial = isRevoked c lic.serial ∧
        ∃ d d', c.revokedSerials = some d ∧ d ≠ [] ∧ c'.revokedSerials = some d' ∧ d' ≠ []) ∨
      ((c.revokedSerials.getD [] = []) ∧ c'.revokedSerials.getD [] = [])) :
    checkRevocation c' lic = checkRevocation c lic := by
  rcases h with ⟨hsame, d, d', hd, hne, hd', hne'⟩ | ⟨hd, hd'⟩
  · unfold checkRevocation
    simp only [hd, hd', hsame, gt_iff_lt, List.length_pos_iff.mpr hne,
      List.length_pos_iff.mpr hne', if_true]
  · have hnone : ∀ e : VlConfig, e.revokedSerials.getD [] = [] → checkRevocation e lic = .ok lic := by
      intro e he
      unfold checkRevocation
      cases hs : e.revokedSerials with
      | none => rfl
      | some l =>
        rw [hs, Option.getD_some] at he
        rw [he]
        rfl
    rw [hnone c hd, hnone c' hd']

end

/-! ## What a release may change -/

/-- Entries of other key ids put in or taken out, one after another. -/
inductive EditedOutside (keyId : UInt8) (ks : List VlPubkey) : List VlPubkey → Prop where
  | refl : EditedOutside keyId ks ks
  | insert {l₁ l₂ : List VlPubkey} {k : VlPubkey} : EditedOutside keyId ks (l₁ ++ l₂) →
      k.keyId ≠ keyId → EditedOutside keyId ks (l₁ ++ k :: l₂)
  | delete {l₁ l₂ : List VlPubkey} {k : VlPubkey} : EditedOutside keyId ks (l₁ ++ k :: l₂) →
      k.keyId ≠ keyId → EditedOutside keyId ks (l₁ ++ l₂)

/-- The entries of `d`, in any order and any number of times each, and otherwise
serials other than `serial`. -/
def ExtendedOutside (serial : UInt32) (d d' : List UInt32) : Prop :=
  d ⊆ d' ∧ ∀ x ∈ d', x ∈ d ∨ x ≠ serial

theorem find?_skip {keyId : UInt8} {l₁ l₂ : List VlPubkey} {k : VlPubkey} (h : k.keyId ≠ keyId) :
    (l₁ ++ k :: l₂).find? (fun k => k.keyId = keyId) =
      (l₁ ++ l₂).find? (fun k => k.keyId = keyId) := by
  rw [List.find?_append, List.find?_append, List.find?_cons_of_neg (by simpa using h)]

theorem EditedOutside.find?_eq {keyId : UInt8} {ks ks' : List VlPubkey}
    (h : EditedOutside keyId ks ks') :
    ks'.find? (fun k => k.keyId = keyId) = ks.find? (fun k => k.keyId = keyId) := by
  induction h with
  | refl => rfl
  | insert _ hk ih => exact (find?_skip hk).trans ih
  | delete _ hk ih => exact (find?_skip hk).symm.trans ih

theorem ExtendedOutside.mem_iff {serial : UInt32} {d d' : List UInt32}
    (h : ExtendedOutside serial d d') : serial ∈ d' ↔ serial ∈ d :=
  ⟨fun hmem => (h.2 serial hmem).resolve_right fun hne => hne rfl, fun hmem => h.1 hmem⟩

theorem ExtendedOutside.ne_nil {serial : UInt32} {d d' : List UInt32}
    (h : ExtendedOutside serial d d') (hd : d ≠ []) : d' ≠ [] :=
  List.ne_nil_of_mem (h.1 (List.head_mem hd))

section
variable [Target]

/-- The blob is there and decodes to `b`. -/
def BlobBytes (blob : Option CStr) (b : List UInt8) : Prop :=
  ∃ str, blob = some str ∧ DecodesTo str b

/-- Two configurations that differ in nothing the blob can tell: the family, the
flags, the first key with its key id, whether there is a deny-list and whether
its serial is on it. -/
structure SameFor (blob : Option CStr) (c c' : VlConfig) : Prop where
  family : c'.family = c.family
  flags : c'.flags = c.flags
  keys : ∃ ks ks', c.keys = some ks ∧ c'.keys = some ks' ∧ ks ≠ [] ∧ ks' ≠ [] ∧
    ∀ b, BlobBytes blob b → ks'.find? (fun k => k.keyId = b.getD 2 0) =
      ks.find? (fun k => k.keyId = b.getD 2 0)
  denial : (c.revokedSerials.getD [] = [] ∧ c'.revokedSerials.getD [] = []) ∨
    ∃ d d', c.revokedSerials = some d ∧ c'.revokedSerials = some d' ∧ d ≠ [] ∧ d' ≠ [] ∧
      ∀ b, BlobBytes blob b → (le32 b 32 ∈ d' ↔ le32 b 32 ∈ d)

theorem SameFor.symm {blob : Option CStr} {c c' : VlConfig} (h : SameFor blob c c') :
    SameFor blob c' c where
  family := h.family.symm
  flags := h.flags.symm
  keys := by
    obtain ⟨ks, ks', hks, hks', hne, hne', hfind⟩ := h.keys
    exact ⟨ks', ks, hks', hks, hne', hne, fun b hb => (hfind b hb).symm⟩
  denial := by
    rcases h.denial with ⟨hd, hd'⟩ | ⟨d, d', hd, hd', hne, hne', hmem⟩
    · exact .inl ⟨hd', hd⟩
    · exact .inr ⟨d', d, hd', hd, hne', hne, fun b hb => (hmem b hb).symm⟩

variable {cr : Crypto} {c c' : VlConfig}

theorem authenticate_congr {ks ks' : List VlPubkey} {str : CStr} (hfamily : c'.family = c.family)
    (hfind : ∀ b, DecodesTo str b → ks'.find? (fun k => k.keyId = b.getD 2 0) =
      ks.find? (fun k => k.keyId = b.getD 2 0)) :
    authenticate cr c' ks' str = authenticate cr c ks str := by
  unfold authenticate
  cases hdec : decodeBlob str with
  | error rc => rfl
  | ok b =>
    have hkey : findKey ks' (readPayload b).keyId = findKey ks (readPayload b).keyId :=
      hfind b (decodeBlob_ok_iff.mp hdec)
    simp only [checkHeader, hfamily, hkey]

omit [Target] in
theorem isRevoked_iff {serial : UInt32} {d : List UInt32} (hd : c.revokedSerials = some d) :
    isRevoked c serial = true ↔ serial ∈ d := by
  unfold isRevoked
  simp [hd]

theorem checkArgs_congr {blob : Option CStr} {hal : Option HalMask} (h : SameFor blob c c')
    {str : CStr} {e : VlConfig} {ks : List VlPubkey} {m : HalMask}
    (hargs : checkArgs blob (some c) hal = .ok (str, e, ks, m)) :
    e = c ∧ blob = some str ∧ c.keys = some ks ∧
      ∃ ks', c'.keys = some ks' ∧ checkArgs blob (some c') hal = .ok (str, c', ks', m) := by
  obtain ⟨hblob, hcfg, hhal, hkeys, -, hid, hhwm⟩ := checkArgs_ok_iff.mp hargs
  obtain rfl := Option.some.inj hcfg
  obtain ⟨_, ks', -, hks', -, hne', -⟩ := h.keys
  refine ⟨rfl, hblob, hkeys, ks', hks', ?_⟩
  refine checkArgs_ok_iff.mpr ⟨hblob, rfl, hhal, hks', hne', hid, ?_⟩
  unfold HwmArgs VlConfig.enforceHwm at hhwm ⊢
  rw [h.flags]
  exact hhwm

theorem exec_vlVerify_congr {σ : Type} {env : Env HalCall.Resp σ} {blob : Option CStr}
    (hsame : SameFor blob c c') {hal : Option HalMask} {out : Option VlLicense} {s s' : σ}
    {t : List HalEvent} {v : VlStatus × Option VlLicense}
    (h : Prog.Exec env (vlVerify cr blob (some c) hal out) s t v s') :
    Prog.Exec env (vlVerify cr blob (some c') hal out) s t v s' := by
  rcases exec_vlVerify.mp h with ⟨rc, hargs, rfl, rfl, rfl⟩ | ⟨str, e, ks, m, r, hargs, hstep, rfl⟩
  · obtain rfl := checkArgs_error hargs
    refine exec_vlVerify.mpr (.inl ⟨.errInvalidArg, ?_, rfl, rfl, rfl⟩)
    cases hargs' : checkArgs blob (some c') hal with
    | error rc => rw [checkArgs_error hargs']
    | ok a =>
      obtain ⟨str, e, ks, m⟩ := a
      obtain ⟨-, -, -, _, -, hok⟩ := checkArgs_congr hsame.symm hargs'
      rw [hargs] at hok
      cases hok
  · obtain ⟨rfl, rfl, hks, ks', hks', hargs'⟩ := checkArgs_congr hsame hargs
    refine exec_vlVerify.mpr (.inr ⟨str, c', ks', m, r, hargs', ?_, rfl⟩)
    refine hstep.congr (authenticate_congr hsame.family fun b hb => ?_) (fun lic hauth => ?_)
      hsame.flags
    · obtain ⟨_, _, h₁, h₂, -, -, hfind⟩ := hsame.keys
      rw [hks, Option.some.injEq] at h₁
      rw [hks', Option.some.injEq] at h₂
      subst h₁ h₂
      exact hfind b ⟨str, rfl, hb⟩
    · obtain ⟨b, hb, hserial⟩ := authenticate_serial hauth
      refine checkRevocation_congr ?_
      rcases hsame.denial with hd | ⟨d, d', hd, hd', hne, hne', hmem⟩
      · exact .inr hd
      · refine .inl ⟨?_, d, d', hd, hne, hd', hne'⟩
        rw [VlLicense.withChecked_serial, hserial, Bool.eq_iff_iff, isRevoked_iff hd',
          isRevoked_iff hd]
        exact hmem b ⟨str, rfl, hb⟩

/-! ## The verdict -/

variable {σ : Type} {blob : Option CStr} {hal : Option (VlHal σ)} {out : Option VlLicense} {s : σ}

theorem verifyOn_congr (h : SameFor blob c c') :
    verifyOn cr blob (some c') hal out s = verifyOn cr blob (some c) hal out s :=
  Prog.exec_env_iff.mp (exec_vlVerify_congr h (Prog.exec_run _ _ s))

/-- An accepted blob, taken apart: its bytes, its key, and the execution up to
the deny-list. -/
theorem verifyOn_accepted (h : (verifyOn cr blob (some c) hal out s).val.1 = .ok) :
    ∃ str m ks b pk t s₁ fp, checkArgs blob (some c) (hal.map VlHal.mask) = .ok (str, c, ks, m) ∧
      blob = some str ∧ c.keys = some ks ∧ Authentic cr c ks str b pk ∧
      Prog.Exec (hal.getD ⟨none, none, none, none, none, none, none⟩).handler.env
        (vlComputeFingerprint cr (some m) (some (Vector.replicate 32 0))) s t (.ok, fp) s₁ ∧
      deviceMatches fp ((readPayload b).withChecked VL_CHECKED_SIGNATURE) := by
  obtain ⟨o, t, s', h⟩ := verifyOn_ok_iff.mp h
  obtain ⟨str, e, ks, m, lic, hargs, hstep, -⟩ := exec_vlVerify_ok.mp h
  obtain ⟨hblob, hcfg, -, hkeys, -⟩ := checkArgs_ok_iff.mp hargs
  obtain rfl := Option.some.inj hcfg
  cases hstep with
  | timed hauth hfp hdev hrev ht =>
    obtain ⟨b, pk, ha, rfl⟩ := authenticate_ok_iff.mp hauth
    exact ⟨str, m, ks, b, pk, _, _, _, hargs, hblob, hkeys, ha, hfp, hdev⟩

/-- Without a key of its id an otherwise authentic blob is refused, and nobody
is asked anything. -/
theorem verifyOn_unknownKey {b : List UInt8} (hb : BlobBytes blob b) {ks : List VlPubkey}
    (h : (verifyOn cr blob (some c) hal out s).val.1 = .ok) (hne : ks ≠ [])
    (hnone : ks.find? (fun k => k.keyId = b.getD 2 0) = none) :
    (verifyOn cr blob (some { c with keys := some ks }) hal out s).val =
        (.errUnknownKey, out.map fun _ => VlLicense.zero) ∧
      (verifyOn cr blob (some { c with keys := some ks }) hal out s).trace = [] := by
  obtain ⟨str, m, ks₀, b', pk, t, s₁, fp, hargs, rfl, -, ha, -⟩ := verifyOn_accepted h
  obtain ⟨str', hstr, hdec⟩ := hb
  obtain rfl := Option.some.inj hstr
  obtain rfl := hdec.unique ha.decodes
  have hok := decodeBlob_ok_iff.mpr hdec
  have hauth : authenticate cr { c with keys := some ks } ks str = .error .errUnknownKey := by
    have hfind : findKey ks (readPayload b).keyId = none := hnone
    have hfamily : (readPayload b).family = c.family := ha.family
    unfold authenticate
    rw [hok]
    simp only [checkHeader, show b.getD OFF_MAGIC 0 = VL_MAGIC from ha.magic,
      show b.getD OFF_VERSION 0 = VL_FORMAT_VERSION from ha.version, hfamily, hfind, ne_eq,
      not_true, if_false]
  have hargs' : checkArgs (some str) (some { c with keys := some ks }) (hal.map VlHal.mask) =
      .ok (str, { c with keys := some ks }, ks, m) := by
    obtain ⟨-, -, hhal, -, -, hid, hhwm⟩ := checkArgs_ok_iff.mp hargs
    exact checkArgs_ok_iff.mpr ⟨rfl, rfl, hhal, rfl, hne, hid, hhwm⟩
  have hrun : verifyOn cr (some str) (some { c with keys := some ks }) hal out s = _ :=
    Prog.exec_env_iff.mp (exec_vlVerify.mpr (.inr ⟨_, _, _, _, _, hargs', .rejected hauth, rfl⟩))
  rw [hrun]
  exact ⟨rfl, rfl⟩

/-- With its serial on the deny-list an otherwise accepted blob is refused after
the device match, before the clock and the mark. -/
theorem verifyOn_revoked {b : List UInt8} (hb : BlobBytes blob b) {d : List UInt32}
    (h : (verifyOn cr blob (some c) hal out s).val.1 = .ok) (hmem : le32 b 32 ∈ d) :
    (verifyOn cr blob (some { c with revokedSerials := some d }) hal out s).val =
        (.errRevoked, out.map fun _ => VlLicense.zero) ∧
      ∀ ev ∈ (verifyOn cr blob (some { c with revokedSerials := some d }) hal out s).trace,
        IsIdRead ev.1 := by
  obtain ⟨str, m, ks, b', pk, t, s₁, fp, hargs, rfl, hkeys, ha, hfp, hdev⟩ := verifyOn_accepted h
  obtain ⟨str', hstr, hdec⟩ := hb
  obtain rfl := Option.some.inj hstr
  obtain rfl := hdec.unique ha.decodes
  have hauth := authenticate_ok_iff.mpr ⟨b, pk, ha, rfl⟩
  have hserial : (readPayload b).serial = le32 b 32 :=
    rdLe32_eq (by simp [hdec.1, OFF_SERIAL])
  have hrev : checkRevocation { c with revokedSerials := some d }
      (((readPayload b).withChecked VL_CHECKED_SIGNATURE).withChecked VL_CHECKED_DEVICE) =
        .error .errRevoked := by
    rcases checkRevocation_cases { c with revokedSerials := some d } (((readPayload b).withChecked
      VL_CHECKED_SIGNATURE).withChecked VL_CHECKED_DEVICE) with ⟨hnot, -⟩ | ⟨-, herr⟩
    · rw [VlLicense.withChecked_serial, VlLicense.withChecked_serial, hserial] at hnot
      exact absurd hmem (hnot d rfl)
    · exact herr
  have hargs' : checkArgs (some str) (some { c with revokedSerials := some d })
      (hal.map VlHal.mask) = .ok (str, { c with revokedSerials := some d }, ks, m) := by
    obtain ⟨-, -, hhal, -, hne, hid, hhwm⟩ := checkArgs_ok_iff.mp hargs
    exact checkArgs_ok_iff.mpr ⟨rfl, rfl, hhal, hkeys, hne, hid, hhwm⟩
  have hauth' : authenticate cr { c with revokedSerials := some d } ks str = .ok _ :=
    (authenticate_congr rfl fun _ _ => rfl).trans hauth
  have hrun : verifyOn cr (some str) (some { c with revokedSerials := some d }) hal out s = _ :=
    Prog.exec_env_iff.mp (exec_vlVerify.mpr
      (.inr ⟨_, _, _, _, _, hargs', .revoked hauth' hfp hdev hrev, rfl⟩))
  rw [hrun]
  exact ⟨rfl, (fingerprint_only _ _).trace hfp⟩

/-- **Rotation and revocation are local.** -/
theorem rotation_local (cr : Crypto) (blob : Option CStr) (c : VlConfig) (hal : Option (VlHal σ))
    (out : Option VlLicense) (s : σ) :
    (∀ c', SameFor blob c c' →
      verifyOn cr blob (some c') hal out s = verifyOn cr blob (some c) hal out s) ∧
    ∀ b ks, BlobBytes blob b → c.keys = some ks → ks ≠ [] →
      (∀ ks', EditedOutside (b.getD 2 0) ks ks' → ks' ≠ [] →
        verifyOn cr blob (some { c with keys := some ks' }) hal out s =
          verifyOn cr blob (some c) hal out s) ∧
      (∀ d d', c.revokedSerials = some d → d ≠ [] → ExtendedOutside (le32 b 32) d d' →
        verifyOn cr blob (some { c with revokedSerials := some d' }) hal out s =
          verifyOn cr blob (some c) hal out s) ∧
      ((verifyOn cr blob (some c) hal out s).val.1 = .ok →
        (ks.filter (fun k => k.keyId ≠ b.getD 2 0) ≠ [] →
          (verifyOn cr blob (some { c with keys := some (ks.filter fun k => k.keyId ≠ b.getD 2 0) })
            hal out s).val.1 = .errUnknownKey) ∧
        ∀ d, le32 b 32 ∈ d →
          (verifyOn cr blob (some { c with revokedSerials := some d }) hal out s).val.1 =
            .errRevoked ∧
          ∀ ev ∈ (verifyOn cr blob (some { c with revokedSerials := some d }) hal out s).trace,
            ∀ mark, ev.1 ≠ .hwmStore mark) := by
  have honly : ∀ b₁ b₂, BlobBytes blob b₁ → BlobBytes blob b₂ → b₁ = b₂ := by
    intro b₁ b₂ h₁ h₂
    obtain ⟨str₁, rfl, hdec₁⟩ := h₁
    obtain ⟨str₂, hstr, hdec₂⟩ := h₂
    obtain rfl := Option.some.inj hstr
    exact hdec₁.unique hdec₂
  refine ⟨fun c' => verifyOn_congr, fun b ks hb hks hne => ⟨?_, ?_, fun hok => ⟨?_, ?_⟩⟩⟩
  · intro ks' hedit hne'
    refine verifyOn_congr ⟨rfl, rfl, ⟨ks, ks', hks, rfl, hne, hne', fun b' hb' => ?_⟩, ?_⟩
    · rw [honly b' b hb' hb]
      exact hedit.find?_eq
    · cases hd : c.revokedSerials with
      | none => exact .inl ⟨rfl, rfl⟩
      | some d =>
        by_cases hnil : d = []
        · exact .inl ⟨hnil, hnil⟩
        · exact .inr ⟨d, d, rfl, rfl, hnil, hnil, fun _ _ => Iff.rfl⟩
  · intro d d' hd hnil hext
    refine verifyOn_congr ⟨rfl, rfl, ⟨ks, ks, hks, hks, hne, hne, fun _ _ => rfl⟩, .inr ?_⟩
    refine ⟨d, d', hd, rfl, hnil, hext.ne_nil hnil, fun b' hb' => ?_⟩
    rw [honly b' b hb' hb]
    exact hext.mem_iff
  · intro hrest
    refine congrArg Prod.fst (verifyOn_unknownKey hb hok hrest ?_).1
    apply List.find?_eq_none.mpr
    intro k hk
    have hother := (List.mem_filter.mp hk).2
    simpa using hother
  · intro d hmem
    obtain ⟨hval, htrace⟩ := verifyOn_revoked hb hok hmem
    refine ⟨congrArg Prod.fst hval, fun ev hev mark hstore => ?_⟩
    have hread := htrace ev hev
    rw [hstore] at hread
    exact hread

end

end VectiLicense.L3
