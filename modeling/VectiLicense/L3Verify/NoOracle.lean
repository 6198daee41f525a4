import VectiLicense.L3Verify.Accept

/-!
# No oracle before the signature

A forged blob must not let its sender learn which device it names, what time
it is or what mark the device keeps. Up to the signature `vl_verify` is a pure
function of its arguments, so what it does with a blob that is not
`Authentic` cannot depend on the HAL.

* `vlVerify_unauthentic`: such a call is a plain return.
* `vlVerify_provided`: no NULL callback is ever invoked.
* `no_oracle`: two devices give an unauthentic blob the same answer, with no
  callback; the clock and the mark are touched only behind the device match
  and the deny-list; the blob and posture callbacks never.
-/
namespace VectiLicense.L3

open VectiLicense.Core VectiLicense.L0 VectiLicense.L1.Base32

/-- Cutting a trace at a call of the second kind, which the first part has none of. -/
theorem prefix_of_split {P : HalEvent → Prop} {t₁ t₂ pre post : List HalEvent} {ev : HalEvent}
    (h : t₁ ++ t₂ = pre ++ ev :: post) (h₁ : ∀ e ∈ t₁, P e) (hev : ¬ P ev) : t₁ <+: pre := by
  rcases List.append_eq_append_iff.mp h with ⟨a, rfl, -⟩ | ⟨c, rfl, hc⟩
  · exact List.prefix_append t₁ a
  · cases c with
    | nil => simp
    | cons e c =>
      have he : ev = e := (List.cons.inj hc).1
      exact absurd (h₁ ev (by simp [he])) hev

variable [Target]

/-- The blob fails decoding, magic, version, family, key lookup or signature
(or there is no blob, config or key set to look at). -/
def Unauthentic (cr : Crypto) (blob : Option CStr) (cfg : Option VlConfig) : Prop :=
  ∀ str c keys, blob = some str → cfg = some c → c.keys = some keys →
    ¬ ∃ b pk, Authentic cr c keys str b pk

/-- A call of step 6. -/
def IsTimeCall : HalCall → Prop
  | .nowEpoch | .hwmLoad | .hwmStore _ => True
  | _ => False

/-- The calls `pre` contain a whole fingerprint computation whose result
matches the device id of an authentic blob with an unrevoked serial. -/
def AfterBinding {σ : Type} (cr : Crypto) (blob : Option CStr) (cfg : Option VlConfig)
    (hal : VlHal σ) (s : σ) (pre : List HalEvent) : Prop :=
  ∃ str c keys b pk fp, blob = some str ∧ cfg = some c ∧ c.keys = some keys ∧
    Authentic cr c keys str b pk ∧
    ((vlComputeFingerprint cr (some hal.mask) (some (Vector.replicate 32 0))).run
      hal.handler s).val = (.ok, some fp) ∧
    ((vlComputeFingerprint cr (some hal.mask) (some (Vector.replicate 32 0))).run
      hal.handler s).trace <+: pre ∧
    fp.toList.take 16 = (b.drop 8).take 16 ∧ NotRevoked c (le32 b 32)

variable {cr : Crypto} {σ : Type}

/-- An unauthentic blob is refused without asking anybody anything. -/
theorem vlVerify_unauthentic {blob : Option CStr} {cfg : Option VlConfig}
    (h : Unauthentic cr blob cfg) (hal : Option HalMask) (out : Option VlLicense) :
    ∃ rc, vlVerify cr blob cfg hal out = .ret (verdict out (.error rc)) := by
  unfold vlVerify
  cases hargs : checkArgs blob cfg hal with
  | error rc => exact ⟨rc, rfl⟩
  | ok a =>
    obtain ⟨str, c, keys, m⟩ := a
    obtain ⟨rfl, rfl, -, hkeys, -⟩ := checkArgs_ok_iff.mp hargs
    cases hauth : authenticate cr c keys str with
    | error rc =>
      refine ⟨rc, ?_⟩
      simp only [verifySteps, hauth]
      rfl
    | ok lic =>
      obtain ⟨b, pk, ha, -⟩ := authenticate_ok_iff.mp hauth
      exact absurd ⟨b, pk, ha⟩ (h str c keys rfl rfl hkeys)

omit [Target] in
theorem TimeStep.trace {env : Env HalCall.Resp σ} {cfg : VlConfig} {hal : HalMask}
    {lic : VlLicense} {s s' : σ} {t : List HalEvent} {r : Except VlStatus VlLicense}
    (h : TimeStep env cfg hal lic s t r s') : ∀ ev ∈ t, IsTimeCall ev.1 := by
  cases h with
  | marked _ _ _ _ _ hm => cases hm <;> simp [IsTimeCall]
  | _ => simp [IsTimeCall]

omit [Target] in
/-- Step 6 invokes the mark callbacks only under the flag, which needs them. -/
theorem TimeStep.provided {env : Env HalCall.Resp σ} {cfg : VlConfig} {hal : HalMask}
    (hargs : HwmArgs cfg hal) {lic : VlLicense} {s s' : σ} {t : List HalEvent}
    {r : Except VlStatus VlLicense} (h : TimeStep env cfg hal lic s t r s') :
    ∀ ev ∈ t, hal.provides ev.1 = true := by
  cases h with
  | noClock | unchecked => simp
  | marked hclock _ _ _ hf hm =>
    obtain ⟨-, hload, hstore⟩ := hargs hf
    cases hm <;> simp [HalMask.provides, hclock, hload, hstore]
  | _ hclock => simp [HalMask.provides, hclock]

/-- A call's trace: identity reads, then, if any, step 6. -/
theorem VerifyStep.split {env : Env HalCall.Resp σ} {cfg : VlConfig} {keys : List VlPubkey}
    {hal : HalMask} {blob : CStr} {s s' : σ} {t : List HalEvent} {r : Except VlStatus VlLicense}
    (h : VerifyStep cr env cfg keys hal blob s t r s') :
    (∀ ev ∈ t, IsIdRead ev.1) ∨
    ∃ t₁ t₂ b pk fp s₁, t = t₁ ++ t₂ ∧ Authentic cr cfg keys blob b pk ∧
      Prog.Exec env (vlComputeFingerprint cr (some hal) (some (Vector.replicate 32 0))) s t₁
        (.ok, some fp) s₁ ∧ (∀ ev ∈ t₁, IsIdRead ev.1) ∧
      fp.toList.take 16 = (b.drop 8).take 16 ∧ NotRevoked cfg (le32 b 32) ∧
      (∃ lic, TimeStep env cfg hal lic s₁ t₂ r s') := by
  have honly := @fingerprint_only cr (some hal) (some (Vector.replicate 32 0))
  cases h with
  | rejected => exact .inl (by simp)
  | identityFailed _ hfp | otherDevice _ hfp | revoked _ hfp => exact .inl (honly.trace hfp)
  | timed hauth hfp hdev hrev htime =>
    obtain ⟨b, pk, ha, rfl⟩ := authenticate_ok_iff.mp hauth
    have hlen := ha.decodes.1
    obtain ⟨⟨fp, rfl⟩, -⟩ := exec_fingerprint_cases hfp
    refine .inr ⟨_, _, b, pk, fp, _, rfl, ha, hfp, honly.trace hfp, ?_, ?_, _, htime⟩
    · rw [← readPayload_deviceId hlen]
      exact deviceMatches_iff.mp hdev
    · rw [← rdLe32_eq (by simp [hlen])]
      exact checkRevocation_ok_iff.mp ⟨_, hrev⟩

/-- **No NULL callback is ever invoked.** -/
theorem vlVerify_provided {env : Env HalCall.Resp σ} {blob : Option CStr} {cfg : Option VlConfig}
    {hal : HalMask} {out : Option VlLicense} {s s' : σ} {t : List HalEvent}
    {v : VlStatus × Option VlLicense}
    (h : Prog.Exec env (vlVerify cr blob cfg (some hal) out) s t v s') :
    ∀ ev ∈ t, hal.provides ev.1 = true := by
  rcases exec_vlVerify.mp h with ⟨-, -, rfl, -, -⟩ | ⟨b, c, keys, m, r, hargs, hstep, -⟩
  · simp
  obtain ⟨-, -, hm, -, -, hid, hhwm⟩ := checkArgs_ok_iff.mp hargs
  cases hm
  have hread : ∀ ev : HalEvent, IsIdRead ev.1 → hal.provides ev.1 = true := by
    rintro ⟨e, r⟩ he
    cases e with
    | readIdSegment => exact hid
    | _ => exact he.elim
  intro ev hev
  rcases hstep.split with hall | ⟨t₁, t₂, _, _, _, _, rfl, -, -, hall, -, -, lic, htime⟩
  · exact hread ev (hall ev hev)
  · rcases List.mem_append.mp hev with hev | hev
    · exact hread ev (hall ev hev)
    · exact htime.provided hhwm ev hev

theorem vlVerify_calls {env : Env HalCall.Resp σ} {blob : Option CStr} {cfg : Option VlConfig}
    {hal : Option HalMask} {out : Option VlLicense} {s s' : σ} {t : List HalEvent}
    {v : VlStatus × Option VlLicense}
    (h : Prog.Exec env (vlVerify cr blob cfg hal out) s t v s') :
    ∀ ev ∈ t, IsIdRead ev.1 ∨ IsTimeCall ev.1 := by
  rcases exec_vlVerify.mp h with ⟨-, -, rfl, -, -⟩ | ⟨b, c, keys, m, r, -, hstep, -⟩
  · simp
  intro ev hev
  rcases hstep.split with hall | ⟨t₁, t₂, _, _, _, _, rfl, -, -, hall, -, -, lic, htime⟩
  · exact .inl (hall ev hev)
  · rcases List.mem_append.mp hev with hev | hev
    · exact .inl (hall ev hev)
    · exact .inr (htime.trace ev hev)

/-- **No oracle and no side effect before the signature.** -/
theorem no_oracle {τ : Type} (blob : Option CStr) (cfg : Option VlConfig) (h₁ : VlHal σ)
    (h₂ : VlHal τ) (hmask : h₁.mask = h₂.mask) (out : Option VlLicense) (s₁ : σ) (s₂ : τ) :
    (Unauthentic cr blob cfg →
      (verifyOn cr blob cfg (some h₁) out s₁).val = (verifyOn cr blob cfg (some h₂) out s₂).val ∧
      (verifyOn cr blob cfg (some h₁) out s₁).val.2 = out.map (fun _ => VlLicense.zero) ∧
      (verifyOn cr blob cfg (some h₁) out s₁).trace = [] ∧
      (verifyOn cr blob cfg (some h₂) out s₂).trace = []) ∧
    (∀ ev ∈ (verifyOn cr blob cfg (some h₁) out s₁).trace,
      (∀ cap, ev.1 ≠ .blobLoad cap) ∧ (∀ b, ev.1 ≠ .blobStore b) ∧ ev.1 ≠ .securePosture) ∧
    (∀ pre ev post, (verifyOn cr blob cfg (some h₁) out s₁).trace = pre ++ ev :: post →
      IsTimeCall ev.1 → AfterBinding cr blob cfg h₁ s₁ pre) := by
  have hexec := Prog.exec_run h₁.handler (vlVerify cr blob cfg (some h₁.mask) out) s₁
  refine ⟨fun hun => ?_, fun ev hev => ?_, fun pre ev post htrace htime => ?_⟩
  · obtain ⟨rc, hret⟩ := vlVerify_unauthentic hun (some h₁.mask) out
    have hret₂ := hret
    rw [hmask] at hret₂
    simp only [verifyOn, Option.map_some, hret, hret₂, Prog.run_ret, verdict, and_self]
  · have hcall := vlVerify_calls hexec ev hev
    refine ⟨fun cap hc => ?_, fun b hc => ?_, fun hc => ?_⟩ <;>
      simp [hc, IsIdRead, IsTimeCall] at hcall
  · have hno : ¬ IsIdRead ev.1 := by
      intro hid
      revert hid htime
      cases ev.1 <;> simp [IsIdRead, IsTimeCall]
    change (Prog.run _ _ _).trace = _ at htrace
    rw [Option.map_some, Option.getD_some] at htrace
    rcases exec_vlVerify.mp hexec with ⟨-, -, hnil, -, -⟩ | ⟨str, c, keys, m, r, hargs, hstep, -⟩
    · rw [htrace] at hnil
      simp at hnil
    obtain ⟨hblob, hcfg, hm, hkeys, -⟩ := checkArgs_ok_iff.mp hargs
    cases hm
    rcases hstep.split with hall | ⟨t₁, t₂, b, pk, fp, s', ht, ha, hfp, hall, hdev, hrev, -⟩
    · exact absurd (hall ev (by rw [htrace]; simp)) hno
    · have hrun := Prog.exec_env_iff.mp hfp
      rw [ht] at htrace
      exact ⟨str, c, keys, b, pk, fp, hblob, hcfg, hkeys, ha, by rw [hrun],
        by rw [hrun]; exact prefix_of_split htrace hall hno, hdev, hrev⟩

/-- A licence of serial 1003 that ended at 1600000000.
mirrors tests/vl_test_fixtures.h:11 -/
def FIX_BLOB_EXPIRED : CStr := .ofMem <| ascii [
  'A', 'R', '0', 'G', 'E', '0', 'G', '1', '0', '0', '0', '0', '0', '7', 'P', '9', 'F', '9', 'R', 'M',
  'K', 'S', 'Z', 'Q', 'Q', 'S', 'N', 'Y', 'E', 'V', 'W', '3', 'R', '0', 'Q', 'V', '0', '8', 'G', '0',
  '0', '0', '0', '0', '0', '0', '0', 'G', 'B', 'S', 'F', 'Y', 'P', '0', 'R', '0', '0', '1', 'N', '7',
  'K', 'G', 'A', 'F', 'M', 'X', '3', '1', 'J', 'X', 'P', 'C', 'W', 'J', 'Q', 'F', 'C', 'F', 'C', '5',
  'X', '6', 'K', 'Z', 'B', 'H', 'Q', 'V', '4', 'W', 'M', 'N', '4', 'Y', '1', 'M', 'D', 'G', 'B', 'Z',
  'S', '3', 'Y', 'E', 'M', 'W', '4', 'T', 'C', 'J', 'B', 'J', 'A', 'Q', 'J', 'D', 'Z', 'H', '3', 'B',
  '9', '4', 'N', 'B', '2', 'Q', 'J', 'K', '1', '8', '8', '9', '7', 'K', '7', 'R', '4', 'V', 'K', 'V',
  'B', 'E', 'G', 'P', 'X', '3', 'E', '0', 'G', '1', 'T', 'G', 'B', 'Q', '9', '8', '4', '5', 'R', '8']

/-- Family 2, with one key and one revoked serial. -/
def denyConfig : VlConfig := ⟨some [⟨7, Vector.replicate 32 0⟩], 2, some [1003], 0⟩

/-- A device with the one-byte identity `id`, the clock at `now` and the mark at 0. -/
def tinyHal (id : UInt8) (now : UInt32) : VlHal Unit where
  readIdSegment := some fun idx s =>
    (if idx = 0 then ⟨.ok, Vector.replicate 255 id, 1⟩
      else ⟨.errNoMoreSegments, Vector.replicate 255 0, 0⟩, s)
  nowEpoch := some fun s => ((.ok, now), s)
  hwmLoad := some fun s => ((.ok, 0), s)
  hwmStore := some fun _ s => (.ok, s)
  blobLoad := none
  blobStore := none
  securePosture := none

/-- No message has a valid signature. -/
def noSignature : Crypto := ⟨Unit, (), fun _ _ => (), fun _ => Vector.replicate 32 0,
  fun _ _ _ => false⟩

omit [Target] in
/-- A well-formed blob with a forged signature, on two devices with different
identities and clocks. -/
theorem no_oracle_forged :
    (@verifyOn host64 _ noSignature (some FIX_BLOB_EXPIRED) (some denyConfig)
      (some (tinyHal 1 1500000000)) (some VlLicense.zero) ()).val =
      (.errBadSignature, some VlLicense.zero) ∧
    (@verifyOn host64 _ noSignature (some FIX_BLOB_EXPIRED) (some denyConfig)
      (some (tinyHal 2 1800000000)) (some VlLicense.zero) ()).val =
      (.errBadSignature, some VlLicense.zero) ∧
    (@verifyOn host64 _ noSignature (some FIX_BLOB_EXPIRED) (some denyConfig)
      (some (tinyHal 1 1500000000)) (some VlLicense.zero) ()).trace = [] ∧
    (@verifyOn host64 _ noSignature (some FIX_BLOB_EXPIRED) (some denyConfig)
      (some (tinyHal 2 1800000000)) (some VlLicense.zero) ()).trace = [] := by
  have hval : (@verifyOn host64 _ noSignature (some FIX_BLOB_EXPIRED) (some denyConfig)
      (some (tinyHal 1 1500000000)) (some VlLicense.zero) ()).val.1 = .errBadSignature := by
    decide +kernel
  have hforged : @Unauthentic host64 noSignature (some FIX_BLOB_EXPIRED) (some denyConfig) := by
    intro str c keys _ _ _ hauth
    obtain ⟨b, pk, ha⟩ := hauth
    cases @Authentic.signature host64 _ _ _ _ _ _ ha
  obtain ⟨hsame, hzero, ht₁, ht₂⟩ := (@no_oracle host64 _ _ _ _ _ (tinyHal 1 1500000000)
    (tinyHal 2 1800000000) rfl (some VlLicense.zero) () ()).1 hforged
  have hfirst : (@verifyOn host64 _ noSignature (some FIX_BLOB_EXPIRED) (some denyConfig)
      (some (tinyHal 1 1500000000)) (some VlLicense.zero) ()).val =
      (.errBadSignature, some VlLicense.zero) := Prod.ext hval hzero
  exact ⟨hfirst, hsame.symm.trans hfirst, ht₁, ht₂⟩

end VectiLicense.L3
