import VectiLicense.L3Verify.Spelling
import VectiLicense.L6Bridge.License

/-!
# What the methods of `License` do

One inversion for each program of `License`, used from here on instead of the
definitions: `ApplyStep` and `OpStep` list the ways `_apply` and a method can
end, with the calls made and their answers, over any environment for these
calls.

* `exec_apply`, `exec_op`, `OpStep.exec`: these are exactly the executions.
* `bridgeEnv_verify`: against a HAL, a `verify` event is a call of `vl_verify`.
* `verify_accepted`: what an accepting one says of the blob.
-/
namespace VectiLicense.L6

open VectiLicense.Core VectiLicense.L0 VectiLicense.L1.Base32 VectiLicense.L3

/-! ## The ways a method can end -/

section
variable {σ : Type}

/-- `_apply`. -/
inductive ApplyStep (env : Env BridgeCall.Resp σ) (hal : Option HalMask) (blob : BlobArg)
    (persist : Bool) (l : License) : σ → List BridgeEvent → VlStatus → License → σ → Prop where
  | refused {s s' : σ} {st : VlStatus} {lic : VlLicense} :
      env (.verify (blob.str l.blob)) s (st, lic) s' → st ≠ .ok →
      ApplyStep env hal blob persist l s [⟨.verify (blob.str l.blob), (st, lic)⟩] st
        (l.refused st) s'
  | held {s s' : σ} {lic : VlLicense} :
      env (.verify (blob.str l.blob)) s (.ok, lic) s' →
      ¬ (persist = true ∧ License.hasStore hal = true) →
      ApplyStep env hal blob persist l s [⟨.verify (blob.str l.blob), (.ok, lic)⟩] .ok
        (l.inForce blob lic) s'
  | persisted {s s₁ s' : σ} {lic : VlLicense} {bytes : List UInt8} {stored : VlStatus} :
      env (.verify (blob.str l.blob)) s (.ok, lic) s₁ → persist = true →
      License.hasStore hal = true →
      bytes = (l.inForce blob lic).blob.mem.toList.take (canonicalise blob l.blob).1 →
      env (.blobStore bytes) s₁ stored s' →
      ApplyStep env hal blob persist l s
        [⟨.verify (blob.str l.blob), (.ok, lic)⟩, ⟨.blobStore bytes, stored⟩]
        (if stored ≠ .ok then .errPlatform else .ok) (l.inForce blob lic) s'

variable {env : Env BridgeCall.Resp σ} {hal : Option HalMask} {blob : BlobArg} {persist : Bool}
  {l l' : License} {s s' : σ} {t : List BridgeEvent} {st : VlStatus}

theorem exec_apply :
    Prog.Exec env (License.apply hal blob persist l) s t (st, l') s' ↔
      ApplyStep env hal blob persist l s t st l' s' := by
  unfold License.apply
  rw [Prog.exec_bind]
  refine ⟨?_, ?_⟩
  · intro h
    obtain ⟨⟨v, lic⟩, s₁, t₁, t₂, rfl, hask, h⟩ := h
    obtain ⟨rfl, hv⟩ := Prog.exec_ask.mp hask
    dsimp only at h
    split at h
    · rename_i hne
      obtain ⟨rfl, h, rfl⟩ := Prog.exec_ret.mp h
      cases h
      exact .refused hv hne
    rename_i hok
    rw [Decidable.not_not] at hok
    subst hok
    split at h
    · rename_i hp
      obtain ⟨stored, s₂, t₃, t₄, rfl, hput, hend⟩ := Prog.exec_bind.mp h
      obtain ⟨rfl, hs⟩ := Prog.exec_ask.mp hput
      split at hend
      · rename_i hne
        obtain ⟨rfl, heq, rfl⟩ := Prog.exec_ret.mp hend
        cases heq
        have hstep := ApplyStep.persisted hv hp.1 hp.2 rfl hs
        rwa [if_pos hne] at hstep
      · rename_i hst
        obtain ⟨rfl, heq, rfl⟩ := Prog.exec_ret.mp hend
        cases heq
        have hstep := ApplyStep.persisted hv hp.1 hp.2 rfl hs
        rwa [if_neg hst] at hstep
    · rename_i hp
      obtain ⟨rfl, h, rfl⟩ := Prog.exec_ret.mp h
      cases h
      exact .held hv hp
  · intro h
    cases h with
    | refused hv hne =>
      refine ⟨_, _, [_], [], rfl, Prog.exec_ask.mpr ⟨rfl, hv⟩, ?_⟩
      dsimp only
      rw [if_pos hne]
      exact Prog.exec_ret.mpr ⟨rfl, rfl, rfl⟩
    | held hv hp =>
      refine ⟨_, _, [_], [], rfl, Prog.exec_ask.mpr ⟨rfl, hv⟩, ?_⟩
      dsimp only
      rw [if_neg (not_not_intro rfl), if_neg hp]
      exact Prog.exec_ret.mpr ⟨rfl, rfl, rfl⟩
    | persisted hv hp hs hb hstore =>
      refine ⟨_, _, [_], [_], rfl, Prog.exec_ask.mpr ⟨rfl, hv⟩, ?_⟩
      dsimp only
      rw [if_neg (not_not_intro rfl), if_pos ⟨hp, hs⟩]
      subst hb
      refine Prog.exec_bind.mpr ⟨_, _, [_], [], rfl, Prog.exec_ask.mpr ⟨rfl, hstore⟩, ?_⟩
      split
      · exact Prog.exec_ret.mpr ⟨rfl, rfl, rfl⟩
      · exact Prog.exec_ret.mpr ⟨rfl, rfl, rfl⟩

/-- A method; `pump` and `begin` go through `_apply`, and `deviceId` changes
nothing but the identity. -/
inductive OpStep [Target] (env : Env BridgeCall.Resp σ) (hal : Option HalMask) (l : License) :
    Op → σ → List BridgeEvent → Option VlStatus → License → σ → Prop where
  | noLoad {s : σ} : License.hasLoad hal = false →
      OpStep env hal l .begin s [] (some .errNotFound) { l with status := .errNotFound } s
  | loadFailed {s s' : σ} {st : VlStatus} {bytes : List UInt8} : License.hasLoad hal = true →
      env (.blobLoad VL_BLOB_STR_BUF_LEN) s (st, bytes) s' → st ≠ .ok →
      OpStep env hal l .begin s [⟨.blobLoad VL_BLOB_STR_BUF_LEN, (st, bytes)⟩] (some st)
        { l with status := st } s'
  | loadTooLong {s s' : σ} {bytes : List UInt8} : License.hasLoad hal = true →
      env (.blobLoad VL_BLOB_STR_BUF_LEN) s (.ok, bytes) s' → VL_BLOB_STR_BUF_LEN ≤ bytes.length →
      OpStep env hal l .begin s [⟨.blobLoad VL_BLOB_STR_BUF_LEN, (.ok, bytes)⟩]
        (some .errPlatform) { l with status := .errPlatform } s'
  | loaded {s s₁ s' : σ} {bytes : List UInt8} {t : List BridgeEvent} {st : VlStatus}
      {l' : License} : License.hasLoad hal = true →
      env (.blobLoad VL_BLOB_STR_BUF_LEN) s (.ok, bytes) s₁ → bytes.length < VL_BLOB_STR_BUF_LEN →
      ApplyStep env hal (.text (CStr.ofMem (bytes ++ [0]))) false l s₁ t st l' s' →
      OpStep env hal l .begin s (⟨.blobLoad VL_BLOB_STR_BUF_LEN, (.ok, bytes)⟩ :: t) (some st) l' s'
  | activate {s s' : σ} {blob : BlobArg} {t : List BridgeEvent} {st : VlStatus} {l' : License} :
      ApplyStep env hal blob true l s t st l' s' →
      OpStep env hal l (.activate blob) s t (some st) l' s'
  | submit {s : σ} {blob : Option (List UInt8)} :
      OpStep env hal l (.submit blob) s [] none (l.submit blob).2 s
  | idle {s : σ} : l.pendingFlag = false → OpStep env hal l .pump s [] none l s
  | pumped {s s' : σ} {t : List BridgeEvent} {st : VlStatus} {l' : License} :
      l.pendingFlag = true → ApplyStep env hal (.text l.pending.str) true l s t st l' s' →
      OpStep env hal l .pump s t (some st)
        { l' with pending := zeroPending, pendingFlag := false } s'
  | cleared {s : σ} : License.hasStore hal = false →
      OpStep env hal l .clear s [] (some .ok) (l.refused .errNotFound) s
  | erased {s s' : σ} {st : VlStatus} : License.hasStore hal = true →
      env (.blobStore []) s st s' →
      OpStep env hal l .clear s [⟨.blobStore [], st⟩] (some st) (l.refused .errNotFound) s'
  | deviceId {s s' : σ} {t : List BridgeEvent} {id : CStr} {l' : License} :
      Prog.Exec env l.deviceId s t (id, l') s' → OpStep env hal l .deviceId s t none l' s'

theorem exec_begin [Target] (h : Prog.Exec env (l.begin hal) s t (st, l') s') :
    OpStep env hal l .begin s t (some st) l' s' := by
  unfold License.begin at h
  split at h
  · rename_i hload
    obtain ⟨rfl, heq, rfl⟩ := Prog.exec_ret.mp h
    cases heq
    exact .noLoad hload
  rename_i hload
  rw [Bool.not_eq_false] at hload
  obtain ⟨⟨v, bytes⟩, s₁, t₁, t₂, rfl, hask, hrest⟩ := Prog.exec_bind.mp h
  obtain ⟨rfl, henv⟩ := Prog.exec_ask.mp hask
  dsimp only at hrest
  split at hrest
  · rename_i hne
    obtain ⟨rfl, heq, rfl⟩ := Prog.exec_ret.mp hrest
    cases heq
    exact .loadFailed hload henv hne
  rename_i hok
  rw [Decidable.not_not] at hok
  subst hok
  split at hrest
  · rename_i hlong
    obtain ⟨rfl, heq, rfl⟩ := Prog.exec_ret.mp hrest
    cases heq
    exact .loadTooLong hload henv hlong
  · rename_i hfit
    exact .loaded hload henv (Nat.lt_of_not_le hfit) (exec_apply.mp hrest)

theorem exec_pump [Target] {ret : Option VlStatus}
    (h : Prog.Exec env (l.pump hal) s t (ret, l') s') : OpStep env hal l .pump s t ret l' s' := by
  unfold License.pump at h
  split at h
  · rename_i hflag
    obtain ⟨rfl, heq, rfl⟩ := Prog.exec_ret.mp h
    cases heq
    exact .idle hflag
  · rename_i hflag
    rw [Bool.not_eq_false] at hflag
    obtain ⟨⟨v, l₁⟩, s₁, t₁, t₂, rfl, happly, hrest⟩ := Prog.exec_bind.mp h
    obtain ⟨rfl, heq, rfl⟩ := Prog.exec_ret.mp hrest
    cases heq
    rw [List.append_nil]
    exact .pumped hflag (exec_apply.mp happly)

theorem exec_clear [Target] (h : Prog.Exec env (l.clear hal) s t (st, l') s') :
    OpStep env hal l .clear s t (some st) l' s' := by
  unfold License.clear at h
  dsimp only at h
  split at h
  · rename_i hstore
    obtain ⟨v, s₁, t₁, t₂, rfl, hask, hrest⟩ := Prog.exec_bind.mp h
    obtain ⟨rfl, henv⟩ := Prog.exec_ask.mp hask
    obtain ⟨rfl, heq, rfl⟩ := Prog.exec_ret.mp hrest
    cases heq
    exact .erased hstore henv
  · rename_i hstore
    obtain ⟨rfl, heq, rfl⟩ := Prog.exec_ret.mp h
    cases heq
    exact .cleared (by simpa using hstore)

theorem exec_passed {α β : Type} {p : BridgeProg α} {f : α → β} {b : β} :
    Prog.Exec env (p >>= fun a => .ret (f a)) s t b s' ↔
      ∃ a, Prog.Exec env p s t a s' ∧ b = f a := by
  rw [Prog.exec_bind]
  refine ⟨?_, ?_⟩
  · intro h
    obtain ⟨a, s₁, t₁, t₂, rfl, hp, hret⟩ := h
    obtain ⟨rfl, rfl, rfl⟩ := Prog.exec_ret.mp hret
    exact ⟨a, by rwa [List.append_nil], rfl⟩
  · intro h
    obtain ⟨a, hp, rfl⟩ := h
    exact ⟨a, s', t, [], by simp, hp, Prog.exec_ret.mpr ⟨rfl, rfl, rfl⟩⟩

/-- **What a method can do.** -/
theorem exec_op [Target] {op : Op} {ret : Option VlStatus}
    (h : Prog.Exec env (op.run hal l) s t (ret, l') s') : OpStep env hal l op s t ret l' s' := by
  cases op with
  | begin =>
    obtain ⟨⟨v, l₁⟩, hbegin, heq⟩ := exec_passed.mp h
    cases heq
    exact exec_begin hbegin
  | activate blob =>
    obtain ⟨⟨v, l₁⟩, happly, heq⟩ := exec_passed.mp h
    cases heq
    exact .activate (exec_apply.mp happly)
  | submit blob =>
    obtain ⟨rfl, heq, rfl⟩ := Prog.exec_ret.mp h
    cases heq
    exact .submit
  | pump => exact exec_pump h
  | clear =>
    obtain ⟨⟨v, l₁⟩, hclear, heq⟩ := exec_passed.mp h
    cases heq
    exact exec_clear hclear
  | deviceId =>
    obtain ⟨⟨id, l₁⟩, hid, heq⟩ := exec_passed.mp h
    cases heq
    exact .deviceId hid

/-- And every way a method can end is one it can take. -/
theorem OpStep.exec [Target] {op : Op} {ret : Option VlStatus}
    (h : OpStep env hal l op s t ret l' s') : Prog.Exec env (op.run hal l) s t (ret, l') s' := by
  cases h with
  | noLoad hload =>
    refine exec_passed.mpr ⟨(_, _), ?_, rfl⟩
    rw [License.begin, if_pos hload]
    exact Prog.exec_ret.mpr ⟨rfl, rfl, rfl⟩
  | loadFailed hload henv hne =>
    refine exec_passed.mpr ⟨(_, _), ?_, rfl⟩
    rw [License.begin, if_neg (by simp [hload])]
    refine Prog.exec_bind.mpr ⟨_, _, [_], [], rfl, Prog.exec_ask.mpr ⟨rfl, henv⟩, ?_⟩
    dsimp only
    rw [if_pos hne]
    exact Prog.exec_ret.mpr ⟨rfl, rfl, rfl⟩
  | loadTooLong hload henv hlong =>
    refine exec_passed.mpr ⟨(_, _), ?_, rfl⟩
    rw [License.begin, if_neg (by simp [hload])]
    refine Prog.exec_bind.mpr ⟨_, _, [_], [], rfl, Prog.exec_ask.mpr ⟨rfl, henv⟩, ?_⟩
    dsimp only
    rw [if_neg (not_not_intro rfl), if_pos hlong]
    exact Prog.exec_ret.mpr ⟨rfl, rfl, rfl⟩
  | loaded hload henv hlt happly =>
    refine exec_passed.mpr ⟨(_, _), ?_, rfl⟩
    rw [License.begin, if_neg (by simp [hload])]
    refine Prog.exec_bind.mpr ⟨_, _, [_], _, rfl, Prog.exec_ask.mpr ⟨rfl, henv⟩, ?_⟩
    dsimp only
    rw [if_neg (not_not_intro rfl), if_neg (Nat.not_le.mpr hlt)]
    exact exec_apply.mpr happly
  | activate happly => exact exec_passed.mpr ⟨(_, _), exec_apply.mpr happly, rfl⟩
  | submit => exact Prog.exec_ret.mpr ⟨rfl, rfl, rfl⟩
  | idle hflag =>
    change Prog.Exec env (l.pump hal) _ _ _ _
    rw [License.pump, if_pos hflag]
    exact Prog.exec_ret.mpr ⟨rfl, rfl, rfl⟩
  | pumped hflag happly =>
    change Prog.Exec env (l.pump hal) _ _ _ _
    rw [License.pump, if_neg (by simp [hflag])]
    exact exec_passed.mpr ⟨(_, _), exec_apply.mpr happly, rfl⟩
  | cleared hstore =>
    refine exec_passed.mpr ⟨(_, _), ?_, rfl⟩
    rw [License.clear, if_neg (by simp [hstore])]
    exact Prog.exec_ret.mpr ⟨rfl, rfl, rfl⟩
  | erased hstore henv =>
    refine exec_passed.mpr ⟨(_, _), ?_, rfl⟩
    rw [License.clear, if_pos hstore]
    exact exec_passed.mpr ⟨_, Prog.exec_ask.mpr ⟨rfl, henv⟩, rfl⟩
  | deviceId hid => exact exec_passed.mpr ⟨(_, _), hid, rfl⟩

theorem deviceId_frame [Target] {id : CStr} (h : Prog.Exec env l.deviceId s t (id, l') s') :
    l'.status = l.status ∧ l'.lic = l.lic ∧ l'.blob = l.blob ∧ l'.pending = l.pending ∧
      l'.pendingFlag = l.pendingFlag ∧ ∀ ev ∈ t, ev.1 = .computeFingerprint := by
  unfold License.deviceId at h
  split at h
  · obtain ⟨⟨v, fp⟩, s₁, t₁, t₂, rfl, hask, hrest⟩ := Prog.exec_bind.mp h
    obtain ⟨rfl, -⟩ := Prog.exec_ask.mp hask
    obtain ⟨rfl, heq, rfl⟩ := Prog.exec_ret.mp hrest
    cases heq
    exact ⟨rfl, rfl, rfl, rfl, rfl, by simp⟩
  · obtain ⟨rfl, heq, rfl⟩ := Prog.exec_ret.mp h
    cases heq
    exact ⟨rfl, rfl, rfl, rfl, rfl, by simp⟩

end

/-! ## Verdicts -/

section
variable {σ : Type} [Target] {cr : Crypto} {cfg : Option VlConfig} {hal : Option HalMask}
  {env : Env HalCall.Resp σ} {blob : Option CStr} {s s' : σ} {st : VlStatus} {lic : VlLicense}

/-- The bridge calls of an object, executed against the HAL. -/
abbrev bridgeEnv (cr : Crypto) (cfg : Option VlConfig) (hal : Option HalMask)
    (env : Env HalCall.Resp σ) : Env BridgeCall.Resp σ :=
  env.lower (BridgeCall.body cr cfg hal)

theorem bridgeEnv_verify :
    bridgeEnv cr cfg hal env (.verify blob) s (st, lic) s' ↔
      ∃ t, Prog.Exec env (vlVerify cr blob cfg hal (some VlLicense.zero)) s t (st, some lic) s' := by
  refine ⟨?_, ?_⟩
  · intro h
    obtain ⟨t, h⟩ := h
    obtain ⟨⟨v, o⟩, s₁, t₁, t₂, rfl, hv, hret⟩ := Prog.exec_bind.mp h
    obtain ⟨rfl, heq, rfl⟩ := Prog.exec_ret.mp hret
    cases heq
    have hsome : ∃ lic, o = some lic := by
      rcases exec_vlVerify.mp hv with ⟨rc, -, -, heq, -⟩ | ⟨_, _, _, _, r, -, -, heq⟩
      · exact ⟨_, (Prod.mk.inj heq).2⟩
      · cases r <;> exact ⟨_, (Prod.mk.inj heq).2⟩
    obtain ⟨lic, rfl⟩ := hsome
    exact ⟨t₁, hv⟩
  · intro h
    obtain ⟨t, h⟩ := h
    exact ⟨t, Prog.exec_bind.mpr ⟨_, s', t, [], by simp, h, Prog.exec_ret.mpr ⟨rfl, rfl, rfl⟩⟩⟩

/-- An accepting verdict: the blob's bytes, and the licence they carry. -/
theorem verify_accepted
    (h : bridgeEnv cr cfg hal env (.verify blob) s (.ok, lic) s') :
    ∃ str c m b, blob = some str ∧ cfg = some c ∧ hal = some m ∧ DecodesTo str b ∧
      (norm str.bytes).length = 160 ∧ b.getD 1 0 = 1 ∧
      lic = { readPayload b with checked := checkedBits c m } := by
  obtain ⟨t, hexec⟩ := bridgeEnv_verify.mp h
  obtain ⟨str, c, keys, m, lic', hargs, hstep, heq⟩ := exec_vlVerify_ok.mp hexec
  obtain ⟨rfl, rfl, rfl, -⟩ := checkArgs_ok_iff.mp hargs
  obtain ⟨b, pk, ha, rfl⟩ := hstep.ok_eq
  exact ⟨str, c, m, b, rfl, rfl, rfl, ha.decodes, ha.decodes.length_norm, ha.version,
    Option.some.inj heq⟩

end

end VectiLicense.L6
