import VectiLicense.L3Verify.NoOracle
import VectiLicense.L6Bridge.Closed

/-!
# Activation survives a reboot

A HAL with a faithful blob slot: its content is part of the HAL's state, a
`blob_store` that returns `VL_OK` replaces it and any other leaves it alone,
and `blob_load` hands it out. Everything else about the HAL is arbitrary.

* `slot_origin`: over any run of methods, what is stored is empty or the
  canonical spelling of a string that `vl_verify` accepted before.
* `slot_kept`: a method that accepts nothing leaves the slot alone, `clear`
  apart.
* `begin_of_activate`: after a successful activation a fresh object comes up
  with the same licence.
-/
namespace VectiLicense.L6

open VectiLicense.Core VectiLicense.L0 VectiLicense.L1.Base32 VectiLicense.L3
open VectiLicense.L4.Mark (entitled exec_fixed vltReadIdSegment fixCrypto fixConfig vltHalFull
  FIX_BLOB_WINDOWED)

section
variable {σ : Type}

/-- The blob slot, as part of the HAL's state. -/
structure FaithfulSlot (env : Env HalCall.Resp σ) (slot : σ → List UInt8) : Prop where
  stored : ∀ b s s', env (.blobStore b) s .ok s' → slot s' = b
  failed : ∀ b s st s', env (.blobStore b) s st s' → st ≠ .ok → slot s' = slot s
  loaded : ∀ s r s', env (.blobLoad VL_BLOB_STR_BUF_LEN) s r s' → slot s ≠ [] → r = (.ok, slot s)
  empty : ∀ s r s', env (.blobLoad VL_BLOB_STR_BUF_LEN) s r s' → slot s = [] → r.1 = .errNotFound
  others : ∀ e s r s', (∀ b, e ≠ .blobStore b) → env e s r s' → slot s' = slot s

/-- Empty, or the canonical 160 characters of a string that was accepted. -/
def Verified (past : List BridgeEvent) (content : List UInt8) : Prop :=
  content = [] ∨ ∃ str lic, ⟨.verify (some str), (.ok, lic)⟩ ∈ past ∧
    content = (canon str).bytes ∧ content.length = 160

/-- Every `blob_store` was preceded by what it needs. -/
def StoresVerified (past : List BridgeEvent) : Prop :=
  ∀ pre b st post, past = pre ++ ⟨.blobStore b, st⟩ :: post → Verified pre b

theorem Verified.mono {past t : List BridgeEvent} {content : List UInt8}
    (h : Verified past content) : Verified (past ++ t) content := by
  rcases h with h | ⟨str, lic, hmem, h⟩
  · exact .inl h
  · exact .inr ⟨str, lic, List.mem_append_left t hmem, h⟩

theorem Verified.later {t : List BridgeEvent} {content : List UInt8} (h : Verified t content)
    (past : List BridgeEvent) : Verified (past ++ t) content := by
  rcases h with h | ⟨str, lic, hmem, h⟩
  · exact .inl h
  · exact .inr ⟨str, lic, List.mem_append_right past hmem, h⟩

theorem StoresVerified.append {past t : List BridgeEvent} (h : StoresVerified past)
    (ht : ∀ pre b st post, t = pre ++ ⟨.blobStore b, st⟩ :: post → Verified (past ++ pre) b) :
    StoresVerified (past ++ t) := by
  intro pre b st post heq
  rcases List.append_eq_append_iff.mp heq with ⟨u, rfl, htail⟩ | ⟨u, rfl, htail⟩
  · exact ht u b st post htail
  · cases u with
    | nil =>
      have hstart := ht [] b st post htail.symm
      simpa using hstart
    | cons ev u =>
      obtain ⟨rfl, -⟩ := List.cons.inj htail
      exact h pre b st u rfl

variable [Target] {cr : Crypto} {cfg : Option VlConfig} {hal : Option HalMask}
  {env : Env HalCall.Resp σ} {slot : σ → List UInt8}

/-! ## What a method does to the slot -/

theorem bridgeEnv_store {b : List UInt8} {s s' : σ} {st : VlStatus}
    (h : bridgeEnv cr cfg hal env (.blobStore b) s st s') : env (.blobStore b) s st s' := by
  obtain ⟨t, h⟩ := h
  exact (Prog.exec_ask.mp h).2

theorem bridgeEnv_load {cap : Nat} {s s' : σ} {r : VlStatus × List UInt8}
    (h : bridgeEnv cr cfg hal env (.blobLoad cap) s r s') : env (.blobLoad cap) s r s' := by
  obtain ⟨t, h⟩ := h
  exact (Prog.exec_ask.mp h).2

/-- Neither `vl_verify` nor the fingerprint touches what `blob_store` alone changes. -/
theorem bridgeEnv_keeps {τ : Type} {f : σ → τ}
    (hf : ∀ e s r s', (∀ b, e ≠ .blobStore b) → env e s r s' → f s' = f s) {e : BridgeCall}
    {s s' : σ} {r : e.Resp} (h : bridgeEnv cr cfg hal env e s r s') (he : ∀ b, e ≠ .blobStore b) :
    f s' = f s := by
  have hcalls : ∀ {α : Type} {p : HalProg α} {t : List HalEvent} {a : α} {s s' : σ},
      Prog.Exec env p s t a s' → (∀ ev ∈ t, ∀ b, ev.1 ≠ .blobStore b) → f s' = f s :=
    fun hexec ht => hexec.keeps (C := fun e => ∀ b, e ≠ .blobStore b)
      (fun e s r s' hc he => hf e s r s' hc he) ht
  cases e with
  | verify blob =>
    obtain ⟨t, hexec⟩ := bridgeEnv_verify.mp h
    refine hcalls hexec fun ev hev b hb => ?_
    have hcall := vlVerify_calls hexec ev hev
    rw [hb] at hcall
    rcases hcall with hcall | hcall <;> exact hcall
  | computeFingerprint =>
    obtain ⟨t, hbind⟩ := h
    obtain ⟨o, s₁, t₁, t₂, rfl, hexec, hret⟩ := Prog.exec_bind.mp hbind
    obtain ⟨rfl, -, rfl⟩ := Prog.exec_ret.mp hret
    refine hcalls hexec fun ev hev b hb => ?_
    have hcall := (fingerprint_only _ _).trace hexec ev hev
    rw [hb] at hcall
    exact hcall
  | blobLoad cap => exact hf _ _ _ _ (by simp) (bridgeEnv_load h)
  | blobStore b => exact absurd rfl (he b)

/-- What the calls `t` of a method may do to the slot. -/
structure SlotStep (slot : σ → List UInt8) (s : σ) (t : List BridgeEvent) (s' : σ) : Prop where
  content : slot s' = slot s ∨ Verified t (slot s')
  stores : ∀ pre b st post, t = pre ++ ⟨.blobStore b, st⟩ :: post → Verified pre b

omit [Target] in
theorem SlotStep.quiet {s s' : σ} {t : List BridgeEvent} (h : slot s' = slot s)
    (ht : ∀ ev ∈ t, ∀ b, ev.1 ≠ .blobStore b) : SlotStep slot s t s' where
  content := .inl h
  stores := fun pre b st post heq => by
    subst heq
    exact absurd rfl (ht ⟨.blobStore b, st⟩ (by simp) b)

theorem apply_slot (hslot : FaithfulSlot env slot) {blob : BlobArg} {persist : Bool}
    {l l' : License} {s s' : σ} {t : List BridgeEvent} {st : VlStatus}
    (h : ApplyStep (bridgeEnv cr cfg hal env) hal blob persist l s t st l' s') :
    SlotStep slot s t s' ∧ ((∀ ev ∈ t, accepted? ev = none) → slot s' = slot s) := by
  cases h with
  | refused hv _ =>
    have hsame := bridgeEnv_keeps hslot.others hv (by simp)
    exact ⟨.quiet hsame (by simp), fun _ => hsame⟩
  | held hv _ =>
    have hsame := bridgeEnv_keeps hslot.others hv (by simp)
    exact ⟨.quiet hsame (by simp), fun _ => hsame⟩
  | persisted hv _ _ hbytes hput =>
    rename_i s₁ lic bytes stored _ _
    obtain ⟨str, hstr, hcanon, hlen⟩ := persisted_bytes hv hbytes
    have hsame := bridgeEnv_keeps hslot.others hv (by simp)
    have henv := bridgeEnv_store hput
    have hverified : ∀ t', Verified (⟨.verify (blob.str l.blob), (.ok, lic)⟩ :: t') bytes := by
      intro t'
      rw [hstr]
      exact .inr ⟨str, lic, List.mem_cons_self, hcanon, hlen⟩
    refine ⟨⟨?_, fun pre b st post heq => ?_⟩, fun hnone => ?_⟩
    · by_cases hok : stored = .ok
      · subst hok
        rw [hslot.stored _ _ _ henv]
        exact .inr (hverified _)
      · exact .inl ((hslot.failed _ _ _ _ henv hok).trans hsame)
    · -- the store is the second of the two calls
      cases pre with
      | nil => simp at heq
      | cons ev pre =>
        obtain ⟨rfl, htail⟩ := List.cons.inj heq
        cases pre with
        | nil =>
          obtain ⟨hev, -⟩ := List.cons.inj htail
          cases hev
          exact hverified []
        | cons ev' pre => simp at htail
    · have hacc := hnone _ List.mem_cons_self
      rw [hstr] at hacc
      cases hacc

theorem op_slot (hslot : FaithfulSlot env slot) {op : Op} {l l' : License} {s s' : σ}
    {t : List BridgeEvent} {ret : Option VlStatus}
    (h : OpStep (bridgeEnv cr cfg hal env) hal l op s t ret l' s') :
    SlotStep slot s t s' ∧
      (op ≠ .clear → (∀ ev ∈ t, accepted? ev = none) → slot s' = slot s) := by
  cases h with
  | noLoad | submit | idle | cleared => exact ⟨.quiet rfl (by simp), fun _ _ => rfl⟩
  | loadFailed _ hload | loadTooLong _ hload =>
    have hsame := bridgeEnv_keeps hslot.others hload (by simp)
    exact ⟨.quiet hsame (by simp), fun _ _ => hsame⟩
  | loaded _ hload _ happly =>
    have hsame := bridgeEnv_keeps hslot.others hload (by simp)
    obtain ⟨⟨hcontent, hstores⟩, hkept⟩ := apply_slot hslot happly
    refine ⟨⟨?_, fun pre b st post heq => ?_⟩, fun _ hnone => ?_⟩
    · rw [hsame] at hcontent
      exact hcontent.imp_right fun hv => hv.later [_]
    · cases pre with
      | nil => simp at heq
      | cons ev pre =>
        obtain ⟨rfl, htail⟩ := List.cons.inj heq
        exact (hstores pre b st post htail).later [_]
    · exact (hkept (List.forall_mem_cons.mp hnone).2).trans hsame
  | activate happly =>
    obtain ⟨hstep, hkept⟩ := apply_slot hslot happly
    exact ⟨hstep, fun _ => hkept⟩
  | pumped _ happly =>
    obtain ⟨hstep, hkept⟩ := apply_slot hslot happly
    exact ⟨hstep, fun _ => hkept⟩
  | erased _ hput =>
    rename_i st _
    refine ⟨⟨?_, fun pre b st post heq => ?_⟩, fun hne => absurd rfl hne⟩
    · by_cases hok : st = .ok
      · subst hok
        exact .inr (.inl (hslot.stored _ _ _ (bridgeEnv_store hput)))
      · exact .inl (hslot.failed _ _ _ _ (bridgeEnv_store hput) hok)
    · cases pre with
      | nil =>
        obtain ⟨hev, -⟩ := List.cons.inj heq
        cases hev
        exact .inl rfl
      | cons ev pre => simp at heq
  | deviceId hid =>
    obtain ⟨-, -, -, -, -, hcalls⟩ := deviceId_frame hid
    have hsame : slot s' = slot s := hid.keeps (C := fun e => e = .computeFingerprint)
      (fun e s r s' hc he => bridgeEnv_keeps hslot.others he (by rw [hc]; simp)) hcalls
    exact ⟨.quiet hsame fun ev hev b hb => (by rw [hcalls ev hev] at hb; cases hb), fun _ _ => hsame⟩

/-- **What is stored was verified.** -/
theorem slot_origin (hslot : FaithfulSlot env slot) {devid : Buf 27} {blob : Buf 161} {s : σ}
    {ls : List (Op × List BridgeEvent)} {w : World σ}
    (h : Run (Step cr cfg hal env) (World.new devid blob s) ls w) :
    (slot w.hal = slot s ∨ Verified w.past (slot w.hal)) ∧ StoresVerified w.past := by
  refine h.inv (I := fun w => (slot w.hal = slot s ∨ Verified w.past (slot w.hal)) ∧
    StoresVerified w.past) (fun w l w' hstep hw => ?_) ⟨.inl rfl, by simp [StoresVerified, World.new]⟩
  obtain ⟨hpast, ret, hexec⟩ := hstep
  obtain ⟨⟨hcontent, hstores⟩, -⟩ := op_slot hslot (exec_op hexec)
  rw [hpast]
  refine ⟨?_, hw.2.append fun pre b st post heq => ?_⟩
  · rcases hcontent with hsame | hnew
    · rw [hsame]
      exact hw.1.imp_right Verified.mono
    · exact .inr (hnew.later w.past)
  · exact (hstores pre b st post heq).later w.past

theorem slot_kept (hslot : FaithfulSlot env slot) {w w' : World σ} {l : Op × List BridgeEvent}
    (h : Step cr cfg hal env w l w') (hop : l.1 ≠ .clear)
    (hnone : ∀ ev ∈ l.2, accepted? ev = none) : slot w'.hal = slot w.hal := by
  obtain ⟨-, ret, hexec⟩ := h
  exact (op_slot hslot (exec_op hexec)).2 hop hnone

/-! ## The next boot -/

/-- The clock, if there is one. -/
def ClockReads (m : HalMask) (env : Env HalCall.Resp σ) (now : UInt32) : Prop :=
  m.nowEpoch = true → ∀ s r s', env .nowEpoch s r s' → r = (.ok, now)

/-- Mark storage that does not fail, if the mark is looked at. -/
structure MarkKept (c : VlConfig) (env : Env HalCall.Resp σ) (mark : σ → UInt32) : Prop where
  load : c.enforceHwm → ∀ s r s', env .hwmLoad s r s' → r = (.ok, mark s)
  store : c.enforceHwm → ∀ v s r s', env (.hwmStore v) s r s' → r = .ok
  others : ∀ e s r s', (∀ v, e ≠ .hwmStore v) → env e s r s' → mark s' = mark s

omit [Target] in
/-- What was in its window stays there until its end, on a clock that has not
gone back and with a mark that is not ahead of it. -/
theorem timeStep_later {env env' : Env HalCall.Resp σ} {c : VlConfig} {m : HalMask}
    {lic lic₁ : VlLicense} {t now : UInt32} {mark : σ → UInt32} {s s₁ s₂ s₃ : σ}
    {t₁ t₂ : List HalEvent} {r : Except VlStatus VlLicense}
    (hclock : ClockReads m env t) (hclock' : ClockReads m env' now) (hmark : MarkKept c env' mark)
    (hlater : m.nowEpoch = true → t ≤ now ∧ mark s₂ ≤ now ∧ ¬ tooLate lic now)
    (h : TimeStep env c m lic s t₁ (.ok lic₁) s₁) (h' : TimeStep env' c m lic s₂ t₂ r s₃) :
    ∃ lic₂, r = .ok lic₂ := by
  have hread : ∀ {st v s s'}, m.nowEpoch = true → env' .nowEpoch s (st, v) s' →
      st = .ok ∧ v = now := fun hyes hn => Prod.mk.inj (hclock' hyes _ _ _ hn)
  cases h' with
  | noClock hno hreq =>
    cases h with
    | unchecked _ hreq' => exact absurd hreq hreq'
    | inWindow hyes | marked hyes => rw [hno] at hyes; cases hyes
  | unchecked => exact ⟨_, rfl⟩
  | clockFailed hyes hn hst => exact absurd (hread hyes hn).1 hst
  | notYetValid hyes hn he =>
    obtain ⟨-, rfl⟩ := hread hyes hn
    obtain ⟨hle, -, -⟩ := hlater hyes
    have hearly : ¬ tooEarly lic t := by
      cases h with
      | unchecked hno => rw [hno] at hyes; cases hyes
      | inWindow _ hn' he' | marked _ hn' he' =>
        obtain ⟨-, rfl⟩ := Prod.mk.inj (hclock hyes _ _ _ hn')
        exact he'
    rcases not_tooEarly_iff.mp hearly with hzero | hbefore
    · exact absurd hzero he.1
    · exact absurd he.2 (UInt32.not_lt.mpr (UInt32.le_trans hbefore hle))
  | expired hyes hn _ hl =>
    obtain ⟨-, rfl⟩ := hread hyes hn
    exact absurd hl (hlater hyes).2.2
  | inWindow => exact ⟨_, rfl⟩
  | marked hyes hn _ _ hflag hm =>
    obtain ⟨-, rfl⟩ := hread hyes hn
    have hsame := hmark.others _ _ _ _ (by simp) hn
    cases hm with
    | loadFailed hload hst =>
      exact absurd (Prod.mk.inj (hmark.load hflag _ _ _ hload)).1 hst
    | rollback hload hlt =>
      obtain ⟨-, rfl⟩ := Prod.mk.inj (hmark.load hflag _ _ _ hload)
      rw [hsame] at hlt
      exact absurd hlt (UInt32.not_lt.mpr (hlater hyes).2.1)
    | storeFailed _ _ hstore hst => exact absurd (hmark.store hflag _ _ _ _ hstore) hst
    | level | stored => exact ⟨_, rfl⟩

/-- What a successful activation leaves: the string it accepted, and its
canonical spelling in the slot. -/
theorem activate_ok {c : VlConfig} {m : HalMask} (hslot : FaithfulSlot env slot)
    (hstore : m.blobStore = true) {l l₁ : License} {blob : BlobArg} {s s₁ : σ}
    {t : List BridgeEvent}
    (h : Prog.Exec (bridgeEnv cr (some c) (some m) env) (l.activate (some m) blob) s t (.ok, l₁)
      s₁) :
    ∃ str b lic s₀, blob.str l.blob = some str ∧ DecodesTo str b ∧
      bridgeEnv cr (some c) (some m) env (.verify (some str)) s (.ok, lic) s₀ ∧
      slot s₁ = (canon str).bytes ∧ l₁.status = .ok ∧ l₁.lic = lic ∧ l₁.blobStr = canon str := by
  generalize hst : VlStatus.ok = st at h
  cases exec_apply.mp h with
  | refused _ hne => exact absurd hst.symm hne
  | held _ hno => exact absurd ⟨rfl, hstore⟩ hno
  | persisted hv _ _ hbytes hput =>
    obtain ⟨str, hstr, hblob, htake⟩ := inForce_blobStr hv
    obtain ⟨_, _, _, b, hstr', -, -, hdec, -⟩ := verify_accepted hv
    rw [hstr] at hstr' hv
    obtain rfl := Option.some.inj hstr'
    split at hst
    · cases hst
    rename_i hok
    rw [Decidable.not_not] at hok
    subst hok
    refine ⟨str, b, _, _, hstr, hdec, hv, ?_, rfl, rfl, CStr.ext_bytes hblob⟩
    rw [hslot.stored _ _ _ (bridgeEnv_store hput), hbytes, htake]
    rfl

theorem verify_later {c : VlConfig} {m : HalMask} {ids : UInt32 → SegRead}
    {env' : Env HalCall.Resp σ} (hids : FixedIdentity env ids) (hids' : FixedIdentity env' ids)
    {t now : UInt32} {mark : σ → UInt32} (hclock : ClockReads m env t)
    (hclock' : ClockReads m env' now) (hmark : MarkKept c env' mark)
    {str str' : CStr} {b : List UInt8} (hdec : DecodesTo str b)
    (hdec' : DecodesTo str' b) {lic lic' : VlLicense} {st : VlStatus} {s s₁ s₂ s₃ : σ}
    (h : bridgeEnv cr (some c) (some m) env (.verify (some str)) s (.ok, lic) s₁)
    (h' : bridgeEnv cr (some c) (some m) env' (.verify (some str')) s₂ (st, lic') s₃)
    (hlater : m.nowEpoch = true →
      t ≤ now ∧ mark s₂ ≤ now ∧ (lic.notAfter = 0 ∨ now ≤ lic.notAfter)) :
    st = .ok ∧ lic' = lic := by
  obtain ⟨t₁, hexec⟩ := bridgeEnv_verify.mp h
  obtain ⟨t₂, hexec'⟩ := bridgeEnv_verify.mp h'
  rw [vlVerify_spelling hdec' hdec] at hexec'
  rcases exec_fixed hids hexec with ⟨rc, -, hrej, -, hv, -⟩ | ⟨lic₀, _, _, r, hent, -, -, htime, hv⟩
  · exact absurd (Prod.mk.inj hv).1.symm hrej.1
  have hr : r = .ok lic := by
    cases r with
    | ok lic₁ => rw [Option.some.inj (Prod.mk.inj hv).2]
    | error rc => exact absurd (Prod.mk.inj hv).1.symm htime.rejects.1
  subst hr
  rcases exec_fixed hids' hexec' with ⟨rc, hent', -⟩ | ⟨lic₁, _, _, r', hent', -, -, htime', hv'⟩
  · rw [hent] at hent'
    cases hent'
  rw [hent, Except.ok.injEq] at hent'
  subst hent'
  have hafter : lic.notAfter = lic₀.notAfter := by
    rw [htime.ok_eq]
    rfl
  obtain ⟨lic₂, rfl⟩ := timeStep_later hclock hclock' hmark (fun hyes => by
    obtain ⟨hle, hbehind, hend⟩ := hlater hyes
    rw [hafter] at hend
    exact ⟨hle, hbehind, not_tooLate_iff.mpr hend⟩) htime htime'
  obtain ⟨rfl, hlic⟩ := Prod.mk.inj hv'
  refine ⟨rfl, ?_⟩
  rw [Option.some.inj hlic, htime.ok_eq, htime'.ok_eq]

/-- A fresh object finds the slot as an activation left it. -/
theorem begin_of_activate {c : VlConfig} {m : HalMask} {ids : UInt32 → SegRead}
    {env' : Env HalCall.Resp σ} (hslot : FaithfulSlot env slot) (hslot' : FaithfulSlot env' slot)
    (hids : FixedIdentity env ids) (hids' : FixedIdentity env' ids)
    (hload : m.blobLoad = true) (hstore : m.blobStore = true) {t now : UInt32}
    {mark : σ → UInt32} (hclock : ClockReads m env t) (hclock' : ClockReads m env' now)
    (hmark : MarkKept c env' mark)
    {l l₁ l₂ : License} {blob : BlobArg} {s s₁ s₂ s₃ : σ} {t₁ t₂ : List BridgeEvent} {st : VlStatus}
    (h : Prog.Exec (bridgeEnv cr (some c) (some m) env) (l.activate (some m) blob) s t₁ (.ok, l₁)
      s₁)
    (hlater : m.nowEpoch = true →
      t ≤ now ∧ mark s₂ ≤ now ∧ (l₁.lic.notAfter = 0 ∨ now ≤ l₁.lic.notAfter))
    (huntouched : slot s₂ = slot s₁) {devid : Buf 27} {mem : Buf 161}
    (h' : Prog.Exec (bridgeEnv cr (some c) (some m) env')
      ((License.new devid mem).begin (some m)) s₂ t₂ (st, l₂) s₃) :
    st = .ok ∧ l₂.status = .ok ∧ l₂.lic = l₁.lic ∧ l₂.blobStr = l₁.blobStr := by
  obtain ⟨str, b, lic, s₀, -, hdec, hv, hcontent, -, rfl, hblob⟩ := activate_ok hslot hstore h
  have hlen : (canon str).bytes.length = 160 := hdec.length_norm
  have hfull : slot s₂ ≠ [] := by
    rw [huntouched, hcontent]
    exact List.ne_nil_of_length_pos (by omega)
  have hloaded : ∀ {r s'}, bridgeEnv cr (some c) (some m) env'
      (.blobLoad VL_BLOB_STR_BUF_LEN) s₂ r s' → r = (.ok, (canon str).bytes) := by
    intro r s' hask
    rw [hslot'.loaded _ _ _ (bridgeEnv_load hask) hfull, huntouched, hcontent]
  cases exec_begin h' with
  | noLoad hno =>
    rw [show License.hasLoad (some m) = m.blobLoad from rfl, hload] at hno
    cases hno
  | loadFailed _ hask hne => exact absurd (Prod.mk.inj (hloaded hask)).1 hne
  | loadTooLong _ hask hlong =>
    rw [(Prod.mk.inj (hloaded hask)).2, hlen] at hlong
    exact absurd hlong (by decide)
  | loaded _ hask _ happly =>
    obtain rfl := (Prod.mk.inj (hloaded hask)).2
    rw [← hmark.others _ _ _ _ (by simp) (bridgeEnv_load hask)] at hlater
    have harg : CStr.ofMem ((canon str).bytes ++ [0]) = canon str :=
      (canon str).ofMem_append []
    rw [harg] at happly
    cases happly with
    | refused hv' hne =>
      exact absurd (verify_later hids hids' hclock hclock' hmark hdec hdec.canon hv hv'
        hlater).1 hne
    | held hv' _ =>
      obtain ⟨-, hsame⟩ :=
        verify_later hids hids' hclock hclock' hmark hdec hdec.canon hv hv' hlater
      obtain ⟨str', hstr', hheld, -⟩ := inForce_blobStr hv'
      obtain rfl := Option.some.inj hstr'
      refine ⟨rfl, rfl, hsame, ?_⟩
      rw [hblob]
      exact CStr.ext_bytes (hheld.trans (norm_norm str.bytes))
    | persisted _ hp => cases hp

/-- **Activation survives a reboot, and nothing unverified is stored.** -/
theorem activation_survives (hslot : FaithfulSlot env slot) :
    (∀ devid mem s ls w, Run (Step cr cfg hal env) (World.new devid mem s) ls w →
      (slot w.hal = slot s ∨ Verified w.past (slot w.hal)) ∧ StoresVerified w.past) ∧
    (∀ w l w', Step cr cfg hal env w l w' → l.1 ≠ .clear → (∀ ev ∈ l.2, accepted? ev = none) →
      slot w'.hal = slot w.hal) ∧
    ∀ (c : VlConfig) (m : HalMask) (ids : UInt32 → SegRead) (env' : Env HalCall.Resp σ)
      (t now : UInt32) (mark : σ → UInt32), m.blobLoad = true → m.blobStore = true →
      FixedIdentity env ids → FixedIdentity env' ids → FaithfulSlot env' slot →
      ClockReads m env t → ClockReads m env' now → MarkKept c env' mark →
      ∀ l blob s t₁ l₁ s₁, Prog.Exec (bridgeEnv cr (some c) (some m) env)
          (License.activate (some m) blob l) s t₁ (.ok, l₁) s₁ →
        ∀ devid mem s₂ t₂ st l₂ s₃, slot s₂ = slot s₁ →
          (m.nowEpoch = true →
            t ≤ now ∧ mark s₂ ≤ now ∧ (l₁.lic.notAfter = 0 ∨ now ≤ l₁.lic.notAfter)) →
          Prog.Exec (bridgeEnv cr (some c) (some m) env')
            ((License.new devid mem).begin (some m)) s₂ t₂ (st, l₂) s₃ →
          st = .ok ∧ l₂.license = some l₁.lic ∧ l₂.checked = l₁.checked ∧
            l₂.blobStr = l₁.blobStr := by
  refine ⟨fun devid mem s ls w => slot_origin hslot, fun w l w' => slot_kept hslot, ?_⟩
  intro c m ids env' t now mark hload hstore hids hids' hslot' hclock hclock' hmark l blob s t₁ l₁
    s₁ h devid mem s₂ t₂ st l₂ s₃ huntouched hlater h'
  obtain ⟨_, _, _, _, -, -, -, -, hok₁, -⟩ := activate_ok hslot hstore h
  obtain ⟨rfl, hok₂, hlic, hblob⟩ := begin_of_activate hslot hslot' hids hids' hload hstore hclock
    hclock' hmark h hlater huntouched h'
  refine ⟨rfl, ?_, ?_, hblob⟩
  · simp [License.license, License.ok, hok₂, hlic]
  · simp [License.checked, License.ok, hok₁, hok₂, hlic]

/-! ## A HAL with a slot -/

/-- `env` beside a slot that never fails. -/
def slotEnv (env : Env HalCall.Resp σ) : Env HalCall.Resp (σ × List UInt8)
  | .blobLoad _, s, r, s' => (r = if s.2 = [] then (.errNotFound, []) else (.ok, s.2)) ∧ s' = s
  | .blobStore b, s, r, s' => r = .ok ∧ s' = (s.1, b)
  | .readIdSegment idx, s, r, s' => env (.readIdSegment idx) s.1 r s'.1 ∧ s'.2 = s.2
  | .nowEpoch, s, r, s' => env .nowEpoch s.1 r s'.1 ∧ s'.2 = s.2
  | .hwmLoad, s, r, s' => env .hwmLoad s.1 r s'.1 ∧ s'.2 = s.2
  | .hwmStore v, s, r, s' => env (.hwmStore v) s.1 r s'.1 ∧ s'.2 = s.2
  | .securePosture, s, r, s' => env .securePosture s.1 r s'.1 ∧ s'.2 = s.2

omit [Target] in
theorem faithful_slotEnv (env : Env HalCall.Resp σ) : FaithfulSlot (slotEnv env) Prod.snd where
  stored := fun b s s' h => by rw [h.2]
  failed := fun b s st s' h hne => absurd h.1 hne
  loaded := fun s r s' h hne => by rw [h.1, if_neg hne]
  empty := fun s r s' h he => by rw [h.1, if_pos he]
  others := fun e s r s' hne h => by
    cases e with
    | blobLoad cap => rw [h.2]
    | blobStore b => exact absurd rfl (hne b)
    | _ => exact h.2

theorem slotEnv_verify {blob : Option CStr} {s s' : σ} {r : VlStatus × VlLicense}
    (h : bridgeEnv cr cfg hal env (.verify blob) s r s') (content : List UInt8) :
    bridgeEnv cr cfg hal (slotEnv env) (.verify blob) (s, content) r (s', content) := by
  have hlift : ∀ {α : Type} {p : HalProg α} {s s' : σ} {t : List HalEvent} {a : α},
      Prog.Exec env p s t a s' → (∀ ev ∈ t, IsIdRead ev.1 ∨ IsTimeCall ev.1) →
      Prog.Exec (slotEnv env) p (s, content) t a (s', content) := by
    intro α p s s' t a h ht
    induction h with
    | ret a s => exact .ret a _
    | call henv _ ih =>
      rename_i e _ _ _ _ _ _ _ _
      obtain ⟨hcall, ht⟩ := List.forall_mem_cons.mp ht
      refine .call ?_ (ih ht)
      cases e with
      | blobLoad | blobStore => rcases hcall with hc | hc <;> exact hc.elim
      | _ => exact ⟨henv, rfl⟩
  obtain ⟨t, hexec⟩ := bridgeEnv_verify.mp h
  exact bridgeEnv_verify.mpr ⟨t, hlift hexec (vlVerify_calls hexec)⟩

end

/-- The fixture's device with a slot, the clock at `now`. -/
abbrev fixSlotEnv (now : UInt32) : Env HalCall.Resp (UInt32 × List UInt8) :=
  slotEnv (L4.Mark.devEnv False vltReadIdSegment (.ok, now))

theorem fixSlotEnv_fixed (now : UInt32) : FixedIdentity (fixSlotEnv now) vltReadIdSegment :=
  fun _ _ _ _ h => ⟨h.1.1, Prod.ext h.1.2 h.2⟩

theorem fixSlotEnv_mark (now : UInt32) : MarkKept fixConfig (fixSlotEnv now) Prod.fst where
  load := fun _ s r s' h => by simpa using h.1.1
  store := fun _ v s r s' h => h.1.elim And.left fun hfault => hfault.1.elim
  others := fun e s r s' hne h => by
    cases e with
    | hwmStore v => exact absurd rfl (hne v)
    | blobLoad | blobStore => rw [h.2]
    | readIdSegment | nowEpoch | hwmLoad => exact h.1.2
    | securePosture => exact h.1

theorem fix_canon : canon FIX_BLOB_WINDOWED = FIX_BLOB_WINDOWED := by decide +kernel

theorem fix_activate_slot : fixActivated.blobStr = canon FIX_BLOB_WINDOWED ∧ ∃ t,
    Prog.Exec (@bridgeEnv _ host64 fixCrypto (some fixConfig) (some vltHalFull)
        (fixSlotEnv 1750000000))
      ((License.new (Vector.replicate 27 0) (Vector.replicate 161 0)).activate (some vltHalFull)
        (.text FIX_BLOB_WINDOWED)) (1750000000, []) t (.ok, fixActivated)
      (1750000000, FIX_BLOB_WINDOWED.bytes) := by
  have hverify := @slotEnv_verify _ host64 fixCrypto (some fixConfig) (some vltHalFull) _ _ _ _ _
    (@fix_verify 1750000000 1750000000 (by decide)) []
  obtain ⟨str, hstr, hblob, htake⟩ := @inForce_blobStr _ host64 _ _ _ _
    (License.new (Vector.replicate 27 0) (Vector.replicate 161 0)) (.text FIX_BLOB_WINDOWED) _ _ _
    hverify
  obtain rfl := Option.some.inj hstr
  have hbytes : norm FIX_BLOB_WINDOWED.bytes = FIX_BLOB_WINDOWED.bytes :=
    congrArg CStr.bytes fix_canon
  have hstore : @bridgeEnv _ host64 fixCrypto (some fixConfig) (some vltHalFull)
      (fixSlotEnv 1750000000) (.blobStore FIX_BLOB_WINDOWED.bytes) (1750000000, []) .ok
      (1750000000, FIX_BLOB_WINDOWED.bytes) := ⟨[_], .call ⟨rfl, rfl⟩ (.ret _ _)⟩
  exact ⟨CStr.ext_bytes hblob, _,
    exec_apply.mpr (.persisted hverify rfl rfl (htake.trans hbytes).symm hstore)⟩

/-- The fixture's blob, activated at 1750000000 and found again at 1760000000. -/
theorem activation_survives_windowed : ∃ t₂ l₂ s₃,
    Prog.Exec (@bridgeEnv _ host64 fixCrypto (some fixConfig) (some vltHalFull)
        (fixSlotEnv 1760000000))
      ((License.new (Vector.replicate 27 0) (Vector.replicate 161 0)).begin (some vltHalFull))
      (1750000000, FIX_BLOB_WINDOWED.bytes) t₂ (.ok, l₂) s₃ ∧
    l₂.license = some fixLicense ∧ l₂.checked = 0x17 ∧ l₂.blobStr = canon FIX_BLOB_WINDOWED := by
  obtain ⟨hheld, t₁, hactivate⟩ := fix_activate_slot
  have hload : @bridgeEnv _ host64 fixCrypto (some fixConfig) (some vltHalFull)
      (fixSlotEnv 1760000000) (.blobLoad VL_BLOB_STR_BUF_LEN)
      (1750000000, FIX_BLOB_WINDOWED.bytes) (.ok, FIX_BLOB_WINDOWED.bytes)
      (1750000000, FIX_BLOB_WINDOWED.bytes) := ⟨[_], .call ⟨rfl, rfl⟩ (.ret _ _)⟩
  have harg : CStr.ofMem (FIX_BLOB_WINDOWED.bytes ++ [0]) = FIX_BLOB_WINDOWED :=
    FIX_BLOB_WINDOWED.ofMem_append []
  obtain ⟨t, st, l, s, happly⟩ : ∃ t st l s, ApplyStep (@bridgeEnv _ host64 fixCrypto
      (some fixConfig) (some vltHalFull) (fixSlotEnv 1760000000)) (some vltHalFull)
      (.text (CStr.ofMem (FIX_BLOB_WINDOWED.bytes ++ [0]))) false
      (License.new (Vector.replicate 27 0) (Vector.replicate 161 0))
      (1750000000, FIX_BLOB_WINDOWED.bytes) t st l s := by
    have hverify := @slotEnv_verify _ host64 fixCrypto (some fixConfig) (some vltHalFull) _ _ _ _ _
      (@fix_verify 1760000000 1750000000 (by decide)) FIX_BLOB_WINDOWED.bytes
    rw [harg]
    exact ⟨_, _, _, _, .held hverify (by simp)⟩
  have hop : @OpStep _ host64 (@bridgeEnv _ host64 fixCrypto (some fixConfig) (some vltHalFull)
      (fixSlotEnv 1760000000)) (some vltHalFull)
      (License.new (Vector.replicate 27 0) (Vector.replicate 161 0)) .begin
      (1750000000, FIX_BLOB_WINDOWED.bytes) _ _ _ _ :=
    @OpStep.loaded _ host64 _ _ _ _ _ _ _ _ _ _ rfl hload fix_fits happly
  obtain ⟨⟨st, l₂⟩, hbegin, -⟩ := exec_passed.mp (@OpStep.exec _ _ _ _ _ _ _ _ host64 _ _ hop)
  obtain ⟨rfl, hlic, hchecked, hblob⟩ := (@activation_survives _ host64 fixCrypto none none _ _
    (faithful_slotEnv (L4.Mark.devEnv False vltReadIdSegment (.ok, 1750000000)))).2.2 fixConfig
    vltHalFull vltReadIdSegment _ _ 1760000000 Prod.fst rfl rfl (fixSlotEnv_fixed _)
    (fixSlotEnv_fixed _) (faithful_slotEnv _) (fun _ _ _ _ h => h.1.1) (fun _ _ _ _ h => h.1.1)
    (fixSlotEnv_mark _) _ _ _ _ _ _ hactivate _ _ _ _ _ _ _ rfl
    (fun _ => ⟨by decide, by decide, by decide⟩) hbegin
  have hkept : fixActivated.lic = fixLicense := rfl
  have hbits : fixActivated.checked = 0x17 := rfl
  rw [hkept] at hlic
  rw [hbits] at hchecked
  rw [hheld] at hblob
  exact ⟨_, _, _, hbegin, hlic, hchecked, hblob⟩

end VectiLicense.L6
