import VectiLicense.L3Verify.Precedence
import VectiLicense.L5Hal.Acknowledged
import VectiLicense.L5Hal.PosixBlob

/-!
# Does the POSIX mark read back?

`hwm_store` writes the mark as four raw bytes; `hwm_load` reads them with
`read_text_file`, which takes white space off the end. The last byte written
is the most significant one of the mark. Where that byte is a newline, a
return, a space or a tab, three bytes or fewer are left and `hwm_load` reports
`VL_ERR_PLATFORM`.

Here the host does what it is asked to: `NoFault`.

* `markOf_writeRaw_eq`: what the written bytes read back as.
* `exec_hwmLoad_noFault`, `exec_hwmStore_noFault`: both callbacks, exactly.
* `mark_round_trip`: a mark reads back if and only if it does not `EndsBlank`,
  and the call that stored it makes the next one fail only then.
-/
namespace VectiLicense.L5.Posix

open VectiLicense.Core VectiLicense.L0 VectiLicense.L1.Base32 VectiLicense.L3 VectiLicense.L4.Mark

/-! ## The bytes of a mark -/

/-- The most significant byte is one that `read_text_file` trims. -/
def EndsBlank (v : UInt32) : Prop :=
  v >>> 24 = 0x0A ∨ v >>> 24 = 0x0D ∨ v >>> 24 = 0x20 ∨ v >>> 24 = 0x09

instance (v : UInt32) : Decidable (EndsBlank v) :=
  inferInstanceAs (Decidable (_ ∨ _ ∨ _ ∨ _))

/-- The last byte written, as the code compares it. -/
theorem lastByte_eq_iff (v : UInt32) (b : UInt8) :
    ((v >>> 24) &&& 0xFF).toUInt8 = b ↔ v >>> 24 = b.toUInt32 := by
  have hlt := v.toNat_lt
  have hb := b.toNat_lt
  rw [← UInt8.toNat_inj, ← UInt32.toNat_inj, UInt32.toNat_toUInt8, UInt32.toNat_and,
    UInt8.toNat_toUInt32, UInt32.toNat_shiftRight]
  have hmod : ∀ n : Nat, n &&& 255 = n % 256 := fun n => Nat.and_two_pow_sub_one_eq_mod n 8
  simp only [UInt32.reduceToNat, Nat.reduceMod, Nat.shiftRight_eq_div_pow, hmod]
  omega

/-- `read_text_file` takes one byte of white space off the end, and goes on. -/
theorem trimEnd_concat_blank {b : UInt8} (bytes : List UInt8)
    (hb : b = 0x0A ∨ b = 0x0D ∨ b = 0x20 ∨ b = 0x09) : trimEnd (bytes ++ [b]) = trimEnd bytes :=
  List.rdropWhile_concat_pos _ _ _ (decide_eq_true hb)

theorem trimEnd_concat {b : UInt8} (bytes : List UInt8)
    (hb : ¬ (b = 0x0A ∨ b = 0x0D ∨ b = 0x20 ∨ b = 0x09)) : trimEnd (bytes ++ [b]) = bytes ++ [b] :=
  List.rdropWhile_concat_neg _ _ _ fun hyes => hb (of_decide_eq_true hyes)

/-- **What the written bytes read back as.** -/
theorem markOf_writeRaw_eq (v : UInt32) :
    markOf (writeRaw v) = if EndsBlank v then none else some v := by
  have hsplit : writeRaw v = [(v &&& 0xFF).toUInt8, ((v >>> 8) &&& 0xFF).toUInt8,
      ((v >>> 16) &&& 0xFF).toUInt8] ++ [((v >>> 24) &&& 0xFF).toUInt8] := rfl
  have hlast : (((v >>> 24) &&& 0xFF).toUInt8 = 0x0A ∨ ((v >>> 24) &&& 0xFF).toUInt8 = 0x0D ∨
      ((v >>> 24) &&& 0xFF).toUInt8 = 0x20 ∨ ((v >>> 24) &&& 0xFF).toUInt8 = 0x09) ↔
      EndsBlank v := by
    simp only [lastByte_eq_iff]
    rfl
  have htake : (writeRaw v).take 4 = writeRaw v := rfl
  unfold markOf
  rw [htake]
  by_cases hblank : EndsBlank v
  · have hshort : (trimEnd (writeRaw v)).length ≤ 3 := by
      rw [hsplit, trimEnd_concat_blank _ (hlast.mpr hblank)]
      exact length_trimEnd_le _
    rw [if_neg (by omega), if_pos hblank]
  · have hwhole : trimEnd (writeRaw v) = writeRaw v := by
      rw [hsplit]
      exact trimEnd_concat _ (mt hlast.mp hblank)
    have hlen : (writeRaw v).length = 4 := rfl
    rw [hwhole, if_pos hlen, if_neg hblank, readRaw_writeRaw]

/-! ## The callbacks, exactly -/

section
variable {state : List UInt8} {s s' : Fs} {t : List OsEvent}

theorem exec_hwmLoad_noFault {r : VlStatus × UInt32}
    (h : Prog.Exec (posixOs.given NoFault) (hwmLoad state) s t r s') :
    s' = s ∧ r = match persisted state s with
      | some m => (.ok, m)
      | none => (.errPlatform, 0) := by
  unfold hwmLoad at h
  unfold persisted
  cases hpath : statePath state HWM_SUFFIX HWM_PATH_CAP with
  | none =>
    rw [hpath] at h
    obtain ⟨-, rfl, rfl⟩ := Prog.exec_ret.mp h
    exact ⟨rfl, rfl⟩
  | some path =>
    rw [hpath] at h
    obtain ⟨raw, s₁, t₁, t₂, -, hread, hraw⟩ := Prog.exec_bind.mp h
    obtain ⟨rfl, rfl⟩ := exec_readTextFile hread
    dsimp only at hraw ⊢
    cases hfile : s₁.file path with
    | none =>
      rw [hfile] at hraw
      obtain ⟨-, rfl, rfl⟩ := Prog.exec_ret.mp hraw
      exact ⟨rfl, rfl⟩
    | some c =>
      rw [hfile, Option.map_some] at hraw
      dsimp only at hraw ⊢
      unfold markOf
      split at hraw
      · rename_i hlen
        obtain ⟨-, rfl, rfl⟩ := Prog.exec_ret.mp hraw
        rw [if_neg hlen]
        exact ⟨rfl, rfl⟩
      · rename_i hlen
        obtain ⟨-, rfl, rfl⟩ := Prog.exec_ret.mp hraw
        rw [if_pos (Decidable.not_not.mp hlen)]
        exact ⟨rfl, rfl⟩

/-- The store fails only for want of a path. -/
theorem exec_hwmStore_noFault {v : UInt32} {st : VlStatus}
    (h : Prog.Exec (posixOs.given NoFault) (hwmStore state v) s t st s') :
    (st = .ok ↔ (statePath state HWM_SUFFIX HWM_PATH_CAP).isSome) ∧
      (st = .ok → persisted state s' = markOf (writeRaw v)) := by
  rw [hwmStore_eq] at h
  unfold persisted
  cases hpath : statePath state HWM_SUFFIX HWM_PATH_CAP with
  | none =>
    rw [hpath] at h
    obtain ⟨-, rfl, -⟩ := Prog.exec_ret.mp h
    exact ⟨by simp, nofun⟩
  | some path =>
    rw [hpath] at h
    obtain ⟨rfl, hfile⟩ := exec_writeFile h
    rw [hfile]
    simp only [Function.update_self]
    exact ⟨by simp, fun _ => trivial⟩

end

/-! ## Two calls of `vl_verify` -/

/-- A host without faults whose device reads the segments `ids` and whose
clock has a reading. -/
def Healthy (ids : UInt32 → SegRead) (s : Fs) : OsEvent → Prop
  | ⟨.other (.readIdSegment idx), r⟩ => r = ids idx
  | ⟨.other .nowEpoch, r⟩ => r.1 = .ok
  | ev => NoFault s ev

/-- The POSIX HAL on such a host. -/
abbrev healthyHal (ids : UInt32 → SegRead) (state : List UInt8) : Env HalCall.Resp Fs :=
  (posixOs.given (Healthy ids)).lower (hal state)

section
variable {ids : UInt32 → SegRead} {state : List UInt8} {s s' : Fs}

theorem Healthy.noFault {ev : OsEvent} (h : Healthy ids s ev) : NoFault s ev := by
  obtain ⟨e, r⟩ := ev
  cases e with
  | other e => trivial
  | _ => exact h

theorem Healthy.exec {α : Type} {p : OsProg α} {t : List OsEvent} {a : α}
    (h : Prog.Exec (posixOs.given (Healthy ids)) p s t a s') :
    Prog.Exec (posixOs.given NoFault) p s t a s' :=
  h.mono fun _ _ _ _ hans => ⟨hans.1, hans.2.noFault⟩

theorem healthyHal_ids : FixedIdentity (healthyHal ids state) ids := by
  intro idx s r s' ⟨t, h⟩
  obtain ⟨-, hs, hr⟩ := Prog.exec_ask.mp h
  exact ⟨hr, hs⟩

theorem healthyHal_clock {r : VlStatus × UInt32} (h : healthyHal ids state .nowEpoch s r s') :
    r.1 = .ok ∧ s' = s := by
  obtain ⟨t, h⟩ := h
  obtain ⟨-, hs, hr⟩ := Prog.exec_ask.mp h
  exact ⟨hr, hs⟩

theorem healthyHal_load {r : VlStatus × UInt32} (h : healthyHal ids state .hwmLoad s r s') :
    s' = s ∧ (r.1 = .ok ↔ (persisted state s).isSome) := by
  obtain ⟨t, h⟩ := h
  obtain ⟨hs, hr⟩ := exec_hwmLoad_noFault (Healthy.exec h)
  refine ⟨hs, ?_⟩
  rw [hr]
  cases persisted state s <;> simp

theorem healthyHal_store {v : UInt32} {st : VlStatus}
    (h : healthyHal ids state (.hwmStore v) s st s') :
    (st = .ok ↔ (statePath state HWM_SUFFIX HWM_PATH_CAP).isSome) ∧
      (st = .ok → persisted state s' = markOf (writeRaw v)) := by
  obtain ⟨t, h⟩ := h
  exact exec_hwmStore_noFault (Healthy.exec h)

variable [Target] {cr : Crypto} {hal : HalMask} {c : VlConfig} {blob : Option CStr}
  {out : Option VlLicense} {t : List HalEvent} {v : VlStatus × Option VlLicense}

/-- The refusals of steps 1 to 5 that are not the device's fault. -/
theorem entitled_error {rc : VlStatus} (hfp : (fingerprintOf cr ids hal).1 = .ok)
    (h : entitled cr c hal ids blob = .error rc) : rc ≠ .errPlatform := by
  unfold entitled at h
  split at h
  · rename_i hargs
    obtain rfl := Except.error.inj h
    rw [checkArgs_error hargs]
    decide
  rename_i str c' keys m hargs
  obtain ⟨-, hc, hm, -⟩ := checkArgs_ok_iff.mp hargs
  cases hc
  cases hm
  split at h
  · rename_i hauth
    obtain rfl := Except.error.inj h
    exact authenticate_ne_platform hauth
  split at h
  · rename_i hbad
    exact absurd hfp hbad
  split at h
  · obtain rfl := Except.error.inj h
    decide
  · rw [checkRevocation_error h]
    decide

theorem entitled_fingerprint {lic : VlLicense} (h : entitled cr c hal ids blob = .ok lic) :
    (fingerprintOf cr ids hal).1 = .ok := by
  unfold entitled at h
  split at h
  · cases h
  rename_i str c' keys m hargs
  obtain ⟨-, hc, hm, -⟩ := checkArgs_ok_iff.mp hargs
  cases hc
  cases hm
  split at h
  · cases h
  split at h
  · cases h
  · rename_i hread
    exact Decidable.not_not.mp hread

/-- A call that stored its reading: the device reads, and the reading is on file. -/
theorem exec_stored {now : UInt32}
    (h : Prog.Exec (healthyHal ids state) (vlVerify cr blob (some c) (some hal) out) s t v s')
    (hstored : ⟨.hwmStore now, .ok⟩ ∈ t) :
    (fingerprintOf cr ids hal).1 = .ok ∧ (statePath state HWM_SUFFIX HWM_PATH_CAP).isSome ∧
      persisted state s' = markOf (writeRaw now) := by
  rcases exec_fixed healthyHal_ids h with ⟨_, _, _, hreads, -⟩ | ⟨lic, t₁, t₂, r, hent, rfl,
    hreads, htime, -⟩
  · exact absurd (hreads _ hstored) id
  have hlater : ⟨.hwmStore now, .ok⟩ ∈ t₂ :=
    (List.mem_append.mp hstored).resolve_left fun hread => hreads _ hread
  refine ⟨entitled_fingerprint hent, ?_⟩
  cases htime with
  | marked _ _ _ _ _ hmark =>
    cases hmark with
    | storeFailed _ _ _ hst =>
      simp only [List.mem_cons, List.not_mem_nil, or_false] at hlater
      rcases hlater with hev | hev | hev
      · cases hev
      · cases hev
      · cases hev
        exact absurd rfl hst
    | stored _ _ hstore =>
      simp only [List.mem_cons, List.not_mem_nil, or_false] at hlater
      rcases hlater with hev | hev | hev
      · cases hev
      · cases hev
      · cases hev
        obtain ⟨hok, hp⟩ := healthyHal_store hstore
        exact ⟨hok.mp rfl, hp rfl⟩
    | _ => simp at hlater
  | _ => simp at hlater

/-- The next call fails for want of the platform only on the mark. -/
theorem exec_platform_iff (hfp : (fingerprintOf cr ids hal).1 = .ok)
    (hpath : (statePath state HWM_SUFFIX HWM_PATH_CAP).isSome)
    (h : Prog.Exec (healthyHal ids state) (vlVerify cr blob (some c) (some hal) out) s t v s') :
    v.1 = .errPlatform ↔ persisted state s = none ∧ ∃ r, ⟨.hwmLoad, r⟩ ∈ t := by
  rcases exec_fixed healthyHal_ids h with ⟨rc, hent, -, hreads, rfl, -⟩ | ⟨lic, t₁, t₂, r, -, rfl,
    hreads, htime, rfl⟩
  · refine iff_of_false (entitled_error hfp hent) fun hload => ?_
    obtain ⟨-, r, hr⟩ := hload
    exact hreads _ hr
  cases htime with
  | clockFailed _ hclock hst => exact absurd (healthyHal_clock hclock).1 hst
  | marked _ hclock _ _ _ hmark =>
    obtain ⟨-, rfl⟩ := healthyHal_clock hclock
    cases hmark with
    | @loadFailed _ st mark hload hst =>
      obtain ⟨-, hsome⟩ := healthyHal_load hload
      refine iff_of_true rfl ⟨?_, (st, mark), by simp⟩
      rw [← Option.not_isSome_iff_eq_none, ← hsome]
      exact hst
    | storeFailed hload _ hstore hst =>
      exact absurd ((healthyHal_store hstore).1.mpr hpath) hst
    | rollback hload _ | level hload _ | stored hload _ _ =>
      obtain ⟨-, hsome⟩ := healthyHal_load hload
      refine iff_of_false (by simp [verdict]) fun hnone => ?_
      have hpersisted := hsome.mp rfl
      rw [hnone.1] at hpersisted
      cases hpersisted
  | _ =>
    refine iff_of_false (by simp [verdict]) fun hload => ?_
    obtain ⟨-, r, hr⟩ := hload
    rcases List.mem_append.mp hr with hr | hr
    · exact hreads _ hr
    · simp at hr

end

/-! ## The round trip -/

/-- **When a mark reads back.** Stored without a fault, it is loaded again
exactly where it does not end in a blank; and the `vl_verify` that has stored
its reading makes the next one that looks at the mark fail exactly where it
does. -/
theorem mark_round_trip (state : List UInt8) :
    (∀ v s t s₁ t' r s₂, Prog.Exec (posixOs.given NoFault) (hwmStore state v) s t .ok s₁ →
      Prog.Exec (posixOs.given NoFault) (hwmLoad state) s₁ t' r s₂ →
      (r = (.ok, v) ↔ ¬ EndsBlank v)) ∧
    ∀ [Target] (cr : Crypto) ids hal c blob out s t v s₁ now,
      Prog.Exec (healthyHal ids state) (vlVerify cr blob (some c) (some hal) out) s t v s₁ →
      ⟨.hwmStore now, .ok⟩ ∈ t →
      ∀ c' blob' out' t' v' s₂,
        Prog.Exec (healthyHal ids state) (vlVerify cr blob' (some c') (some hal) out') s₁ t' v'
          s₂ →
        (v'.1 = .errPlatform ↔ EndsBlank now ∧ ∃ r, ⟨.hwmLoad, r⟩ ∈ t') := by
  refine ⟨?_, ?_⟩
  · intro v s t s₁ t' r s₂ hstore hload
    have hp := (exec_hwmStore_noFault hstore).2 rfl
    rw [markOf_writeRaw_eq] at hp
    rw [(exec_hwmLoad_noFault hload).2, hp]
    by_cases hblank : EndsBlank v
    · rw [if_pos hblank]
      exact iff_of_false (fun heq => by cases heq) (not_not_intro hblank)
    · rw [if_neg hblank]
      exact iff_of_true rfl hblank
  · intro _ cr ids hal c blob out s t v s₁ now h hstored c' blob' out' t' v' s₂ h'
    obtain ⟨hfp, hpath, hp⟩ := exec_stored h hstored
    rw [exec_platform_iff hfp hpath h', hp, markOf_writeRaw_eq]
    by_cases hblank : EndsBlank now <;> simp [hblank]

/-! ## Runs without faults -/

section
variable {ids : UInt32 → SegRead} {state : List UInt8} {path : Path} {s : Fs}

theorem store_healthy (ids : UInt32 → SegRead)
    (hpath : statePath state HWM_SUFFIX HWM_PATH_CAP = some path) (s : Fs) (v : UInt32) :
    ∃ t s', Prog.Exec (posixOs.given (Healthy ids)) (hwmStore state v) s t .ok s' ∧
      s'.file path = some (writeRaw v) := by
  refine ⟨[⟨.fopen path .wb, true⟩, ⟨.fwrite path (writeRaw v), 4⟩, ⟨.fclose path .wb, true⟩],
    ((s.write path [] []).write path [] (writeRaw v)).write path (writeRaw v) [], ?_,
    Function.update_self ..⟩
  unfold hwmStore
  rw [hpath]
  refine .call ⟨.inl rfl, rfl⟩ ?_
  refine .call ⟨⟨Nat.le_refl 4, [], List.nil_prefix, rfl⟩, rfl⟩ ?_
  refine .call ⟨⟨writeRaw v, List.prefix_rfl, fun _ => rfl, rfl⟩, rfl⟩ ?_
  exact .ret _ _

theorem load_healthy (ids : UInt32 → SegRead)
    (hpath : statePath state HWM_SUFFIX HWM_PATH_CAP = some path) {c : List UInt8}
    (hfile : s.file path = some c) :
    ∃ t, Prog.Exec (posixOs.given (Healthy ids)) (hwmLoad state) s t
      (if (trimEnd (c.take 4)).length ≠ 4 then (.errPlatform, 0)
        else (.ok, readRaw (trimEnd (c.take 4)))) s := by
  refine ⟨[⟨.fopen path .rb, true⟩, ⟨.fread path 4, c.take 4⟩, ⟨.fclose path .rb, true⟩], ?_⟩
  unfold hwmLoad
  rw [hpath]
  have hthere : true = (s.file path).isSome := by rw [hfile]; rfl
  refine .call ⟨⟨rfl, fun _ => hthere.symm⟩, hthere⟩ ?_
  refine .call ⟨⟨rfl, c, hfile, List.prefix_rfl⟩, fun c' hc' => ?_⟩ ?_
  · rw [hfile, Option.some.injEq] at hc'
    rw [hc']
  refine .call ⟨rfl, rfl⟩ ?_
  change Prog.Exec _ (if (trimEnd (c.take 4)).length ≠ 4 then _ else _) s [] _ s
  split <;> exact .ret _ _

end

/-- A mark of 1750000000 on the default path: stored, and loaded. -/
theorem mark_round_trip_default : ∃ s₁ r s₂ t t',
    Prog.Exec (posixOs.given NoFault) (hwmStore VL_POSIX_DEFAULT_STATE 1750000000)
      ⟨fun _ => none, []⟩ t .ok s₁ ∧
    Prog.Exec (posixOs.given NoFault) (hwmLoad VL_POSIX_DEFAULT_STATE) s₁ t' r s₂ ∧
      r = (.ok, 1750000000) := by
  obtain ⟨t, s₁, hstore, hfile⟩ :=
    store_healthy vltReadIdSegment defaultHwmPath_eq ⟨fun _ => none, []⟩ 1750000000
  obtain ⟨t', hload⟩ := load_healthy vltReadIdSegment defaultHwmPath_eq hfile
  exact ⟨s₁, _, s₁, t, t', Healthy.exec hstore, Healthy.exec hload,
    ((mark_round_trip VL_POSIX_DEFAULT_STATE).1 _ _ _ _ _ _ _ (Healthy.exec hstore)
      (Healthy.exec hload)).mpr (by decide)⟩

/-- A mark of 0x0A000000, acknowledged, and the load right after it. -/
theorem mark_unreadable : ∃ s₁ t t',
    Prog.Exec (posixOs.given NoFault) (hwmStore VL_POSIX_DEFAULT_STATE 0x0A000000)
      ⟨fun _ => none, []⟩ t .ok s₁ ∧
    Prog.Exec (posixOs.given NoFault) (hwmLoad VL_POSIX_DEFAULT_STATE) s₁ t' (.errPlatform, 0)
      s₁ := by
  obtain ⟨t, s₁, hstore, hfile⟩ :=
    store_healthy vltReadIdSegment defaultHwmPath_eq ⟨fun _ => none, []⟩ 0x0A000000
  obtain ⟨t', hload⟩ := load_healthy vltReadIdSegment defaultHwmPath_eq hfile
  have htrim : (trimEnd ((writeRaw 0x0A000000).take 4)).length ≠ 4 := by decide +kernel
  rw [if_pos htrim] at hload
  exact ⟨s₁, t, t', Healthy.exec hstore, Healthy.exec hload⟩

end VectiLicense.L5.Posix
