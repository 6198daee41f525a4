import VectiLicense.L5Hal.MarkStore

/-!
# The mark on an ESP32: `hal/esp32/vl_hal_esp32.c`

`hwm_load` and `hwm_store` are programs over ESP-IDF's NVS calls. The flash
(`nvs`) may fail any of them at any time with any `esp_err_t`; a failed write
leaves the old value or the new one, and a key keeps its value otherwise.

`hwm_load` takes every failure of `nvs_open` for "never written", and
`ESP_ERR_NVS_NOT_FOUND` from `nvs_get_u32` for a key that is not there.
`MissMeansAbsent` is the condition under which both are right.

* `exec_hwmLoad`, `exec_hwmStore`: the two callbacks.
* `esp32_store`: the HAL is then a `MarkStore`.
-/
namespace VectiLicense.L5.Esp32

open VectiLicense.Core VectiLicense.L0

/-- `esp_err_t`, as far as the HAL tells values apart. -/
inductive EspErr where
  | espOk
  | nvsNotFound
  | other (code : Int)
  deriving DecidableEq, Repr

inductive NvsMode where
  | readonly | readwrite
  deriving DecidableEq, Repr

/-- The NVS calls on the namespace `"vectilicense"` and the key `"hwm"`;
`other` is a callback that has nothing to do with them. -/
inductive NvsCall where
  | nvsOpen (mode : NvsMode)
  | nvsGetU32
  | nvsSetU32 (value : UInt32)
  | nvsCommit
  | nvsClose
  | other (e : HalCall)

/-- A status; for `nvs_get_u32` also what `*out` holds afterwards. -/
@[reducible] def NvsCall.Resp : NvsCall → Type
  | .nvsOpen _ => EspErr
  | .nvsGetU32 => EspErr × UInt32
  | .nvsSetU32 _ => EspErr
  | .nvsCommit => EspErr
  | .nvsClose => Unit
  | .other e => e.Resp

abbrev NvsProg := Prog NvsCall NvsCall.Resp
abbrev NvsEvent := Event NvsCall.Resp

/-- The namespace, if there is one, with the key's value, if it has one; and a
value set but not committed. -/
structure Flash where
  namespc : Option (Option UInt32)
  pending : Option UInt32
  deriving DecidableEq, Repr

/-- The flash. Every call may fail. -/
def nvs : Env NvsCall.Resp Flash
  | .nvsOpen .readonly, s, r, s' => s' = s ∧ (r = .espOk → s.namespc.isSome)
  | .nvsOpen .readwrite, s, r, s' => s' = ⟨some (s.namespc.getD none), s.pending⟩ ∨
      (r ≠ .espOk ∧ s' = s)
  | .nvsGetU32, s, r, s' => s' = s ∧ (r.1 = .espOk → s.namespc = some (some r.2))
  | .nvsSetU32 v, s, r, s' => (s'.namespc = s.namespc ∨ s'.namespc = some (some v)) ∧
      (s'.pending = some v ∨ (r ≠ .espOk ∧ s'.pending = s.pending))
  | .nvsCommit, s, r, s' => s'.pending = s.pending ∧
      ((s'.namespc = s.namespc ∧ (r = .espOk → s.pending = none)) ∨
        ∃ v, s.pending = some v ∧ s'.namespc = some (some v))
  | .nvsClose, s, _, s' => s' = ⟨s.namespc, none⟩
  | .other _, s, _, s' => s' = s

/-! ## The HAL -/

abbrev nvsOpen (mode : NvsMode) : NvsProg EspErr := Prog.ask (NvsCall.nvsOpen mode)
abbrev nvsGetU32 : NvsProg (EspErr × UInt32) := Prog.ask NvsCall.nvsGetU32
abbrev nvsSetU32 (value : UInt32) : NvsProg EspErr := Prog.ask (NvsCall.nvsSetU32 value)
abbrev nvsCommit : NvsProg EspErr := Prog.ask NvsCall.nvsCommit
abbrev nvsClose : NvsProg Unit := Prog.ask NvsCall.nvsClose

/-- mirrors hal/esp32/vl_hal_esp32.c:132-135 -/
def nvsBegin (mode : NvsMode) : NvsProg VlStatus := do
  let err ← nvsOpen mode
  if err = .espOk then return .ok else return .errPlatform

/-- With a non-NULL `out`.
mirrors hal/esp32/vl_hal_esp32.c:137-153 -/
def hwmLoad : NvsProg (VlStatus × UInt32) := do
  let st ← nvsBegin .readonly
  if st ≠ .ok then return (.ok, 0)
  else
    let (err, out) ← nvsGetU32
    let _ ← nvsClose
    if err = .nvsNotFound then return (.ok, 0)
    else if err = .espOk then return (.ok, out) else return (.errPlatform, out)

/-- `if (err == ESP_OK) err = nvs_commit(h);` -/
def commitAfter (err : EspErr) : NvsProg EspErr :=
  if err = .espOk then nvsCommit else return err

/-- mirrors hal/esp32/vl_hal_esp32.c:155-165 -/
def hwmStore (value : UInt32) : NvsProg VlStatus := do
  let st ← nvsBegin .readwrite
  if st ≠ .ok then return .errPlatform
  else
    let err ← nvsSetU32 value
    let err ← commitAfter err
    let _ ← nvsClose
    if err = .espOk then return .ok else return .errPlatform

/-- The callbacks of `vl_hal_esp32()`. -/
def hal : (e : HalCall) → NvsProg e.Resp
  | .hwmLoad => hwmLoad
  | .hwmStore v => hwmStore v
  | e => Prog.ask (NvsCall.other e)

/-! ## What is in flash -/

/-- What a load would report without faults. -/
def persisted (s : Flash) : Option UInt32 :=
  match s.namespc with
  | some (some v) => some v
  | _ => some 0

/-- `nvs_open` for reading fails only without a namespace, and `nvs_get_u32`
reports `ESP_ERR_NVS_NOT_FOUND` only without a key. -/
def MissMeansAbsent (s : Flash) : NvsEvent → Prop
  | ⟨.nvsOpen .readonly, err⟩ => err ≠ .espOk → s.namespc = none
  | ⟨.nvsGetU32, r⟩ => r.1 = .nvsNotFound → s.namespc = some none
  | _ => True

/-! ## The callbacks against the flash -/

variable {C : Flash → NvsEvent → Prop} {s s' : Flash} {t : List NvsEvent}

theorem exec_nvsBegin {τ : Type} {env : Env NvsCall.Resp τ} {s s' : τ} {mode : NvsMode}
    {st : VlStatus} (h : Prog.Exec env (nvsBegin mode) s t st s') :
    ∃ err, env (.nvsOpen mode) s err s' ∧ (st = .ok ↔ err = .espOk) := by
  obtain ⟨err, s₁, t₁, t₂, -, hopen, hret⟩ := Prog.exec_bind.mp h
  obtain ⟨-, hopen⟩ := Prog.exec_ask.mp hopen
  refine ⟨err, ?_⟩
  split at hret
  · rename_i herr
    obtain ⟨-, rfl, rfl⟩ := Prog.exec_ret.mp hret
    exact ⟨hopen, by simp [herr]⟩
  · rename_i herr
    obtain ⟨-, rfl, rfl⟩ := Prog.exec_ret.mp hret
    exact ⟨hopen, by simp [herr]⟩

theorem exec_hwmLoad {r : VlStatus × UInt32}
    (h : Prog.Exec (nvs.given MissMeansAbsent) hwmLoad s t r s') :
    s'.namespc = s.namespc ∧ (r.1 = .ok → persisted s = some r.2) := by
  obtain ⟨st, s₁, t₁, t₂, -, hbegin, hrest⟩ := Prog.exec_bind.mp h
  obtain ⟨err, ⟨⟨rfl, -⟩, hmiss⟩, hst⟩ := exec_nvsBegin hbegin
  split at hrest
  · rename_i hne
    obtain ⟨-, rfl, rfl⟩ := Prog.exec_ret.mp hrest
    have hnone := hmiss fun herr => hne (hst.mpr herr)
    exact ⟨rfl, fun _ => by simp only [persisted, hnone]⟩
  · obtain ⟨⟨err₁, out⟩, s₂, t₃, t₄, -, hget, hrest₁⟩ := Prog.exec_bind.mp hrest
    obtain ⟨-, ⟨rfl, hval⟩, hmiss₁⟩ := Prog.exec_ask.mp hget
    obtain ⟨_, s₃, t₅, t₆, -, hclose, hrest₂⟩ := Prog.exec_bind.mp hrest₁
    obtain ⟨-, rfl, -⟩ := Prog.exec_ask.mp hclose
    split at hrest₂
    · rename_i herr
      obtain ⟨-, rfl, rfl⟩ := Prog.exec_ret.mp hrest₂
      exact ⟨rfl, fun _ => by simp only [persisted, hmiss₁ herr]⟩
    split at hrest₂
    · rename_i herr
      obtain ⟨-, rfl, rfl⟩ := Prog.exec_ret.mp hrest₂
      exact ⟨rfl, fun _ => by simp only [persisted, hval herr]⟩
    · obtain ⟨-, rfl, rfl⟩ := Prog.exec_ret.mp hrest₂
      exact ⟨rfl, nofun⟩

theorem persisted_of_value {v : UInt32} (h : s.namespc = some (some v)) : persisted s = some v := by
  simp only [persisted, h]

theorem persisted_create (s : Flash) (pending : Option UInt32) :
    persisted ⟨some (s.namespc.getD none), pending⟩ = persisted s := by
  unfold persisted
  cases s.namespc <;> rfl

/-- Set, then commit: nothing new, or the value; the value if both succeed. -/
theorem exec_commitAfter {v : UInt32} {err err' : EspErr}
    (hset : nvs (.nvsSetU32 v) s err s') {s'' : Flash}
    (h : Prog.Exec (nvs.given C) (commitAfter err) s' t err' s'') :
    (s''.namespc = s.namespc ∧ err' ≠ .espOk) ∨ s''.namespc = some (some v) := by
  obtain ⟨hval, hpend⟩ := hset
  unfold commitAfter at h
  split at h
  · rename_i herr
    have hv : s'.pending = some v := hpend.resolve_right fun hf => hf.1 herr
    obtain ⟨-, ⟨-, hcommit⟩, -⟩ := Prog.exec_ask.mp h
    rcases hcommit with ⟨hkeep, hnone⟩ | ⟨v', hv', hnew⟩
    · rw [hkeep]
      rcases hval with hval | hval
      · refine .inl ⟨hval, fun hok => ?_⟩
        rw [hv] at hnone
        cases hnone hok
      · exact .inr hval
    · rw [hv, Option.some.injEq] at hv'
      rw [hnew, hv']
      exact .inr rfl
  · rename_i herr
    obtain ⟨-, rfl, rfl⟩ := Prog.exec_ret.mp h
    rcases hval with hval | hval
    · exact .inl ⟨hval, herr⟩
    · exact .inr hval

theorem exec_hwmStore {v : UInt32} {r : VlStatus}
    (h : Prog.Exec (nvs.given C) (hwmStore v) s t r s') :
    (persisted s' = persisted s ∧ r ≠ .ok) ∨ persisted s' = some v := by
  obtain ⟨st, s₁, t₁, t₂, -, hbegin, hrest⟩ := Prog.exec_bind.mp h
  obtain ⟨err, ⟨hopen, -⟩, hst⟩ := exec_nvsBegin hbegin
  have hsame : persisted s₁ = persisted s := by
    rcases hopen with rfl | ⟨-, rfl⟩
    · exact persisted_create s _
    · rfl
  split at hrest
  · obtain ⟨-, rfl, rfl⟩ := Prog.exec_ret.mp hrest
    exact .inl ⟨hsame, nofun⟩
  · obtain ⟨err₁, s₂, t₃, t₄, -, hset, hrest₁⟩ := Prog.exec_bind.mp hrest
    obtain ⟨-, hset, -⟩ := Prog.exec_ask.mp hset
    obtain ⟨err₂, s₃, t₅, t₆, -, hcommit, hrest₂⟩ := Prog.exec_bind.mp hrest₁
    have hafter := exec_commitAfter hset hcommit
    obtain ⟨_, s₄, t₇, t₈, -, hclose, hrest₃⟩ := Prog.exec_bind.mp hrest₂
    obtain ⟨-, hs₄, -⟩ := Prog.exec_ask.mp hclose
    have hflash : s₄.namespc = s₃.namespc := by rw [show s₄ = ⟨s₃.namespc, none⟩ from hs₄]
    have hkept : s₃.namespc = s₁.namespc → persisted s₄ = persisted s := by
      intro hk
      rw [← hsame]
      unfold persisted
      rw [hflash, hk]
    split at hrest₃
    · rename_i herr
      obtain ⟨-, rfl, rfl⟩ := Prog.exec_ret.mp hrest₃
      rcases hafter with ⟨-, hne⟩ | hnew
      · exact absurd herr hne
      · exact .inr (persisted_of_value (hflash.trans hnew))
    · obtain ⟨-, rfl, rfl⟩ := Prog.exec_ret.mp hrest₃
      rcases hafter with ⟨hk, -⟩ | hnew
      · exact .inl ⟨hkept hk, nofun⟩
      · exact .inr (persisted_of_value (hflash.trans hnew))

/-- **Where a miss means absence, the HAL keeps its mark.** -/
theorem esp32_store : MarkStore ((nvs.given MissMeansAbsent).lower hal) persisted where
  load := fun s v s' ⟨t, h⟩ => (exec_hwmLoad h).2 rfl
  store := fun v s r s' ⟨t, h⟩ => by
    rcases exec_hwmStore h with ⟨hp, -⟩ | hp
    · exact .inl hp
    · exact .inr (.inr hp)
  stored := fun v s s' ⟨t, h⟩ => by
    rcases exec_hwmStore h with ⟨-, hr⟩ | hp
    · exact absurd rfl hr
    · exact .inr hp
  keep := fun e s r s' hne ⟨t, h⟩ => by
    cases e with
    | hwmLoad =>
      unfold persisted
      rw [(exec_hwmLoad h).1]
    | hwmStore v => exact absurd rfl (hne v)
    | _ =>
      obtain ⟨-, hs, -⟩ := Prog.exec_ask.mp h
      rw [show s' = s from hs]

/-! ## Calls that go well -/

theorem load_miss {err : EspErr} (herr : err ≠ .espOk) (hC : C s ⟨.nvsOpen .readonly, err⟩) :
    Prog.Exec (nvs.given C) hwmLoad s [⟨.nvsOpen .readonly, err⟩] (.ok, 0) s := by
  refine .call ⟨⟨rfl, fun hok => absurd hok herr⟩, hC⟩ ?_
  change Prog.Exec _
    ((if err = .espOk then Prog.ret VlStatus.ok else Prog.ret VlStatus.errPlatform) >>= _) s [] _ s
  rw [if_neg herr]
  exact .ret _ _

theorem load_persisted {m : UInt32} (h : persisted s = some m) :
    ∃ t s', Prog.Exec (nvs.given MissMeansAbsent) hwmLoad s t (.ok, m) s' := by
  unfold persisted at h
  split at h
  · rename_i v hval
    cases h
    refine ⟨[⟨.nvsOpen .readonly, .espOk⟩, ⟨.nvsGetU32, (.espOk, m)⟩, ⟨.nvsClose, ()⟩],
      ⟨s.namespc, none⟩, ?_⟩
    refine .call ⟨⟨rfl, fun _ => by simp [hval]⟩, fun hne => absurd rfl hne⟩ ?_
    refine .call ⟨⟨rfl, fun _ => hval⟩, nofun⟩ ?_
    exact .call ⟨rfl, trivial⟩ (.ret _ _)
  · rename_i hno
    cases h
    cases hns : s.namespc with
    | none => exact ⟨_, _, load_miss (by decide : EspErr.nvsNotFound ≠ .espOk) fun _ => hns⟩
    | some val =>
      cases val with
      | some v => exact absurd hns (hno v)
      | none =>
        refine ⟨[⟨.nvsOpen .readonly, .espOk⟩, ⟨.nvsGetU32, (.nvsNotFound, 0)⟩, ⟨.nvsClose, ()⟩],
          ⟨s.namespc, none⟩, ?_⟩
        refine .call ⟨⟨rfl, fun _ => by simp [hns]⟩, fun hne => absurd rfl hne⟩ ?_
        refine .call ⟨⟨rfl, nofun⟩, fun _ => hns⟩ ?_
        exact .call ⟨rfl, trivial⟩ (.ret _ _)

theorem store_ok (s : Flash) (v : UInt32) :
    ∃ t s', Prog.Exec (nvs.given MissMeansAbsent) (hwmStore v) s t .ok s' ∧
      persisted s' = some v := by
  refine ⟨[⟨.nvsOpen .readwrite, .espOk⟩, ⟨.nvsSetU32 v, .espOk⟩, ⟨.nvsCommit, .espOk⟩,
    ⟨.nvsClose, ()⟩], ⟨some (some v), none⟩, ?_, rfl⟩
  refine .call ⟨.inl rfl, trivial⟩ ?_
  refine .call (show nvs.given MissMeansAbsent _ _ _ ⟨some (some v), some v⟩ from
    ⟨⟨.inr rfl, .inl rfl⟩, trivial⟩) ?_
  refine .call (show nvs.given MissMeansAbsent _ _ _ ⟨some (some v), some v⟩ from
    ⟨⟨rfl, .inr ⟨v, rfl, rfl⟩⟩, trivial⟩) ?_
  exact .call ⟨rfl, trivial⟩ (.ret _ _)

end VectiLicense.L5.Esp32
