import VectiLicense.L5Hal.BlobSlot
import VectiLicense.L5Hal.Esp32

/-!
# The blob on an ESP32: `hal/esp32/vl_hal_esp32.c`

`blob_load` and `blob_store` over the NVS calls of the mark and the two that
read and write a string, under a key of their own in the same namespace. Here
the flash does what it is asked to (`NoFault`).

A string's length counts its NUL, so that the empty string has length 1 and
is there to be found: `blob_load` reports it as a blob of length 0.

* `exec_blobLoad`, `exec_blobStore`: the two callbacks.
* `esp32_slot`: the HAL is a `BlobSlot` that answers `VL_OK` with no
  characters when the slot is empty.
-/
namespace VectiLicense.L5.Esp32

open VectiLicense.Core VectiLicense.L0 VectiLicense.L1.Base32

/-- `ESP_ERR_NVS_BASE + 0x0c` -/
def ESP_ERR_NVS_INVALID_LENGTH : EspErr := .other 0x110C

/-- The calls of the mark's HAL, and those on the key `"blob"`. -/
inductive StrCall where
  | nvs (e : NvsCall)
  | nvsGetStr (cap : Nat)
  | nvsSetStr (value : CStr)

/-- For `nvs_get_str` a status, what was written to `out_value`, and `*length`
afterwards. -/
@[reducible] def StrCall.Resp : StrCall → Type
  | .nvs e => e.Resp
  | .nvsGetStr _ => EspErr × List UInt8 × Nat
  | .nvsSetStr _ => EspErr

abbrev StrProg := Prog StrCall StrCall.Resp
abbrev StrEvent := Event StrCall.Resp

/-- The namespace with both keys; `pending` is a string set but not committed. -/
structure BlobFlash where
  flash : Flash
  blob : Option CStr
  pending : Option CStr
  inside : blob.isSome → flash.namespc.isSome

/-- Nothing fails, and what is missing is reported as missing. -/
def NoFault (s : Flash) : NvsEvent → Prop
  | ⟨.nvsOpen .readonly, err⟩ => err = .espOk ↔ s.namespc.isSome
  | ⟨.nvsOpen .readwrite, err⟩ => err = .espOk
  | ⟨.nvsGetU32, r⟩ => r.1 = .espOk ∨ (r.1 = .nvsNotFound ∧ s.namespc = some none)
  | ⟨.nvsSetU32 _, err⟩ => err = .espOk
  | ⟨.nvsCommit, err⟩ => err = .espOk
  | _ => True

/-- The key `"blob"` and what is pending on it, after a call for the mark. A
handle starts and ends with nothing pending. -/
def BlobFlash.keyAfter (s : BlobFlash) : NvsCall → Option CStr × Option CStr
  | .nvsOpen _ => (s.blob, none)
  | .nvsCommit => (s.pending.or s.blob, s.pending)
  | .nvsClose => (s.blob, none)
  | _ => (s.blob, s.pending)

/-- `nvs_get_str` into a buffer of `cap` characters. -/
def getStr (cap : Nat) : Option CStr → EspErr × List UInt8 × Nat
  | none => (.nvsNotFound, [], cap)
  | some v =>
    if v.bytes.length + 1 > cap then (ESP_ERR_NVS_INVALID_LENGTH, [], v.bytes.length + 1)
    else (.espOk, v.bytes ++ [0], v.bytes.length + 1)

/-- The flash without faults. -/
def nvsStr : Env StrCall.Resp BlobFlash
  | .nvs e, s, r, s' => nvs.given NoFault e s.flash r s'.flash ∧ (s'.blob, s'.pending) = s.keyAfter e
  | .nvsGetStr cap, s, r, s' => r = getStr cap s.blob ∧ s' = s
  | .nvsSetStr v, s, r, s' => r = .espOk ∧ s'.flash = s.flash ∧ s'.blob = s.blob ∧
      s'.pending = some v

/-! ## The HAL -/

abbrev lift {α : Type} (p : NvsProg α) : StrProg α := p.lower fun e => Prog.ask (StrCall.nvs e)
abbrev nvsGetStr (cap : Nat) : StrProg (EspErr × List UInt8 × Nat) :=
  Prog.ask (StrCall.nvsGetStr cap)
abbrev nvsSetStr (value : CStr) : StrProg EspErr := Prog.ask (StrCall.nvsSetStr value)

/-- With non-NULL `out` and `out_len`.
mirrors hal/esp32/vl_hal_esp32.c:167-183 -/
def blobLoad (cap : Nat) : StrProg (VlStatus × List UInt8) :=
  if cap = 0 then return (.errInvalidArg, [])
  else do
    let st ← lift (nvsBegin .readonly)
    if st ≠ .ok then return (.errNotFound, [])
    else
      let (err, out, len) ← nvsGetStr cap
      let _ ← lift nvsClose
      if err = .nvsNotFound then return (.errNotFound, [])
      else if err = ESP_ERR_NVS_INVALID_LENGTH then return (.errBufferTooSmall, [])
      else if err ≠ .espOk ∨ len = 0 then return (.errPlatform, [])
      else return (.ok, out.take (len - 1))

/-- With a non-NULL `blob`.
mirrors hal/esp32/vl_hal_esp32.c:185-203 -/
def blobStore (blob : List UInt8) : StrProg VlStatus :=
  if blob.length > VL_BLOB_STR_LEN then return .errBufferTooSmall
  else do
    let tmp := CStr.ofMem (blob ++ [0])
    let st ← lift (nvsBegin .readwrite)
    if st ≠ .ok then return .errPlatform
    else
      let err ← nvsSetStr tmp
      let err ← lift (commitAfter err)
      let _ ← lift nvsClose
      if err = .espOk then return .ok else return .errPlatform

/-- All callbacks of `vl_hal_esp32()`. -/
def storageHal : (e : HalCall) → StrProg e.Resp
  | .blobLoad cap => blobLoad cap
  | .blobStore b => blobStore b
  | e => lift (hal e)

/-! ## The slot -/

/-- The string under the key. -/
def blobKey (s : BlobFlash) : Option (List UInt8) := s.blob.map CStr.bytes

variable {s s' : BlobFlash} {t : List StrEvent}

/-- A program over the mark's calls runs over their effect on both keys. -/
theorem exec_lift {α : Type} {p : NvsProg α} {a : α} (h : Prog.Exec nvsStr (lift p) s t a s') :
    ∃ t', Prog.Exec (fun e s r s' => nvsStr (.nvs e) s r s') p s t' a s' := by
  obtain ⟨t', h'⟩ := h.of_lower
  exact ⟨t', h'.mono fun e s r s' ⟨_, hask⟩ => (Prog.exec_ask.mp hask).2⟩

theorem keyAfter_quiet (hs : s.pending = none) (e : NvsCall) : s.keyAfter e = (s.blob, none) := by
  cases e with
  | nvsOpen | nvsClose => rfl
  | nvsCommit => rw [BlobFlash.keyAfter, hs, Option.none_or]
  | _ => exact congrArg (Prod.mk s.blob) hs

/-- With nothing pending the mark's calls leave the string alone. -/
theorem nvs_keeps {α : Type} {p : NvsProg α} {a : α} {t : List NvsEvent}
    (h : Prog.Exec (fun e s r s' => nvsStr (.nvs e) s r s') p s t a s') (hs : s.pending = none) :
    s'.blob = s.blob ∧ s'.pending = none := by
  induction h with
  | ret => exact ⟨rfl, hs⟩
  | call he _ ih =>
    obtain ⟨hblob, hpend⟩ := Prod.mk.inj (he.2.trans (keyAfter_quiet hs _))
    obtain ⟨hkept, hnone⟩ := ih hpend
    exact ⟨hkept.trans hblob, hnone⟩

theorem opened_keeps {α : Type} {p : NvsProg α} {mode : NvsMode} {a : α}
    (hopen : p.next? = some (.nvsOpen mode)) (h : Prog.Exec nvsStr (lift p) s t a s') :
    s'.blob = s.blob := by
  obtain ⟨t', h'⟩ := exec_lift h
  cases h' with
  | ret => cases hopen
  | call he hrest =>
    rename_i e _ s₁ _ _
    obtain rfl : e = .nvsOpen mode := Option.some.inj hopen
    obtain ⟨hblob, hpend⟩ := Prod.mk.inj he.2
    exact (nvs_keeps hrest hpend).1.trans hblob

theorem exec_begin {mode : NvsMode} {st : VlStatus}
    (h : Prog.Exec nvsStr (lift (nvsBegin mode)) s t st s') :
    s'.blob = s.blob ∧ s'.pending = none ∧
      (st = .ok ↔ mode = .readwrite ∨ s.flash.namespc.isSome) := by
  obtain ⟨t', h'⟩ := exec_lift h
  obtain ⟨err, ⟨⟨-, hfault⟩, hkey⟩, hst⟩ := exec_nvsBegin h'
  obtain ⟨hblob, hpend⟩ := Prod.mk.inj hkey
  refine ⟨hblob, hpend, ?_⟩
  rw [hst]
  cases mode with
  | readonly =>
    rw [show (err = .espOk ↔ s.flash.namespc.isSome) from hfault]
    simp
  | readwrite => simp [show err = .espOk from hfault]

theorem exec_blobLoad {cap : Nat} {r : VlStatus × List UInt8}
    (h : Prog.Exec nvsStr (blobLoad cap) s t r s') :
    s'.blob = s.blob ∧ r = if cap = 0 then (.errInvalidArg, [])
      else match s.blob with
        | none => (.errNotFound, [])
        | some v =>
          if v.bytes.length + 1 > cap then (.errBufferTooSmall, []) else (.ok, v.bytes) := by
  unfold blobLoad at h
  split at h
  · rename_i hcap
    obtain ⟨-, rfl, rfl⟩ := Prog.exec_ret.mp h
    rw [if_pos hcap]
    exact ⟨rfl, rfl⟩
  rename_i hcap
  rw [if_neg hcap]
  obtain ⟨st, s₁, t₁, t₂, -, hbegin, hrest⟩ := Prog.exec_bind.mp h
  obtain ⟨hblob, -, hst⟩ := exec_begin hbegin
  split at hrest
  · rename_i hno
    obtain ⟨-, rfl, rfl⟩ := Prog.exec_ret.mp hrest
    -- no namespace, so no string in it
    cases hs : s.blob with
    | none => exact ⟨hblob.trans hs, rfl⟩
    | some v => exact absurd (hst.mpr (.inr (s.inside (by rw [hs]; rfl)))) hno
  · obtain ⟨⟨err, out, len⟩, s₂, t₃, t₄, -, hget, hrest₁⟩ := Prog.exec_bind.mp hrest
    obtain ⟨-, hgot, rfl⟩ := Prog.exec_ask.mp hget
    obtain ⟨_, s₃, t₅, t₆, -, hclose, hrest₂⟩ := Prog.exec_bind.mp hrest₁
    obtain ⟨t₇, hclosed⟩ := exec_lift hclose
    obtain ⟨-, -, hkey⟩ := Prog.exec_ask.mp hclosed
    have hkept : s₃.blob = s.blob := (Prod.mk.inj hkey).1.trans hblob
    rw [hblob] at hgot
    cases hs : s.blob with
    | none =>
      rw [hs] at hgot
      cases hgot
      obtain ⟨-, rfl, rfl⟩ := Prog.exec_ret.mp hrest₂
      exact ⟨hkept.trans hs, rfl⟩
    | some v =>
      rw [hs] at hgot hkept
      unfold getStr at hgot
      dsimp only at hgot ⊢
      split at hgot
      · cases hgot
        rw [if_neg (by decide), if_pos rfl] at hrest₂
        obtain ⟨-, rfl, rfl⟩ := Prog.exec_ret.mp hrest₂
        rw [if_pos ‹_›]
        exact ⟨hkept, rfl⟩
      · cases hgot
        rw [if_neg (by decide), if_neg (by decide), if_neg (by simp)] at hrest₂
        obtain ⟨-, rfl, rfl⟩ := Prog.exec_ret.mp hrest₂
        rw [if_neg ‹_›, Nat.add_sub_cancel, List.take_left]
        exact ⟨hkept, rfl⟩

theorem exec_blobStore {b : List UInt8} {st : VlStatus}
    (h : Prog.Exec nvsStr (blobStore b) s t st s') :
    (st ≠ .ok ∧ s'.blob = s.blob) ∨ (st = .ok ∧ s'.blob = some (CStr.ofMem (b ++ [0]))) := by
  unfold blobStore at h
  split at h
  · obtain ⟨-, rfl, rfl⟩ := Prog.exec_ret.mp h
    exact .inl ⟨nofun, rfl⟩
  obtain ⟨v, s₁, t₁, t₂, -, hbegin, hrest⟩ := Prog.exec_bind.mp h
  obtain ⟨-, -, hst⟩ := exec_begin hbegin
  obtain rfl : v = .ok := hst.mpr (.inl rfl)
  rw [if_neg (not_not_intro rfl)] at hrest
  obtain ⟨err, s₂, t₃, t₄, -, hset, hrest₁⟩ := Prog.exec_bind.mp hrest
  obtain ⟨-, herr, -, -, hpend⟩ := Prog.exec_ask.mp hset
  obtain rfl : err = .espOk := herr
  obtain ⟨err₁, s₃, t₅, t₆, -, hcommit, hrest₂⟩ := Prog.exec_bind.mp hrest₁
  obtain ⟨t₇, hcommitted⟩ := exec_lift hcommit
  rw [commitAfter, if_pos rfl] at hcommitted
  obtain ⟨-, ⟨-, hok⟩, hkey⟩ := Prog.exec_ask.mp hcommitted
  obtain rfl : err₁ = .espOk := hok
  have hblob : s₃.blob = some (CStr.ofMem (b ++ [0])) := by
    rw [(Prod.mk.inj hkey).1, hpend, Option.some_or]
  obtain ⟨_, s₄, t₈, t₉, -, hclose, hrest₃⟩ := Prog.exec_bind.mp hrest₂
  obtain ⟨t₁₀, hclosed⟩ := exec_lift hclose
  obtain ⟨-, -, hkey₁⟩ := Prog.exec_ask.mp hclosed
  rw [if_pos rfl] at hrest₃
  obtain ⟨-, rfl, rfl⟩ := Prog.exec_ret.mp hrest₃
  exact .inr ⟨rfl, (Prod.mk.inj hkey₁).1.trans hblob⟩

/-- **The slot on an ESP32.** -/
theorem esp32_slot : BlobSlot (nvsStr.lower storageHal) blobKey 1 .ok where
  stored := fun b s s' hb ⟨t, h⟩ => by
    rcases exec_blobStore h with ⟨hno, -⟩ | ⟨-, hblob⟩
    · exact absurd rfl hno
    · have hnonul : 0 ∉ b := hb.elim (fun hnil => by rw [hnil]; simp) Storable.nonul
      rw [blobKey, hblob, Option.map_some]
      exact congrArg some (takeWhile_append_nul hnonul)
  failed := fun b s st s' ⟨t, h⟩ hne => by
    rcases exec_blobStore h with ⟨-, hblob⟩ | ⟨hok, -⟩
    · rw [blobKey, hblob, blobKey]
    · exact absurd hok hne
  refused := fun cap s r s' hcap ⟨t, h⟩ => by
    rw [(exec_blobLoad h).2, if_pos (Nat.lt_one_iff.mp hcap)]
  loaded := fun cap b s r s' hb hmin hcap hc ⟨t, h⟩ => by
    obtain ⟨v, hv, rfl⟩ := Option.map_eq_some_iff.mp hc
    rw [(exec_blobLoad h).2, if_neg (Nat.pos_iff_ne_zero.mp hmin), hv]
    exact if_neg (Nat.not_lt.mpr hcap)
  blank := fun cap s r s' hmin hc ⟨t, h⟩ => by
    obtain ⟨v, hv, hnil⟩ := Option.map_eq_some_iff.mp hc
    rw [(exec_blobLoad h).2, if_neg (Nat.pos_iff_ne_zero.mp hmin), hv]
    dsimp only
    rw [hnil]
    exact if_neg (Nat.not_lt.mpr hmin)
  others := fun e s r s' hne ⟨t, h⟩ => by
    cases e with
    | hwmLoad => rw [blobKey, opened_keeps rfl h, blobKey]
    | hwmStore v => rw [blobKey, opened_keeps rfl h, blobKey]
    | blobLoad cap => rw [blobKey, (exec_blobLoad h).1, blobKey]
    | blobStore b => exact absurd rfl (hne b)
    | _ =>
      obtain ⟨t', h'⟩ := exec_lift h
      obtain ⟨-, -, hkey⟩ := Prog.exec_ask.mp h'
      rw [blobKey, (Prod.mk.inj hkey).1]
      rfl

end VectiLicense.L5.Esp32
