import VectiLicense.L5Hal.BlobSlot
import VectiLicense.L5Hal.Posix

/-!
# The blob on a POSIX host: `hal/posix/vl_hal_posix.c`

`blob_load` and `blob_store` over the same library calls as the mark, in a
file of their own. Here the host does what it is asked to: `NoFault`.

An empty slot is an empty file, and `blob_load` trims white space off the end
of what it reads.

* `exec_readTextFile`, `exec_writeFile`: a file read whole, and a file written.
* `posix_slot`: the HAL is a `BlobSlot` that answers `VL_ERR_NOT_FOUND` when
  the slot is empty.
-/
namespace VectiLicense.L5.Posix

open VectiLicense.Core VectiLicense.L0 VectiLicense.L1.Base32 VectiLicense.L3

/-! ## The HAL -/

/-- mirrors hal/posix/vl_hal_posix.c:14, 379 -/
def BLOB_PATH_CAP : Nat := 192 + 8

def BLOB_SUFFIX : List UInt8 := ascii ['.', 'b', 'l', 'o', 'b']

/-- With non-NULL `out` and `out_len`.
mirrors hal/posix/vl_hal_posix.c:377-390 -/
def blobLoad (state : List UInt8) (cap : Nat) : OsProg (VlStatus × List UInt8) :=
  if cap < 2 then return (.errInvalidArg, [])
  else
    match statePath state BLOB_SUFFIX BLOB_PATH_CAP with
    | none => return (.errPlatform, [])
    | some path => do
      match ← readTextFile path (cap - 1) with
      | none => return (.errNotFound, [])
      | some out => if out.length = 0 then return (.errNotFound, []) else return (.ok, out)

/-- `fopen(path, "wb")`, `fwrite`, `fclose`, as both stores do it.
mirrors hal/posix/vl_hal_posix.c:370-374, 403-407 -/
def writeFile (path : Path) (bytes : List UInt8) : OsProg VlStatus := do
  let f ← fopen path .wb
  if f = false then return .errPlatform
  else
    let n ← fwrite path bytes
    let closed ← fclose path .wb
    if closed = false ∨ n ≠ bytes.length then return .errPlatform else return .ok

/-- With a non-NULL `blob`.
mirrors hal/posix/vl_hal_posix.c:392-408 -/
def blobStore (state blob : List UInt8) : OsProg VlStatus :=
  if blob.length > VL_BLOB_STR_LEN then return .errBufferTooSmall
  else
    match statePath state BLOB_SUFFIX BLOB_PATH_CAP with
    | none => return .errPlatform
    | some path => writeFile path blob

/-- All callbacks of `vl_hal_posix(iface, state)`. -/
def storageHal (state : List UInt8) : (e : HalCall) → OsProg e.Resp
  | .blobLoad cap => blobLoad state cap
  | .blobStore b => blobStore state b
  | e => hal state e

/-! ## A host without faults -/

/-- `fopen` finds what is there, and everything is read and written. -/
def NoFault (s : Fs) : OsEvent → Prop
  | ⟨.fopen path .rb, r⟩ => r = (s.file path).isSome
  | ⟨.fopen _ .wb, r⟩ => r = true
  | ⟨.fread path cap, r⟩ => ∀ c, s.file path = some c → r = c.take cap
  | ⟨.fwrite _ bytes, r⟩ => r = bytes.length
  | ⟨.fclose _ _, r⟩ => r = true
  | ⟨.other _, _⟩ => True

variable {state : List UInt8} {s s' : Fs} {t : List OsEvent}

theorem hwmStore_eq (state : List UInt8) (v : UInt32) :
    hwmStore state v = match statePath state HWM_SUFFIX HWM_PATH_CAP with
      | none => return .errPlatform
      | some path => writeFile path (writeRaw v) := rfl

theorem exec_readTextFile {path : Path} {cap : Nat} {r : Option (List UInt8)}
    (h : Prog.Exec (posixOs.given NoFault) (readTextFile path cap) s t r s') :
    s' = s ∧ r = (s.file path).map fun c => trimEnd (c.take cap) := by
  obtain ⟨f, s₁, t₁, t₂, -, hopen, hrest⟩ := Prog.exec_bind.mp h
  obtain ⟨-, ⟨rfl, -⟩, hf⟩ := Prog.exec_ask.mp hopen
  change f = (s₁.file path).isSome at hf
  split at hrest
  · rename_i hmiss
    obtain ⟨-, rfl, rfl⟩ := Prog.exec_ret.mp hrest
    rw [hmiss, eq_comm, Option.isSome_eq_false_iff, Option.isNone_iff_eq_none] at hf
    rw [hf]
    exact ⟨rfl, rfl⟩
  · obtain ⟨bytes, s₂, t₃, t₄, -, hread, hrest₁⟩ := Prog.exec_bind.mp hrest
    obtain ⟨-, ⟨rfl, c, hc, -⟩, hall⟩ := Prog.exec_ask.mp hread
    obtain ⟨_, s₃, t₅, t₆, -, hclose, hrest₂⟩ := Prog.exec_bind.mp hrest₁
    obtain ⟨-, rfl, -⟩ := Prog.exec_ask.mp hclose
    obtain ⟨-, rfl, rfl⟩ := Prog.exec_ret.mp hrest₂
    have hbytes : bytes = c.take cap := hall c hc
    rw [hc, hbytes]
    exact ⟨rfl, rfl⟩

theorem exec_writeFile {path : Path} {bytes : List UInt8} {st : VlStatus}
    (h : Prog.Exec (posixOs.given NoFault) (writeFile path bytes) s t st s') :
    st = .ok ∧ s'.file = Function.update s.file path (some bytes) := by
  obtain ⟨f, s₁, t₁, t₂, -, hopen, hrest⟩ := Prog.exec_bind.mp h
  obtain ⟨-, hopen, hf⟩ := Prog.exec_ask.mp hopen
  obtain rfl : f = true := hf
  obtain rfl : s₁ = s.write path [] [] := hopen.resolve_right fun hno => Bool.noConfusion hno.1
  rw [if_neg (by decide)] at hrest
  obtain ⟨n, s₂, t₃, t₄, -, hwrite, hrest₁⟩ := Prog.exec_bind.mp hrest
  obtain ⟨-, ⟨-, c₁, -, rfl⟩, hn⟩ := Prog.exec_ask.mp hwrite
  obtain rfl : n = bytes.length := hn
  obtain ⟨closed, s₃, t₅, t₆, -, hclose, hrest₂⟩ := Prog.exec_bind.mp hrest₁
  obtain ⟨-, ⟨c₂, -, hwhole, rfl⟩, hclosed⟩ := Prog.exec_ask.mp hclose
  obtain rfl : closed = true := hclosed
  rw [if_neg (by simp)] at hrest₂
  obtain ⟨-, rfl, rfl⟩ := Prog.exec_ret.mp hrest₂
  have hc : c₂ = bytes := by simpa [Fs.write] using hwhole rfl
  subst hc
  exact ⟨rfl, by simp [Fs.write]⟩

/-! ## The slot -/

/-- The blob's file. -/
def blobFile (state : List UInt8) (s : Fs) : Option (List UInt8) :=
  (statePath state BLOB_SUFFIX BLOB_PATH_CAP).bind s.file

theorem path_ne {path path' : Path} (h : statePath state HWM_SUFFIX HWM_PATH_CAP = some path)
    (h' : statePath state BLOB_SUFFIX BLOB_PATH_CAP = some path') : path' ≠ path := by
  have hp : ∀ {suffix cap p}, statePath state suffix cap = some p → p = state ++ suffix := by
    intro suffix cap p hp
    unfold statePath at hp
    split at hp
    · cases hp
    · exact (Option.some.inj hp).symm
  rw [hp h, hp h']
  intro heq
  exact absurd (List.append_cancel_left heq) (by decide)

theorem trimEnd_storable {b : List UInt8} (hb : Storable b) : trimEnd b = b := by
  unfold trimEnd
  rw [List.rdropWhile_eq_self_iff]
  intro hne
  have hlast := hb.ungrouped _ (List.getLast_mem hne)
  simp only [decide_eq_true_eq]
  intro hspace
  unfold IsGrouping at hlast
  rcases hspace with h | h | h | h
  · exact hlast (.inr (.inr (.inr (.inr h))))
  · exact hlast (.inr (.inr (.inr (.inl h))))
  · exact hlast (.inr (.inl h))
  · exact hlast (.inr (.inr (.inl h)))

theorem exec_blobLoad {cap : Nat} {r : VlStatus × List UInt8}
    (h : Prog.Exec (posixOs.given NoFault) (blobLoad state cap) s t r s') :
    s' = s ∧ (cap < 2 → r.1 = .errInvalidArg) ∧
      ∀ c, 2 ≤ cap → blobFile state s = some c →
        r = if trimEnd (c.take (cap - 1)) = [] then (.errNotFound, [])
          else (.ok, trimEnd (c.take (cap - 1))) := by
  unfold blobLoad at h
  split at h
  · obtain ⟨-, rfl, rfl⟩ := Prog.exec_ret.mp h
    exact ⟨rfl, fun _ => rfl, fun c hcap => by omega⟩
  rename_i hcap
  unfold blobFile
  cases hpath : statePath state BLOB_SUFFIX BLOB_PATH_CAP with
  | none =>
    rw [hpath] at h
    obtain ⟨-, rfl, rfl⟩ := Prog.exec_ret.mp h
    exact ⟨rfl, fun hlt => absurd hlt hcap, nofun⟩
  | some path =>
    rw [hpath] at h
    obtain ⟨out, s₁, t₁, t₂, -, hread, hrest⟩ := Prog.exec_bind.mp h
    obtain ⟨rfl, rfl⟩ := exec_readTextFile hread
    rw [Option.bind_some]
    cases hfile : s₁.file path with
    | none =>
      rw [hfile] at hrest
      obtain ⟨-, rfl, rfl⟩ := Prog.exec_ret.mp hrest
      exact ⟨rfl, fun hlt => absurd hlt hcap, nofun⟩
    | some c =>
      rw [hfile, Option.map_some] at hrest
      dsimp only at hrest
      simp only [List.length_eq_zero_iff] at hrest
      refine ⟨?_, fun hlt => absurd hlt hcap, fun c' _ hc => ?_⟩
      · split at hrest
        · exact (Prog.exec_ret.mp hrest).2.2
        · exact (Prog.exec_ret.mp hrest).2.2
      · cases hc
        split at hrest
        · rename_i hnil
          rw [if_pos hnil]
          exact (Prog.exec_ret.mp hrest).2.1
        · rename_i hsome
          rw [if_neg hsome]
          exact (Prog.exec_ret.mp hrest).2.1

theorem exec_blobStore {blob : List UInt8} {st : VlStatus}
    (h : Prog.Exec (posixOs.given NoFault) (blobStore state blob) s t st s') :
    (st ≠ .ok ∧ s' = s) ∨ (st = .ok ∧ blobFile state s' = some blob) := by
  unfold blobStore at h
  split at h
  · obtain ⟨-, rfl, rfl⟩ := Prog.exec_ret.mp h
    exact .inl ⟨nofun, rfl⟩
  cases hpath : statePath state BLOB_SUFFIX BLOB_PATH_CAP with
  | none =>
    rw [hpath] at h
    obtain ⟨-, rfl, rfl⟩ := Prog.exec_ret.mp h
    exact .inl ⟨nofun, rfl⟩
  | some path =>
    rw [hpath] at h
    obtain ⟨rfl, hfile⟩ := exec_writeFile h
    refine .inr ⟨rfl, ?_⟩
    rw [blobFile, hpath, Option.bind_some, hfile, Function.update_self]

theorem hwmStore_blobFile {v : UInt32} {st : VlStatus}
    (h : Prog.Exec (posixOs.given NoFault) (hwmStore state v) s t st s') :
    blobFile state s' = blobFile state s := by
  rw [hwmStore_eq] at h
  cases hpath : statePath state HWM_SUFFIX HWM_PATH_CAP with
  | none =>
    rw [hpath] at h
    obtain ⟨-, -, rfl⟩ := Prog.exec_ret.mp h
    rfl
  | some path =>
    rw [hpath] at h
    obtain ⟨-, hfile⟩ := exec_writeFile h
    unfold blobFile
    cases hblob : statePath state BLOB_SUFFIX BLOB_PATH_CAP with
    | none => rfl
    | some path' =>
      rw [Option.bind_some, Option.bind_some, hfile,
        Function.update_of_ne (path_ne hpath hblob)]

theorem hwmLoad_state {r : VlStatus × UInt32}
    (h : Prog.Exec (posixOs.given NoFault) (hwmLoad state) s t r s') : s' = s := by
  unfold hwmLoad at h
  split at h
  · exact (Prog.exec_ret.mp h).2.2
  · obtain ⟨raw, s₁, t₁, t₂, -, hread, hrest⟩ := Prog.exec_bind.mp h
    obtain ⟨rfl, -⟩ := exec_readTextFile hread
    split at hrest
    · exact (Prog.exec_ret.mp hrest).2.2
    · split at hrest
      · exact (Prog.exec_ret.mp hrest).2.2
      · exact (Prog.exec_ret.mp hrest).2.2

/-- **The slot on a POSIX host.** -/
theorem posix_slot (state : List UInt8) :
    BlobSlot ((posixOs.given NoFault).lower (storageHal state)) (blobFile state) 2
      .errNotFound where
  stored := fun b s s' _ ⟨t, h⟩ => (exec_blobStore h).elim (fun hno => absurd rfl hno.1) And.right
  failed := fun b s st s' ⟨t, h⟩ hne => by
    rcases exec_blobStore h with ⟨-, rfl⟩ | ⟨hok, -⟩
    · rfl
    · exact absurd hok hne
  refused := fun cap s r s' hcap ⟨t, h⟩ => (exec_blobLoad h).2.1 hcap
  loaded := fun cap b s r s' hb hmin hcap hc ⟨t, h⟩ => by
    have hload := (exec_blobLoad h).2.2 b hmin hc
    rw [List.take_of_length_le (by omega), trimEnd_storable hb, if_neg hb.nonempty] at hload
    exact hload
  blank := fun cap s r s' hmin hc ⟨t, h⟩ => by
    have hload := (exec_blobLoad h).2.2 [] hmin hc
    rw [List.take_nil, if_pos (by rfl)] at hload
    exact hload
  others := fun e s r s' hne ⟨t, h⟩ => by
    cases e with
    | hwmLoad => rw [hwmLoad_state h]
    | hwmStore v => exact hwmStore_blobFile h
    | blobLoad cap => rw [(exec_blobLoad h).1]
    | blobStore b => exact absurd rfl (hne b)
    | _ =>
      obtain ⟨-, hs, -⟩ := Prog.exec_ask.mp h
      rw [show s' = s from hs]

end VectiLicense.L5.Posix
