import Mathlib.Data.List.DropRight
import VectiLicense.L5Hal.MarkStore

/-!
# The mark on a POSIX host: `hal/posix/vl_hal_posix.c`

`hwm_load` and `hwm_store` are programs over the C library's file calls. The
host (`posixOs`) may fail any of them at any time: `fopen` for want of
descriptors, permissions or memory, `fread` and `fwrite` short, `fclose` with
part of the buffer unwritten. It keeps a file's content otherwise.

`hwm_load` takes every `fopen` failure for "never written" and reports a mark
of 0. `MissMeansAbsent` is the condition under which it is right to.

* `exec_hwmLoad`: what a load reports is persisted, where a miss means absence.
* `exec_hwmStore`: a store leaves the old mark, the new one or a torn file.
* `posix_store`: the HAL is then a `MarkStore`.
-/
namespace VectiLicense.L5.Posix

open VectiLicense.Core VectiLicense.L0 VectiLicense.L3

abbrev Path := List UInt8

inductive Mode where
  | rb | wb
  deriving DecidableEq, Repr

/-- The library calls, a stream being named by its path; `other` is a callback
that has nothing to do with the mark's file. -/
inductive OsCall where
  | fopen (path : Path) (mode : Mode)
  | fread (path : Path) (cap : Nat)
  | fwrite (path : Path) (bytes : List UInt8)
  | fclose (path : Path) (mode : Mode)
  | other (e : HalCall)

/-- A stream or NULL; the bytes read; the number of bytes accepted; success. -/
@[reducible] def OsCall.Resp : OsCall → Type
  | .fopen _ _ => Bool
  | .fread _ _ => List UInt8
  | .fwrite _ _ => Nat
  | .fclose _ _ => Bool
  | .other e => e.Resp

abbrev OsProg := Prog OsCall OsCall.Resp
abbrev OsEvent := Event OsCall.Resp

/-- File contents, and what the stream open for writing has accepted. -/
structure Fs where
  file : Path → Option (List UInt8)
  accepted : List UInt8

def Fs.write (s : Fs) (path : Path) (c accepted : List UInt8) : Fs :=
  ⟨Function.update s.file path (some c), accepted⟩

/-- The host. Every call may fail; a write that fails has written some of it. -/
def posixOs : Env OsCall.Resp Fs
  | .fopen path .rb, s, r, s' => s' = s ∧ (r = true → (s.file path).isSome)
  | .fopen path .wb, s, r, s' => s' = s.write path [] [] ∨ (r = false ∧ s' = s)
  | .fread path cap, s, r, s' => s' = s ∧ ∃ c, s.file path = some c ∧ r <+: c.take cap
  | .fwrite path bytes, s, r, s' => r ≤ bytes.length ∧
      ∃ c, c <+: s.accepted ++ bytes.take r ∧ s' = s.write path c (s.accepted ++ bytes.take r)
  | .fclose _ .rb, s, _, s' => s' = s
  | .fclose path .wb, s, r, s' => ∃ c, c <+: s.accepted ∧ (r = true → c = s.accepted) ∧
      s' = s.write path c []
  | .other _, s, _, s' => s' = s

/-! ## The HAL -/

abbrev fopen (path : Path) (mode : Mode) : OsProg Bool := Prog.ask (OsCall.fopen path mode)
abbrev fread (path : Path) (cap : Nat) : OsProg (List UInt8) := Prog.ask (OsCall.fread path cap)
abbrev fwrite (path : Path) (bytes : List UInt8) : OsProg Nat :=
  Prog.ask (OsCall.fwrite path bytes)
abbrev fclose (path : Path) (mode : Mode) : OsProg Bool := Prog.ask (OsCall.fclose path mode)

/-- mirrors hal/posix/vl_hal_posix.c:14, 341 -/
def HWM_PATH_CAP : Nat := 192 + 8

def HWM_SUFFIX : List UInt8 := ascii ['.', 'h', 'w', 'm']

/-- mirrors hal/posix/vl_hal_posix.c:47-55 -/
def statePath (state suffix : List UInt8) (cap : Nat) : Option Path :=
  if state.length = 0 ∨ state.length + suffix.length + 1 > cap then none
  else some (state ++ suffix)

/-- `while (n > 0 && (out[n - 1] == '\n' || …)) n--;` -/
def trimEnd (bytes : List UInt8) : List UInt8 :=
  bytes.rdropWhile fun b => b = 0x0A ∨ b = 0x0D ∨ b = 0x20 ∨ b = 0x09

/-- `none` is -1.
mirrors hal/posix/vl_hal_posix.c:30-43 -/
def readTextFile (path : Path) (cap : Nat) : OsProg (Option (List UInt8)) := do
  let f ← fopen path .rb
  if f = false then return none
  else
    let bytes ← fread path cap
    let _ ← fclose path .rb
    return some (trimEnd bytes)

/-- `raw[0] | raw[1] << 8 | raw[2] << 16 | raw[3] << 24` -/
def readRaw (raw : List UInt8) : UInt32 :=
  (raw.getD 0 0).toUInt32 ||| ((raw.getD 1 0).toUInt32 <<< 8) |||
    ((raw.getD 2 0).toUInt32 <<< 16) ||| ((raw.getD 3 0).toUInt32 <<< 24)

/-- mirrors hal/posix/vl_hal_posix.c:364-367 -/
def writeRaw (value : UInt32) : List UInt8 :=
  [(value &&& 0xFF).toUInt8, ((value >>> 8) &&& 0xFF).toUInt8, ((value >>> 16) &&& 0xFF).toUInt8,
    ((value >>> 24) &&& 0xFF).toUInt8]

/-- With a non-NULL `out`.
mirrors hal/posix/vl_hal_posix.c:339-354 -/
def hwmLoad (state : List UInt8) : OsProg (VlStatus × UInt32) :=
  match statePath state HWM_SUFFIX HWM_PATH_CAP with
  | none => return (.errPlatform, 0)
  | some path => do
    match ← readTextFile path 4 with
    | none => return (.ok, 0)
    | some raw => if raw.length ≠ 4 then return (.errPlatform, 0) else return (.ok, readRaw raw)

/-- mirrors hal/posix/vl_hal_posix.c:356-375 -/
def hwmStore (state : List UInt8) (value : UInt32) : OsProg VlStatus :=
  match statePath state HWM_SUFFIX HWM_PATH_CAP with
  | none => return .errPlatform
  | some path => do
    let f ← fopen path .wb
    if f = false then return .errPlatform
    else
      let n ← fwrite path (writeRaw value)
      let closed ← fclose path .wb
      if closed = false ∨ n ≠ 4 then return .errPlatform else return .ok

/-- The callbacks of `vl_hal_posix(iface, state)`. -/
def hal (state : List UInt8) : (e : HalCall) → OsProg e.Resp
  | .hwmLoad => hwmLoad state
  | .hwmStore v => hwmStore state v
  | e => Prog.ask (OsCall.other e)

/-! ## What is on file -/

/-- The mark a file's content stands for, `none` if a read of it is refused. -/
def markOf (c : List UInt8) : Option UInt32 :=
  if (trimEnd (c.take 4)).length = 4 then some (readRaw (trimEnd (c.take 4))) else none

/-- What a load would report without faults. -/
def persisted (state : List UInt8) (s : Fs) : Option UInt32 :=
  match statePath state HWM_SUFFIX HWM_PATH_CAP with
  | none => none
  | some path =>
    match s.file path with
    | none => some 0
    | some c => markOf c

/-- `fopen` for reading fails only where there is no file. -/
def MissMeansAbsent (s : Fs) (ev : OsEvent) : Prop :=
  ∀ path, ev = ⟨.fopen path .rb, false⟩ → s.file path = none

theorem miss_other {s : Fs} {ev : OsEvent} (h : ∀ path, ev ≠ ⟨.fopen path .rb, false⟩) :
    MissMeansAbsent s ev := fun path hp => absurd hp (h path)

theorem length_trimEnd_le (bytes : List UInt8) : (trimEnd bytes).length ≤ bytes.length :=
  (List.rdropWhile_prefix _ _).length_le

theorem trimEnd_of_length {bytes : List UInt8} (h : (trimEnd bytes).length = bytes.length) :
    trimEnd bytes = bytes :=
  (List.rdropWhile_prefix _ _).eq_of_length h

theorem readRaw_writeRaw (v : UInt32) : readRaw (writeRaw v) = v := by
  have hraw : readRaw (writeRaw v) = rdLe32 (writeRaw v) 0 := rfl
  rw [hraw, rdLe32_eq (show 0 + 4 ≤ (writeRaw v).length from Nat.le_refl 4), le32]
  apply UInt32.toNat_inj.mp
  have hmod : ∀ n : Nat, n &&& 255 = n % 256 := fun n => Nat.and_two_pow_sub_one_eq_mod n 8
  have hlt := v.toNat_lt
  simp only [writeRaw, List.drop_zero, List.take_succ_cons, List.take_zero, leNat,
    UInt32.toNat_toUInt8, UInt32.toNat_and, UInt32.toNat_shiftRight, UInt32.toNat_ofNat',
    Nat.shiftRight_eq_div_pow, UInt32.reduceToNat, Nat.reduceMod, Nat.reducePow, hmod]
  omega

theorem markOf_writeRaw {v : UInt32} {c : List UInt8} (h : c <+: writeRaw v) :
    markOf c = none ∨ markOf c = some v := by
  unfold markOf
  split
  · rename_i hlen
    have hle := length_trimEnd_le (c.take 4)
    rw [hlen, List.length_take] at hle
    have hc : c = writeRaw v := h.eq_of_length (Nat.le_antisymm h.length_le (by
      rw [show (writeRaw v).length = 4 from rfl]; omega))
    subst hc
    have htake : (writeRaw v).take 4 = writeRaw v := rfl
    rw [htake] at hlen ⊢
    rw [trimEnd_of_length hlen, readRaw_writeRaw]
    exact .inr rfl
  · exact .inl rfl

/-! ## The callbacks against the host -/

variable {state : List UInt8} {s s' : Fs} {t : List OsEvent}

theorem exec_hwmLoad {r : VlStatus × UInt32}
    (h : Prog.Exec (posixOs.given MissMeansAbsent) (hwmLoad state) s t r s') :
    s' = s ∧ (r.1 = .ok → persisted state s = some r.2) := by
  unfold hwmLoad at h
  unfold persisted
  cases hpath : statePath state HWM_SUFFIX HWM_PATH_CAP with
  | none =>
    rw [hpath] at h
    obtain ⟨-, rfl, rfl⟩ := Prog.exec_ret.mp h
    exact ⟨rfl, nofun⟩
  | some path =>
    rw [hpath] at h
    obtain ⟨raw, s₁, t₁, t₂, -, hread, hraw⟩ := Prog.exec_bind.mp h
    obtain ⟨f, s₂, t₃, t₄, -, hopen, hrest⟩ := Prog.exec_bind.mp hread
    obtain ⟨-, ⟨rfl, -⟩, hmiss⟩ := Prog.exec_ask.mp hopen
    cases f with
    | false =>
      obtain ⟨-, rfl, rfl⟩ := Prog.exec_ret.mp hrest
      obtain ⟨-, rfl, rfl⟩ := Prog.exec_ret.mp hraw
      exact ⟨rfl, fun _ => by simp only [hmiss path rfl]⟩
    | true =>
      obtain ⟨bytes, s₃, t₅, t₆, -, hbytes, hrest₁⟩ := Prog.exec_bind.mp hrest
      obtain ⟨-, ⟨rfl, c, hc, hpre⟩, -⟩ := Prog.exec_ask.mp hbytes
      obtain ⟨_, s₄, t₇, t₈, -, hclose, hrest₂⟩ := Prog.exec_bind.mp hrest₁
      obtain ⟨-, rfl, -⟩ := Prog.exec_ask.mp hclose
      obtain ⟨-, rfl, rfl⟩ := Prog.exec_ret.mp hrest₂
      dsimp only at hraw
      split at hraw
      · obtain ⟨-, rfl, rfl⟩ := Prog.exec_ret.mp hraw
        exact ⟨rfl, nofun⟩
      · rename_i hlen
        obtain ⟨-, rfl, rfl⟩ := Prog.exec_ret.mp hraw
        rw [Decidable.not_not] at hlen
        have hle := length_trimEnd_le bytes
        have hfull : bytes = c.take 4 := hpre.eq_of_length (Nat.le_antisymm hpre.length_le (by
          rw [List.length_take]; omega))
        subst hfull
        refine ⟨rfl, fun _ => ?_⟩
        simp only [hc, markOf, hlen, if_true]

theorem persisted_write {path : Path} (hpath : statePath state HWM_SUFFIX HWM_PATH_CAP = some path)
    (s : Fs) (c accepted : List UInt8) : persisted state (s.write path c accepted) = markOf c := by
  simp only [persisted, hpath, Fs.write, Function.update_self]

theorem exec_hwmStore {C : Fs → OsEvent → Prop} {v : UInt32} {r : VlStatus}
    (h : Prog.Exec (posixOs.given C) (hwmStore state v) s t r s') :
    (persisted state s' = persisted state s ∧ r ≠ .ok) ∨ persisted state s' = none ∨
      persisted state s' = some v := by
  unfold hwmStore at h
  cases hpath : statePath state HWM_SUFFIX HWM_PATH_CAP with
  | none =>
    rw [hpath] at h
    obtain ⟨-, rfl, rfl⟩ := Prog.exec_ret.mp h
    exact .inl ⟨rfl, nofun⟩
  | some path =>
    rw [hpath] at h
    obtain ⟨f, s₁, t₁, t₂, -, hopen, hrest⟩ := Prog.exec_bind.mp h
    obtain ⟨-, hopen, -⟩ := Prog.exec_ask.mp hopen
    cases f with
    | false =>
      obtain ⟨-, rfl, rfl⟩ := Prog.exec_ret.mp hrest
      rcases hopen with rfl | ⟨-, rfl⟩
      · exact .inr (.inl (persisted_write hpath _ _ _))
      · exact .inl ⟨rfl, nofun⟩
    | true =>
      rcases hopen with rfl | ⟨hf, -⟩
      swap
      · cases hf
      obtain ⟨n, s₂, t₃, t₄, -, hwrite, hrest₁⟩ := Prog.exec_bind.mp hrest
      obtain ⟨-, ⟨-, c₁, -, rfl⟩, -⟩ := Prog.exec_ask.mp hwrite
      obtain ⟨closed, s₃, t₅, t₆, -, hclose, hrest₂⟩ := Prog.exec_bind.mp hrest₁
      obtain ⟨-, ⟨c₂, hpre, -, rfl⟩, -⟩ := Prog.exec_ask.mp hclose
      have hmark := markOf_writeRaw (hpre.trans (List.take_prefix _ _))
      split at hrest₂
      · obtain ⟨-, -, rfl⟩ := Prog.exec_ret.mp hrest₂
        rw [persisted_write hpath]
        exact .inr hmark
      · obtain ⟨-, -, rfl⟩ := Prog.exec_ret.mp hrest₂
        rw [persisted_write hpath]
        exact .inr hmark

/-- **Where a miss means absence, the HAL keeps its mark.** -/
theorem posix_store (state : List UInt8) :
    MarkStore ((posixOs.given MissMeansAbsent).lower (hal state)) (persisted state) where
  load := fun s v s' ⟨t, h⟩ => (exec_hwmLoad h).2 rfl
  store := fun v s r s' ⟨t, h⟩ => by
    rcases exec_hwmStore h with ⟨hp, -⟩ | hp | hp
    · exact .inl hp
    · exact .inr (.inl hp)
    · exact .inr (.inr hp)
  stored := fun v s s' ⟨t, h⟩ => by
    rcases exec_hwmStore h with ⟨-, hr⟩ | hp
    · exact absurd rfl hr
    · exact hp
  keep := fun e s r s' hne ⟨t, h⟩ => by
    cases e with
    | hwmLoad => rw [(exec_hwmLoad h).1]
    | hwmStore v => exact absurd rfl (hne v)
    | _ =>
      obtain ⟨-, hs, -⟩ := Prog.exec_ask.mp h
      rw [show s' = s from hs]

/-! ## Calls that go well -/

theorem load_miss {C : Fs → OsEvent → Prop} {path : Path}
    (hpath : statePath state HWM_SUFFIX HWM_PATH_CAP = some path)
    (hC : C s ⟨.fopen path .rb, false⟩) :
    Prog.Exec (posixOs.given C) (hwmLoad state) s [⟨.fopen path .rb, false⟩] (.ok, 0) s := by
  unfold hwmLoad
  rw [hpath]
  exact .call ⟨⟨rfl, nofun⟩, hC⟩ (.ret _ _)

theorem load_persisted {m : UInt32} (h : persisted state s = some m) :
    ∃ t, Prog.Exec (posixOs.given MissMeansAbsent) (hwmLoad state) s t (.ok, m) s := by
  unfold persisted at h
  split at h
  · cases h
  rename_i path hpath
  split at h
  · rename_i hfile
    cases h
    exact ⟨_, load_miss hpath fun p hp => by cases hp; exact hfile⟩
  · rename_i c hfile
    unfold markOf at h
    split at h
    · rename_i hlen
      cases h
      refine ⟨[⟨.fopen path .rb, true⟩, ⟨.fread path 4, c.take 4⟩, ⟨.fclose path .rb, true⟩], ?_⟩
      unfold hwmLoad
      rw [hpath]
      refine .call ⟨⟨rfl, fun _ => by simp [hfile]⟩, miss_other fun _ => nofun⟩ ?_
      refine .call ⟨⟨rfl, c, hfile, List.prefix_rfl⟩, miss_other fun _ => nofun⟩ ?_
      refine .call ⟨rfl, miss_other fun _ => nofun⟩ ?_
      change Prog.Exec _ (if (trimEnd (c.take 4)).length ≠ 4 then _ else _) s [] _ s
      rw [if_neg (not_not_intro hlen)]
      exact .ret _ _
    · cases h

theorem store_ok {path : Path} (hpath : statePath state HWM_SUFFIX HWM_PATH_CAP = some path)
    (s : Fs) (v : UInt32) :
    ∃ t s', Prog.Exec (posixOs.given MissMeansAbsent) (hwmStore state v) s t .ok s' ∧
      persisted state s' = markOf (writeRaw v) := by
  refine ⟨[⟨.fopen path .wb, true⟩, ⟨.fwrite path (writeRaw v), 4⟩, ⟨.fclose path .wb, true⟩],
    ((s.write path [] []).write path [] (writeRaw v)).write path (writeRaw v) [], ?_,
    persisted_write hpath _ _ _⟩
  unfold hwmStore
  rw [hpath]
  refine .call ⟨.inl rfl, miss_other fun _ => nofun⟩ ?_
  refine .call ⟨⟨Nat.le_refl 4, [], List.nil_prefix, rfl⟩, miss_other fun _ => nofun⟩ ?_
  refine .call ⟨⟨writeRaw v, List.prefix_rfl, fun _ => rfl, rfl⟩, miss_other fun _ => nofun⟩ ?_
  exact .ret _ _

end VectiLicense.L5.Posix
