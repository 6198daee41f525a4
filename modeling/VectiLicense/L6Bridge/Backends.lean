import VectiLicense.L5Hal.Esp32Blob
import VectiLicense.L5Hal.PosixBlob
import VectiLicense.L5Hal.Rp2040
import VectiLicense.L6Bridge.Reboot

/-!
# One blob slot, three backends

A `License` over each of the shipped HALs that can store a blob, none of them
failing: whatever methods are called, then a reboot and `begin()` on a fresh
object.

The backends agree on a blob that was stored, and on the empty slot but for
one: the ESP32's `blob_load` finds the empty string that `clear()` stored and
reports `VL_OK` with no characters, which `begin()` goes on to verify.

* `run_content`: the slot holds what the last successful storage operation
  put there.
* `begin_stored`, `begin_blank`: what `begin()` makes of it.
* `slots_agree`: the three backends implement the same slot unless the
  backend is the ESP32's and the last storage operation was a `clear()`.
-/
namespace VectiLicense.L6

open VectiLicense.Core VectiLicense.L0 VectiLicense.L1.Base32 VectiLicense.L3
open VectiLicense.L5 (BlobSlot Storable)
open VectiLicense.L4.Mark (entitled vltReadIdSegment fixCrypto fixConfig FIX_BLOB_WINDOWED)

/-! ## The shipped HALs -/

/-- `vl_hal_posix(iface, state)`, `vl_hal_rp2040()`, `vl_hal_esp32()`. -/
inductive ShippedHal where
  | posix (state : List UInt8)
  | rp2040
  | esp32
  deriving DecidableEq, Repr

namespace ShippedHal

@[reducible] def State : ShippedHal → Type
  | .posix _ => L5.Posix.Fs
  | .rp2040 => L5.Rp2040.Page
  | .esp32 => L5.Esp32.BlobFlash

/-- mirrors hal/posix/vl_hal_posix.c:410-417, hal/rp2040/vl_hal_rp2040.c:151-158,
hal/esp32/vl_hal_esp32.c:224-231 -/
def mask : ShippedHal → HalMask
  | .posix _ => ⟨true, true, true, true, true, true, false⟩
  | .rp2040 => ⟨true, false, true, true, true, true, false⟩
  | .esp32 => ⟨true, true, true, true, true, true, true⟩

/-- The callbacks, without faults. -/
def env : (hal : ShippedHal) → Env HalCall.Resp hal.State
  | .posix state => (L5.Posix.posixOs.given L5.Posix.NoFault).lower (L5.Posix.storageHal state)
  | .rp2040 => L5.Rp2040.flash.lower L5.Rp2040.hal
  | .esp32 => L5.Esp32.nvsStr.lower L5.Esp32.storageHal

/-- What is in the slot. -/
def content : (hal : ShippedHal) → hal.State → Option (List UInt8)
  | .posix state, s => L5.Posix.blobFile state s
  | .rp2040, s => some (L5.Rp2040.VlRpRecord.present s).content
  | .esp32, s => L5.Esp32.blobKey s

/-- The least capacity `blob_load` accepts. -/
def minCap : ShippedHal → Nat
  | .posix _ => 2
  | .rp2040 => 1
  | .esp32 => 1

/-- What `blob_load` answers when the slot is empty. -/
def blank : ShippedHal → VlStatus
  | .posix _ => .errNotFound
  | .rp2040 => .errNotFound
  | .esp32 => .ok

/-- What is on the medium stays there. -/
def Rebooted : (hal : ShippedHal) → hal.State → hal.State → Prop
  | .posix _, s, s' => s'.file = s.file
  | .rp2040, s, s' => s' = s
  | .esp32, s, s' => s'.flash.namespc = s.flash.namespc ∧ s'.blob = s.blob

theorem slot (hal : ShippedHal) : BlobSlot hal.env hal.content hal.minCap hal.blank := by
  cases hal with
  | posix state => exact L5.Posix.posix_slot state
  | rp2040 => exact L5.Rp2040.rp2040_slot
  | esp32 => exact L5.Esp32.esp32_slot

theorem Rebooted.content {hal : ShippedHal} {s s' : hal.State} (h : hal.Rebooted s s') :
    hal.content s' = hal.content s := by
  cases hal with
  | posix state =>
    have hfile : s'.file = s.file := h
    rw [ShippedHal.content, L5.Posix.blobFile, hfile]
    rfl
  | rp2040 =>
    obtain rfl : s' = s := h
    rfl
  | esp32 => exact congrArg (Option.map CStr.bytes) h.2

theorem blank_eq {hal : ShippedHal} : hal.blank = .errNotFound ↔ hal ≠ .esp32 := by
  cases hal with
  | posix state => exact iff_of_true rfl (by simp)
  | rp2040 => exact iff_of_true rfl (by simp)
  | esp32 => exact iff_of_false (by decide) (by simp)

theorem hasLoad (hal : ShippedHal) : License.hasLoad (some hal.mask) = true := by
  cases hal <;> rfl

theorem minCap_le (hal : ShippedHal) : hal.minCap ≤ VL_BLOB_STR_BUF_LEN := by
  cases hal with
  | posix state => exact (by decide : 2 ≤ VL_BLOB_STR_BUF_LEN)
  | rp2040 => decide
  | esp32 => decide

end ShippedHal

/-- A canonical blob: 160 characters in their canonical spelling. -/
structure Canonical (b : List UInt8) : Prop where
  length : b.length = 160
  nonul : 0 ∉ b
  spelled : norm b = b

theorem Canonical.storable {b : List UInt8} (h : Canonical b) : Storable b where
  nonempty := List.ne_nil_of_length_pos (by rw [h.length]; decide)
  fits := Nat.le_of_eq h.length
  nonul := h.nonul
  ungrouped := fun c hc => (mem_norm (h.spelled.symm ▸ hc)).1

theorem canonical_canon {str : CStr} (h : (canon str).bytes.length = 160) :
    Canonical (canon str).bytes :=
  ⟨h, (canon str).nonul, congrArg CStr.bytes (canon_canon str)⟩

/-! ## What a run leaves in the slot -/

/-- A blob that was stored. -/
def stored? : BridgeEvent → Option (List UInt8)
  | ⟨.blobStore b, .ok⟩ => some b
  | _ => none

theorem stored?_eq {ev : BridgeEvent} {b : List UInt8} (h : stored? ev = some b) :
    ev = ⟨.blobStore b, .ok⟩ := by
  obtain ⟨e, r⟩ := ev
  unfold stored? at h
  split at h
  · rename_i heq
    cases heq
    cases h
    rfl
  · cases h

/-- The successful storage operations of a run, each with the method that made it. -/
def storages (ls : List (Op × List BridgeEvent)) : List (Op × List UInt8) :=
  ls.flatMap fun l => (l.2.filterMap stored?).map (Prod.mk l.1)

theorem storages_cons (l : Op × List BridgeEvent) (ls : List (Op × List BridgeEvent)) :
    storages (l :: ls) = (l.2.filterMap stored?).map (Prod.mk l.1) ++ storages ls :=
  List.flatMap_cons

/-- The last of them. -/
def lastStorage (ls : List (Op × List BridgeEvent)) : Option (Op × List UInt8) :=
  (storages ls).getLast?

section
variable {σ : Type} [Target] {cr : Crypto} {cfg : Option VlConfig} {hal : Option HalMask}
  {env : Env HalCall.Resp σ} {content : σ → Option (List UInt8)} {minCap : Nat} {blank : VlStatus}

theorem call_content (hs : BlobSlot env content minCap blank) {e : BridgeCall} {s s' : σ}
    {r : e.Resp} (h : bridgeEnv cr cfg hal env e s r s')
    (hb : ∀ b, stored? ⟨e, r⟩ = some b → b = [] ∨ Storable b) :
    content s' = (stored? ⟨e, r⟩).or (content s) := by
  by_cases he : ∃ b, e = .blobStore b
  · obtain ⟨b, rfl⟩ := he
    have hput := bridgeEnv_store h
    by_cases hok : r = .ok
    · subst hok
      exact hs.stored _ _ _ (hb b rfl) hput
    · have hnone : stored? ⟨.blobStore b, r⟩ = none := by
        rw [Option.eq_none_iff_forall_ne_some]
        intro b' hb'
        cases stored?_eq hb'
        exact hok rfl
      rw [hnone, Option.none_or]
      exact hs.failed _ _ _ _ hput hok
  · have hne : ∀ b, e ≠ .blobStore b := fun b hb => he ⟨b, hb⟩
    have hnone : stored? ⟨e, r⟩ = none := by
      rw [Option.eq_none_iff_forall_ne_some]
      intro b hb
      exact hne b (congrArg Sigma.fst (stored?_eq hb))
    rw [hnone, Option.none_or]
    exact bridgeEnv_keeps hs.others h hne

theorem exec_content (hs : BlobSlot env content minCap blank) {α : Type} {p : BridgeProg α}
    {s s' : σ} {t : List BridgeEvent} {a : α} (h : Prog.Exec (bridgeEnv cr cfg hal env) p s t a s')
    (hb : ∀ ev ∈ t, ∀ b, stored? ev = some b → b = [] ∨ Storable b) :
    content s' = (t.filterMap stored?).getLast?.or (content s) := by
  induction h with
  | ret => rfl
  | call he _ ih =>
    obtain ⟨hhead, htail⟩ := List.forall_mem_cons.mp hb
    rw [ih htail, call_content hs he hhead, List.filterMap_cons]
    split
    · rename_i hnone
      rw [hnone, Option.none_or]
    · rename_i b hsome
      rw [hsome, List.getLast?_cons, Option.some_or, Option.or_some, Option.some_or]

/-- **What a method stores.** -/
theorem op_stores {op : Op} {l l' : License} {s s' : σ} {t : List BridgeEvent}
    {ret : Option VlStatus} (h : OpStep (bridgeEnv cr cfg hal env) hal l op s t ret l' s') :
    ∀ ev ∈ t, ∀ b, stored? ev = some b →
      (op = .clear ∧ b = []) ∨ (op ≠ .clear ∧ Canonical b) := by
  have happly : ∀ {op : Op} {blob persist} {l l' : License} {s s' : σ} {t st}, op ≠ .clear →
      ApplyStep (bridgeEnv cr cfg hal env) hal blob persist l s t st l' s' →
      ∀ ev ∈ t, ∀ b, stored? ev = some b →
        (op = .clear ∧ b = []) ∨ (op ≠ .clear ∧ Canonical b) := by
    intro op blob persist l l' s s' t st hop h ev hev b hb
    obtain rfl := stored?_eq hb
    cases h with
    | refused => simp at hev
    | held => simp at hev
    | persisted hv _ _ hbytes _ =>
      obtain ⟨str, -, hcanon, hlen⟩ := persisted_bytes hv hbytes
      rw [hcanon] at hlen hev
      obtain ⟨rfl, -⟩ : b = (canon str).bytes ∧ _ := by simpa using hev
      exact .inr ⟨hop, canonical_canon hlen⟩
  intro ev hev b hb
  cases h with
  | noLoad | submit | idle | cleared => cases hev
  | loadFailed | loadTooLong =>
    obtain rfl := stored?_eq hb
    simp at hev
  | loaded _ _ _ h =>
    rcases List.mem_cons.mp hev with rfl | hev
    · cases hb
    · exact happly (by simp) h ev hev b hb
  | activate h => exact happly (by simp) h ev hev b hb
  | pumped _ h => exact happly (by simp) h ev hev b hb
  | erased =>
    obtain rfl := stored?_eq hb
    obtain ⟨rfl, -⟩ : b = [] ∧ _ := by simpa using hev
    exact .inl ⟨rfl, rfl⟩
  | deviceId hid =>
    obtain ⟨-, -, -, -, -, hcalls⟩ := deviceId_frame hid
    have hcall := hcalls ev hev
    rw [stored?_eq hb] at hcall
    cases hcall

/-- A run stores the empty string with `clear()`, and otherwise canonical blobs. -/
theorem run_stores {w w' : World σ} {ls : List (Op × List BridgeEvent)}
    (h : Run (Step cr cfg hal env) w ls w') :
    ∀ op b, (op, b) ∈ storages ls → (op = .clear ∧ b = []) ∨ (op ≠ .clear ∧ Canonical b) := by
  intro op b hmem
  obtain ⟨l, hl, hb⟩ := List.mem_flatMap.mp hmem
  obtain ⟨b', hb', heq⟩ := List.mem_map.mp hb
  cases heq
  obtain ⟨ev, hev, hst⟩ := List.mem_filterMap.mp hb'
  obtain ⟨_, _, m, m', -, -, hstep, -⟩ := h.mem_step hl
  obtain ⟨-, ret, hexec⟩ := hstep
  exact op_stores (exec_op hexec) ev hev b hst

/-- **One run.** The last successful storage operation decides. -/
theorem run_content (hs : BlobSlot env content minCap blank) {w w' : World σ}
    {ls : List (Op × List BridgeEvent)} (h : Run (Step cr cfg hal env) w ls w') :
    content w'.hal = ((lastStorage ls).map Prod.snd).or (content w.hal) := by
  induction h with
  | nil => rfl
  | cons hstep _ ih =>
    rename_i l _ _ _
    obtain ⟨-, ret, hexec⟩ := hstep
    have hone := exec_content hs hexec fun ev hev b hb =>
      (op_stores (exec_op hexec) ev hev b hb).imp And.right fun hc => hc.2.storable
    have hlabel : ∀ (op : Op) (bs : List (List UInt8)),
        ((bs.map (Prod.mk op)).getLast?).map Prod.snd = bs.getLast? := by
      intro op bs
      rw [List.getLast?_map, Option.map_map]
      exact Option.map_id_apply
    rw [ih, hone, lastStorage, lastStorage, storages_cons, List.getLast?_append, Option.map_or,
      hlabel, Option.or_assoc]

/-! ## What `begin()` makes of it -/

theorem decodeBlob_empty {str : CStr} (h : str.bytes = []) :
    decodeBlob str = .error .errBadFormat := by
  unfold decodeBlob
  dsimp only
  refine if_pos fun hret => ?_
  obtain ⟨-, hgrammar⟩ := (decode_ok_iff (by decide)).mp (Option.isSome_iff_exists.mpr ⟨_, hret⟩)
  have hcount := hgrammar.count
  rw [h] at hcount
  cases hcount

theorem authenticate_empty {str : CStr} (h : str.bytes = []) (c : VlConfig)
    (keys : List VlPubkey) : authenticate cr c keys str = .error .errBadFormat := by
  rw [authenticate, decodeBlob_empty h]

theorem verify_empty {str : CStr} (hstr : str.bytes = []) {s s' : σ} {st : VlStatus}
    {lic : VlLicense} (h : bridgeEnv cr cfg hal env (.verify (some str)) s (st, lic) s') :
    st = .errInvalidArg ∨ st = .errBadFormat := by
  obtain ⟨t, hexec⟩ := bridgeEnv_verify.mp h
  rcases exec_vlVerify.mp hexec with ⟨rc, hargs, -, hv, -⟩ | ⟨str', c, keys, m, r, hargs, hstep, hv⟩
  · rw [checkArgs_error hargs] at hv
    exact .inl (Prod.mk.inj hv).1
  · obtain ⟨heq, -⟩ := checkArgs_ok_iff.mp hargs
    obtain rfl := Option.some.inj heq
    have hauth := @authenticate_empty _ cr _ hstr c keys
    cases hstep with
    | rejected hrej =>
      rw [hauth] at hrej
      cases hrej
      exact .inr (Prod.mk.inj hv).1
    | identityFailed hok | otherDevice hok | revoked hok | timed hok =>
      rw [hauth] at hok
      cases hok

/-- With arguments in order it is malformed, and nothing is asked of the HAL. -/
theorem verify_empty_args {str : CStr} (hstr : str.bytes = []) {c : VlConfig}
    {keys : List VlPubkey} {m : HalMask}
    (hargs : checkArgs (some str) cfg hal = .ok (str, c, keys, m)) (s : σ) :
    bridgeEnv cr cfg hal env (.verify (some str)) s (.errBadFormat, VlLicense.zero) s :=
  bridgeEnv_verify.mpr ⟨[], exec_vlVerify.mpr
    (.inr ⟨_, _, _, _, _, hargs, .rejected (authenticate_empty hstr c keys), rfl⟩)⟩

variable {devid : Buf 27} {mem : Buf 161} {s s' : σ} {t : List BridgeEvent} {st : VlStatus}
  {l : License}

theorem begin_stored (hs : BlobSlot env content minCap blank) (hload : License.hasLoad hal = true)
    (hmin : minCap ≤ VL_BLOB_STR_BUF_LEN) {b : List UInt8} (hb : Canonical b)
    (hcontent : content s = some b)
    (h : Prog.Exec (bridgeEnv cr cfg hal env) ((License.new devid mem).begin hal) s t (st, l) s') :
    ∃ str v, str.bytes = b ∧ st = v.1 ∧
      t = [⟨.blobLoad VL_BLOB_STR_BUF_LEN, (.ok, b)⟩, ⟨.verify (some str), v⟩] := by
  have hfit : b.length < VL_BLOB_STR_BUF_LEN := by rw [hb.length]; decide
  have hloaded : ∀ {r s₁}, bridgeEnv cr cfg hal env (.blobLoad VL_BLOB_STR_BUF_LEN) s r s₁ →
      r = (.ok, b) :=
    fun hask => hs.loaded _ _ _ _ _ hb.storable hmin hfit hcontent (bridgeEnv_load hask)
  cases exec_begin h with
  | noLoad hno =>
    rw [hload] at hno
    cases hno
  | loadFailed _ hask hne => exact absurd (Prod.mk.inj (hloaded hask)).1 hne
  | loadTooLong _ hask hlong =>
    rw [(Prod.mk.inj (hloaded hask)).2] at hlong
    exact absurd hfit (Nat.not_lt.mpr hlong)
  | loaded _ hask _ happly =>
    obtain rfl := (Prod.mk.inj (hloaded hask)).2
    have hstr := CStr.ofMem_append ⟨_, hb.nonul⟩ []
    rw [hstr] at happly
    cases happly with
    | refused => exact ⟨_, _, rfl, rfl, rfl⟩
    | held => exact ⟨_, _, rfl, rfl, rfl⟩
    | persisted _ hp => cases hp

/-- An empty slot is "never activated" where `blob_load` says so, and a blob
without characters where it answers `VL_OK`. -/
theorem begin_blank (hs : BlobSlot env content minCap blank) (hload : License.hasLoad hal = true)
    (hmin : minCap ≤ VL_BLOB_STR_BUF_LEN) (hcontent : content s = some [])
    (h : Prog.Exec (bridgeEnv cr cfg hal env) ((License.new devid mem).begin hal) s t (st, l) s') :
    st = .errNotFound ↔ blank = .errNotFound := by
  have hloaded : ∀ {r s₁}, bridgeEnv cr cfg hal env (.blobLoad VL_BLOB_STR_BUF_LEN) s r s₁ →
      r = (blank, []) := fun hask => hs.blank _ _ _ _ hmin hcontent (bridgeEnv_load hask)
  cases exec_begin h with
  | noLoad hno =>
    rw [hload] at hno
    cases hno
  | loadFailed _ hask => rw [(Prod.mk.inj (hloaded hask)).1]
  | loadTooLong _ hask hlong =>
    rw [(Prod.mk.inj (hloaded hask)).2] at hlong
    cases hlong
  | loaded _ hask _ happly =>
    obtain ⟨rfl, rfl⟩ := Prod.mk.inj (hloaded hask)
    refine iff_of_false (fun hst => ?_) (by decide)
    have hempty : ∀ {s s' lic}, bridgeEnv cr cfg hal env
        (.verify (some (CStr.ofMem ([] ++ [0])))) s (.errNotFound, lic) s' → False := fun hv =>
      (verify_empty rfl hv).elim (fun h => nomatch h) fun h => nomatch h
    cases happly with
    | refused hv _ =>
      rw [hst] at hv
      exact hempty hv
    | held => cases hst
    | persisted _ hp => cases hp

end

/-! ## The same slot -/

/-- What `begin()` on a fresh object owes the last storage operation: "never
activated" after a `clear()`, and the verdict on exactly the 160 characters
after anything else. -/
def BeginServes (ls : List (Op × List BridgeEvent)) (st : VlStatus) (t : List BridgeEvent) : Prop :=
  ∀ op b, lastStorage ls = some (op, b) → (op = .clear → st = .errNotFound) ∧
    (op ≠ .clear → b.length = 160 ∧ ∃ str v, str.bytes = b ∧ st = v.1 ∧
      t = [⟨.blobLoad VL_BLOB_STR_BUF_LEN, (.ok, b)⟩, ⟨.verify (some str), v⟩])

/-- The last successful storage operation was a `clear()`. -/
def EndsCleared (ls : List (Op × List BridgeEvent)) : Prop :=
  ∃ b, lastStorage ls = some (.clear, b)

section
variable [Target] {cr cr' : Crypto} {cfg cfg' : Option VlConfig} {hal : ShippedHal}

/-- **One reboot.** -/
theorem begin_serves_iff {w w' : World hal.State} {ls : List (Op × List BridgeEvent)}
    (h : Run (Step cr cfg (some hal.mask) hal.env) w ls w') {s s' : hal.State}
    (hreboot : hal.Rebooted w'.hal s) {devid : Buf 27} {mem : Buf 161} {t : List BridgeEvent}
    {st : VlStatus} {l : License}
    (hbegin : Prog.Exec (bridgeEnv cr' cfg' (some hal.mask) hal.env)
      ((License.new devid mem).begin (some hal.mask)) s t (st, l) s') :
    BeginServes ls st t ↔ ¬ (hal = .esp32 ∧ EndsCleared ls) := by
  have hcontent := hreboot.content.trans (run_content hal.slot h)
  cases hlast : lastStorage ls with
  | none =>
    refine iff_of_true (fun op b hb => ?_) fun hcleared => ?_
    · rw [hlast] at hb
      cases hb
    · obtain ⟨-, b, hb⟩ := hcleared
      rw [hlast] at hb
      cases hb
  | some last =>
    obtain ⟨op, b⟩ := last
    rw [hlast, Option.map_some, Option.some_or] at hcontent
    rcases run_stores h op b (List.mem_of_getLast? hlast) with ⟨rfl, rfl⟩ | ⟨hop, hb⟩
    · have hst := begin_blank hal.slot hal.hasLoad hal.minCap_le hcontent hbegin
      rw [ShippedHal.blank_eq] at hst
      refine ⟨fun hserves hcleared => ?_, fun hgood op b heq => ?_⟩
      · exact hst.mp ((hserves _ _ hlast).1 rfl) hcleared.1
      · rw [hlast, Option.some.injEq, Prod.mk.injEq] at heq
        obtain ⟨rfl, rfl⟩ := heq
        exact ⟨fun _ => hst.mpr fun hesp => hgood ⟨hesp, [], hlast⟩, fun hne => absurd rfl hne⟩
    · refine iff_of_true (fun op' b' heq => ?_) fun hcleared => ?_
      · rw [hlast, Option.some.injEq, Prod.mk.injEq] at heq
        obtain ⟨rfl, rfl⟩ := heq
        exact ⟨fun heq => absurd heq hop, fun _ => ⟨hb.length,
          begin_stored hal.slot hal.hasLoad hal.minCap_le hb hcontent hbegin⟩⟩
      · obtain ⟨-, b', hb'⟩ := hcleared
        rw [hlast] at hb'
        cases hb'
        exact hop rfl

/-- **When the three backends implement the same slot.** -/
theorem slots_agree (hal : ShippedHal) :
    (∀ cr cfg w ls w', Run (Step cr cfg (some hal.mask) hal.env) w ls w' →
      ∀ cr' cfg' devid mem s t st l s', hal.Rebooted w'.hal s →
        Prog.Exec (bridgeEnv cr' cfg' (some hal.mask) hal.env)
          ((License.new devid mem).begin (some hal.mask)) s t (st, l) s' →
        (BeginServes ls st t ↔ ¬ (hal = .esp32 ∧ EndsCleared ls))) ∧
    (∀ cap s s₁ r s₂, hal.env (.blobStore []) s .ok s₁ → hal.env (.blobLoad cap) s₁ r s₂ →
      (r.1 = .errNotFound ↔ hal ≠ .esp32 ∧ hal.minCap ≤ cap)) ∧
    ∀ b s s₁ r s₂, Canonical b → hal.env (.blobStore b) s .ok s₁ →
      hal.env (.blobLoad VL_BLOB_STR_BUF_LEN) s₁ r s₂ → r = (.ok, b) := by
  refine ⟨?_, ?_, ?_⟩
  · intro cr cfg w ls w' hrun cr' cfg' devid mem s t st l s' hreboot hbegin
    exact begin_serves_iff hrun hreboot hbegin
  · intro cap s s₁ r s₂ hstore hload
    rw [hal.slot.clear_load hstore hload]
    split
    · exact iff_of_false (by decide) fun h => absurd h.2 (Nat.not_le.mpr ‹_›)
    · rw [ShippedHal.blank_eq]
      exact (and_iff_left (Nat.le_of_not_lt ‹_›)).symm
  · intro b s s₁ r s₂ hb hstore hload
    exact hal.slot.store_load hb.storable hal.minCap_le (by rw [hb.length]; decide) hstore hload

end

/-! ## An RP2040 and an ESP32 -/

/-- The fixture's vendor key, no mark kept. -/
def plainConfig : VlConfig := { fixConfig with flags := 0 }

theorem plain_entitled :
    @entitled host64 fixCrypto plainConfig ShippedHal.rp2040.mask vltReadIdSegment
      (some FIX_BLOB_WINDOWED) = .ok L4.Mark.windowedLicense := by
  decide +kernel

/-- The object's calls on an RP2040. -/
abbrev plainEnv : Env BridgeCall.Resp L5.Rp2040.Page :=
  @bridgeEnv _ host64 fixCrypto (some plainConfig) (some ShippedHal.rp2040.mask)
    ShippedHal.rp2040.env

/-- Without a clock the fixture's blob is accepted whatever the flash holds. -/
theorem plain_verify (s : L5.Rp2040.Page) :
    plainEnv (.verify (some FIX_BLOB_WINDOWED)) s (.ok, L4.Mark.windowedLicense) s := by
  have hids : ∀ idx s, ShippedHal.rp2040.env (.readIdSegment idx) s (vltReadIdSegment idx) s :=
    fun idx s => ⟨[_], .call rfl (.ret _ _)⟩
  obtain ⟨t, hexec⟩ := @L4.Mark.exec_of_entitled host64 fixCrypto _ _ _ _ _ hids _
    (some VlLicense.zero) _ _ _ _ _ plain_entitled (.unchecked rfl (by decide))
  exact (@bridgeEnv_verify _ host64 ..).mpr ⟨_, hexec⟩

/-- The fixture's blob is activated and stored, whatever the flash held. -/
theorem plain_activate (s : L5.Rp2040.Page) : ∃ l s', ApplyStep plainEnv
    (some ShippedHal.rp2040.mask) (.text FIX_BLOB_WINDOWED) true
    (License.new (Vector.replicate 27 0) (Vector.replicate 161 0)) s
    [⟨.verify (some FIX_BLOB_WINDOWED), (.ok, L4.Mark.windowedLicense)⟩,
      ⟨.blobStore FIX_BLOB_WINDOWED.bytes, .ok⟩] .ok l s' := by
  obtain ⟨str, hstr, -, htake⟩ := @inForce_blobStr _ host64 _ _ _ _
    (License.new (Vector.replicate 27 0) (Vector.replicate 161 0)) (.text FIX_BLOB_WINDOWED) _ _ _
    (plain_verify s)
  obtain rfl := Option.some.inj hstr
  have hbytes := (htake.trans (congrArg CStr.bytes fix_canon)).symm
  obtain ⟨t, st, s', hput⟩ := Prog.exists_exec L5.Rp2040.flash_total
    (L5.Rp2040.blobStore FIX_BLOB_WINDOWED.bytes) s
  obtain rfl : st = .ok := by
    rcases L5.Rp2040.exec_blobStore hput with ⟨hlong, -, -⟩ | ⟨hok, -, -⟩
    · exact absurd hlong (by decide +kernel)
    · exact hok
  have hstore : plainEnv (.blobStore FIX_BLOB_WINDOWED.bytes) s .ok s' :=
    ⟨[_], .call ⟨t, hput⟩ (.ret _ _)⟩
  exact ⟨_, s', .persisted (plain_verify s) rfl rfl hbytes hstore⟩

/-- Activated on an erased page, and the same 160 characters verified after a reboot. -/
theorem slots_agree_activated : ∃ w ls w' t st l s',
    @Run _ _ (@Step _ host64 fixCrypto (some plainConfig) (some ShippedHal.rp2040.mask)
      ShippedHal.rp2040.env) w ls w' ∧
    ls.map Prod.fst = [.activate (.text FIX_BLOB_WINDOWED)] ∧
    Prog.Exec plainEnv ((License.new (Vector.replicate 27 0) (Vector.replicate 161 0)).begin
      (some ShippedHal.rp2040.mask)) w'.hal t (st, l) s' ∧
    ∃ str v, str.bytes = FIX_BLOB_WINDOWED.bytes ∧ st = v.1 ∧
      t = [⟨.blobLoad VL_BLOB_STR_BUF_LEN, (.ok, FIX_BLOB_WINDOWED.bytes)⟩,
        ⟨.verify (some str), v⟩] := by
  obtain ⟨l₁, page, happly⟩ := plain_activate (Vector.replicate L5.Rp2040.FLASH_PAGE_SIZE 0xFF)
  have hexec := @OpStep.exec _ _ _ _ _ _ _ _ host64 _ _
    (@OpStep.activate _ host64 _ _ _ _ _ _ _ _ _ happly)
  have hstep : @Step _ host64 fixCrypto (some plainConfig) (some ShippedHal.rp2040.mask)
      ShippedHal.rp2040.env
      (World.new (Vector.replicate 27 0) (Vector.replicate 161 0)
        (Vector.replicate L5.Rp2040.FLASH_PAGE_SIZE 0xFF))
      (.activate (.text FIX_BLOB_WINDOWED), _) ⟨l₁, page, _⟩ := ⟨rfl, _, hexec⟩
  have hanswers := Env.lower_total (Env.lower_total L5.Rp2040.flash_total L5.Rp2040.hal)
    (@BridgeCall.body host64 fixCrypto (some plainConfig) (some ShippedHal.rp2040.mask))
  obtain ⟨t, ⟨st, l⟩, s', hbegin⟩ := Prog.exists_exec hanswers
    ((License.new (Vector.replicate 27 0) (Vector.replicate 161 0)).begin
      (some ShippedHal.rp2040.mask)) page
  have hserves := ((@slots_agree host64 .rp2040).1 _ _ _ _ _ (.cons hstep (.nil _)) _ _ _ _ _ _ _ _ _ rfl
    hbegin).mpr fun hcleared => nomatch hcleared.1
  exact ⟨_, _, _, t, st, l, s', .cons hstep (.nil _), rfl, hbegin,
    ((hserves _ _ rfl).2 (by simp)).2⟩

/-- An ESP32 that holds the fixture's blob. -/
def heldFlash : L5.Esp32.BlobFlash := ⟨⟨some none, none⟩, some FIX_BLOB_WINDOWED, none, fun _ => rfl⟩

/-- The same after `clear()`. -/
def clearedFlash : L5.Esp32.BlobFlash :=
  ⟨⟨some none, none⟩, some ⟨[], by simp⟩, none, fun _ => rfl⟩

theorem esp32_clear : ShippedHal.esp32.env (.blobStore []) heldFlash .ok clearedFlash := by
  let set : L5.Esp32.BlobFlash :=
    ⟨⟨some none, none⟩, some FIX_BLOB_WINDOWED, some ⟨[], by simp⟩, fun _ => rfl⟩
  let committed : L5.Esp32.BlobFlash :=
    ⟨⟨some none, none⟩, some ⟨[], by simp⟩, some ⟨[], by simp⟩, fun _ => rfl⟩
  have hopen : L5.Esp32.nvsStr (.nvs (.nvsOpen .readwrite)) heldFlash .espOk heldFlash :=
    ⟨⟨.inl rfl, rfl⟩, rfl⟩
  have hset : L5.Esp32.nvsStr (.nvsSetStr (CStr.ofMem ([] ++ [0]))) heldFlash .espOk set :=
    ⟨rfl, rfl, rfl, rfl⟩
  have hcommit : L5.Esp32.nvsStr (.nvs .nvsCommit) set .espOk committed :=
    ⟨⟨⟨rfl, .inl ⟨rfl, fun _ => rfl⟩⟩, rfl⟩, rfl⟩
  have hclose : L5.Esp32.nvsStr (.nvs .nvsClose) committed () clearedFlash :=
    ⟨⟨rfl, trivial⟩, rfl⟩
  exact ⟨[_, _, _, _], .call hopen (.call hset (.call hcommit (.call hclose (.ret _ _))))⟩

/-- `begin()` after that `clear()` and a reboot: the empty string is found,
verified and refused as malformed. -/
theorem begin_cleared : ∃ t l,
    Prog.Exec (@bridgeEnv _ host64 fixCrypto (some fixConfig) (some ShippedHal.esp32.mask)
        ShippedHal.esp32.env)
      ((License.new (Vector.replicate 27 0) (Vector.replicate 161 0)).begin
        (some ShippedHal.esp32.mask)) clearedFlash t (.errBadFormat, l) clearedFlash := by
  have hopen : L5.Esp32.nvsStr (.nvs (.nvsOpen .readonly)) clearedFlash .espOk clearedFlash :=
    ⟨⟨⟨rfl, fun _ => rfl⟩, iff_of_true rfl rfl⟩, rfl⟩
  have hget : L5.Esp32.nvsStr (.nvsGetStr VL_BLOB_STR_BUF_LEN) clearedFlash (.espOk, [0], 1)
      clearedFlash := ⟨by decide, rfl⟩
  have hclose : L5.Esp32.nvsStr (.nvs .nvsClose) clearedFlash () clearedFlash :=
    ⟨⟨rfl, trivial⟩, rfl⟩
  have hload : @bridgeEnv _ host64 fixCrypto (some fixConfig) (some ShippedHal.esp32.mask)
      ShippedHal.esp32.env (.blobLoad VL_BLOB_STR_BUF_LEN) clearedFlash (.ok, []) clearedFlash :=
    ⟨[_], .call ⟨[_, _, _], .call hopen (.call hget (.call hclose (.ret _ _)))⟩ (.ret _ _)⟩
  have hverify : @bridgeEnv _ host64 fixCrypto (some fixConfig) (some ShippedHal.esp32.mask)
      ShippedHal.esp32.env (.verify (some (CStr.ofMem ([] ++ [0])))) clearedFlash
      (.errBadFormat, VlLicense.zero) clearedFlash :=
    @verify_empty_args _ host64 _ _ _ _ _ rfl _ _ _ rfl _
  have hop : @OpStep _ host64 (@bridgeEnv _ host64 fixCrypto (some fixConfig)
      (some ShippedHal.esp32.mask) ShippedHal.esp32.env) (some ShippedHal.esp32.mask)
      (License.new (Vector.replicate 27 0) (Vector.replicate 161 0)) .begin clearedFlash _ _ _ _ :=
    @OpStep.loaded _ host64 _ _ _ _ _ _ _ _ _ _ rfl hload (by decide)
      (.refused hverify (by decide))
  obtain ⟨⟨st, l⟩, hbegin, heq⟩ := exec_passed.mp (@OpStep.exec _ _ _ _ _ _ _ _ host64 _ _ hop)
  cases heq
  exact ⟨_, _, hbegin⟩

/-- **An ESP32 after `clear()`.** "Never activated" is what `begin()` should say. -/
theorem cleared_not_blank : ∃ w ls w' t l s',
    @Run _ _ (@Step _ host64 fixCrypto (some fixConfig) (some ShippedHal.esp32.mask)
      ShippedHal.esp32.env) w ls w' ∧
    ls = [(.clear, [⟨.blobStore [], .ok⟩])] ∧ ShippedHal.esp32.Rebooted w'.hal w'.hal ∧
    Prog.Exec (@bridgeEnv _ host64 fixCrypto (some fixConfig) (some ShippedHal.esp32.mask)
        ShippedHal.esp32.env)
      ((License.new (Vector.replicate 27 0) (Vector.replicate 161 0)).begin
        (some ShippedHal.esp32.mask)) w'.hal t (.errBadFormat, l) s' ∧
    ¬ BeginServes ls .errBadFormat t := by
  have hstore : @bridgeEnv _ host64 fixCrypto (some fixConfig) (some ShippedHal.esp32.mask)
      ShippedHal.esp32.env (.blobStore []) heldFlash .ok clearedFlash :=
    ⟨[_], .call esp32_clear (.ret _ _)⟩
  have hexec := @OpStep.exec _ _ _ _ _ _ _ _ host64 _ _
    (@OpStep.erased _ host64 _ (some ShippedHal.esp32.mask)
      (License.new (Vector.replicate 27 0) (Vector.replicate 161 0)) _ _ _ rfl hstore)
  have hstep : @Step _ host64 fixCrypto (some fixConfig) (some ShippedHal.esp32.mask)
      ShippedHal.esp32.env (World.new (Vector.replicate 27 0) (Vector.replicate 161 0) heldFlash)
      (.clear, _) ⟨_, clearedFlash, _⟩ := ⟨rfl, _, hexec⟩
  obtain ⟨t, l, hbegin⟩ := begin_cleared
  refine ⟨_, _, _, t, l, _, .cons hstep (.nil _), rfl, ⟨rfl, rfl⟩, hbegin, fun hserves => ?_⟩
  have hst := (hserves .clear [] rfl).1 rfl
  cases hst

end VectiLicense.L6
