import VectiLicense.L4Mark.Device
import VectiLicense.L6Bridge.Methods

/-!
# `License` fails closed

A run is any sequence of method calls on one object, over any HAL: every
callback may be missing, and a call that is made may be answered in any way.
`World.past` keeps the calls the object made, so that "the most recent blob
for which `vl_verify` returned `VL_OK`" can be read off it.

Every method restores `FailClosed` but one: `begin()` has three returns before
`_apply` (no `blob_load`, a failing `blob_load`, a length that does not fit)
that set `_status` and leave `_lic` and `_blob` as they are. On an object that
is `ok()` the licence stays behind.

* `closed_step`: one method, with `BeginVerifies` what it takes.
* `closed_iff`: a run stays closed exactly when no `begin()` on an `ok()`
  object returns early.
* `stale_after_begin`: a run that does not.
-/
namespace VectiLicense.L6

open VectiLicense.Core VectiLicense.L0 VectiLicense.L1.Base32 VectiLicense.L3
open VectiLicense.L4.Mark (vltReadIdSegment fixCrypto fixConfig vltHalFull FIX_BLOB_WINDOWED)

/-! ## Runs of one object -/

/-- The object, its HAL, and the calls made so far. -/
structure World (σ : Type) where
  obj : License
  hal : σ
  past : List BridgeEvent

section
variable {σ : Type} [Target]

/-- One method call; the label is the method and the calls it makes. -/
def Step (cr : Crypto) (cfg : Option VlConfig) (hal : Option HalMask) (env : Env HalCall.Resp σ)
    (w : World σ) (l : Op × List BridgeEvent) (w' : World σ) : Prop :=
  w'.past = w.past ++ l.2 ∧
    ∃ ret, Prog.Exec (bridgeEnv cr cfg hal env) (l.1.run hal w.obj) w.hal l.2 (ret, w'.obj) w'.hal

end

/-- An accepting `verify`: the blob, and the licence handed out. -/
def accepted? : BridgeEvent → Option (CStr × VlLicense)
  | ⟨.verify (some s), (.ok, lic)⟩ => some (s, lic)
  | _ => none

/-- The most recent blob for which `vl_verify` returned `VL_OK`. -/
def lastAccepted (past : List BridgeEvent) : Option (CStr × VlLicense) :=
  (past.filterMap accepted?).getLast?

/-- Without a licence in force nothing is held; with one, what is held is the
last accepted blob, in canonical spelling, and its licence. -/
structure FailClosed (l : License) (past : List BridgeEvent) : Prop where
  closed : l.ok = false → l.blobStr.bytes = [] ∧ l.lic = VlLicense.zero ∧ l.license = none ∧
    (∀ bit, l.feature bit = false) ∧ l.checked = 0
  held : l.ok = true → ∃ s lic, lastAccepted past = some (s, lic) ∧ l.lic = lic ∧
    l.license = some lic ∧ l.blobStr.bytes = norm s.bytes

/-- A `begin()` on an `ok()` object gets as far as `_apply`: there is a
`blob_load`, and it answers `VL_OK` with a length that fits. -/
def BeginVerifies {σ : Type} (w : World σ) (l : Op × List BridgeEvent) : Prop :=
  l.1 = .begin → w.obj.ok = true → ∃ bytes rest,
    l.2 = ⟨.blobLoad VL_BLOB_STR_BUF_LEN, (.ok, bytes)⟩ :: rest ∧
      bytes.length < VL_BLOB_STR_BUF_LEN

/-! ## What closes, and what keeps -/

theorem closed_of_blank {l : License} {past : List BridgeEvent} (hst : l.ok = false)
    (hblob : l.blobStr.bytes = []) (hlic : l.lic = VlLicense.zero) : FailClosed l past where
  closed := fun _ => ⟨hblob, hlic, by simp [License.license, hst], fun bit => by
    simp [License.feature, hst], by simp [License.checked, hst]⟩
  held := fun h => by rw [hst] at h; cases h

theorem closed_of_held {l : License} {past : List BridgeEvent} (hst : l.ok = true) {s : CStr}
    {lic : VlLicense} (hlast : lastAccepted past = some (s, lic)) (hlic : l.lic = lic)
    (hblob : l.blobStr.bytes = norm s.bytes) : FailClosed l past where
  closed := fun h => by rw [hst] at h; cases h
  held := fun _ => ⟨s, lic, hlast, hlic, by simp [License.license, hst, hlic], hblob⟩

/-- Fields outside the verdict, and calls that accept nothing, do not matter. -/
theorem FailClosed.frame {l l' : License} {past t : List BridgeEvent} (h : FailClosed l past)
    (hst : l'.status = l.status) (hlic : l'.lic = l.lic) (hblob : l'.blob = l.blob)
    (ht : t.filterMap accepted? = []) : FailClosed l' (past ++ t) := by
  have hok : l'.ok = l.ok := by rw [License.ok, License.ok, hst]
  have hstr : l'.blobStr = l.blobStr := by rw [License.blobStr, License.blobStr, hblob]
  have hlast : lastAccepted (past ++ t) = lastAccepted past := by
    rw [lastAccepted, List.filterMap_append, ht, List.append_nil, lastAccepted]
  cases hcase : l.ok with
  | false =>
    obtain ⟨hbytes, hzero, -⟩ := h.closed hcase
    exact closed_of_blank (hok.trans hcase) (by rw [hstr]; exact hbytes) (hlic.trans hzero)
  | true =>
    obtain ⟨s, lic, hl, hheld, -, hbytes⟩ := h.held hcase
    exact closed_of_held (hok.trans hcase) (hlast.trans hl) (hlic.trans hheld)
      (by rw [hstr]; exact hbytes)

theorem FailClosed.inbox {l : License} {past : List BridgeEvent} (h : FailClosed l past)
    (pending : CharArray 224) (pendingFlag : Bool) :
    FailClosed { l with pending, pendingFlag } past := by
  have hframe : FailClosed { l with pending, pendingFlag } (past ++ []) :=
    h.frame rfl rfl rfl rfl
  rwa [List.append_nil] at hframe

theorem refused_blobStr (l : License) (st : VlStatus) : (l.refused st).blobStr.bytes = [] :=
  CharArray.str_terminate (by decide) (by simp)

theorem closed_refused {l : License} {st : VlStatus} (hst : st ≠ .ok)
    (past : List BridgeEvent) : FailClosed (l.refused st) past :=
  closed_of_blank (by simp [License.ok, License.refused, hst]) (refused_blobStr l st) rfl

section
variable {σ : Type} [Target] {cr : Crypto} {cfg : Option VlConfig} {hal : Option HalMask}
  {env : Env HalCall.Resp σ}

theorem inForce_blobStr {l : License} {blob : BlobArg} {lic : VlLicense} {s s' : σ}
    (h : bridgeEnv cr cfg hal env (.verify (blob.str l.blob)) s (.ok, lic) s') :
    ∃ str, blob.str l.blob = some str ∧ (l.inForce blob lic).blobStr.bytes = norm str.bytes ∧
      (l.inForce blob lic).blob.mem.toList.take (canonicalise blob l.blob).1 = norm str.bytes := by
  obtain ⟨str, c, m, b, hstr, -, -, -, hlen, -⟩ := verify_accepted h
  obtain ⟨hblob, htake⟩ := canonicalise_spec hstr
  rw [List.take_of_length_le (Nat.le_of_eq hlen)] at hblob htake
  exact ⟨str, hstr, hblob, htake⟩

/-- What `_apply` hands to `blob_store`: the canonical 160 characters. -/
theorem persisted_bytes {l : License} {blob : BlobArg} {lic : VlLicense} {s s' : σ}
    {bytes : List UInt8} (h : bridgeEnv cr cfg hal env (.verify (blob.str l.blob)) s (.ok, lic) s')
    (hb : bytes = (l.inForce blob lic).blob.mem.toList.take (canonicalise blob l.blob).1) :
    ∃ str, blob.str l.blob = some str ∧ bytes = (canon str).bytes ∧ bytes.length = 160 := by
  obtain ⟨str, hstr, -, htake⟩ := inForce_blobStr h
  obtain ⟨str', _, _, _, hstr', -, -, -, hlen, -⟩ := verify_accepted h
  rw [hstr, Option.some.injEq] at hstr'
  subst hstr'
  rw [htake] at hb
  exact ⟨str, hstr, hb, by rw [hb]; exact hlen⟩

/-- `_apply` restores the invariant whatever was held before. -/
theorem closed_apply {blob : BlobArg} {persist : Bool} {l l' : License} {s s' : σ}
    {t : List BridgeEvent} {st : VlStatus}
    (h : ApplyStep (bridgeEnv cr cfg hal env) hal blob persist l s t st l' s')
    (past : List BridgeEvent) : FailClosed l' (past ++ t) := by
  have haccept : ∀ {str : CStr} {lic : VlLicense} {t' : List BridgeEvent},
      t'.filterMap accepted? = [] →
      lastAccepted (past ++ ⟨.verify (some str), (.ok, lic)⟩ :: t') = some (str, lic) := by
    intro str lic t' ht'
    rw [lastAccepted, List.filterMap_append, List.filterMap_cons, ht']
    simp only [accepted?, List.getLast?_append, List.getLast?_singleton, Option.some_or]
  cases h with
  | refused _ hne => exact closed_refused hne _
  | held hv _ =>
    obtain ⟨str, hstr, hblob, -⟩ := inForce_blobStr hv
    rw [hstr]
    exact closed_of_held rfl (haccept rfl) rfl hblob
  | persisted hv _ _ _ _ =>
    obtain ⟨str, hstr, hblob, -⟩ := inForce_blobStr hv
    rw [hstr]
    exact closed_of_held rfl (haccept rfl) rfl hblob

/-- Accepted licences are not blank. -/
def Sound (past : List BridgeEvent) : Prop :=
  ∀ ev ∈ past, ∀ s lic, accepted? ev = some (s, lic) → lic.version = 1

theorem sound_step {w w' : World σ} {l : Op × List BridgeEvent} (h : Step cr cfg hal env w l w')
    (hs : Sound w.past) : Sound w'.past := by
  obtain ⟨hpast, ret, hexec⟩ := h
  rw [hpast]
  refine List.forall_mem_append.mpr ⟨hs, fun ev hev s lic hacc => ?_⟩
  obtain ⟨s₁, s₂, henv⟩ := hexec.answered ev hev
  obtain ⟨e, r⟩ := ev
  unfold accepted? at hacc
  split at hacc
  · rename_i heq
    cases heq
    cases hacc
    obtain ⟨_, c, m, b, _, -, -, -, -, hversion, hlic⟩ := verify_accepted henv
    rw [hlic]
    exact hversion
  · cases hacc

omit [Target] in
theorem lastAccepted_version {past : List BridgeEvent} (hs : Sound past) {s : CStr}
    {lic : VlLicense} (h : lastAccepted past = some (s, lic)) : lic.version = 1 := by
  obtain ⟨ev, hev, hacc⟩ := List.mem_filterMap.mp (List.mem_of_getLast? h)
  exact hs ev hev s lic hacc

omit [Target] in
/-- A status change alone is closed exactly on an object that holds nothing. -/
theorem closed_status {l : License} {past : List BridgeEvent} (hc : FailClosed l past)
    (hs : Sound past) {st : VlStatus} (hst : st ≠ .ok) (t : List BridgeEvent) :
    FailClosed { l with status := st } (past ++ t) ↔ l.ok = false := by
  have hno : License.ok { l with status := st } = false := by simp [License.ok, hst]
  refine ⟨?_, ?_⟩
  · intro h
    obtain ⟨-, hzero, -⟩ := h.closed hno
    by_contra hok
    rw [Bool.not_eq_false] at hok
    obtain ⟨s, lic, hlast, hheld, -⟩ := hc.held hok
    have hversion := lastAccepted_version hs hlast
    rw [← hheld, show l.lic = VlLicense.zero from hzero] at hversion
    revert hversion
    decide
  · intro hok
    obtain ⟨hbytes, hzero, -⟩ := hc.closed hok
    exact closed_of_blank hno hbytes hzero

theorem closed_step {w w' : World σ} {l : Op × List BridgeEvent} (h : Step cr cfg hal env w l w')
    (hs : Sound w.past) (hc : FailClosed w.obj w.past) :
    FailClosed w'.obj w'.past ↔ BeginVerifies w l := by
  obtain ⟨op, t⟩ := l
  obtain ⟨obj, s, past⟩ := w
  obtain ⟨obj', s', past'⟩ := w'
  obtain ⟨hpast, ret, hexec⟩ := h
  dsimp only at hpast hexec hs hc ⊢
  subst hpast
  have hnot : ∀ {rest}, (∀ bytes rest', rest = ⟨BridgeCall.blobLoad VL_BLOB_STR_BUF_LEN,
      (VlStatus.ok, bytes)⟩ :: rest' → VL_BLOB_STR_BUF_LEN ≤ bytes.length) →
      (BeginVerifies (⟨obj, s, past⟩ : World σ) (.begin, rest) ↔ obj.ok = false) := by
    intro rest hearly
    refine ⟨?_, ?_⟩
    · intro hb
      by_contra hok
      rw [Bool.not_eq_false] at hok
      obtain ⟨bytes, rest', heq, hlt⟩ := hb rfl hok
      exact absurd hlt (Nat.not_lt.mpr (hearly bytes rest' heq))
    · intro hok _ hok'
      rw [hok] at hok'
      cases hok'
  have hother : op ≠ .begin → BeginVerifies (⟨obj, s, past⟩ : World σ) (op, t) := fun hne heq =>
    absurd heq hne
  cases exec_op hexec with
  | noLoad =>
    rw [hnot (by simp)]
    exact closed_status hc hs (by decide) _
  | loadFailed _ _ hne =>
    rw [hnot fun bytes rest heq => absurd (by simp at heq; exact heq.1.1) hne]
    exact closed_status hc hs hne _
  | loadTooLong _ _ hlong =>
    rw [hnot fun bytes rest heq => by simp at heq; rw [← heq.1]; exact hlong]
    exact closed_status hc hs (by decide) _
  | loaded _ _ hlt happly =>
    rw [List.append_cons]
    exact iff_of_true (closed_apply happly _) fun _ _ => ⟨_, _, rfl, hlt⟩
  | activate happly => exact iff_of_true (closed_apply happly _) (hother (by simp))
  | submit =>
    obtain ⟨hst, hlic, hblob⟩ := submit_frame obj ‹_›
    exact iff_of_true (hc.frame hst hlic hblob rfl) (hother (by simp))
  | idle => exact iff_of_true (hc.frame rfl rfl rfl rfl) (hother (by simp))
  | pumped _ happly =>
    exact iff_of_true ((closed_apply happly past).inbox _ _) (hother (by simp))
  | cleared => exact iff_of_true (closed_refused (by decide) _) (hother (by simp))
  | erased => exact iff_of_true (closed_refused (by decide) _) (hother (by simp))
  | deviceId hid =>
    obtain ⟨hst, hlic, hblob, -, -, hcalls⟩ := deviceId_frame hid
    refine iff_of_true (hc.frame hst hlic hblob ?_) (hother (by simp))
    refine List.filterMap_eq_nil_iff.mpr fun ev hev => ?_
    obtain ⟨e, r⟩ := ev
    obtain rfl : e = .computeFingerprint := hcalls _ hev
    rfl

/-- An object as constructed, before any call. -/
def World.new (devid : Buf 27) (blob : Buf 161) (s : σ) : World σ := ⟨License.new devid blob, s, []⟩

omit [Target] in
theorem closed_new (devid : Buf 27) (blob : Buf 161) (past : List BridgeEvent) :
    FailClosed (License.new devid blob) past :=
  closed_of_blank (by simp [License.ok, License.new])
    (CharArray.str_terminate (by decide) (by simp)) rfl

/-- **When a `License` fails closed.** A run of methods that meet
`BeginVerifies` reaches closed states only; and from there a method keeps the
object closed exactly when it meets `BeginVerifies` too. -/
theorem closed_iff {devid : Buf 27} {blob : Buf 161} {s : σ} {ls : List (Op × List BridgeEvent)}
    {w : World σ}
    (h : Run (fun w l w' => Step cr cfg hal env w l w' ∧ BeginVerifies w l)
      (World.new devid blob s) ls w) :
    FailClosed w.obj w.past ∧
      ∀ l w', Step cr cfg hal env w l w' → (FailClosed w'.obj w'.past ↔ BeginVerifies w l) := by
  have hinv : Sound w.past ∧ FailClosed w.obj w.past := by
    refine h.inv (I := fun w => Sound w.past ∧ FailClosed w.obj w.past) (fun w l w' hstep hw => ?_)
      ⟨by simp [Sound, World.new], closed_new devid blob []⟩
    exact ⟨sound_step hstep.1 hw.1, (closed_step hstep.1 hw.1 hw.2).mpr hstep.2⟩
  exact ⟨hinv.2, fun l w' hstep => closed_step hstep hinv.1 hinv.2⟩

end

/-! ## On the test suite's device -/

/-- The fixture's device with the clock inside the window; the blob callbacks
may answer anything. -/
abbrev fixEnv : Env HalCall.Resp UInt32 :=
  L4.Mark.devEnv False vltReadIdSegment (.ok, 1750000000)

/-- `FIX_BLOB_WINDOWED` is accepted, and answers with this licence. -/
def fixLicense : VlLicense := { L4.Mark.windowedLicense with checked := 0x17 }

/-- A clock inside the window, at or behind which the mark is. -/
theorem fix_verify {now mark : UInt32}
    (h : L4.Mark.expected L4.Mark.windowedLicense (.ok, now) mark = (.ok fixLicense, now)) :
    @bridgeEnv _ host64 fixCrypto (some fixConfig) (some vltHalFull)
      (L4.Mark.devEnv False vltReadIdSegment (.ok, now)) (.verify (some FIX_BLOB_WINDOWED)) mark
      (.ok, fixLicense) now := by
  obtain ⟨t, ht⟩ := @L4.Mark.timeStep_of_expected fixConfig vltHalFull vltReadIdSegment
    L4.Mark.vltHalFull_enforced (.ok, now) L4.Mark.windowedLicense mark
  rw [h] at ht
  obtain ⟨t₁, hexec⟩ := @L4.Mark.exec_of_entitled host64 fixCrypto _ _ _ _ _
    (fun _ _ => ⟨rfl, rfl⟩) _ (some VlLicense.zero) _ _ _ _ _ L4.Mark.windowed_entitled ht
  exact (@bridgeEnv_verify _ host64 ..).mpr ⟨_, hexec⟩

/-- The object after activating the fixture's blob. -/
def fixActivated : License :=
  (License.new (Vector.replicate 27 0) (Vector.replicate 161 0)).inForce (.text FIX_BLOB_WINDOWED)
    fixLicense

/-- Activating the fixture's blob, with `blob_store` answering `stored`. -/
theorem fix_activate (stored : VlStatus) : ∃ l, l.1 = Op.activate (.text FIX_BLOB_WINDOWED) ∧
    @Step _ host64 fixCrypto (some fixConfig) (some vltHalFull) fixEnv
      (World.new (Vector.replicate 27 0) (Vector.replicate 161 0) 1750000000) l
      ⟨fixActivated, 1750000000, l.2⟩ := by
  have hstore : ∀ bytes, @bridgeEnv _ host64 fixCrypto (some fixConfig) (some vltHalFull) fixEnv
      (.blobStore bytes) 1750000000 stored 1750000000 := fun bytes => ⟨[_], .call rfl (.ret _ _)⟩
  have happly : ApplyStep (@bridgeEnv _ host64 fixCrypto (some fixConfig) (some vltHalFull) fixEnv)
      (some vltHalFull) (.text FIX_BLOB_WINDOWED) true
      (License.new (Vector.replicate 27 0) (Vector.replicate 161 0)) 1750000000 _ _ fixActivated
      1750000000 := .persisted (fix_verify (by decide)) rfl rfl rfl (hstore _)
  have hexec := @OpStep.exec _ _ _ _ _ _ _ _ host64 _ _
    (@OpStep.activate _ host64 _ _ _ _ _ _ _ _ _ happly)
  exact ⟨(_, _), rfl, rfl, _, hexec⟩

theorem fix_fits : FIX_BLOB_WINDOWED.bytes.length < VL_BLOB_STR_BUF_LEN := by decide +kernel

/-- `begin()` on that object, when `blob_load` answers with the fixture's blob. -/
theorem fix_begin (past : List BridgeEvent) : ∃ t,
    @Step _ host64 fixCrypto (some fixConfig) (some vltHalFull) fixEnv
      ⟨fixActivated, 1750000000, past⟩
      (.begin, ⟨.blobLoad VL_BLOB_STR_BUF_LEN, (.ok, FIX_BLOB_WINDOWED.bytes)⟩ :: t)
      ⟨fixActivated.inForce (.text FIX_BLOB_WINDOWED) fixLicense, 1750000000,
        past ++ ⟨.blobLoad VL_BLOB_STR_BUF_LEN, (.ok, FIX_BLOB_WINDOWED.bytes)⟩ :: t⟩ := by
  have hload : @bridgeEnv _ host64 fixCrypto (some fixConfig) (some vltHalFull) fixEnv
      (.blobLoad VL_BLOB_STR_BUF_LEN) 1750000000 (.ok, FIX_BLOB_WINDOWED.bytes) 1750000000 :=
    ⟨[_], .call rfl (.ret _ _)⟩
  have happly : ApplyStep (@bridgeEnv _ host64 fixCrypto (some fixConfig) (some vltHalFull) fixEnv)
      (some vltHalFull) (.text FIX_BLOB_WINDOWED) false fixActivated 1750000000 _ _
      (fixActivated.inForce (.text FIX_BLOB_WINDOWED) fixLicense) 1750000000 :=
    .held (fix_verify (by decide)) (by simp)
  rw [← CStr.ofMem_append FIX_BLOB_WINDOWED []] at happly
  have hexec := @OpStep.exec _ _ _ _ _ _ _ _ host64 _ _
    (@OpStep.loaded _ host64 _ _ _ _ _ _ _ _ _ _ rfl hload fix_fits happly)
  rw [CStr.ofMem_append] at hexec
  exact ⟨_, rfl, _, hexec⟩

/-- Activated, then a `begin()` that finds the blob stored: closed. -/
theorem closed_iff_activated : ∃ t u w,
    @Run _ _ (@Step _ host64 fixCrypto (some fixConfig) (some vltHalFull) fixEnv)
      (World.new (Vector.replicate 27 0) (Vector.replicate 161 0) 1750000000)
      [(.activate (.text FIX_BLOB_WINDOWED), t),
        (.begin, ⟨.blobLoad VL_BLOB_STR_BUF_LEN, (.ok, FIX_BLOB_WINDOWED.bytes)⟩ :: u)] w ∧
    w.obj.ok = true ∧ w.obj.lic = fixLicense ∧ FailClosed w.obj w.past := by
  obtain ⟨⟨op, t⟩, hl, hstep⟩ := fix_activate .ok
  obtain rfl : op = .activate (.text FIX_BLOB_WINDOWED) := hl
  obtain ⟨u, hbegin⟩ := fix_begin t
  have hverifies : BeginVerifies (⟨fixActivated, 1750000000, t⟩ : World UInt32)
      (.begin, ⟨.blobLoad VL_BLOB_STR_BUF_LEN, (.ok, FIX_BLOB_WINDOWED.bytes)⟩ :: u) :=
    fun _ _ => ⟨_, _, rfl, fix_fits⟩
  have hclosed := (@closed_iff _ host64 _ _ _ _ _ _ _ _ _
    (.cons ⟨hstep, nofun⟩ (.cons ⟨hbegin, hverifies⟩ (.nil _)))).1
  exact ⟨t, u, _, .cons hstep (.cons hbegin (.nil _)), rfl, rfl, hclosed⟩

/-- The flash refuses to store an accepted blob; then `begin()` finds nothing
stored. The object is no longer `ok()`, and holds the licence and the blob. -/
theorem stale_after_begin : ∃ ls w,
    @Run _ _ (@Step _ host64 fixCrypto (some fixConfig) (some vltHalFull) fixEnv)
      (World.new (Vector.replicate 27 0) (Vector.replicate 161 0) 1750000000) ls w ∧
    ls.map Prod.fst = [.activate (.text FIX_BLOB_WINDOWED), .begin] ∧
    w.obj.status = .errNotFound ∧ w.obj.lic = fixLicense ∧ ¬ FailClosed w.obj w.past := by
  obtain ⟨l, hl, hstep⟩ := fix_activate .errPlatform
  have hload : @bridgeEnv _ host64 fixCrypto (some fixConfig) (some vltHalFull) fixEnv
      (.blobLoad VL_BLOB_STR_BUF_LEN) 1750000000 (.errNotFound, []) 1750000000 :=
    ⟨[_], .call rfl (.ret _ _)⟩
  have hexec := @OpStep.exec _ _ (some vltHalFull) fixActivated _ _ _ _ host64 _ _
    (@OpStep.loadFailed _ host64 _ _ _ _ _ _ _ rfl hload (by decide))
  have hbegin : @Step _ host64 fixCrypto (some fixConfig) (some vltHalFull) fixEnv
      ⟨fixActivated, 1750000000, l.2⟩
      (.begin, [⟨.blobLoad VL_BLOB_STR_BUF_LEN, (.errNotFound, [])⟩])
      ⟨{ fixActivated with status := .errNotFound }, 1750000000, _⟩ := ⟨rfl, _, hexec⟩
  refine ⟨_, _, .cons hstep (.cons hbegin (.nil _)), by simp [hl], rfl, rfl, fun hclosed => ?_⟩
  have hzero : fixLicense = VlLicense.zero := (hclosed.closed rfl).2.1
  revert hzero
  decide

end VectiLicense.L6
