import VectiLicense.L3Verify.Fingerprint
import VectiLicense.L6Bridge.Methods

/-!
# Does the captive portal drop a paste?

The portal of `bridge/vl_bridge_net.h` polls: `loop()` reads the value of its
form field and compares it with the value it has read last. The value is
remembered before `License::submit` is asked to take it, so a paste that is
refused, because another bridge got there first, is never offered again.

A run is any sequence of saves, polls and methods of the one `License`, over
any HAL. `paramValue` copies under a mutex and a save touches nothing else, so
a save that falls into a `loop()` is one right after it, and a submission
that falls into it one right before it.

* `submit_taken_iff`, `submit_holds`: what `submit` takes, and where it puts it.
* `delivers_step`: one step, with `Offered` what it takes.
* `portal_delivers`: a run keeps every paste due exactly while its steps are
  `Offered`.
* `paste_dropped`: a run that loses one.
-/
namespace VectiLicense.L6

open VectiLicense.Core VectiLicense.L0 VectiLicense.L1.Base32 VectiLicense.L3

/-! ## The portal -/

/-- `_last`; `_prefix` names the field and never changes.
mirrors bridge/vl_bridge_net.h:117-120 -/
structure NetLicensePortal where
  last : List UInt8
  deriving DecidableEq

/-- `v` is what `paramValue` returns.
mirrors bridge/vl_bridge_net.h:109-114 -/
def NetLicensePortal.loop (v : List UInt8) (lic : License) (p : NetLicensePortal) :
    Bool × License × NetLicensePortal :=
  if v.length = 0 ∨ v = p.last then (false, lic, p)
  else
    let p := { p with last := v }
    let (ret, lic) := lic.submit (some v)
    (ret, lic, p)

theorem loop_read {v : List UInt8} {lic : License} {p : NetLicensePortal}
    (h : ¬ (v.length = 0 ∨ v = p.last)) :
    p.loop v lic = ((lic.submit (some v)).1, (lic.submit (some v)).2, ⟨v⟩) := if_neg h

/-! ## Runs -/

/-- What matters of the past for a saved value. -/
inductive PortalEvent where
  | saved (v : List UInt8)
  | accepted (v : List UInt8)
  deriving DecidableEq

/-- `past` has the newest event first. -/
structure PortalWorld (σ : Type) where
  saved : List UInt8
  portal : NetLicensePortal
  obj : License
  hal : σ
  past : List PortalEvent

inductive PortalCall where
  | save (v : List UInt8)
  | loop
  | method (op : Op)
  deriving DecidableEq

/-- The data a method has `submit` accept. -/
def Op.accepts (l : License) : Op → List PortalEvent
  | .submit (some data) => if (l.submit (some data)).1 then [.accepted data] else []
  | _ => []

section
variable {σ : Type} [Target]

/-- One step: of the operator, of the portal, or of the owner of the object
and the other bridges. -/
inductive PortalStep (cr : Crypto) (cfg : Option VlConfig) (hal : Option HalMask)
    (env : Env HalCall.Resp σ) (w : PortalWorld σ) : PortalCall → PortalWorld σ → Prop where
  | save (v : List UInt8) :
      PortalStep cr cfg hal env w (.save v) { w with saved := v, past := .saved v :: w.past }
  | loop {ret : Bool} {obj : License} {portal : NetLicensePortal} :
      w.portal.loop w.saved w.obj = (ret, obj, portal) →
      PortalStep cr cfg hal env w .loop
        { w with obj, portal, past := if ret then .accepted w.saved :: w.past else w.past }
  | method {op : Op} {t : List BridgeEvent} {ret : Option VlStatus} {obj : License} {s' : σ} :
      Prog.Exec (bridgeEnv cr cfg hal env) (op.run hal w.obj) w.hal t (ret, obj) s' →
      PortalStep cr cfg hal env w (.method op)
        { w with obj, hal := s', past := op.accepts w.obj ++ w.past }

end

/-- `License::submit` has accepted `v` since the last save. -/
def AcceptedSince (v : List UInt8) : List PortalEvent → Prop
  | [] => False
  | .saved _ :: _ => False
  | .accepted u :: past => u = v ∨ AcceptedSince v past

/-- The saved value fits the inbox, and no submission of it was accepted. -/
structure Due {σ : Type} (w : PortalWorld σ) : Prop where
  nonempty : w.saved ≠ []
  fits : w.saved.length < VL_BRIDGE_BLOB_MAX
  waiting : ¬ AcceptedSince w.saved w.past

/-- The inbox of `l` holds `data`, closed with a NUL. -/
structure HoldsSubmission (l : License) (data : List UInt8) : Prop where
  flag : l.pendingFlag = true
  bytes : l.pending.mem.toList.take (data.length + 1) = data ++ [0]

/-- A `loop()` with no submission pending, whatever the object has come
through before it, submits the saved value where that is due. -/
def Delivers {σ : Type} (w : PortalWorld σ) : Prop :=
  Due w → ∀ obj : License, obj.pendingFlag = false →
    (w.portal.loop w.saved obj).1 = true ∧
      HoldsSubmission (w.portal.loop w.saved obj).2.1 w.saved

/-- A value that fits is saved only over another one than the portal has read
last, and a value that is due is read only with no submission pending. -/
def Offered {σ : Type} (w : PortalWorld σ) : PortalCall → Prop
  | .save v => v.length < VL_BRIDGE_BLOB_MAX → v ≠ [] → v ≠ w.portal.last
  | .loop => Due w → w.obj.pendingFlag = false
  | .method _ => True

/-! ## The inbox -/

theorem submit_taken_iff {l : License} {data : List UInt8} :
    (l.submit (some data)).1 = true ↔
      data ≠ [] ∧ data.length < VL_BRIDGE_BLOB_MAX ∧ l.pendingFlag = false := by
  unfold License.submit
  dsimp only
  split
  · rename_i hbad
    refine iff_of_false (by simp) fun h => ?_
    rcases hbad with h0 | hlong
    · exact h.1 (List.eq_nil_of_length_eq_zero h0)
    · exact Nat.not_le.mpr h.2.1 hlong
  rename_i hfit
  have hne : data ≠ [] := fun h0 => hfit (.inl (by rw [h0]; rfl))
  have hlt : data.length < VL_BRIDGE_BLOB_MAX := Nat.lt_of_not_le fun hle => hfit (.inr hle)
  split
  · rename_i hflag
    exact iff_of_false (by simp) fun h => by rw [h.2.2] at hflag; cases hflag
  · rename_i hflag
    exact iff_of_true rfl ⟨hne, hlt, by simpa using hflag⟩

theorem submit_holds {l : License} {data : List UInt8} (h : (l.submit (some data)).1 = true) :
    HoldsSubmission (l.submit (some data)).2 data := by
  obtain ⟨hne, hlt, hflag⟩ := submit_taken_iff.mp h
  have hpos : data.length ≠ 0 := fun h0 => hne (List.eq_nil_of_length_eq_zero h0)
  unfold License.submit
  dsimp only
  rw [dif_neg (show ¬ (data.length = 0 ∨ data.length ≥ VL_BRIDGE_BLOB_MAX) by omega),
    if_neg (by simp [hflag])]
  refine ⟨rfl, ?_⟩
  simp only [CharArray.terminate, Vector.toList_set]
  have hlen : data.length < (l.pending.mem.copyFront data (Nat.le_of_lt hlt)).toList.length := by
    rw [Vector.length_toList]
    exact hlt
  rw [List.take_add_one, List.take_set_of_le (Nat.le_refl _), List.getElem?_set_self hlen,
    Buf.copyFront_toList, List.take_left' rfl]
  rfl

/-! ## What a step keeps -/

/-- The portal has what is due still before it. -/
theorem delivers_iff {σ : Type} {w : PortalWorld σ} :
    Delivers w ↔ (Due w → w.saved ≠ w.portal.last) := by
  refine ⟨?_, ?_⟩
  · intro h hdue hlast
    have hret := (h hdue (License.new (Vector.replicate 27 0) (Vector.replicate 161 0)) rfl).1
    rw [NetLicensePortal.loop, if_pos (.inr hlast)] at hret
    cases hret
  · intro h hdue obj hflag
    have hne : ¬ (w.saved.length = 0 ∨ w.saved = w.portal.last) := fun hor => hor.elim
      (fun h0 => hdue.nonempty (List.eq_nil_of_length_eq_zero h0)) (h hdue)
    rw [loop_read hne]
    have hret := submit_taken_iff.mpr ⟨hdue.nonempty, hdue.fits, hflag⟩
    exact ⟨hret, submit_holds hret⟩

section
variable {σ : Type} [Target] {cr : Crypto} {cfg : Option VlConfig} {hal : Option HalMask}
  {env : Env HalCall.Resp σ} {w w' : PortalWorld σ}

omit [Target] in
theorem AcceptedSince.method {v : List UInt8} {past : List PortalEvent} {l : License} {op : Op}
    (h : AcceptedSince v past) : AcceptedSince v (op.accepts l ++ past) := by
  cases op with
  | submit blob =>
    cases blob with
    | none => exact h
    | some data =>
      simp only [Op.accepts]
      split
      · exact .inr h
      · exact h
  | _ => exact h

/-- **One step.** From a state in which nothing due is lost, a step loses
nothing exactly when it is `Offered`. -/
theorem delivers_step {c : PortalCall} (h : PortalStep cr cfg hal env w c w') (hw : Delivers w) :
    Delivers w' ↔ Offered w c := by
  rw [delivers_iff] at hw ⊢
  cases h with
  | save v =>
    refine ⟨fun h hfit hne => h ⟨hne, hfit, id⟩, fun h hdue => h hdue.fits hdue.nonempty⟩
  | method =>
    exact iff_of_true (fun hdue => hw ⟨hdue.nonempty, hdue.fits, fun hacc =>
      hdue.waiting hacc.method⟩) trivial
  | loop hloop =>
    by_cases hskip : w.saved.length = 0 ∨ w.saved = w.portal.last
    · rw [NetLicensePortal.loop, if_pos hskip] at hloop
      cases hloop
      refine iff_of_true hw fun hdue => ?_
      rcases hskip with h0 | hlast
      · exact absurd (List.eq_nil_of_length_eq_zero h0) hdue.nonempty
      · exact absurd hlast (hw hdue)
    · rw [loop_read hskip] at hloop
      cases hret : (w.obj.submit (some w.saved)).1 with
      | false =>
        -- `_last` is the saved value now, though it was not taken
        rw [hret] at hloop
        cases hloop
        refine ⟨fun h hdue => absurd rfl (h ⟨hdue.nonempty, hdue.fits, hdue.waiting⟩),
          fun h hdue => ?_⟩
        have htaken := submit_taken_iff.mpr
          ⟨hdue.nonempty, hdue.fits, h ⟨hdue.nonempty, hdue.fits, hdue.waiting⟩⟩
        rw [hret] at htaken
        cases htaken
      | true =>
        rw [hret] at hloop
        cases hloop
        exact iff_of_true (fun hdue => absurd (.inl rfl) hdue.waiting) fun _ =>
          (submit_taken_iff.mp hret).2.2

/-- As started: `saved` is what the device keeps from before, `_last` is empty. -/
def PortalWorld.start (saved : List UInt8) (obj : License) (s : σ) : PortalWorld σ :=
  ⟨saved, ⟨[]⟩, obj, s, []⟩

omit [Target] in
theorem delivers_start (saved : List UInt8) (obj : License) (s : σ) :
    Delivers (PortalWorld.start saved obj s) := delivers_iff.mpr fun hdue => hdue.nonempty

/-- **When the portal drops no paste.** After a run of `Offered` steps a value
that is due is submitted by the next `loop()` with no submission pending; and
from there it stays so exactly over a step that is `Offered` too. -/
theorem portal_delivers {saved : List UInt8} {obj : License} {s : σ} {cs : List PortalCall}
    (h : Run (fun w c w' => PortalStep cr cfg hal env w c w' ∧ Offered w c)
      (PortalWorld.start saved obj s) cs w) :
    Delivers w ∧ ∀ c w', PortalStep cr cfg hal env w c w' → (Delivers w' ↔ Offered w c) := by
  have hw : Delivers w := h.inv (I := Delivers)
    (fun _ _ _ hstep hi => (delivers_step hstep.1 hi).mpr hstep.2) (delivers_start saved obj s)
  exact ⟨hw, fun c w' hstep => delivers_step hstep hw⟩

end

/-! ## One object, no HAL -/

/-- A `License` without a HAL, as constructed. -/
def bareLicense : License := License.new (Vector.replicate 27 0) (Vector.replicate 161 0)

/-- Another bridge has submitted `A`. -/
def busyLicense : License := (bareLicense.submit (some [0x41])).2

/-- `A` has been refused. -/
def idleLicense : License :=
  { busyLicense.refused .errInvalidArg with pending := zeroPending, pendingFlag := false }

theorem submit_busy (saved last : List UInt8) (past : List PortalEvent) :
    @PortalStep _ host64 blankCrypto none none failingHal.handler.env
      ⟨saved, ⟨last⟩, bareLicense, (), past⟩ (.method (.submit (some [0x41])))
      ⟨saved, ⟨last⟩, busyLicense, (), .accepted [0x41] :: past⟩ :=
  @PortalStep.method _ host64 _ _ _ _ _ (.submit _) _ _ _ _ (.ret _ _)

theorem pump_idle (saved last : List UInt8) (past : List PortalEvent) :
    @PortalStep _ host64 blankCrypto none none failingHal.handler.env
      ⟨saved, ⟨last⟩, busyLicense, (), past⟩ (.method .pump)
      ⟨saved, ⟨last⟩, idleLicense, (), past⟩ := by
  have hverify : @bridgeEnv _ host64 blankCrypto none none failingHal.handler.env
      (.verify (some (CStr.ofMem [0x41]))) () (.errInvalidArg, VlLicense.zero) () :=
    (@bridgeEnv_verify _ host64 ..).mpr ⟨_, Prog.exec_run failingHal.handler
      (@vlVerify host64 blankCrypto _ none none (some VlLicense.zero)) ()⟩
  have hrefused : ApplyStep (@bridgeEnv _ host64 blankCrypto none none failingHal.handler.env) none
      (.text (CStr.ofMem [0x41])) true busyLicense () _ _ _ () := .refused hverify (by decide)
  exact @PortalStep.method _ host64 blankCrypto none none failingHal.handler.env
    ⟨saved, ⟨last⟩, busyLicense, (), past⟩ .pump _ _ _ _ (@OpStep.exec _ _ _ _ _ _ _ _ host64 _ _
      (@OpStep.pumped _ host64 _ _ _ _ _ _ _ _ rfl hrefused))

/-- The operator saves `K` while `A` is in the inbox. After the `pump()`, `K`
is due and `loop()` takes it; then nothing is due. -/
theorem portal_delivers_paste : ∃ w w',
    @Run _ _ (@PortalStep _ host64 blankCrypto none none failingHal.handler.env)
      (PortalWorld.start [] bareLicense ())
      [.method (.submit (some [0x41])), .save [0x4B], .method .pump] w ∧
    Due w ∧ w.obj.pendingFlag = false ∧
    (w.portal.loop w.saved w.obj).1 = true ∧
    HoldsSubmission (w.portal.loop w.saved w.obj).2.1 [0x4B] ∧
    @PortalStep _ host64 blankCrypto none none failingHal.handler.env w .loop w' ∧
    ¬ Due w' ∧ Delivers w' := by
  have hsave := @PortalStep.save _ host64 blankCrypto none none failingHal.handler.env
    ⟨[], ⟨[]⟩, busyLicense, (), [.accepted [0x41]]⟩ [0x4B]
  have hnew : Offered (⟨[], ⟨[]⟩, busyLicense, (), [.accepted [0x41]]⟩ : PortalWorld Unit)
      (.save [0x4B]) := by
    intro _ _
    decide
  have hpump := pump_idle [0x4B] [] [.saved [0x4B], .accepted [0x41]]
  have hdue : Due (⟨[0x4B], ⟨[]⟩, idleLicense, (), [.saved [0x4B], .accepted [0x41]]⟩ :
      PortalWorld Unit) := ⟨by decide, by decide, id⟩
  obtain ⟨hdelivers, hnext⟩ := @portal_delivers _ host64 _ _ _ _ _ _ _ _ _
    (.cons ⟨submit_busy [] [] [], trivial⟩ (.cons ⟨hsave, hnew⟩ (.cons ⟨hpump, trivial⟩ (.nil _))))
  obtain ⟨htaken, hholds⟩ := hdelivers hdue idleLicense rfl
  have hloop := @PortalStep.loop _ host64 blankCrypto none none failingHal.handler.env
    ⟨[0x4B], ⟨[]⟩, idleLicense, (), [.saved [0x4B], .accepted [0x41]]⟩ _ _ _ rfl
  exact ⟨_, _, .cons (submit_busy [] [] []) (.cons hsave (.cons hpump (.nil _))), hdue, rfl, htaken,
    hholds, hloop, fun hdue' => hdue'.waiting (.inl rfl), (hnext _ _ hloop).mpr fun _ => rfl⟩

/-- Another bridge submits `A`; the operator saves `B`, `loop()` reads it and
is refused; `pump()` empties the inbox. `B` is due, nothing is pending, and
`loop()` returns false. -/
theorem paste_dropped : ∃ w,
    @Run _ _ (@PortalStep _ host64 blankCrypto none none failingHal.handler.env)
      (PortalWorld.start [] bareLicense ())
      [.method (.submit (some [0x41])), .save [0x42], .loop, .method .pump] w ∧
    w.saved = [0x42] ∧ Due w ∧ w.obj.pendingFlag = false ∧
      (w.portal.loop w.saved w.obj).1 = false := by
  have hsave := @PortalStep.save _ host64 blankCrypto none none failingHal.handler.env
    ⟨[], ⟨[]⟩, busyLicense, (), [.accepted [0x41]]⟩ [0x42]
  have hloop := @PortalStep.loop _ host64 blankCrypto none none failingHal.handler.env
    ⟨[0x42], ⟨[]⟩, busyLicense, (), [.saved [0x42], .accepted [0x41]]⟩ _ _ _ rfl
  have hpump := pump_idle [0x42] [0x42] [.saved [0x42], .accepted [0x41]]
  refine ⟨_, .cons (submit_busy [] [] []) (.cons hsave (.cons hloop (.cons hpump (.nil _)))), rfl,
    ⟨by decide, by decide, ?_⟩, rfl, by decide⟩
  exact fun hacc => hacc

end VectiLicense.L6
