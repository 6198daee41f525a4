import VectiLicense.L6Bridge.Methods
import Mathlib.Data.List.Perm.Subperm

/-!
# The inbox, with submissions from any task

`submit()` is "callable from any task" (vl_bridge.h:146), and the bridges do
call it from two. Here its accesses to `_pending` and `_pending_flag` are
atomic steps, as are those of `pump()`; any number of `submit()` calls run
beside one task that pumps.

The flag is tested and set in two steps, so a second `submit()` can get past
the test before the first has set it, and then writes over the first one's
bytes, or over what `pump()` is about to wipe. `InTurn` is the condition on a
step, on the state before it, that excludes exactly this.

* `submit_alone`, `pump_alone`: run alone, the steps are the methods of
  `License`.
* `step_slot`: what a step in turn does to the slot.
* `inbox_exact`: where every step is in turn, nothing is lost, duplicated or mixed.
* `submission_lost`: two submissions, both returning `true`, one activated.
-/
namespace VectiLicense.L6

open VectiLicense.Core VectiLicense.L0 VectiLicense.L1.Base32 VectiLicense.L3

/-! ## The steps -/

/-- `_pending` and `_pending_flag`. -/
structure Inbox where
  pending : Buf 224
  flag : Bool
  deriving DecidableEq

inductive InboxCall where
  | testFlag
  | copy (data : List UInt8)
  | writeNul (len : Nat)
  | setFlag
  | activate
  | wipe
  | clearFlag
  deriving DecidableEq

/-- `activate` is answered with the string it was passed. -/
@[reducible] def InboxCall.Resp : InboxCall → Type
  | .testFlag => Bool
  | .activate => CStr
  | _ => Unit

abbrev InboxProg := Prog InboxCall InboxCall.Resp
abbrev InboxEvent := Event InboxCall.Resp

/-- One access. -/
def inboxHandler : Handler InboxCall.Resp Inbox
  | .testFlag, s => (s.flag, s)
  | .copy data, s =>
    ((), { s with
      pending := if h : data.length ≤ 224 then s.pending.copyFront data h else s.pending })
  | .writeNul len, s =>
    ((), { s with pending := if h : len < 224 then s.pending.set len 0 else s.pending })
  | .setFlag, s => ((), { s with flag := true })
  | .activate, s => (CStr.ofMem s.pending.toList, s)
  | .wipe, s => ((), { s with pending := Vector.replicate 224 0 })
  | .clearFlag, s => ((), { s with flag := false })

/-- From the copy on; the flag was clear.
mirrors bridge/vl_bridge.h:151-154 -/
def fill (data : List UInt8) : InboxProg Bool := do
  let () ← Prog.ask (InboxCall.copy data)
  let () ← Prog.ask (InboxCall.writeNul data.length)
  let () ← Prog.ask InboxCall.setFlag
  return true

/-- mirrors bridge/vl_bridge.h:148-155 -/
def submit (blob : Option (List UInt8)) : InboxProg Bool :=
  match blob with
  | none => return false
  | some data =>
    if data.length = 0 ∨ data.length ≥ VL_BRIDGE_BLOB_MAX then return false
    else do
      let full ← Prog.ask InboxCall.testFlag
      if full then return false else fill data

/-- mirrors bridge/vl_bridge.h:161-168 -/
def pump : InboxProg Bool := do
  let full ← Prog.ask InboxCall.testFlag
  if full = false then return false
  else do
    let _ ← Prog.ask InboxCall.activate
    let () ← Prog.ask InboxCall.wipe
    let () ← Prog.ask InboxCall.clearFlag
    return true

/-- `loop()`, that many times. -/
def pumps : Nat → InboxProg Bool
  | 0 => return false
  | n + 1 => do
    let _ ← pump
    pumps n

/-! ## One at a time -/

/-- The fields the steps touch. -/
def License.inbox (l : License) : Inbox := ⟨l.pending.mem, l.pendingFlag⟩

theorem submit_alone (l : License) (blob : Option (List UInt8)) :
    ((submit blob).run inboxHandler l.inbox).val = (l.submit blob).1 ∧
      ((submit blob).run inboxHandler l.inbox).st = (l.submit blob).2.inbox := by
  cases blob with
  | none => exact ⟨rfl, rfl⟩
  | some data =>
    simp only [submit, License.submit]
    by_cases hbad : data.length = 0 ∨ data.length ≥ VL_BRIDGE_BLOB_MAX
    · rw [if_pos hbad, dif_pos hbad]
      exact ⟨rfl, rfl⟩
    rw [if_neg hbad, dif_neg hbad]
    change ((if l.pendingFlag then pure false else fill data : InboxProg Bool).run inboxHandler
        l.inbox).val = _ ∧
      ((if l.pendingFlag then pure false else fill data : InboxProg Bool).run inboxHandler
        l.inbox).st = _
    by_cases hfull : l.pendingFlag = true
    · rw [if_pos hfull, if_pos hfull]
      exact ⟨rfl, rfl⟩
    · rw [if_neg hfull, if_neg hfull]
      have hfit : data.length < 224 := Nat.lt_of_not_le fun hle => hbad (.inr hle)
      refine ⟨rfl, ?_⟩
      simp only [fill, Prog.run, Prog.ask, Prog.call_bind, Prog.ret_bind, inboxHandler,
        License.inbox, CharArray.terminate]
      rw [dif_pos (Nat.le_of_lt hfit), dif_pos hfit]
      rfl

/-- What `pump()` passes to `activate()`, in order. -/
def activated (t : List InboxEvent) : List CStr :=
  t.filterMap fun ev => match ev with
    | ⟨.activate, s⟩ => some s
    | _ => none

theorem pump_alone [Target] {σ : Type} {env : Env BridgeCall.Resp σ} {hal : Option HalMask}
    {l l' : License} {s s' : σ} {t : List BridgeEvent} {ret : Option VlStatus}
    (h : Prog.Exec env (l.pump hal) s t (ret, l') s') :
    (pump.run inboxHandler l.inbox).val = ret.isSome ∧
      (pump.run inboxHandler l.inbox).st = l'.inbox ∧
      activated (pump.run inboxHandler l.inbox).trace =
        if l.pendingFlag then [l.pending.str] else [] := by
  have hwipe : zeroPending.mem = Vector.replicate 224 0 :=
    Vector.set_replicate_self (h := by decide)
  cases exec_pump h with
  | idle hflag =>
    simp only [pump, Prog.run, Prog.ask, Prog.call_bind, Prog.ret_bind, inboxHandler, License.inbox,
      hflag, if_true]
    exact ⟨rfl, rfl, rfl⟩
  | pumped hflag happly =>
    simp only [pump, Prog.run, Prog.ask, Prog.call_bind, Prog.ret_bind, inboxHandler, License.inbox,
      hflag, Bool.true_eq_false, if_false, if_true, hwipe]
    exact ⟨rfl, rfl, rfl⟩

/-! ## Any number of tasks -/

abbrev Tasks := Pool InboxCall InboxCall.Resp Inbox Bool

/-- Thread 0 pumps; thread `i + 1` submits `ps[i]`. -/
def Tasks.start (n : Nat) (ps : List CStr) : Tasks :=
  ⟨⟨Vector.replicate 224 0, false⟩, pumps n :: ps.map fun p => submit (some p.bytes)⟩

def returnedTrue : InboxProg Bool → Bool
  | .ret b => b
  | .call _ _ => false

/-- The payloads whose `submit()` has returned `true`. -/
def delivered (ps : List CStr) (s : Tasks) : List CStr :=
  ((ps.zip s.threads.tail).filter fun x => returnedTrue x.2).map Prod.fst

/-- The call thread `j` makes next. -/
def Tasks.next? (s : Tasks) (j : Nat) : Option InboxCall := (s.threads[j]?).bind Prog.next?

/-- Between the copy and the set. -/
def InboxCall.fills : InboxCall → Bool
  | .writeNul _ | .setFlag => true
  | _ => false

/-- A copy is made while no other submission is under way and nothing waits in
the slot (the flag is clear, or `pump()` is about to clear it); the flag is set
when it is clear. -/
def InTurn (s : Tasks) (i : Nat) : InboxCall → Prop
  | .copy _ =>
    (∀ j < s.threads.length, j ≠ i → ((s.next? j).map InboxCall.fills).getD false = false) ∧
      (s.shared.flag = false ∨ s.next? 0 = some .clearFlag)
  | .setFlag => s.shared.flag = false
  | _ => True

instance (s : Tasks) (i : Nat) : (e : InboxCall) → Decidable (InTurn s i e)
  | .copy _ => inferInstanceAs (Decidable (_ ∧ _))
  | .setFlag => inferInstanceAs (Decidable (_ = _))
  | .testFlag | .writeNul _ | .activate | .wipe | .clearFlag => .isTrue trivial

/-! ## The stages of a task -/

inductive SubmitPc where
  | start
  | clear
  | copied
  | terminated
  | returned (accepted : Bool)
  deriving DecidableEq

inductive PumpPc where
  | waiting
  | found
  | activated
  | wiped
  deriving DecidableEq

/-- Where a task stands; `done` is what it has passed to `activate()`. -/
inductive Stage where
  | submit (p : CStr) (pc : SubmitPc)
  | pump (pc : PumpPc) (done : List CStr)
  deriving DecidableEq

def Stage.allowed : Stage → InboxCall → Prop
  | .submit _ .start, .testFlag => True
  | .submit p .clear, .copy data => data = p.bytes
  | .submit p .copied, .writeNul len => len = p.bytes.length
  | .submit _ .terminated, .setFlag => True
  | .pump .waiting _, .testFlag => True
  | .pump .found _, .activate => True
  | .pump .activated _, .wipe => True
  | .pump .wiped _, .clearFlag => True
  | _, _ => False

def Stage.next : Stage → (e : InboxCall) → e.Resp → Stage
  | .submit p _, .testFlag, full => .submit p (if full then .returned false else .clear)
  | .submit p _, .copy _, _ => .submit p .copied
  | .submit p _, .writeNul _, _ => .submit p .terminated
  | .submit p _, .setFlag, _ => .submit p (.returned true)
  | .pump _ done, .testFlag, full => .pump (if full then .found else .waiting) done
  | .pump _ done, .activate, s => .pump .activated (done ++ [s])
  | .pump _ done, .wipe, _ => .pump .wiped done
  | .pump _ done, .clearFlag, _ => .pump .waiting done
  | st, _, _ => st

def inboxProtocol : Protocol InboxCall.Resp Stage := ⟨Stage.allowed, Stage.next⟩

/-- A task returns from its last stage, with what that stage says. -/
def Returned : Stage → Bool → Prop
  | .submit _ pc, b => pc = .returned b
  | .pump pc _, _ => pc = .waiting

/-- The ways an allowed call moves a stage. -/
inductive StageStep : Stage → InboxEvent → Stage → Prop where
  | full {p : CStr} : StageStep (.submit p .start) ⟨.testFlag, true⟩ (.submit p (.returned false))
  | clear {p : CStr} : StageStep (.submit p .start) ⟨.testFlag, false⟩ (.submit p .clear)
  | copy {p : CStr} : StageStep (.submit p .clear) ⟨.copy p.bytes, ()⟩ (.submit p .copied)
  | terminate {p : CStr} :
      StageStep (.submit p .copied) ⟨.writeNul p.bytes.length, ()⟩ (.submit p .terminated)
  | set {p : CStr} : StageStep (.submit p .terminated) ⟨.setFlag, ()⟩ (.submit p (.returned true))
  | idle {done : List CStr} :
      StageStep (.pump .waiting done) ⟨.testFlag, false⟩ (.pump .waiting done)
  | found {done : List CStr} :
      StageStep (.pump .waiting done) ⟨.testFlag, true⟩ (.pump .found done)
  | activate {done : List CStr} {s : CStr} :
      StageStep (.pump .found done) ⟨.activate, s⟩ (.pump .activated (done ++ [s]))
  | wipe {done : List CStr} :
      StageStep (.pump .activated done) ⟨.wipe, ()⟩ (.pump .wiped done)
  | reopen {done : List CStr} :
      StageStep (.pump .wiped done) ⟨.clearFlag, ()⟩ (.pump .waiting done)

theorem Stage.step {st : Stage} {e : InboxCall} {r : e.Resp} (ha : st.allowed e) :
    StageStep st ⟨e, r⟩ (st.next e r) := by
  cases st with
  | submit p pc =>
    cases pc with
    | start =>
      cases e with
      | testFlag =>
        cases r with
        | true => exact .full
        | false => exact .clear
      | _ => exact ha.elim
    | clear =>
      cases e with
      | copy data =>
        obtain rfl : data = p.bytes := ha
        exact .copy
      | _ => exact ha.elim
    | copied =>
      cases e with
      | writeNul len =>
        obtain rfl : len = p.bytes.length := ha
        exact .terminate
      | _ => exact ha.elim
    | terminated =>
      cases e with
      | setFlag => exact .set
      | _ => exact ha.elim
    | returned b => exact ha.elim
  | pump pc done =>
    cases pc with
    | waiting =>
      cases e with
      | testFlag =>
        cases r with
        | true => exact .found
        | false => exact .idle
      | _ => exact ha.elim
    | found =>
      cases e with
      | activate => exact .activate
      | _ => exact ha.elim
    | activated =>
      cases e with
      | wipe => exact .wipe
      | _ => exact ha.elim
    | wiped =>
      cases e with
      | clearFlag => exact .reopen
      | _ => exact ha.elim

theorem submit_wp {p : CStr} (hp : 1 ≤ p.bytes.length ∧ p.bytes.length < VL_BRIDGE_BLOB_MAX) :
    inboxProtocol.wp (submit (some p.bytes)) Returned (.submit p .start) := by
  unfold submit
  dsimp only
  rw [if_neg (by omega)]
  refine ⟨trivial, fun full => ?_⟩
  cases full with
  | true => exact rfl
  | false => exact ⟨rfl, fun _ => ⟨rfl, fun _ => ⟨trivial, fun _ => rfl⟩⟩⟩

theorem pumps_wp (n : Nat) : ∀ done, inboxProtocol.wp (pumps n) Returned (.pump .waiting done) := by
  induction n with
  | zero => exact fun done => rfl
  | succ n ih =>
    intro done
    unfold pumps
    rw [Protocol.wp_bind]
    refine ⟨trivial, fun full => ?_⟩
    cases full with
    | false => exact ih done
    | true => exact ⟨trivial, fun s => ⟨trivial, fun _ => ⟨trivial, fun _ => ih _⟩⟩⟩

/-! ## The slot -/

/-- Between the copy and the set. -/
def Stage.filling : Stage → Bool
  | .submit _ .copied | .submit _ .terminated => true
  | _ => false

/-- What waits in the slot to be activated. -/
def waiting (b : Inbox) : PumpPc → List CStr
  | .waiting | .found => if b.flag then [CStr.ofMem b.pending.toList] else []
  | .activated | .wiped => []

/-- The slot, as the stages of the tasks have it: at most one submission fills
it, and only where nothing waits in it; what has been submitted has been
activated or waits. -/
structure Slot (ps : List CStr) (s : Tasks) (φ : Nat → Stage) : Prop where
  count : s.threads.length = ps.length + 1
  submits : ∀ i p, ps[i]? = some p → ∃ pc, φ (i + 1) = .submit p pc
  flagged : ∀ pc done, φ 0 = .pump pc done → pc ≠ .waiting → s.shared.flag = true
  outside : ∀ i, ps.length < i → (φ i).filling = false
  one : ∀ i j, (φ i).filling = true → (φ j).filling = true → i = j
  free : ∀ i, (φ i).filling = true → s.shared.flag = false ∨ ∃ done, φ 0 = .pump .wiped done
  copied : ∀ i p, φ i = .submit p .copied →
    s.shared.pending.toList.take p.bytes.length = p.bytes
  terminated : ∀ i p, φ i = .submit p .terminated →
    CStr.ofMem s.shared.pending.toList = p
  balance : ∃ pc done, φ 0 = .pump pc done ∧
    (delivered ps s).Perm (waiting s.shared pc ++ done)

section
variable {ps : List CStr} {s s' : Tasks} {φ : Nat → Stage} {l : Nat × InboxEvent}

/-- A thread that returned `true` adds its payload. -/
theorem zip_set_perm : ∀ (ps : List CStr) (ts : List (InboxProg Bool)) (j : Nat) {p : CStr}
    {q q' : InboxProg Bool}, ps[j]? = some p → ts[j]? = some q → returnedTrue q = false →
    (((ps.zip (ts.set j q')).filter fun x => returnedTrue x.2).map Prod.fst).Perm
      ((if returnedTrue q' then [p] else []) ++
        ((ps.zip ts).filter fun x => returnedTrue x.2).map Prod.fst) := by
  intro ps
  induction ps with
  | nil => intro ts j p q q' hp; cases hp
  | cons p₀ ps ih =>
    intro ts j p q q' hp hq hret
    cases ts with
    | nil => cases hq
    | cons t ts =>
      cases j with
      | zero =>
        obtain rfl := Option.some.inj hp
        obtain rfl := Option.some.inj hq
        rw [List.set_cons_zero, List.zip_cons_cons, List.zip_cons_cons,
          List.filter_cons_of_neg (a := (p₀, t)) (by simp [hret])]
        cases hq' : returnedTrue q' with
        | true =>
          rw [List.filter_cons_of_pos (by exact hq')]
          exact List.Perm.refl _
        | false =>
          rw [List.filter_cons_of_neg (by simp [hq'])]
          exact List.Perm.refl _
      | succ j =>
        have h := @ih ts j p q q' hp hq hret
        rw [List.set_cons_succ, List.zip_cons_cons, List.zip_cons_cons]
        cases ht : returnedTrue t with
        | true =>
          rw [List.filter_cons_of_pos (by exact ht), List.filter_cons_of_pos (by exact ht)]
          exact (h.cons p₀).trans List.perm_middle.symm
        | false =>
          rw [List.filter_cons_of_neg (by simp [ht]), List.filter_cons_of_neg (by simp [ht])]
          exact h

/-- What a step of the thread of `ps[i]` does to what was delivered. -/
theorem delivered_submit {i : Nat} {p : CStr} {q q' : InboxProg Bool} {b : Inbox}
    (hp : ps[i]? = some p) (hq : s.threads[i + 1]? = some q) (hret : returnedTrue q = false) :
    (delivered ps ⟨b, s.threads.set (i + 1) q'⟩).Perm
      ((if returnedTrue q' then [p] else []) ++ delivered ps s) := by
  unfold delivered
  cases hts : s.threads with
  | nil =>
    rw [hts] at hq
    cases hq
  | cons t ts =>
    rw [hts] at hq
    exact zip_set_perm ps ts i hp hq hret

theorem delivered_pump {q : InboxProg Bool} {b : Inbox} :
    delivered ps ⟨b, s.threads.set 0 q⟩ = delivered ps s := by
  unfold delivered
  cases s.threads with
  | nil => rfl
  | cons t ts => rfl

/-- A thread between its copy and its set shows it by its next call. -/
theorem filling_next (ht : Pool.Tracks inboxProtocol Returned s φ) {j : Nat}
    (hj : j < s.threads.length) (hfill : (φ j).filling = true) :
    ((s.next? j).map InboxCall.fills).getD false = true := by
  have hp := List.getElem?_eq_getElem hj
  have hwp := ht j _ hp
  rw [Tasks.next?, hp, Option.bind_some]
  generalize s.threads[j] = q at hwp
  cases hst : φ j with
  | pump pc done =>
    rw [hst] at hfill
    cases hfill
  | submit p pc =>
    rw [hst] at hfill hwp
    cases q with
    | ret b =>
      obtain rfl : pc = .returned b := hwp
      cases hfill
    | call e k =>
      have ha := hwp.1
      cases pc with
      | copied =>
        cases e with
        | writeNul len => rfl
        | _ => exact ha.elim
      | terminated =>
        cases e with
        | setFlag => rfl
        | _ => exact ha.elim
      | _ => cases hfill

/-- Thread 0 is about to clear the flag. -/
theorem wiped_of_next (ht : Pool.Tracks inboxProtocol Returned s φ)
    (h : s.next? 0 = some .clearFlag) : ∃ done, φ 0 = .pump .wiped done := by
  obtain ⟨q, hq, hnext⟩ := Option.bind_eq_some_iff.mp h
  have hwp := ht 0 q hq
  cases q with
  | ret b => cases hnext
  | call e k =>
    obtain rfl : e = .clearFlag := Option.some.inj hnext
    have ha := hwp.1
    cases hst : φ 0 with
    | submit p pc =>
      rw [hst] at ha
      cases pc <;> exact ha.elim
    | pump pc done =>
      rw [hst] at ha
      cases pc with
      | wiped => exact ⟨done, rfl⟩
      | _ => exact ha.elim

theorem Slot.pump_zero (h : Slot ps s φ) {p : CStr} {pc : SubmitPc} (hφ : φ 0 = .submit p pc) :
    False := by
  obtain ⟨pc', done, h0, -⟩ := h.balance
  rw [hφ] at h0
  cases h0

/-- A step of a submission. What it stores touches nobody else. -/
theorem Slot.submit (h : Slot ps s φ) {n : Nat} {p : CStr} {b : Inbox} {q : InboxProg Bool}
    {pc : SubmitPc} (hp : ps[n]? = some p)
    (halone : (∀ j, j ≠ n + 1 → (φ j).filling = false) ∨
      (b = s.shared ∧ (Stage.submit p pc).filling = false))
    (hflag : s.shared.flag = true → b.flag = true)
    (hfree : (Stage.submit p pc).filling = true →
      b.flag = false ∨ ∃ done, φ 0 = .pump .wiped done)
    (hcopied : pc = .copied → b.pending.toList.take p.bytes.length = p.bytes)
    (hterm : pc = .terminated → CStr.ofMem b.pending.toList = p)
    (hbalance : ∀ pc₀ done, φ 0 = .pump pc₀ done →
      (delivered ps ⟨b, s.threads.set (n + 1) q⟩).Perm (waiting b pc₀ ++ done)) :
    Slot ps ⟨b, s.threads.set (n + 1) q⟩
      (fun j => if n + 1 = j then .submit p pc else φ j) := by
  have hother : ∀ j, n + 1 ≠ j → (φ j).filling = true →
      b = s.shared ∧ (Stage.submit p pc).filling = false := by
    intro j hj hfill
    refine halone.resolve_left fun hall => ?_
    rw [hall j (Ne.symm hj)] at hfill
    cases hfill
  have hzero : (if n + 1 = 0 then Stage.submit p pc else φ 0) = φ 0 := if_neg (by omega)
  refine ⟨by rw [List.length_set, h.count], ?_, ?_, ?_, ?_, ?_, ?_, ?_, ?_⟩
  · intro i p' hp'
    by_cases hi : n + 1 = i + 1
    · obtain rfl : n = i := by omega
      rw [hp, Option.some.injEq] at hp'
      exact ⟨pc, by rw [if_pos rfl, hp']⟩
    · obtain ⟨pc', hpc'⟩ := h.submits i p' hp'
      exact ⟨pc', by rw [if_neg hi, hpc']⟩
  · intro pc₀ done h0 hne
    rw [hzero] at h0
    exact hflag (h.flagged pc₀ done h0 hne)
  · intro i hi
    have hn := (List.getElem?_eq_some_iff.mp hp).1
    rw [if_neg (by omega)]
    exact h.outside i hi
  · intro i j hi hj
    by_cases hin : n + 1 = i
    · by_cases hjn : n + 1 = j
      · exact hin.symm.trans hjn
      · rw [if_pos hin] at hi
        rw [if_neg hjn] at hj
        rw [(hother j hjn hj).2] at hi
        cases hi
    · rw [if_neg hin] at hi
      by_cases hjn : n + 1 = j
      · rw [if_pos hjn] at hj
        rw [(hother i hin hi).2] at hj
        cases hj
      · rw [if_neg hjn] at hj
        exact h.one i j hi hj
  · intro i hi
    rw [hzero]
    by_cases hin : n + 1 = i
    · rw [if_pos hin] at hi
      exact hfree hi
    · rw [if_neg hin] at hi
      rw [(hother i hin hi).1]
      exact h.free i hi
  · intro i p' hi
    by_cases hin : n + 1 = i
    · rw [if_pos hin] at hi
      obtain ⟨rfl, hpc⟩ := Stage.submit.inj hi
      exact hcopied hpc
    · rw [if_neg hin] at hi
      rw [(hother i hin (by rw [hi]; rfl)).1]
      exact h.copied i p' hi
  · intro i p' hi
    by_cases hin : n + 1 = i
    · rw [if_pos hin] at hi
      obtain ⟨rfl, hpc⟩ := Stage.submit.inj hi
      exact hterm hpc
    · rw [if_neg hin] at hi
      rw [(hother i hin (by rw [hi]; rfl)).1]
      exact h.terminated i p' hi
  · obtain ⟨pc₀, done, h0, -⟩ := h.balance
    exact ⟨pc₀, done, by rw [hzero]; exact h0, hbalance pc₀ done h0⟩

/-- A step of the pumping task. -/
theorem Slot.pump (h : Slot ps s φ) {b : Inbox} {q : InboxProg Bool} {pc : PumpPc}
    {done : List CStr} (hflag : pc ≠ .waiting → b.flag = true)
    (halone : b.pending = s.shared.pending ∨ ∀ j, (φ j).filling = false)
    (hfree : ∀ j, (φ j).filling = true → b.flag = false ∨ pc = .wiped)
    (hbalance : (delivered ps s).Perm (waiting b pc ++ done)) :
    Slot ps ⟨b, s.threads.set 0 q⟩ (fun j => if 0 = j then .pump pc done else φ j) := by
  have hmem : ∀ j, (φ j).filling = true → b.pending = s.shared.pending := by
    intro j hfill
    refine halone.resolve_right fun hall => ?_
    rw [hall j] at hfill
    cases hfill
  have hfill : ∀ j, (if 0 = j then Stage.pump pc done else φ j).filling = true →
      (φ j).filling = true := by
    intro j hj
    by_cases h0 : 0 = j
    · rw [if_pos h0] at hj
      cases hj
    · rwa [if_neg h0] at hj
  refine ⟨by rw [List.length_set, h.count], ?_, ?_, ?_, ?_, ?_, ?_, ?_, ?_⟩
  · intro i p hp
    rw [if_neg (by omega)]
    exact h.submits i p hp
  · intro pc' done' h0 hne
    rw [if_pos rfl] at h0
    obtain ⟨rfl, -⟩ := Stage.pump.inj h0
    exact hflag hne
  · intro i hi
    rw [if_neg (by omega)]
    exact h.outside i hi
  · exact fun i j hi hj => h.one i j (hfill i hi) (hfill j hj)
  · intro i hi
    refine (hfree i (hfill i hi)).imp_right fun hpc => ⟨done, ?_⟩
    rw [if_pos rfl, hpc]
  · intro i p hi
    by_cases h0 : 0 = i
    · rw [if_pos h0] at hi
      cases hi
    · rw [if_neg h0] at hi
      rw [hmem i (by rw [hi]; rfl)]
      exact h.copied i p hi
  · intro i p hi
    by_cases h0 : 0 = i
    · rw [if_pos h0] at hi
      cases hi
    · rw [if_neg h0] at hi
      rw [hmem i (by rw [hi]; rfl)]
      exact h.terminated i p hi
  · exact ⟨pc, done, if_pos rfl, by rw [delivered_pump]; exact hbalance⟩

theorem Slot.payload (h : Slot ps s φ) {i : Nat} {p : CStr} {pc : SubmitPc} {q : InboxProg Bool}
    (hφ : φ i = .submit p pc) (hi : s.threads[i]? = some q) :
    ∃ n, i = n + 1 ∧ ps[n]? = some p := by
  cases i with
  | zero => exact (h.pump_zero hφ).elim
  | succ n =>
    have hlt := (List.getElem?_eq_some_iff.mp hi).1
    rw [h.count] at hlt
    have hn : n < ps.length := by omega
    obtain ⟨pc', hpc'⟩ := h.submits n _ (List.getElem?_eq_getElem hn)
    rw [hφ] at hpc'
    obtain ⟨rfl, -⟩ := Stage.submit.inj hpc'
    exact ⟨n, rfl, List.getElem?_eq_getElem hn⟩

theorem Slot.pump_index (h : Slot ps s φ) {i : Nat} {pc : PumpPc} {done : List CStr}
    {q : InboxProg Bool} (hφ : φ i = .pump pc done) (hi : s.threads[i]? = some q) : i = 0 := by
  cases i with
  | zero => rfl
  | succ n =>
    have hlt := (List.getElem?_eq_some_iff.mp hi).1
    rw [h.count] at hlt
    have hn : n < ps.length := by omega
    obtain ⟨pc', hpc'⟩ := h.submits n _ (List.getElem?_eq_getElem hn)
    rw [hφ] at hpc'
    cases hpc'

/-- While one submission is under way, no other is. -/
theorem Slot.alone (h : Slot ps s φ) {i : Nat} (hi : (φ i).filling = true) :
    ∀ j, j ≠ i → (φ j).filling = false := by
  intro j hj
  by_contra hfill
  rw [Bool.not_eq_false] at hfill
  exact hj (h.one j i hfill hi)

/-- Nothing waits where a submission may fill the slot. -/
theorem waiting_of_free {pc : PumpPc} {done : List CStr} (h0 : φ 0 = .pump pc done)
    (hfree : s.shared.flag = false ∨ ∃ done, φ 0 = .pump .wiped done) {b : Inbox}
    (hb : b.flag = s.shared.flag) : waiting b pc = [] := by
  rcases hfree with hflag | ⟨done', hwiped⟩
  · rw [hflag] at hb
    cases pc <;> simp [waiting, hb]
  · rw [h0] at hwiped
    obtain ⟨rfl, -⟩ := Stage.pump.inj hwiped
    rfl

/-- The flag is clear while a submission is under way, except behind the wipe. -/
theorem Slot.clear_of_filling (h : Slot ps s φ) {pc : PumpPc} {done : List CStr}
    (h0 : φ 0 = .pump pc done) (hne : pc ≠ .wiped) {j : Nat} (hj : (φ j).filling = true) :
    s.shared.flag = false := by
  refine (h.free j hj).resolve_right fun hwiped => ?_
  obtain ⟨done', hwiped⟩ := hwiped
  rw [h0] at hwiped
  exact hne (Stage.pump.inj hwiped).1

/-- What a submission has returned, by its stage. -/
theorem returnedTrue_wp {q : InboxProg Bool} {p : CStr} {pc : SubmitPc}
    (hwp : inboxProtocol.wp q Returned (.submit p pc)) :
    returnedTrue q = decide (pc = .returned true) := by
  cases q with
  | ret b =>
    obtain rfl : pc = .returned b := hwp
    cases b <;> rfl
  | call e k =>
    have ha := hwp.1
    cases pc with
    | returned b => exact ha.elim
    | _ => rfl

/-- A submission that has not returned `true` delivers nothing. -/
theorem delivered_pending {n : Nat} {p : CStr} {pc : SubmitPc} {q q' : InboxProg Bool} {b : Inbox}
    (hp : ps[n]? = some p) (hq : s.threads[n + 1]? = some q) (hret : returnedTrue q = false)
    (hwp : inboxProtocol.wp q' Returned (.submit p pc)) (hne : pc ≠ .returned true) :
    (delivered ps ⟨b, s.threads.set (n + 1) q'⟩).Perm (delivered ps s) := by
  have hpending : returnedTrue q' = false := by rw [returnedTrue_wp hwp, decide_eq_false hne]
  have hperm : (delivered ps ⟨b, s.threads.set (n + 1) q'⟩).Perm _ :=
    delivered_submit hp hq hret
  rw [hpending] at hperm
  exact hperm

/-- Where a submission copies in turn, no other is filling the slot. -/
theorem Slot.alone_of_inTurn (h : Slot ps s φ) (ht : Pool.Tracks inboxProtocol Returned s φ)
    {i : Nat} {data : List UInt8} (hturn : InTurn s i (.copy data)) :
    ∀ j, j ≠ i → (φ j).filling = false := by
  intro j hj
  by_cases hrange : j < s.threads.length
  · by_contra hfill
    rw [Bool.not_eq_false] at hfill
    have hno := hturn.1 j hrange hj
    rw [filling_next ht hrange hfill] at hno
    cases hno
  · rw [h.count] at hrange
    exact h.outside j (by omega)

theorem Slot.submit_step (h : Slot ps s φ) (ht : Pool.Tracks inboxProtocol Returned s φ) {n : Nat}
    {p : CStr} {pc : SubmitPc} {st : Stage} {e : InboxCall} {r : e.Resp}
    {k : e.Resp → InboxProg Bool} {b : Inbox} (hfit : p.bytes.length < 224)
    (hst : φ (n + 1) = .submit p pc) (hp : ps[n]? = some p)
    (hk : s.threads[n + 1]? = some (.call e k)) (henv : inboxHandler.env e s.shared r b)
    (hturn : InTurn s (n + 1) e) (hstage : StageStep (.submit p pc) ⟨e, r⟩ st)
    (hown : inboxProtocol.wp (k r) Returned st) :
    Slot ps ⟨b, s.threads.set (n + 1) (k r)⟩ fun j => if n + 1 = j then st else φ j := by
  obtain ⟨pc₀, done₀, h0, hbal⟩ := h.balance
  have hsame : ∀ {pc done}, φ 0 = .pump pc done → pc = pc₀ ∧ done = done₀ := fun hφ =>
    Stage.pump.inj (hφ.symm.trans h0)
  -- bytes written to a free slot deliver nothing
  have hempty : ∀ {b : Inbox},
      (s.shared.flag = false ∨ ∃ done, φ 0 = .pump .wiped done) → b.flag = s.shared.flag →
      (waiting s.shared pc₀ ++ done₀).Perm (waiting b pc₀ ++ done₀) := by
    intro b hfree hb
    rw [waiting_of_free h0 hfree rfl, waiting_of_free h0 hfree hb]
  cases hstage with
  | full | clear =>
    obtain ⟨-, rfl⟩ := Prod.mk.inj henv
    refine h.submit hp (.inr ⟨rfl, rfl⟩) id (fun hf => by cases hf) (fun hf => by cases hf)
      (fun hf => by cases hf) fun pc done hφ => ?_
    obtain ⟨rfl, rfl⟩ := hsame hφ
    exact (delivered_pending hp hk rfl hown (by simp)).trans hbal
  | copy =>
    obtain ⟨-, rfl⟩ := Prod.mk.inj henv
    have halone := h.alone_of_inTurn ht hturn
    have hfree : s.shared.flag = false ∨ ∃ done, φ 0 = .pump .wiped done :=
      hturn.2.imp_right (wiped_of_next ht)
    refine h.submit hp (.inl halone) id (fun _ => hfree) (fun _ => ?_) (fun hf => by cases hf)
      fun pc done hφ => ?_
    · dsimp only
      rw [dif_pos (Nat.le_of_lt hfit), Buf.copyFront_toList, List.take_left' rfl]
    · obtain ⟨rfl, rfl⟩ := hsame hφ
      exact (delivered_pending hp hk rfl hown (by simp)).trans (hbal.trans (hempty hfree rfl))
  | terminate =>
    obtain ⟨-, rfl⟩ := Prod.mk.inj henv
    have hfill : (φ (n + 1)).filling = true := by rw [hst]; rfl
    have hfree := h.free _ hfill
    have htake := h.copied _ p hst
    refine h.submit hp (.inl (h.alone hfill)) id (fun _ => hfree) (fun hf => by cases hf)
      (fun _ => ?_) fun pc done hφ => ?_
    · dsimp only
      rw [dif_pos hfit]
      have hnonul : 0 ∉ s.shared.pending.toList.take p.bytes.length := by
        rw [htake]
        exact p.nonul
      exact CStr.ext_bytes ((CharArray.str_terminate hfit hnonul).trans htake)
    · obtain ⟨rfl, rfl⟩ := hsame hφ
      exact (delivered_pending hp hk rfl hown (by simp)).trans (hbal.trans (hempty hfree rfl))
  | set =>
    obtain ⟨-, rfl⟩ := Prod.mk.inj henv
    have hfill : (φ (n + 1)).filling = true := by rw [hst]; rfl
    have hclear : s.shared.flag = false := hturn
    refine h.submit hp (.inl (h.alone hfill)) (fun _ => rfl) (fun hf => by cases hf)
      (fun hf => by cases hf) (fun hf => by cases hf) fun pc done hφ => ?_
    -- the flag is clear, so `pump()` waits
    obtain rfl : pc = .waiting := by
      by_contra hne
      have hflag := h.flagged pc done hφ hne
      rw [hclear] at hflag
      cases hflag
    obtain ⟨rfl, rfl⟩ := hsame hφ
    rw [waiting_of_free hφ (.inl hclear) rfl] at hbal
    have hq : returnedTrue (k ()) = true := by rw [returnedTrue_wp hown]; rfl
    have hperm : (delivered ps ⟨{ s.shared with flag := true },
        s.threads.set (n + 1) (k ())⟩).Perm _ := delivered_submit hp hk rfl
    rw [hq] at hperm
    have hwaits : waiting { s.shared with flag := true } .waiting = [p] := by
      rw [waiting, if_pos rfl, h.terminated _ p hst]
    rw [hwaits]
    exact hperm.trans (hbal.append_left [p])

theorem Slot.pump_step (h : Slot ps s φ) {pc : PumpPc} {done : List CStr} {st : Stage}
    {e : InboxCall} {r : e.Resp} {q : InboxProg Bool} {b : Inbox} (hst : φ 0 = .pump pc done)
    (henv : inboxHandler.env e s.shared r b) (hstage : StageStep (.pump pc done) ⟨e, r⟩ st) :
    Slot ps ⟨b, s.threads.set 0 q⟩ fun j => if 0 = j then st else φ j := by
  obtain ⟨pc₀, done₀, h0, hbal⟩ := h.balance
  obtain ⟨rfl, rfl⟩ := Stage.pump.inj (hst.symm.trans h0)
  have hclear : pc ≠ .wiped → ∀ j, (φ j).filling = true → s.shared.flag = false := fun hne j hj =>
    h.clear_of_filling hst hne hj
  cases hstage with
  | idle =>
    obtain ⟨-, rfl⟩ := Prod.mk.inj henv
    exact h.pump (fun hne => absurd rfl hne) (.inl rfl) (fun j hj => .inl (hclear (by simp) j hj))
      hbal
  | found =>
    obtain ⟨hflag, rfl⟩ := Prod.mk.inj henv
    exact h.pump (fun _ => hflag) (.inl rfl) (fun j hj => .inl (hclear (by simp) j hj)) hbal
  | activate =>
    obtain ⟨rfl, rfl⟩ := Prod.mk.inj henv
    have hflag := h.flagged _ _ hst (by simp)
    refine h.pump (fun _ => hflag) (.inl rfl) (fun j hj => .inl (hclear (by simp) j hj)) ?_
    rw [waiting, if_pos hflag] at hbal
    exact hbal.trans List.perm_append_comm
  | wipe =>
    obtain ⟨-, rfl⟩ := Prod.mk.inj henv
    have hflag := h.flagged _ _ hst (by simp)
    have hidle : ∀ j, (φ j).filling = false := by
      intro j
      by_contra hfill
      rw [Bool.not_eq_false] at hfill
      rw [hclear (by simp) j hfill] at hflag
      cases hflag
    exact h.pump (fun _ => hflag) (.inr hidle) (fun j hj => by rw [hidle j] at hj; cases hj) hbal
  | reopen =>
    obtain ⟨-, rfl⟩ := Prod.mk.inj henv
    exact h.pump (fun hne => absurd rfl hne) (.inl rfl) (fun _ _ => .inl rfl) hbal

theorem step_slot (hsize : ∀ p ∈ ps, 1 ≤ p.bytes.length ∧ p.bytes.length < VL_BRIDGE_BLOB_MAX)
    (hstep : Pool.Step inboxHandler.env s l s') (hturn : InTurn s l.1 l.2.1)
    (ht : Pool.Tracks inboxProtocol Returned s φ) (ha : (φ l.1).allowed l.2.1)
    (ht' : Pool.Tracks inboxProtocol Returned s' (Pool.advance inboxProtocol φ l))
    (h : Slot ps s φ) : Slot ps s' (Pool.advance inboxProtocol φ l) := by
  obtain ⟨i, e, r⟩ := l
  obtain ⟨b', ts'⟩ := s'
  obtain ⟨k, hk, henv, hts⟩ := hstep
  dsimp only at hk henv hts hturn ha
  subst hts
  have hlt := (List.getElem?_eq_some_iff.mp hk).1
  have hown := ht' i (k r) (List.getElem?_set_self hlt)
  have hstage := Stage.step (r := r) ha
  have hadv : Pool.advance inboxProtocol φ (i, ⟨e, r⟩) =
      fun j => if i = j then (φ i).next e r else φ j := Pool.advance_eq inboxProtocol φ i _
  rw [hadv] at hown ⊢
  replace hown : inboxProtocol.wp (k r) Returned ((φ i).next e r) := by
    dsimp only at hown
    rwa [if_pos rfl] at hown
  cases hst : φ i with
  | submit p pc =>
    rw [hst] at hstage hown
    obtain ⟨n, rfl, hp⟩ := h.payload hst hk
    have hfit := (hsize p (List.mem_of_getElem? hp)).2
    exact h.submit_step ht hfit hst hp hk henv hturn hstage hown
  | pump pc done =>
    rw [hst] at hstage
    obtain rfl := h.pump_index hst hk
    exact h.pump_step hst henv hstage

end

/-! ## Runs -/

/-- The strings passed to `activate()` in a run of the tasks. -/
def Tasks.activated (ls : List (Nat × InboxEvent)) : List CStr := L6.activated (Pool.proj 0 ls)

/-- The stages at the start. -/
def startStages (ps : List CStr) : Nat → Stage
  | 0 => .pump .waiting []
  | i + 1 => (ps[i]?.map fun p => .submit p .start).getD (.pump .waiting [])

theorem start_tracks {n : Nat} {ps : List CStr}
    (hsize : ∀ p ∈ ps, 1 ≤ p.bytes.length ∧ p.bytes.length < VL_BRIDGE_BLOB_MAX) :
    Pool.Tracks inboxProtocol Returned (Tasks.start n ps) (startStages ps) := by
  intro i q hq
  cases i with
  | zero =>
    obtain rfl := Option.some.inj hq
    exact pumps_wp n []
  | succ i =>
    have hq' : (ps.map fun p => submit (some p.bytes))[i]? = some q := hq
    obtain ⟨p, hp, rfl⟩ := List.getElem?_map.symm.trans hq' |> Option.map_eq_some_iff.mp
    rw [startStages, hp]
    exact submit_wp (hsize p (List.mem_of_getElem? hp))

theorem startStages_idle (ps : List CStr) (i : Nat) : (startStages ps i).filling = false := by
  cases i with
  | zero => rfl
  | succ i =>
    rw [startStages]
    cases ps[i]? <;> rfl

theorem delivered_start (n : Nat) (ps : List CStr) : delivered ps (Tasks.start n ps) = [] := by
  rw [delivered, List.map_eq_nil_iff, List.filter_eq_nil_iff]
  intro x hx
  obtain ⟨p, -, hp⟩ := List.mem_map.mp (List.of_mem_zip hx).2
  rw [← hp, submit]
  split
  · simp [returnedTrue]
  · exact Bool.false_ne_true

theorem start_slot (n : Nat) (ps : List CStr) :
    Slot ps (Tasks.start n ps) (startStages ps) := by
  have hidle : ∀ {i p pc}, startStages ps i = .submit p pc →
      (Stage.submit p pc).filling = true → False := by
    intro i p pc hi hfill
    rw [← hi, startStages_idle] at hfill
    cases hfill
  refine ⟨by simp [Tasks.start], fun i p hp => ⟨.start, by rw [startStages, hp]; rfl⟩,
    fun pc done h0 hne => ?_, fun i _ => startStages_idle ps i, fun i j hi => ?_, fun i hi => ?_,
    fun i p hi => (hidle hi rfl).elim, fun i p hi => (hidle hi rfl).elim, ?_⟩
  · obtain ⟨rfl, -⟩ := Stage.pump.inj h0
    exact absurd rfl hne
  · rw [startStages_idle] at hi
    cases hi
  · exact .inl rfl
  · exact ⟨.waiting, [], rfl, by rw [delivered_start]; exact List.Perm.refl _⟩

theorem after_pump (t : List InboxEvent) : ∀ {pc : PumpPc} {done : List CStr},
    inboxProtocol.Follows (.pump pc done) t →
      ∃ pc', inboxProtocol.after (.pump pc done) t = .pump pc' (done ++ activated t) := by
  induction t with
  | nil =>
    intro pc done _
    exact ⟨pc, by simp [activated]⟩
  | cons ev t ih =>
    intro pc done hf
    obtain ⟨e, r⟩ := ev
    obtain ⟨ha, hf⟩ := hf
    rw [Protocol.after_cons]
    have hstage := Stage.step (r := r) ha
    change inboxProtocol.Follows ((Stage.pump pc done).next e r) t at hf
    change ∃ pc', inboxProtocol.after ((Stage.pump pc done).next e r) t = _
    generalize (Stage.pump pc done).next e r = st' at hstage hf ⊢
    cases hstage with
    | activate =>
      obtain ⟨pc', h⟩ := ih hf
      exact ⟨pc', by rw [h, List.append_assoc]; rfl⟩
    | idle | found | wipe | reopen => exact ih hf

/-- **When nothing is lost, duplicated or mixed.** -/
theorem inbox_exact {n : Nat} {ps : List CStr}
    (hsize : ∀ p ∈ ps, 1 ≤ p.bytes.length ∧ p.bytes.length < VL_BRIDGE_BLOB_MAX)
    {ls : List (Nat × InboxEvent)} {s : Tasks}
    (h : Run (fun s l s' => Pool.Step inboxHandler.env s l s' ∧ InTurn s l.1 l.2.1)
      (Tasks.start n ps) ls s) :
    (Tasks.activated ls).Subperm (delivered ps s) ∧
      (s.shared.flag = false → (Tasks.activated ls).Perm (delivered ps s)) := by
  obtain ⟨-, -, hslot⟩ := Pool.run_inv inboxProtocol
    (J := fun s φ => Slot ps s φ) (D := fun _ _ => True)
    (fun s φ l s' hstep hturn ht ha ht' hs =>
      ⟨step_slot hsize hstep hturn ht ha ht' hs, trivial⟩) h (start_tracks hsize) (start_slot n ps)
  have hfollows := Pool.follows_run inboxProtocol (h.imp fun _ _ _ h => h.1)
    (start_tracks hsize) 0
  obtain ⟨pc, hpc⟩ := after_pump _ hfollows
  obtain ⟨pc', done, h0, hbal⟩ := hslot.balance
  obtain ⟨rfl, rfl⟩ := Stage.pump.inj (hpc.symm.trans h0)
  rw [List.nil_append] at hbal
  refine ⟨(List.sublist_append_right _ _).subperm.trans hbal.symm.subperm, fun hflag => ?_⟩
  have hempty : waiting s.shared pc = [] := waiting_of_free h0 (.inl hflag) rfl
  rw [hempty] at hbal
  exact hbal.symm

/-- Two one-letter submissions. -/
def twoPayloads : List CStr := [CStr.ofMem [0x41], CStr.ofMem [0x42]]

/-- What comes of a schedule: what was activated, the flag, and what was delivered. -/
def outcome (x : List (Nat × InboxEvent) × Tasks) : List CStr × Bool × List CStr :=
  (Tasks.activated x.1, x.2.shared.flag, delivered twoPayloads x.2)

/-- Both find the flag clear; the second one copies when `pump()` has wiped the
first one's bytes, and sets the flag when `pump()` has cleared it. -/
theorem inbox_exact_turns : ∃ ls s,
    Run (fun s l s' => Pool.Step inboxHandler.env s l s' ∧ InTurn s l.1 l.2.1)
      (Tasks.start 2 twoPayloads) ls s ∧
    ls.map Prod.fst = [1, 2, 1, 1, 1, 0, 0, 0, 2, 0, 2, 2, 0, 0, 0, 0] ∧
    Tasks.activated ls = twoPayloads ∧ (Tasks.activated ls).Perm (delivered twoPayloads s) := by
  have hturns : (Pool.schedule inboxHandler (fun s l => decide (InTurn s l.1 l.2.1))
      (Tasks.start 2 twoPayloads) [1, 2, 1, 1, 1, 0, 0, 0, 2, 0, 2, 2, 0, 0, 0, 0]).map
        (fun x => (outcome x, x.1.map Prod.fst)) =
      some ((twoPayloads, false, twoPayloads), [1, 2, 1, 1, 1, 0, 0, 0, 2, 0, 2, 2, 0, 0, 0, 0]) := by
    decide +kernel
  obtain ⟨⟨ls, s⟩, hs, hout⟩ := Option.map_eq_some_iff.mp hturns
  obtain ⟨hout, htasks⟩ := Prod.mk.inj hout
  obtain ⟨hacts, hflag, -⟩ := And.imp_right Prod.mk.inj (Prod.mk.inj hout)
  have hrun : Run (fun s l s' => Pool.Step inboxHandler.env s l s' ∧ InTurn s l.1 l.2.1)
      (Tasks.start 2 twoPayloads) ls s :=
    (Pool.run_schedule hs).imp fun _ _ _ h => ⟨h.1, of_decide_eq_true h.2⟩
  exact ⟨ls, s, hrun, htasks, hacts, (inbox_exact (by decide) hrun).2 hflag⟩

/-- Both submissions find the flag clear. The first copies, closes and sets;
then the second does. Both return `true`, and `pump()` activates the second. -/
theorem submission_lost : ∃ ls s,
    Run (Pool.Step inboxHandler.env) (Tasks.start 1 twoPayloads) ls s ∧
    (∀ p ∈ s.threads, ∃ b, p = .ret b) ∧ s.shared.flag = false ∧
    delivered twoPayloads s = twoPayloads ∧ Tasks.activated ls = [CStr.ofMem [0x42]] ∧
    ¬ (Tasks.activated ls).Perm (delivered twoPayloads s) := by
  have hlost : (Pool.schedule inboxHandler (fun _ _ => true) (Tasks.start 1 twoPayloads)
      [1, 2, 1, 1, 1, 2, 2, 2, 0, 0, 0, 0]).map (fun x => (outcome x, x.2.threads.all
        fun p => (Prog.next? p).isNone)) =
      some (([CStr.ofMem [0x42]], false, twoPayloads), true) := by
    decide +kernel
  obtain ⟨⟨ls, s⟩, hs, hout⟩ := Option.map_eq_some_iff.mp hlost
  obtain ⟨hout, hdone⟩ := Prod.mk.inj hout
  obtain ⟨hacts, hflag, hboth⟩ := And.imp_right Prod.mk.inj (Prod.mk.inj hout)
  refine ⟨ls, s, (Pool.run_schedule hs).imp fun _ _ _ h => h.1, fun p hp => ?_, hflag, hboth,
    hacts, fun hperm => ?_⟩
  · have hnone := List.all_eq_true.mp hdone p hp
    cases p with
    | ret b => exact ⟨b, rfl⟩
    | call e k => cases hnone
  · have hlen := hperm.length_eq
    rw [show delivered twoPayloads s = _ from hboth, show Tasks.activated ls = _ from hacts] at hlen
    cases hlen

end VectiLicense.L6
