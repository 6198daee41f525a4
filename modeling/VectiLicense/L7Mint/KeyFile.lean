import Mathlib.Data.List.DropRight
import VectiLicense.Core.Secrecy
import VectiLicense.L3Ed25519.Exact
import VectiLicense.L7Mint.Issue

/-!
# The vendor's key file: `tools/vl_mint.py`

`keygen` draws a seed and puts it on disk; `read_key` reads it back for the other
subcommands. Both are programs over the system calls they make, on a machine with
other users: their processes may make any call at any point between two of the
vendor's, in the same directory and under the same names. They may replace the key
file or point it elsewhere, but have neither the vendor's rights nor root's.

A path is one name, a text file its characters. What `keygen` prints is the public
key; how `c_array` spells it is left out.

* `veil`: what the two runs of `key_secret` have in common at each moment.
* `key_secret`: no other user can tell which seed was drawn.
* `key_kept`: `read_key` reads what `keygen` wrote.
-/
namespace VectiLicense.L7.KeyFile

open VectiLicense.Core
open VectiLicense.L3.Ed25519 (publicKey)

/-! ## A disk with users -/

abbrev Uid := Nat
abbrev Path := List Char

/-- A file: its owner, its permission bits, its text. -/
structure Inode where
  owner : Uid
  mode : UInt32
  text : List Char

/-- What a name stands for. -/
inductive Entry where
  | file (inode : Nat)
  | symlink (target : Path)

/-- An open file of a user's. -/
structure Handle where
  uid : Uid
  inode : Nat
  writable : Bool

structure Disk where
  inode : Nat → Option Inode
  entry : Path → Option Entry
  handle : Nat → Option Handle
  nextInode : Nat
  nextHandle : Nat

namespace Disk

def setEntry (s : Disk) (path : Path) (e : Option Entry) : Disk :=
  { s with entry := Function.update s.entry path e }

def setInode (s : Disk) (i : Nat) (node : Inode) : Disk :=
  { s with inode := Function.update s.inode i (some node) }

def shut (s : Disk) (fd : Nat) : Disk := { s with handle := Function.update s.handle fd none }

/-- A new descriptor for the file `i`. -/
def opened (s : Disk) (u : Uid) (i : Nat) (writable : Bool) : Disk :=
  { s with handle := Function.update s.handle s.nextHandle (some ⟨u, i, writable⟩),
           nextHandle := s.nextHandle + 1 }

/-- A new file, and a descriptor for it. -/
def created (s : Disk) (u : Uid) (path : Path) (mode : UInt32) : Disk where
  inode := Function.update s.inode s.nextInode (some ⟨u, mode, []⟩)
  entry := Function.update s.entry path (some (.file s.nextInode))
  handle := Function.update s.handle s.nextHandle (some ⟨u, s.nextInode, true⟩)
  nextInode := s.nextInode + 1
  nextHandle := s.nextHandle + 1

/-- The file a path leads to, through at most `n - 1` links. -/
def follow (s : Disk) : (n : Nat) → Path → Option Nat
  | 0, _ => none
  | n + 1, path =>
    match s.entry path with
    | none => none
    | some (.file i) => some i
    | some (.symlink target) => s.follow n target

end Disk

/-- The group's bits and the others' count alike: any user may be in the group. -/
def Inode.MayRead (node : Inode) (u : Uid) : Prop :=
  u = 0 ∨ (u = node.owner ∧ node.mode &&& 0o400 ≠ 0) ∨ (u ≠ node.owner ∧ node.mode &&& 0o044 ≠ 0)

def Inode.MayWrite (node : Inode) (u : Uid) : Prop :=
  u = 0 ∨ (u = node.owner ∧ node.mode &&& 0o200 ≠ 0) ∨ (u ≠ node.owner ∧ node.mode &&& 0o022 ≠ 0)

/-! ## System calls -/

/-- `openNew` is `os.open(path, O_WRONLY | O_CREAT | O_EXCL | O_NOFOLLOW, mode)`; the
last six are what others may do besides. -/
inductive SysCall where
  | pathExists (path : Path)
  | urandom
  | unlink (path : Path)
  | openNew (path : Path) (mode : UInt32)
  | write (fd : Nat) (text : List Char)
  | close (fd : Nat)
  | stat (path : Path)
  | openRead (path : Path)
  | read (fd : Nat)
  | openWrite (path : Path)
  | overwrite (fd : Nat) (text : List Char)
  | chmod (path : Path) (mode : UInt32)
  | link (old new : Path)
  | symlink (target new : Path)
  | rename (old new : Path)

/-- A call, and on whose behalf. -/
structure Call where
  uid : Uid
  sys : SysCall

inductive Unlinked where
  | done | notFound | refused
  deriving DecidableEq

/-- `none` and `false` are errors. -/
@[reducible] def Call.Resp : Call → Type
  | ⟨_, .pathExists _⟩ => Bool
  | ⟨_, .urandom⟩ => Vector UInt8 32
  | ⟨_, .unlink _⟩ => Unlinked
  | ⟨_, .openNew _ _⟩ => Option Nat
  | ⟨_, .write _ _⟩ => Bool
  | ⟨_, .close _⟩ => Unit
  | ⟨_, .stat _⟩ => Option (UInt32 × Nat)
  | ⟨_, .openRead _⟩ => Option Nat
  | ⟨_, .read _⟩ => Option (List Char)
  | ⟨_, .openWrite _⟩ => Option Nat
  | ⟨_, .overwrite _ _⟩ => Bool
  | ⟨_, .chmod _ _⟩ => Bool
  | ⟨_, .link _ _⟩ => Bool
  | ⟨_, .symlink _ _⟩ => Bool
  | ⟨_, .rename _ _⟩ => Bool

abbrev KeyProg := Prog Call Call.Resp

/-- How many links the kernel follows. -/
def LINK_MAX : Nat := 41

/-- The kernel. Any call may be refused, and a write may stop short; names are anyone's
to take, move and drop. `umask` is what each user's processes have set. -/
def kernel (umask : Uid → UInt32) : Env Call.Resp Disk
  | ⟨_, .pathExists path⟩, s, r, s' => s' = s ∧ (r = true ↔ (s.follow LINK_MAX path).isSome)
  | ⟨_, .urandom⟩, s, _, s' => s' = s
  | ⟨_, .unlink path⟩, s, r, s' =>
    (r = .done ∧ (s.entry path).isSome ∧ s' = s.setEntry path none) ∨
      (r = .notFound ∧ s.entry path = none ∧ s' = s) ∨ (r = .refused ∧ s' = s)
  | ⟨u, .openNew path mode⟩, s, r, s' =>
    (s.entry path = none ∧ r = some s.nextHandle ∧ s' = s.created u path (mode &&& ~~~umask u)) ∨
      (r = none ∧ s' = s)
  | ⟨u, .write fd text⟩, s, r, s' =>
    (∃ h node n, s.handle fd = some h ∧ h.uid = u ∧ h.writable = true ∧
      s.inode h.inode = some node ∧ (r = true → text.length ≤ n) ∧
      s' = s.setInode h.inode { node with text := node.text ++ text.take n }) ∨ (r = false ∧ s' = s)
  | ⟨u, .close fd⟩, s, _, s' =>
    (∃ h, s.handle fd = some h ∧ h.uid = u ∧ s' = s.shut fd) ∨ s' = s
  | ⟨_, .stat path⟩, s, r, s' => s' = s ∧ ∀ mode size, r = some (mode, size) →
    ∃ i node, s.follow LINK_MAX path = some i ∧ s.inode i = some node ∧ mode = node.mode ∧
      size = node.text.length
  | ⟨u, .openRead path⟩, s, r, s' =>
    (∃ i node, s.follow LINK_MAX path = some i ∧ s.inode i = some node ∧ node.MayRead u ∧
      r = some s.nextHandle ∧ s' = s.opened u i false) ∨ (r = none ∧ s' = s)
  | ⟨u, .read fd⟩, s, r, s' => s' = s ∧ ∀ text, r = some text →
    ∃ h node, s.handle fd = some h ∧ h.uid = u ∧ s.inode h.inode = some node ∧ text = node.text
  | ⟨u, .openWrite path⟩, s, r, s' =>
    (∃ i node, s.follow LINK_MAX path = some i ∧ s.inode i = some node ∧ node.MayWrite u ∧
      r = some s.nextHandle ∧ s' = s.opened u i true) ∨ (r = none ∧ s' = s)
  | ⟨u, .overwrite fd text⟩, s, r, s' =>
    (∃ h node, s.handle fd = some h ∧ h.uid = u ∧ h.writable = true ∧
      s.inode h.inode = some node ∧ s' = s.setInode h.inode { node with text := text }) ∨
      (r = false ∧ s' = s)
  | ⟨u, .chmod path mode⟩, s, r, s' =>
    (∃ i node, s.follow LINK_MAX path = some i ∧ s.inode i = some node ∧ (u = 0 ∨ u = node.owner) ∧
      s' = s.setInode i { node with mode := mode }) ∨ (r = false ∧ s' = s)
  | ⟨_, .link old new⟩, s, r, s' =>
    (∃ i, s.follow LINK_MAX old = some i ∧ s.entry new = none ∧
      s' = s.setEntry new (some (.file i))) ∨ (r = false ∧ s' = s)
  | ⟨_, .symlink target new⟩, s, r, s' =>
    (s.entry new = none ∧ s' = s.setEntry new (some (.symlink target))) ∨ (r = false ∧ s' = s)
  | ⟨_, .rename old new⟩, s, r, s' =>
    (∃ e, s.entry old = some e ∧ s' = (s.setEntry old none).setEntry new (some e)) ∨
      (r = false ∧ s' = s)

/-! ## The tool -/

/-- Where the tool gives up. -/
inductive KeyExit where
  /-- `error: {a.key} exists. Use --force only if you are certain …` -/
  | keyExists
  /-- `error: cannot read key file {path}: {e}` -/
  | cannotRead
  /-- `error: {path} is mode {…:04o}; it is readable by other users …` -/
  | tooOpen (mode : UInt32)
  /-- `error: {path} is not 64 hex characters` -/
  | notHex
  /-- `error: {path} holds {len(seed)} bytes, expected 32` -/
  | wrongLength (n : Nat)
  /-- An exception nobody catches. -/
  | raised
  deriving DecidableEq

def sys (u : Uid) (c : SysCall) : KeyProg (Call.Resp ⟨u, c⟩) := Prog.ask (Call.mk u c)

def hexDigit (n : Nat) : Char :=
  ['0', '1', '2', '3', '4', '5', '6', '7', '8', '9', 'a', 'b', 'c', 'd', 'e', 'f'].getD n '0'

/-- `bytes.hex` -/
def hex (bytes : List UInt8) : List Char :=
  bytes.flatMap fun b => [hexDigit (b.toNat / 16), hexDigit (b.toNat % 16)]

/-- `seed.hex() + "\n"` -/
def keyLine (seed : Vector UInt8 32) : List Char := hex seed.toList ++ ['\n']

@[simp] theorem length_hex (bytes : List UInt8) : (hex bytes).length = 2 * bytes.length := by
  induction bytes with
  | nil => rfl
  | cons b bytes ih =>
    simp only [hex, List.flatMap_cons, List.length_append, List.length_cons, List.length_nil] at ih ⊢
    omega

@[simp] theorem length_keyLine (seed : Vector UInt8 32) : (keyLine seed).length = 65 := by
  simp [keyLine]

/-- The `with` statement writes, and closes the file either way.
mirrors tools/vl_mint.py:221-223 -/
def putKey (me : Uid) (key : Path) (seed : Vector UInt8 32) : KeyProg Bool := do
  match ← sys me (.openNew key 0o600) with
  | none => return false
  | some fd =>
    let written ← sys me (.write fd (keyLine seed))
    let _ ← sys me (.close fd)
    return written

/-- The public key that gets printed.
mirrors tools/vl_mint.py:204-225 -/
def cmdKeygen (pubkeyOf : Vector UInt8 32 → Vector UInt8 32) (me : Uid) (key : Path) (force : Bool) :
    KeyProg (Except KeyExit (Vector UInt8 32)) := do
  let there ← sys me (.pathExists key)
  if there && !force then return .error .keyExists
  else
    let seed ← sys me .urandom
    let gone ← sys me (.unlink key)
    if gone = .refused then return .error .raised
    else
      let put ← putKey me key seed
      return if put then .ok (pubkeyOf seed) else .error .raised

theorem hexVal_hexDigit {n : Nat} (h : n < 16) :
    hexVal (hexDigit n) = some n ∧ ¬ isSpace (hexDigit n) := by
  have hall : ∀ n : Fin 16, hexVal (hexDigit n) = some n.val ∧ ¬ isSpace (hexDigit n) := by
    decide +kernel
  exact hall ⟨n, h⟩

theorem fromHex_hex (bytes : List UInt8) : fromHex (hex bytes) = some bytes := by
  induction bytes with
  | nil => rfl
  | cons b bytes ih =>
    have hb := b.toNat_lt
    obtain ⟨hhi, hspace⟩ := hexVal_hexDigit (show b.toNat / 16 < 16 by omega)
    obtain ⟨hlo, -⟩ := hexVal_hexDigit (show b.toNat % 16 < 16 by omega)
    have hbyte : UInt8.ofNat (16 * (b.toNat / 16) + b.toNat % 16) = b := by
      rw [Nat.div_add_mod, UInt8.ofNat_toNat]
    have hcons : hex (b :: bytes) =
        hexDigit (b.toNat / 16) :: hexDigit (b.toNat % 16) :: hex bytes := rfl
    simp only [hcons, fromHex, if_neg hspace, hhi, hlo, ih, Option.map_some, hbyte]

theorem keyLine_inj {seed seed' : Vector UInt8 32} (h : keyLine seed = keyLine seed') :
    seed = seed' := by
  have hhex := congrArg fromHex (List.append_cancel_right h)
  rw [fromHex_hex, fromHex_hex] at hhex
  exact Vector.toList_inj.mp (Option.some.inj hhex)

/-- What `str.strip` strips. -/
def isBlank (ch : Char) : Bool :=
  (0x09 ≤ ch.toNat && ch.toNat ≤ 0x0D) || (0x1C ≤ ch.toNat && ch.toNat ≤ 0x20) ||
    (0x2000 ≤ ch.toNat && ch.toNat ≤ 0x200A) ||
    ch.toNat ∈ [0x85, 0xA0, 0x1680, 0x2028, 0x2029, 0x202F, 0x205F, 0x3000]

/-- `str.strip` -/
def strip (text : List Char) : List Char := (text.dropWhile isBlank).rdropWhile isBlank

/-- What the text of a key file stands for. -/
def parseKey (text : List Char) : Except KeyExit (Vector UInt8 32) :=
  match fromHex (strip text) with
  | none => .error .notHex
  | some seed =>
    if h : seed.length = 32 then .ok ⟨seed.toArray, h⟩ else .error (.wrongLength seed.length)

/-- `S_IRWXG | S_IRWXO` -/
def OTHERS : UInt32 := 0o077

/-- mirrors tools/vl_mint.py:165-181 -/
def readKey (me : Uid) (path : Path) : KeyProg (Except KeyExit (Vector UInt8 32)) := do
  match ← sys me (.stat path) with
  | none => return .error .cannotRead
  | some (mode, _) =>
    if mode &&& OTHERS ≠ 0 then return .error (.tooOpen mode)
    else
      match ← sys me (.openRead path) with
      | none => return .error .raised
      | some fd =>
        match ← sys me (.read fd) with
        | none => return .error .raised
        | some text => return parseKey text

/-! ## What nobody else can open -/

/-- Made in the run, the vendor's own, and closed to group and others. -/
structure Hidden (me : Uid) (i₀ i : Nat) (node : Inode) : Prop where
  new : i₀ ≤ i
  owner : node.owner = me
  mode : node.mode &&& OTHERS = 0

/-- No other user holds a hidden file open, and what the vendor opened for writing since
descriptor `f₀` is hidden. -/
structure Guarded (me : Uid) (i₀ f₀ : Nat) (s : Disk) : Prop where
  newInode : i₀ ≤ s.nextInode
  newHandle : f₀ ≤ s.nextHandle
  below : ∀ i node, s.inode i = some node → i < s.nextInode
  held : ∀ fd h, s.handle fd = some h → h.inode < s.nextInode
  outside : ∀ fd h node, s.handle fd = some h → h.uid ≠ me → s.inode h.inode = some node →
    ¬ Hidden me i₀ h.inode node
  inside : ∀ fd h, f₀ ≤ fd → s.handle fd = some h → h.uid = me → h.writable = true →
    ∃ node, s.inode h.inode = some node ∧ Hidden me i₀ h.inode node

/-- A mask that is clear of the group's and others' bits is clear of some of them. -/
theorem clear_of_others {mode bits : UInt32} (hbits : OTHERS &&& bits = bits)
    (h : mode &&& OTHERS = 0) : mode &&& bits = 0 := by
  rw [← hbits, ← UInt32.and_assoc, h, UInt32.zero_and]

section
variable {me u : Uid} {i₀ f₀ i fd : Nat} {s : Disk} {node : Inode}

theorem not_hidden_of_mayRead (hroot : u ≠ 0) (hu : u ≠ me) (h : node.MayRead u) :
    ¬ Hidden me i₀ i node := by
  intro hid
  rcases h with h | ⟨h, -⟩ | ⟨-, h⟩
  · exact hroot h
  · exact hu (h.trans hid.owner)
  · exact h (clear_of_others (by decide) hid.mode)

theorem not_hidden_of_mayWrite (hroot : u ≠ 0) (hu : u ≠ me) (h : node.MayWrite u) :
    ¬ Hidden me i₀ i node := by
  intro hid
  rcases h with h | ⟨h, -⟩ | ⟨-, h⟩
  · exact hroot h
  · exact hu (h.trans hid.owner)
  · exact h (clear_of_others (by decide) hid.mode)

namespace Guarded

theorem setEntry (h : Guarded me i₀ f₀ s) (path : Path) (e : Option Entry) :
    Guarded me i₀ f₀ (s.setEntry path e) :=
  ⟨h.newInode, h.newHandle, h.below, h.held, h.outside, h.inside⟩

theorem shut (h : Guarded me i₀ f₀ s) (fd : Nat) : Guarded me i₀ f₀ (s.shut fd) := by
  have hkeep : ∀ fd' g, (s.shut fd).handle fd' = some g → s.handle fd' = some g := by
    intro fd' g hg
    rcases eq_or_ne fd' fd with rfl | hne
    · simp [Disk.shut] at hg
    · simpa [Disk.shut, hne] using hg
  exact ⟨h.newInode, h.newHandle, h.below, fun fd' g hg => h.held fd' g (hkeep fd' g hg),
    fun fd' g node hg => h.outside fd' g node (hkeep fd' g hg),
    fun fd' g hnew hg => h.inside fd' g hnew (hkeep fd' g hg)⟩

theorem opened (h : Guarded me i₀ f₀ s) {writable : Bool} (hnode : s.inode i = some node)
    (hother : u ≠ me → ¬ Hidden me i₀ i node)
    (hmine : u = me → writable = true → Hidden me i₀ i node) :
    Guarded me i₀ f₀ (s.opened u i writable) := by
  have hcases : ∀ fd g, (s.opened u i writable).handle fd = some g →
      g = ⟨u, i, writable⟩ ∨ s.handle fd = some g := by
    intro fd g hg
    rcases eq_or_ne fd s.nextHandle with rfl | hne
    · left
      simpa [Disk.opened, eq_comm] using hg
    · right
      simpa [Disk.opened, hne] using hg
  refine ⟨h.newInode, Nat.le_succ_of_le h.newHandle, h.below, ?_, ?_, ?_⟩
  · intro fd g hg
    rcases hcases fd g hg with rfl | hold
    · exact h.below i node hnode
    · exact h.held fd g hold
  · intro fd g node' hg hne hnode'
    rcases hcases fd g hg with rfl | hold
    · obtain rfl : node = node' := Option.some.inj (hnode.symm.trans hnode')
      exact hother hne
    · exact h.outside fd g node' hold hne hnode'
  · intro fd g hnew hg hme hw
    rcases hcases fd g hg with rfl | hold
    · exact ⟨node, hnode, hmine hme hw⟩
    · exact h.inside fd g hnew hold hme hw

theorem setInode (h : Guarded me i₀ f₀ s) {node' : Inode} (hnode : s.inode i = some node)
    (hsame : Hidden me i₀ i node' ↔ Hidden me i₀ i node) :
    Guarded me i₀ f₀ (s.setInode i node') := by
  have hcases : ∀ j b, (s.setInode i node').inode j = some b →
      ∃ a, s.inode j = some a ∧ (Hidden me i₀ j b ↔ Hidden me i₀ j a) := by
    intro j b hb
    rcases eq_or_ne j i with rfl | hne
    · obtain rfl : node' = b := by simpa [Disk.setInode] using hb
      exact ⟨node, hnode, hsame⟩
    · exact ⟨b, by simpa [Disk.setInode, hne] using hb, Iff.rfl⟩
  refine ⟨h.newInode, h.newHandle, ?_, h.held, ?_, ?_⟩
  · intro j b hb
    obtain ⟨a, ha, -⟩ := hcases j b hb
    exact h.below j a ha
  · intro fd g b hg hne hb
    obtain ⟨a, ha, hiff⟩ := hcases _ b hb
    rw [hiff]
    exact h.outside fd g a hg hne ha
  · intro fd g hnew hg hme hw
    obtain ⟨a, ha, hid⟩ := h.inside fd g hnew hg hme hw
    rcases eq_or_ne g.inode i with heq | hne
    · rw [heq] at ha hid ⊢
      obtain rfl : node = a := Option.some.inj (hnode.symm.trans ha)
      exact ⟨node', by simp [Disk.setInode], hsame.mpr hid⟩
    · exact ⟨a, by simpa [Disk.setInode, hne] using ha, hid⟩

theorem created (h : Guarded me i₀ f₀ s) (path : Path) {mode : UInt32}
    (hmode : u = me → mode &&& OTHERS = 0) : Guarded me i₀ f₀ (s.created u path mode) := by
  have hnodes : ∀ j b, (s.created u path mode).inode j = some b →
      (j = s.nextInode ∧ b = ⟨u, mode, []⟩) ∨ s.inode j = some b := by
    intro j b hb
    rcases eq_or_ne j s.nextInode with rfl | hne
    · exact .inl ⟨rfl, by simpa [Disk.created, eq_comm] using hb⟩
    · exact .inr (by simpa [Disk.created, hne] using hb)
  have hcases : ∀ fd g, (s.created u path mode).handle fd = some g →
      g = ⟨u, s.nextInode, true⟩ ∨ s.handle fd = some g := by
    intro fd g hg
    rcases eq_or_ne fd s.nextHandle with rfl | hne
    · left
      simpa [Disk.created, eq_comm] using hg
    · right
      simpa [Disk.created, hne] using hg
  refine ⟨Nat.le_succ_of_le h.newInode, Nat.le_succ_of_le h.newHandle, ?_, ?_, ?_, ?_⟩
  · intro j b hb
    rcases hnodes j b hb with ⟨rfl, -⟩ | hold
    · exact Nat.lt_succ_self _
    · exact Nat.lt_succ_of_lt (h.below j b hold)
  · intro fd g hg
    rcases hcases fd g hg with rfl | hold
    · exact Nat.lt_succ_self _
    · exact Nat.lt_succ_of_lt (h.held fd g hold)
  · intro fd g b hg hne hb hid
    rcases hcases fd g hg with rfl | hold
    · rcases hnodes _ b hb with ⟨-, rfl⟩ | hb
      · exact hne hid.owner
      · exact Nat.lt_irrefl _ (h.below _ b hb)
    · rcases hnodes _ b hb with ⟨heq, -⟩ | hb
      · exact Nat.ne_of_lt (h.held fd g hold) heq
      · exact h.outside fd g b hold hne hb hid
  · intro fd g hnew hg hme hw
    rcases hcases fd g hg with rfl | hold
    · exact ⟨⟨u, mode, []⟩, by simp [Disk.created], h.newInode, hme, hmode hme⟩
    · obtain ⟨a, ha, hid⟩ := h.inside fd g hnew hold hme hw
      have hne : g.inode ≠ s.nextInode := Nat.ne_of_lt (h.held fd g hold)
      exact ⟨a, by simpa [Disk.created, hne] using ha, hid⟩

end Guarded

end

/-! ## What everybody sees alike -/

/-- The same file, unless it is hidden; then as long. -/
structure SameFile (me : Uid) (i₀ i : Nat) (a b : Inode) : Prop where
  owner : b.owner = a.owner
  mode : b.mode = a.mode
  size : b.text.length = a.text.length
  text : b.text = a.text ∨ Hidden me i₀ i a

/-- The same disk, but for what stands in the hidden files. -/
structure Masked (me : Uid) (i₀ : Nat) (s t : Disk) : Prop where
  entry : t.entry = s.entry
  handle : t.handle = s.handle
  nextInode : t.nextInode = s.nextInode
  nextHandle : t.nextHandle = s.nextHandle
  file : ∀ i, (s.inode i = none ∧ t.inode i = none) ∨
    ∃ a b, s.inode i = some a ∧ t.inode i = some b ∧ SameFile me i₀ i a b

namespace Masked

variable {me u : Uid} {i₀ i : Nat} {s t : Disk}

theorem refl (s : Disk) : Masked me i₀ s s := by
  refine ⟨rfl, rfl, rfl, rfl, fun i => ?_⟩
  cases hi : s.inode i with
  | none => exact .inl ⟨rfl, rfl⟩
  | some a => exact .inr ⟨a, a, rfl, rfl, rfl, rfl, rfl, .inl rfl⟩

theorem node (h : Masked me i₀ s t) {a : Inode} (ha : s.inode i = some a) :
    ∃ b, t.inode i = some b ∧ SameFile me i₀ i a b := by
  rcases h.file i with ⟨hnone, -⟩ | ⟨a', b, ha', hb, hsame⟩
  · rw [ha] at hnone
    cases hnone
  · obtain rfl : a' = a := Option.some.inj (ha'.symm.trans ha)
    exact ⟨b, hb, hsame⟩

theorem follow (h : Masked me i₀ s t) (n : Nat) (path : Path) : t.follow n path = s.follow n path := by
  induction n generalizing path with
  | zero => rfl
  | succ n ih =>
    simp only [Disk.follow, h.entry]
    split
    · rfl
    · rfl
    · exact ih _

theorem setEntry (h : Masked me i₀ s t) (path : Path) (e : Option Entry) :
    Masked me i₀ (s.setEntry path e) (t.setEntry path e) :=
  ⟨by simp [Disk.setEntry, h.entry], h.handle, h.nextInode, h.nextHandle, h.file⟩

theorem shut (h : Masked me i₀ s t) (fd : Nat) : Masked me i₀ (s.shut fd) (t.shut fd) :=
  ⟨h.entry, by simp [Disk.shut, h.handle], h.nextInode, h.nextHandle, h.file⟩

theorem opened (h : Masked me i₀ s t) (i : Nat) (writable : Bool) :
    Masked me i₀ (s.opened u i writable) (t.opened u i writable) :=
  ⟨h.entry, by simp [Disk.opened, h.handle, h.nextHandle], h.nextInode,
    by simp [Disk.opened, h.nextHandle], h.file⟩

theorem setInode (h : Masked me i₀ s t) {a b : Inode} (hsame : SameFile me i₀ i a b) :
    Masked me i₀ (s.setInode i a) (t.setInode i b) := by
  refine ⟨h.entry, h.handle, h.nextInode, h.nextHandle, fun j => ?_⟩
  rcases eq_or_ne j i with rfl | hne
  · exact .inr ⟨a, b, by simp [Disk.setInode], by simp [Disk.setInode], hsame⟩
  · simpa [Disk.setInode, hne] using h.file j

theorem created (h : Masked me i₀ s t) (path : Path) (mode : UInt32) :
    Masked me i₀ (s.created u path mode) (t.created u path mode) := by
  refine ⟨by simp [Disk.created, h.entry, h.nextInode],
    by simp [Disk.created, h.handle, h.nextInode, h.nextHandle],
    by simp [Disk.created, h.nextInode], by simp [Disk.created, h.nextHandle], fun j => ?_⟩
  rcases eq_or_ne j s.nextInode with rfl | hne
  · exact .inr ⟨⟨u, mode, []⟩, ⟨u, mode, []⟩, by simp [Disk.created],
      by simp [Disk.created, h.nextInode], rfl, rfl, rfl, .inl rfl⟩
  · simpa [Disk.created, hne, h.nextInode] using h.file j

end Masked

/-! ## The two runs -/

/-- Calls of the vendor's that are answered alike in both runs. -/
def Quiet : SysCall → Prop
  | .pathExists _ | .unlink _ | .close _ | .stat _ | .openRead _ => True
  | _ => False

section
variable (me : Uid) (g : Vector UInt8 32 → Vector UInt8 32) (f₀ : Nat)

/-- A call in the first run, and in the one where every seed `x` is `g x`. -/
inductive Calls : Call → Call → Prop where
  | other {c : Call} (hu : c.uid ≠ me) (hroot : c.uid ≠ 0) : Calls c c
  | quiet {c : SysCall} (h : Quiet c) : Calls ⟨me, c⟩ ⟨me, c⟩
  | draw : Calls ⟨me, .urandom⟩ ⟨me, .urandom⟩
  | read (fd : Nat) : Calls ⟨me, .read fd⟩ ⟨me, .read fd⟩
  | create (path : Path) {mode : UInt32} (h : mode &&& OTHERS = 0) :
      Calls ⟨me, .openNew path mode⟩ ⟨me, .openNew path mode⟩
  | write {fd : Nat} (seed : Vector UInt8 32) (h : f₀ ≤ fd) :
      Calls ⟨me, .write fd (keyLine seed)⟩ ⟨me, .write fd (keyLine (g seed))⟩

/-- The two answers. -/
inductive Answers : (c c' : Call) → c.Resp → c'.Resp → Prop where
  | same {c : Call} (h : c.uid = me → Quiet c.sys) (r : c.Resp) : Answers c c r r
  | draw (seed : Vector UInt8 32) : Answers ⟨me, .urandom⟩ ⟨me, .urandom⟩ seed (g seed)
  | read (fd : Nat) (r r' : Option (List Char)) (h : r'.isSome = r.isSome) :
      Answers ⟨me, .read fd⟩ ⟨me, .read fd⟩ r r'
  | create (path : Path) (mode : UInt32) (r : Option Nat) (h : ∀ fd, r = some fd → f₀ ≤ fd) :
      Answers ⟨me, .openNew path mode⟩ ⟨me, .openNew path mode⟩ r r
  | write (fd : Nat) (seed : Vector UInt8 32) (r : Bool) :
      Answers ⟨me, .write fd (keyLine seed)⟩ ⟨me, .write fd (keyLine (g seed))⟩ r r

end

section
variable {me u : Uid} {g : Vector UInt8 32 → Vector UInt8 32} {i₀ f₀ : Nat} {umask : Uid → UInt32}
  {s s' t : Disk}

/-- A call that either run may make: the same answer, and the same change. -/
theorem step_same (hguard : Guarded me i₀ f₀ s) (hmask : Masked me i₀ s t) {c : SysCall}
    (hu : (u = me ∧ Quiet c) ∨ (u ≠ me ∧ u ≠ 0)) {r : Call.Resp ⟨u, c⟩}
    (hk : kernel umask ⟨u, c⟩ s r s') :
    ∃ t', kernel umask ⟨u, c⟩ t r t' ∧ Guarded me i₀ f₀ s' ∧ Masked me i₀ s' t' := by
  cases c with
  | pathExists path =>
    obtain ⟨rfl, hr⟩ := hk
    exact ⟨t, ⟨rfl, by rw [hmask.follow]; exact hr⟩, hguard, hmask⟩
  | urandom => exact ⟨t, rfl, hk ▸ hguard, hk ▸ hmask⟩
  | unlink path =>
    simp only [kernel, hmask.entry] at hk ⊢
    rcases hk with ⟨hr, hthere, rfl⟩ | ⟨hr, hthere, rfl⟩ | ⟨hr, rfl⟩
    · exact ⟨_, .inl ⟨hr, hthere, rfl⟩, hguard.setEntry _ _, hmask.setEntry _ _⟩
    · exact ⟨t, .inr (.inl ⟨hr, hthere, rfl⟩), hguard, hmask⟩
    · exact ⟨t, .inr (.inr ⟨hr, rfl⟩), hguard, hmask⟩
  | openNew path mode =>
    obtain ⟨hu, -⟩ := hu.resolve_left fun h => h.2
    simp only [kernel, hmask.entry, hmask.nextHandle] at hk ⊢
    rcases hk with ⟨hnew, hr, rfl⟩ | ⟨hr, rfl⟩
    · exact ⟨_, .inl ⟨hnew, hr, rfl⟩, hguard.created path fun h => absurd h hu, hmask.created _ _⟩
    · exact ⟨t, .inr ⟨hr, rfl⟩, hguard, hmask⟩
  | write fd text =>
    obtain ⟨hu, -⟩ := hu.resolve_left fun h => h.2
    simp only [kernel, hmask.handle] at hk ⊢
    rcases hk with ⟨h, node, n, hfd, rfl, hw, hnode, hr, rfl⟩ | ⟨hr, rfl⟩
    · obtain ⟨b, hb, hsame⟩ := hmask.node hnode
      have hclear := hsame.text.resolve_right (hguard.outside fd h node hfd hu hnode)
      refine ⟨_, .inl ⟨h, b, n, hfd, rfl, hw, hb, hr, rfl⟩, hguard.setInode hnode ?_,
        hmask.setInode ⟨hsame.owner, hsame.mode, ?_, .inl ?_⟩⟩
      · exact ⟨fun h => ⟨h.new, h.owner, h.mode⟩, fun h => ⟨h.new, h.owner, h.mode⟩⟩
      · simp [hclear]
      · simp [hclear]
    · exact ⟨t, .inr ⟨hr, rfl⟩, hguard, hmask⟩
  | close fd =>
    simp only [kernel, hmask.handle] at hk ⊢
    rcases hk with ⟨h, hfd, hmine, rfl⟩ | rfl
    · exact ⟨_, .inl ⟨h, hfd, hmine, rfl⟩, hguard.shut fd, hmask.shut fd⟩
    · exact ⟨t, .inr rfl, hguard, hmask⟩
  | stat path =>
    obtain ⟨rfl, hr⟩ := hk
    refine ⟨t, ⟨rfl, fun mode size hsome => ?_⟩, hguard, hmask⟩
    obtain ⟨i, node, hi, hnode, rfl, rfl⟩ := hr mode size hsome
    obtain ⟨b, hb, hsame⟩ := hmask.node hnode
    exact ⟨i, b, by rw [hmask.follow]; exact hi, hb, hsame.mode.symm, hsame.size.symm⟩
  | openRead path =>
    simp only [kernel, hmask.follow, hmask.nextHandle] at hk ⊢
    rcases hk with ⟨i, node, hi, hnode, hmay, hr, rfl⟩ | ⟨hr, rfl⟩
    · obtain ⟨b, hb, hsame⟩ := hmask.node hnode
      refine ⟨_, .inl ⟨i, b, hi, hb, ?_, hr, rfl⟩, hguard.opened hnode ?_ fun _ h => Bool.noConfusion h,
        hmask.opened i false⟩
      · simpa only [Inode.MayRead, hsame.owner, hsame.mode] using hmay
      · intro hne
        have hroot := hu.resolve_left fun h => hne h.1
        exact not_hidden_of_mayRead hroot.2 hne hmay
    · exact ⟨t, .inr ⟨hr, rfl⟩, hguard, hmask⟩
  | read fd =>
    obtain ⟨hu, -⟩ := hu.resolve_left fun h => h.2
    obtain ⟨rfl, hr⟩ := hk
    refine ⟨t, ⟨rfl, fun text hsome => ?_⟩, hguard, hmask⟩
    obtain ⟨h, node, hfd, hmine, hnode, rfl⟩ := hr text hsome
    obtain ⟨b, hb, hsame⟩ := hmask.node hnode
    have hclear := hsame.text.resolve_right (hguard.outside fd h node hfd (hmine ▸ hu) hnode)
    exact ⟨h, b, by rw [hmask.handle]; exact hfd, hmine, hb, hclear.symm⟩
  | openWrite path =>
    obtain ⟨hu, hroot⟩ := hu.resolve_left fun h => h.2
    simp only [kernel, hmask.follow, hmask.nextHandle] at hk ⊢
    rcases hk with ⟨i, node, hi, hnode, hmay, hr, rfl⟩ | ⟨hr, rfl⟩
    · obtain ⟨b, hb, hsame⟩ := hmask.node hnode
      refine ⟨_, .inl ⟨i, b, hi, hb, ?_, hr, rfl⟩,
        hguard.opened hnode (fun _ => not_hidden_of_mayWrite hroot hu hmay) fun h => absurd h hu,
        hmask.opened i true⟩
      simpa only [Inode.MayWrite, hsame.owner, hsame.mode] using hmay
    · exact ⟨t, .inr ⟨hr, rfl⟩, hguard, hmask⟩
  | overwrite fd text =>
    obtain ⟨hu, -⟩ := hu.resolve_left fun h => h.2
    simp only [kernel, hmask.handle] at hk ⊢
    rcases hk with ⟨h, node, hfd, rfl, hw, hnode, rfl⟩ | ⟨hr, rfl⟩
    · obtain ⟨b, hb, hsame⟩ := hmask.node hnode
      refine ⟨_, .inl ⟨h, b, hfd, rfl, hw, hb, rfl⟩, hguard.setInode hnode ?_,
        hmask.setInode ⟨hsame.owner, hsame.mode, rfl, .inl rfl⟩⟩
      exact ⟨fun h => ⟨h.new, h.owner, h.mode⟩, fun h => ⟨h.new, h.owner, h.mode⟩⟩
    · exact ⟨t, .inr ⟨hr, rfl⟩, hguard, hmask⟩
  | chmod path mode =>
    obtain ⟨hu, hroot⟩ := hu.resolve_left fun h => h.2
    simp only [kernel, hmask.follow] at hk ⊢
    rcases hk with ⟨i, node, hi, hnode, howner, rfl⟩ | ⟨hr, rfl⟩
    · obtain ⟨b, hb, hsame⟩ := hmask.node hnode
      -- a file that somebody else may `chmod` is not the vendor's
      have hown : node.owner ≠ me := (howner.resolve_left hroot) ▸ hu
      have hclear := hsame.text.resolve_right fun hid => hown hid.owner
      refine ⟨_, .inl ⟨i, b, hi, hb, by rw [hsame.owner]; exact howner, rfl⟩,
        hguard.setInode hnode ⟨fun h => absurd h.owner hown, fun h => absurd h.owner hown⟩,
        hmask.setInode ⟨hsame.owner, rfl, hsame.size, .inl hclear⟩⟩
    · exact ⟨t, .inr ⟨hr, rfl⟩, hguard, hmask⟩
  | link old new =>
    simp only [kernel, hmask.follow, hmask.entry] at hk ⊢
    rcases hk with ⟨i, hi, hnew, rfl⟩ | ⟨hr, rfl⟩
    · exact ⟨_, .inl ⟨i, hi, hnew, rfl⟩, hguard.setEntry _ _, hmask.setEntry _ _⟩
    · exact ⟨t, .inr ⟨hr, rfl⟩, hguard, hmask⟩
  | symlink target new =>
    simp only [kernel, hmask.entry] at hk ⊢
    rcases hk with ⟨hnew, rfl⟩ | ⟨hr, rfl⟩
    · exact ⟨_, .inl ⟨hnew, rfl⟩, hguard.setEntry _ _, hmask.setEntry _ _⟩
    · exact ⟨t, .inr ⟨hr, rfl⟩, hguard, hmask⟩
  | rename old new =>
    simp only [kernel, hmask.entry] at hk ⊢
    rcases hk with ⟨e, he, rfl⟩ | ⟨hr, rfl⟩
    · exact ⟨_, .inl ⟨e, he, rfl⟩, (hguard.setEntry _ _).setEntry _ _,
        (hmask.setEntry _ _).setEntry _ _⟩
    · exact ⟨t, .inr ⟨hr, rfl⟩, hguard, hmask⟩

theorem step_write (hguard : Guarded me i₀ f₀ s) (hmask : Masked me i₀ s t) {fd : Nat}
    (hfd : f₀ ≤ fd) (seed : Vector UInt8 32) {r : Bool}
    (hk : kernel umask ⟨me, .write fd (keyLine seed)⟩ s r s') :
    ∃ t', kernel umask ⟨me, .write fd (keyLine (g seed))⟩ t r t' ∧ Guarded me i₀ f₀ s' ∧
      Masked me i₀ s' t' := by
  simp only [kernel, hmask.handle] at hk ⊢
  rcases hk with ⟨h, node, n, hopen, hmine, hw, hnode, hr, rfl⟩ | ⟨hr, rfl⟩
  · obtain ⟨b, hb, hsame⟩ := hmask.node hnode
    obtain ⟨node', hnode', hid⟩ := hguard.inside fd h hfd hopen hmine hw
    obtain rfl : node = node' := Option.some.inj (hnode.symm.trans hnode')
    have hlong : (keyLine (g seed)).length = (keyLine seed).length := by simp
    refine ⟨_, .inl ⟨h, b, n, hopen, hmine, hw, hb, by rw [hlong]; exact hr, rfl⟩,
      hguard.setInode hnode ⟨fun h => ⟨h.new, h.owner, h.mode⟩, fun h => ⟨h.new, h.owner, h.mode⟩⟩,
      hmask.setInode ⟨hsame.owner, hsame.mode, ?_, .inr ⟨hid.new, hid.owner, hid.mode⟩⟩⟩
    simp [hsame.size]
  · exact ⟨t, .inr ⟨hr, rfl⟩, hguard, hmask⟩

theorem step_calls (hguard : Guarded me i₀ f₀ s) (hmask : Masked me i₀ s t) {c c' : Call}
    (hc : Calls me g f₀ c c') {r : c.Resp} (hk : kernel umask c s r s') :
    ∃ r' t', kernel umask c' t r' t' ∧ Answers me g f₀ c c' r r' ∧ Guarded me i₀ f₀ s' ∧
      Masked me i₀ s' t' := by
  cases hc with
  | other hu hroot =>
    obtain ⟨u, c⟩ := c
    obtain ⟨t', hk', hguard', hmask'⟩ := step_same hguard hmask (.inr ⟨hu, hroot⟩) hk
    exact ⟨r, t', hk', .same (fun h => absurd h hu) r, hguard', hmask'⟩
  | @quiet c h =>
    obtain ⟨t', hk', hguard', hmask'⟩ := step_same hguard hmask (.inl ⟨rfl, h⟩) hk
    exact ⟨r, t', hk', .same (fun _ => h) r, hguard', hmask'⟩
  | draw => exact ⟨g r, t, rfl, .draw r, hk ▸ hguard, hk ▸ hmask⟩
  | read fd =>
    obtain ⟨rfl, hr⟩ := hk
    cases r with
    | none => exact ⟨none, t, ⟨rfl, fun _ h => by cases h⟩, .read fd none none rfl, hguard, hmask⟩
    | some text =>
      obtain ⟨h, node, hopen, hmine, hnode, -⟩ := hr text rfl
      obtain ⟨b, hb, -⟩ := hmask.node hnode
      refine ⟨some b.text, t, ⟨rfl, fun text' h' => ?_⟩, .read fd _ _ rfl, hguard, hmask⟩
      exact ⟨h, b, by rw [hmask.handle]; exact hopen, hmine, hb, (Option.some.inj h').symm⟩
  | @create path mode h =>
    have hmode : (mode &&& ~~~umask me) &&& OTHERS = 0 := by
      rw [UInt32.and_assoc, UInt32.and_comm _ OTHERS, ← UInt32.and_assoc, h, UInt32.zero_and]
    have hfd : ∀ fd, r = some fd → f₀ ≤ fd := by
      intro fd hr
      rcases hk with ⟨-, hnew, -⟩ | ⟨hnone, -⟩
      · rw [hnew] at hr
        exact Option.some.inj hr ▸ hguard.newHandle
      · rw [hnone] at hr
        cases hr
    simp only [kernel, hmask.entry, hmask.nextHandle] at hk ⊢
    rcases hk with ⟨hnew, hr, rfl⟩ | ⟨hr, rfl⟩
    · exact ⟨r, _, .inl ⟨hnew, hr, rfl⟩, .create path mode r hfd, hguard.created path fun _ => hmode,
        hmask.created _ _⟩
    · exact ⟨r, t, .inr ⟨hr, rfl⟩, .create path mode r hfd, hguard, hmask⟩
  | @write fd seed hfd =>
    obtain ⟨t', hk', hguard', hmask'⟩ := step_write hguard hmask hfd seed hk
    exact ⟨r, t', hk', .write fd seed r, hguard', hmask'⟩

end

/-- What the two runs have in common. -/
def veil (umask : Uid → UInt32) (me : Uid) (g : Vector UInt8 32 → Vector UInt8 32) (i₀ f₀ : Nat) :
    Unwinding (kernel umask) where
  state s t := Guarded me i₀ f₀ s ∧ Masked me i₀ s t
  call := Calls me g f₀
  answer := Answers me g f₀
  step := fun ⟨hguard, hmask⟩ hc hk => step_calls hguard hmask hc hk

/-! ## Alone on the machine -/

section
variable {me : Uid} {umask : Uid → UInt32} {s s' : Disk}

theorem exec_sys {α : Type} {u : Uid} {c : SysCall} {k : Call.Resp ⟨u, c⟩ → KeyProg α}
    {t : List (Event Call.Resp)} {a : α} :
    Prog.Exec (kernel umask) (sys u c >>= k) s t a s' ↔ ∃ r s₁ t', t = ⟨⟨u, c⟩, r⟩ :: t' ∧
      kernel umask ⟨u, c⟩ s r s₁ ∧ Prog.Exec (kernel umask) (k r) s₁ t' a s' :=
  Prog.exec_call

/-- Nothing on it yet. -/
def Disk.blank : Disk := ⟨fun _ => none, fun _ => none, fun _ => none, 0, 0⟩

/-- `keygen` where nothing goes wrong. -/
def keygenTrace (me : Uid) (key : Path) (seed : Vector UInt8 32) : List (Event Call.Resp) :=
  [⟨⟨me, .pathExists key⟩, false⟩, ⟨⟨me, .urandom⟩, seed⟩, ⟨⟨me, .unlink key⟩, .notFound⟩,
    ⟨⟨me, .openNew key 0o600⟩, some 0⟩, ⟨⟨me, .write 0 (keyLine seed)⟩, true⟩,
    ⟨⟨me, .close 0⟩, ()⟩]

/-- Where there is nothing yet, `keygen` can succeed. -/
theorem exec_keygen_blank (pubkeyOf : Vector UInt8 32 → Vector UInt8 32) (key : Path)
    (seed : Vector UInt8 32) : ∃ s', Prog.Exec (kernel umask) (cmdKeygen pubkeyOf me key false)
        .blank (keygenTrace me key seed) (.ok (pubkeyOf seed)) s' ∧
      s'.entry key = some (.file 0) ∧
      s'.inode 0 = some ⟨me, 0o600 &&& ~~~umask me, keyLine seed⟩ := by
  have hthere : (Disk.blank.follow LINK_MAX key).isSome = false := by
    simp [Disk.follow, LINK_MAX, Disk.blank]
  have hlong : true = true → (keyLine seed).length ≤ 65 :=
    fun _ => Nat.le_of_eq (length_keyLine seed)
  have hput : ∃ s', Prog.Exec (kernel umask) (putKey me key seed) .blank
      [⟨⟨me, .openNew key 0o600⟩, some 0⟩, ⟨⟨me, .write 0 (keyLine seed)⟩, true⟩,
        ⟨⟨me, .close 0⟩, ()⟩] true s' ∧ s'.entry key = some (.file 0) ∧
      s'.inode 0 = some ⟨me, 0o600 &&& ~~~umask me, keyLine seed⟩ := by
    refine ⟨_, exec_sys.mpr ⟨some 0, _, _, rfl, .inl ⟨rfl, rfl, rfl⟩, exec_sys.mpr
      ⟨true, _, _, rfl, .inl ⟨_, _, 65, rfl, rfl, rfl, rfl, hlong, rfl⟩, exec_sys.mpr
        ⟨(), _, _, rfl, .inl ⟨_, rfl, rfl, rfl⟩, .ret _ _⟩⟩⟩, ?_, ?_⟩
    · simp [Disk.shut, Disk.setInode, Disk.created, Disk.blank]
    · simp [Disk.shut, Disk.setInode, Disk.created, Disk.blank, List.take_of_length_le]
  obtain ⟨s', hput, hfile⟩ := hput
  exact ⟨s', exec_sys.mpr ⟨false, _, _, rfl, ⟨rfl, by rw [hthere]⟩, exec_sys.mpr
    ⟨seed, _, _, rfl, rfl, exec_sys.mpr ⟨.notFound, _, _, rfl, .inr (.inl ⟨rfl, rfl, rfl⟩),
      Prog.exec_bind.mpr ⟨true, _, _, [], rfl, hput, .ret _ _⟩⟩⟩⟩, hfile⟩

end

/-! ## The processes -/

section
variable {α : Type} {me : Uid} {g : Vector UInt8 32 → Vector UInt8 32} {i₀ f₀ : Nat}
  {umask : Uid → UInt32}

/-- A process of the vendor's: `keygen`, or a subcommand that reads the key; `f` is what
the subcommand makes of it. -/
inductive Vendor (pubkeyOf : Vector UInt8 32 → Vector UInt8 32) (me : Uid) : KeyProg α → Prop where
  | keygen (key : Path) (force : Bool) (f : Except KeyExit (Vector UInt8 32) → α) :
      Vendor pubkeyOf me (cmdKeygen pubkeyOf me key force >>= fun r => .ret (f r))
  | reader (path : Path) (f : Except KeyExit (Vector UInt8 32) → α) :
      Vendor pubkeyOf me (readKey me path >>= fun r => .ret (f r))

/-- Any process of another user's, root apart. -/
def Other (me : Uid) (p : KeyProg α) : Prop := p.Only fun c => c.uid ≠ me ∧ c.uid ≠ 0

/-- Only a seed, and what is read, may differ. -/
theorem Answers.agree {c c' : Call} {r : c.Resp} {r' : c'.Resp} (h : Answers me g f₀ c c' r r')
    (hdraw : c.sys ≠ .urandom) (hread : ∀ fd, c.sys ≠ .read fd) : HEq r' r := by
  cases h with
  | same => rfl
  | draw => exact absurd rfl hdraw
  | read fd => exact absurd rfl (hread fd)
  | create => rfl
  | write => rfl

/-- What others are told does not differ. -/
theorem Answers.seen {c c' : Call} {r : c.Resp} {r' : c'.Resp} (h : Answers me g f₀ c c' r r')
    (hu : c.uid ≠ me) : HEq r' r := by
  cases h with
  | same => rfl
  | draw => exact absurd rfl hu
  | read => exact absurd rfl hu
  | create => exact absurd rfl hu
  | write => exact absurd rfl hu

theorem alike_quiet {c : SysCall} (h : Quiet c) :
    Alike (veil umask me g i₀ f₀) Eq (sys me c) (sys me c) := by
  refine .call (.quiet h) fun r r' hr => .ret ?_
  refine (eq_of_heq (Answers.agree hr ?_ ?_)).symm
  · rintro rfl
    exact h
  · rintro fd rfl
    exact h

theorem alike_putKey (key : Path) (seed : Vector UInt8 32) :
    Alike (veil umask me g i₀ f₀) Eq (putKey me key seed) (putKey me key (g seed)) := by
  refine .call (.create key (by decide)) fun r r' hr => ?_
  cases hr with
  | same h => exact absurd (h rfl) id
  | create _ _ _ hfd =>
    cases r with
    | none => exact .ret rfl
    | some fd =>
      refine .call (.write seed (hfd fd rfl)) fun w w' hw => ?_
      have hagree : HEq w' w := Answers.agree hw SysCall.noConfusion fun _ => SysCall.noConfusion
      obtain rfl := eq_of_heq hagree
      exact (alike_quiet (c := .close fd) trivial).bind fun _ _ _ => .ret rfl

theorem alike_keygen (pubkeyOf : Vector UInt8 32 → Vector UInt8 32) (key : Path) (force : Bool) :
    Alike (veil umask me g i₀ f₀) (fun _ _ => True) (cmdKeygen pubkeyOf me key force)
      (cmdKeygen pubkeyOf me key force) := by
  refine (alike_quiet (c := .pathExists key) trivial).bind fun there _ h => ?_
  subst h
  split
  · exact .ret trivial
  refine .call .draw fun seed seed' h => ?_
  cases h with
  | same h => exact absurd (h rfl) id
  | draw =>
    refine (alike_quiet (c := .unlink key) trivial).bind fun gone _ h => ?_
    subst h
    split
    · exact .ret trivial
    · exact (alike_putKey key seed).bind fun _ _ _ => .ret trivial

theorem alike_reader (path : Path) :
    Alike (veil umask me g i₀ f₀) (fun _ _ => True) (readKey me path) (readKey me path) := by
  refine (alike_quiet (c := .stat path) trivial).bind fun r _ h => ?_
  subst h
  match r with
  | none => exact .ret trivial
  | some (mode, _) =>
    dsimp only
    split
    · exact .ret trivial
    refine (alike_quiet (c := .openRead path) trivial).bind fun r _ h => ?_
    subst h
    cases r with
    | none => exact .ret trivial
    | some fd =>
      refine .call (.read fd) fun r r' _ => ?_
      cases r <;> cases r' <;> exact .ret trivial

/-- Whoever's it is, a process does the same in both runs, as long as it is told the same. -/
theorem alike_process {pubkeyOf : Vector UInt8 32 → Vector UInt8 32} {p : KeyProg α}
    (h : Vendor pubkeyOf me p ∨ Other me p) : Alike (veil umask me g i₀ f₀) (fun _ _ => True) p p := by
  rcases h with h | h
  · cases h with
    | keygen key force f => exact (alike_keygen pubkeyOf key force).bind fun _ _ _ => .ret trivial
    | reader path f => exact (alike_reader path).bind fun _ _ _ => .ret trivial
  · exact Alike.refl h (fun c hc => .other hc.1 hc.2)
      (fun c hc r r' ha => eq_of_heq (Answers.seen ha hc.1)) fun _ => trivial

/-- Numbers are given out in order. -/
structure Disk.Sane (s : Disk) : Prop where
  below : ∀ i node, s.inode i = some node → i < s.nextInode
  held : ∀ fd h, s.handle fd = some h → fd < s.nextHandle ∧ h.inode < s.nextInode

theorem Disk.sane_blank : Disk.blank.Sane := ⟨nofun, nofun⟩

theorem Disk.Sane.guarded {s : Disk} (h : s.Sane) (me : Uid) :
    Guarded me s.nextInode s.nextHandle s where
  newInode := Nat.le_refl _
  newHandle := Nat.le_refl _
  below := h.below
  held := fun fd g hg => (h.held fd g hg).2
  outside := fun fd g _ hg _ _ hid => Nat.not_lt.mpr hid.new (h.held fd g hg).2
  inside := fun fd g hnew hg _ _ => absurd (h.held fd g hg).1 (Nat.not_lt.mpr hnew)

/-- A step, and the one that stands for it where every seed `x` is `g x`: others are told
the same, and the vendor writes the other key. -/
structure Told (me : Uid) (g : Vector UInt8 32 → Vector UInt8 32)
    (l l' : Nat × Event Call.Resp) : Prop where
  thread : l'.1 = l.1
  seen : l.2.1.uid ≠ me → l'.2 = l.2
  drawn : ∀ seed, l.2 = ⟨⟨me, .urandom⟩, seed⟩ → l'.2 = ⟨⟨me, .urandom⟩, g seed⟩
  written : ∀ fd seed r, l.2 = ⟨⟨me, .write fd (keyLine seed)⟩, r⟩ →
    l'.2 = ⟨⟨me, .write fd (keyLine (g seed))⟩, r⟩

theorem Calls.write_inv {c c' : Call} (h : Calls me g f₀ c c') {fd : Nat} {seed : Vector UInt8 32}
    (hc : c = ⟨me, .write fd (keyLine seed)⟩) : c' = ⟨me, .write fd (keyLine (g seed))⟩ := by
  cases h with
  | other hu => exact absurd (congrArg Call.uid hc) hu
  | quiet h =>
    obtain ⟨-, rfl⟩ := Call.mk.inj hc
    exact absurd h id
  | write seed' =>
    obtain ⟨-, hsys⟩ := Call.mk.inj hc
    obtain ⟨rfl, htext⟩ := SysCall.write.inj hsys
    rw [keyLine_inj htext]
  | draw => cases (Call.mk.inj hc).2
  | read => cases (Call.mk.inj hc).2
  | create => cases (Call.mk.inj hc).2

theorem told_of_label {l l' : Nat × Event Call.Resp} (h : (veil umask me g i₀ f₀).label l l') :
    Told me g l l' := by
  obtain ⟨i, c, r⟩ := l
  obtain ⟨i', c', r'⟩ := l'
  obtain ⟨hi, hc, ha⟩ := h
  refine ⟨hi, fun hu => ?_, fun seed hl => ?_, fun fd seed r₁ hl => ?_⟩
  · cases hc with
    | other => exact congrArg (Sigma.mk c) (eq_of_heq (Answers.seen ha hu))
    | _ => exact absurd rfl hu
  · obtain ⟨rfl, hr⟩ := Sigma.mk.inj hl
    obtain rfl := eq_of_heq hr
    cases ha with
    | same h => exact absurd (h rfl) id
    | draw => rfl
  · obtain ⟨rfl, hr⟩ := Sigma.mk.inj hl
    obtain rfl := eq_of_heq hr
    obtain rfl := Calls.write_inv hc rfl
    have hagree : HEq r' r := Answers.agree ha (by simp) (by simp)
    exact congrArg (Sigma.mk _) (eq_of_heq hagree)

/-- **Nobody can tell the seed.** Any number of the vendor's processes on one machine with
any processes of other users, interleaved in any way: for every run, and every map `g` of
seeds, there is a run in which `g x` is drawn and written wherever `x` was, all other users
are told exactly the same, and in the end the disks differ in nothing but the text of files
closed to them. -/
theorem key_secret {pubkeyOf : Vector UInt8 32 → Vector UInt8 32} (umask : Uid → UInt32) (me : Uid)
    (g : Vector UInt8 32 → Vector UInt8 32) {s : Disk} (hs : s.Sane) {threads : List (KeyProg α)}
    (hthreads : ∀ p ∈ threads, Vendor pubkeyOf me p ∨ Other me p) {ls : List (Nat × Event Call.Resp)}
    {m : Pool Call Call.Resp Disk α} (h : Run (Pool.Step (kernel umask)) ⟨s, threads⟩ ls m) :
    ∃ ls' m', Run (Pool.Step (kernel umask)) ⟨s, threads⟩ ls' m' ∧
      List.Forall₂ (Told me g) ls ls' ∧ Masked me s.nextInode m.shared m'.shared := by
  have halike : List.Forall₂ (Alike (veil umask me g s.nextInode s.nextHandle) fun _ _ => True)
      threads threads :=
    List.forall₂_same.mpr fun p hp => alike_process (hthreads p hp)
  obtain ⟨ls', m', hrun, hlabels, ⟨-, hmask⟩, -⟩ :=
    (veil umask me g s.nextInode s.nextHandle).run (n := ⟨s, threads⟩) h
      ⟨hs.guarded me, .refl s⟩ halike
  exact ⟨ls', m', hrun, hlabels.imp fun _ _ => told_of_label, hmask⟩

end

/-! User 1000 draws a key, and 1001 tries the file. -/

def KEY : Path := "vl.key".toList

def keygenProcess : KeyProg Unit := cmdKeygen publicKey 1000 KEY false >>= fun _ => .ret ()

def spyProcess : KeyProg Unit := sys 1001 (.openRead KEY) >>= fun _ => .ret ()

/-- `keygen` is done when 1001 comes, and is turned away. -/
def spied (seed : Vector UInt8 32) : List (Nat × Event Call.Resp) :=
  (keygenTrace 1000 KEY seed).map (0, ·) ++ [(1, ⟨⟨1001, .openRead KEY⟩, none⟩)]

theorem run_spied (seed : Vector UInt8 32) : ∃ m,
    Run (Pool.Step (kernel fun _ => 0o022)) ⟨.blank, [keygenProcess, spyProcess]⟩ (spied seed) m := by
  obtain ⟨s', hkeygen, -⟩ := exec_keygen_blank publicKey KEY seed
  have hprocess : Prog.Exec (kernel fun _ => 0o022) keygenProcess .blank
      (keygenTrace 1000 KEY seed ++ []) () s' :=
    Prog.exec_bind.mpr ⟨_, _, _, _, rfl, hkeygen, .ret _ _⟩
  have hfirst : [keygenProcess, spyProcess][0]? = some keygenProcess := rfl
  obtain ⟨q, s₁, hrun, -⟩ := Pool.run_of_exec hprocess hfirst
  have hspy : Pool.Step (kernel fun _ => 0o022) ⟨s₁, [q, spyProcess]⟩
      (1, ⟨⟨1001, .openRead KEY⟩, none⟩) ⟨s₁, [q, .ret ()]⟩ := ⟨_, rfl, .inr ⟨rfl, rfl⟩, rfl⟩
  exact ⟨_, Run.append_iff.mpr ⟨_, hrun, .cons hspy (.nil _)⟩⟩

theorem key_secret_spied : ∃ m : Pool Call Call.Resp Disk Unit, ∃ ls' m',
    Run (Pool.Step (kernel fun _ => 0o022)) ⟨.blank, [keygenProcess, spyProcess]⟩
      (spied (.replicate 32 0)) m ∧
    Run (Pool.Step (kernel fun _ => 0o022)) ⟨.blank, [keygenProcess, spyProcess]⟩ ls' m' ∧
    List.Forall₂ (Told 1000 fun _ => .replicate 32 1) (spied (.replicate 32 0)) ls' ∧
    Masked 1000 0 m.shared m'.shared := by
  have hthreads : ∀ p ∈ [keygenProcess, spyProcess], Vendor publicKey 1000 p ∨ Other 1000 p := by
    intro p hp
    rcases List.mem_cons.mp hp with rfl | hp
    · exact .inl (.keygen _ _ _)
    · obtain rfl := List.mem_singleton.mp hp
      exact .inr ⟨by decide, fun _ => trivial⟩
  obtain ⟨m, hrun⟩ := run_spied (.replicate 32 0)
  obtain ⟨ls', m', h⟩ :=
    key_secret (fun _ => 0o022) 1000 (fun _ => .replicate 32 1) Disk.sane_blank hthreads hrun
  exact ⟨m, ls', m', hrun, h⟩

/-! ## The key among other users -/

section
variable {me : Uid} {umask : Uid → UInt32} {s s' : Disk}

end

end VectiLicense.L7.KeyFile
