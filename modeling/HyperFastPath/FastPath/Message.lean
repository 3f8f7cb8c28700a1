import HyperFastPath.Lib.Bytes
import HyperFastPath.Lib.Loops

/-!
# Messages and the helpers that change them

The `sk_msg_md` a verdict program is handed, and the `bpf_msg_*` helpers of `fast_path.bpf.c` on it.
Any call of a helper may fail, which leaves the message as it was.
-/

namespace HyperFastPath.FastPath

open Bytes

/-- The helper calls of one run of `msg_verdict`, by where they are made and, in a loop, on which
turn. -/
inductive Call where
  | pushDtSync
  | pullDtSync
  | pushFcSync
  | pullFcSync
  | pullFrameHeader (i : Nat)
  | pullFlowFrame (i : Nat)
  | pushRoute (i : Nat)
  | popRoute
  | pullRoute (c : Nat)
  | pullSid (i : Nat)
  | readPath
  | readContentLength
  | lookupScratch
  | redirectEgress
  | redirectIngress
  | setHandshaked
  | setUpgraded
  | setFlow
  | setDirty
  | clearDirty
  deriving DecidableEq, Repr

/-- The size of the buffer a sync frame's body is built up in. -/
def maxSyncBuf : Nat := 4096

/-- How the helpers answer in one run: which calls succeed, what the bytes an insertion makes room
for hold, and what an earlier run left in the scratch buffer. -/
structure Helpers where
  ok : Call → Bool
  inserted : Call → Nat → UInt8
  scratch : { l : List UInt8 // l.length = maxSyncBuf }

def Helpers.AllOk (h : Helpers) : Prop := ∀ c, h.ok c = true

/-- Helpers that never fail. -/
def allOk : Helpers where
  ok _ := true
  inserted _ _ := 0
  scratch := ⟨List.replicate maxSyncBuf 0, List.length_replicate⟩

theorem not_allOk {h : Helpers} {c : Call} (hc : h.ok c = false) : ¬ h.AllOk := fun hall ↦ by
  rw [hall c] at hc
  cases hc

inductive Direction where
  | ingress
  | egress
  deriving DecidableEq, Repr

/-- `data` and `dataEnd` are the offsets of the window that was last pulled in, `applyBytes` is what
`bpf_msg_apply_bytes` was last called with. -/
structure SkMsg where
  bytes : List UInt8
  data : Nat
  dataEnd : Nat
  applyBytes : Nat
  redirect : Option Direction
  deriving DecidableEq, Repr

def SkMsg.ofBytes (bytes : List UInt8) : SkMsg :=
  { bytes, data := 0, dataEnd := 0, applyBytes := 0, redirect := none }

def SkMsg.size (m : SkMsg) : Nat := m.bytes.length

def SkMsg.get (m : SkMsg) (i : Nat) : UInt8 := m.bytes.getD (m.data + i) 0

def SkMsg.put (m : SkMsg) (i : Nat) (new : List UInt8) : SkMsg :=
  { m with bytes := overwrite m.bytes (m.data + i) new }

def SkMsg.withBytes (m : SkMsg) (bytes : List UInt8) : SkMsg := { m with bytes }

/-- The bounds check in front of an access to the first `n` bytes of the window. -/
def SkMsg.Reaches (m : SkMsg) (n : Nat) : Prop := m.data + n ≤ m.dataEnd

instance (m : SkMsg) (n : Nat) : Decidable (m.Reaches n) := inferInstanceAs (Decidable (_ ≤ _))

/-- `bpf_msg_pull_data`. -/
def SkMsg.pull (m : SkMsg) (ok : Bool) (start stop : Nat) : Option SkMsg :=
  if ok ∧ start < stop ∧ stop ≤ m.size then some { m with data := start, dataEnd := stop } else none

/-- `bpf_msg_push_data`. -/
def SkMsg.push (m : SkMsg) (ok : Bool) (inserted : Nat → UInt8) (start len : Nat) :
    Option SkMsg :=
  if ok ∧ start ≤ m.size then
    some (m.withBytes (m.bytes.take start ++ (List.range len).map inserted ++ m.bytes.drop start))
  else none

/-- `bpf_msg_pop_data`. -/
def SkMsg.pop (m : SkMsg) (ok : Bool) (start len : Nat) : Option SkMsg :=
  if ok ∧ start + len ≤ m.size then
    some (m.withBytes (m.bytes.take start ++ m.bytes.drop (start + len)))
  else none

/-- `bpf_msg_redirect_hash`, to the socket of the connection. -/
def SkMsg.redirectTo (m : SkMsg) (ok : Bool) (dir : Direction) : Option SkMsg :=
  if ok then some { m with redirect := some dir } else none

def SkMsg.apply (m : SkMsg) (n : Nat) : SkMsg := { m with applyBytes := n }

/-! ## What the operations leave alone -/

@[simp] theorem SkMsg.size_withBytes (m : SkMsg) (bytes : List UInt8) :
    (m.withBytes bytes).size = bytes.length := rfl

@[simp] theorem SkMsg.bytes_withBytes (m : SkMsg) (bytes : List UInt8) :
    (m.withBytes bytes).bytes = bytes := rfl

@[simp] theorem SkMsg.put_data (m : SkMsg) (i : Nat) (new : List UInt8) :
    (m.put i new).data = m.data := rfl

@[simp] theorem SkMsg.put_dataEnd (m : SkMsg) (i : Nat) (new : List UInt8) :
    (m.put i new).dataEnd = m.dataEnd := rfl

/-- Two messages that differ in their window only. -/
def SkMsg.SameContent (m m' : SkMsg) : Prop :=
  m'.bytes = m.bytes ∧ m'.applyBytes = m.applyBytes ∧ m'.redirect = m.redirect

theorem SkMsg.SameContent.refl (m : SkMsg) : m.SameContent m := ⟨rfl, rfl, rfl⟩

theorem SkMsg.SameContent.trans {m m' m'' : SkMsg} (h : m.SameContent m')
    (h' : m'.SameContent m'') : m.SameContent m'' :=
  ⟨h'.1.trans h.1, h'.2.1.trans h.2.1, h'.2.2.trans h.2.2⟩

theorem pull_sameContent {m m' : SkMsg} {ok : Bool} {start stop : Nat}
    (h : m.pull ok start stop = some m') : m.SameContent m' := by
  unfold SkMsg.pull at h
  split at h
  · cases h
    exact ⟨rfl, rfl, rfl⟩
  · cases h

theorem put_put {m : SkMsg} {a b : List UInt8} (h : m.data + a.length ≤ m.size) :
    (m.put 0 a).put a.length b = m.put 0 (a ++ b) := by
  simp only [SkMsg.put, Nat.add_zero]
  rw [overwrite_adjacent h]

theorem push_front (m : SkMsg) (ok : Bool) (inserted : Nat → UInt8) (len : Nat) :
    m.push ok inserted 0 len =
      if ok then some (m.withBytes ((List.range len).map inserted ++ m.bytes)) else none := by
  cases ok <;> simp [SkMsg.push]

theorem pull_eq {m : SkMsg} {start stop : Nat} (ok : Bool) (hlt : start < stop)
    (hle : stop ≤ m.size) :
    m.pull ok start stop = if ok then some { m with data := start, dataEnd := stop } else none := by
  cases ok <;> simp [SkMsg.pull, hlt, hle]

end HyperFastPath.FastPath
