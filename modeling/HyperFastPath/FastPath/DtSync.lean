import HyperFastPath.FastPath.Message
import HyperFastPath.Lib.Hpack
import HyperFastPath.Lib.Http2

/-!
# Handing over the dynamic table

`render_dt_sync` and `prepend_dt_sync` of `fast_path.bpf.c`: the mirrored table as an HPACK block,
and the frame that carries it in front of a message.
-/

namespace HyperFastPath.FastPath

open Bytes

def dtSyncFrameType : UInt8 := 0xFB

/-- The number of entries of the HPACK static table. -/
def staticTableSize : Nat := 61

/-- The most entries a single sync frame carries. -/
def maxSyncEntries : Nat := 8

/-- The longest name or value a sync frame spells out. -/
def maxSyncField : Nat := 126

/-- What the program is compiled with: the longest name or value the parser keeps, which has to
leave the body of a sync frame smaller than its buffer. -/
structure Limits where
  fieldMaxlen : Nat
  fits : maxSyncEntries * (2 + 2 * fieldMaxlen) ≤ maxSyncBuf

def Limits.maxSyncBody (lim : Limits) : Nat := maxSyncEntries * (2 + 2 * lim.fieldMaxlen)

theorem Limits.maxSyncBody_le (lim : Limits) : lim.maxSyncBody ≤ maxSyncBuf := lim.fits

/-- An entry of the mirrored table, in the form it arrived in. -/
structure HeaderField where
  key : List UInt8
  keyHuff : Bool
  val : List UInt8
  valHuff : Bool
  deriving DecidableEq, Repr

/-- `get_dt_entry` on a mirrored table, the most recent entry of which comes first. -/
def getDtEntry (table : List HeaderField) (idx : Nat) : Option HeaderField :=
  if idx ≤ staticTableSize then none else table[idx - staticTableSize - 1]?

/-- `bpf_clamp_uminmax`. -/
def clamp (x lo hi : Nat) : Nat := max lo (min x hi)

structure DtSyncBuf where
  data : List UInt8
  len : Nat
  deriving DecidableEq, Repr

section

variable (lim : Limits)

def syncPut (buf : DtSyncBuf) (src : List UInt8) : Option DtSyncBuf :=
  let off := buf.len
  if src.length > maxSyncField ∨ off + src.length > lim.maxSyncBody then none
  else
    let copy : Except Unit (List UInt8) := Loops.run src.length (fun i data ↦
      let j := clamp i 0 (maxSyncField - 1)
      let o := clamp (off + j) 0 (lim.maxSyncBody - 1)
      .next (data.set o (src.getD j 0))) buf.data
    copy.toOption.map fun data ↦ { data, len := off + src.length }

def syncPutByte (buf : DtSyncBuf) (c : UInt8) : Option DtSyncBuf :=
  if buf.len + 1 > lim.maxSyncBody then none
  else
    let off := clamp buf.len 0 (lim.maxSyncBody - 1)
    some { data := buf.data.set off c, len := off + 1 }

/-- One turn of `render_dt_sync`. -/
def renderField (buf : DtSyncBuf) (hf : HeaderField) : Option DtSyncBuf :=
  if hf.key.length = 0 ∨ hf.key.length > maxSyncField ∨ hf.val.length > maxSyncField then none
  else do
    let buf ← syncPutByte lim buf 0x40
    let buf ← syncPutByte lim buf ((if hf.keyHuff then 0x80 else 0) ||| UInt8.ofNat hf.key.length)
    let buf ← syncPut lim buf hf.key
    let buf ← syncPutByte lim buf ((if hf.valHuff then 0x80 else 0) ||| UInt8.ofNat hf.val.length)
    syncPut lim buf hf.val

/-- `render_dt_sync`; the counter of its loop is how many entries are left. -/
def renderDtSync (table : List HeaderField) : Nat → DtSyncBuf → Option DtSyncBuf
  | 0, buf => some buf
  | left + 1, buf => do
    -- the oldest of the entries that are left goes first
    let hf ← getDtEntry table (staticTableSize + (left + 1))
    let buf ← renderField lim buf hf
    renderDtSync table left buf

def dtSyncHeader (bodyLen : Nat) : List UInt8 :=
  [UInt8.ofNat (bodyLen >>> 16), UInt8.ofNat (bodyLen >>> 8), UInt8.ofNat bodyLen,
    dtSyncFrameType, 0, 0, 0, 0, 0]

/-- `prepend_dt_sync`: what it returns, and the message after it. -/
def prependDtSync (h : Helpers) (table : List HeaderField) (msg : SkMsg) (n : Nat) : Int × SkMsg :=
  if h.ok .lookupScratch = false then (-1, msg)
  else
    match renderDtSync lim table n { data := h.scratch.1, len := 0 } with
    | none => (-1, msg)
    | some buf =>
      if buf.len > lim.maxSyncBody then (-1, msg)
      else
        let bodyLen := clamp buf.len 0 lim.maxSyncBody
        let frameLen := 9 + bodyLen
        match msg.push (h.ok .pushDtSync) (h.inserted .pushDtSync) 0 frameLen with
        | none => (-1, msg)
        | some msg =>
          match msg.pull (h.ok .pullDtSync) 0 frameLen with
          -- the room that was made stays
          | none => (-1, msg)
          | some msg =>
            if ¬ msg.Reaches 9 then (-1, msg)
            else
              let copy := Loops.run bodyLen (fun i msg ↦
                let j := clamp i 0 (lim.maxSyncBody - 1)
                if ¬ msg.Reaches (9 + j + 1) then .ret msg
                else .next (msg.put (9 + j) [buf.data.getD j 0]))
                (msg.put 0 (dtSyncHeader bodyLen))
              match copy with
              | .ok msg => (frameLen, msg)
              | .error msg => (-1, msg)

/-! ## 1. Rendering the table -/

/-- An entry the encoder can spell out. -/
def HeaderField.Fits (hf : HeaderField) : Prop :=
  0 < hf.key.length ∧ hf.key.length ≤ maxSyncField ∧ hf.val.length ≤ maxSyncField

instance (hf : HeaderField) : Decidable hf.Fits := inferInstanceAs (Decidable (_ ∧ _))

/-- The literal an entry is written as. -/
def HeaderField.literal (hf : HeaderField) : List UInt8 :=
  [0x40, (if hf.keyHuff then 0x80 else 0) ||| UInt8.ofNat hf.key.length] ++ hf.key ++
    [(if hf.valHuff then 0x80 else 0) ||| UInt8.ofNat hf.val.length] ++ hf.val

/-- The entries as a block, oldest first. -/
def syncBlock (fields : List HeaderField) : List UInt8 :=
  fields.reverse.flatMap HeaderField.literal

def HeaderField.wireLen (hf : HeaderField) : Nat := 3 + hf.key.length + hf.val.length

def wireLen (fields : List HeaderField) : Nat := (fields.map HeaderField.wireLen).sum

@[simp] theorem literal_length (hf : HeaderField) : hf.literal.length = hf.wireLen := by
  simp only [HeaderField.literal, HeaderField.wireLen, List.length_append, List.length_cons,
    List.length_nil]
  omega

@[simp] theorem syncBlock_length (fields : List HeaderField) :
    (syncBlock fields).length = wireLen fields := by
  simp only [syncBlock, wireLen, List.length_flatMap, literal_length, List.map_reverse,
    List.sum_reverse]

structure DtSyncBuf.Holds (buf : DtSyncBuf) (block : List UInt8) : Prop where
  size : buf.data.length = maxSyncBuf
  len : buf.len = block.length
  data : buf.data.take buf.len = block

theorem clamp_eq {x hi : Nat} (h : x ≤ hi) : clamp x 0 hi = x := by
  simp [clamp, h]

variable {lim} {buf : DtSyncBuf} {block : List UInt8}

theorem DtSyncBuf.Holds.append (hb : buf.Holds block) {new : List UInt8}
    (hlen : block.length + new.length ≤ maxSyncBuf) :
    DtSyncBuf.Holds ⟨overwrite buf.data buf.len new, buf.len + new.length⟩ (block ++ new) := by
  obtain ⟨hsize, hl, hd⟩ := hb
  refine ⟨by rw [overwrite_length (by omega), hsize], by rw [hl, List.length_append], ?_⟩
  have hfront : (block ++ new).length = buf.len + new.length := by rw [hl, List.length_append]
  simp only [overwrite, hd]
  rw [← hfront, List.take_left]

/-- A step of the renderer that adds `new` to the buffer, or fails when that does not fit. -/
def Emits (lim : Limits) (f : DtSyncBuf → Option DtSyncBuf) (new : List UInt8) : Prop :=
  ∀ buf block, buf.Holds block → block.length ≤ lim.maxSyncBody →
    if block.length + new.length ≤ lim.maxSyncBody then
      ∃ buf', f buf = some buf' ∧ buf'.Holds (block ++ new)
    else f buf = none

theorem Emits.bind {f g : DtSyncBuf → Option DtSyncBuf} {a b : List UInt8}
    (hf : Emits lim f a) (hg : Emits lim g b) : Emits lim (fun buf ↦ f buf >>= g) (a ++ b) := by
  intro buf block hb hle
  have h := hf buf block hb hle
  simp only [List.length_append]
  -- what does not fit after `a` does not fit after `a ++ b`
  by_cases ha : block.length + a.length ≤ lim.maxSyncBody
  · rw [if_pos ha] at h
    obtain ⟨buf', hbuf', hb'⟩ := h
    have h' := hg buf' _ hb' (by rwa [List.length_append])
    simp only [List.length_append, Nat.add_assoc, List.append_assoc] at h'
    simpa only [hbuf', Option.bind_eq_bind, Option.bind_some] using h'
  · rw [if_neg ha] at h
    rw [if_neg (by omega)]
    simp only [h, Option.bind_eq_bind, Option.bind_none]

theorem syncPutByte_emits (c : UInt8) : Emits lim (syncPutByte lim · c) [c] := by
  intro buf block hb _
  have hbody := lim.maxSyncBody_le
  have hlen := hb.len
  have hsize := hb.size
  rw [List.length_singleton]
  split
  · have hoff : clamp buf.len 0 (lim.maxSyncBody - 1) = buf.len := clamp_eq (by omega)
    refine ⟨_, ?_, hb.append (by simp only [List.length_singleton]; omega)⟩
    show syncPutByte lim buf c = _
    rw [syncPutByte, if_neg (by omega)]
    simp only [hoff]
    rw [set_eq_overwrite (by omega)]
    rfl
  · exact if_pos (by omega)

theorem syncPut_emits {src : List UInt8} (hs : src.length ≤ maxSyncField) :
    Emits lim (syncPut lim · src) src := by
  intro buf block hb _
  have hbody := lim.maxSyncBody_le
  have hlen := hb.len
  have hsize := hb.size
  split
  · refine ⟨_, ?_, hb.append (by omega)⟩
    show syncPut lim buf src = _
    rw [syncPut, if_neg (by omega)]
    simp only
    -- none of the clamps takes effect, and the bytes written so far are those of `src`
    rw [Loops.run_eq_ok (t := overwrite buf.data buf.len src)]
    · rfl
    · refine Loops.run_rule (I := fun i data ↦ data = overwrite buf.data buf.len (src.take i))
        (by simp) ?_ ?_
      · rintro i data hi rfl
        have hj : clamp i 0 (maxSyncField - 1) = i := clamp_eq (by omega)
        have ho : clamp (buf.len + i) 0 (lim.maxSyncBody - 1) = buf.len + i :=
          clamp_eq (by omega)
        show _ = _
        rw [hj, ho, ← overwrite_take_succ hi (by omega) 0, set_eq_overwrite]
        rw [overwrite_length (by rw [List.length_take]; omega)]
        omega
      · rintro data rfl
        rw [List.take_length]
  · exact if_pos (by omega)

theorem renderField_emits {hf : HeaderField} (h : hf.Fits) :
    Emits lim (renderField lim · hf) hf.literal := by
  obtain ⟨hpos, hkey, hval⟩ := h
  have hrender (buf : DtSyncBuf) : renderField lim buf hf = _ :=
    if_neg (by omega)
  simp only [hrender]
  -- five steps, of which each emits its part of the literal
  have hsplit : hf.literal = [0x40] ++
      ([(if hf.keyHuff then 0x80 else 0) ||| UInt8.ofNat hf.key.length] ++ (hf.key ++
        ([(if hf.valHuff then 0x80 else 0) ||| UInt8.ofNat hf.val.length] ++ hf.val))) := by
    simp [HeaderField.literal]
  rw [hsplit]
  exact (syncPutByte_emits _).bind ((syncPutByte_emits _).bind ((syncPut_emits hkey).bind
    ((syncPutByte_emits _).bind (syncPut_emits hval))))

theorem renderField_none {hf : HeaderField} (h : ¬ hf.Fits) (buf : DtSyncBuf) :
    renderField lim buf hf = none := by
  apply if_pos
  simp only [HeaderField.Fits] at h
  omega

theorem getDtEntry_dynamic (table : List HeaderField) (left : Nat) :
    getDtEntry table (staticTableSize + (left + 1)) = table[left]? := by
  rw [getDtEntry, if_neg (by omega)]
  congr 1
  omega

/-- The `n` most recent entries are there, and each of them can be spelled out. -/
def Renderable (table : List HeaderField) (n : Nat) : Prop :=
  n ≤ table.length ∧ ∀ hf ∈ table.take n, hf.Fits

instance (table : List HeaderField) (n : Nat) : Decidable (Renderable table n) :=
  inferInstanceAs (Decidable (_ ∧ _))

theorem renderable_succ_iff (table : List HeaderField) (n : Nat) :
    Renderable table (n + 1) ↔ (∃ hf, table[n]? = some hf ∧ hf.Fits) ∧ Renderable table n := by
  by_cases hn : n < table.length
  · have htake : table.take (n + 1) = table.take n ++ [table[n]] := by
      rw [List.take_add_one, List.getElem?_eq_getElem hn]
      rfl
    simp only [Renderable, htake, List.getElem?_eq_getElem hn, List.mem_append,
      List.mem_singleton, Option.some.injEq]
    constructor
    · rintro ⟨-, hall⟩
      exact ⟨⟨_, rfl, hall _ (.inr rfl)⟩, by omega, fun hf hm ↦ hall hf (.inl hm)⟩
    · rintro ⟨⟨_, rfl, hfit⟩, -, hall⟩
      refine ⟨by omega, ?_⟩
      rintro hf (hm | rfl)
      · exact hall hf hm
      · exact hfit
  · rw [List.getElem?_eq_none (by omega)]
    simp only [Renderable, reduceCtorEq, false_and, exists_false, iff_false, not_and]
    omega

variable (lim) in
theorem renderDtSync_emits {table : List HeaderField} {n : Nat} (h : Renderable table n) :
    Emits lim (renderDtSync lim table n) (syncBlock (table.take n)) := by
  induction n with
  | zero => exact fun buf block hb hle ↦ by simpa [syncBlock, renderDtSync, hle] using hb
  | succ n ih =>
    obtain ⟨⟨hf, hget, hfit⟩, hrest⟩ := (renderable_succ_iff table n).mp h
    have hblock : syncBlock (table.take (n + 1)) = hf.literal ++ syncBlock (table.take n) := by
      rw [List.take_add_one, hget]
      simp [syncBlock]
    have hrender (buf : DtSyncBuf) :
        renderDtSync lim table (n + 1) buf = renderField lim buf hf >>= renderDtSync lim table n := by
      rw [renderDtSync, getDtEntry_dynamic, hget]
      rfl
    rw [hblock]
    intro buf block hb hle
    simp only [hrender]
    exact (renderField_emits hfit).bind (ih hrest) buf block hb hle

theorem renderDtSync_none {table : List HeaderField} {n : Nat} (h : ¬ Renderable table n)
    (buf : DtSyncBuf) : renderDtSync lim table n buf = none := by
  induction n generalizing buf with
  | zero => exact absurd ⟨Nat.zero_le _, by simp⟩ h
  | succ n ih =>
    rw [renderable_succ_iff, not_and_or] at h
    rw [renderDtSync, getDtEntry_dynamic]
    cases hget : table[n]? with
    | none => rfl
    | some hf =>
      simp only [Option.bind_eq_bind, Option.bind_some]
      -- either this entry fails, or one of those behind it does
      by_cases hfit : hf.Fits
      · have hrest := ih (h.resolve_left (not_not.mpr ⟨hf, hget, hfit⟩))
        cases renderField lim buf hf with
        | none => rfl
        | some buf' => exact hrest buf'
      · rw [renderField_none hfit]
        rfl

/-- The table can be replayed: its `n` most recent entries can be rendered into a body. -/
def Replayable (lim : Limits) (table : List HeaderField) (n : Nat) : Prop :=
  Renderable table n ∧ wireLen (table.take n) ≤ lim.maxSyncBody

instance (table : List HeaderField) (n : Nat) : Decidable (Replayable lim table n) :=
  inferInstanceAs (Decidable (_ ∧ _))

variable (lim) in
theorem renderDtSync_eq (table : List HeaderField) (n : Nat)
    (scratch : { l : List UInt8 // l.length = maxSyncBuf }) :
    if Replayable lim table n then
      ∃ buf, renderDtSync lim table n ⟨scratch.1, 0⟩ = some buf ∧
        buf.Holds (syncBlock (table.take n))
    else renderDtSync lim table n ⟨scratch.1, 0⟩ = none := by
  have hb : DtSyncBuf.Holds ⟨scratch.1, 0⟩ [] := ⟨scratch.2, rfl, List.take_zero⟩
  by_cases hr : Renderable table n
  · have h := renderDtSync_emits lim hr _ _ hb (Nat.zero_le _)
    simpa [Replayable, hr] using h
  · rw [if_neg fun h ↦ hr h.1]
    exact renderDtSync_none hr _

/-! ## 2. Prepending the frame -/

def dtSyncFrame (block : List UInt8) : List UInt8 := dtSyncHeader block.length ++ block

@[simp] theorem dtSyncFrame_length (block : List UInt8) :
    (dtSyncFrame block).length = 9 + block.length := by
  simp [dtSyncFrame, dtSyncHeader]
  omega

def SkMsg.Prepended (m m' : SkMsg) (front : List UInt8) : Prop :=
  m'.bytes = front ++ m.bytes ∧ m'.applyBytes = m.applyBytes ∧ m'.redirect = m.redirect

theorem prependDtSync_not_replayable {table : List HeaderField} {n : Nat}
    (hr : ¬ Replayable lim table n) (h : Helpers) (msg : SkMsg) :
    prependDtSync lim h table msg n = (-1, msg) := by
  have hrender := renderDtSync_eq lim table n h.scratch
  rw [if_neg hr] at hrender
  simp only [prependDtSync, hrender, ite_self]

/-- What a sync puts ahead of a message.  Where only the last helper call fails, the room made for
the frame stays as it is. -/
def replayPrefix (h : Helpers) (fields : List HeaderField) : List UInt8 :=
  if h.ok .lookupScratch ∧ h.ok .pushDtSync then
    if h.ok .pullDtSync then dtSyncFrame (syncBlock fields)
    else (List.range (9 + wireLen fields)).map (h.inserted .pushDtSync)
  else []

theorem replayPrefix_ok {h : Helpers}
    (hok : h.ok .lookupScratch ∧ h.ok .pushDtSync ∧ h.ok .pullDtSync) (fields : List HeaderField) :
    replayPrefix h fields = dtSyncFrame (syncBlock fields) := by
  rw [replayPrefix, if_pos ⟨hok.1, hok.2.1⟩, if_pos hok.2.2]

/-- A table that can be replayed is prepended unless a helper fails. -/
theorem prependDtSync_replayable {table : List HeaderField} {n : Nat}
    (hr : Replayable lim table n) (h : Helpers) (msg : SkMsg) :
    ∃ msg', prependDtSync lim h table msg n =
        (if h.ok .lookupScratch ∧ h.ok .pushDtSync ∧ h.ok .pullDtSync then
          9 + (wireLen (table.take n) : Int) else -1, msg') ∧
      msg.Prepended msg' (replayPrefix h (table.take n)) := by
  have hrender := renderDtSync_eq lim table n h.scratch
  rw [if_pos hr] at hrender
  obtain ⟨buf, hrender, hb⟩ := hrender
  have hlen : buf.len = wireLen (table.take n) := by rw [hb.len, syncBlock_length]
  have hle : buf.len ≤ lim.maxSyncBody := by rw [hlen]; exact hr.2
  by_cases hs : h.ok .lookupScratch = true
  swap
  · exact ⟨msg, by simp [prependDtSync, hs], by simp [SkMsg.Prepended, replayPrefix, hs]⟩
  by_cases hp : h.ok .pushDtSync = true
  swap
  · exact ⟨msg, by simp [prependDtSync, hs, hrender, push_front, hp],
      by simp [SkMsg.Prepended, replayPrefix, hp]⟩
  set base := (List.range (9 + buf.len)).map (h.inserted .pushDtSync) ++ msg.bytes with hbase
  have hroom : 9 + buf.len ≤ base.length := by simp [hbase]
  have hpull := pull_eq (m := msg.withBytes base) (h.ok .pullDtSync)
    (show 0 < 9 + buf.len by omega) hroom
  by_cases hq : h.ok .pullDtSync = true
  swap
  · rw [if_neg hq] at hpull
    refine ⟨msg.withBytes base, ?_, ?_⟩
    · rw [if_neg fun hall ↦ hq hall.2.2]
      simp only [prependDtSync, hs, hrender, push_front, hp, ← hbase, hpull, if_true,
        clamp_eq hle, Bool.true_eq_false, if_false]
      rw [if_neg (by omega)]
    · rw [replayPrefix, if_pos ⟨hs, hp⟩, if_neg hq, ← hlen]
      exact ⟨hbase, rfl, rfl⟩
  rw [if_pos hq] at hpull
  set frame := dtSyncFrame (syncBlock (table.take n)) with hframe
  have hflen : frame.length = 9 + buf.len := by rw [hframe, dtSyncFrame_length, hb.len]
  set pulled : SkMsg := { msg.withBytes base with data := 0, dataEnd := 9 + buf.len } with hpulled
  refine ⟨pulled.withBytes (overwrite base 0 frame), ?_, ?_⟩
  · rw [if_pos ⟨hs, hp, hq⟩, ← hlen]
    simp only [prependDtSync, hs, hrender, push_front, hp, ← hbase, hpull, if_true,
      clamp_eq hle, Bool.true_eq_false, if_false]
    rw [if_neg (by omega), if_neg (by simp [SkMsg.Reaches, hpulled])]
    -- after `i` turns the frame is written up to the `i`th byte of its body
    rw [Loops.run_eq_ok (t := pulled.withBytes (overwrite base 0 frame))]
    · push_cast
      rfl
    · refine Loops.run_rule
        (I := fun i m ↦ m = pulled.withBytes (overwrite base 0 (frame.take (9 + i)))) ?_ ?_ ?_
      · rw [hframe, dtSyncFrame, List.take_left' (by simp [dtSyncHeader]), ← hb.len]
        simp only [SkMsg.put, hpulled, SkMsg.withBytes, Nat.add_zero]
      · rintro i m hi rfl
        have hj : clamp i 0 (lim.maxSyncBody - 1) = i := clamp_eq (by omega)
        have hget : frame.getD (9 + i) 0 = buf.data.getD i 0 := by
          rw [hframe, dtSyncFrame, ← hb.data, List.getD_eq_getElem?_getD,
            List.getElem?_append_right (by simp [dtSyncHeader])]
          simp only [dtSyncHeader, List.length_cons, List.length_nil, Nat.zero_add,
            Nat.reduceAdd, Nat.add_sub_cancel_left]
          rw [List.getElem?_take_of_lt hi, ← List.getD_eq_getElem?_getD]
        simp only [hj]
        rw [if_neg (by simp only [SkMsg.Reaches, SkMsg.withBytes, hpulled]; omega)]
        have hstep : overwrite (overwrite base 0 (frame.take (9 + i))) (0 + (9 + i))
            [frame.getD (9 + i) 0] = overwrite base 0 (frame.take (9 + i + 1)) :=
          overwrite_take_succ (by omega) (by omega) 0
        rw [hget] at hstep
        show (pulled.withBytes _).put _ _ = pulled.withBytes _
        rw [SkMsg.put, show 9 + (i + 1) = 9 + i + 1 by omega, ← hstep]
        rfl
      · rintro m rfl
        rw [← hflen, List.take_length]
  · rw [replayPrefix_ok ⟨hs, hp, hq⟩, ← hframe]
    refine ⟨?_, rfl, rfl⟩
    rw [SkMsg.bytes_withBytes, overwrite_zero, hflen, hbase, List.drop_left' (by simp)]

end

end HyperFastPath.FastPath
