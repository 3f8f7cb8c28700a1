import HyperFastPath.FastPath.DtSync
import HyperFastPath.Lib.Logged
import Mathlib.Tactic.IntervalCases

/-!
# Room for the dynamic table

Whether `MAX_SYNC_BODY` leaves `render_dt_sync` of `fast_path.bpf.c` enough room.  The renderer is
written down once more, as one that logs what it does to the buffer.
-/

namespace HyperFastPath.FastPath

open Bytes

def limits64 : Limits := ⟨64, by decide⟩

inductive SyncEvent where
  /-- `c` is written at `pos`, which is what the clamps make of `named`. -/
  | wrote (named pos : Nat) (c : UInt8)
  /-- `len` bytes are turned down. -/
  | refused (len : Nat)
  deriving DecidableEq, Repr

section

variable (lim : Limits)

/-- One turn of the loop of `sync_put`. -/
def copyTurnLogged (off : Nat) (src : List UInt8) (i : Nat) (s : List UInt8 × List SyncEvent) :
    Loops.Turn (List UInt8 × List SyncEvent) Unit :=
  let j := clamp i 0 (maxSyncField - 1)
  let o := clamp (off + j) 0 (lim.maxSyncBody - 1)
  .next (s.1.set o (src.getD j 0), s.2 ++ [.wrote (off + i) o (src.getD j 0)])

/-- `sync_put`. -/
def syncPutLogged (buf : DtSyncBuf) (src : List UInt8) : Logged SyncEvent DtSyncBuf :=
  let off := buf.len
  if src.length > maxSyncField ∨ off + src.length > lim.maxSyncBody then
    .fail [.refused src.length]
  else
    match Loops.run src.length (copyTurnLogged lim off src) (buf.data, []) with
    | .ok (data, log) => ⟨log, some { data, len := off + src.length }⟩
    | .error () => .fail []

/-- `sync_put_byte`. -/
def syncPutByteLogged (buf : DtSyncBuf) (c : UInt8) : Logged SyncEvent DtSyncBuf :=
  if buf.len + 1 > lim.maxSyncBody then .fail [.refused 1]
  else
    let off := clamp buf.len 0 (lim.maxSyncBody - 1)
    ⟨[.wrote buf.len off c], some { data := buf.data.set off c, len := off + 1 }⟩

def renderFieldLogged (buf : DtSyncBuf) (hf : HeaderField) : Logged SyncEvent DtSyncBuf :=
  if hf.key.length = 0 ∨ hf.key.length > maxSyncField ∨ hf.val.length > maxSyncField then .fail []
  else do
    let buf ← syncPutByteLogged lim buf 0x40
    let buf ← syncPutByteLogged lim buf
      ((if hf.keyHuff then 0x80 else 0) ||| UInt8.ofNat hf.key.length)
    let buf ← syncPutLogged lim buf hf.key
    let buf ← syncPutByteLogged lim buf
      ((if hf.valHuff then 0x80 else 0) ||| UInt8.ofNat hf.val.length)
    syncPutLogged lim buf hf.val

/-- `render_dt_sync`. -/
def renderDtSyncLogged (table : List HeaderField) : Nat → DtSyncBuf → Logged SyncEvent DtSyncBuf
  | 0, buf => pure buf
  | left + 1, buf =>
    match getDtEntry table (staticTableSize + (left + 1)) with
    | none => .fail []
    | some hf => renderFieldLogged lim buf hf >>= renderDtSyncLogged table left

/-! ## 1. The log does not change what is rendered -/

@[simp] theorem syncPutLogged_result (buf : DtSyncBuf) (src : List UInt8) :
    (syncPutLogged lim buf src).result = syncPut lim buf src := by
  unfold syncPutLogged syncPut
  simp only
  split
  · rfl
  · -- the loop of `syncPut` is the one that logs, seen from the buffer
    set turn := copyTurnLogged lim buf.len src
    rw [show Loops.run src.length _ buf.data =
        (Loops.run src.length turn (buf.data, [])).map Prod.fst from
      Loops.run_map (π := Prod.fst) turn (fun _ _ ↦ rfl) _ (buf.data, [])]
    cases Loops.run src.length turn (buf.data, []) with
    | ok s => rfl
    | error e => rfl

@[simp] theorem syncPutByteLogged_result (buf : DtSyncBuf) (c : UInt8) :
    (syncPutByteLogged lim buf c).result = syncPutByte lim buf c := by
  unfold syncPutByteLogged syncPutByte
  split
  · rfl
  · rfl

@[simp] theorem renderFieldLogged_result (buf : DtSyncBuf) (hf : HeaderField) :
    (renderFieldLogged lim buf hf).result = renderField lim buf hf := by
  unfold renderFieldLogged renderField
  split
  · rfl
  · simp only [Logged.result_bind, syncPutByteLogged_result, syncPutLogged_result]

theorem renderDtSyncLogged_result (table : List HeaderField) (n : Nat) (buf : DtSyncBuf) :
    (renderDtSyncLogged lim table n buf).result = renderDtSync lim table n buf := by
  induction n generalizing buf with
  | zero => rfl
  | succ n ih =>
    rw [renderDtSyncLogged, renderDtSync]
    cases getDtEntry table (staticTableSize + (n + 1)) with
    | none => rfl
    | some hf => simp only [Logged.result_bind, renderFieldLogged_result, ih, Option.bind_eq_bind,
        Option.bind_some]

/-! ## 2. What is logged -/

/-- A byte that is written is written where it is meant to go, within the body. -/
def SyncEvent.InPlace : SyncEvent → Prop
  | .wrote named pos _ => pos = named ∧ pos < lim.maxSyncBody
  | .refused _ => True

def SyncEvent.store (data : List UInt8) : SyncEvent → List UInt8
  | .wrote _ pos c => data.set pos c
  | .refused _ => data

/-- Of a step that has come to an end: `log` is all that it does to the buffer. -/
structure Recorded (buf : DtSyncBuf) (log : List SyncEvent) (buf' : DtSyncBuf) : Prop where
  inPlace : ∀ e ∈ log, e.InPlace lim
  taken : ∀ len, .refused len ∉ log
  data : buf'.data = log.foldl SyncEvent.store buf.data
  le : buf'.len ≤ lim.maxSyncBody

/-- All that a step writes goes where it is meant to go, also where the step fails. -/
def Records (buf : DtSyncBuf) (o : Logged SyncEvent DtSyncBuf) : Prop :=
  o.Ensures (Recorded lim buf) (fun log ↦ ∀ e ∈ log, e.InPlace lim)

variable {lim} {buf : DtSyncBuf}

theorem Records.fail {log : List SyncEvent} (h : ∀ e ∈ log, e.InPlace lim) :
    Records lim buf (.fail log) := h

theorem Recorded.append {buf' buf'' : DtSyncBuf} {log more : List SyncEvent}
    (h : Recorded lim buf log buf') (h' : Recorded lim buf' more buf'') :
    Recorded lim buf (log ++ more) buf'' where
  inPlace e he := (List.mem_append.mp he).elim (h.inPlace e) (h'.inPlace e)
  taken len he := (List.mem_append.mp he).elim (h.taken len) (h'.taken len)
  data := by rw [List.foldl_append, ← h.data, h'.data]
  le := h'.le

theorem Records.bind {o : Logged SyncEvent DtSyncBuf} {f : DtSyncBuf → Logged SyncEvent DtSyncBuf}
    (h : Records lim buf o) (hf : ∀ buf', buf'.len ≤ lim.maxSyncBody → Records lim buf' (f buf')) :
    Records lim buf (o >>= f) := by
  refine Logged.Ensures.bind h fun log buf' hlog ↦ ?_
  refine (hf buf' hlog.le).mono (fun more buf'' hmore ↦ hlog.append hmore) ?_
  intro more hmore e he
  exact (List.mem_append.mp he).elim (hlog.inPlace e) (hmore e)

theorem syncPutByteLogged_records (c : UInt8) : Records lim buf (syncPutByteLogged lim buf c) := by
  unfold syncPutByteLogged
  split
  · exact .fail (by simp [SyncEvent.InPlace])
  · rename_i hroom
    have hoff : clamp buf.len 0 (lim.maxSyncBody - 1) = buf.len := clamp_eq (by omega)
    simp only [hoff]
    refine ⟨?_, by simp, rfl, by simp only; omega⟩
    rintro e he
    cases List.mem_singleton.mp he
    exact ⟨rfl, by omega⟩

theorem syncPutLogged_records (src : List UInt8) : Records lim buf (syncPutLogged lim buf src) := by
  unfold syncPutLogged
  simp only
  split
  · exact .fail (by simp [SyncEvent.InPlace])
  · rename_i hroom
    -- what the turns so far have done to the buffer is what they have logged
    have hcopy : Loops.Ends (fun s : List UInt8 × List SyncEvent ↦
          Recorded lim buf s.2 ⟨s.1, buf.len + src.length⟩) (fun _ : Unit ↦ False)
        (Loops.run src.length (copyTurnLogged lim buf.len src) (buf.data, [])) := by
      refine Loops.run_rule
        (I := fun _ s ↦ Recorded lim buf s.2 ⟨s.1, buf.len + src.length⟩) ?_ ?_ fun _ h ↦ h
      · exact ⟨by simp, by simp, rfl, by simp only; omega⟩
      · rintro i ⟨data, log⟩ hi h
        have hj : clamp i 0 (maxSyncField - 1) = i := clamp_eq (by omega)
        have ho : clamp (buf.len + i) 0 (lim.maxSyncBody - 1) = buf.len + i := clamp_eq (by omega)
        have hone : Recorded lim ⟨data, buf.len + src.length⟩
            [.wrote (buf.len + i) (buf.len + i) (src.getD i 0)]
            ⟨data.set (buf.len + i) (src.getD i 0), buf.len + src.length⟩ := by
          refine ⟨?_, by simp, rfl, h.le⟩
          rintro e he
          cases List.mem_singleton.mp he
          exact ⟨rfl, by omega⟩
        simp only [copyTurnLogged, hj, ho]
        exact h.append hone
    cases hrun : Loops.run src.length (copyTurnLogged lim buf.len src) (buf.data, []) with
    | ok s => rw [hrun] at hcopy; exact hcopy
    | error e => rw [hrun] at hcopy; exact hcopy.elim

theorem renderFieldLogged_records (hf : HeaderField) :
    Records lim buf (renderFieldLogged lim buf hf) := by
  unfold renderFieldLogged
  split
  · exact .fail (by simp)
  · refine (syncPutByteLogged_records _).bind fun _ _ ↦ ?_
    refine (syncPutByteLogged_records _).bind fun _ _ ↦ ?_
    refine (syncPutLogged_records _).bind fun _ _ ↦ ?_
    exact (syncPutByteLogged_records _).bind fun _ _ ↦ syncPutLogged_records _

theorem renderDtSyncLogged_records (table : List HeaderField) (n : Nat)
    (hle : buf.len ≤ lim.maxSyncBody) : Records lim buf (renderDtSyncLogged lim table n buf) := by
  induction n generalizing buf with
  | zero => exact (⟨by simp, by simp, rfl, hle⟩ : Recorded lim buf [] buf)
  | succ n ih =>
    rw [renderDtSyncLogged]
    split
    · exact .fail (by simp)
    · exact (renderFieldLogged_records _).bind fun _ hle ↦ ih hle

variable {table : List HeaderField} {n : Nat}
variable {scratch : { l : List UInt8 // l.length = maxSyncBuf }}

/-- No clamp ever takes effect, not even where the table does not fit. -/
theorem renderDtSyncLogged_inPlace :
    ∀ e ∈ (renderDtSyncLogged lim table n ⟨scratch.1, 0⟩).log, e.InPlace lim :=
  (renderDtSyncLogged_records table n (Nat.zero_le _)).always fun _ _ h ↦ h.inPlace

example : (renderDtSyncLogged limits64 [⟨[0x61], true, [], false⟩] 1 ⟨List.replicate 4 0, 0⟩).log =
    [.wrote 0 0 0x40, .wrote 1 1 0x81, .wrote 2 2 0x61, .wrote 3 3 0] := by decide

/-- Nothing but what is logged happens to the buffer. -/
theorem renderDtSync_data (h : renderDtSync lim table n ⟨scratch.1, 0⟩ = some buf) :
    buf.data =
      (renderDtSyncLogged lim table n ⟨scratch.1, 0⟩).log.foldl SyncEvent.store scratch.1 := by
  rw [← renderDtSyncLogged_result] at h
  exact ((renderDtSyncLogged_records table n (Nat.zero_le _)).of_some h).data

/-! ## 3. Tables that fit -/

/-- An entry as the parser keeps it: a name and a value of at most `BEEPER_H2_FIELD_MAXLEN` bytes,
neither of which is too long for the encoder. -/
structure HeaderField.Within (lim : Limits) (hf : HeaderField) : Prop where
  key_pos : 0 < hf.key.length
  key_le : hf.key.length ≤ min lim.fieldMaxlen maxSyncField
  val_le : hf.val.length ≤ min lim.fieldMaxlen maxSyncField

instance (hf : HeaderField) : Decidable (hf.Within lim) :=
  decidable_of_iff (0 < hf.key.length ∧ hf.key.length ≤ min lim.fieldMaxlen maxSyncField ∧
    hf.val.length ≤ min lim.fieldMaxlen maxSyncField)
    ⟨fun ⟨h, h', h''⟩ ↦ ⟨h, h', h''⟩, fun ⟨h, h', h''⟩ ↦ ⟨h, h', h''⟩⟩

theorem HeaderField.Within.fits {hf : HeaderField} (h : hf.Within lim) : hf.Fits :=
  ⟨h.key_pos, h.key_le.trans (Nat.min_le_right _ _), h.val_le.trans (Nat.min_le_right _ _)⟩

/-- How many bytes the names and the values of `fields` take up. -/
def stringLen (fields : List HeaderField) : Nat :=
  (fields.map fun hf ↦ hf.key.length + hf.val.length).sum

theorem wireLen_eq (fields : List HeaderField) :
    wireLen fields = 3 * fields.length + stringLen fields := by
  induction fields with
  | nil => rfl
  | cons hf fields ih =>
    simp only [wireLen, stringLen, HeaderField.wireLen, List.map_cons, List.sum_cons,
      List.length_cons] at ih ⊢
    omega

theorem stringLen_le {fields : List HeaderField} (h : ∀ hf ∈ fields, hf.Within lim) :
    stringLen fields ≤ fields.length * (2 * min lim.fieldMaxlen maxSyncField) := by
  induction fields with
  | nil => exact Nat.zero_le _
  | cons hf fields ih =>
    have hrest := ih fun hf' hm ↦ h hf' (List.mem_cons_of_mem _ hm)
    have hkey := (h hf List.mem_cons_self).key_le
    have hval := (h hf List.mem_cons_self).val_le
    simp only [stringLen, List.map_cons, List.sum_cons, List.length_cons, Nat.add_one_mul]
      at hrest ⊢
    omega

/-- The table is rendered without running out of room, each byte where it is meant to go. -/
structure RendersExactly (lim : Limits) (table : List HeaderField) (n : Nat)
    (scratch : { l : List UInt8 // l.length = maxSyncBuf }) : Prop where
  succeeds : ∃ buf, renderDtSync lim table n ⟨scratch.1, 0⟩ = some buf ∧
    buf.len = wireLen (table.take n)
  roomy : ∀ len, .refused len ∉ (renderDtSyncLogged lim table n ⟨scratch.1, 0⟩).log
  inPlace : ∀ named pos c,
    .wrote named pos c ∈ (renderDtSyncLogged lim table n ⟨scratch.1, 0⟩).log →
    pos = named ∧ pos < lim.maxSyncBody

theorem rendersExactly_of_replayable (h : Replayable lim table n) :
    RendersExactly lim table n scratch := by
  have hrender := renderDtSync_eq lim table n scratch
  rw [if_pos h] at hrender
  obtain ⟨buf, hbuf, hb⟩ := hrender
  have hlog := (renderDtSyncLogged_records table n (Nat.zero_le _)).of_some
    ((renderDtSyncLogged_result lim table n _).trans hbuf)
  exact ⟨⟨buf, hbuf, by rw [hb.len, syncBlock_length]⟩, hlog.taken,
    fun _ _ _ he ↦ renderDtSyncLogged_inPlace _ he⟩

theorem rendersExactly_iff_replayable :
    RendersExactly lim table n scratch ↔ Replayable lim table n := by
  refine ⟨fun h ↦ ?_, rendersExactly_of_replayable⟩
  by_contra hnot
  have hrender := renderDtSync_eq lim table n scratch
  rw [if_neg hnot] at hrender
  obtain ⟨buf, hbuf, -⟩ := h.succeeds
  rw [hrender] at hbuf
  cases hbuf

theorem replayable_iff_stringLen (hlen : n ≤ table.length)
    (hwithin : ∀ hf ∈ table.take n, hf.Within lim) :
    Replayable lim table n ↔ stringLen (table.take n) + 3 * n ≤ 16 * lim.fieldMaxlen + 16 := by
  have hrenderable : Renderable table n := ⟨hlen, fun hf hm ↦ (hwithin hf hm).fits⟩
  have hwire := wireLen_eq (table.take n)
  rw [List.length_take_of_le hlen] at hwire
  simp only [Replayable, hrenderable, true_and, hwire, Limits.maxSyncBody, maxSyncEntries]
  omega

/-- Where no helper fails, a table is turned down only for want of room. -/
theorem prependDtSync_neg_iff {h : Helpers} (hall : h.AllOk) (msg : SkMsg) (hlen : n ≤ table.length)
    (hwithin : ∀ hf ∈ table.take n, hf.Within lim) :
    (prependDtSync lim h table msg n).1 < 0 ↔
      16 * lim.fieldMaxlen + 16 < stringLen (table.take n) + 3 * n := by
  rw [← Nat.not_le, ← replayable_iff_stringLen hlen hwithin]
  constructor
  · intro hneg hr
    obtain ⟨msg', heq, -⟩ := prependDtSync_replayable hr h msg
    rw [heq, if_pos ⟨hall _, hall _, hall _⟩] at hneg
    simp only at hneg
    omega
  · intro hnot
    rw [prependDtSync_not_replayable hnot]
    exact Int.negSucc_lt_zero 0

/-- `n` entries, each of them as long as can be. -/
def longestTable (lim : Limits) (n : Nat) : List HeaderField :=
  let text := List.replicate (min lim.fieldMaxlen maxSyncField) 0x61
  List.replicate n ⟨text, false, text, false⟩

@[simp] theorem longestTable_length : (longestTable lim n).length = n := List.length_replicate

@[simp] theorem longestTable_take : (longestTable lim n).take n = longestTable lim n :=
  List.take_of_length_le longestTable_length.le

theorem longestTable_within (hpos : 0 < lim.fieldMaxlen) :
    ∀ hf ∈ (longestTable lim n).take n, hf.Within lim := by
  rw [longestTable_take]
  intro hf hm
  cases List.eq_of_mem_replicate hm
  refine ⟨?_, by simp, by simp⟩
  rw [List.length_replicate, maxSyncField]
  omega

theorem stringLen_longestTable :
    stringLen (longestTable lim n) = n * (2 * min lim.fieldMaxlen maxSyncField) := by
  simp only [stringLen, longestTable, List.map_replicate, List.sum_replicate_nat,
    List.length_replicate, Nat.two_mul]

/-- Besides its strings an entry takes up three bytes, of which `MAX_SYNC_BODY` counts two: it
leaves out the one that says that a literal follows. -/
theorem syncRoom_iff (lim : Limits) (hpos : 0 < lim.fieldMaxlen) (n : Nat)
    (hn : n ≤ maxSyncEntries) :
    (∀ table scratch, n ≤ table.length → (∀ hf ∈ table.take n, hf.Within lim) →
      (RendersExactly lim table n scratch ↔
        stringLen (table.take n) + 3 * n ≤ 16 * lim.fieldMaxlen + 16)) ∧
    ((∀ table scratch, n ≤ table.length → (∀ hf ∈ table.take n, hf.Within lim) →
        RendersExactly lim table n scratch) ↔
      127 ≤ lim.fieldMaxlen ∨ n ≤ 6 ∨ n = 7 ∧ 3 ≤ lim.fieldMaxlen) := by
  have hexact (table scratch) (hlen : n ≤ table.length)
      (hwithin : ∀ hf ∈ table.take n, hf.Within lim) :
      RendersExactly lim table n scratch ↔
        stringLen (table.take n) + 3 * n ≤ 16 * lim.fieldMaxlen + 16 :=
    rendersExactly_iff_replayable.trans (replayable_iff_stringLen hlen hwithin)
  -- the longest table decides for all others
  have hworst : (∀ table scratch, n ≤ table.length → (∀ hf ∈ table.take n, hf.Within lim) →
        RendersExactly lim table n scratch) ↔
      n * (2 * min lim.fieldMaxlen maxSyncField) + 3 * n ≤ 16 * lim.fieldMaxlen + 16 := by
    constructor
    · intro hall
      have hlen : n ≤ (longestTable lim n).length := longestTable_length.ge
      have hwithin := longestTable_within (n := n) hpos
      have hfits := (hexact _ allOk.scratch hlen hwithin).mp (hall _ _ hlen hwithin)
      rwa [longestTable_take, stringLen_longestTable] at hfits
    · intro hfits table scratch hlen hwithin
      have hle := stringLen_le hwithin
      rw [List.length_take_of_le hlen] at hle
      exact (hexact table scratch hlen hwithin).mpr (by omega)
  refine ⟨hexact, hworst.trans ?_⟩
  clear hexact hworst
  rw [maxSyncEntries] at hn
  rw [maxSyncField]
  interval_cases n <;> omega

/-- With names one byte shorter than they can be, the table fits to the byte. -/
theorem syncRoom_iff_shorter :
    RendersExactly limits64
      (List.replicate 8 ⟨List.replicate 63 0x61, false, List.replicate 64 0x61, false⟩) 8
      allOk.scratch :=
  ((syncRoom_iff limits64 (by decide) 8 (by decide)).1 _ _ (by decide) (by decide)).mpr (by decide)

theorem longestTable_refused :
    (0 < limits64.fieldMaxlen ∧ 8 ≤ maxSyncEntries ∧ 8 ≤ (longestTable limits64 8).length ∧
      ∀ hf ∈ (longestTable limits64 8).take 8, hf.Within limits64) ∧
    ¬ RendersExactly limits64 (longestTable limits64 8) 8 allOk.scratch ∧
    ∀ h msg, prependDtSync limits64 h (longestTable limits64 8) msg 8 = (-1, msg) := by
  have hpos : 0 < limits64.fieldMaxlen := by decide
  have hlen : 8 ≤ (longestTable limits64 8).length := longestTable_length.ge
  have hwithin := longestTable_within (n := 8) hpos
  have hnot : ¬ Replayable limits64 (longestTable limits64 8) 8 := by
    rw [replayable_iff_stringLen hlen hwithin, longestTable_take, stringLen_longestTable]
    decide
  exact ⟨⟨hpos, by decide, hlen, hwithin⟩, mt rendersExactly_iff_replayable.mp hnot,
    fun h msg ↦ prependDtSync_not_replayable hnot h msg⟩

end

end HyperFastPath.FastPath
