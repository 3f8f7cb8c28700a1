import HyperFastPath.EndToEnd.Delivery

/-!
# The dynamic tables

The client, the mirror in the kernel and the codec in user space each keep a dynamic table, and only
the fast path keeps them in step.
-/

namespace HyperFastPath.EndToEnd

open Bytes Http2 FastPath Listener Segments

variable {lim : Limits} {cfg : Routes} {dec : Decoder} {fs : List Frame} {p : Pipe}

/-- An answer is recorded. What is replayed ahead of a message that follows one, which is the most
recent entries of the mirror once the message's own are in it, is the client's table, if it can be
replayed at all, and the codec is in the same block as the client with a table of the same
capacity. -/
def ReplaysTable (lim : Limits) (cfg : Routes) (dec : Decoder) (p : Pipe) : Act → Prop
  | .send _ => True
  | .run h ans => p.Pending →
      (Serves cfg h ans p.conn p.buf → h.ok .setDirty) ∧
      (¬ Serves cfg h ans p.conn p.buf → p.conn.isDirty →
        Replayable lim ans.table ans.frame.dtCountBefore →
          ans.table.take ans.frame.dtCountBefore = (client dec p.log).table ∧
          (userSpace dec p.toUser).context.table.capacity =
            (client dec p.log).context.table.capacity ∧
          (userSpace dec p.toUser).context.block = (client dec p.log).context.block)

instance (lim : Limits) (cfg : Routes) (dec : Decoder) (p : Pipe) :
    (a : Act) → Decidable (ReplaysTable lim cfg dec p a)
  | .send _ => isTrue trivial
  | .run _ _ => inferInstanceAs (Decidable (_ → _))

/-- Every header block that has reached user space, in however many frames, was decoded against the
table it was encoded against. -/
def TablesAgree (dec : Decoder) (p : Pipe) : Prop :=
  (userSpace dec p.toUser).entries.filter (·.carriesBlock) =
    (client dec p.log).entries.filter fun e ↦ e.forwarded && e.carriesBlock

instance (dec : Decoder) (p : Pipe) : Decidable (TablesAgree dec p) :=
  inferInstanceAs (Decidable (_ = _))

/-- User space is where the client is, but for what an answer has kept from it. -/
structure Agrees (dec : Decoder) (p : Pipe) : Prop where
  entries : (userSpace dec p.toUser).entries = (client dec p.log).entries.filter (·.forwarded)
  context : p.dropped = false → p.conn.isDirty = false ∨ 0 < p.left →
    (userSpace dec p.toUser).context = (client dec p.log).context

/-! ## 1. Steps -/

variable (dec) in
theorem frames_forwarded (fs : List Frame) {u c : Codec} (hcontext : u.context = c.context)
    (hentries : u.entries = c.entries.filter (·.forwarded)) :
    (u.frames dec true fs).context = (c.frames dec true fs).context ∧
      (u.frames dec true fs).entries = (c.frames dec true fs).entries.filter (·.forwarded) := by
  induction fs generalizing u c with
  | nil => exact ⟨hcontext, hentries⟩
  | cons f fs ih =>
    refine ih ?_ ?_
    · simp only [Codec.frame, hcontext]
    · simp only [Codec.frame, hcontext, hentries, List.filter_append]
      rfl

/-- A table that is handed over arrives. -/
theorem prime_syncBlock {u c : Codec} (hfits : ∀ hf ∈ c.table, hf.Fits)
    (hroom : c.context.table.Fits dec.len)
    (hcapacity : u.context.table.capacity = c.context.table.capacity)
    (hblock : u.context.block = c.context.block) :
    (u.prime dec (syncBlock c.table)).context = c.context := by
  have hfields : c.table.map toField = c.context.table.entries := by
    simp only [Codec.table, List.map_map]
    exact List.map_id _
  rw [Hpack.Table.Fits, ← hfields] at hroom
  have hdecode := decodeBlock_syncBlock hfits dec.len dec.static hroom
  rw [hfields] at hdecode
  simp only [Codec.prime, Context.replay, hcapacity, hblock, hdecode, Option.map_some,
    Option.getD_some]

theorem Agrees.moves {a : Act} {p' : Pipe} (hp : Agrees dec p) (hmoves : Moves lim cfg dec p a p')
    (hreplays : ReplaysTable lim cfg dec p a) : Agrees dec p' := by
  cases hmoves with
  | still huser hclient hconn =>
    refine ⟨by rw [huser, hclient, hp.entries], fun hdropped hclean ↦ ?_⟩
    rcases hconn with hdrop | ⟨hdrop, hconn, hleft⟩
    · rw [hdrop] at hdropped
      cases hdropped
    · rw [huser, hclient]
      exact hp.context (hdrop ▸ hdropped) (by rwa [hconn, hleft] at hclean)
  | passed fs hacc hleft _ huser hclient =>
    obtain ⟨hcontext, hentries⟩ :=
      frames_forwarded dec fs (hp.context hacc.1 (.inr hleft)) hp.entries
    rw [← huser, ← hclient] at hcontext hentries
    exact ⟨hentries, fun _ _ ↦ hcontext⟩
  | answered fs _ hpend _ hserves _ huser hclient hdirty hleft =>
    refine ⟨by rw [huser, hclient, frames_answered, hp.entries], fun _ hclean ↦ ?_⟩
    -- the table has changed for the client alone, but the connection is dirty now
    have hdirty := hdirty ((hreplays hpend).1 hserves)
    rcases hclean with hclean | hpos
    · rw [hdirty] at hclean
      cases hclean
    · omega
  | @forwarded h ans _ fs block n hpend hwhole hserves _ huser hclient hclean hsync =>
    have hprimed : ((userSpace dec p.toUser).primed dec block).context =
        (client dec p.log).context := by
      cases block with
      | none => exact hp.context hpend.1 (.inl (hclean rfl))
      | some b =>
        -- what was in user space's table does not matter, as it is replaced
        obtain ⟨hdirty, hreplay, rfl⟩ := hsync b rfl
        obtain ⟨hsame, hcapacity, hblock⟩ := (hreplays hpend).2 hserves hdirty hreplay
        have hfits := hreplay.1.2
        rw [hsame] at hfits ⊢
        exact prime_syncBlock hfits (client_fits dec p.log) hcapacity hblock
    have hentries : ((userSpace dec p.toUser).primed dec block).entries =
        (client dec p.log).entries.filter (·.forwarded) := by
      cases block <;> exact hp.entries
    obtain ⟨hcontext, hentries⟩ := frames_forwarded dec fs hprimed hentries
    rw [← huser, ← hclient] at hcontext hentries
    exact ⟨hentries, fun _ _ ↦ hcontext⟩

/-! ## 2. Runs -/

theorem run_agrees (hfs : ∀ f ∈ fs, Foreign f) {conn : Conn} (hh2 : conn.isH2)
    {acts : List Act}
    (hclient : Runs.Along (Pipe.step lim cfg) (fun p a ↦ SendsFrames fs p a ∧ MeasuresFront p a)
      (opened conn) acts)
    (hverdicts : Runs.Along (Pipe.step lim cfg)
      (fun p a ↦ VerdictsWhole cfg fs p a ∧ ReplaysTable lim cfg dec p a) (opened conn) acts) :
    Agrees dec (Runs.exec (Pipe.step lim cfg) (opened conn) acts) := by
  have hboth := (Runs.Along.and _ _).mpr ⟨hclient, hverdicts⟩
  refine (hboth.preserves (I := fun p ↦ Framing dec fs p ∧ Agrees dec p) ?_
    ⟨.opened dec fs hh2, rfl, fun _ _ ↦ rfl⟩).2
  rintro p a ⟨hframing, hagrees⟩ ⟨⟨hsend, hmeasure⟩, hverdict, hreplays⟩
  -- the frames stay whole, and the tables move with them
  obtain ⟨hframing', hmoves⟩ := hframing.step hfs hsend hmeasure hverdict
  exact ⟨hframing', hagrees.moves hmoves hreplays⟩

/-- A request that adds `name: 1` to the table. -/
def addingHeaders (sid : UInt32) (name : UInt8) : Frame :=
  ⟨headersKind, 5, sid, [0x84, 0x40, 1, name, 1, 0x31], by simp⟩

def addedField (name : UInt8) : FastPath.HeaderField := ⟨[name], false, [0x31], false⟩

/-- The client's table can be handed over. -/
def WithinLimits (lim : Limits) (dec : Decoder) (p : Pipe) : Act → Prop
  | .send _ => True
  | .run _ _ => (client dec p.log).table.length ≤ maxSyncEntries ∧
      Replayable lim (client dec p.log).table (client dec p.log).table.length

/-- `parse_h2` decodes the header block in the frame at the front of the message into the mirrored
table. -/
def DecodesFront (dec : Decoder) (p : Pipe) : Act → Prop
  | .send _ => True
  | .run _ ans => p.Pending → ∀ n ∈ frameLen p.buf,
      ans.table = ((⟨⟨p.mirror.map toField, dec.capacity⟩, none⟩ : Context).frame dec.len dec.static
        (p.buf.take n)).table.entries.map ofField ∧
      ans.frame =
        { sid := UInt32.ofNat (ofBe ((p.buf.drop 5).take 4) % 2 ^ 31)
          type := p.buf.getD 3 0
          flags := p.buf.getD 4 0
          dtCountBefore := p.mirror.length }

instance (lim : Limits) (dec : Decoder) (p : Pipe) : (a : Act) → Decidable (WithinLimits lim dec p a)
  | .send _ => isTrue trivial
  | .run _ _ => inferInstanceAs (Decidable (_ ∧ _))

instance (dec : Decoder) (p : Pipe) : (a : Act) → Decidable (DecodesFront dec p a)
  | .send _ => isTrue trivial
  | .run _ _ => inferInstanceAs (Decidable (_ → _))

end HyperFastPath.EndToEnd
