import StellarConduit.Transport.Reassembler

/-!
# What reassembly guarantees

* `reassembler_safe`: on hostile input, from the empty reassembler on.  Every buffer is
  sound, nothing panics, a rejected chunk changes nothing, and every byte of a message that
  is handed out was written by an accepted chunk of its buffer;
* `reassembles`: the frames of one message, in any order and with any repetitions, among
  arbitrary other frames.
-/

namespace StellarConduit

open Verif Verif.Fragments Verif.Machine

/-! ### Hostile input -/

/-- What holds of a buffer that is held. -/
structure PartialMessageBuffer.Sound (b : PartialMessageBuffer) : Prop where
  pos : 1 ≤ b.totalLength
  le : b.totalLength ≤ maxMessageSizeBytes
  length_data : b.data.length = b.totalLength
  length_receivedMap : b.receivedMap.length = b.totalLength
  receivedBytes_eq : b.receivedBytes = b.receivedMap.count true
  receivedBytes_lt : b.receivedBytes < b.totalLength

theorem Assembly.sound_buffer (a : Assembly) : a.buffer.Sound where
  pos := a.pos
  le := a.le
  length_data := by simp [Assembly.buffer, PartialMessageBuffer.ofCells]
  length_receivedMap := by simp [Assembly.buffer, PartialMessageBuffer.ofCells]
  receivedBytes_eq := rfl
  receivedBytes_lt := by
    refine lt_of_le_of_ne PartialMessageBuffer.receivedBytes_ofCells_le fun h => ?_
    exact a.unfilled ((PartialMessageBuffer.receivedBytes_ofCells_eq_iff _ _ a.lastUpdated).1 h)

namespace MessageReassembler

/-- The chunk passes every check of `receive_chunk`. -/
def Accepts (r : MessageReassembler) (frame : ChunkFrame) : Prop :=
  frame.WellFormed ∧
    ∀ b ∈ r.buffers.lookup frame.messageId, b.totalLength = frame.totalLength.toNat

instance (r : MessageReassembler) (frame : ChunkFrame) : Decidable (r.Accepts frame) :=
  inferInstanceAs (Decidable (_ ∧ _))

theorem accepts_iff {r : MessageReassembler} {frame : ChunkFrame} {slot : Option Assembly}
    (hslot : r.buffers.lookup frame.messageId = slot.map Assembly.buffer) :
    r.Accepts frame ↔ StellarConduit.Accepts slot frame := by
  unfold Accepts StellarConduit.Accepts
  rw [hslot]
  cases slot with
  | none => simp
  | some a => simp [Assembly.buffer, PartialMessageBuffer.ofCells]

/-- A rejected chunk changes nothing. -/
theorem step_of_not_accepts {r : MessageReassembler} {frame : ChunkFrame}
    (h : ¬ r.Accepts frame) (now : ℕ) : r.step (.chunk frame now) = (.ok none, r) := by
  have hreceive : r.receiveChunk frame now = .ok (none, r) := by
    rw [receiveChunk_eq]
    by_cases hwf : frame.WellFormed
    · have hother : ∃ b, r.buffers.lookup frame.messageId = some b ∧
          b.totalLength ≠ frame.totalLength.toNat := by
        by_contra hnone
        push Not at hnone
        exact h ⟨hwf, hnone⟩
      obtain ⟨b, hb, hne⟩ := hother
      rw [if_pos hwf, receiveWellFormed, HashMap.orInsert, hb]
      exact if_pos hne
    · exact if_neg hwf
  rw [step, hreceive]

/-- The fragments of the accepted chunks of a message id since its buffer was created, after
one more event. -/
def logStep (id : UInt32) (log : List (Fragment UInt8))
    (e : Event MessageReassembler ReassemblerInput (Except Panic (Option (List UInt8)))) :
    List (Fragment UInt8) :=
  let log := if (e.before.buffers.lookup id).isNone then [] else log
  match e.input with
  | .chunk frame _ =>
    if frame.messageId = id ∧ e.before.Accepts frame then log ++ [frame.fragment] else log
  | .cleanup _ _ => log

/-- The fragments of the accepted chunks of a message id since its buffer was created. -/
def acceptedLog (id : UInt32)
    (events : List (Event MessageReassembler ReassemblerInput
      (Except Panic (Option (List UInt8))))) :
    List (Fragment UInt8) :=
  events.foldl (logStep id) []

section Log

variable {r : MessageReassembler} {id : UInt32} {slot : Option Assembly}
  {log : List (Fragment UInt8)} (hslot : r.buffers.lookup id = slot.map Assembly.buffer)
  (hlog : ∀ a ∈ slot, log = a.fragments)

include hslot hlog

/-- The log restarts with the buffer. -/
theorem restart_log : (if (r.buffers.lookup id).isNone then [] else log) = fragmentsOf slot := by
  rw [hslot]
  cases slot with
  | none => rfl
  | some a => exact hlog a rfl

theorem logStep_chunk {frame : ChunkFrame} (hid : frame.messageId = id) (now : ℕ)
    (out : Except Panic (Option (List UInt8))) :
    logStep id log ⟨r, .chunk frame now, out⟩ =
      if StellarConduit.Accepts slot frame then fragmentsOf slot ++ [frame.fragment]
      else fragmentsOf slot := by
  subst hid
  unfold logStep
  dsimp only
  rw [restart_log hslot hlog]
  by_cases haccepts : r.Accepts frame
  · rw [if_pos ⟨rfl, haccepts⟩, if_pos ((accepts_iff hslot).1 haccepts)]
  · rw [if_neg fun h => haccepts h.2, if_neg fun h => haccepts ((accepts_iff hslot).2 h)]

/-- The log keeps up with the assembly. -/
theorem exists_assembly_step (i : ReassemblerInput) :
    ∃ slot' : Option Assembly, (r.step i).2.buffers.lookup id = slot'.map Assembly.buffer ∧
      ∀ a ∈ slot', logStep id log ⟨r, i, (r.step i).1⟩ = a.fragments := by
  by_cases htouches : Touches id i
  · refine ⟨(collect slot i).2, (step_spec hslot htouches).2, fun a ha => ?_⟩
    -- What is logged for the id are the fragments of the buffer that it has.
    cases i with
    | chunk frame now =>
      rw [logStep_chunk hslot hlog htouches]
      unfold collect at ha
      dsimp only at ha
      split_ifs at ha with haccepts hfilled
      · cases ha
      · obtain rfl := Option.some.inj ha
        exact if_pos haccepts
      · have hsome : slot = some a := ha
        rw [if_neg haccepts, hsome]
        rfl
    | cleanup timeoutMs now =>
      have hsome : slot = some a := (Option.filter_eq_some_iff.1 ha).1
      show (if (r.buffers.lookup id).isNone then [] else log) = a.fragments
      rw [restart_log hslot hlog, hsome]
      rfl
  · refine ⟨slot, (r.lookup_step_of_not_touches htouches).trans hslot, fun a ha => ?_⟩
    have hrestart := restart_log hslot hlog
    rw [Option.mem_def.1 ha] at hrestart
    cases i with
    | chunk frame now =>
      have hnot : ¬ (frame.messageId = id ∧ r.Accepts frame) := fun h => htouches h.1
      unfold logStep
      dsimp only
      rw [if_neg hnot]
      exact hrestart
    | cleanup timeoutMs now => exact absurd trivial htouches

end Log

/-- In a run from the empty reassembler, the buffer of an id stands for an assembly, whose
fragments are those of the accepted chunks. -/
theorem exists_assembly (is : List ReassemblerInput) (id : UInt32) :
    ∃ slot : Option Assembly,
      (exec step new is).buffers.lookup id = slot.map Assembly.buffer ∧
        ∀ a ∈ slot, acceptedLog id (trace step new is) = a.fragments := by
  induction is using List.reverseRecOn with
  | nil => exact ⟨none, rfl, by simp⟩
  | append_singleton is i ih =>
    obtain ⟨slot, hslot, hlog⟩ := ih
    rw [exec_append, trace_append, acceptedLog, List.foldl_append]
    exact exists_assembly_step hslot hlog i

/-- **Hostile input.**  After any calls, from the empty reassembler on: every buffer is sound;
the next call does not panic; a chunk that fails a check changes nothing; and if a chunk
completes a message, the message has the announced length, and each of its bytes is what
some accepted chunk of its id, received since the buffer was created, carries for this
position. -/
theorem reassembler_safe (is : List ReassemblerInput) :
    let r := exec step new is
    (∀ id, ∀ b ∈ r.buffers.lookup id, b.Sound) ∧
      (∀ i, ∃ message, (r.step i).1 = .ok message) ∧
      (∀ frame now, ¬ r.Accepts frame → r.step (.chunk frame now) = (.ok none, r)) ∧
      ∀ frame now bytes, (r.step (.chunk frame now)).1 = .ok (some bytes) →
        bytes.length = frame.totalLength.toNat ∧
          ∀ i < bytes.length, ∃ f ∈ acceptedLog frame.messageId
            (trace step new (is ++ [.chunk frame now])), f.at? i = bytes[i]? := by
  intro r
  refine ⟨fun id b hb => ?_, fun i => ?_, fun frame now h => step_of_not_accepts h now,
    fun frame now bytes h => ?_⟩
  · obtain ⟨slot, hslot, -⟩ := exists_assembly is id
    rw [Option.mem_def, hslot] at hb
    obtain ⟨a, -, rfl⟩ := Option.map_eq_some_iff.1 hb
    exact a.sound_buffer
  · cases i with
    | chunk frame now =>
      obtain ⟨slot, hslot, -⟩ := exists_assembly is frame.messageId
      obtain ⟨message, r', hreceive, -⟩ := receiveChunk_spec hslot now
      exact ⟨message, by rw [step, hreceive]⟩
    | cleanup timeoutMs now => exact ⟨none, rfl⟩
  · -- The message is what the fragments of the buffer and this one have written.
    obtain ⟨slot, hslot, hlog⟩ := exists_assembly is frame.messageId
    rw [(step_spec hslot (i := .chunk frame now) rfl).1, collect_chunk_eq_some_iff] at h
    obtain ⟨haccepts, hfilled, rfl⟩ := h
    refine ⟨length_contents _ _, fun i hi => ?_⟩
    rw [length_contents] at hi
    have hlog' : acceptedLog frame.messageId (trace step new (is ++ [.chunk frame now])) =
        fragmentsOf slot ++ [frame.fragment] := by
      rw [trace_append, acceptedLog, List.foldl_append]
      exact (logStep_chunk hslot hlog rfl now _).trans (if_pos haccepts)
    obtain ⟨x, hx⟩ := Option.isSome_iff_exists.1 (hfilled i hi)
    obtain ⟨f, hf, hfi⟩ := exists_of_written hx
    rw [hlog', getElem?_contents hfilled hi, hx]
    exact ⟨f, hf, hfi⟩

end MessageReassembler

/-! ### Message ids do not interfere -/

namespace MessageReassembler

/-- What a frame does to the buffer of its id depends on this buffer alone. -/
theorem receiveChunk_congr {r r' : MessageReassembler} {frame : ChunkFrame}
    (h : r.buffers.lookup frame.messageId = r'.buffers.lookup frame.messageId) (now : ℕ) :
    (r.step (.chunk frame now)).1 = (r'.step (.chunk frame now)).1 ∧
      (r.step (.chunk frame now)).2.buffers.lookup frame.messageId =
        (r'.step (.chunk frame now)).2.buffers.lookup frame.messageId := by
  unfold step
  dsimp only
  rw [receiveChunk_eq, receiveChunk_eq]
  by_cases hwf : frame.WellFormed
  · rw [if_pos hwf, if_pos hwf]
    -- The two tables after `entry(..).or_insert_with(..)` yield the same buffer of the id.
    have hentry : ∃ buffer buffers buffers',
        HashMap.orInsert frame.messageId (PartialMessageBuffer.new frame.totalLength.toNat now)
          r.buffers = (buffer, buffers) ∧
        HashMap.orInsert frame.messageId (PartialMessageBuffer.new frame.totalLength.toNat now)
          r'.buffers = (buffer, buffers') ∧
        buffers.lookup frame.messageId = buffers'.lookup frame.messageId := by
      unfold HashMap.orInsert
      rw [h]
      cases hlookup : r'.buffers.lookup frame.messageId with
      | none =>
        refine ⟨_, _, _, rfl, rfl, ?_⟩
        rw [AList.lookup_insert, AList.lookup_insert]
      | some b => exact ⟨b, _, _, rfl, rfl, h⟩
    obtain ⟨buffer, buffers, buffers', heq, heq', hsame⟩ := hentry
    unfold receiveWellFormed
    dsimp only
    rw [heq, heq']
    dsimp only
    by_cases htotal : buffer.totalLength ≠ frame.totalLength.toNat
    · rw [if_pos htotal, if_pos htotal]
      exact ⟨rfl, hsame⟩
    · rw [if_neg htotal, if_neg htotal]
      cases buffer.writeBytes frame.offset.toNat
          (frame.offset.toNat + frame.payload.length) frame.payload with
      | error panic => exact ⟨rfl, h⟩
      | ok written =>
        dsimp only
        by_cases hbytes : written.receivedBytes = written.totalLength
        · rw [if_pos hbytes, if_pos hbytes]
          refine ⟨rfl, ?_⟩
          rw [AList.lookup_erase, AList.lookup_erase]
        · rw [if_neg hbytes, if_neg hbytes]
          refine ⟨rfl, ?_⟩
          rw [AList.lookup_insert, AList.lookup_insert]
  · rw [if_neg hwf, if_neg hwf]
    exact ⟨rfl, h⟩

/-- An id is a machine of its own in any reassembler. -/
theorem projection_lookup (id : UInt32) :
    Projection step step
      (fun r r' => r.buffers.lookup id = r'.buffers.lookup id) (Touches id) where
  skip r _ _ hi h := (r.lookup_step_of_not_touches hi).trans h
  sync r r' i hi h := by
    cases i with
    | chunk frame now =>
      obtain rfl : frame.messageId = id := hi
      exact receiveChunk_congr h now
    | cleanup timeoutMs now =>
      refine ⟨rfl, ?_⟩
      show (HashMap.retain _ r.buffers).lookup id = (HashMap.retain _ r'.buffers).lookup id
      rw [HashMap.lookup_retain, HashMap.lookup_retain, h]

end MessageReassembler

/-! ### The frames of one message -/

/-- With this frame, all frames have arrived. -/
def Completes (frames arrived : List ChunkFrame) (frame : ChunkFrame) : Prop :=
  ∀ f ∈ frames, f ∈ arrived ++ [frame]

instance (frames arrived : List ChunkFrame) (frame : ChunkFrame) :
    Decidable (Completes frames arrived frame) :=
  inferInstanceAs (Decidable (∀ f ∈ frames, f ∈ arrived ++ [frame]))

/-- The frames that have arrived since they last were complete. -/
def pending (frames deliveries : List ChunkFrame) : List ChunkFrame :=
  deliveries.foldl (fun arrived frame =>
    if Completes frames arrived frame then [] else arrived ++ [frame]) []

theorem pending_concat (frames deliveries : List ChunkFrame) (frame : ChunkFrame) :
    pending frames (deliveries ++ [frame]) =
      if Completes frames (pending frames deliveries) frame then []
      else pending frames deliveries ++ [frame] := by
  rw [pending, List.foldl_append]
  rfl

theorem pending_subset (frames deliveries : List ChunkFrame) :
    pending frames deliveries ⊆ deliveries := by
  induction deliveries using List.reverseRecOn with
  | nil => exact List.Subset.refl _
  | append_singleton deliveries frame ih =>
    rw [pending_concat]
    split_ifs
    · exact List.nil_subset _
    · exact List.append_subset.2 ⟨fun f hf => List.mem_append_left _ (ih hf),
        List.subset_append_right _ _⟩

/-- Until all frames have arrived, what is pending is what was delivered. -/
theorem pending_of_incomplete {frames deliveries : List ChunkFrame}
    (h : ¬ ∀ f ∈ frames, f ∈ deliveries) : pending frames deliveries = deliveries := by
  induction deliveries using List.reverseRecOn with
  | nil => rfl
  | append_singleton deliveries frame ih =>
    have hbefore : ¬ ∀ f ∈ frames, f ∈ deliveries := fun hall =>
      h fun f hf => List.mem_append_left _ (hall f hf)
    have hincomplete : ¬ Completes frames deliveries frame := h
    rw [pending_concat, ih hbefore, if_neg hincomplete]

/-- The frames with a given id that are delivered. -/
def deliveries (id : UInt32) (is : List ReassemblerInput) : List ChunkFrame :=
  is.filterMap fun
    | .chunk frame _ => if frame.messageId = id then some frame else none
    | .cleanup _ _ => none

theorem deliveries_append (id : UInt32) (is js : List ReassemblerInput) :
    deliveries id (is ++ js) = deliveries id is ++ deliveries id js :=
  List.filterMap_append

theorem deliveries_chunk_self (frame : ChunkFrame) (now : ℕ) :
    deliveries frame.messageId [.chunk frame now] = [frame] := by
  simp [deliveries]

theorem deliveries_chunk_ne {id : UInt32} {frame : ChunkFrame} (h : frame.messageId ≠ id)
    (now : ℕ) : deliveries id [.chunk frame now] = [] := by
  simp [deliveries, h]

/-- Every clean-up comes at most its timeout after the last change of the id's buffer. -/
def Timely (id : UInt32) (r : MessageReassembler) (is : List ReassemblerInput) : Prop :=
  ∀ pre timeoutMs now post, is = pre ++ .cleanup timeoutMs now :: post →
    ∀ b ∈ (exec MessageReassembler.step r pre).buffers.lookup id,
      now - b.lastUpdated ≤ timeoutMs * 1000000

/-- The input is a frame of the id. -/
def IsChunkOf (id : UInt32) : ReassemblerInput → Prop
  | .chunk frame _ => frame.messageId = id
  | .cleanup _ _ => False

instance (id : UInt32) : DecidablePred (IsChunkOf id)
  | .chunk frame _ => inferInstanceAs (Decidable (frame.messageId = id))
  | .cleanup _ _ => inferInstanceAs (Decidable False)

section Message

variable {c : MessageChunker} {id : UInt32} {m : List UInt8} (hne : m ≠ [])
  (hle : m.length ≤ maxMessageSizeBytes) (hmtu : chunkFrameHeaderSize < c.mtu)

include hne hle hmtu

/-- The frames of a message are told apart by their fragments. -/
theorem eq_of_fragment_eq {f g : ChunkFrame} (hf : f ∈ c.chunk id m) (hg : g ∈ c.chunk id m)
    (h : f.fragment = g.fragment) : f = g := by
  obtain ⟨hfwf, hfid, hftotal⟩ := MessageChunker.wellFormed_of_mem_chunk hne hmtu hle hf
  obtain ⟨hgwf, hgid, hgtotal⟩ := MessageChunker.wellFormed_of_mem_chunk hne hmtu hle hg
  obtain ⟨hoffset, hpayload⟩ := Fragment.mk.inj h
  have hsize : f.payloadSize.toNat = g.payloadSize.toNat := by
    rw [hfwf.size, hgwf.size, hpayload]
  cases f
  cases g
  simp only [ChunkFrame.mk.injEq]
  exact ⟨hfid.trans hgid.symm, UInt32.toNat_inj.1 (hftotal.trans hgtotal.symm),
    UInt32.toNat_inj.1 hoffset, UInt16.toNat_inj.1 hsize, hpayload⟩

/-- Frames of a message fill its buffer exactly when all of them have arrived. -/
theorem filled_iff_completes {arrived : List ChunkFrame} {frame : ChunkFrame}
    (hsub : ∀ f ∈ arrived ++ [frame], f ∈ c.chunk id m) :
    Filled m.length ((arrived ++ [frame]).map ChunkFrame.fragment) ↔
      Completes (c.chunk id m) arrived frame := by
  have htiling := MessageChunker.tiling_chunk id hne hmtu hle
  rw [filled_iff_of_tiling htiling fun g hg => by
    obtain ⟨f, hf, rfl⟩ := List.mem_map.1 hg
    exact List.mem_map.2 ⟨f, hsub f hf, rfl⟩]
  constructor
  · intro h f hf
    obtain ⟨g, hg, heq⟩ := List.mem_map.1 (h _ (List.mem_map.2 ⟨f, hf, rfl⟩))
    rwa [eq_of_fragment_eq hne hle hmtu hf (hsub g hg) heq.symm]
  · intro h g hg
    obtain ⟨f, hf, rfl⟩ := List.mem_map.1 hg
    exact List.mem_map.2 ⟨f, h f hf, rfl⟩

/-- What the frames of a message fill the buffer with is the message. -/
theorem contents_of_filled {fs : List ChunkFrame} (hsub : ∀ f ∈ fs, f ∈ c.chunk id m)
    (hfilled : Filled m.length (fs.map ChunkFrame.fragment)) :
    contents m.length (fs.map ChunkFrame.fragment) = m := by
  have htiling := MessageChunker.tiling_chunk id hne hmtu hle
  refine eq_of_filled_of_slices (fun g hg => ?_) (length_contents _ _) hfilled
    fun i hi => getElem?_contents hfilled hi
  obtain ⟨f, hf, rfl⟩ := List.mem_map.1 hg
  exact htiling.isSlice _ (List.mem_map.2 ⟨f, hsub f hf, rfl⟩)

/-- The assembly of the message holds the frames that have arrived. -/
structure Holds (length : ℕ) (arrived : List ChunkFrame) (slot : Option Assembly) : Prop where
  fragments : fragmentsOf slot = arrived.map ChunkFrame.fragment
  total : ∀ a ∈ slot, a.total = length
  empty : slot = none ↔ arrived = []

/-- **One frame of a message.**  It is answered with the message when it completes it. -/
theorem collect_frame {arrived : List ChunkFrame} {slot : Option Assembly}
    (hholds : Holds m.length arrived slot) {frame : ChunkFrame} (hframe : frame ∈ c.chunk id m)
    (harrived : ∀ f ∈ arrived, f ∈ c.chunk id m) (now : ℕ) :
    (collect slot (.chunk frame now)).1 =
        .ok (if Completes (c.chunk id m) arrived frame then some m else none) ∧
      Holds m.length
        (if Completes (c.chunk id m) arrived frame then [] else arrived ++ [frame])
        (collect slot (.chunk frame now)).2 := by
  obtain ⟨hwf, -, htotal⟩ := MessageChunker.wellFormed_of_mem_chunk hne hmtu hle hframe
  have haccepts : Accepts slot frame := ⟨hwf, fun a ha => (hholds.total a ha).trans htotal.symm⟩
  have hsub : ∀ f ∈ arrived ++ [frame], f ∈ c.chunk id m := by
    intro f hf
    rcases List.mem_append.1 hf with hf | hf
    · exact harrived f hf
    · rwa [List.mem_singleton.1 hf]
  have hfragments : fragmentsOf slot ++ [frame.fragment] =
      (arrived ++ [frame]).map ChunkFrame.fragment := by
    rw [hholds.fragments, List.map_append]
    rfl
  -- With this frame the buffer is full exactly when all frames have arrived.
  have hfilled : Filled frame.totalLength.toNat (fragmentsOf slot ++ [frame.fragment]) ↔
      Completes (c.chunk id m) arrived frame := by
    rw [htotal, hfragments]
    exact filled_iff_completes hne hle hmtu hsub
  unfold collect
  dsimp only
  rw [dif_pos haccepts]
  by_cases hcompletes : Completes (c.chunk id m) arrived frame
  · rw [dif_pos (hfilled.2 hcompletes), if_pos hcompletes, if_pos hcompletes, htotal, hfragments,
      contents_of_filled hne hle hmtu hsub
        ((filled_iff_completes hne hle hmtu hsub).2 hcompletes)]
    exact ⟨rfl, rfl, by simp, by simp⟩
  · rw [dif_neg fun h => hcompletes (hfilled.1 h), if_neg hcompletes, if_neg hcompletes]
    refine ⟨rfl, hfragments, fun a ha => ?_, by simp⟩
    obtain rfl := Option.some.inj ha
    exact htotal

/-- Along a run whose frames of the id are those of the message, the buffer of the id holds
the pending ones. -/
theorem exists_holds {r : MessageReassembler} (hr : r.buffers.lookup id = none)
    {is : List ReassemblerInput} (hframes : ∀ f ∈ deliveries id is, f ∈ c.chunk id m)
    (htimely : Timely id r is) (pre : List ReassemblerInput) (hpre : pre <+: is) :
    ∃ slot : Option Assembly,
      (exec MessageReassembler.step r pre).buffers.lookup id = slot.map Assembly.buffer ∧
        Holds m.length (pending (c.chunk id m) (deliveries id pre)) slot := by
  induction pre using List.reverseRecOn with
  | nil => exact ⟨none, hr, rfl, by simp, by simp [deliveries, pending]⟩
  | append_singleton pre i ih =>
    obtain ⟨slot, hslot, hholds⟩ := ih ((List.prefix_append pre [i]).trans hpre)
    obtain ⟨post, rfl⟩ := hpre
    rw [exec_append]
    show ∃ slot', (MessageReassembler.step _ i).2.buffers.lookup id = _ ∧ _
    cases i with
    | chunk frame now =>
      by_cases hid : frame.messageId = id
      · subst hid
        have hframe : frame ∈ c.chunk frame.messageId m := by
          refine hframes frame ?_
          rw [deliveries_append, deliveries_append, deliveries_chunk_self]
          simp
        have harrived : ∀ f ∈ pending (c.chunk frame.messageId m)
            (deliveries frame.messageId pre), f ∈ c.chunk frame.messageId m := by
          intro f hf
          refine hframes f ?_
          rw [deliveries_append, deliveries_append]
          exact List.mem_append_left _ (List.mem_append_left _ (pending_subset _ _ hf))
        refine ⟨_, (MessageReassembler.step_spec hslot (i := .chunk frame now) rfl).2, ?_⟩
        rw [deliveries_append, deliveries_chunk_self, pending_concat]
        exact (collect_frame hne hle hmtu hholds hframe harrived now).2
      · have hnot : ¬ Touches id (.chunk frame now) := hid
        refine ⟨slot, (MessageReassembler.lookup_step_of_not_touches _ hnot).trans hslot, ?_⟩
        rw [deliveries_append, deliveries_chunk_ne hid, List.append_nil]
        exact hholds
    | cleanup timeoutMs now =>
      -- The buffer is fresh enough, so the clean-up keeps it.
      have hkept : (collect slot (.cleanup timeoutMs now)).2 = slot := by
        unfold collect
        dsimp only
        cases slot with
        | none => rfl
        | some a =>
          have hfresh := htimely pre timeoutMs now post (by simp) a.buffer hslot
          exact Option.filter_some_pos (decide_eq_true hfresh)
      refine ⟨slot, ?_, ?_⟩
      · rw [(MessageReassembler.step_spec hslot (i := .cleanup timeoutMs now) trivial).2, hkept]
      · rw [deliveries_append]
        simpa [deliveries] using hholds

end Message

/-- The other message ids cannot tell whether the frames of an id are delivered. -/
theorem undisturbed (r : MessageReassembler) (is : List ReassemblerInput) {id other : UInt32}
    (hother : other ≠ id) :
    let is' := is.filter fun i => ! decide (IsChunkOf id i)
    (exec MessageReassembler.step r is).buffers.lookup other =
        (exec MessageReassembler.step r is').buffers.lookup other ∧
      ((trace MessageReassembler.step r is).filter fun e =>
          decide (Touches other e.input)).map Event.output =
        ((trace MessageReassembler.step r is').filter fun e =>
          decide (Touches other e.input)).map Event.output := by
  intro is'
  have hfilter : is'.filter (fun i => decide (Touches other i)) =
      is.filter fun i => decide (Touches other i) := by
    rw [List.filter_filter]
    refine List.filter_congr fun i _ => ?_
    cases i with
    | chunk frame now =>
      by_cases htouches : frame.messageId = other
      · have hnot : ¬ frame.messageId = id := fun h => hother (htouches.symm.trans h)
        simp [Touches, IsChunkOf, htouches, hother]
      · simp [Touches, htouches]
    | cleanup timeoutMs now => rfl
  have hproj := MessageReassembler.projection_lookup other
  have hrun := hproj.exec_filter (s := r) (t := r) rfl
  have houts := hproj.outputs_filter (s := r) (t := r) rfl
  exact ⟨by rw [hrun is, hrun is', hfilter], by rw [houts is, houts is', hfilter]⟩

/-- **Reassembly in any order.**  A message is cut into frames, and these are delivered in
any order, any number of times, among frames of other ids and timely clean-ups, to a
reassembler without a buffer for their id.  A frame is answered with the message exactly
when all frames have arrived since the message was last handed out; up to the first time,
this is when all frames have been delivered.  There is a buffer exactly while some but not
all have arrived, and the other ids are not disturbed. -/
theorem reassembles (c : MessageChunker) (id : UInt32) (m : List UInt8) (hne : m ≠ [])
    (hle : m.length ≤ maxMessageSizeBytes) (hmtu : chunkFrameHeaderSize < c.mtu)
    (r : MessageReassembler) (hr : r.buffers.lookup id = none) (is : List ReassemblerInput)
    (hframes : ∀ f ∈ deliveries id is, f ∈ c.chunk id m) (htimely : Timely id r is) :
    (∀ pre frame now post, is = pre ++ .chunk frame now :: post → frame.messageId = id →
      ((exec MessageReassembler.step r pre).step (.chunk frame now)).1 =
        .ok (if Completes (c.chunk id m) (pending (c.chunk id m) (deliveries id pre)) frame
          then some m else none)) ∧
    (∀ pre, (¬ ∀ f ∈ c.chunk id m, f ∈ deliveries id pre) →
      pending (c.chunk id m) (deliveries id pre) = deliveries id pre) ∧
    (∀ pre, pre <+: is →
      ((exec MessageReassembler.step r pre).buffers.lookup id = none ↔
        pending (c.chunk id m) (deliveries id pre) = [])) ∧
    ∀ other, other ≠ id →
      let is' := is.filter fun i => ! decide (IsChunkOf id i)
      (exec MessageReassembler.step r is).buffers.lookup other =
          (exec MessageReassembler.step r is').buffers.lookup other ∧
        ((trace MessageReassembler.step r is).filter fun e =>
            decide (Touches other e.input)).map Event.output =
          ((trace MessageReassembler.step r is').filter fun e =>
            decide (Touches other e.input)).map Event.output := by
  refine ⟨fun pre frame now post hsplit hid => ?_, fun pre h => pending_of_incomplete h,
    fun pre hpre => ?_, fun other hother => undisturbed r is hother⟩
  · subst hid
    obtain ⟨slot, hslot, hholds⟩ := exists_holds hne hle hmtu hr hframes htimely pre
      ⟨_, hsplit.symm⟩
    have hmem : ∀ f ∈ deliveries frame.messageId pre ++ [frame],
        f ∈ c.chunk frame.messageId m := by
      intro f hf
      refine hframes f ?_
      rw [hsplit, ← List.singleton_append, deliveries_append, deliveries_append,
        deliveries_chunk_self, ← List.append_assoc]
      exact List.mem_append_left _ hf
    rw [(MessageReassembler.step_spec hslot (i := .chunk frame now) rfl).1]
    exact (collect_frame hne hle hmtu hholds (hmem frame (by simp))
      (fun f hf => hmem f (List.mem_append_left _ (pending_subset _ _ hf))) now).1
  · obtain ⟨slot, hslot, hholds⟩ := exists_holds hne hle hmtu hr hframes htimely pre hpre
    rw [hslot, Option.map_eq_none_iff]
    exact hholds.empty

/-- The frames of a message of two bytes, in frames of one byte. -/
def sampleFrame (offset : UInt32) (byte : UInt8) : ChunkFrame := ⟨7, 2, offset, 1, [byte]⟩

theorem chunk_sample :
    (MessageChunker.mk 15).chunk 7 [1, 2] = [sampleFrame 0 1, sampleFrame 1 2] := by
  decide +kernel

/-- The second frame arrives first, and a clean-up comes between the two. -/
theorem reassembles_sample :
    ((exec MessageReassembler.step MessageReassembler.new
        [.chunk (sampleFrame 1 2) 0, .cleanup 5 1000000]).step
          (.chunk (sampleFrame 0 1) 2000000)).1 =
      .ok (some [1, 2]) := by
  have hall := reassembles ⟨15⟩ 7 [1, 2] (by decide) (by decide) (by decide)
    MessageReassembler.new rfl
    [.chunk (sampleFrame 1 2) 0, .cleanup 5 1000000, .chunk (sampleFrame 0 1) 2000000]
    (by rw [chunk_sample]; decide) ?_
  · have hanswer := hall.1 [.chunk (sampleFrame 1 2) 0, .cleanup 5 1000000] (sampleFrame 0 1)
      2000000 [] rfl rfl
    rwa [chunk_sample, if_pos (by decide)] at hanswer
  · intro pre timeoutMs now post hsplit b hb
    rcases pre with _ | ⟨i, _ | ⟨j, _ | ⟨k, pre⟩⟩⟩
    · simp at hsplit
    · simp only [List.cons_append, List.nil_append, List.cons.injEq,
        ReassemblerInput.cleanup.injEq] at hsplit
      obtain ⟨rfl, ⟨rfl, rfl⟩, -⟩ := hsplit
      omega
    · simp at hsplit
    · simp at hsplit

/-- All frames have arrived after two deliveries.  Delivered again, they start a new buffer
and are answered with the message once more. -/
theorem redelivered_sample :
    (MessageChunker.mk 15).chunk 7 [1, 2] = [sampleFrame 0 1, sampleFrame 1 2] ∧
      outputs MessageReassembler.step MessageReassembler.new
          [.chunk (sampleFrame 0 1) 0, .chunk (sampleFrame 1 2) 1, .chunk (sampleFrame 0 1) 2,
            .chunk (sampleFrame 1 2) 3] =
        [.ok none, .ok (some [1, 2]), .ok none, .ok (some [1, 2])] ∧
      ((exec MessageReassembler.step MessageReassembler.new
        [.chunk (sampleFrame 0 1) 0, .chunk (sampleFrame 1 2) 1,
          .chunk (sampleFrame 0 1) 2]).buffers.lookup 7).isSome := by
  refine ⟨chunk_sample, by decide, by decide⟩

end StellarConduit
