import StellarConduit.Lib.HashMap
import StellarConduit.Lib.Machine
import StellarConduit.Transport.Chunk

/-!
# Reassembling chunks

`MessageReassembler` of `transport/unified.rs`: the frames of a message are written into a
buffer, and the buffer is handed out when each of its bytes was received.  An index out of
bounds panics (`Panic`), and `usize` has 64 bits.  Instants are in nanoseconds.

* `receiveChunk`, `cleanupStaleBuffers`, and `step`, which makes a machine of them;
* `Assembly`: what a buffer stands for, the fragments received since it was created;
  `collect` is the machine of a single message id over assemblies;
* `projection_collect`: each message id of a reassembler is a `collect` machine.
-/

namespace StellarConduit

open Verif Verif.Fragments Verif.Machine

inductive Panic
  | indexOutOfBounds
  deriving DecidableEq

/-- `usize::checked_add` -/
def checkedAdd (a b : ℕ) : Option ℕ := if a + b < UInt64.size then some (a + b) else none

structure PartialMessageBuffer where
  totalLength : ℕ
  data : List UInt8
  receivedMap : List Bool
  receivedBytes : ℕ
  lastUpdated : ℕ
  deriving DecidableEq

namespace PartialMessageBuffer

/-- The buffer that `or_insert_with` creates. -/
def new (totalLength now : ℕ) : PartialMessageBuffer where
  totalLength := totalLength
  data := List.replicate totalLength 0
  receivedMap := List.replicate totalLength false
  receivedBytes := 0
  lastUpdated := now

/-- The body of the loop of `receive_chunk`. -/
def writeByte (buffer : PartialMessageBuffer) (idx : ℕ) (byte : UInt8) :
    Except Panic PartialMessageBuffer :=
  match buffer.receivedMap[idx]? with
  | none => .error .indexOutOfBounds
  | some received =>
    let buffer :=
      if !received then
        { buffer with
          receivedMap := buffer.receivedMap.set idx true
          receivedBytes := buffer.receivedBytes + 1 }
      else buffer
    if idx < buffer.data.length then .ok { buffer with data := buffer.data.set idx byte }
    else .error .indexOutOfBounds

/-- `for (idx, byte) in (start..end).zip(payload)` -/
def writeBytes (buffer : PartialMessageBuffer) (start stop : ℕ) (payload : List UInt8) :
    Except Panic PartialMessageBuffer :=
  ((List.range' start (stop - start)).zip payload).foldlM
    (fun buffer e => buffer.writeByte e.1 e.2) buffer

end PartialMessageBuffer

structure MessageReassembler where
  buffers : HashMap UInt32 PartialMessageBuffer

/-- A call of the reassembler, with the instant it reads off the clock. -/
inductive ReassemblerInput
  | chunk (frame : ChunkFrame) (now : ℕ)
  | cleanup (timeoutMs now : ℕ)

namespace MessageReassembler

def new : MessageReassembler := ⟨∅⟩

def receiveChunk (r : MessageReassembler) (chunk : ChunkFrame) (now : ℕ) :
    Except Panic (Option (List UInt8) × MessageReassembler) :=
  let totalLength := chunk.totalLength.toNat
  if totalLength = 0 ∨ totalLength > maxMessageSizeBytes then .ok (none, r)
  else if chunk.payloadSize.toNat ≠ chunk.payload.length then .ok (none, r)
  else
    let start := chunk.offset.toNat
    match checkedAdd start chunk.payload.length with
    | none => .ok (none, r)
    | some stop =>
      if start ≥ totalLength ∨ stop > totalLength then .ok (none, r)
      else
        let (buffer, buffers) := HashMap.orInsert chunk.messageId
          (PartialMessageBuffer.new totalLength now) r.buffers
        -- A buffer that was just created has the frame's length.
        if buffer.totalLength ≠ totalLength then .ok (none, ⟨buffers⟩)
        else
          match buffer.writeBytes start stop chunk.payload with
          | .error panic => .error panic
          | .ok buffer =>
            let buffer := { buffer with lastUpdated := now }
            if buffer.receivedBytes = buffer.totalLength then
              .ok (some buffer.data, ⟨buffers.erase chunk.messageId⟩)
            else .ok (none, ⟨buffers.insert chunk.messageId buffer⟩)

def cleanupStaleBuffers (r : MessageReassembler) (timeoutMs now : ℕ) : MessageReassembler :=
  let timeout := timeoutMs * 1000000
  ⟨HashMap.retain (fun _ buffer => decide (now - buffer.lastUpdated ≤ timeout)) r.buffers⟩

/-- The reassembler as a machine; a panic leaves its state alone. -/
def step (r : MessageReassembler) :
    ReassemblerInput → Except Panic (Option (List UInt8)) × MessageReassembler
  | .chunk frame now =>
    match r.receiveChunk frame now with
    | .ok (message, r') => (.ok message, r')
    | .error panic => (.error panic, r)
  | .cleanup timeoutMs now => (.ok none, r.cleanupStaleBuffers timeoutMs now)

end MessageReassembler

/-! ### Arrays of cells -/

namespace PartialMessageBuffer

/-- The buffer whose bytes are the given cells; a cell that was not written is zero. -/
def ofCells (total : ℕ) (cells : ℕ → Option UInt8) (lastUpdated : ℕ) : PartialMessageBuffer where
  totalLength := total
  data := (List.range total).map fun i => (cells i).getD 0
  receivedMap := (List.range total).map fun i => (cells i).isSome
  receivedBytes := ((List.range total).map fun i => (cells i).isSome).count true
  lastUpdated := lastUpdated

variable {total : ℕ} {cells : ℕ → Option UInt8} {lastUpdated : ℕ}

theorem new_eq_ofCells (total now : ℕ) : new total now = ofCells total (fun _ => none) now := by
  simp [new, ofCells, List.map_const', List.count_replicate]

/-- Writing a byte inside the buffer does not panic, and sets its cell. -/
theorem writeByte_ofCells {idx : ℕ} (h : idx < total) (byte : UInt8) :
    (ofCells total cells lastUpdated).writeByte idx byte =
      .ok (ofCells total (Function.update cells idx (some byte)) lastUpdated) := by
  have hlen : idx < ((List.range total).map fun i => (cells i).isSome).length := by simpa using h
  have hdata := set_map_range (fun c : Option UInt8 => c.getD 0) cells total idx (some byte)
  have hmap := set_map_range Option.isSome cells total idx (some byte)
  have hcount := List.count_set (a := true) (b := true) hlen
  have hin : idx < (ofCells total cells lastUpdated).data.length := by simpa [ofCells] using h
  have hreceived : (ofCells total cells lastUpdated).receivedMap[idx]? =
      some (cells idx).isSome := by
    simp [ofCells, h]
  unfold writeByte
  rw [hreceived]
  dsimp only
  cases hcell : (cells idx).isSome with
  | true =>
    -- The byte was received before: the map and the counter stay as they are.
    have hsame : (List.range total).map (fun i => (cells i).isSome) =
        (List.range total).map fun i => (Function.update cells idx (some byte) i).isSome := by
      refine List.map_congr_left fun i _ => ?_
      by_cases hi : i = idx
      · subst hi
        rw [Function.update_self, hcell]
        rfl
      · rw [Function.update_of_ne hi]
    simp only [Bool.not_true, Bool.false_eq_true, if_false]
    rw [if_pos hin, ofCells, ofCells, ← hsame, ← hdata]
    rfl
  | false =>
    have hfalse : ((List.range total).map fun i => (cells i).isSome)[idx] = false := by
      simpa using hcell
    rw [hfalse] at hcount
    simp only [Bool.not_false, if_true]
    rw [if_pos hin, ofCells, ofCells, ← hdata, ← hmap]
    simp only [Option.isSome_some, hcount]
    rfl

/-- Writing a payload inside the buffer does not panic, and writes its fragment. -/
theorem writeBytes_ofCells {start : ℕ} {payload : List UInt8}
    (h : start + payload.length ≤ total) :
    (ofCells total cells lastUpdated).writeBytes start (start + payload.length) payload =
      .ok (ofCells total (fun i => (Fragment.at? ⟨start, payload⟩ i).or (cells i))
        lastUpdated) := by
  unfold writeBytes
  rw [Nat.add_sub_cancel_left]
  induction payload generalizing start cells with
  | nil =>
    have hcells : (fun i => (Fragment.at? ⟨start, []⟩ i).or (cells i)) = cells := by
      funext i
      simp [Fragment.at?]
    rw [hcells]
    rfl
  | cons x payload ih =>
    rw [List.length_cons] at h
    have hcells : (fun i => (Fragment.at? ⟨start, x :: payload⟩ i).or (cells i)) =
        fun i => (Fragment.at? ⟨start + 1, payload⟩ i).or
          (Function.update cells start (some x) i) := by
      funext i
      exact at?_cons_or start x payload cells i
    rw [List.length_cons, List.range'_succ, List.zip_cons_cons, List.foldlM_cons,
      writeByte_ofCells (by omega), hcells]
    exact ih (by omega)

/-- The counter reaches the length exactly when every cell was written. -/
theorem receivedBytes_ofCells_eq_iff (total : ℕ) (cells : ℕ → Option UInt8) (lastUpdated : ℕ) :
    (ofCells total cells lastUpdated).receivedBytes =
        (ofCells total cells lastUpdated).totalLength ↔ ∀ i < total, (cells i).isSome := by
  have hlen : ((List.range total).map fun i => (cells i).isSome).length = total := by simp
  show ((List.range total).map fun i => (cells i).isSome).count true = total ↔ _
  nth_rewrite 2 [← hlen]
  rw [List.count_eq_length]
  simp

theorem receivedBytes_ofCells_le : (ofCells total cells lastUpdated).receivedBytes ≤ total := by
  have hle := List.count_le_length (a := true)
    (l := (List.range total).map fun i => (cells i).isSome)
  simpa [ofCells] using hle

end PartialMessageBuffer

/-! ### Assemblies -/

/-- The fragments of one message that were received since its buffer was created; some byte
is still missing. -/
structure Assembly where
  total : ℕ
  fragments : List (Fragment UInt8)
  lastUpdated : ℕ
  pos : 0 < total
  le : total ≤ maxMessageSizeBytes
  unfilled : ¬ Filled total fragments

/-- The buffer that stands for an assembly. -/
def Assembly.buffer (a : Assembly) : PartialMessageBuffer :=
  .ofCells a.total (written a.fragments) a.lastUpdated

/-- What the fragments have written, in a message of the given length. -/
def contents (total : ℕ) (fragments : List (Fragment UInt8)) : List UInt8 :=
  (List.range total).map fun i => (written fragments i).getD 0

@[simp] theorem length_contents (total : ℕ) (fragments : List (Fragment UInt8)) :
    (contents total fragments).length = total := by
  simp [contents]

/-- In a filled array, what is found at a position is what was written there. -/
theorem getElem?_contents {total : ℕ} {fragments : List (Fragment UInt8)}
    (h : Filled total fragments) {i : ℕ} (hi : i < total) :
    (contents total fragments)[i]? = written fragments i := by
  obtain ⟨x, hx⟩ := Option.isSome_iff_exists.1 (h i hi)
  simp [contents, hi, hx]

/-- The fragments received so far. -/
def fragmentsOf (slot : Option Assembly) : List (Fragment UInt8) :=
  (slot.map Assembly.fragments).getD []

/-- The frame passes the checks of `receive_chunk`. -/
def Accepts (slot : Option Assembly) (frame : ChunkFrame) : Prop :=
  frame.WellFormed ∧ ∀ a ∈ slot, a.total = frame.totalLength.toNat

instance (slot : Option Assembly) (frame : ChunkFrame) : Decidable (Accepts slot frame) :=
  inferInstanceAs (Decidable (_ ∧ _))

/-- The reassembler of a single message id. -/
def collect (slot : Option Assembly) :
    ReassemblerInput → Except Panic (Option (List UInt8)) × Option Assembly
  | .chunk frame now =>
    if hf : Accepts slot frame then
      let total := frame.totalLength.toNat
      let fragments := fragmentsOf slot ++ [frame.fragment]
      if h : Filled total fragments then (.ok (some (contents total fragments)), none)
      else
        (.ok none,
          some
            { total := total
              fragments := fragments
              lastUpdated := now
              pos := hf.1.pos
              le := hf.1.le
              unfilled := h })
    else (.ok none, slot)
  | .cleanup timeoutMs now =>
    (.ok none, slot.filter fun a => decide (now - a.lastUpdated ≤ timeoutMs * 1000000))

/-- A frame that is not accepted leaves everything as it is. -/
theorem collect_of_not_accepts {slot : Option Assembly} {frame : ChunkFrame}
    (h : ¬ Accepts slot frame) (now : ℕ) : collect slot (.chunk frame now) = (.ok none, slot) :=
  dif_neg h

theorem collect_chunk_eq_some_iff {slot : Option Assembly} {frame : ChunkFrame} {now : ℕ}
    {bytes : List UInt8} :
    (collect slot (.chunk frame now)).1 = .ok (some bytes) ↔
      Accepts slot frame ∧ Filled frame.totalLength.toNat (fragmentsOf slot ++ [frame.fragment]) ∧
        contents frame.totalLength.toNat (fragmentsOf slot ++ [frame.fragment]) = bytes := by
  unfold collect
  dsimp only
  split_ifs with haccepts hfilled
  · simp [haccepts, hfilled]
  · simp [hfilled]
  · simp [haccepts]

/-- The inputs that can change the buffer of a message id. -/
def Touches (id : UInt32) : ReassemblerInput → Prop
  | .chunk frame _ => frame.messageId = id
  | .cleanup _ _ => True

instance (id : UInt32) : DecidablePred (Touches id)
  | .chunk frame _ => inferInstanceAs (Decidable (frame.messageId = id))
  | .cleanup _ _ => inferInstanceAs (Decidable True)

namespace MessageReassembler

/-- The steps of `receive_chunk` after its checks on the frame alone. -/
def receiveWellFormed (r : MessageReassembler) (chunk : ChunkFrame) (now : ℕ) :
    Except Panic (Option (List UInt8) × MessageReassembler) :=
  let totalLength := chunk.totalLength.toNat
  let start := chunk.offset.toNat
  let (buffer, buffers) := HashMap.orInsert chunk.messageId
    (PartialMessageBuffer.new totalLength now) r.buffers
  if buffer.totalLength ≠ totalLength then .ok (none, ⟨buffers⟩)
  else
    match buffer.writeBytes start (start + chunk.payload.length) chunk.payload with
    | .error panic => .error panic
    | .ok buffer =>
      let buffer := { buffer with lastUpdated := now }
      if buffer.receivedBytes = buffer.totalLength then
        .ok (some buffer.data, ⟨buffers.erase chunk.messageId⟩)
      else .ok (none, ⟨buffers.insert chunk.messageId buffer⟩)

theorem receiveChunk_eq (r : MessageReassembler) (frame : ChunkFrame) (now : ℕ) :
    r.receiveChunk frame now =
      if frame.WellFormed then r.receiveWellFormed frame now else .ok (none, r) := by
  unfold receiveChunk
  dsimp only
  by_cases htotal : frame.totalLength.toNat = 0 ∨ frame.totalLength.toNat > maxMessageSizeBytes
  · have hnot : ¬ frame.WellFormed := fun h => by
      have hpos := h.pos
      have hle := h.le
      omega
    rw [if_pos htotal, if_neg hnot]
  · rw [if_neg htotal]
    by_cases hsize : frame.payloadSize.toNat ≠ frame.payload.length
    · rw [if_pos hsize, if_neg fun h => hsize h.size]
    · rw [if_neg hsize]
      -- The offset is a 32-bit word and the length of the payload a 16-bit one.
      have hoffset := frame.offset.toNat_lt
      have hlength := frame.payloadSize.toNat_lt
      have hadd : checkedAdd frame.offset.toNat frame.payload.length =
          some (frame.offset.toNat + frame.payload.length) := by
        have hfits : frame.offset.toNat + frame.payload.length < UInt64.size := by
          show _ < 18446744073709551616
          omega
        exact if_pos hfits
      rw [hadd]
      dsimp only
      by_cases hout : frame.offset.toNat ≥ frame.totalLength.toNat ∨
          frame.offset.toNat + frame.payload.length > frame.totalLength.toNat
      · have hnot : ¬ frame.WellFormed := fun h => by
          have hstart := h.start
          have hstop := h.stop
          omega
        rw [if_pos hout, if_neg hnot]
      · have hwf : frame.WellFormed :=
          ⟨by omega, by omega, by omega, by omega, by omega⟩
        rw [if_neg hout, if_pos hwf]
        rfl

/-- What `entry(..).or_insert_with(..)` yields, when the buffer of the id stands for `slot`. -/
theorem orInsert_eq {r : MessageReassembler} {frame : ChunkFrame} {slot : Option Assembly}
    (hslot : r.buffers.lookup frame.messageId = slot.map Assembly.buffer) (now : ℕ) :
    ∃ total lastUpdated buffers,
      HashMap.orInsert frame.messageId (PartialMessageBuffer.new frame.totalLength.toNat now)
          r.buffers =
        (.ofCells total (written (fragmentsOf slot)) lastUpdated, buffers) ∧
      (total = frame.totalLength.toNat ↔ ∀ a ∈ slot, a.total = frame.totalLength.toNat) ∧
      (total ≠ frame.totalLength.toNat → buffers = r.buffers) := by
  unfold HashMap.orInsert
  rw [hslot]
  cases slot with
  | none =>
    rw [PartialMessageBuffer.new_eq_ofCells]
    refine ⟨frame.totalLength.toNat, now,
      r.buffers.insert frame.messageId (.ofCells frame.totalLength.toNat (fun _ => none) now),
      rfl, by simp, fun h => absurd rfl h⟩
  | some a => exact ⟨a.total, a.lastUpdated, r.buffers, rfl, by simp, fun _ => rfl⟩

/-- **One frame.**  If the buffer of its id stands for an assembly, a frame does not panic,
and does to it what `collect` says. -/
theorem receiveChunk_spec {r : MessageReassembler} {frame : ChunkFrame} {slot : Option Assembly}
    (hslot : r.buffers.lookup frame.messageId = slot.map Assembly.buffer) (now : ℕ) :
    ∃ message r', r.receiveChunk frame now = .ok (message, r') ∧
      (collect slot (.chunk frame now)).1 = .ok message ∧
      r'.buffers.lookup frame.messageId =
        (collect slot (.chunk frame now)).2.map Assembly.buffer := by
  rw [receiveChunk_eq]
  by_cases hwf : frame.WellFormed
  · rw [if_pos hwf, receiveWellFormed]
    obtain ⟨total, lastUpdated, buffers, hinsert, htotal, hbuffers⟩ := orInsert_eq hslot now
    rw [hinsert]
    dsimp only
    by_cases heq : total = frame.totalLength.toNat
    · subst heq
      have haccepts : Accepts slot frame := ⟨hwf, htotal.1 rfl⟩
      have hwritten : (fun i => (Fragment.at? ⟨frame.offset.toNat, frame.payload⟩ i).or
          (written (fragmentsOf slot) i)) = written (fragmentsOf slot ++ [frame.fragment]) := by
        funext i
        exact (written_concat _ frame.fragment i).symm
      rw [if_neg (fun h => h rfl), PartialMessageBuffer.writeBytes_ofCells hwf.stop, hwritten]
      dsimp only [collect]
      rw [dif_pos haccepts]
      -- The counter of the buffer reaches the total exactly when every position is filled.
      by_cases hfilled : Filled frame.totalLength.toNat (fragmentsOf slot ++ [frame.fragment])
      · have hbytes := (PartialMessageBuffer.receivedBytes_ofCells_eq_iff _ _ lastUpdated).2 hfilled
        rw [dif_pos hfilled, if_pos hbytes]
        exact ⟨_, _, rfl, rfl, AList.lookup_erase _ _⟩
      · have hbytes := fun h => hfilled
          ((PartialMessageBuffer.receivedBytes_ofCells_eq_iff _ _ lastUpdated).1 h)
        rw [dif_neg hfilled, if_neg hbytes]
        exact ⟨_, _, rfl, rfl, AList.lookup_insert _⟩
    · have hnot : ¬ Accepts slot frame := fun h => heq (htotal.2 h.2)
      have htotalLength : (PartialMessageBuffer.ofCells total (written (fragmentsOf slot))
          lastUpdated).totalLength ≠ frame.totalLength.toNat := heq
      rw [if_pos htotalLength, hbuffers heq, collect_of_not_accepts hnot]
      exact ⟨none, r, rfl, rfl, hslot⟩
  · have hnot : ¬ Accepts slot frame := fun h => hwf h.1
    rw [if_neg hwf, collect_of_not_accepts hnot]
    exact ⟨none, r, rfl, rfl, hslot⟩

/-- A frame leaves the buffers of other message ids alone. -/
theorem lookup_receiveChunk_ne {r r' : MessageReassembler} {frame : ChunkFrame} {now : ℕ}
    {message : Option (List UInt8)} (h : r.receiveChunk frame now = .ok (message, r'))
    {id : UInt32} (hid : id ≠ frame.messageId) : r'.buffers.lookup id = r.buffers.lookup id := by
  rw [receiveChunk_eq] at h
  split_ifs at h with hwf
  · unfold receiveWellFormed at h
    dsimp only at h
    have hinsert := HashMap.lookup_orInsert_ne hid
      (PartialMessageBuffer.new frame.totalLength.toNat now) r.buffers
    rcases hentry : HashMap.orInsert frame.messageId
      (PartialMessageBuffer.new frame.totalLength.toNat now) r.buffers with ⟨buffer, buffers⟩
    rw [hentry] at h hinsert
    dsimp only at h
    split_ifs at h with htotal
    · cases h
      exact hinsert
    · cases hwrite : buffer.writeBytes frame.offset.toNat
          (frame.offset.toNat + frame.payload.length) frame.payload with
      | error panic =>
        rw [hwrite] at h
        cases h
      | ok buffer' =>
        rw [hwrite] at h
        dsimp only at h
        split_ifs at h with hbytes
        · cases h
          exact (AList.lookup_erase_ne hid).trans hinsert
        · cases h
          exact (AList.lookup_insert_ne hid).trans hinsert
  · cases h
    rfl

theorem lookup_step_of_not_touches (r : MessageReassembler) {id : UInt32}
    {i : ReassemblerInput} (h : ¬ Touches id i) :
    (r.step i).2.buffers.lookup id = r.buffers.lookup id := by
  cases i with
  | chunk frame now =>
    unfold step
    dsimp only
    cases hreceive : r.receiveChunk frame now with
    | error panic => rfl
    | ok out => exact lookup_receiveChunk_ne hreceive fun heq => h heq.symm
  | cleanup timeoutMs now => exact absurd trivial h

/-- One step of a message id is a step of `collect`. -/
theorem step_spec {r : MessageReassembler} {id : UInt32} {slot : Option Assembly}
    (hslot : r.buffers.lookup id = slot.map Assembly.buffer) {i : ReassemblerInput}
    (h : Touches id i) :
    (r.step i).1 = (collect slot i).1 ∧
      (r.step i).2.buffers.lookup id = (collect slot i).2.map Assembly.buffer := by
  cases i with
  | chunk frame now =>
    obtain rfl : frame.messageId = id := h
    obtain ⟨message, r', hreceive, hmessage, hlookup⟩ := receiveChunk_spec hslot now
    rw [step, hreceive]
    exact ⟨hmessage.symm, hlookup⟩
  | cleanup timeoutMs now =>
    refine ⟨rfl, ?_⟩
    show (HashMap.retain _ r.buffers).lookup id = _
    rw [HashMap.lookup_retain, hslot, Option.filter_map]
    rfl

/-- **One message id.**  Each message id of a reassembler is a `collect` machine. -/
theorem projection_collect (id : UInt32) :
    Projection step collect
      (fun r slot => r.buffers.lookup id = slot.map Assembly.buffer) (Touches id) where
  skip r _ _ hi hslot := (r.lookup_step_of_not_touches hi).trans hslot
  sync _ _ _ hi hslot := step_spec hslot hi

end MessageReassembler

end StellarConduit
