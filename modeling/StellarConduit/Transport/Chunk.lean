import StellarConduit.Lib.Fragments
import Mathlib.Data.Nat.Notation

/-!
# Chunking

`MessageChunker` of `transport/unified.rs`: a message is cut into frames that fit the MTU.
The random message id is an argument.

The frames of a message tile it (`tiling_chunk`), and each of them is well formed
(`wellFormed_of_mem_chunk`).
-/

namespace StellarConduit

open Verif.Fragments

def chunkFrameHeaderSize : ℕ := 14

def maxMessageSizeBytes : ℕ := 1024 * 1024

structure ChunkFrame where
  messageId : UInt32
  totalLength : UInt32
  offset : UInt32
  payloadSize : UInt16
  payload : List UInt8
  deriving DecidableEq

namespace ChunkFrame

/-- The piece of a message that a frame carries. -/
def fragment (f : ChunkFrame) : Fragment UInt8 := ⟨f.offset.toNat, f.payload⟩

/-- The fields of a frame fit together: this is what a receiver checks first. -/
structure WellFormed (f : ChunkFrame) : Prop where
  pos : 0 < f.totalLength.toNat
  le : f.totalLength.toNat ≤ maxMessageSizeBytes
  size : f.payloadSize.toNat = f.payload.length
  start : f.offset.toNat < f.totalLength.toNat
  stop : f.offset.toNat + f.payload.length ≤ f.totalLength.toNat

instance (f : ChunkFrame) : Decidable f.WellFormed :=
  decidable_of_iff (0 < f.totalLength.toNat ∧ f.totalLength.toNat ≤ maxMessageSizeBytes ∧
      f.payloadSize.toNat = f.payload.length ∧ f.offset.toNat < f.totalLength.toNat ∧
      f.offset.toNat + f.payload.length ≤ f.totalLength.toNat)
    ⟨fun ⟨h₁, h₂, h₃, h₄, h₅⟩ => ⟨h₁, h₂, h₃, h₄, h₅⟩,
      fun ⟨h₁, h₂, h₃, h₄, h₅⟩ => ⟨h₁, h₂, h₃, h₄, h₅⟩⟩

end ChunkFrame

structure MessageChunker where
  mtu : ℕ

namespace MessageChunker

/-- The loop of `chunk`, from an offset on. -/
def chunkLoop (payloadCapacity : ℕ) (hcap : 0 < payloadCapacity) (messageId : UInt32)
    (messageBytes : List UInt8) (offset : ℕ) : List ChunkFrame :=
  if offset < messageBytes.length then
    let stop := min (offset + payloadCapacity) messageBytes.length
    let payload := messageBytes.extract offset stop
    -- `as u32` and `as u16` drop the high bits.
    let frame :=
      { messageId := messageId
        totalLength := UInt32.ofNat messageBytes.length
        offset := UInt32.ofNat offset
        payloadSize := UInt16.ofNat payload.length
        payload := payload }
    frame :: chunkLoop payloadCapacity hcap messageId messageBytes stop
  else []
termination_by messageBytes.length - offset

def chunk (c : MessageChunker) (messageId : UInt32) (messageBytes : List UInt8) :
    List ChunkFrame :=
  if messageBytes = [] then []
  else if c.mtu ≤ chunkFrameHeaderSize then []
  else if messageBytes.length > maxMessageSizeBytes then []
  else
    let payloadCapacity := min (c.mtu - chunkFrameHeaderSize) 65535
    if hcap : payloadCapacity = 0 then []
    else chunkLoop payloadCapacity (Nat.pos_of_ne_zero hcap) messageId messageBytes 0

section Loop

variable {payloadCapacity : ℕ} {hcap : 0 < payloadCapacity} {messageId : UInt32}
  {messageBytes : List UInt8}

/-- One round of the loop: the next piece is not empty, and the rest of the message follows. -/
theorem drop_eq_extract_append {offset stop : ℕ} (hlt : offset < stop)
    (hstop : stop ≤ messageBytes.length) :
    messageBytes.drop offset = messageBytes.extract offset stop ++ messageBytes.drop stop ∧
      (messageBytes.extract offset stop).length = stop - offset := by
  have hdrop : messageBytes.drop stop = (messageBytes.drop offset).drop (stop - offset) := by
    rw [List.drop_drop, show offset + (stop - offset) = stop by omega]
  constructor
  · rw [hdrop, List.extract_eq_take_drop, List.take_append_drop]
  · rw [List.extract_eq_take_drop, List.length_take, List.length_drop]
    omega

/-- From an offset on, the frames tile what is left of the message. -/
theorem tiling_chunkLoop (hle : messageBytes.length ≤ maxMessageSizeBytes) (offset : ℕ) :
    Tiling offset (messageBytes.drop offset)
      ((chunkLoop payloadCapacity hcap messageId messageBytes offset).map ChunkFrame.fragment) := by
  fun_induction chunkLoop payloadCapacity hcap messageId messageBytes offset with
  | case1 offset hlt stop payload frame ih =>
    have hstop : offset < stop ∧ stop ≤ messageBytes.length := by omega
    obtain ⟨hsplit, hlen⟩ := drop_eq_extract_append hstop.1 hstop.2
    have hoffset : (UInt32.ofNat offset).toNat = offset := by
      rw [UInt32.toNat_ofNat', Nat.mod_eq_of_lt]
      unfold maxMessageSizeBytes at hle
      omega
    rw [hsplit, List.map_cons, ChunkFrame.fragment]
    show Tiling offset _ (⟨(UInt32.ofNat offset).toNat, payload⟩ :: _)
    rw [hoffset]
    refine Tiling.cons (fun hnil => ?_) ?_
    · rw [hnil, List.length_nil] at hlen
      omega
    · rw [hlen, show offset + (stop - offset) = stop by omega]
      exact ih
  | case2 offset hge =>
    rw [List.drop_eq_nil_of_le (by omega)]
    exact Tiling.nil offset

theorem wellFormed_of_mem_chunkLoop (hle : messageBytes.length ≤ maxMessageSizeBytes)
    (hsize : payloadCapacity ≤ 65535) (offset : ℕ) {f : ChunkFrame}
    (hf : f ∈ chunkLoop payloadCapacity hcap messageId messageBytes offset) :
    f.WellFormed ∧ f.messageId = messageId ∧ f.totalLength.toNat = messageBytes.length := by
  fun_induction chunkLoop payloadCapacity hcap messageId messageBytes offset with
  | case1 offset hlt stop payload frame ih =>
    rcases List.mem_cons.1 hf with rfl | hf
    · have hstop : offset < stop ∧ stop ≤ messageBytes.length := by omega
      have hlen : payload.length = stop - offset :=
        (drop_eq_extract_append hstop.1 hstop.2).2
      have hle' : messageBytes.length ≤ 1048576 := hle
      -- The numbers in the header fit their fields, since a message has at most a mebibyte.
      have htotal : (UInt32.ofNat messageBytes.length).toNat = messageBytes.length := by
        rw [UInt32.toNat_ofNat', Nat.mod_eq_of_lt]
        omega
      have hoffset : (UInt32.ofNat offset).toNat = offset := by
        rw [UInt32.toNat_ofNat', Nat.mod_eq_of_lt]
        omega
      have hpayload : (UInt16.ofNat payload.length).toNat = payload.length := by
        rw [UInt16.toNat_ofNat', Nat.mod_eq_of_lt]
        omega
      refine ⟨⟨?_, ?_, hpayload, ?_, ?_⟩, rfl, htotal⟩
      · show 0 < (UInt32.ofNat messageBytes.length).toNat
        omega
      · show (UInt32.ofNat messageBytes.length).toNat ≤ _
        omega
      · show (UInt32.ofNat offset).toNat < (UInt32.ofNat messageBytes.length).toNat
        omega
      · show (UInt32.ofNat offset).toNat + payload.length ≤
          (UInt32.ofNat messageBytes.length).toNat
        omega
    · exact ih hf
  | case2 => cases hf

end Loop

/-! ### The frames of a message -/

variable {c : MessageChunker} {messageId : UInt32} {messageBytes : List UInt8}

theorem chunk_eq_chunkLoop (messageId : UInt32) (hne : messageBytes ≠ [])
    (hmtu : chunkFrameHeaderSize < c.mtu) (hle : messageBytes.length ≤ maxMessageSizeBytes) :
    ∃ payloadCapacity hcap, payloadCapacity ≤ 65535 ∧
      c.chunk messageId messageBytes =
        chunkLoop payloadCapacity hcap messageId messageBytes 0 := by
  have hcap : min (c.mtu - chunkFrameHeaderSize) 65535 ≠ 0 := by omega
  refine ⟨_, Nat.pos_of_ne_zero hcap, Nat.min_le_right _ _, ?_⟩
  unfold chunk
  rw [if_neg hne, if_neg (by omega), if_neg (by omega), dif_neg hcap]

/-- **The frames of a message tile it.** -/
theorem tiling_chunk (messageId : UInt32) (hne : messageBytes ≠ [])
    (hmtu : chunkFrameHeaderSize < c.mtu)
    (hle : messageBytes.length ≤ maxMessageSizeBytes) :
    Tiling 0 messageBytes ((c.chunk messageId messageBytes).map ChunkFrame.fragment) := by
  obtain ⟨payloadCapacity, hcap, -, heq⟩ := chunk_eq_chunkLoop messageId hne hmtu hle
  rw [heq]
  exact tiling_chunkLoop hle 0

theorem wellFormed_of_mem_chunk (hne : messageBytes ≠ []) (hmtu : chunkFrameHeaderSize < c.mtu)
    (hle : messageBytes.length ≤ maxMessageSizeBytes) {f : ChunkFrame}
    (hf : f ∈ c.chunk messageId messageBytes) :
    f.WellFormed ∧ f.messageId = messageId ∧ f.totalLength.toNat = messageBytes.length := by
  obtain ⟨payloadCapacity, hcap, hsize, heq⟩ := chunk_eq_chunkLoop messageId hne hmtu hle
  rw [heq] at hf
  exact wellFormed_of_mem_chunkLoop hle hsize 0 hf

/-- A message that is empty or too long has no frames. -/
theorem chunk_eq_nil_iff (hmtu : chunkFrameHeaderSize < c.mtu) :
    c.chunk messageId messageBytes = [] ↔
      messageBytes = [] ∨ messageBytes.length > maxMessageSizeBytes := by
  constructor
  · intro hnil
    by_contra hfits
    obtain ⟨hne, hlong⟩ := not_or.1 hfits
    have htiling := tiling_chunk messageId hne hmtu (Nat.le_of_not_lt hlong)
    rw [hnil] at htiling
    exact hne htiling.flatMap_payload.symm
  · intro h
    unfold chunk
    by_cases hnil : messageBytes = []
    · rw [if_pos hnil]
    · have hlong : messageBytes.length > maxMessageSizeBytes := h.resolve_left hnil
      rw [if_neg hnil, if_neg (by omega), if_pos hlong]

/-- Every frame is well formed, since there are none for a message that is empty or too long. -/
theorem wellFormed_chunk (hmtu : chunkFrameHeaderSize < c.mtu) :
    ∀ f ∈ c.chunk messageId messageBytes, f.WellFormed := by
  intro f hf
  by_cases hnil : messageBytes = [] ∨ messageBytes.length > maxMessageSizeBytes
  · rw [(chunk_eq_nil_iff hmtu).2 hnil] at hf
    cases hf
  · obtain ⟨hne, hlong⟩ := not_or.1 hnil
    exact (wellFormed_of_mem_chunk hne hmtu (Nat.le_of_not_lt hlong) hf).1

end MessageChunker

end StellarConduit
