/-
# The pcapng importer

The importer walks over the blocks of a file. Of a section header it checks the byte
order, of an enhanced packet it takes the payload and the timestamp, and every other block
is passed over, interface descriptions included. A file that ends inside the header of a
block ends there.

A timestamp is taken as a count of microseconds, whatever resolution the file declares.
-/

import Mathlib.Data.List.ReduceOption
import TraceMux.Core.Importer.Destination

namespace TraceMux.Core.Importer.Pcapng

open Base Core.Log List

def blockShb : ℕ := 0x0A0D0D0A

def blockEpb : ℕ := 0x00000006

/-- What a section header begins with in the byte order of the importer. -/
def shbMagic : ℕ := 0x1A2B3C4D

def err (context : String) : TraceMuxError :=
  ⟨.E1001PipelineGeneric, s!"pcapng-import: {context}"⟩

structure RawBlock where
  blockType : ℕ
  body : Bytes
  deriving DecidableEq, Repr

def nextBlock (rd : OpenFile) : Except TraceMuxError (Option (RawBlock × OpenFile)) :=
  match rd.readExact 8 with
  | .error .unexpectedEof => .ok none
  | .error (.other _) => .error (err "reading block header")
  | .ok (header, rd) =>
    let blockType := fromLeBytes (header.take 4)
    let totalLen := fromLeBytes (header.drop 4)
    if totalLen < 12 then .error (err "pcapng block total length < 12")
    else
      match rd.readExact (totalLen - 12) with
      | .error _ => .error (err "reading body")
      | .ok (body, rd) =>
        match rd.readExact 4 with
        | .error _ => .error (err "reading tail")
        | .ok (_, rd) => .ok (some (⟨blockType, body⟩, rd))

def asI64 (n : ℕ) : ℤ := if n < 2 ^ 63 then n else n - 2 ^ 64

def saturatingMul (a b : ℤ) : ℤ := max (-2 ^ 63) (min (2 ^ 63 - 1) (a * b))

/-- The time of origin of a packet with the given count, in nanoseconds. -/
def originNs (tsUs : ℕ) : ℤ := saturatingMul (asI64 tsUs) 1000

def packetOf (block : RawBlock) : Except TraceMuxError (Option (ℤ × Bytes)) :=
  let body := block.body
  if block.blockType = blockShb then
    if body.length < 4 then .error (err "SHB body too short")
    else if fromLeBytes (body.take 4) ≠ shbMagic then
      .error (err "pcapng byte-order swap not supported in v0.1")
    else .ok none
  else if block.blockType = blockEpb then
    if body.length < 20 then .ok none
    else
      let tsHigh := fromLeBytes ((body.drop 4).take 4)
      let tsLow := fromLeBytes ((body.drop 8).take 4)
      let capLen := fromLeBytes ((body.drop 12).take 4)
      if body.length < 20 + capLen then .error (err "EPB capture length exceeds block body")
      else .ok (some (originNs (tsHigh <<< 32 ||| tsLow), (body.drop 20).take capLen))
  else .ok none

def importedPacket (now : ℤ) (packet : ℤ × Bytes) : Imported :=
  ⟨packet.1, now, .datagram, none, packet.2⟩

/-- A block that was read has been passed. -/
theorem remaining_lt_of_nextBlock {rd rd' : OpenFile} {block : RawBlock}
    (h : nextBlock rd = .ok (some (block, rd'))) :
    rd'.remaining.length < rd.remaining.length := by
  revert h
  fun_cases nextBlock rd with
  | case6 header rd₁ hheader _ _ _ body rd₂ hbody tail rd₃ htail =>
    rintro ⟨⟩
    have hlen := (OpenFile.readExact_ok hheader).1
    rw [OpenFile.readExact_remaining htail, OpenFile.readExact_remaining hbody,
      OpenFile.readExact_remaining hheader]
    simp only [length_drop]
    omega
  | _ => rintro ⟨⟩

section Import

variable (codec : RowCodec) (sid : Uuid) (clock : ℕ → ℤ)

/-- The loop over the blocks of a file. `clock` gives the time at which the packets are taken, of
which `count` came before. -/
def importBlocks (count : ℕ) (rd : OpenFile) (d : Destination) :
    Except TraceMuxError Unit × Destination :=
  match _h : nextBlock rd with
  | .error e => (.error e, d)
  | .ok none => (.ok (), d)
  | .ok (some (block, rd')) =>
    match packetOf block with
    | .error e => (.error e, d)
    | .ok none => importBlocks count rd' d
    | .ok (some (tsNs, data)) =>
      importBlocks (count + 1) rd' (d.append codec sid (importedPacket (clock count) (tsNs, data)))
termination_by rd.remaining.length
decreasing_by all_goals exact remaining_lt_of_nextBlock _h

def importFile (bytes : Bytes) : Except TraceMuxError Unit × Destination :=
  importBlocks codec sid clock 0 ⟨bytes, 0⟩ {}

/-- A block as it stands in a file. -/
def RawBlock.bytes (block : RawBlock) : Bytes :=
  toLeBytes 4 block.blockType ++ toLeBytes 4 (block.body.length + 12) ++ block.body ++
    toLeBytes 4 (block.body.length + 12)

/-- The type and the length of the block have room in its header. -/
def RawBlock.Fits (block : RawBlock) : Prop :=
  block.blockType < 2 ^ 32 ∧ block.body.length + 12 < 2 ^ 32

variable {codec sid clock}

/-- A block with room in its header is read back. -/
theorem nextBlock_bytes {rd : OpenFile} {block : RawBlock} (hfits : block.Fits) {rest : Bytes}
    (h : rd.remaining = block.bytes ++ rest) :
    ∃ rd', nextBlock rd = .ok (some (block, rd')) ∧ rd'.remaining = rest := by
  obtain ⟨blockType, body⟩ := block
  obtain ⟨htype, hlength⟩ := hfits
  simp only [RawBlock.bytes, append_assoc] at h
  rw [← append_assoc] at h
  obtain ⟨rd₁, hheader, h₁⟩ := OpenFile.exists_readExact h (n := 8) (by simp)
  obtain ⟨rd₂, hbody, h₂⟩ := OpenFile.exists_readExact h₁ rfl
  obtain ⟨rd₃, htail, h₃⟩ := OpenFile.exists_readExact h₂ (toLeBytes_length 4 _)
  refine ⟨rd₃, ?_, h₃⟩
  have hfields : fromLeBytes ((toLeBytes 4 blockType ++ toLeBytes 4 (body.length + 12)).take 4) =
        blockType ∧
      fromLeBytes ((toLeBytes 4 blockType ++ toLeBytes 4 (body.length + 12)).drop 4) =
        body.length + 12 := by
    rw [take_left' (toLeBytes_length 4 _), drop_left' (toLeBytes_length 4 _),
      fromLeBytes_toLeBytes htype, fromLeBytes_toLeBytes hlength]
    exact ⟨rfl, rfl⟩
  have hlong : ¬ body.length + 12 < 12 := by omega
  rw [nextBlock, hheader]
  simp only [hfields.1, hfields.2, if_neg hlong, Nat.add_sub_cancel, hbody, htail]

theorem nextBlock_end {rd : OpenFile} (h : rd.remaining = []) : nextBlock rd = .ok none := by
  rw [nextBlock, OpenFile.readExact_of_short (by simp [h])]

theorem importBlocks_bytes {blocks : List RawBlock} (hfits : ∀ block ∈ blocks, block.Fits)
    {found : List (Option (ℤ × Bytes))} (hfound : blocks.map packetOf = found.map .ok)
    {count : ℕ} {rd : OpenFile} (hrd : rd.remaining = blocks.flatMap RawBlock.bytes)
    {d : Destination} {before : List Imported} (hd : d.Holds codec sid before) :
    ∃ d', importBlocks codec sid clock count rd d = (.ok (), d') ∧
      d'.Holds codec sid (before ++ takenAt clock importedPacket count found.reduceOption) := by
  induction blocks generalizing found count rd d before with
  | nil =>
    have hnone : found = [] := by simpa using hfound
    refine ⟨d, ?_, ?_⟩
    · rw [importBlocks, nextBlock_end hrd]
    · rw [hnone, reduceOption_nil, takenAt, append_nil]
      exact hd
  | cons block blocks ih =>
    cases found with
    | nil => cases hfound
    | cons first found =>
      rw [map_cons, map_cons, cons.injEq] at hfound
      obtain ⟨rd', hnext, hrest⟩ := nextBlock_bytes (hfits block mem_cons_self) hrd
      have hlater : ∀ block ∈ blocks, block.Fits := fun b hb =>
        hfits b (mem_cons_of_mem _ hb)
      rw [importBlocks, hnext]
      simp only [hfound.1]
      cases first with
      | none =>
        exact ih hlater hfound.2 hrest hd
      | some packet =>
        obtain ⟨tsNs, data⟩ := packet
        rw [reduceOption_cons_of_some, takenAt, append_cons]
        exact ih hlater hfound.2 hrest (hd.append _)

end Import

end TraceMux.Core.Importer.Pcapng
