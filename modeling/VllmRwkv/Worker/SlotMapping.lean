import Mathlib

/-!
# Slot mappings under context parallelism

`_compute_slot_mappings_kernel`: where a rank writes the KV of a token. A block of the block table
stands for a *virtual* block of `kv_block_size * CP_SIZE` positions, dealt to the ranks in turns of
`CP_INTERLEAVE`. `globalPosition` reads a position back from its block, rank and offset, and the rest
follows: the positions of a virtual block are the offsets of the block, once for every rank.

The first slot of a block is a 32-bit product, so the slots of two blocks are apart only if they are
below `2 ^ 31`. The other numbers are 64-bit, or sizes that fit.
-/

namespace VllmRwkv

open Nat

/-- `PAD_SLOT_ID`. -/
def padSlotId : ℤ := -1

/-- What the kernel loads for one KV cache group, and its compile-time constants. -/
structure SlotGroup where
  kvBlockSize : ℕ
  cpSize : ℕ
  cpInterleave : ℕ
  mappingEnabled : Bool
  /-- `dcp_sharded`, read only when `CP_SIZE != 1` -/
  sharded : Bool

namespace SlotGroup

variable (g : SlotGroup)

def virtualBlockSize : ℕ := g.kvBlockSize * g.cpSize

def isLocal (cpRank position : ℕ) : Bool :=
  if g.cpSize = 1 then true
  else !g.sharded || position % g.virtualBlockSize / g.cpInterleave % g.cpSize == cpRank

def localOffset (position : ℕ) : ℕ :=
  let virtualBlockOffset := position % g.virtualBlockSize
  let rounds := virtualBlockOffset / (g.cpInterleave * g.cpSize)
  let remainder := virtualBlockOffset % g.cpInterleave
  rounds * g.cpInterleave + remainder

def localPosition (position : ℕ) : ℕ :=
  if g.cpSize = 1 then position
  else if g.sharded then position / g.virtualBlockSize * g.kvBlockSize + g.localOffset position
  else position

/-- The slot of one token; `blocks` is the row of the request in the block table, and a dummy request
has none. -/
def slotId (cpRank : ℕ) (blocks : Option (List ℕ)) (position : ℕ) : ℤ :=
  match blocks with
  | none => padSlotId
  | some blocks =>
    if g.mappingEnabled && g.isLocal cpRank position then
      let localPosition := g.localPosition position
      -- a row is zero behind the blocks of its request
      let blockNumber := blocks.getD (localPosition / g.kvBlockSize) 0
      -- an int32 product; the offset is an int64
      (↑(blockNumber * g.kvBlockSize) : ℤ).bmod (2 ^ 32) + ↑(localPosition % g.kvBlockSize)
    else padSlotId

/-- The row of the group in `slot_mappings`, from the row and the positions of each request. -/
def computeSlotMappings (cpRank maxNumTokens : ℕ) (reqs : List (Option (List ℕ) × List ℕ)) : List ℤ :=
  let slots := reqs.flatMap fun r => r.2.map (g.slotId cpRank r.1)
  slots ++ List.replicate (maxNumTokens - slots.length) padSlotId

/-! ## Positions and offsets -/

theorem div_mod_of_lt {q r c : ℕ} (h : r < c) : (q * c + r) / c = q ∧ (q * c + r) % c = r :=
  (Nat.div_mod_unique (by omega)).2 ⟨by rw [Nat.mul_comm, Nat.add_comm], h⟩

/-- The position of an offset of block `i` on a rank. -/
def globalPosition (cpRank i offset : ℕ) : ℕ :=
  i * g.virtualBlockSize + ((offset / g.cpInterleave * g.cpSize + cpRank) * g.cpInterleave + offset % g.cpInterleave)

/-- A group whose blocks are dealt to the ranks, in turns that fit a block. -/
structure Dealt : Prop where
  size_pos : 0 < g.kvBlockSize
  cp_pos : 0 < g.cpSize
  dvd : g.cpInterleave ∣ g.kvBlockSize
  enabled : g.mappingEnabled
  sharded : g.cpSize = 1 ∨ g.sharded

namespace Dealt

variable {g} {cpRank i offset position : ℕ} {blocks : List ℕ} (h : g.Dealt)
  (hfits : ∀ b ∈ blocks, b * g.kvBlockSize < 2 ^ 31)
include h

theorem interleave_pos : 0 < g.cpInterleave := pos_of_dvd_of_pos h.dvd h.size_pos

theorem isLocal_iff (hrank : cpRank < g.cpSize) :
    g.isLocal cpRank position ↔ position % g.virtualBlockSize / g.cpInterleave % g.cpSize = cpRank := by
  unfold isLocal
  split_ifs with hone
  · rw [hone] at hrank ⊢
    simp only [mod_one, true_iff]
    omega
  · simp [h.sharded.resolve_left hone]

theorem localPosition_eq :
    g.localPosition position = position / g.virtualBlockSize * g.kvBlockSize + g.localOffset position := by
  unfold localPosition
  split
  next hone =>
    -- one rank: the offset in the virtual block is the one in the block
    simp only [localOffset, virtualBlockSize, hone, mul_one, div_add_mod']
  next hone => rw [if_pos (h.sharded.resolve_left hone)]

theorem localOffset_lt (position : ℕ) : g.localOffset position < g.kvBlockSize := by
  obtain ⟨q, hq⟩ := h.dvd
  have hvirtual : position % g.virtualBlockSize < q * (g.cpInterleave * g.cpSize) := by
    rw [← mul_assoc, mul_comm q, ← hq]
    exact mod_lt _ (mul_pos h.size_pos h.cp_pos)
  have hrounds := (div_lt_iff_lt_mul (mul_pos h.interleave_pos h.cp_pos)).2 hvirtual
  have hrem := mod_lt (position % g.virtualBlockSize) h.interleave_pos
  calc g.localOffset position
      < position % g.virtualBlockSize / (g.cpInterleave * g.cpSize) * g.cpInterleave + g.cpInterleave :=
        Nat.add_lt_add_left hrem _
    _ = (position % g.virtualBlockSize / (g.cpInterleave * g.cpSize) + 1) * g.cpInterleave := by
        rw [add_mul, one_mul]
    _ ≤ q * g.cpInterleave := mul_le_mul_right _ hrounds
    _ = g.kvBlockSize := by rw [hq, mul_comm]

/-- A local position is read back from its virtual block and its offset. -/
theorem globalPosition_localOffset (hrank : cpRank < g.cpSize) (hlocal : g.isLocal cpRank position) :
    g.globalPosition cpRank (position / g.virtualBlockSize) (g.localOffset position) = position := by
  have hturn := (h.isLocal_iff hrank).1 hlocal
  unfold globalPosition localOffset
  generalize ho : position % g.virtualBlockSize = o at hturn
  obtain ⟨hdiv, hmod⟩ := div_mod_of_lt (mod_lt o h.interleave_pos)
  rw [hdiv, hmod, ← hturn, ← Nat.div_div_eq_div_mul, Nat.div_add_mod', Nat.div_add_mod', ← ho, Nat.div_add_mod']

/-- The position of an offset is in its virtual block, local to its rank, and has the offset. -/
theorem globalPosition_spec (hrank : cpRank < g.cpSize) (hoffset : offset < g.kvBlockSize) :
    g.globalPosition cpRank i offset / g.virtualBlockSize = i ∧ g.isLocal cpRank (g.globalPosition cpRank i offset) ∧
      g.localOffset (g.globalPosition cpRank i offset) = offset := by
  have hpos := h.interleave_pos
  obtain ⟨q, hq⟩ := h.dvd
  have hround : offset / g.cpInterleave * g.cpSize + cpRank < q * g.cpSize := by
    have hlt : offset / g.cpInterleave < q := by
      rw [div_lt_iff_lt_mul hpos, mul_comm, ← hq]
      exact hoffset
    calc offset / g.cpInterleave * g.cpSize + cpRank < (offset / g.cpInterleave + 1) * g.cpSize := by
          rw [add_mul, one_mul]
          exact Nat.add_lt_add_left hrank _
      _ ≤ q * g.cpSize := mul_le_mul_right _ hlt
  have hrem := mod_lt offset hpos
  generalize ho : (offset / g.cpInterleave * g.cpSize + cpRank) * g.cpInterleave + offset % g.cpInterleave = o
  have hlt : o < g.virtualBlockSize := by
    calc o < (offset / g.cpInterleave * g.cpSize + cpRank + 1) * g.cpInterleave := by
          rw [← ho, add_mul _ 1, one_mul]
          exact Nat.add_lt_add_left hrem _
      _ ≤ q * g.cpSize * g.cpInterleave := mul_le_mul_right _ hround
      _ = g.virtualBlockSize := by
          unfold virtualBlockSize
          rw [hq]
          ring
  obtain ⟨hturn, hrest⟩ := div_mod_of_lt hrem
  rw [ho] at hturn hrest
  obtain ⟨hdiv, hmod⟩ := div_mod_of_lt hlt
  obtain ⟨hround, hrank'⟩ := div_mod_of_lt hrank
  have heq : g.globalPosition cpRank i offset = i * g.virtualBlockSize + o := by rw [← ho]; rfl
  rw [heq, h.isLocal_iff hrank, hmod, hturn, hrank']
  refine ⟨hdiv, rfl, ?_⟩
  unfold localOffset
  dsimp only
  rw [hmod, ← Nat.div_div_eq_div_mul, hturn, hround, hrest, Nat.div_add_mod']

include hfits in
/-- The slot of a local position: its offset in the block of its virtual block. -/
theorem slotId_eq (hlocal : g.isLocal cpRank position) (hi : position / g.virtualBlockSize < blocks.length) :
    g.slotId cpRank (some blocks) position =
      ↑(blocks[position / g.virtualBlockSize] * g.kvBlockSize + g.localOffset position) := by
  obtain ⟨hdiv, hmod⟩ := div_mod_of_lt (h.localOffset_lt position)
  rw [← h.localPosition_eq] at hdiv hmod
  simp only [slotId, h.enabled, hlocal, Bool.and_self, if_true, hdiv, hmod]
  have hfit := hfits _ (List.getElem_mem hi)
  rw [List.getD_eq_getElem?_getD, List.getElem?_eq_getElem hi, Option.getD_some, Int.bmod_eq_of_le (by omega) (by omega),
    Nat.cast_add]

end Dealt

/-- Blocks of four positions in turns of two, on two ranks. -/
def pairOfRanks : SlotGroup := ⟨4, 2, 2, true, true⟩

theorem pairOfRanks_dealt : pairOfRanks.Dealt := ⟨by decide, by decide, ⟨2, rfl⟩, rfl, .inr rfl⟩

example : pairOfRanks.computeSlotMappings 0 6 [(some [7, 3], [5, 6, 8, 9])] = [31, -1, 12, 13, -1, -1] := by
  decide

/-- Blocks of 16 positions on one rank. -/
def wholeBlocks : SlotGroup := ⟨16, 1, 1, true, true⟩

end SlotGroup

end VllmRwkv
