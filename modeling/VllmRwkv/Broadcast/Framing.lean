import Mathlib

/-!
# Messages in a chunk of the broadcast queue

`MessageQueue.enqueue` writes a message into a chunk of shared memory as one flag byte, the number of
buffers and the buffers, each after its length; `dequeue` reads them back. Numbers are big-endian.
-/

namespace VllmRwkv.Broadcast

open Nat

open List hiding count

abbrev Buffer := List UInt8

variable {buffers : List Buffer} {bytes : Buffer}

/-- The lowest `size` bytes of a number, the highest first. -/
def bytesBig (value : ℕ) : ℕ → Buffer
  | 0 => []
  | size + 1 => bytesBig (value / 256) size ++ [UInt8.ofNat (value % 256)]

/-- `to_bytes_big`; `none` is the `OverflowError` of `int.to_bytes`. -/
def toBytesBig (value size : ℕ) : Option Buffer :=
  if value < 256 ^ size then some (bytesBig value size) else none

/-- `from_bytes_big`. -/
def fromBytesBig (bytes : Buffer) : ℕ := bytes.foldl (fun n b => n * 256 + b.toNat) 0

/-- `buf[start:stop]`. -/
def slice (buf : Buffer) (start stop : ℕ) : Buffer := (buf.take stop).drop start

/-- The assignments to slices of the chunk that `enqueue` makes for an in-line message, one after the other;
`none` raises. -/
def frameSlices (buffers : List Buffer) : List (Option Buffer) :=
  some [0] :: toBytesBig buffers.length 2 :: buffers.flatMap fun b => [toBytesBig b.length 4, some b]

/-- An assignment byte by byte. -/
def sliceBytes : Option Buffer → List (Option UInt8)
  | some bytes => bytes.map some
  | none => [none]

/-- What `enqueue` does to the chunk for an in-line message, byte by byte. -/
def framePlan (buffers : List Buffer) : List (Option UInt8) := (frameSlices buffers).flatMap sliceBytes

/-- The loop of `dequeue` over `buf_count` buffers. -/
def readBuffers (buf : Buffer) : ℕ → ℕ → List Buffer
  | 0, _ => []
  | count + 1, offset =>
    let bufOffset := offset + 4
    let stop := bufOffset + fromBytesBig (slice buf offset bufOffset)
    slice buf bufOffset stop :: readBuffers buf count stop

/-- The buffers that `dequeue` finds in a chunk. -/
def unframe (buf : Buffer) : List Buffer := readBuffers buf (fromBytesBig (slice buf 1 3)) 3

/-- `total_bytes + len(all_buffers[0])`, which `enqueue` compares with the size of a chunk. -/
def totalBytes (main : Buffer) (oob : List Buffer) : ℕ := 6 + (oob.map fun b => b.length + 4).sum + main.length

/-! ## Numbers -/

@[simp] theorem length_bytesBig (value size : ℕ) : (bytesBig value size).length = size := by
  induction size generalizing value with
  | zero => rfl
  | succ size ih => rw [bytesBig, length_append, ih, length_singleton]

theorem fromBytesBig_append_singleton (bytes : Buffer) (b : UInt8) :
    fromBytesBig (bytes ++ [b]) = fromBytesBig bytes * 256 + b.toNat := by
  unfold fromBytesBig
  rw [foldl_append]
  rfl

theorem fromBytesBig_bytesBig {value size : ℕ} (h : value < 256 ^ size) : fromBytesBig (bytesBig value size) = value := by
  induction size generalizing value with
  | zero =>
    rw [pow_zero] at h
    have hzero : value = 0 := by omega
    subst hzero
    rfl
  | succ size ih =>
    have hlt : value / 256 < 256 ^ size := by
      rw [div_lt_iff_lt_mul (by decide), ← pow_succ]
      exact h
    have hbyte : (UInt8.ofNat (value % 256)).toNat = value % 256 := by
      rw [UInt8.toNat_ofNat']
      exact mod_mod_of_dvd _ (dvd_refl 256)
    rw [bytesBig, fromBytesBig_append_singleton, ih hlt, hbyte]
    omega

theorem toBytesBig_eq_some {value size : ℕ} (h : toBytesBig value size = some bytes) :
    bytes.length = size ∧ fromBytesBig bytes = value := by
  unfold toBytesBig at h
  split at h
  next hlt =>
    cases h
    exact ⟨length_bytesBig value size, fromBytesBig_bytesBig hlt⟩
  · cases h

/-! ## Reading back what was written -/

theorem slice_append {l₁ l₂ l₃ : Buffer} {start stop : ℕ} (hstart : l₁.length = start)
    (hstop : start + l₂.length = stop) : slice (l₁ ++ l₂ ++ l₃) start stop = l₂ := by
  unfold slice
  have hlen : (l₁ ++ l₂).length = stop := by
    rw [length_append]
    omega
  rw [take_append_of_le_length (by omega), ← hlen, take_length, ← hstart, drop_left]

/-- The bytes of the buffers with their lengths. -/
def body : List Buffer → Buffer
  | [] => []
  | b :: buffers => bytesBig b.length 4 ++ b ++ body buffers

theorem readBuffers_body (hlen : ∀ b ∈ buffers, b.length < 256 ^ 4) (front rest : Buffer) :
    readBuffers (front ++ body buffers ++ rest) buffers.length front.length = buffers := by
  induction buffers generalizing front with
  | nil => rfl
  | cons b buffers ih =>
    have hb := hlen b mem_cons_self
    have hsplit : front ++ body (b :: buffers) ++ rest =
        front ++ bytesBig b.length 4 ++ (b ++ body buffers ++ rest) := by
      simp only [body, append_assoc]
    have hsplit' : front ++ body (b :: buffers) ++ rest =
        (front ++ bytesBig b.length 4) ++ b ++ (body buffers ++ rest) := by
      simp only [body, append_assoc]
    have hnext : front ++ body (b :: buffers) ++ rest =
        (front ++ bytesBig b.length 4 ++ b) ++ body buffers ++ rest := by
      simp only [body, append_assoc]
    have hnumber : fromBytesBig (slice (front ++ body (b :: buffers) ++ rest) front.length (front.length + 4)) =
        b.length := by
      rw [hsplit, slice_append rfl (by rw [length_bytesBig])]
      exact fromBytesBig_bytesBig hb
    have hcontent : slice (front ++ body (b :: buffers) ++ rest) (front.length + 4) (front.length + 4 + b.length) =
        b := by
      rw [hsplit']
      exact slice_append (by rw [length_append, length_bytesBig]) rfl
    have hstop : front.length + 4 + b.length = (front ++ bytesBig b.length 4 ++ b).length := by
      rw [length_append, length_append, length_bytesBig]
    rw [length_cons, readBuffers, hnumber, hcontent, hnext, hstop, ih fun b' hb' => hlen b' (mem_cons_of_mem _ hb')]

theorem framePlan_eq_some (h : framePlan buffers = bytes.map some) :
    bytes = 0 :: bytesBig buffers.length 2 ++ body buffers ∧ buffers.length < 256 ^ 2 ∧
      ∀ b ∈ buffers, b.length < 256 ^ 4 := by
  have hnone : none ∉ framePlan buffers := by
    rw [h]
    simp
  have hslice : ∀ x ∈ frameSlices buffers, x ≠ none := by
    intro x hx hx'
    refine hnone (mem_flatMap.2 ⟨x, hx, ?_⟩)
    rw [hx']
    exact mem_singleton.2 rfl
  have hcount : buffers.length < 256 ^ 2 := by
    by_contra hge
    exact hslice _ (mem_cons_of_mem _ mem_cons_self) (if_neg hge)
  have hlen : ∀ b ∈ buffers, b.length < 256 ^ 4 := by
    intro b hb
    by_contra hge
    refine hslice (toBytesBig b.length 4) ?_ (if_neg hge)
    exact mem_cons_of_mem _ (mem_cons_of_mem _ (mem_flatMap.2 ⟨b, hb, mem_cons_self⟩))
  refine ⟨?_, hcount, hlen⟩
  -- the plan is the bytes of its slices
  have hbody : (buffers.flatMap fun b => [toBytesBig b.length 4, some b]).flatMap sliceBytes =
      (body buffers).map some := by
    clear h hnone hslice hcount
    induction buffers with
    | nil => rfl
    | cons b buffers ih =>
      have hb : toBytesBig b.length 4 = some (bytesBig b.length 4) := if_pos (hlen b mem_cons_self)
      rw [flatMap_cons, flatMap_append, ih fun b' hb' => hlen b' (mem_cons_of_mem _ hb'), hb]
      simp [body, sliceBytes]
  have hplan : framePlan buffers = (0 :: bytesBig buffers.length 2 ++ body buffers).map some := by
    have hnum : toBytesBig buffers.length 2 = some (bytesBig buffers.length 2) := if_pos hcount
    unfold framePlan frameSlices
    rw [flatMap_cons, flatMap_cons, hbody, hnum]
    simp [sliceBytes]
  exact map_injective_iff.2 (Option.some_injective _) (h.symm.trans hplan)

/-- **A message is read back as it was written**, whatever follows it in the chunk. -/
theorem unframe_of_framePlan (h : framePlan buffers = bytes.map some)
    (rest : Buffer) : unframe (bytes ++ rest) = buffers := by
  obtain ⟨rfl, hcount, hlen⟩ := framePlan_eq_some h
  have hsplit : 0 :: bytesBig buffers.length 2 ++ body buffers ++ rest =
      [0] ++ bytesBig buffers.length 2 ++ (body buffers ++ rest) := by simp
  have hfront : 0 :: bytesBig buffers.length 2 ++ body buffers ++ rest =
      ([0] ++ bytesBig buffers.length 2) ++ body buffers ++ rest := by simp
  unfold unframe
  have hnumber : fromBytesBig (slice (0 :: bytesBig buffers.length 2 ++ body buffers ++ rest) 1 3) =
      buffers.length := by
    have hslice : slice ([0] ++ bytesBig buffers.length 2 ++ (body buffers ++ rest)) 1 3 = bytesBig buffers.length 2 :=
      slice_append rfl (by rw [length_bytesBig])
    rw [hsplit, hslice]
    exact fromBytesBig_bytesBig hcount
  rw [hnumber, hfront]
  have hthree : 3 = ([0] ++ bytesBig buffers.length 2).length := by simp
  rw [hthree]
  exact readBuffers_body hlen _ _

/-! ## The size of a message -/

theorem length_sliceBytes_toBytesBig (value : ℕ) (size : ℕ) (hpos : 1 ≤ size) :
    (sliceBytes (toBytesBig value size)).length ≤ size := by
  cases h : toBytesBig value size with
  | none => exact hpos
  | some bytes =>
    rw [sliceBytes, length_map]
    exact (toBytesBig_eq_some h).1.le

theorem length_bodySlices_le (buffers : List Buffer) :
    ((buffers.flatMap fun b => [toBytesBig b.length 4, some b]).flatMap sliceBytes).length ≤
      (buffers.map fun b => b.length + 4).sum := by
  induction buffers with
  | nil => exact le_refl _
  | cons b buffers ih =>
    have hnumber := length_sliceBytes_toBytesBig b.length 4 (by decide)
    have hbytes : (sliceBytes (some b)).length = b.length := length_map _
    rw [flatMap_cons, flatMap_append, length_append, map_cons, sum_cons]
    refine Nat.add_le_add ?_ ih
    rw [flatMap_cons, flatMap_cons, flatMap_nil, length_append, append_nil, hbytes]
    omega

/-- The flag and the number of buffers take three bytes, `total_bytes` counts two of them. -/
theorem length_framePlan_le (main : Buffer) (oob : List Buffer) :
    (framePlan (main :: oob)).length ≤ totalBytes main oob + 1 := by
  have hcount := length_sliceBytes_toBytesBig (main :: oob).length 2 (by decide)
  have hbody := length_bodySlices_le (main :: oob)
  have hflag : (sliceBytes (some [0])).length = 1 := rfl
  unfold framePlan frameSlices totalBytes
  rw [flatMap_cons, flatMap_cons, length_append, length_append]
  rw [map_cons, sum_cons] at hbody
  omega

end VllmRwkv.Broadcast
