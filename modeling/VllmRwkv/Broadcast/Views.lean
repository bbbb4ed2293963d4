import VllmRwkv.Broadcast.Delivery

/-!
# A view of a chunk that is written again

A message in line is loaded from views of its chunk, and the chunk is the writer's again once all readers
have marked it as read. An object that has kept a view, as an array of 1 MiB or more does, then changes
under its reader.
-/

namespace VllmRwkv.Broadcast

open List Option Function

variable {Obj : Type} {cfg : RingConfig} {pk : Pickler Obj} {s s' : System Obj cfg.nReader}

theorem Runs.write (hstep : step cfg pk s .write = some s') : Runs cfg pk NoTimeout s s' := by
  refine Runs.one ?_ hstep
  rintro r ⟨⟩

variable (cfg pk) in
/-- The writer fills its chunk. -/
theorem fills (s : System Obj cfg.nReader) (obj : Obj) (bytes : Buffer) (offset : ℕ) (pending : List (Option UInt8))
    (hfits : offset + bytes.length ≤ cfg.maxChunkBytes) : ∃ data : ℕ → ℕ → UInt8,
    Runs cfg pk NoTimeout { s with writer := .fill obj offset (bytes.map some ++ pending) }
      { s with mem := { s.mem with data := data }, writer := .fill obj (offset + bytes.length) pending } ∧
    (∀ i < offset, data s.currentIdx i = s.mem.data s.currentIdx i) ∧
    ∀ i, ∀ b ∈ bytes[i]?, data s.currentIdx (offset + i) = b := by
  induction bytes generalizing s offset with
  | nil => exact ⟨s.mem.data, .refl, fun _ _ => rfl, nofun⟩
  | cons byte bytes ih =>
    rw [length_cons] at hfits
    obtain ⟨data, hrun, hbefore, hdata⟩ := ih { s with mem := s.mem.setData s.currentIdx offset byte } (offset + 1)
      (by omega)
    have hstep : step cfg pk { s with writer := .fill obj offset ((byte :: bytes).map some ++ pending) } .write =
        some { s with mem := s.mem.setData s.currentIdx offset byte
                      writer := .fill obj (offset + 1) (bytes.map some ++ pending) } :=
      if_pos (by omega)
    rw [show offset + 1 + bytes.length = offset + (byte :: bytes).length by rw [length_cons]; omega] at hrun
    refine ⟨data, (Runs.write hstep).trans hrun, fun i hi => ?_, fun i b hb => ?_⟩
    · exact (hbefore i (by omega)).trans ((data_setData ..).trans (if_neg fun h => hi.ne h.2))
    · cases i with
      | zero =>
        cases hb
        exact (hbefore offset (by omega)).trans ((data_setData ..).trans (if_pos ⟨rfl, rfl⟩))
      | succ i =>
        rw [show offset + (i + 1) = offset + 1 + i by omega]
        exact hdata i b hb

section Arrays

variable {size : ℕ}

/-- An array of bytes, all ones or all zeros. -/
def array (size : ℕ) (b : Bool) : Buffer := replicate (size + 1) (if b then 1 else 0)

/-- The bytes of an array go out of band unless the callback keeps them. -/
def arrayPickler (size : ℕ) : Pickler Bool where
  dumps inBand b := if inBand (array size b) then (array size b, []) else ([], [array size b])
  loads main oob := (oob.headD main).head? = some 1
  loads_dumps inBand b := by
    have hhead : (array size b).head? = some (if b then 1 else 0) := rfl
    cases inBand (array size b)
    · show decide ((array size b).head? = some 1) = b
      rw [hhead]
      cases b <;> rfl
    · show decide ((array size b).head? = some 1) = b
      rw [hhead]
      cases b <;> rfl

/-- One chunk, with room for an array and as much again. -/
def oneChunk (size : ℕ) : RingConfig where
  nReader := 1
  maxChunkBytes := 2 * size
  maxChunks := 1
  maxChunks_pos := by decide

/-- What stands in the chunk before the bytes of an array. -/
def arrayHeader (size : ℕ) : Buffer := [0] ++ bytesBig 2 2 ++ bytesBig 0 4 ++ bytesBig (size + 1) 4

/-- The runs of the ring, with arrays sent through it. -/
abbrev ArrayRuns (size : ℕ) := Runs (oneChunk size) (arrayPickler size) NoTimeout

/-- The writer comes to fill its chunk, if that is free. -/
theorem begins (size : ℕ) (s : System Bool (oneChunk size).nReader) (b : Bool) (hidle : s.writer = .idle)
    (hfree : s.mem.writtenFlag s.currentIdx = false ∨ s.mem.readFlag s.currentIdx ⟨0, Nat.one_pos⟩) :
    ArrayRuns size s { s with
      mem := s.mem.setWritten s.currentIdx false
      writer := .fill b 0 (plan (oneChunk size) (arrayPickler size) b) } := by
  have hcall : step (oneChunk size) (arrayPickler size) s (.enqueue b) = some { s with writer := .sum b 0 0 } := by
    unfold step
    rw [hidle]
  obtain ⟨flags, hflags⟩ : ∃ flags, flags = 0 + (s.mem.readFlag s.currentIdx ⟨0, Nat.one_pos⟩).toNat := ⟨_, rfl⟩
  have hsum : ArrayRuns size { s with writer := .sum b 0 0 } { s with writer := .sum b 1 flags } :=
    .write (hflags ▸ rfl)
  have hdone : ArrayRuns size { s with writer := .sum b 1 flags } { s with writer := .check b flags } := .write rfl
  have hcheck : ArrayRuns size { s with writer := .check b flags } { s with writer := .mark b } := by
    refine .write (if_neg fun h => ?_)
    rcases hfree with hfree | hfree
    · rw [hfree] at h
      cases h.1
    · rw [hflags, hfree] at h
      exact h.2 rfl
  have hcalled : ArrayRuns size s { s with writer := .sum b 0 0 } := Runs.one (by rintro r ⟨⟩) hcall
  exact (((hcalled.trans hsum).trans hdone).trans hcheck).trans (Runs.write rfl)

/-- … and publishes the message that fills it. -/
theorem publishes (s : System Bool (oneChunk size).nReader) (b : Bool) (offset : ℕ)
    (hfits : overflows (oneChunk size) (arrayPickler size) b = false) :
    ArrayRuns size { s with writer := .fill b offset [] } { s with
      mem := (s.mem.setRead s.currentIdx ⟨0, Nat.one_pos⟩ false).setWritten s.currentIdx true
      currentIdx := (s.currentIdx + 1) % (oneChunk size).maxChunks
      log := s.log ++ [b]
      writer := .idle } := by
  obtain ⟨mem, hmem⟩ : ∃ mem, mem = s.mem.setRead s.currentIdx ⟨0, Nat.one_pos⟩ false := ⟨_, rfl⟩
  have hclear : ArrayRuns size { s with writer := .clear b 0 } { s with mem := mem, writer := .clear b 1 } :=
    .write (hmem ▸ rfl)
  have hcleared : ArrayRuns size { s with mem := mem, writer := .clear b 1 } { s with mem := mem, writer := .publish b } :=
    .write rfl
  rw [← hmem]
  refine (((Runs.write rfl).trans hclear).trans hcleared).trans (Runs.write ?_)
  show some { s with
      mem := mem.setWritten s.currentIdx true
      currentIdx := (s.currentIdx + 1) % (oneChunk size).maxChunks
      log := s.log ++ [b]
      writer := if overflows (oneChunk size) (arrayPickler size) b then .send b else .idle } = _
  rw [hfits]
  rfl

variable (hlarge : 1024 * 1024 ≤ size) (hsmall : size + 1 < 256 ^ 4)
include hlarge

theorem dumps_array (b : Bool) : (arrayPickler size).dumps oobCallback b = ([], [array size b]) := by
  have hnot : oobCallback (array size b) = false := by
    unfold oobCallback array
    rw [length_replicate]
    exact decide_eq_false (by omega)
  show (if oobCallback (array size b) then _ else _) = _
  rw [hnot]
  rfl

theorem overflows_array (b : Bool) : overflows (oneChunk size) (arrayPickler size) b = false := by
  unfold overflows
  rw [dumps_array hlarge]
  simp only [totalBytes, array, map_cons, map_nil, length_replicate, sum_cons, sum_nil, length_nil, oneChunk]
  exact decide_eq_false (by omega)

include hsmall

theorem plan_array (b : Bool) :
    plan (oneChunk size) (arrayPickler size) b = (arrayHeader size ++ array size b).map some := by
  unfold plan
  rw [overflows_array hlarge, if_neg (by decide), dumps_array hlarge]
  have hsize : toBytesBig (array size b).length 4 = some (bytesBig (size + 1) 4) := by
    unfold array
    rw [length_replicate]
    exact if_pos hsmall
  simp only [framePlan, frameSlices, flatMap_cons, flatMap_nil, append_nil, cons_append, nil_append, hsize]
  rw [show toBytesBig [[], array size b].length 2 = some (bytesBig 2 2) from rfl,
    show toBytesBig ([] : Buffer).length 4 = some (bytesBig 0 4) from rfl]
  simp only [sliceBytes, arrayHeader, map_append, map_nil, nil_append, append_assoc]

/-- The reader keeps a view of the chunk that it has marked as read, and the next array changes what it sees. -/
theorem array_overwritten : ∃ s, ArrayRuns size {} s ∧
    (s.readers ⟨0, Nat.one_pos⟩).got = [true] ∧ s.log = [true] ∧
    present (oneChunk size) (arrayPickler size) (fun _ => true) s.mem 0 true = false := by
  have hheader : (arrayHeader size).length = 11 := rfl
  have hfits : (arrayHeader size ++ array size true).length ≤ (oneChunk size).maxChunkBytes := by
    rw [length_append, hheader, array, length_replicate]
    show 11 + (size + 1) ≤ 2 * size
    omega
  -- the first array is enqueued
  have hbegin := begins size {} true rfl (.inl rfl)
  rw [plan_array hlarge hsmall, ← append_nil (map some _)] at hbegin
  obtain ⟨data, hfill, -, -⟩ := fills (oneChunk size) (arrayPickler size)
    { mem := Memory.setWritten {} 0 false } true _ 0 [] (by rw [Nat.zero_add]; exact hfits)
  obtain ⟨s₁, hrun₁, hwriter, hidx, hreaders, hlog⟩ : ∃ s₁, ArrayRuns size {} s₁ ∧
      s₁.writer = .idle ∧ s₁.currentIdx = 0 ∧ s₁.readers = (fun _ => {}) ∧ s₁.log = [true] :=
    ⟨_, hbegin.trans (hfill.trans (publishes { mem := { Memory.setWritten {} 0 false with data := data } } true _
      (overflows_array hlarge true))), rfl, Nat.mod_one _, rfl, rfl⟩
  -- the reader gets it
  have hinv := inv_start.run (fun _ _ hquiet => hquiet.noLateSocket) hrun₁
  obtain ⟨found, hread⟩ := hinv.reads (r := ⟨0, Nat.one_pos⟩) (by rw [hreaders]) (by rw [hreaders, hlog]; exact Nat.one_pos)
  have hok := (hinv.own hread).readers ⟨0, Nat.one_pos⟩
  rw [readers_goTo] at hok
  obtain ⟨b, hb, rfl⟩ := hok
  have hb : [true][0]? = some b := by rwa [hreaders, show (s₁.goTo _ _).log = [true] from hlog] at hb
  cases hb
  have hmark := step_release (arrayPickler size) s₁ ⟨0, Nat.one_pos⟩ true
  rw [overflows_array hlarge, if_neg (by decide)] at hmark
  obtain ⟨s₂, hs₂⟩ : ∃ s₂, s₂ = s₁.marked (oneChunk size) ⟨0, Nat.one_pos⟩ .idle [true] := ⟨_, rfl⟩
  have hrun₂ : ArrayRuns size {} s₂ := by
    refine (hrun₁.trans (Relation.ReflTransGen.mono (fun _ _ ⟨a, ha, hstep⟩ => ⟨a, ?_, hstep⟩) _ _ hread)).trans
      (hs₂ ▸ Runs.one (by rintro r ⟨⟩) hmark)
    rintro r rfl
    rcases ha with ha | ha <;> cases ha
  have hidx₂ : s₂.currentIdx = 0 := by rw [hs₂]; exact hidx
  have hflag : s₂.mem.readFlag s₂.currentIdx ⟨0, Nat.one_pos⟩ := by
    rw [hidx₂, hs₂]
    show (s₁.mem.setRead (s₁.readers _).currentIdx _ true).readFlag 0 _ = true
    rw [hreaders]
    exact (readFlag_setRead ..).trans (if_pos ⟨rfl, rfl⟩)
  have hgot : (s₂.readers ⟨0, Nat.one_pos⟩).got = [true] := by
    rw [hs₂, readers_marked, hreaders]
    rfl
  -- the writer fills the chunk again, up to the first byte of the next array
  have hbegin' := begins size s₂ false (by rw [hs₂]; exact hwriter) (.inr hflag)
  rw [plan_array hlarge hsmall, show (arrayHeader size ++ array size false).map some =
    (arrayHeader size ++ [0]).map some ++ (replicate size 0).map some by
      rw [← map_append, append_assoc]; rfl] at hbegin'
  obtain ⟨data', hfill', -, hdata'⟩ := fills (oneChunk size) (arrayPickler size)
    { s₂ with mem := s₂.mem.setWritten s₂.currentIdx false } false (arrayHeader size ++ [0]) 0 ((replicate size 0).map some) (by
      rw [length_append, hheader]
      show 0 + (11 + 1) ≤ 2 * size
      omega)
  refine ⟨_, hrun₂.trans (hbegin'.trans hfill'), hgot, by rw [← hlog, hs₂]; rfl, ?_⟩
  have hfirst : data' 0 11 = 0 := by
    rw [← hidx₂]
    exact hdata' 11 0 rfl
  unfold present
  rw [if_pos ⟨overflows_array hlarge true, rfl⟩, dumps_array hlarge]
  show decide ((map (fun i => data' 0 (11 + i)) (range (array size true).length)).head? = some 1) = false
  rw [array, length_replicate, range_succ_eq_map, map_cons, head?_cons, hfirst]
  rfl

end Arrays

/-- An array of ones, one byte longer than 1 MiB, is dequeued and then reads as zeros. -/
theorem view_overwritten : ∃ s, Runs (oneChunk (1024 * 1024)) (arrayPickler (1024 * 1024)) NoTimeout {} s ∧
    (s.readers ⟨0, Nat.one_pos⟩).got = [true] ∧ s.log = [true] ∧
    present (oneChunk (1024 * 1024)) (arrayPickler (1024 * 1024)) (fun _ => true) s.mem 0 true = false :=
  array_overwritten le_rfl (by norm_num)

end VllmRwkv.Broadcast
