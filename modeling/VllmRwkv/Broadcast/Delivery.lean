import VllmRwkv.Broadcast.Fifo

/-!
# What the readers of the broadcast queue get

Without timeouts every reader gets the enqueued objects in their order, and a reader whose next message is
there gets it by its own steps. A `dequeue` that times out while it waits for a chunk consumes nothing. One
that times out while it waits for the socket has already marked the chunk as read and gone on to the next
one: the object is lost for it, and the socket is one message behind the ring from then on.
-/

namespace VllmRwkv.Broadcast

open List Option Function

variable {Obj : Type} {cfg : RingConfig} {pk : Pickler Obj} {s s' : System Obj cfg.nReader} {r : Fin cfg.nReader}
  {a : Action Obj cfg.nReader}

/-- Nobody's time is up. -/
def NoTimeout (_ : System Obj cfg.nReader) (a : Action Obj cfg.nReader) : Prop := ∀ r, a ≠ .timeout r

/-- Nobody's time is up while it waits for the socket part of an overflow message. -/
def NoLateSocket (s : System Obj cfg.nReader) (a : Action Obj cfg.nReader) : Prop :=
  ∀ r, a = .timeout r → (s.readers r).pc ≠ .recv

/-- The steps of one reader. -/
def Own (r : Fin cfg.nReader) (_ : System Obj cfg.nReader) (a : Action Obj cfg.nReader) : Prop :=
  a = .dequeue r ∨ a = .read r

theorem NoTimeout.noLateSocket (h : NoTimeout s a) : NoLateSocket s a := fun r hr => absurd hr (h r)

theorem Own.noLateSocket (h : Own r s a) : NoLateSocket s a := by
  rintro r' rfl
  rcases h with h | h <;> cases h

theorem Inv.own (h : Inv cfg pk s) (hrun : Runs cfg pk (Own r) s s') : Inv cfg pk s' :=
  h.run (fun _ _ hown => hown.noLateSocket) hrun

theorem Inv.got_initial (h : Inv cfg pk s) (r : Fin cfg.nReader) : (s.readers r).got <+: s.log := by
  rw [(h.delivered r).got]
  exact take_prefix _ _

theorem Inv.length_got (h : Inv cfg pk s) (r : Fin cfg.nReader) :
    (s.readers r).got.length = (s.readers r).returned := by
  rw [(h.delivered r).got, length_take]
  exact Nat.min_eq_left ((returned_le _).trans (h.ring.behind r))

/-! ## The next message arrives -/

variable {P : System Obj cfg.nReader → Action Obj cfg.nReader → Prop}

theorem Runs.one (ha : P s a) (hstep : step cfg pk s a = some s') : Runs cfg pk P s s' :=
  Relation.ReflTransGen.single ⟨a, ha, hstep⟩

section

variable {n : ℕ} (s : System Obj n) (r : Fin n) (pc : ReaderPc Obj)

/-- The reader goes to another point of its program. -/
def System.goTo : System Obj n :=
  s.setReader r { s.readers r with pc := pc }

@[simp] theorem readers_goTo : (s.goTo r pc).readers r = { s.readers r with pc := pc } := by
  unfold System.goTo
  rw [readers_setReader, if_pos rfl]

@[simp] theorem setReader_goTo (me : Reader Obj) : (s.goTo r pc).setReader r me = s.setReader r me := by
  unfold System.goTo System.setReader
  rw [update_idem]

end

theorem reads_chunk (pk : Pickler Obj) (k : ℕ) (s : System Obj cfg.nReader) (r : Fin cfg.nReader) (bytes : Buffer)
    (hlen : bytes.length + k = cfg.maxChunkBytes) :
    ∃ found, Runs cfg pk (Own r) (s.goTo r (.read bytes)) (s.goTo r (.release found)) := by
  induction k generalizing bytes with
  | zero =>
    have hstep : step cfg pk (s.goTo r (.read bytes)) (.read r) = some (s.goTo r (.release (decode pk bytes))) := by
      show readStep cfg pk (s.goTo r (.read bytes)) r = _
      unfold readStep
      simp only [readers_goTo, setReader_goTo]
      rw [if_neg (by omega)]
      rfl
    exact ⟨_, Runs.one (.inr rfl) hstep⟩
  | succ k ih =>
    have hstep : step cfg pk (s.goTo r (.read bytes)) (.read r) =
        some (s.goTo r (.read (bytes ++ [s.mem.data (s.readers r).currentIdx bytes.length]))) := by
      show readStep cfg pk (s.goTo r (.read bytes)) r = _
      unfold readStep
      simp only [readers_goTo, setReader_goTo]
      rw [if_pos (by omega)]
      rfl
    obtain ⟨found, hrun⟩ := ih (bytes ++ [s.mem.data (s.readers r).currentIdx bytes.length])
      (by rw [length_append, length_singleton]; omega)
    exact ⟨found, (Runs.one (.inr rfl) hstep).trans hrun⟩

/-- A reader that is called when its next message is published reads it. -/
theorem Inv.reads (h : Inv cfg pk s) (hidle : (s.readers r).pc = .idle) (hlt : (s.readers r).taken < s.log.length) :
    ∃ found, Runs cfg pk (Own r) s (s.goTo r (.release found)) := by
  have hocc := h.ring.occupied hlt
  have hread : s.mem.readFlag (s.readers r).currentIdx r = false := by
    rw [h.readIdx r]
    exact (hocc.flags r).trans (decide_eq_false (lt_irrefl _))
  have hwritten : s.mem.writtenFlag (s.readers r).currentIdx := by
    rw [h.readIdx r]
    exact hocc.written
  have hcall : Broadcast.step cfg pk s (.dequeue r) = some (s.goTo r .readFlag) := by
    unfold Broadcast.step
    simp only [hidle]
    rfl
  have hown : Broadcast.step cfg pk (s.goTo r .readFlag) (.read r) = some (s.goTo r (.writtenFlag false)) := by
    show Broadcast.readStep cfg pk (s.goTo r .readFlag) r = _
    unfold Broadcast.readStep
    simp only [readers_goTo, setReader_goTo]
    rw [← hread]
    rfl
  have hready : Broadcast.step cfg pk (s.goTo r (.writtenFlag false)) (.read r) = some (s.goTo r (.read [])) := by
    show Broadcast.readStep cfg pk (s.goTo r (.writtenFlag false)) r = _
    unfold Broadcast.readStep
    simp only [readers_goTo, setReader_goTo]
    have hnot : ¬ (s.mem.writtenFlag (s.readers r).currentIdx = false ∨ false) := by
      rw [hwritten]
      decide
    exact if_neg hnot
  obtain ⟨found, hrun⟩ := reads_chunk pk cfg.maxChunkBytes s r [] (zero_add _)
  refine ⟨found, Relation.ReflTransGen.trans ?_ hrun⟩
  exact ((Runs.one (.inl rfl) hcall).trans (Runs.one (.inr rfl) hown)).trans (Runs.one (.inr rfl) hready)

/-- An overflow message that has been sent waits in the socket. -/
theorem Inv.socket_ne_nil (h : Inv cfg pk s) (hpc : (s.readers r).pc = .recv)
    (hsent : (s.readers r).returned < (Broadcast.sent s.log s.writer).length) : s.sockets r ≠ [] := by
  set out := Broadcast.sent s.log s.writer
  intro hnil
  have hok := h.readers r
  unfold ReaderOk at hok
  rw [hpc] at hok
  obtain ⟨k, obj, hk, hobj, hover⟩ := hok
  have hreturned : (s.readers r).returned = k := by
    unfold Reader.returned
    rw [hpc, hk]
    rfl
  have hqueue := (h.delivered r).socket
  rw [hreturned] at hqueue hsent
  rw [hnil, append_nil] at hqueue
  obtain ⟨rest, hrest⟩ := sent_initial s.log s.writer
  -- the object is among those sent, after all that the reader has returned
  have htake : s.log.take k = out.take k := by
    conv_lhs => rw [← hrest]
    exact take_append_of_le_length hsent.le
  have hmem : out[k] = obj := by
    have hsame : s.log[k]? = out[k]? := by
      conv_lhs => rw [← hrest]
      exact getElem?_append_left hsent
    rw [hsame, getElem?_eq_getElem hsent] at hobj
    exact some.inj hobj
  have hsplit : overflowed cfg pk out =
      overflowed cfg pk (out.take k) ++
        pk.dumps oobCallback obj :: overflowed cfg pk (out.drop (k + 1)) := by
    conv_lhs => rw [← take_append_drop k out, overflowed_append,
      drop_eq_getElem_cons hsent, hmem]
    unfold overflowed
    rw [filter_cons_of_pos hover]
    rfl
  rw [htake, hsplit] at hqueue
  exact absurd (self_eq_append_right.1 hqueue) (cons_ne_nil _ _)

/-- The state after a reader has marked its chunk as read. -/
def System.marked (cfg : RingConfig) (s : System Obj cfg.nReader) (r : Fin cfg.nReader) (pc : ReaderPc Obj)
    (returned : List Obj) : System Obj cfg.nReader :=
  { s with mem := s.mem.setRead (s.readers r).currentIdx r true }.setReader r
    { pc, currentIdx := ((s.readers r).currentIdx + 1) % cfg.maxChunks, got := (s.readers r).got ++ returned,
      taken := (s.readers r).taken + 1 }

theorem readers_marked (s : System Obj cfg.nReader) (r : Fin cfg.nReader) (pc : ReaderPc Obj) (returned : List Obj) :
    (s.marked cfg r pc returned).readers r =
      { pc, currentIdx := ((s.readers r).currentIdx + 1) % cfg.maxChunks, got := (s.readers r).got ++ returned,
        taken := (s.readers r).taken + 1 } := by
  unfold System.marked
  rw [readers_setReader, if_pos rfl]

/-- A reader marks the chunk and returns the object, or goes on to the socket. -/
theorem step_release (pk : Pickler Obj) (s : System Obj cfg.nReader) (r : Fin cfg.nReader) (obj : Obj) :
    step cfg pk (s.goTo r (.release (some (message cfg pk obj)))) (.read r) =
      some (if overflows cfg pk obj then s.marked cfg r .recv [] else s.marked cfg r .idle [obj]) := by
  have hset (me : Reader Obj) (mem : Memory cfg.nReader) (pc : ReaderPc Obj) :
      ({ s.goTo r pc with mem := mem } : System Obj cfg.nReader).setReader r me =
        { s with mem := mem }.setReader r me := by
    unfold System.goTo System.setReader
    rw [update_idem]
  show readStep cfg pk (s.goTo r (.release (some (message cfg pk obj)))) r = _
  unfold readStep message
  by_cases hover : overflows cfg pk obj
  · simp only [readers_goTo, hover, if_true, hset]
    unfold System.marked
    rw [append_nil]
    rfl
  · simp only [readers_goTo, hover, hset]
    rfl

/-- A reader that is called when its next message has been enqueued returns it by its own steps. -/
theorem Inv.dequeues (h : Inv cfg pk s) (hidle : (s.readers r).pc = .idle)
    (hsent : (s.readers r).got.length < (Broadcast.sent s.log s.writer).length) :
    ∃ s', Runs cfg pk (Own r) s s' ∧ (s'.readers r).pc = .idle ∧ s'.log = s.log ∧
      (s'.readers r).got = s.log.take ((s.readers r).got.length + 1) := by
  have hreturned : (s.readers r).got.length = (s.readers r).taken := by
    rw [h.length_got r]
    unfold Reader.returned
    rw [hidle]
  rw [hreturned] at hsent ⊢
  have hlt : (s.readers r).taken < s.log.length := hsent.trans_le (sent_initial s.log s.writer).length_le
  obtain ⟨found, hrun⟩ := h.reads hidle hlt
  have hok := (h.own hrun).readers r
  rw [readers_goTo] at hok
  obtain ⟨obj, hobj, rfl⟩ := hok
  -- whatever the way, what is returned is the next object, since the invariant holds at the end
  have hend {s' : System Obj cfg.nReader} (hrun' : Runs cfg pk (Own r) s s') (hidle' : (s'.readers r).pc = .idle)
      (hlog : s'.log = s.log) (htaken : (s'.readers r).taken = (s.readers r).taken + 1) :
      ∃ s', Runs cfg pk (Own r) s s' ∧ (s'.readers r).pc = .idle ∧ s'.log = s.log ∧
        (s'.readers r).got = s.log.take ((s.readers r).taken + 1) := by
    refine ⟨s', hrun', hidle', hlog, ?_⟩
    rw [((h.own hrun').delivered r).got, hlog, ← htaken]
    unfold Reader.returned
    rw [hidle']
  have hmark := step_release pk s r obj
  by_cases hover : overflows cfg pk obj
  · rw [if_pos hover] at hmark
    have hrun' := hrun.trans (Runs.one (.inr rfl) hmark)
    have hpc : ((s.marked cfg r .recv []).readers r).pc = .recv := by rw [readers_marked]
    have hthere : (s.marked cfg r .recv []).sockets r ≠ [] := by
      refine (h.own hrun').socket_ne_nil hpc ?_
      rw [readers_marked]
      exact hsent
    obtain ⟨⟨main, oob⟩, rest, hsocket⟩ := exists_cons_of_ne_nil hthere
    have hrecv : Broadcast.step cfg pk (s.marked cfg r .recv []) (.read r) = some ({ s.marked cfg r .recv [] with
            sockets := update (s.marked cfg r .recv []).sockets r rest }.setReader r
          { (s.marked cfg r .recv []).readers r with
            pc := .idle, got := ((s.marked cfg r .recv []).readers r).got ++ [pk.loads main oob] }) := by
      show Broadcast.readStep cfg pk (s.marked cfg r .recv []) r = _
      unfold Broadcast.readStep
      simp only [hpc, hsocket]
    refine hend (hrun'.trans (Runs.one (.inr rfl) hrecv)) ?_ rfl ?_
    · rw [readers_setReader, if_pos rfl]
    · rw [readers_setReader, if_pos rfl, readers_marked]
  · rw [if_neg hover] at hmark
    refine hend (hrun.trans (Runs.one (.inr rfl) hmark)) ?_ rfl ?_
    · rw [readers_marked]
    · rw [readers_marked]

/-! ## The writer leaves unread chunks alone -/

/-- The writer changes the next chunk only, and that only after everybody has read what was in it. -/
theorem Inv.writeStep_chunk (h : Inv cfg pk s) (hstep : Broadcast.writeStep cfg pk s = some s') {k : ℕ}
    (hk : k < s.log.length) (hunread : (s.readers r).taken ≤ k) :
    s'.mem.data (k % cfg.maxChunks) = s.mem.data (k % cfg.maxChunks) ∧
      s'.mem.writtenFlag (k % cfg.maxChunks) = s.mem.writtenFlag (k % cfg.maxChunks) ∧
      s'.mem.readFlag (k % cfg.maxChunks) = s.mem.readFlag (k % cfg.maxChunks) := by
  -- the next chunk has been read, so it is not the chunk of an unread message
  have hother (hfree : ∀ r, s.log.length < s.taken r + cfg.maxChunks) : k % cfg.maxChunks ≠ s.currentIdx := by
    have := hfree r
    have htaken : s.taken r ≤ k := hunread
    rw [h.writeIdx]
    exact mod_ne hk (by omega)
  have hok := h.writer
  unfold Broadcast.writeStep at hstep
  split at hstep
  · cases hstep
  · split at hstep <;> cases hstep <;> exact ⟨rfl, rfl, rfl⟩
  · split at hstep <;> cases hstep <;> exact ⟨rfl, rfl, rfl⟩
  next hwriter =>
    rw [hwriter] at hok
    cases hstep
    refine ⟨rfl, ?_, rfl⟩
    rw [writtenFlag_setWritten, if_neg (hother hok)]
  next hwriter =>
    rw [hwriter] at hok
    split at hstep
    · cases hstep
      refine ⟨?_, rfl, rfl⟩
      funext o
      rw [data_setData, if_neg fun hboth => hother (h.free hok.1) hboth.1]
    · cases hstep
      exact ⟨rfl, rfl, rfl⟩
  · cases hstep
    exact ⟨rfl, rfl, rfl⟩
  · cases hstep
    exact ⟨rfl, rfl, rfl⟩
  next hwriter =>
    rw [hwriter] at hok
    split at hstep
    · cases hstep
      refine ⟨rfl, rfl, ?_⟩
      funext r'
      rw [readFlag_setRead, if_neg fun hboth => hother (h.free hok.1) hboth.1]
    · cases hstep
      exact ⟨rfl, rfl, rfl⟩
  next hwriter =>
    rw [hwriter] at hok
    cases hstep
    refine ⟨rfl, ?_, rfl⟩
    rw [writtenFlag_setWritten, if_neg (hother (h.free hok.1))]
  · cases hstep
    exact ⟨rfl, rfl, rfl⟩

/-! ## Schedules -/

def ReaderPc.isIdle : ReaderPc Obj → Bool
  | .idle => true
  | _ => false

def ReaderPc.isRecv : ReaderPc Obj → Bool
  | .recv => true
  | _ => false

theorem ReaderPc.isIdle_iff {pc : ReaderPc Obj} : pc.isIdle ↔ pc = .idle := by
  cases pc <;> simp [ReaderPc.isIdle]

/-- The system after a schedule; `none` if a step is not possible. -/
def exec (cfg : RingConfig) (pk : Pickler Obj) (s : System Obj cfg.nReader) :
    List (Action Obj cfg.nReader) → Option (System Obj cfg.nReader)
  | [] => some s
  | a :: schedule => (step cfg pk s a).bind fun s' => exec cfg pk s' schedule

theorem runs_of_exec {schedule : List (Action Obj cfg.nReader)} (hP : ∀ a ∈ schedule, ∀ s, P s a)
    (h : exec cfg pk s schedule = some s') : Runs cfg pk P s s' := by
  induction schedule generalizing s with
  | nil =>
    cases h
    exact Relation.ReflTransGen.refl
  | cons a schedule ih =>
    obtain ⟨t, hstep, hrest⟩ := bind_eq_some_iff.1 h
    exact Relation.ReflTransGen.head ⟨a, hP a mem_cons_self s, hstep⟩
      (ih (fun a' ha' => hP a' (mem_cons_of_mem _ ha')) hrest)

/-- A pickler of booleans: `true` takes two bytes. -/
def boolPickler : Pickler Bool where
  dumps _ b := (if b then [1, 1] else [], [])
  loads main _ := !main.isEmpty
  loads_dumps _ b := by cases b <;> rfl

/-- Two chunks of eight bytes: `false` fits, `true` does not. -/
def smallRing : RingConfig where
  nReader := 1
  maxChunkBytes := 8
  maxChunks := 2
  maxChunks_pos := by decide

def soleReader : Fin smallRing.nReader := ⟨0, Nat.one_pos⟩

/-- The writer is called and makes so many steps. -/
def enqueueUpTo (steps : ℕ) (b : Bool) : List (Action Bool smallRing.nReader) :=
  .enqueue b :: replicate steps .write

/-- The reader is called and makes so many steps. -/
def dequeueUpTo (steps : ℕ) : List (Action Bool smallRing.nReader) :=
  .dequeue soleReader :: replicate steps (.read soleReader)

/-! ## Runs -/

/-- An object that keeps no view of its chunk stays as it was enqueued. -/
theorem present_of_copied {keepsViews : Obj → Bool} (mem : Memory cfg.nReader) (k : ℕ) {obj : Obj}
    (h : overflows cfg pk obj ∨ keepsViews obj = false ∨ (pk.dumps oobCallback obj).2 = []) :
    present cfg pk keepsViews mem k obj = obj := by
  unfold present
  split_ifs with hviews
  · obtain ⟨hinline, hkeeps⟩ := hviews
    rw [hinline, hkeeps] at h
    have hnone : (pk.dumps oobCallback obj).2 = [] := by simpa using h
    have hloads := pk.loads_dumps oobCallback obj
    rw [hnone] at hloads
    simp only [hnone, map_nil]
    exact hloads
  · rfl

/-- In every run without timeouts: every reader has got the first objects of the log, in their order, and has
them still if it keeps no view of a chunk; it gets the next one when it has been enqueued; no step of the writer changes a chunk whose message some reader has
not marked as read; and what the writer puts into a chunk in line fits, and is read back. -/
theorem dequeue_fifo (keepsViews : Obj → Bool) (h : Runs cfg pk NoTimeout {} s) :
    (∀ r, (s.readers r).got <+: s.log) ∧
    (∀ r k obj, (s.readers r).got[k]? = some obj → overflows cfg pk obj ∨ keepsViews obj = false ∨
      (pk.dumps oobCallback obj).2 = [] → present cfg pk keepsViews s.mem k obj = obj) ∧
    (∀ r, (s.readers r).pc = .idle → (s.readers r).got.length < (sent s.log s.writer).length →
      ∃ s', Runs cfg pk (Own r) s s' ∧ (s'.readers r).pc = .idle ∧ s'.log = s.log ∧
        (s'.readers r).got = s.log.take ((s.readers r).got.length + 1)) ∧
    (∀ s', step cfg pk s .write = some s' → ∀ k < s.log.length, ∀ r, (s.readers r).taken ≤ k →
      s'.mem.data (k % cfg.maxChunks) = s.mem.data (k % cfg.maxChunks) ∧
        s'.mem.writtenFlag (k % cfg.maxChunks) = s.mem.writtenFlag (k % cfg.maxChunks) ∧
        s'.mem.readFlag (k % cfg.maxChunks) = s.mem.readFlag (k % cfg.maxChunks)) ∧
    ∀ obj, overflows cfg pk obj = false → (plan cfg pk obj).length ≤ cfg.maxChunkBytes ∧
      ∀ bytes rest, plan cfg pk obj = bytes.map some →
        unframe (bytes ++ rest) = (pk.dumps oobCallback obj).1 :: (pk.dumps oobCallback obj).2 := by
  have hinv := inv_start.run (fun _ _ hquiet => hquiet.noLateSocket) h
  refine ⟨hinv.got_initial, fun _ _ _ _ hcopied => present_of_copied _ _ hcopied,
    fun r hidle hsent => hinv.dequeues hidle hsent,
    fun s' hstep k hk r hunread => hinv.writeStep_chunk hstep hk hunread, fun obj hfits => ?_⟩
  have hplan : plan cfg pk obj = framePlan ((pk.dumps oobCallback obj).1 :: (pk.dumps oobCallback obj).2) := by
    unfold plan
    rw [if_neg (by rw [hfits]; decide)]
  constructor
  · rw [hplan]
    have hlen := length_framePlan_le (pk.dumps oobCallback obj).1 (pk.dumps oobCallback obj).2
    have hsize : totalBytes (pk.dumps oobCallback obj).1 (pk.dumps oobCallback obj).2 < cfg.maxChunkBytes :=
      not_le.1 (of_decide_eq_false hfits)
    omega
  · intro bytes rest hbytes
    rw [hplan] at hbytes
    exact unframe_of_framePlan hbytes rest

/-- The reader gets the overflow message, and then the next one. -/
theorem dequeue_fifo_smallRing : ∃ s, Runs smallRing boolPickler NoTimeout {} s ∧ s.log = [true, false] ∧
    (s.readers soleReader).got = [true] ∧ present smallRing boolPickler (fun _ => true) s.mem 0 true = true ∧ ∃ s', Runs smallRing boolPickler (Own soleReader) s s' ∧
      (s'.readers soleReader).got = [true, false] := by
  have hrun : (exec smallRing boolPickler {} (enqueueUpTo 10 true ++ enqueueUpTo 15 false ++ dequeueUpTo 13)).map
      (fun s => (s.log, (s.readers soleReader).got, (s.readers soleReader).pc.isIdle,
        (sent s.log s.writer).length)) = some ([true, false], [true], true, 2) := by decide +kernel
  obtain ⟨s, hexec, hs⟩ := map_eq_some_iff.1 hrun
  obtain ⟨hlog, hgot, hidle, hsent⟩ : s.log = [true, false] ∧ (s.readers soleReader).got = [true] ∧
      (s.readers soleReader).pc.isIdle ∧ (sent s.log s.writer).length = 2 := by
    simpa only [Prod.mk.injEq] using hs
  have hruns : Runs smallRing boolPickler NoTimeout {} s := by
    refine runs_of_exec (fun a ha _ r => ?_) hexec
    rintro rfl
    simp [enqueueUpTo, dequeueUpTo] at ha
  obtain ⟨-, hpresent, hnext, -⟩ := dequeue_fifo (fun _ => true) hruns
  obtain ⟨s', hrun', _, _, hgot'⟩ := hnext soleReader (ReaderPc.isIdle_iff.1 hidle) (by
    rw [hgot, hsent]
    decide)
  refine ⟨s, hruns, hlog, hgot, hpresent soleReader 0 true (by rw [hgot]; rfl) (.inr (.inr rfl)), s', hrun', ?_⟩
  rw [hgot', hgot, hlog]
  rfl

/-! ## Timeouts -/

/-- The next object that the reader returns is the one enqueued after those it has returned. -/
def ReturnsNext (cfg : RingConfig) (pk : Pickler Obj) (s : System Obj cfg.nReader) (r : Fin cfg.nReader) : Prop :=
  ∀ t obj, Runs cfg pk NoLateSocket s t → (t.readers r).got = (s.readers r).got ++ [obj] →
    t.log[(s.readers r).got.length]? = some obj

theorem Inv.returnsNext (h : Inv cfg pk s) (r : Fin cfg.nReader) : ReturnsNext cfg pk s r := by
  intro t obj hrun hgot
  obtain ⟨rest, hrest⟩ := (h.run (fun _ _ hquiet => hquiet) hrun).got_initial r
  rw [← hrest, hgot, append_assoc, getElem?_append_right (le_refl _), Nat.sub_self]
  rfl

/-- A `dequeue` that times out goes back to idle, and that is all. -/
theorem timeoutStep_eq {n : ℕ} {s s' : System Obj n} {r : Fin n} (h : timeoutStep s r = some s') :
    s' = s.goTo r .idle := by
  unfold timeoutStep at h
  dsimp only at h
  split at h
  · exact (some.inj h).symm
  · exact (some.inj h).symm
  · cases h

/-- A `dequeue` that times out leaves the reader at the chunk of the next object if and only if it was not
waiting for the socket. Then the reader goes on to return that object, the one the call would have returned,
and it does so by its own steps once the object has been enqueued. -/
theorem timeout_consumes_nothing_iff (h : Runs cfg pk NoLateSocket {} s)
    (ht : step cfg pk s (.timeout r) = some s') : ReturnsNext cfg pk s r ∧
    ((s'.readers r).taken = (s'.readers r).got.length ↔ (s.readers r).pc ≠ .recv) ∧
    ((s.readers r).pc ≠ .recv → s'.mem = s.mem ∧ s'.sockets = s.sockets ∧
      s'.readers r = { s.readers r with pc := .idle } ∧ ReturnsNext cfg pk s' r ∧
      ∀ t, Runs cfg pk NoLateSocket s' t → (t.readers r).pc = .idle →
        (t.readers r).got.length < (sent t.log t.writer).length →
        ∃ t', Runs cfg pk (Own r) t t' ∧ (t'.readers r).pc = .idle ∧
          (t'.readers r).got = t.log.take ((t.readers r).got.length + 1)) := by
  have hinv := inv_start.run (fun _ _ hquiet => hquiet) h
  have hs' : s' = s.goTo r .idle := timeoutStep_eq ht
  refine ⟨hinv.returnsNext r, ?_, fun hpc => ?_⟩
  · have hlen := hinv.length_got r
    rw [hs', readers_goTo]
    rw [hlen]
    unfold Reader.returned
    constructor
    · intro htaken hpc
      have hok := hinv.readers r
      unfold ReaderOk at hok
      rw [hpc] at hok htaken
      obtain ⟨k, _, hk, _⟩ := hok
      rw [hk] at htaken
      exact absurd htaken (Nat.succ_ne_self k)
    · intro hpc
      split
      next hrecv => exact absurd hrecv hpc
      · rfl
  · have hinv' : Inv cfg pk s' := by
      refine hinv.step (fun r' hr' => ?_) ht
      cases hr'
      exact hpc
    refine ⟨by rw [hs']; rfl, by rw [hs']; rfl, by rw [hs', readers_goTo], hinv'.returnsNext r, ?_⟩
    intro t hrun hidle hsent
    obtain ⟨t', hrun', hidle', _, hgot⟩ := (hinv'.run (fun _ _ hquiet => hquiet) hrun).dequeues hidle hsent
    exact ⟨t', hrun', hidle', hgot⟩

/-- A `dequeue` of the empty queue times out; nothing is lost. -/
theorem timeout_consumes_nothing_smallRing : ∃ s s', Runs smallRing boolPickler NoLateSocket {} s ∧
    step smallRing boolPickler s (.timeout soleReader) = some s' ∧ (s.readers soleReader).pc ≠ .recv ∧
    ReturnsNext smallRing boolPickler s' soleReader := by
  have hrun : (exec smallRing boolPickler {} (dequeueUpTo 2)).bind (fun s =>
      (step smallRing boolPickler s (.timeout soleReader)).map fun _ => (s.readers soleReader).pc.isRecv) =
      some false := by decide +kernel
  obtain ⟨s, hexec, hs⟩ := bind_eq_some_iff.1 hrun
  obtain ⟨s', hstep, hrecv⟩ := map_eq_some_iff.1 hs
  have hruns : Runs smallRing boolPickler NoLateSocket {} s := by
    refine runs_of_exec (fun a ha _ r => ?_) hexec
    rintro rfl
    simp [dequeueUpTo] at ha
  have hpc : (s.readers soleReader).pc ≠ .recv := by
    intro hpc
    rw [hpc] at hrecv
    cases hrecv
  exact ⟨s, s', hruns, hstep, hpc, ((timeout_consumes_nothing_iff hruns hstep).2.2 hpc).2.2.2.1⟩

/-- The ring has an overflow message whose socket part is late: the `dequeue` times out, and the next one
returns the object enqueued after it. -/
theorem timeout_loses_overflow : ∃ s s' s'', Runs smallRing boolPickler NoTimeout {} s ∧
    step smallRing boolPickler s (.timeout soleReader) = some s' ∧ Runs smallRing boolPickler NoTimeout s' s'' ∧
    (s.readers soleReader).got = [] ∧ (s''.readers soleReader).got = [false] ∧ s''.log = [true, false] := by
  have hrun : (exec smallRing boolPickler {} (enqueueUpTo 9 true ++ dequeueUpTo 12)).bind (fun s =>
      (step smallRing boolPickler s (.timeout soleReader)).bind fun s' =>
        (exec smallRing boolPickler s' (.write :: enqueueUpTo 15 false ++ dequeueUpTo 12)).map fun s'' =>
          ((s.readers soleReader).got, (s''.readers soleReader).got, s''.log)) =
      some ([], [false], [true, false]) := by decide +kernel
  obtain ⟨s, hexec, hs⟩ := bind_eq_some_iff.1 hrun
  obtain ⟨s', hstep, hs'⟩ := bind_eq_some_iff.1 hs
  obtain ⟨s'', hexec', hs''⟩ := map_eq_some_iff.1 hs'
  obtain ⟨hgot, hgot', hlog⟩ : (s.readers soleReader).got = [] ∧ (s''.readers soleReader).got = [false] ∧
      s''.log = [true, false] := by
    simpa only [Prod.mk.injEq] using hs''
  refine ⟨s, s', s'', runs_of_exec (fun a ha _ r => ?_) hexec, hstep, runs_of_exec (fun a ha _ r => ?_) hexec',
    hgot, hgot', hlog⟩
  · rintro rfl
    simp [enqueueUpTo, dequeueUpTo] at ha
  · rintro rfl
    simp [enqueueUpTo, dequeueUpTo] at ha

end VllmRwkv.Broadcast
