import VllmRwkv.Broadcast.Queue

/-!
# The broadcast queue delivers in order

The `k`-th message is in chunk `k % max_chunks` from the time it is published until all readers have marked
it as read; `Ring` says so, and how far the readers may be behind. With it go what the writer and each
reader know at each point of their programs, and what the socket still has. Every step keeps all of it as
long as no reader gives up on an overflow message (`Inv.step`).
-/

namespace VllmRwkv.Broadcast

open List Function Nat Bool Option

variable {Obj : Type} {n : ℕ}

theorem mod_ne {k k' m : ℕ} (hlt : k < k') (h : k' < k + m) : k % m ≠ k' % m := by
  intro heq
  have hdvd : m ∣ k' - k := dvd_of_mod_eq_zero (sub_mod_eq_zero_of_mod_eq heq.symm)
  have hle := le_of_dvd (by omega) hdvd
  omega

section Invariant

variable (cfg : RingConfig) (pk : Pickler Obj)

/-- What a reader finds in the chunk of the object. -/
def message (obj : Obj) : Message Obj := if overflows cfg pk obj then .overflow else .inline obj

/-- The chunk has the message of the object. -/
def Stored (data : ℕ → UInt8) (obj : Obj) : Prop :=
  decode pk ((range cfg.maxChunkBytes).map data) = some (message cfg pk obj)

section

variable (mem : Memory cfg.nReader) (taken : Fin cfg.nReader → ℕ) (log : List Obj)

/-- The chunk of the `k`-th message is as the writer has left it, apart from the readers' flags. -/
structure Occupied (k : ℕ) : Prop where
  written : mem.writtenFlag (k % cfg.maxChunks)
  flags : ∀ r, mem.readFlag (k % cfg.maxChunks) r = decide (k < taken r)
  stored : ∀ obj, log[k]? = some obj → Stored cfg pk (mem.data (k % cfg.maxChunks)) obj

/-- The ring when `log` has been published and the reader `r` has marked `taken r` chunks as read. -/
structure Ring : Prop where
  behind : ∀ r, taken r ≤ log.length
  window : ∀ r, log.length ≤ taken r + cfg.maxChunks
  recent : ∀ k < log.length, log.length < k + cfg.maxChunks → Occupied cfg pk mem taken log k
  /-- The chunk to be written next, if it is marked as written … -/
  next : mem.writtenFlag (log.length % cfg.maxChunks) →
    cfg.maxChunks ≤ log.length ∧ Occupied cfg pk mem taken log (log.length - cfg.maxChunks)
  /-- … and if it is not. -/
  free : mem.writtenFlag (log.length % cfg.maxChunks) = false → ∀ r, log.length < taken r + cfg.maxChunks
  fresh : ∀ c, log.length < c → c < cfg.maxChunks → mem.writtenFlag c = false

/-- What the writer knows about the chunk `c` to be written next. -/
def WriterOk (c : ℕ) : WriterPc Obj → Prop
  | .idle => True
  | .sum _ i readCount => i ≤ cfg.nReader ∧ readCount ≤ i ∧
      (readCount = i → ∀ r : Fin cfg.nReader, r.val < i → mem.readFlag c r)
  | .check _ readCount => readCount = cfg.nReader → ∀ r, mem.readFlag c r
  | .mark _ => ∀ r, log.length < taken r + cfg.maxChunks
  | .fill obj offset pending => mem.writtenFlag c = false ∧ offset ≤ cfg.maxChunkBytes ∧ ∃ done : Buffer,
      done.length = offset ∧
      done.map some ++ pending = plan cfg pk obj ∧ ∀ j byte, done[j]? = some byte → mem.data c j = byte
  | .clear obj i => mem.writtenFlag c = false ∧ Stored cfg pk (mem.data c) obj ∧
      ∀ r : Fin cfg.nReader, r.val < i → mem.readFlag c r = false
  | .publish obj => mem.writtenFlag c = false ∧ Stored cfg pk (mem.data c) obj ∧ ∀ r, mem.readFlag c r = false
  | .send obj => log.getLast? = some obj ∧ overflows cfg pk obj

end

/-- What a reader knows. -/
def ReaderOk (mem : Memory cfg.nReader) (log : List Obj) (r : Fin cfg.nReader) (me : Reader Obj) : Prop :=
  match me.pc with
  | .writtenFlag readFlag => readFlag = false → mem.readFlag me.currentIdx r = false
  | .read bytes => me.taken < log.length ∧ bytes.length ≤ cfg.maxChunkBytes ∧
      bytes = (range bytes.length).map (mem.data me.currentIdx)
  | .release found => ∃ obj, log[me.taken]? = some obj ∧ found = some (message cfg pk obj)
  | .recv => ∃ k obj, me.taken = k + 1 ∧ log[k]? = some obj ∧ overflows cfg pk obj
  | _ => True

/-- The number of messages that a reader has returned. -/
def Reader.returned (me : Reader Obj) : ℕ :=
  match me.pc with
  | .recv => me.taken - 1
  | _ => me.taken

/-- What goes over the socket. -/
def overflowed (log : List Obj) : List (Buffer × List Buffer) :=
  (log.filter (overflows cfg pk)).map (pk.dumps oobCallback)

/-- The messages whose enqueueing has come as far as the socket. -/
def sent (log : List Obj) : WriterPc Obj → List Obj
  | .send _ => log.dropLast
  | _ => log

/-- What a reader has returned, and what the socket still has for it. -/
structure Delivered (log sent : List Obj) (socket : List (Buffer × List Buffer)) (me : Reader Obj) : Prop where
  got : me.got = log.take me.returned
  socket : overflowed cfg pk (log.take me.returned) ++ socket = overflowed cfg pk sent

end Invariant

def System.taken (s : System Obj n) : Fin n → ℕ := fun r => (s.readers r).taken

structure Inv (cfg : RingConfig) (pk : Pickler Obj) (s : System Obj cfg.nReader) : Prop where
  ring : Ring cfg pk s.mem s.taken s.log
  writeIdx : s.currentIdx = s.log.length % cfg.maxChunks
  readIdx : ∀ r, (s.readers r).currentIdx = (s.readers r).taken % cfg.maxChunks
  writer : WriterOk cfg pk s.mem s.taken s.log s.currentIdx s.writer
  readers : ∀ r, ReaderOk cfg pk s.mem s.log r (s.readers r)
  delivered : ∀ r, Delivered cfg pk s.log (sent s.log s.writer) (s.sockets r) (s.readers r)

section Lemmas

variable {cfg : RingConfig} {pk : Pickler Obj} {mem mem' : Memory cfg.nReader} {taken taken' : Fin cfg.nReader → ℕ}
  {log log' : List Obj} {k : ℕ} {obj : Obj} {r : Fin cfg.nReader}

/-! ## Memory -/

theorem readFlag_setRead (mem : Memory n) (c : ℕ) (r : Fin n) (b : Bool) (c' : ℕ) (r' : Fin n) :
    (mem.setRead c r b).readFlag c' r' = if c' = c ∧ r' = r then b else mem.readFlag c' r' := by
  by_cases hc : c' = c <;> by_cases hr : r' = r <;> simp [Memory.setRead, hc, hr]

theorem writtenFlag_setWritten (mem : Memory n) (c : ℕ) (b : Bool) (c' : ℕ) :
    (mem.setWritten c b).writtenFlag c' = if c' = c then b else mem.writtenFlag c' := by
  by_cases hc : c' = c <;> simp [Memory.setWritten, hc]

theorem data_setData (mem : Memory n) (c o : ℕ) (b : UInt8) (c' o' : ℕ) :
    (mem.setData c o b).data c' o' = if c' = c ∧ o' = o then b else mem.data c' o' := by
  unfold Memory.setData
  by_cases hc : c' = c
  · subst hc
    by_cases ho : o' = o
    · subst ho
      simp
    · simp [ho]
  · simp [hc]

/-! ## The ring -/

theorem Occupied.congr (h : Occupied cfg pk mem taken log k)
    (hwritten : mem'.writtenFlag (k % cfg.maxChunks) = mem.writtenFlag (k % cfg.maxChunks))
    (hread : mem'.readFlag (k % cfg.maxChunks) = mem.readFlag (k % cfg.maxChunks))
    (hdata : mem'.data (k % cfg.maxChunks) = mem.data (k % cfg.maxChunks))
    (htaken : ∀ r, k < taken' r ↔ k < taken r) (hlog : log'[k]? = log[k]?) : Occupied cfg pk mem' taken' log' k := by
  refine ⟨hwritten.trans h.written, fun r => ?_, fun obj hobj => ?_⟩
  · rw [hread, h.flags r]
    exact decide_eq_decide.2 (htaken r).symm
  · rw [hdata]
    exact h.stored obj (hlog ▸ hobj)

section

variable (h : Ring cfg pk mem taken log)

include h

/-- The flags of the next chunk are those of the message that it still holds. -/
theorem Ring.next_flag (hw : mem.writtenFlag (log.length % cfg.maxChunks)) (r : Fin cfg.nReader) :
    mem.readFlag (log.length % cfg.maxChunks) r ↔ log.length < taken r + cfg.maxChunks := by
  obtain ⟨hle, hocc⟩ := h.next hw
  rw [mod_eq_sub_mod hle, hocc.flags, decide_eq_true_iff]
  omega

/-- The writer may change the next chunk while it is marked as not written. -/
theorem Ring.touch (hothers : ∀ c, c ≠ log.length % cfg.maxChunks → mem'.writtenFlag c = mem.writtenFlag c ∧
      mem'.readFlag c = mem.readFlag c ∧ mem'.data c = mem.data c)
    (hnext : mem'.writtenFlag (log.length % cfg.maxChunks) = false)
    (hfree : ∀ r, log.length < taken r + cfg.maxChunks) : Ring cfg pk mem' taken log := by
  refine ⟨h.behind, h.window, fun k hk hm => ?_, fun hw => ?_, fun _ => hfree, fun c hlt hc => ?_⟩
  · obtain ⟨hw, hr, hd⟩ := hothers _ (mod_ne hk hm)
    exact (h.recent k hk hm).congr hw hr hd (fun _ => Iff.rfl) rfl
  · cases hnext.symm.trans hw
  have hne : c ≠ log.length % cfg.maxChunks := by
    rw [mod_eq_of_lt (by omega)]
    omega
  rw [(hothers c hne).1]
  exact h.fresh c hlt hc

/-- The chunk that a reader reads next is as the writer has left it. -/
theorem Ring.occupied (hlt : taken r < log.length) : Occupied cfg pk mem taken log (taken r) := by
  rcases lt_or_ge log.length (taken r + cfg.maxChunks) with hlt' | hge
  · exact h.recent _ hlt hlt'
  have hk : taken r = log.length - cfg.maxChunks := by
    have := h.window r
    omega
  rw [hk]
  refine (h.next ?_).2
  by_contra hw
  have := h.free (eq_false_iff.2 hw) r
  omega

theorem Ring.publish (hpos : 0 < cfg.maxChunks) (hwritten : mem.writtenFlag (log.length % cfg.maxChunks) = false)
    (hflags : ∀ r, mem.readFlag (log.length % cfg.maxChunks) r = false)
    (hstored : Stored cfg pk (mem.data (log.length % cfg.maxChunks)) obj) :
    Ring cfg pk (mem.setWritten (log.length % cfg.maxChunks) true) taken (log ++ [obj]) := by
  set mem' := mem.setWritten (log.length % cfg.maxChunks) true
  have hlen : (log ++ [obj]).length = log.length + 1 := length_append
  have hfree := h.free hwritten
  -- the message just published
  have hlast : Occupied cfg pk mem' taken (log ++ [obj]) log.length := by
    refine ⟨?_, fun r => ?_, fun obj' hobj' => ?_⟩
    · rw [writtenFlag_setWritten, if_pos rfl]
    · have := h.behind r
      show mem.readFlag _ r = _
      rw [hflags r, decide_eq_false (by omega)]
    · rw [getElem?_concat_length] at hobj'
      cases hobj'
      exact hstored
  -- the earlier ones are in other chunks
  have hearlier : ∀ k < log.length, log.length < k + cfg.maxChunks →
      Occupied cfg pk mem' taken (log ++ [obj]) k := by
    intro k hk hm
    refine (h.recent k hk hm).congr ?_ rfl rfl (fun _ => Iff.rfl) (getElem?_append_left hk)
    rw [writtenFlag_setWritten, if_neg (mod_ne hk hm)]
  have hall : ∀ k ≤ log.length, log.length < k + cfg.maxChunks →
      Occupied cfg pk mem' taken (log ++ [obj]) k := by
    intro k hk hm
    rcases eq_or_lt_of_le hk with rfl | hlt
    · exact hlast
    · exact hearlier k hlt hm
  refine ⟨fun r => ?_, fun r => ?_, fun k hk hm => ?_, fun hw => ?_, fun hw r => ?_, fun c hlt hc => ?_⟩
  · have := h.behind r
    omega
  · have := hfree r
    omega
  · exact hall k (by omega) (by omega)
  · rw [hlen] at hw ⊢
    have hle : cfg.maxChunks ≤ log.length + 1 := by
      by_contra hlt
      rw [writtenFlag_setWritten, mod_eq_of_lt (by omega), mod_eq_of_lt (by omega), if_neg (by omega),
        h.fresh _ (by omega) (by omega)] at hw
      cases hw
    exact ⟨hle, hall _ (by omega) (by omega)⟩
  · rw [hlen] at hw ⊢
    rcases lt_or_ge (log.length + 1) cfg.maxChunks with hlt | hge
    · omega
    -- the chunk holds a message already
    have hocc := (hall (log.length + 1 - cfg.maxChunks) (by omega) (by omega)).written
    have hmod : (log.length + 1 - cfg.maxChunks) % cfg.maxChunks = (log.length + 1) % cfg.maxChunks := by
      rw [← mod_eq_sub_mod hge]
    rw [hmod, hw] at hocc
    cases hocc
  · rw [writtenFlag_setWritten, mod_eq_of_lt (by omega), if_neg (by omega)]
    exact h.fresh c (by omega) hc

theorem Ring.release (hlt : taken r < log.length) :
    Ring cfg pk (mem.setRead (taken r % cfg.maxChunks) r true) (update taken r (taken r + 1)) log := by
  have hupdate (r' : Fin cfg.nReader) : update taken r (taken r + 1) r' = if r' = r then taken r + 1 else taken r' := by
    by_cases hr : r' = r
    · subst hr
      simp
    · simp [hr]
  have hocc : ∀ k < log.length, log.length ≤ k + cfg.maxChunks → Occupied cfg pk mem taken log k →
      Occupied cfg pk (mem.setRead (taken r % cfg.maxChunks) r true) (update taken r (taken r + 1)) log k := by
    intro k hk hm hold
    have hwindow := h.window r
    by_cases heq : k = taken r
    · refine ⟨hold.written, fun r' => ?_, hold.stored⟩
      rw [readFlag_setRead, hupdate]
      by_cases hr : r' = r
      · rw [if_pos ⟨by rw [heq], hr⟩, if_pos hr, decide_eq_true (by omega)]
      · rw [if_neg (fun hboth => hr hboth.2), if_neg hr]
        exact hold.flags r'
    have hne : k % cfg.maxChunks ≠ taken r % cfg.maxChunks := by
      rcases lt_or_gt_of_ne heq with hlt' | hgt
      · exact mod_ne hlt' (by omega)
      · exact (mod_ne hgt (by omega)).symm
    refine hold.congr rfl ?_ rfl (fun r' => ?_) rfl
    · funext r'
      rw [readFlag_setRead, if_neg (fun hboth => hne hboth.1)]
    rw [hupdate]
    split_ifs with hr
    · rw [hr]
      omega
    · exact Iff.rfl
  refine ⟨fun r' => ?_, fun r' => ?_, fun k hk hm => ?_, fun hw => ?_, fun hw r' => ?_, h.fresh⟩
  · have := h.behind r'
    rw [hupdate]
    split <;> omega
  · have := h.window r'
    rw [hupdate]
    split_ifs with hr
    · rw [hr] at this
      omega
    · exact this
  · exact hocc k hk (by omega) (h.recent k hk hm)
  · obtain ⟨hle, hold⟩ := h.next hw
    have := cfg.maxChunks_pos
    exact ⟨hle, hocc _ (by omega) (by omega) hold⟩
  have := h.free hw r'
  rw [hupdate]
  split_ifs with hr
  · rw [hr] at this
    omega
  · exact this

end

/-! ## Messages -/

theorem stored_of_plan {data : ℕ → UInt8} {done : Buffer} (hplan : done.map some = plan cfg pk obj)
    (hfit : done.length ≤ cfg.maxChunkBytes) (hdata : ∀ j byte, done[j]? = some byte → data j = byte) :
    Stored cfg pk data obj := by
  obtain ⟨rest, hbytes⟩ : ∃ rest, (range cfg.maxChunkBytes).map data = done ++ rest := by
    refine ⟨((range cfg.maxChunkBytes).map data).drop done.length, ?_⟩
    have htake : ((range cfg.maxChunkBytes).map data).take done.length = done := by
      refine ext_getElem? fun j => ?_
      rw [getElem?_take, getElem?_map]
      split_ifs with hj
      · rw [getElem?_range (by omega), getElem?_eq_getElem hj, map_some]
        exact congrArg some (hdata j _ (getElem?_eq_getElem hj))
      · rw [getElem?_eq_none (by omega)]
    conv_lhs => rw [← take_append_drop done.length ((range cfg.maxChunkBytes).map data), htake]
  unfold Stored message
  rw [hbytes]
  unfold plan at hplan
  by_cases hover : overflows cfg pk obj
  · rw [if_pos hover] at hplan ⊢
    have hdone : done = [1] := map_injective_iff.2 (some_injective _) hplan
    rw [hdone]
    rfl
  rw [if_neg hover] at hplan ⊢
  have hunframe := unframe_of_framePlan hplan.symm rest
  obtain ⟨rfl, -, -⟩ := framePlan_eq_some hplan.symm
  unfold decode
  rw [hunframe]
  exact congrArg (fun obj => some (Message.inline obj)) (pk.loads_dumps oobCallback obj)

/-! ## Steps of the writer -/

variable {s s' : System Obj cfg.nReader} {pc w : WriterPc Obj}

section

variable (h : Inv cfg pk s)

include h

theorem Inv.goOn (hok : WriterOk cfg pk s.mem s.taken s.log s.currentIdx pc)
    (hwriter : s.writer = w) (hsent : sent s.log pc = sent s.log w) : Inv cfg pk { s with writer := pc } :=
  ⟨h.ring, h.writeIdx, h.readIdx, hok, h.readers, fun r => by
    show Delivered cfg pk s.log (sent s.log pc) (s.sockets r) (s.readers r)
    rw [hsent, ← hwriter]
    exact h.delivered r⟩

/-- The writer changes the next chunk; it raises no read flag. -/
theorem Inv.touch (hothers : ∀ c, c ≠ s.currentIdx → mem'.writtenFlag c = s.mem.writtenFlag c ∧
      mem'.readFlag c = s.mem.readFlag c ∧ mem'.data c = s.mem.data c)
    (hflags : ∀ c r, s.mem.readFlag c r = false → mem'.readFlag c r = false)
    (hnext : mem'.writtenFlag s.currentIdx = false) (hfree : ∀ r, s.log.length < s.taken r + cfg.maxChunks)
    (hok : WriterOk cfg pk mem' s.taken s.log s.currentIdx pc) (hwriter : s.writer = w)
    (hsent : sent s.log pc = sent s.log w) :
    Inv cfg pk { s with mem := mem', writer := pc } := by
  have hdelivered (r : Fin cfg.nReader) : Delivered cfg pk s.log (sent s.log pc) (s.sockets r) (s.readers r) := by
    rw [hsent, ← hwriter]
    exact h.delivered r
  refine ⟨h.ring.touch (h.writeIdx ▸ hothers) (h.writeIdx ▸ hnext) hfree, h.writeIdx, h.readIdx, hok, fun r => ?_,
    hdelivered⟩
  have hr := h.readers r
  show ReaderOk cfg pk mem' s.log r (s.readers r)
  unfold ReaderOk at hr ⊢
  split at hr
  · exact fun hf => hflags _ r (hr hf)
  · -- the chunk that is read is another one
    obtain ⟨hlt, hlen, hbytes⟩ := hr
    refine ⟨hlt, hlen, ?_⟩
    have hne : (s.readers r).currentIdx ≠ s.currentIdx := by
      rw [h.readIdx r, h.writeIdx]
      exact mod_ne hlt (hfree r)
    rw [(hothers _ hne).2.2]
    exact hbytes
  · exact hr
  · exact hr
  · trivial

theorem Inv.free (hw : s.mem.writtenFlag s.currentIdx = false) (r : Fin cfg.nReader) :
    s.log.length < s.taken r + cfg.maxChunks := by
  rw [h.writeIdx] at hw
  exact h.ring.free hw r

/-- All flags of the next chunk are raised: its message has been read. -/
theorem Inv.free_of_flags (hflags : ∀ r, s.mem.readFlag s.currentIdx r)
    (r : Fin cfg.nReader) : s.log.length < s.taken r + cfg.maxChunks := by
  cases hw : s.mem.writtenFlag s.currentIdx with
  | false => exact h.free hw r
  | true =>
    have hflag := hflags r
    rw [h.writeIdx] at hw hflag
    have := (h.ring.next_flag hw r).1 hflag
    omega

end

theorem overflowed_append (log log' : List Obj) :
    overflowed cfg pk (log ++ log') = overflowed cfg pk log ++ overflowed cfg pk log' := by
  unfold overflowed
  rw [filter_append, map_append]

theorem sent_initial (log : List Obj) (pc : WriterPc Obj) : sent log pc <+: log := by
  unfold sent
  split
  · exact dropLast_prefix log
  · exact prefix_refl log

theorem returned_le (me : Reader Obj) : me.returned ≤ me.taken := by
  unfold Reader.returned
  split <;> omega

/-- A published message changes nothing for a reader. -/
theorem ReaderOk.append {me : Reader Obj} (h : ReaderOk cfg pk mem log r me) (obj : Obj)
    (hread : mem'.readFlag = mem.readFlag) (hdata : mem'.data = mem.data) :
    ReaderOk cfg pk mem' (log ++ [obj]) r me := by
  have hget {k : ℕ} {x : Obj} (hk : log[k]? = some x) : (log ++ [obj])[k]? = some x := by
    obtain ⟨hlt, _⟩ := List.getElem?_eq_some_iff.1 hk
    rw [getElem?_append_left hlt]
    exact hk
  unfold ReaderOk at h ⊢
  rw [hread, hdata]
  split at h
  · exact h
  · obtain ⟨hlt, hrest⟩ := h
    refine ⟨?_, hrest⟩
    rw [length_append]
    omega
  · obtain ⟨x, hx, hfound⟩ := h
    exact ⟨x, hget hx, hfound⟩
  · obtain ⟨k, x, hk, hx, hover⟩ := h
    exact ⟨k, x, hk, hget hx, hover⟩
  · trivial

theorem Inv.published (h : Inv cfg pk s) (hwriter : s.writer = .publish obj) : Inv cfg pk { s with
      mem := s.mem.setWritten s.currentIdx true
      currentIdx := (s.currentIdx + 1) % cfg.maxChunks
      log := s.log ++ [obj]
      writer := if overflows cfg pk obj then .send obj else .idle } := by
  have hok := h.writer
  rw [hwriter] at hok
  obtain ⟨hwritten, hstored, hflags⟩ := hok
  rw [h.writeIdx] at hwritten hflags hstored
  have hring := h.ring.publish cfg.maxChunks_pos hwritten hflags hstored
  rw [← h.writeIdx] at hring
  refine ⟨hring, ?_, h.readIdx, ?_, fun r => (h.readers r).append obj rfl rfl, fun r => ?_⟩
  · rw [h.writeIdx, length_append, length_singleton, mod_add_mod]
  · split_ifs with hover
    · exact ⟨getLast?_concat, hover⟩
    · trivial
  obtain ⟨hgot, hsocket⟩ := h.delivered r
  rw [hwriter] at hsocket
  have hle := (returned_le (s.readers r)).trans (h.ring.behind r)
  have htake : (s.log ++ [obj]).take (s.readers r).returned = s.log.take (s.readers r).returned :=
    take_append_of_le_length hle
  refine ⟨hgot.trans htake.symm, ?_⟩
  rw [htake]
  refine hsocket.trans ?_
  split_ifs with hover
  · show overflowed cfg pk s.log = overflowed cfg pk (s.log ++ [obj]).dropLast
    rw [dropLast_concat]
  have hnone : overflowed cfg pk [obj] = [] := by
    unfold overflowed
    rw [filter_cons_of_neg hover]
    rfl
  show overflowed cfg pk s.log = overflowed cfg pk (s.log ++ [obj])
  rw [overflowed_append, hnone, append_nil]

theorem Inv.sent (h : Inv cfg pk s) (hwriter : s.writer = .send obj) :
    Inv cfg pk { s with sockets := fun r => s.sockets r ++ [pk.dumps oobCallback obj], writer := .idle } := by
  have hok := h.writer
  rw [hwriter] at hok
  obtain ⟨hlast, hover⟩ := hok
  refine ⟨h.ring, h.writeIdx, h.readIdx, trivial, h.readers, fun r => ?_⟩
  obtain ⟨hgot, hsocket⟩ := h.delivered r
  rw [hwriter] at hsocket
  have hsplit : s.log = s.log.dropLast ++ [obj] := (dropLast_append_getLast? obj (mem_def.2 hlast)).symm
  have hone : overflowed cfg pk [obj] = [pk.dumps oobCallback obj] := by
    unfold overflowed
    rw [filter_cons_of_pos hover]
    rfl
  refine ⟨hgot, ?_⟩
  show overflowed cfg pk _ ++ (s.sockets r ++ [pk.dumps oobCallback obj]) = overflowed cfg pk s.log
  have hdropped : overflowed cfg pk (s.log.take (s.readers r).returned) ++ s.sockets r =
      overflowed cfg pk s.log.dropLast := hsocket
  rw [← append_assoc, hdropped, ← hone, ← overflowed_append, ← hsplit]

theorem Inv.writeStep (h : Inv cfg pk s) (hstep : writeStep cfg pk s = some s') : Inv cfg pk s' := by
  have hok := h.writer
  unfold Broadcast.writeStep at hstep
  split at hstep
  · cases hstep
  next obj i readCount hwriter => -- adding up a flag
    rw [hwriter] at hok
    obtain ⟨hi', hle, hall⟩ := hok
    split_ifs at hstep with hi
    · cases hstep
      have hbool := toNat_le (s.mem.readFlag s.currentIdx ⟨i, hi⟩)
      refine h.goOn ⟨hi, by omega, fun heq r hr => ?_⟩ hwriter rfl
      rcases lt_or_ge r.val i with hlt | hge
      · exact hall (by omega) r hlt
      have hri : r = ⟨i, hi⟩ := Fin.ext (show r.val = i by omega)
      rw [hri]
      by_contra hflag
      rw [eq_false_iff.2 hflag] at heq
      rw [toNat_false] at heq
      omega
    · cases hstep
      refine h.goOn (fun heq r => hall ?_ r ?_) hwriter rfl
      · omega
      · have := r.isLt
        omega
  next obj readCount hwriter => -- the written flag
    rw [hwriter] at hok
    split_ifs at hstep with hready
    · cases hstep
      exact h.goOn ⟨zero_le _, le_refl _, fun _ r hr => absurd hr (not_lt_zero _)⟩ hwriter rfl
    cases hstep
    refine h.goOn (fun r => ?_) hwriter rfl
    cases hw : s.mem.writtenFlag s.currentIdx with
    | false => exact h.free hw r
    | true =>
      have hcount : readCount = cfg.nReader := by
        by_contra hne
        exact hready ⟨hw, hne⟩
      exact h.free_of_flags (hok hcount) r
  next obj hwriter =>
    rw [hwriter] at hok
    cases hstep
    have hmark : (s.mem.setWritten s.currentIdx false).writtenFlag s.currentIdx = false := by
      rw [writtenFlag_setWritten, if_pos rfl]
    refine h.touch (fun c hc => ⟨?_, rfl, rfl⟩) (fun _ _ hf => hf) hmark hok ?_ hwriter rfl
    · rw [writtenFlag_setWritten, if_neg hc]
    · refine ⟨hmark, zero_le _, [], rfl, rfl, fun j byte hj => ?_⟩
      cases hj
  next obj offset byte pending hwriter => -- one byte of the message
    rw [hwriter] at hok
    obtain ⟨hwritten, hfit, done, hlen, hplan, hdata⟩ := hok
    split_ifs at hstep with hroom
    · cases hstep
      refine h.touch (fun c hc => ⟨rfl, rfl, ?_⟩) (fun _ _ hf => hf) hwritten (h.free hwritten) ?_ hwriter rfl
      · funext o
        rw [data_setData, if_neg fun hboth => hc hboth.1]
      · refine ⟨hwritten, hroom, done ++ [byte], by rw [length_append, hlen]; rfl, ?_, fun j b hj => ?_⟩
        · rw [map_append, append_assoc]
          exact hplan
        · rw [data_setData]
          rcases lt_or_ge j done.length with hlt | hge
          · rw [if_neg (by omega)]
            rw [getElem?_append_left hlt] at hj
            exact hdata j b hj
          obtain ⟨hj', _⟩ := List.getElem?_eq_some_iff.1 hj
          rw [length_append, length_singleton] at hj'
          have hjo : j = done.length := by omega
          rw [hjo, getElem?_concat_length] at hj
          rw [if_pos ⟨rfl, by omega⟩]
          exact some.inj hj
    · cases hstep
      exact h.goOn trivial hwriter rfl
  next hwriter =>
    cases hstep
    exact h.goOn trivial hwriter rfl
  next obj offset hwriter => -- the message is complete
    rw [hwriter] at hok
    obtain ⟨hwritten, hfit, done, hlen, hplan, hdata⟩ := hok
    cases hstep
    rw [append_nil] at hplan
    refine h.goOn ⟨hwritten, stored_of_plan hplan (by omega) hdata, fun r hr => ?_⟩ hwriter rfl
    exact absurd hr (not_lt_zero _)
  next obj i hwriter => -- one read flag
    rw [hwriter] at hok
    obtain ⟨hwritten, hstored, hflags⟩ := hok
    split_ifs at hstep with hi
    · cases hstep
      refine h.touch (fun c hc => ⟨rfl, ?_, rfl⟩) (fun c r hf => ?_) hwritten (h.free hwritten) ?_ hwriter rfl
      · funext r
        rw [readFlag_setRead, if_neg fun hboth => hc hboth.1]
      · rw [readFlag_setRead]
        split
        · rfl
        · exact hf
      · refine ⟨hwritten, hstored, fun r hr => ?_⟩
        rw [readFlag_setRead]
        split_ifs with hne
        · rfl
        · have hri : r.val ≠ i := fun heq => hne ⟨rfl, Fin.ext heq⟩
          exact hflags r (by omega)
    · cases hstep
      refine h.goOn ⟨hwritten, hstored, fun r => hflags r ?_⟩ hwriter rfl
      have := r.isLt
      omega
  next obj hwriter =>
    cases hstep
    exact h.published hwriter
  next obj hwriter =>
    cases hstep
    exact h.sent hwriter

/-! ## Steps of a reader -/

variable {me : Reader Obj}

section

variable (s : System Obj n) (r : Fin n) (me : Reader Obj)

theorem readers_setReader (r' : Fin n) : (s.setReader r me).readers r' = if r' = r then me else s.readers r' := by
  by_cases hr : r' = r <;> simp [System.setReader, hr]

theorem taken_setReader : (s.setReader r me).taken = update s.taken r me.taken := by
  funext r'
  unfold System.taken
  rw [readers_setReader]
  by_cases hr : r' = r <;> simp [hr]

end

/-- What holds of the changed reader and of the others holds of all. -/
theorem forall_setReader {P : Fin n → Reader Obj → Prop} {s : System Obj n} {r : Fin n} {me : Reader Obj}
    (hme : P r me) (hothers : ∀ r', r' ≠ r → P r' (s.readers r')) (r' : Fin n) :
    P r' ((s.setReader r me).readers r') := by
  rw [readers_setReader]
  split_ifs with hr
  · rw [hr]
    exact hme
  · exact hothers r' hr

theorem Inv.readOn (h : Inv cfg pk s) (htaken : me.taken = (s.readers r).taken)
    (hidx : me.currentIdx = (s.readers r).currentIdx) (hgot : me.got = (s.readers r).got)
    (hreturned : me.returned = (s.readers r).returned) (hok : ReaderOk cfg pk s.mem s.log r me) :
    Inv cfg pk (s.setReader r me) := by
  have hsame : (s.setReader r me).taken = s.taken := by
    rw [taken_setReader, htaken]
    exact update_eq_self r s.taken
  refine ⟨?_, h.writeIdx, ?_, ?_, ?_, ?_⟩
  · rw [hsame]
    exact h.ring
  · refine forall_setReader (P := fun _ me => me.currentIdx = me.taken % cfg.maxChunks) ?_ fun r' _ => h.readIdx r'
    rw [hidx, htaken]
    exact h.readIdx r
  · rw [hsame]
    exact h.writer
  · exact forall_setReader (P := fun r' me => ReaderOk cfg pk s.mem s.log r' me) hok fun r' _ => h.readers r'
  refine forall_setReader (P := fun r' me => Delivered cfg pk s.log (Broadcast.sent s.log s.writer) (s.sockets r') me)
    ?_ fun r' _ => h.delivered r'
  obtain ⟨hgot', hsocket⟩ := h.delivered r
  refine ⟨?_, ?_⟩
  · rw [hgot, hreturned]
    exact hgot'
  · rw [hreturned]
    exact hsocket

/-- A flag that a reader raises does not disturb the writer. -/
theorem WriterOk.release (h : WriterOk cfg pk s.mem s.taken s.log s.currentIdx s.writer) (hinv : Inv cfg pk s)
    (hlt : s.taken r < s.log.length) : WriterOk cfg pk (s.mem.setRead (s.taken r % cfg.maxChunks) r true)
      (update s.taken r (s.taken r + 1)) s.log s.currentIdx s.writer := by
  have hraised {c : ℕ} {r' : Fin cfg.nReader} (hflag : s.mem.readFlag c r') :
      (s.mem.setRead (s.taken r % cfg.maxChunks) r true).readFlag c r' := by
    rw [readFlag_setRead]
    split
    · rfl
    · exact hflag
  -- the writer resets the flags of another chunk
  have hreset (hw : s.mem.writtenFlag s.currentIdx = false) {r' : Fin cfg.nReader}
      (hflag : s.mem.readFlag s.currentIdx r' = false) :
      (s.mem.setRead (s.taken r % cfg.maxChunks) r true).readFlag s.currentIdx r' = false := by
    have hne : s.currentIdx ≠ s.taken r % cfg.maxChunks := by
      rw [hinv.writeIdx]
      exact (mod_ne hlt (hinv.free hw r)).symm
    rw [readFlag_setRead, if_neg fun hboth => hne hboth.1]
    exact hflag
  revert h
  cases s.writer with
  | idle => exact id
  | sum obj i readCount => exact fun h => ⟨h.1, h.2.1, fun heq r' hr' => hraised (h.2.2 heq r' hr')⟩
  | check obj readCount => exact fun h heq r' => hraised (h heq r')
  | mark obj =>
    intro h r'
    have := h r'
    rw [update_apply]
    split_ifs <;> grind
  | fill obj offset pending => exact id
  | clear obj i => exact fun h => ⟨h.1, h.2.1, fun r' hr' => hreset h.1 (h.2.2 r' hr')⟩
  | publish obj => exact fun h => ⟨h.1, h.2.1, fun r' => hreset h.1 (h.2.2 r')⟩
  | send obj => exact id

/-- The flags of the other readers are as they were. -/
theorem ReaderOk.release {mem : Memory cfg.nReader} {log : List Obj} {c : ℕ} {r' : Fin cfg.nReader}
    (h : ReaderOk cfg pk mem log r' me) (hne : r' ≠ r) : ReaderOk cfg pk (mem.setRead c r true) log r' me := by
  obtain ⟨pc, currentIdx, got, taken⟩ := me
  cases pc with
  | writtenFlag readFlag =>
    intro hf
    rw [readFlag_setRead, if_neg fun hboth => hne hboth.2]
    exact h hf
  | idle | readFlag | wait | read bytes | release found | recv => exact h

section

variable (h : Inv cfg pk s)

include h

/-- A reader marks its chunk as read and returns the object, or goes on to the socket. -/
theorem Inv.release (hlt : (s.readers r).taken < s.log.length) (htaken : me.taken = (s.readers r).taken + 1)
    (hidx : me.currentIdx = ((s.readers r).currentIdx + 1) % cfg.maxChunks)
    (hok : ReaderOk cfg pk (s.mem.setRead (s.readers r).currentIdx r true) s.log r me)
    (hdelivered : Delivered cfg pk s.log (Broadcast.sent s.log s.writer) (s.sockets r) me) :
    Inv cfg pk ({ s with mem := s.mem.setRead (s.readers r).currentIdx r true }.setReader r me) := by
  have hnow : ({ s with mem := s.mem.setRead (s.readers r).currentIdx r true }.setReader r me).taken =
      update s.taken r (s.taken r + 1) := by
    rw [taken_setReader, htaken]
    rfl
  have hchunk := h.readIdx r
  refine ⟨?_, h.writeIdx, ?_, ?_, ?_, ?_⟩
  · rw [hnow]
    rw [hchunk]
    exact h.ring.release hlt
  · refine forall_setReader (P := fun _ me => me.currentIdx = me.taken % cfg.maxChunks) ?_ fun r' _ => h.readIdx r'
    rw [hidx, htaken, h.readIdx r, mod_add_mod]
  · rw [hnow]
    rw [hchunk]
    exact h.writer.release h hlt
  · refine forall_setReader
      (P := fun r' me => ReaderOk cfg pk (s.mem.setRead (s.readers r).currentIdx r true) s.log r' me) hok
      fun r' hr' => (h.readers r').release hr'
  · exact forall_setReader
      (P := fun r' me => Delivered cfg pk s.log (Broadcast.sent s.log s.writer) (s.sockets r') me) hdelivered
      fun r' _ => h.delivered r'

/-- The object that the socket has next for a reader is the one it waits for. -/
theorem Inv.received {buffers : Buffer × List Buffer} {rest : List (Buffer × List Buffer)}
    (hpc : (s.readers r).pc = .recv) (hsocket : s.sockets r = buffers :: rest) :
    Inv cfg pk ({ s with sockets := update s.sockets r rest }.setReader r { s.readers r with
      pc := .idle, got := (s.readers r).got ++ [pk.loads buffers.1 buffers.2] }) := by
  have hok := h.readers r
  unfold ReaderOk at hok
  rw [hpc] at hok
  obtain ⟨k, obj, hk, hobj, hover⟩ := hok
  obtain ⟨hgot, hqueue⟩ := h.delivered r
  have hreturned : (s.readers r).returned = k := by
    unfold Reader.returned
    rw [hpc, hk]
    rfl
  rw [hreturned] at hgot hqueue
  have htake : s.log.take (k + 1) = s.log.take k ++ [obj] := by
    rw [take_add_one, hobj]
    rfl
  have hone : overflowed cfg pk [obj] = [pk.dumps oobCallback obj] := by
    unfold overflowed
    rw [filter_cons_of_pos hover]
    rfl
  -- what has been sent is a beginning of what goes over the socket
  have hall : overflowed cfg pk s.log =
      overflowed cfg pk (s.log.take k) ++ pk.dumps oobCallback obj :: overflowed cfg pk (s.log.drop (k + 1)) := by
    conv_lhs => rw [← take_append_drop (k + 1) s.log, htake]
    rw [overflowed_append, overflowed_append, hone, append_assoc]
    rfl
  have hinitial : overflowed cfg pk (Broadcast.sent s.log s.writer) <+: overflowed cfg pk s.log :=
    ((sent_initial s.log s.writer).filter _).map _
  have hbuffers : buffers = pk.dumps oobCallback obj := by
    rw [← hqueue, hsocket, hall] at hinitial
    exact (cons_prefix_cons.1 ((prefix_append_right_inj _).1 hinitial)).1
  have htaken : ({ s with sockets := update s.sockets r rest }.setReader r { s.readers r with
      pc := .idle, got := (s.readers r).got ++ [pk.loads buffers.1 buffers.2] }).taken = s.taken := by
    rw [taken_setReader]
    exact update_eq_self r s.taken
  refine ⟨?_, h.writeIdx, ?_, ?_, ?_, ?_⟩
  · rw [htaken]
    exact h.ring
  · exact forall_setReader (P := fun _ me => me.currentIdx = me.taken % cfg.maxChunks) (h.readIdx r)
      fun r' _ => h.readIdx r'
  · rw [htaken]
    exact h.writer
  · exact forall_setReader (P := fun r' me => ReaderOk cfg pk s.mem s.log r' me) trivial fun r' _ => h.readers r'
  refine forall_setReader (P := fun r' me => Delivered cfg pk s.log (Broadcast.sent s.log s.writer)
    (update s.sockets r rest r') me) ⟨?_, ?_⟩ fun r' hr' => ?_
  · show (s.readers r).got ++ [pk.loads buffers.1 buffers.2] = s.log.take (s.readers r).taken
    rw [hk, htake, hgot, hbuffers, pk.loads_dumps]
  · show overflowed cfg pk (s.log.take (s.readers r).taken) ++ update s.sockets r rest r = _
    rw [update_self, ← hqueue, hsocket, hbuffers, hk, htake, overflowed_append, hone, append_assoc]
    rfl
  · rw [update_of_ne hr']
    exact h.delivered r'

theorem Inv.readStep (hstep : readStep cfg pk s r = some s') : Inv cfg pk s' := by
  have hok := h.readers r
  have hreturned {pc : ReaderPc Obj} (hpc : (s.readers r).pc = pc) (hne : pc ≠ .recv) :
      (s.readers r).returned = (s.readers r).taken := by
    unfold Reader.returned
    rw [hpc]
    split
    · exact absurd rfl hne
    · rfl
  unfold ReaderOk at hok
  unfold Broadcast.readStep at hstep
  dsimp only at hstep
  split at hstep
  · cases hstep
  next hpc => -- the own flag
    cases hstep
    exact h.readOn rfl rfl rfl (hreturned hpc nofun).symm id
  next readFlag hpc => -- the written flag
    rw [hpc] at hok
    split_ifs at hstep with hready
    · cases hstep
      exact h.readOn rfl rfl rfl (hreturned hpc nofun).symm trivial
    cases hstep
    refine h.readOn rfl rfl rfl (hreturned hpc nofun).symm ⟨?_, zero_le _, rfl⟩
    -- the chunk of a message that the reader has taken is not ready for it
    have hflag := hok (eq_false_iff.2 fun hf => hready (.inr hf))
    have hwritten : s.mem.writtenFlag (s.readers r).currentIdx := by
      by_contra hw
      exact hready (.inl (eq_false_iff.2 hw))
    by_contra hge
    have hall : (s.readers r).taken = s.log.length := le_antisymm (h.ring.behind r) (not_lt.1 hge)
    rw [h.readIdx r, hall] at hflag hwritten
    have hpos := cfg.maxChunks_pos
    have hread := (h.ring.next_flag hwritten r).2 (show s.log.length < (s.readers r).taken + cfg.maxChunks by omega)
    cases hflag.symm.trans hread
  next hpc =>
    cases hstep
    exact h.readOn rfl rfl rfl (hreturned hpc nofun).symm trivial
  next bytes hpc => -- one byte of the chunk
    rw [hpc] at hok
    obtain ⟨hlt, hlen, hbytes⟩ := hok
    split_ifs at hstep with hmore
    · cases hstep
      refine h.readOn rfl rfl rfl (hreturned hpc nofun).symm ⟨hlt, ?_, ?_⟩
      · rw [length_append]
        exact hmore
      · rw [length_append, length_singleton, range_succ, map_append, ← hbytes]
        rfl
    cases hstep
    refine h.readOn rfl rfl rfl (hreturned hpc nofun).symm ?_
    obtain ⟨obj, hobj⟩ : ∃ obj, s.log[(s.readers r).taken]? = some obj := ⟨_, getElem?_eq_getElem hlt⟩
    refine ⟨obj, hobj, ?_⟩
    have hstored := (h.ring.occupied hlt).stored obj hobj
    have hchunk := h.readIdx r
    have hsize : bytes.length = cfg.maxChunkBytes := by omega
    rw [hsize, hchunk] at hbytes
    rw [hbytes]
    exact hstored
  next found hpc => -- the chunk is given back
    rw [hpc] at hok
    obtain ⟨obj, hobj, rfl⟩ := hok
    obtain ⟨hlt, _⟩ := List.getElem?_eq_some_iff.1 hobj
    obtain ⟨hgot, hsocket⟩ := h.delivered r
    rw [hreturned hpc nofun] at hgot hsocket
    have htake : s.log.take ((s.readers r).taken + 1) = s.log.take (s.readers r).taken ++ [obj] := by
      rw [take_add_one, hobj]
      rfl
    unfold message at hstep
    by_cases hover : overflows cfg pk obj
    · rw [if_pos hover] at hstep
      cases hstep
      exact h.release hlt rfl rfl ⟨_, obj, rfl, hobj, hover⟩ ⟨hgot, hsocket⟩
    rw [if_neg hover] at hstep
    cases hstep
    have hnone : overflowed cfg pk [obj] = [] := by
      unfold overflowed
      rw [filter_cons_of_neg hover]
      rfl
    refine h.release hlt rfl rfl trivial ⟨?_, ?_⟩
    · show (s.readers r).got ++ [obj] = s.log.take ((s.readers r).taken + 1)
      rw [htake, hgot]
    · show overflowed cfg pk (s.log.take ((s.readers r).taken + 1)) ++ s.sockets r = _
      rw [htake, overflowed_append, hnone, append_nil]
      exact hsocket
  next hpc =>
    split at hstep
    · cases hstep
    next hsocket =>
      cases hstep
      exact h.received hpc hsocket

/-- Every step keeps the invariant, except that a reader gives up on an overflow message. -/
theorem Inv.step {a : Action Obj cfg.nReader}
    (hquiet : ∀ r, a = .timeout r → (s.readers r).pc ≠ .recv) (hstep : step cfg pk s a = some s') : Inv cfg pk s' := by
  cases a with
  | enqueue obj =>
    unfold Broadcast.step at hstep
    dsimp only at hstep
    split at hstep
    next hidle =>
      cases hstep
      exact h.goOn ⟨zero_le _, le_refl _, fun _ r hr => absurd hr (not_lt_zero _)⟩ hidle rfl
    · cases hstep
  | write => exact h.writeStep hstep
  | dequeue r =>
    unfold Broadcast.step at hstep
    dsimp only at hstep
    split at hstep
    next hidle =>
      cases hstep
      refine h.readOn rfl rfl rfl ?_ trivial
      unfold Reader.returned
      rw [hidle]
    · cases hstep
  | read r => exact h.readStep hstep
  | timeout r =>
    have hpc := hquiet r rfl
    unfold Broadcast.step timeoutStep at hstep
    dsimp only at hstep
    split at hstep
    next hwait =>
      cases hstep
      refine h.readOn rfl rfl rfl ?_ trivial
      unfold Reader.returned
      rw [hwait]
    next hrecv _ => exact absurd hrecv hpc
    · cases hstep

end

theorem inv_start : Inv cfg pk {} := by
  refine ⟨?_, (zero_mod _).symm, fun _ => (zero_mod _).symm, trivial, fun _ => trivial, fun _ => ⟨rfl, rfl⟩⟩
  refine ⟨fun _ => le_refl _, fun _ => zero_le _, fun k hk => absurd hk (not_lt_zero _), ?_, ?_, fun _ _ _ => rfl⟩
  · intro hwritten
    cases hwritten
  · intro _ r
    exact Nat.add_pos_right _ cfg.maxChunks_pos

/-- In a run in which no reader gives up on an overflow message, the invariant holds in every state. -/
theorem Inv.run {P : System Obj cfg.nReader → Action Obj cfg.nReader → Prop}
    (hquiet : ∀ s a, P s a → ∀ r, a = .timeout r → (s.readers r).pc ≠ .recv) (h : Inv cfg pk s)
    (hrun : Runs cfg pk P s s') : Inv cfg pk s' := by
  induction hrun with
  | refl => exact h
  | tail _ hstep ih =>
    obtain ⟨a, ha, hstep⟩ := hstep
    exact ih.step (hquiet _ a ha) hstep

end Lemmas

end VllmRwkv.Broadcast
