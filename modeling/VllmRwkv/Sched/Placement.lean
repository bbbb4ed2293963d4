import VllmRwkv.Sched.CallEffects

/-!
# Where requests wait and run

`Placed c q`: every request in a queue is unfinished, has the status of its queue and is there once;
if `c` holds, every unfinished request is in a queue. `Placed.moves` and `Placed.retable` say when a
change to one request, or to the table alone, keeps this; the lemmas after them cover the calls
of the scheduler that are not loops.
-/

namespace VllmRwkv

open List Dict Request

variable {H : Type} {n : ℕ}

namespace Queues

section

variable (q : Queues H)

/-- The requests of all queues. -/
def seats : List RequestId := q.running ++ (q.waiting ++ q.kvHolding)

/-- Every request in a queue has a status that the queue allows, and none is in two places. -/
structure Seated : Prop where
  keyed : ∀ id r, q.requests.get? id = some r → r.requestId = id
  nodup : q.seats.Nodup
  running : ∀ id ∈ q.running, ∃ r, q.requests.get? id = some r ∧ r.status = .running
  waiting : ∀ id ∈ q.waiting ++ q.kvHolding, ∃ r, q.requests.get? id = some r ∧ r.status.isWaiting

/-- The request is in the queue that its status asks for. -/
structure HasSeat (id : RequestId) (r : Request H) : Prop where
  running : r.status = .running → id ∈ q.running
  waiting : r.status.isWaiting → id ∈ q.waiting ++ q.kvHolding
  holding : r.status.isWaiting → r.holdsKvBlocks → id ∈ q.kvHolding

/-- Queues and statuses agree; with `c`, no unfinished request is left out. -/
structure Placed (c : Prop) (q : Queues H) : Prop where
  seated : q.Seated
  complete : c → ∀ id r, q.requests.get? id = some r → q.HasSeat id r

/-- The scheduler's count of the sessions that wait for input. -/
def Counted : Prop :=
  q.streaming = q.requests.countVals fun r => r.status = .waitingForStreamingReq

end

variable {c : Prop} {q q' : Queues H} {id : RequestId} {r r' : Request H}

theorem Seated.status_of_running (h : q.Seated) (hr : q.requests.get? id = some r) (hid : id ∈ q.running) :
    r.status = .running := by
  obtain ⟨r₁, hr₁, hrun⟩ := h.running id hid
  cases hr.symm.trans hr₁
  exact hrun

theorem Seated.status_of_waiting (h : q.Seated) (hr : q.requests.get? id = some r)
    (hid : id ∈ q.waiting ++ q.kvHolding) : r.status.isWaiting := by
  obtain ⟨r₁, hr₁, hwait⟩ := h.waiting id hid
  cases hr.symm.trans hr₁
  exact hwait

/-- A running request is in no waiting queue. -/
theorem Seated.not_waiting (h : q.Seated) (hr : q.requests.get? id = some r) (hrun : r.status = .running) :
    id ∉ q.waiting ++ q.kvHolding := by
  intro hin
  have hwait := h.status_of_waiting hr hin
  rw [hrun] at hwait
  cases hwait

theorem Seated.nodup_running (h : q.Seated) : q.running.Nodup := (nodup_append.1 h.nodup).1

/-- The order inside the waiting queues does not matter. -/
theorem Placed.equiv (h : Placed c q) (he : q.Equiv q') : Placed c q' := by
  obtain ⟨hreq, hrun, hwait, hkv, _⟩ := he
  have hmem : ∀ id, id ∈ q'.waiting ++ q'.kvHolding ↔ id ∈ q.waiting ++ q.kvHolding := fun id =>
    (hwait.append hkv).mem_iff
  refine ⟨⟨?_, ?_, ?_, ?_⟩, fun hc id r hr => ?_⟩
  · rw [hreq]
    exact h.seated.keyed
  · have hperm : q'.seats.Perm q.seats := by
      unfold seats
      rw [hrun]
      exact (hwait.append hkv).append_left _
    exact hperm.nodup_iff.2 h.seated.nodup
  · rw [hreq, hrun]
    exact h.seated.running
  · intro id hid
    rw [hreq]
    exact h.seated.waiting id ((hmem id).1 hid)
  rw [hreq] at hr
  have hseat := h.complete hc id r hr
  refine ⟨fun hs => ?_, fun hs => (hmem id).2 (hseat.waiting hs), fun hs hh => ?_⟩
  · rw [hrun]
    exact hseat.running hs
  · exact hkv.mem_iff.2 (hseat.holding hs hh)

theorem Counted.equiv (h : Counted q) (he : q.Equiv q') : Counted q' := by
  unfold Counted
  rw [he.streaming, he.requests]
  exact h

/-! ## Changing the table only -/

/-- The two requests belong into the same queue. -/
structure SameSeat (r r' : Request H) : Prop where
  requestId : r'.requestId = r.requestId
  running : r'.status = .running ↔ r.status = .running
  waiting : r'.status.isWaiting = r.status.isWaiting
  streaming : r'.status = .waitingForStreamingReq ↔ r.status = .waitingForStreamingReq

theorem SameSeat.of_status (hid : r'.requestId = r.requestId) (hstatus : r'.status = r.status) :
    SameSeat r r' := ⟨hid, by rw [hstatus], by rw [hstatus], by rw [hstatus]⟩

/-- The table has changed at requests that keep their queue, and finished ones may have gone. -/
structure Retabled (q q' : Queues H) : Prop where
  old : ∀ id r, q.requests.get? id = some r → (∃ r', q'.requests.get? id = some r' ∧ SameSeat r r' ∧
      (r.status.isWaiting → r'.holdsKvBlocks → r.holdsKvBlocks ∨ id ∈ q.kvHolding)) ∨
    (q'.requests.get? id = none ∧ r.isFinished)
  new : ∀ id, q.requests.get? id = none → q'.requests.get? id = none
  running : q'.running = q.running
  waiting : q'.waiting = q.waiting
  kvHolding : q'.kvHolding = q.kvHolding

theorem isFinished_of_running (h : r.status = .running) : r.isFinished = false := by
  unfold isFinished
  rw [h]
  rfl

theorem isFinished_of_waiting (h : r.status.isWaiting) : r.isFinished = false := by
  unfold isFinished
  cases hs : r.status <;> rw [hs] at h <;> first | rfl | cases h

theorem HasSeat.of_finished (hfin : r.isFinished) : HasSeat q id r := by
  refine ⟨fun hs => ?_, fun hs => ?_, fun hs => ?_⟩
  · rw [isFinished_of_running hs] at hfin
    cases hfin
  all_goals
    rw [isFinished_of_waiting hs] at hfin
    cases hfin

theorem Retabled.back (h : q.Retabled q') (hr : q'.requests.get? id = some r') :
    ∃ r, q.requests.get? id = some r ∧ SameSeat r r' ∧
      (r.status.isWaiting → r'.holdsKvBlocks → r.holdsKvBlocks ∨ id ∈ q.kvHolding) := by
  cases hq : q.requests.get? id with
  | none =>
    rw [h.new id hq] at hr
    cases hr
  | some r =>
    rcases h.old id r hq with ⟨r'', hr'', hseat, hholds⟩ | ⟨hnone, _⟩
    · cases hr''.symm.trans hr
      exact ⟨r, rfl, hseat, hholds⟩
    · cases hnone.symm.trans hr

theorem Placed.retable (h : Placed c q) (ht : q.Retabled q') : Placed c q' := by
  refine ⟨⟨fun id r' hr' => ?_, ?_, fun id hid => ?_, fun id hid => ?_⟩, fun hc id r' hr' => ?_⟩
  · obtain ⟨r, hr, hseat, _⟩ := ht.back hr'
    rw [hseat.requestId]
    exact h.seated.keyed id r hr
  · unfold seats
    rw [ht.running, ht.waiting, ht.kvHolding]
    exact h.seated.nodup
  · rw [ht.running] at hid
    obtain ⟨r, hr, hrun⟩ := h.seated.running id hid
    rcases ht.old id r hr with ⟨r', hr', hseat, _⟩ | ⟨_, hfin⟩
    · exact ⟨r', hr', hseat.running.2 hrun⟩
    · rw [isFinished_of_running hrun] at hfin
      cases hfin
  · rw [ht.waiting, ht.kvHolding] at hid
    obtain ⟨r, hr, hwait⟩ := h.seated.waiting id hid
    rcases ht.old id r hr with ⟨r', hr', hseat, _⟩ | ⟨_, hfin⟩
    · exact ⟨r', hr', hseat.waiting.trans hwait⟩
    · rw [isFinished_of_waiting hwait] at hfin
      cases hfin
  obtain ⟨r, hr, hseat, hholds⟩ := ht.back hr'
  have hplace := h.complete hc id r hr
  refine ⟨fun hs => ?_, fun hs => ?_, fun hs hh => ?_⟩
  · rw [ht.running]
    exact hplace.running (hseat.running.1 hs)
  · rw [ht.waiting, ht.kvHolding]
    exact hplace.waiting (hseat.waiting.symm.trans hs)
  rw [ht.kvHolding]
  have hwait := hseat.waiting.symm.trans hs
  rcases hholds hwait hh with hold | hin
  · exact hplace.holding hwait hold
  · exact hin

theorem Counted.retable (h : Counted q) (ht : q.Retabled q') (hstr : q'.streaming = q.streaming) : Counted q' := by
  unfold Counted
  rw [hstr, show q.streaming = _ from h]
  congr 1
  refine (countVals_congr fun id => ?_).symm
  cases hr : q.requests.get? id with
  | none => rw [ht.new id hr]
  | some r =>
    rcases ht.old id r hr with ⟨r', hr', hseat, _⟩ | ⟨hnone, hfin⟩
    · rw [hr']
      exact decide_eq_decide.2 hseat.streaming
    rw [hnone]
    have hne : r.status ≠ .waitingForStreamingReq := by
      intro hs
      rw [isFinished_of_waiting (by rw [hs]; rfl)] at hfin
      cases hfin
    simp [hne]

theorem Retabled.of_put (hr : q.requests.get? id = some r) (hseat : SameSeat r r')
    (hholds : r.status.isWaiting → r'.holdsKvBlocks → r.holdsKvBlocks ∨ id ∈ q.kvHolding) :
    q.Retabled (q.put id r') where
  old := fun id' r₁ hr₁ => by
    by_cases hid : id' = id
    · subst hid
      obtain rfl := Option.some.inj (hr.symm.trans hr₁)
      exact Or.inl ⟨r', get?_set_self, hseat, hholds⟩
    · exact Or.inl ⟨r₁, (get?_set_of_ne hid).trans hr₁, .of_status rfl rfl, fun _ hh => Or.inl hh⟩
  new := fun id' hnone => by
    have hne : id' ≠ id := fun heq => by
      rw [heq, hr] at hnone
      cases hnone
    exact (get?_set_of_ne hne).trans hnone
  running := rfl
  waiting := rfl
  kvHolding := rfl

theorem Retabled.of_alter {f : RequestId → Request H → Request H}
    (hf : ∀ id r, q.requests.get? id = some r → SameSeat r (f id r) ∧
      (r.status.isWaiting → (f id r).holdsKvBlocks → r.holdsKvBlocks ∨ id ∈ q.kvHolding)) : q.Retabled (q.alter f) where
  old := fun id r hr => by
    refine Or.inl ⟨f id r, ?_, hf id r hr⟩
    show (q.requests.get? id).map (f id) = _
    rw [hr]
    rfl
  new := fun id hnone => by
    show (q.requests.get? id).map (f id) = _
    rw [hnone]
    rfl
  running := rfl
  waiting := rfl
  kvHolding := rfl

theorem Recomputed.retabled (h : q.Recomputed q') (hs : q.Seated) : q.Retabled q' where
  old := fun id r hr => by
    obtain ⟨k, hk, hwhy⟩ := h.request id r hr
    refine Or.inl ⟨_, hk, .of_status rfl rfl, fun hwait hh => ?_⟩
    rcases hwhy with rfl | hrun | hload
    · exact Or.inl hh
    · have hstatus := hs.status_of_running hr hrun
      rw [hstatus] at hwait
      cases hwait
    · left
      unfold holdsKvBlocks
      simp [hload]
  new := fun id hnone => by
    rw [← not_mem_keys_iff] at hnone ⊢
    rw [h.keys]
    exact hnone
  running := h.running
  waiting := h.waiting
  kvHolding := h.kvHolding

theorem Forgotten.retabled (h : q.Forgotten q') : q.Retabled q' where
  old := fun id r hr => by
    rcases h.request id with heq | ⟨hnone, r₁, hr₁, hfin⟩
    · exact Or.inl ⟨r, heq.trans hr, .of_status rfl rfl, fun _ hh => Or.inl hh⟩
    · obtain rfl := Option.some.inj (hr.symm.trans hr₁)
      exact Or.inr ⟨hnone, hfin⟩
  new := fun id hnone => by
    rcases h.request id with heq | ⟨hnone', _⟩
    · exact heq.trans hnone
    · exact hnone'
  running := h.running
  waiting := h.waiting
  kvHolding := h.kvHolding

/-! ## Moving one request -/

section Enqueue

variable {holds : Bool}

@[simp] theorem requests_enqueue : (q.enqueue id holds).requests = q.requests := by cases holds <;> rfl

@[simp] theorem running_enqueue : (q.enqueue id holds).running = q.running := by cases holds <;> rfl

@[simp] theorem streaming_enqueue : (q.enqueue id holds).streaming = q.streaming := by cases holds <;> rfl

theorem mem_waiting_enqueue {id' : RequestId} (hne : id' ≠ id) :
    id' ∈ (q.enqueue id holds).waiting ↔ id' ∈ q.waiting := by
  cases holds
  · exact mem_cons.trans (or_iff_right hne)
  · exact Iff.rfl

theorem mem_kvHolding_enqueue {id' : RequestId} (hne : id' ≠ id) :
    id' ∈ (q.enqueue id holds).kvHolding ↔ id' ∈ q.kvHolding := by
  cases holds
  · exact Iff.rfl
  · exact mem_cons.trans (or_iff_right hne)

theorem mem_enqueue_self : id ∈ (q.enqueue id holds).waiting ++ (q.enqueue id holds).kvHolding := by
  cases holds
  · exact mem_append_left _ mem_cons_self
  · exact mem_append_right _ mem_cons_self

theorem seats_enqueue : (q.enqueue id holds).seats.Perm (id :: q.seats) := by
  cases holds
  · exact perm_middle
  · exact (perm_middle.append_left _).trans perm_middle

end Enqueue

/-- At most the request `id` has changed, and it may have moved. -/
structure Moves (id : RequestId) (q q' : Queues H) : Prop where
  others : ∀ id', id' ≠ id → q'.requests.get? id' = q.requests.get? id'
  running : ∀ id', id' ≠ id → (id' ∈ q'.running ↔ id' ∈ q.running)
  waiting : ∀ id', id' ≠ id → (id' ∈ q'.waiting ↔ id' ∈ q.waiting)
  kvHolding : ∀ id', id' ≠ id → (id' ∈ q'.kvHolding ↔ id' ∈ q.kvHolding)
  nodup : q'.seats.Nodup

/-- If the request is where it belongs, everything is. -/
theorem Placed.moves (h : Placed c q) (id : RequestId) (hm : Moves id q q')
    (hkeyed : ∀ r, q'.requests.get? id = some r → r.requestId = id)
    (hrun : id ∈ q'.running → ∃ r, q'.requests.get? id = some r ∧ r.status = .running)
    (hwait : id ∈ q'.waiting ++ q'.kvHolding → ∃ r, q'.requests.get? id = some r ∧ r.status.isWaiting)
    (hseat : c → ∀ r, q'.requests.get? id = some r → q'.HasSeat id r) : Placed c q' := by
  have hmem : ∀ id', id' ≠ id → (id' ∈ q'.waiting ++ q'.kvHolding ↔ id' ∈ q.waiting ++ q.kvHolding) := by
    intro id' hne
    rw [mem_append, mem_append, hm.waiting id' hne, hm.kvHolding id' hne]
  refine ⟨⟨fun id' r hr => ?_, hm.nodup, fun id' hid' => ?_, fun id' hid' => ?_⟩, fun hc id' r hr => ?_⟩
  · by_cases hne : id' = id
    · subst hne
      exact hkeyed r hr
    · rw [hm.others id' hne] at hr
      exact h.seated.keyed id' r hr
  · by_cases hne : id' = id
    · subst hne
      exact hrun hid'
    · rw [hm.others id' hne]
      exact h.seated.running id' ((hm.running id' hne).1 hid')
  · by_cases hne : id' = id
    · subst hne
      exact hwait hid'
    · rw [hm.others id' hne]
      exact h.seated.waiting id' ((hmem id' hne).1 hid')
  by_cases hne : id' = id
  · subst hne
    exact hseat hc r hr
  rw [hm.others id' hne] at hr
  have hplace := h.complete hc id' r hr
  exact ⟨fun hs => (hm.running id' hne).2 (hplace.running hs), fun hs => (hmem id' hne).2 (hplace.waiting hs),
    fun hs hh => (hm.kvHolding id' hne).2 (hplace.holding hs hh)⟩

/-- A waiting request with another status that waits as well. -/
theorem Placed.put_waiting (h : Placed c q) (hr : q.requests.get? id = some r)
    (hid : r'.requestId = id) (hwait : r.status.isWaiting) (hwait' : r'.status.isWaiting)
    (hholds : r'.holdsKvBlocks → r.holdsKvBlocks) : Placed c (q.put id r') := by
  have hself : (q.put id r').requests.get? id = some r' := get?_set_self
  refine h.moves id ⟨fun id' hne => get?_set_of_ne hne, fun _ _ => Iff.rfl, fun _ _ => Iff.rfl,
    fun _ _ => Iff.rfl, h.seated.nodup⟩ ?_ ?_ ?_ ?_
  · intro r₁ hr₁
    cases hself.symm.trans hr₁
    exact hid
  · intro hrun
    have hstatus := h.seated.status_of_running hr hrun
    rw [hstatus] at hwait
    cases hwait
  · exact fun _ => ⟨r', hself, hwait'⟩
  · intro hc r₁ hr₁
    cases hself.symm.trans hr₁
    have hplace := h.complete hc id r hr
    refine ⟨fun hs => ?_, fun _ => hplace.waiting hwait, fun _ hh => hplace.holding hwait (hholds hh)⟩
    rw [hs] at hwait'
    cases hwait'

/-- A request that waits enters one of the waiting queues. -/
theorem Placed.enter {q₁ : Queues H} {holds : Bool} (h : Placed c q)
    (hm : Moves id q ((q₁.put id r).enqueue id holds)) (hout : id ∉ q₁.running) (hid : r.requestId = id)
    (hwait : r.status.isWaiting) (hholds : r.holdsKvBlocks → holds) : Placed c ((q₁.put id r).enqueue id holds) := by
  have hself : ((q₁.put id r).enqueue id holds).requests.get? id = some r := by
    rw [requests_enqueue]
    exact get?_set_self
  refine h.moves id hm (fun r₁ hr₁ => ?_) (fun hrun => ?_) (fun _ => ⟨r, hself, hwait⟩) (fun _ r₁ hr₁ => ?_)
  · cases hself.symm.trans hr₁
    exact hid
  · rw [running_enqueue] at hrun
    exact absurd hrun hout
  · cases hself.symm.trans hr₁
    refine ⟨fun hs => ?_, fun _ => mem_enqueue_self, fun _ hh => ?_⟩
    · rw [hs] at hwait
      cases hwait
    · rw [hholds hh]
      exact mem_cons_self

variable {running : List RequestId}

/-- A request that does not wait yet enters one of the waiting queues, and leaves `running` if it is
there. -/
theorem Placed.toWaiting {streaming : ℤ} {holds : Bool} (h : Placed c q)
    (hnot : id ∉ q.waiting ++ q.kvHolding) (hnodup : running.Nodup)
    (hrunning : ∀ id', id' ∈ running ↔ id' ≠ id ∧ id' ∈ q.running) (hid : r.requestId = id)
    (hwait : r.status.isWaiting) (hholds : r.holdsKvBlocks → holds) :
    Placed c (({ q with running := running, streaming := streaming }.put id r).enqueue id holds) := by
  have hout : id ∉ running := fun hin => ((hrunning id).1 hin).1 rfl
  refine h.enter ⟨fun id' hne => ?_, fun id' hne => ?_, fun _ hne => mem_waiting_enqueue hne,
    fun _ hne => mem_kvHolding_enqueue hne, ?_⟩ hout hid hwait hholds
  · rw [requests_enqueue]
    exact get?_set_of_ne hne
  · rw [running_enqueue]
    exact (hrunning id').trans (and_iff_right hne)
  · refine seats_enqueue.nodup_iff.2 (nodup_cons.2 ⟨fun hin => ?_, nodup_append.2 ⟨hnodup, ?_, ?_⟩⟩)
    · exact (mem_append.1 hin).elim hout hnot
    · exact (nodup_append.1 h.seated.nodup).2.1
    · intro a ha
      exact (nodup_append.1 h.seated.nodup).2.2 a ((hrunning a).1 ha).2

/-- A waiting request goes to the waiting queue that it now belongs to. -/
theorem Placed.reenter {holds holds' : Bool} (h : Placed c (q.enqueue id holds)) (hid : r.requestId = id)
    (hwait : r.status.isWaiting) (hholds : r.holdsKvBlocks → holds') : Placed c ((q.put id r).enqueue id holds') := by
  have hnodup := seats_enqueue.nodup_iff.1 h.seated.nodup
  refine h.enter ⟨fun id' hne => ?_, fun _ _ => ?_, fun _ hne => ?_, fun _ hne => ?_, ?_⟩
    (fun hrun => (nodup_cons.1 hnodup).1 (mem_append_left _ hrun)) hid hwait hholds
  · rw [requests_enqueue, requests_enqueue]
    exact get?_set_of_ne hne
  · rw [running_enqueue, running_enqueue]
    exact Iff.rfl
  · rw [mem_waiting_enqueue hne, mem_waiting_enqueue hne]
    exact Iff.rfl
  · rw [mem_kvHolding_enqueue hne, mem_kvHolding_enqueue hne]
    exact Iff.rfl
  · exact seats_enqueue.nodup_iff.2 hnodup

theorem Placed.vacate (h : Placed c q) (id : RequestId)
    (hothers : ∀ id', id' ≠ id → q'.requests.get? id' = q.requests.get? id')
    (hself : ∀ r', q'.requests.get? id = some r' → r'.requestId = id ∧ (c → r'.isFinished))
    (hrun : q'.running = q.running.filter (· ≠ id)) (hwait : q'.waiting = q.waiting.filter (· ≠ id))
    (hkv : q'.kvHolding = q.kvHolding.filter (· ≠ id)) : Placed c q' := by
  have hmem : ∀ {l l' : List RequestId}, l' = l.filter (· ≠ id) → ∀ id', id' ≠ id → (id' ∈ l' ↔ id' ∈ l) := by
    intro l l' hl id' hne
    rw [hl, mem_filter, decide_eq_true_eq]
    exact and_iff_left hne
  have hseats : q'.seats = q.seats.filter (· ≠ id) := by
    unfold seats
    rw [hrun, hwait, hkv, filter_append, filter_append]
  have hout : id ∉ q'.seats := by
    rw [hseats, mem_filter, decide_eq_true_eq]
    exact fun hin => hin.2 rfl
  refine h.moves id ⟨hothers, hmem hrun, hmem hwait, hmem hkv, ?_⟩ (fun r' hr' => (hself r' hr').1)
    (fun hin => absurd (mem_append_left _ hin) hout)
    (fun hin => absurd (mem_append_right _ hin) hout) (fun hc r' hr' => .of_finished ((hself r' hr').2 hc))
  rw [hseats]
  exact h.seated.nodup.filter _

theorem Placed.preempt {drop : Bool} (h : Placed c q)
    (hr : q.requests.get? id = some r) (hperm : q.running.Perm (id :: running)) :
    Placed c (({ q with running := running }.put id (r.preempt drop)).enqueue id false) := by
  have hin : id ∈ q.running := hperm.mem_iff.2 mem_cons_self
  have hnodup := nodup_cons.1 (hperm.nodup_iff.1 h.seated.nodup_running)
  refine h.toWaiting (fun hwait => (nodup_append.1 h.seated.nodup).2.2 _ hin _ hwait rfl) hnodup.2 (fun id' => ?_)
    (h.seated.keyed id r hr) rfl fun hh => ?_
  · rw [hperm.mem_iff, mem_cons]
    constructor
    · intro hin'
      exact ⟨fun heq => hnodup.1 (heq ▸ hin'), .inr hin'⟩
    · rintro ⟨hne, heq | hin'⟩
      · exact absurd heq hne
      · exact hin'
  · cases hh

theorem Placed.start {fromKvHolding : Bool} (h : Placed c (q.enqueue id fromKvHolding))
    (hid : r.requestId = id) (hrun : r.status = .running) :
    Placed c { q.put id r with running := q.running ++ [id] } := by
  have hnodup := seats_enqueue.nodup_iff.1 h.seated.nodup
  have hself : ({ q.put id r with running := q.running ++ [id] } : Queues H).requests.get? id = some r :=
    get?_set_self
  refine h.moves id ⟨fun id' hne => ?_, fun id' hne => ?_, fun id' hne => ?_, fun id' hne => ?_, ?_⟩
    (fun r₁ hr₁ => ?_) (fun _ => ⟨r, hself, hrun⟩) (fun hin => ?_) (fun _ r₁ hr₁ => ?_)
  · rw [requests_enqueue]
    exact get?_set_of_ne hne
  · rw [running_enqueue, mem_append, mem_singleton, or_iff_left hne]
  · exact (mem_waiting_enqueue (q := q) hne).symm
  · exact (mem_kvHolding_enqueue (q := q) hne).symm
  · have hperm : ({ q.put id r with running := q.running ++ [id] } : Queues H).seats.Perm (id :: q.seats) :=
      (perm_append_singleton id q.running).append_right _
    exact hperm.nodup_iff.2 hnodup
  · cases hself.symm.trans hr₁
    exact hid
  · exact absurd (mem_append_right _ hin) (nodup_cons.1 hnodup).1
  · cases hself.symm.trans hr₁
    refine ⟨fun _ => mem_append_right _ (mem_singleton.2 rfl), fun hs => ?_, fun hs => ?_⟩
    · rw [hrun] at hs
      cases hs
    · rw [hrun] at hs
      cases hs

/-! ## Requests that finish -/

section Finished

variable {rs : List (Request H)} {status : RequestStatus}

theorem Finished.not_seated (hf : q.Finished rs status q') (h : q.Seated)
    (hrs : ∀ r ∈ rs, q.requests.get? r.requestId = some r) (hr : r ∈ rs) : r.requestId ∉ q'.seats := by
  have hthis := hrs r hr
  intro hin
  rcases mem_append.1 hin with hin | hin
  · rw [hf.running] at hin
    obtain ⟨hold, hkept⟩ := mem_filter.1 hin
    obtain ⟨r₁, hr₁, hrun⟩ := h.running _ hold
    cases hthis.symm.trans hr₁
    refine of_decide_eq_true hkept (mem_map_of_mem (mem_filter.2 ⟨hr, ?_⟩))
    exact decide_eq_true hrun
  have hmem := (hf.waiting.append hf.kvHolding).mem_iff.1 hin
  have hboth : r.requestId ∈ q.waiting ++ q.kvHolding ∧
      r.requestId ∉ (rs.filter (·.status ≠ .running)).map requestId := by
    rcases mem_append.1 hmem with hmem | hmem
    · exact ⟨mem_append_left _ (mem_filter.1 hmem).1, of_decide_eq_true (mem_filter.1 hmem).2⟩
    · exact ⟨mem_append_right _ (mem_filter.1 hmem).1, of_decide_eq_true (mem_filter.1 hmem).2⟩
  obtain ⟨r₁, hr₁, hwait⟩ := h.waiting _ hboth.1
  cases hthis.symm.trans hr₁
  refine hboth.2 (mem_map_of_mem (mem_filter.2 ⟨hr, decide_eq_true ?_⟩))
  intro hrun
  rw [hrun] at hwait
  cases hwait

theorem Finished.mem_iff (hf : q.Finished rs status q') (hid : id ∉ rs.map requestId) :
    (id ∈ q'.running ↔ id ∈ q.running) ∧ (id ∈ q'.waiting ↔ id ∈ q.waiting) ∧
      (id ∈ q'.kvHolding ↔ id ∈ q.kvHolding) := by
  have hnot (p : Request H → Bool) : id ∉ (rs.filter p).map requestId := fun hin =>
    hid (filter_sublist.map _ |>.subset hin)
  refine ⟨?_, ?_, ?_⟩
  · rw [hf.running]
    exact mem_filter.trans (and_iff_left (decide_eq_true (hnot _)))
  · rw [hf.waiting.mem_iff]
    exact mem_filter.trans (and_iff_left (decide_eq_true (hnot _)))
  · rw [hf.kvHolding.mem_iff]
    exact mem_filter.trans (and_iff_left (decide_eq_true (hnot _)))

theorem Placed.finished (h : Placed c q) (hf : q.Finished rs status q')
    (hrs : ∀ r ∈ rs, q.requests.get? r.requestId = some r) (hstatus : status.isFinished) : Placed c q' := by
  -- a request of the new table is an old one or has finished
  have hback : ∀ id r', q'.requests.get? id = some r' → (id ∉ rs.map requestId ∧
      q.requests.get? id = some r') ∨ (r'.isFinished ∧ r'.requestId = id) := by
    intro id r' hr'
    by_cases hid : id ∈ rs.map requestId
    · right
      obtain ⟨r, hr, rfl⟩ := mem_map.1 hid
      rcases hf.these r hr with hnone | hsome
      · cases hnone.symm.trans hr'
      · cases hsome.symm.trans hr'
        exact ⟨hstatus, rfl⟩
    · exact .inl ⟨hid, (hf.others id hid).symm.trans hr'⟩
  have hin : ∀ id ∈ q'.seats, id ∉ rs.map requestId := by
    intro id hid hmem
    obtain ⟨r, hr, rfl⟩ := mem_map.1 hmem
    exact hf.not_seated h.seated hrs hr hid
  refine ⟨⟨fun id r' hr' => ?_, ?_, fun id hid => ?_, fun id hid => ?_⟩, fun hc id r' hr' => ?_⟩
  · rcases hback id r' hr' with ⟨_, hr⟩ | ⟨_, hid⟩
    · exact h.seated.keyed id r' hr
    · exact hid
  · have hsub : (SchedulerConfig.queuesWithout q rs).seats.Sublist q.seats :=
      filter_sublist.append (filter_sublist.append filter_sublist)
    have hperm : q'.seats.Perm (SchedulerConfig.queuesWithout q rs).seats := by
      unfold seats
      rw [hf.running]
      exact (hf.waiting.append hf.kvHolding).append_left _
    exact hperm.nodup_iff.2 (hsub.nodup h.seated.nodup)
  · have hnot := hin id (mem_append_left _ hid)
    rw [hf.others id hnot]
    exact h.seated.running id ((hf.mem_iff hnot).1.1 hid)
  · have hnot := hin id (mem_append_right _ hid)
    rw [hf.others id hnot]
    refine h.seated.waiting id ?_
    rwa [mem_append, (hf.mem_iff hnot).2.1, (hf.mem_iff hnot).2.2, ← mem_append] at hid
  rcases hback id r' hr' with ⟨hnot, hr⟩ | ⟨hfin, _⟩
  · have hplace := h.complete hc id r' hr
    refine ⟨fun hs => (hf.mem_iff hnot).1.2 (hplace.running hs), fun hs => ?_,
      fun hs hh => (hf.mem_iff hnot).2.2.2 (hplace.holding hs hh)⟩
    rw [mem_append, (hf.mem_iff hnot).2.1, (hf.mem_iff hnot).2.2, ← mem_append]
    exact hplace.waiting hs
  exact .of_finished hfin

theorem Counted.finished (h : Counted q) (hf : q.Finished rs status q')
    (hrs : ∀ r ∈ rs, q.requests.get? r.requestId = some r) (hnodup : (rs.map requestId).Nodup)
    (hstatus : status.isFinished) : Counted q' := by
  let sessions : List RequestId :=
    q.requests.keys.filter fun id => (q.requests.get? id).any fun r => r.status = .waitingForStreamingReq
  have hsessions : sessions.Nodup := q.requests.nodup.filter _
  have hstatus' : status ≠ .waitingForStreamingReq := by
    rintro rfl
    cases hstatus
  -- the sessions that wait now are those of before that have not finished
  have hnow : q'.requests.countVals (fun r => r.status = .waitingForStreamingReq) =
      (sessions.filter (· ∉ rs.map requestId)).length := by
    refine countVals_eq_length (hsessions.filter _) fun id => ?_
    rw [mem_filter, mem_filter_any]
    by_cases hid : id ∈ rs.map requestId
    · obtain ⟨r, hr, rfl⟩ := mem_map.1 hid
      refine iff_of_false (fun hboth => of_decide_eq_true hboth.2 hid) fun hany => ?_
      rcases hf.these r hr with hnone | hsome
      · rw [hnone] at hany
        cases hany
      · rw [hsome] at hany
        exact hstatus' (of_decide_eq_true hany)
    · rw [hf.others id hid]
      exact and_iff_left (decide_eq_true hid)
  have hgone : (sessions.filter (· ∈ rs.map requestId)).length =
      (rs.filter (·.status = .waitingForStreamingReq)).length := by
    rw [← length_map (f := requestId)]
    refine Perm.length_eq ((perm_ext_iff_of_nodup (hsessions.filter _)
      ((filter_sublist.map _).nodup hnodup)).2 fun id => ?_)
    rw [mem_filter, mem_filter_any]
    constructor
    · rintro ⟨hany, hmem⟩
      obtain ⟨r, hr, rfl⟩ := mem_map.1 (of_decide_eq_true hmem)
      rw [hrs r hr] at hany
      exact mem_map_of_mem (mem_filter.2 ⟨hr, hany⟩)
    intro hmem
    obtain ⟨r, hr, rfl⟩ := mem_map.1 hmem
    obtain ⟨hr, hs⟩ := mem_filter.1 hr
    rw [hrs r hr]
    exact ⟨hs, decide_eq_true (mem_map_of_mem hr)⟩
  have hsplit := length_eq_length_filter_add (l := sessions) (fun id => decide (id ∈ rs.map requestId))
  have hbefore : q.requests.countVals (fun r => r.status = .waitingForStreamingReq) = sessions.length :=
    countVals_eq_length hsessions fun id => mem_filter_any
  unfold Counted
  rw [hf.streaming, hnow]
  show q.streaming - _ = _
  rw [show q.streaming = _ from h, hbefore, ← hgone, hsplit]
  simp only [decide_not]
  omega

end Finished

/-! ## Counting sessions -/

theorem Counted.set (h : Counted q) (hr : q.requests.get? id = some r) (hreq : q'.requests = q.requests.set id r')
    (hstr : q'.streaming + (if r.status = .waitingForStreamingReq then 1 else 0) =
      q.streaming + if r'.status = .waitingForStreamingReq then 1 else 0) : Counted q' := by
  have hcount := countVals_set (w := r') (p := fun r => r.status = .waitingForStreamingReq) hr
  unfold Counted at h ⊢
  split at hcount <;> split at hcount <;> simp_all
  all_goals omega

theorem Counted.set_new (h : Counted q) (hr : q.requests.get? id = none)
    (hreq : q'.requests = q.requests.set id r') (hstr : q'.streaming = q.streaming)
    (hnot : r'.status ≠ .waitingForStreamingReq) : Counted q' := by
  unfold Counted at h ⊢
  rw [hreq, countVals_set_new hr, hstr, h]
  simp [hnot]

theorem Counted.erase (h : Counted q) (hr : q.requests.get? id = some r)
    (hnot : r.status ≠ .waitingForStreamingReq) (hreq : q'.requests = q.requests.erase id)
    (hstr : q'.streaming = q.streaming) : Counted q' := by
  have hcount := countVals_erase (p := fun r => r.status = .waitingForStreamingReq) hr
  unfold Counted at h ⊢
  rw [hreq, hstr, h, ← hcount]
  simp [hnot]

end Queues

namespace SchedulerConfig

open Queues

variable {cfg : SchedulerConfig H n} {c : Prop} {s : Scheduler H n} {q q' : Queues H} {id : RequestId}
  {r r' : Request H}

/-! ## Adding requests, and resetting the cache -/

variable {request : Request H}

theorem Placed.added (h : Placed c s.queues) (ha : cfg.Added s request q')
    (hwait : request.status.isWaiting) : Placed c q' := by
  cases ha with
  | new hnone hq =>
    have hout {r : Request H} (hr : s.requests.get? request.requestId = some r) : False := by
      cases hnone.symm.trans hr
    refine Queues.Placed.equiv (h.toWaiting (r := { request with
      streamingQueue := if request.resumable then some [] else none }) (fun hin => ?_) h.seated.nodup_running
      (fun id' => ?_) rfl hwait id) hq
    · obtain ⟨r, hr, _⟩ := h.seated.waiting _ hin
      exact hout hr
    · refine (and_iff_right_of_imp fun hin heq => ?_).symm
      obtain ⟨r, hr, _⟩ := h.seated.running id' hin
      exact hout (heq ▸ hr)
  | queued hsome _ _ hq =>
    subst hq
    exact h.retable (Retabled.of_put (q := s.queues) hsome (.of_status rfl rfl) fun _ hh => .inl hh)
  | @merged existing update hsome hstatus _ hq =>
    have hput : Placed c (s.queues.put request.requestId (cfg.sessionRequest existing update)) := by
      refine h.put_waiting (r := existing) hsome (h.seated.keyed _ existing hsome) (by rw [hstatus]; rfl)
        rfl fun hh => ?_
      -- the merge leaves the computed tokens alone
      have hcomputed : 0 < existing.numComputedTokens := by
        simpa [holdsKvBlocks, sessionRequest, updateBlockHashes] using hh
      simp [holdsKvBlocks, hcomputed]
    subst hq
    exact ⟨⟨hput.seated.keyed, hput.seated.nodup, hput.seated.running, hput.seated.waiting⟩,
      fun hc id r hr => ⟨(hput.complete hc id r hr).running, (hput.complete hc id r hr).waiting,
        (hput.complete hc id r hr).holding⟩⟩
  | ended hsome _ hq =>
    refine h.finished hq (fun r hr => ?_) rfl
    obtain rfl := mem_singleton.1 hr
    rw [h.seated.keyed _ r hsome]
    exact hsome

theorem Counted.added (h : Counted s.queues) (hkeyed : Keyed s.queues)
    (ha : cfg.Added s request q') (hnot : request.status ≠ .waitingForStreamingReq) : Counted q' := by
  cases ha with
  | new hnone hq =>
    refine Queues.Counted.equiv ?_ hq
    have hreq : ((s.queues.put request.requestId { request with
        streamingQueue := if request.resumable then some [] else none }).enqueue request.requestId
          request.holdsKvBlocks).requests = _ := requests_enqueue
    refine h.set_new hnone hreq ?_ hnot
    rw [streaming_enqueue]
    rfl
  | queued hsome hstatus _ hq =>
    subst hq
    exact h.set hsome rfl rfl
  | merged hsome hstatus _ hq =>
    subst hq
    refine h.set hsome rfl ?_
    rw [if_pos hstatus, if_neg (by simp [sessionRequest, updateBlockHashes])]
    show s.numWaitingForStreamingInput - 1 + 1 = s.numWaitingForStreamingInput + 0
    omega
  | ended hsome _ hq =>
    refine h.finished hq (fun r hr => ?_) (nodup_singleton _) rfl
    obtain rfl := mem_singleton.1 hr
    rw [hkeyed _ r hsome]
    exact hsome

theorem Placed.preemptedLast (h : Placed c q) (hp : PreemptedLast q q') : Placed c q' := by
  obtain @⟨id, _, _, hlast, hr, _, hq⟩ := hp
  refine Queues.Placed.equiv (h.preempt hr ?_) hq
  have hsplit := dropLast_append_getLast? id (Option.mem_def.2 hlast)
  have hperm := perm_append_singleton id q.running.dropLast
  rwa [hsplit] at hperm

theorem Counted.preemptedLast (h : Counted q) (hp : PreemptedLast q q') : Counted q' := by
  obtain ⟨_, hr, hstatus, hq⟩ := hp
  refine Queues.Counted.equiv (h.set hr rfl ?_) hq
  rw [if_neg (by rw [hstatus]; simp), if_neg (by simp [preempt])]
  rfl

/-! ## Processing an output -/

theorem filter_ne_self {l : List RequestId} (h : id ∉ l) : l.filter (· ≠ id) = l :=
  filter_eq_self.2 fun _ ha => decide_eq_true fun heq => h (heq ▸ ha)

theorem filter_not_mem_append (l stopped : List RequestId) :
    l.filter (· ∉ stopped ++ [id]) = (l.filter (· ∉ stopped)).filter (· ≠ id) := by
  rw [filter_filter]
  refine filter_congr fun _ _ => ?_
  simp [and_comm]

variable {st st' : Stopped}

theorem settle_equiv (h : q.Equiv q') : (settle st q).Equiv (settle st q') where
  requests := h.requests
  running := by
    show q'.running.filter _ = q.running.filter _
    rw [h.running]
  waiting := h.waiting.filter _
  kvHolding := h.kvHolding.filter _
  streaming := h.streaming

theorem settle_enqueue {holds : Bool} (hnew : id ∉ st.preempted) :
    settle st (q.enqueue id holds) = (settle st q).enqueue id holds := by
  have hcons (l : List RequestId) : (id :: l).filter (· ∉ st.preempted) = id :: l.filter (· ∉ st.preempted) :=
    filter_cons_of_pos (decide_eq_true hnew)
  cases holds
  · show Queues.mk _ _ _ _ _ = Queues.mk _ _ _ _ _
    congr 1
    exact hcons q.waiting
  · show Queues.mk _ _ _ _ _ = Queues.mk _ _ _ _ _
    congr 1
    exact hcons q.kvHolding

/-- A stopped request that was running leaves `running`, any other one the waiting queues. -/
theorem settle_add (wasRunning finished : Bool) : settle (st.add id wasRunning finished) q = if wasRunning then
      { settle st q with running := (settle st q).running.filter (· ≠ id) }
    else { settle st q with
        waiting := (settle st q).waiting.filter (· ≠ id)
        kvHolding := (settle st q).kvHolding.filter (· ≠ id) } := by
  cases wasRunning
  · show Queues.mk _ _ _ _ _ = Queues.mk _ _ _ _ _
    congr 1
    · exact filter_not_mem_append q.waiting st.preempted
    · exact filter_not_mem_append q.kvHolding st.preempted
  · show Queues.mk _ _ _ _ _ = Queues.mk _ _ _ _ _
    congr 1
    exact filter_not_mem_append q.running st.running

/-- The output of a session does not come after a preemption, unless it is dropped. -/
def OnTime (r : Request H) : Prop :=
  r.resumable → r.isFinished ∨ r.status = .running ∨ (0 < r.numStaleOutputTokens ∧ r.dropStaleOutput)

variable {out : SchedulerOutput n} {mro : ModelRunnerOutput} {failed : List RequestId}

/-- The fields that counting an output and undoing drafts leave alone. -/
theorem received_same (cfg : SchedulerConfig H n) (out : SchedulerOutput n) (mro : ModelRunnerOutput)
    (id : RequestId) (r : Request H) : (cfg.received out mro id r).requestId = r.requestId ∧
    (cfg.received out mro id r).status = r.status ∧ (cfg.received out mro id r).resumable = r.resumable ∧
    ((cfg.received out mro id r).holdsKvBlocks → r.holdsKvBlocks) := by
  unfold received rejectDrafts
  dsimp only
  split
  · refine ⟨rfl, rfl, rfl, fun hh => ?_⟩
    unfold holdsKvBlocks at hh ⊢
    rw [Bool.or_eq_true, decide_eq_true_eq, decide_eq_true_eq] at hh ⊢
    refine hh.imp_left fun hpos => ?_
    split at hpos
    · assumption
    · exact hpos
  · exact ⟨rfl, rfl, rfl, fun hh => hh⟩

theorem Checked.same_request {isStale stopped : Bool} (h : cfg.Checked mro id isStale r r' stopped) :
    r'.requestId = r.requestId ∧ r'.numComputedTokens = r.numComputedTokens := by
  obtain ⟨_, _, _, _, _, rfl⟩ := h.extended
  exact ⟨rfl, rfl⟩

/-- A round of `update_from_output` leaves requests and queues in agreement, once what has stopped is
removed. -/
theorem Placed.output (h : Placed c (settle st q))
    (hstep : cfg.OutputStep out mro failed id q st q' st') (hnew : id ∉ st.preempted)
    (hontime : c → ∀ r, q.requests.get? id = some r → OnTime r) : Placed c (settle st' q') := by
  cases hstep with
  | unknown _ => exact h
  | ignored hr _ =>
    exact h.retable (Retabled.of_put hr (.of_status rfl rfl) fun _ hh => .inl hh)
  | @continued r r' hr _ hchecked =>
    obtain ⟨hid, hstatus, _, hholds⟩ := received_same cfg out mro id r
    obtain ⟨hid', hcomputed⟩ := hchecked.same_request
    have hstatus' := (hchecked.continues rfl).trans hstatus
    refine h.retable (Retabled.of_put hr (.of_status (hid'.trans hid) hstatus') fun _ hh => .inl (hholds ?_))
    unfold holdsKvBlocks at hh ⊢
    rw [← hcomputed, ← hchecked.continues rfl]
    exact hh
  | @finished r r' r'' q' hr _ hchecked hend hq =>
    obtain ⟨hid, -, -, -⟩ := received_same cfg out mro id r
    have hfin : r''.isFinished ∧ r''.requestId = id := by
      have hid' := (hchecked.same_request.1.trans hid).trans (h.seated.keyed id r hr)
      rcases hend with rfl | ⟨rest, rfl⟩ <;> exact ⟨hchecked.stops rfl, hid'⟩
    have hlists : q'.running = q.running ∧ q'.waiting = q.waiting ∧ q'.kvHolding = q.kvHolding := by
      rcases hq with rfl | rfl <;> exact ⟨rfl, rfl, rfl⟩
    have hsettle : settle st q' = { settle st q with requests := q'.requests, streaming := q'.streaming } := by
      unfold settle
      rw [hlists.1, hlists.2.1, hlists.2.2]
    have hothers : ∀ id', id' ≠ id → q'.requests.get? id' = q.requests.get? id' := by
      intro id' hne
      rcases hq with rfl | rfl
      · exact get?_set_of_ne hne
      · exact get?_erase_of_ne hne
    have hself : ∀ r₁, q'.requests.get? id = some r₁ → r₁.requestId = id ∧ (c → r₁.isFinished) := by
      intro r₁ hr₁
      rcases hq with rfl | rfl
      · cases get?_set_self.symm.trans hr₁
        exact ⟨hfin.2, fun _ => hfin.1⟩
      · rw [show (q.drop id).requests.get? id = none from get?_erase_self] at hr₁
        cases hr₁
    rw [settle_add, hsettle]
    by_cases hrun : r.status = .running
    · rw [if_pos (decide_eq_true hrun)]
      have hout := h.seated.not_waiting hr hrun
      rw [mem_append, not_or] at hout
      exact h.vacate id hothers hself rfl (filter_ne_self hout.1).symm (filter_ne_self hout.2).symm
    · rw [if_neg (by simpa using hrun)]
      have hout : id ∉ (settle st q).running := fun hin => hrun (h.seated.status_of_running hr hin)
      exact h.vacate id hothers hself (filter_ne_self hout).symm rfl rfl
  | @nextTurn r r' r'' delta q' hr hlive hchecked hnext hq =>
    obtain ⟨hid, -, hresumable, -⟩ := received_same cfg out mro id r
    have hsession : r.resumable := hresumable ▸ hchecked.resumable hnext.resumable
    have hid' : r''.requestId = id := by
      have hr' := (hchecked.same_request.1.trans hid).trans (h.seated.keyed id r hr)
      cases hnext with
      | input | pause => exact hr'
    have hwait : r''.status.isWaiting := by
      cases hnext with
      | input | pause => rfl
    refine Queues.Placed.equiv ?_ (settle_equiv hq)
    rw [settle_add]
    by_cases hrun : r.status = .running
    · rw [if_pos (decide_eq_true hrun)]
      have hout := h.seated.not_waiting hr hrun
      have hplaced : Placed c (({ settle st q with
          running := (settle st q).running.filter (· ≠ id)
          streaming := q.streaming + delta }.put id r'').enqueue id r''.holdsKvBlocks) := by
        refine h.toWaiting hout (h.seated.nodup_running.filter _) (fun id' => ?_) hid' hwait fun hh => hh
        rw [mem_filter, decide_eq_true_eq]
        exact and_comm
      rw [settle_enqueue hnew]
      cases hholds : r''.holdsKvBlocks <;> rw [hholds] at hplaced <;> exact hplaced
    · rw [if_neg (by simpa using hrun), settle_enqueue hnew]
      -- the session is taken out of the queue it has just entered
      have hlate : ¬ c := by
        intro hc
        rcases hontime hc r hr hsession with hfin | hrun' | hdrop
        · exact hlive (.inr (.inl hfin))
        · exact hrun hrun'
        · exact hlive (.inr (.inr hdrop))
      have hout : id ∉ (settle st q).running := fun hin => hrun (h.seated.status_of_running hr hin)
      have hcons (l : List RequestId) : (id :: l).filter (· ≠ id) = l.filter (· ≠ id) :=
        filter_cons_of_neg (by simp)
      refine h.vacate id (fun id' hne => ?_) (fun r₁ hr₁ => ?_) ?_ ?_ ?_
      · rw [requests_enqueue]
        exact get?_set_of_ne hne
      · refine ⟨?_, fun hc => absurd hc hlate⟩
        rw [show _ = some r'' from (congrArg (get? · id) requests_enqueue).trans get?_set_self] at hr₁
        exact Option.some.inj hr₁ ▸ hid'
      · rw [running_enqueue]
        exact (filter_ne_self hout).symm
      · cases r''.holdsKvBlocks
        · exact hcons _
        · rfl
      · cases r''.holdsKvBlocks
        · rfl
        · exact hcons _

/-- Late output for a session that waits for input is dropped, so its count is right. -/
theorem Counted.output (h : Counted q) (hstep : cfg.OutputStep out mro failed id q st q' st')
    (hpaused : ∀ r, q.requests.get? id = some r → r.status = .waitingForStreamingReq →
      0 < r.numStaleOutputTokens ∧ r.dropStaleOutput) : Counted q' := by
  have hlive {r : Request H} (hr : q.requests.get? id = some r) (hgo : ¬ ignoresOutput failed id r) :
      r.status ≠ .waitingForStreamingReq := fun hs => hgo (.inr (.inr (hpaused r hr hs)))
  cases hstep with
  | unknown _ => exact h
  | ignored hr _ => exact h.set hr rfl rfl
  | @continued r r' hr hgo hchecked =>
    obtain ⟨-, hstatus, -, -⟩ := received_same cfg out mro id r
    refine h.set hr rfl ?_
    rw [(hchecked.continues rfl).trans hstatus]
    rfl
  | @finished r r' r'' q' hr hgo hchecked hend hq =>
    have hnot := hlive hr hgo
    rcases hq with rfl | rfl
    · refine h.set hr rfl ?_
      have hfin : r''.isFinished := by
        rcases hend with rfl | ⟨rest, rfl⟩ <;> exact hchecked.stops rfl
      rw [if_neg hnot, if_neg fun hs => ?_]
      · rfl
      · rw [isFinished_of_waiting (by rw [hs]; rfl)] at hfin
        cases hfin
    · exact h.erase hr hnot rfl rfl
  | @nextTurn r r' r'' delta q' hr hgo hchecked hnext hq =>
    refine Queues.Counted.equiv ?_ hq
    have hreq : (enqueue { q.put id r'' with streaming := q.streaming + delta } id
        r''.holdsKvBlocks).requests = q.requests.set id r'' := requests_enqueue
    refine h.set hr hreq ?_
    rw [if_neg (hlive hr hgo), streaming_enqueue]
    cases hnext with
    | input => simp [sessionRequest, updateBlockHashes]
    | pause => simp

end SchedulerConfig

end VllmRwkv
