import VllmRwkv.Sched.Accounts
import VllmRwkv.Sched.Budget

/-!
# Outputs that come late

The counters of a request in every world that a run of the engine leads to, and the queue in which the
request is.
-/

namespace VllmRwkv

open Option KVCacheManager List Dict Raise Queues

namespace World

open SchedulerConfig

section Counters

variable {H : Type} {n : ℕ} [DecidableEq H] {cfg : SchedulerConfig H n} {kv : KVCacheManager H n}
  {encoder : EncoderManager} {w : World H n} {id : RequestId} {r : Request H}

/-- **Accounting of late outputs**: after any calls of the engine, a request has the tokens in flight that
the unprocessed steps have scheduled for it, its stale tokens are among them, and no placeholder is
missing. The next output counts as stale exactly if its step was issued before the request was last
preempted or ended a turn. -/
theorem late_outputs_accounted (hrun : Runs cfg (fun _ _ => True) (World.init kv encoder) w)
    (hr : w.sched.requests.get? id = some r) : r.numInFlightTokens = ((w.inFlight.map (·.tokens id)).sum : ℕ) ∧
      0 ≤ r.numStaleOutputTokens ∧ r.numStaleOutputTokens ≤ r.numInFlightTokens ∧ 0 ≤ r.numOutputPlaceholders ∧
      (r.isFinished = false → ∀ i ∈ w.inFlight.head?, 0 < i.tokens id →
        (0 < r.numStaleOutputTokens ↔ i.seq < w.leftAt id)) := by
  have hgood : w.Good cfg False := good_of_run hrun fun hfalse => hfalse.elim
  have hacc := hgood.accounts id r hr
  obtain ⟨b, -, hstale, -⟩ := hacc.stale
  refine ⟨hacc.inFlight, ?_, ?_, hacc.nonneg, fun hlive i hi hpos => ?_⟩
  · rw [hstale]
    exact Int.natCast_nonneg _
  · rw [hstale, hacc.inFlight]
    exact Int.ofNat_le.2 Fence.below_le_total
  obtain ⟨rest, hsteps⟩ := head?_eq_some_iff.1 hi
  have hordered := hgood.ordered
  rw [hsteps] at hacc hordered
  exact hacc.stale_iff hordered hpos hlive

/-- **Every pass of a run stays within its budgets**, unless it schedules a request that came in with more
tokens than the model takes. -/
theorem pass_within_budget (env : ScheduleEnv n) (hrun : Runs cfg (fun _ _ => True) (World.init kv encoder) w)
    (hitems : ∀ id r, w.sched.requests.get? id = some r → r.ItemsSorted) :
    wp (cfg.scheduleRecorded env) (fun x s' =>
      (∀ id ∈ x.2.numScheduledTokens.keys, ¬ cfg.Outgrown w.sched.queues id) → cfg.WithinBudget
        (if w.sched.pauseState = .pausedAll then 0 else cfg.maxNumScheduledTokens) x.1 x.2 s') any w.sched := by
  have hgood : w.Good cfg False := good_of_run hrun False.elim
  refine cfg.schedule_withinBudget env hgood.placed (fun id r hr hwait => ?_) hitems
  exact ((hgood.accounts id r hr).idle hwait).1

end Counters

/-! ### A session with two steps in flight -/

def asyncModel : SchedulerConfig ℕ 1 := { shortModel with asyncScheduling := true }

/-- A session whose turn ends with the token 9. -/
def session : Request ℕ := { fiveTokens true with maxTokens := 4, samplingParams := { stopTokenIds := [9] } }

theorem session_new : asyncModel.NewRequest session := by
  constructor <;> decide

/-- The worker samples the token 9 for the session. -/
def nine : ModelRunnerOutput where
  sampledTokenIds := fun id => if id = 0 then [9] else []

/-- The counters of the session and its preemptions. -/
def counters (w : World ℕ 1) : Option (Bool × ℤ × ℤ × ℕ) :=
  (w.sched.requests.get? 0).map fun r =>
    (r.isFinished, r.numInFlightTokens, r.numStaleOutputTokens, r.numPreemptions)

/-- A step that samples for a request may bring one token for it. -/
theorem sampled_le {i : Issued 1} {id : RequestId} {tokens : List ℕ} (hlen : tokens.length ≤ 1)
    (hsamples : i.samples id) :
    tokens.length ≤ if i.samples id then asyncModel.numSampledTokensPerStep + i.drafts id else 0 := by
  rw [if_pos hsamples]
  exact hlen.trans (Nat.le_add_right 1 _)

/-- What follows after a session has been added to a new scheduler. -/
def withSession {α : Type} (numBlocks : ℕ) (f : KVCacheManager ℕ 1 → World ℕ 1 → Option α) : Option α :=
  (KVCacheManager.fresh numBlocks 1).bind fun kv =>
    ((World.init kv).step asyncModel (.addRequest (fun _ => false) session)).bind (f kv)

theorem added_run {kv : KVCacheManager ℕ 1} {w : World ℕ 1} {P : World ℕ 1 → Call ℕ 1 → Prop}
    (hP : P (World.init kv) (.addRequest (fun _ => false) session))
    (hadd : (World.init kv).step asyncModel (.addRequest (fun _ => false) session) = some w) :
    Runs asyncModel P (World.init kv) w :=
  .single ⟨.addRequest (fun _ => false) session, ⟨session_new, nofun⟩, hP, hadd⟩

/-- The first pass after the session has come in. -/
theorem pass_within_budget_session : ∃ kv w, fresh 16 1 = some kv ∧
    (World.init kv).step asyncModel (.addRequest (fun _ => false) session) = some w ∧
    wp (asyncModel.scheduleRecorded noAnswers) (fun x s' => asyncModel.WithinBudget 16 x.1 x.2 s') any w.sched := by
  obtain ⟨kv, hkv⟩ : ∃ kv : KVCacheManager ℕ 1, fresh 16 1 = some kv := ⟨_, rfl⟩
  refine ⟨kv, _, hkv, rfl, wp_any (pass_within_budget noAnswers (added_run trivial rfl) ?_) fun _ _ h => h ?_⟩
  · intro id r h
    obtain ⟨-, rfl⟩ | ⟨-, ⟨⟩⟩ := get?_set_eq_some.1 h
    exact .nil
  · rintro id - ⟨r, h, -, hlong⟩
    obtain ⟨-, rfl⟩ | ⟨-, ⟨⟩⟩ := get?_set_eq_some.1 h
    exact absurd hlong (by decide)

/-- The session is preempted with its first step in flight, whose output is then stale. -/
theorem late_outputs_reset :
    ∃ (kv : KVCacheManager ℕ 1) (w : World ℕ 1) (r : Request ℕ), w.sched.requests.get? 0 = some r ∧
      Runs asyncModel (fun _ _ => True) (World.init kv) w ∧ r.numStaleOutputTokens = 5 ∧
      r.numInFlightTokens = ((w.inFlight.map (·.tokens 0)).sum : ℕ) ∧
      0 ≤ r.numStaleOutputTokens ∧ r.numStaleOutputTokens ≤ r.numInFlightTokens ∧ 0 ≤ r.numOutputPlaceholders ∧
      (r.isFinished = false → ∀ i ∈ w.inFlight.head?, 0 < i.tokens 0 →
        (0 < r.numStaleOutputTokens ↔ i.seq < w.leftAt 0)) := by
  have hcalls : (withSession 16 fun _ w₁ =>
      (w₁.step asyncModel (.schedule noAnswers)).bind fun w₂ =>
      (w₂.step asyncModel (.resetPrefixCache true)).bind counters) = some (false, 5, 5, 1) := by decide +kernel
  simp only [withSession, counters, bind_eq_some_iff, map_eq_some_iff] at hcalls
  obtain ⟨kv, -, w₁, hadd, w₂, hschedule, w₃, hreset, r, hr, hcounters⟩ := hcalls
  have hrun : Runs asyncModel (fun _ _ => True) (World.init kv) w₃ :=
    ((added_run trivial hadd).tail ⟨.schedule noAnswers, trivial, trivial, hschedule⟩).tail
      ⟨.resetPrefixCache true, trivial, trivial, hreset⟩
  have hstale : r.numStaleOutputTokens = 5 := congrArg (fun x => x.2.2.1) hcounters
  exact ⟨kv, w₃, r, hr, hrun, hstale, late_outputs_accounted hrun hr⟩

/-- **Stale without a preemption**: a turn of the session ends with a second step in flight. The output of
that step is stale, though the session has never been preempted. -/
theorem turn_end_makes_stale : ∃ (kv : KVCacheManager ℕ 1) (w : World ℕ 1) (r : Request ℕ),
      Runs asyncModel (fun _ _ => True) (World.init kv) w ∧ w.sched.requests.get? 0 = some r ∧
      (w.inFlight.head?.map (·.tokens 0)) = some 1 ∧ r.isFinished = false ∧ r.numPreemptions = 0 ∧
      0 < r.numStaleOutputTokens := by
  have hcalls : (withSession 16 fun _ w₁ =>
      (w₁.step asyncModel (.schedule noAnswers)).bind fun w₂ =>
      (w₂.step asyncModel (.schedule noAnswers)).bind fun w₃ =>
      (w₃.step asyncModel (.updateFromOutput nine)).bind fun w₄ =>
      (counters w₄).map fun x => (w₃.inFlight.head?.map (·.samples 0), w₄.inFlight.head?.map (·.tokens 0), x)) =
        some (some true, some 1, false, 1, 1, 0) := by decide +kernel
  simp only [withSession, bind_eq_some_iff, map_eq_some_iff, Prod.mk.injEq] at hcalls
  obtain ⟨kv, -, w₁, hadd, w₂, hfirst, w₃, hsecond, w₄, houtput, x, hx, ⟨j, hj, hsamples⟩, htokens, rfl⟩ := hcalls
  obtain ⟨r, hr, hcounters⟩ := map_eq_some_iff.1 hx
  have hallowed : Allowed asyncModel w₃ (.updateFromOutput nine) := by
    intro i hi id
    cases hj.symm.trans (mem_def.1 hi)
    by_cases hid : id = 0
    · subst hid
      exact sampled_le (le_refl 1) hsamples
    · have hnone : nine.sampledTokenIds id = [] := if_neg hid
      rw [hnone]
      exact Nat.zero_le _
  refine ⟨kv, w₄, r, ?_, hr, map_eq_some_iff.2 htokens, congrArg (fun x => x.1) hcounters,
    congrArg (fun x => x.2.2.2) hcounters, ?_⟩
  · exact (((added_run trivial hadd).tail ⟨.schedule noAnswers, trivial, trivial, hfirst⟩).tail
      ⟨.schedule noAnswers, trivial, trivial, hsecond⟩).tail ⟨.updateFromOutput nine, hallowed, trivial, houtput⟩
  · have hstale : r.numStaleOutputTokens = 1 := congrArg (fun x => x.2.2.1) hcounters
    rw [hstale]
    decide

/-! ## The queues -/

theorem running_or_waiting {status : RequestStatus} (h : status.isFinished = false) :
    status = .running ∨ status.isWaiting := by
  revert h
  cases status <;> decide

section Partition

variable {H : Type} {n : ℕ} [DecidableEq H] {cfg : SchedulerConfig H n} {kv : KVCacheManager H n}
  {encoder : EncoderManager} {w : World H n}

omit [DecidableEq H] in
theorem mem_seats_iff (h : Placed True w.sched.queues) (id : RequestId) :
    id ∈ w.sched.queues.seats ↔ (w.sched.requests.get? id).any (fun r => r.isFinished = false) := by
  constructor
  · intro hid
    rcases mem_append.1 hid with hrun | hwait
    · obtain ⟨r, hr, hstatus⟩ := h.seated.running id hrun
      rw [show w.sched.requests.get? id = some r from hr]
      exact decide_eq_true (isFinished_of_running hstatus)
    · obtain ⟨r, hr, hstatus⟩ := h.seated.waiting id hwait
      rw [show w.sched.requests.get? id = some r from hr]
      exact decide_eq_true (isFinished_of_waiting hstatus)
  intro hany
  cases hr : w.sched.requests.get? id with
  | none =>
    rw [hr] at hany
    cases hany
  | some r =>
    rw [hr] at hany
    have hseat := h.complete trivial id r hr
    rcases running_or_waiting (of_decide_eq_true hany) with hrun | hwait
    · exact mem_append_left _ (hseat.running hrun)
    · exact mem_append_right _ (hseat.waiting hwait)

/-- **The queues are a partition**: if no output of a session comes after a preemption unless it is dropped,
every unfinished request is once in the queues, where its status says, and nothing else is there. Unless
the scheduler is paused, `get_num_unfinished_requests` is the number of these requests without the
sessions that wait for input. -/
theorem queues_partition (hrun : Runs cfg InTime (World.init kv encoder) w) :
    (∀ id r, w.sched.requests.get? id = some r → r.isFinished = false →
      w.sched.queues.seats.count id = 1 ∧ w.sched.queues.HasSeat id r) ∧
    (∀ id ∈ w.sched.queues.seats, ∃ r, w.sched.requests.get? id = some r ∧ r.isFinished = false) ∧
    (w.sched.pauseState = .unpaused →
      (w.sched.getNumUnfinishedRequests = w.sched.requests.countVals (fun r => r.isFinished = false) ↔
        ∀ id r, w.sched.requests.get? id = some r → r.status ≠ .waitingForStreamingReq)) := by
  have hgood : w.Good cfg True := good_of_run hrun fun _ _ _ hcall => hcall
  have hmem := mem_seats_iff hgood.placed
  have hnodup := hgood.placed.seated.nodup
  refine ⟨fun id r hr hlive => ⟨?_, hgood.placed.complete trivial id r hr⟩, fun id hid => ?_, fun hpause => ?_⟩
  · refine count_eq_one_of_mem hnodup ((hmem id).2 ?_)
    rw [hr]
    exact decide_eq_true hlive
  · have hany := (hmem id).1 hid
    cases hr : w.sched.requests.get? id with
    | none =>
      rw [hr] at hany
      cases hany
    | some r =>
      rw [hr] at hany
      exact ⟨r, rfl, of_decide_eq_true hany⟩
  have hlength := countVals_eq_length hnodup hmem
  have hseats : w.sched.queues.seats.length =
      w.sched.running.length + (w.sched.waiting.length + w.sched.kvHoldingWaiting.length) := by
    unfold Queues.seats
    rw [length_append, length_append]
    rfl
  have hcounted : w.sched.numWaitingForStreamingInput =
      w.sched.requests.countVals fun r => r.status = .waitingForStreamingReq := hgood.counted
  have hzero : w.sched.requests.countVals (fun r => r.status = .waitingForStreamingReq) = 0 ↔
      ∀ id r, w.sched.requests.get? id = some r → r.status ≠ .waitingForStreamingReq := by
    unfold countVals
    rw [countP_eq_zero]
    constructor
    · intro hall id r hr hs
      have hnot := hall id (mem_keys_of_get? hr)
      rw [hr] at hnot
      exact hnot (decide_eq_true hs)
    intro hall id hid hany
    obtain ⟨r, hr⟩ := exists_of_mem_keys hid
    rw [hr] at hany
    exact hall id r hr (of_decide_eq_true hany)
  rw [← hzero]
  unfold Scheduler.getNumUnfinishedRequests
  rw [hpause]
  dsimp only
  omega

end Partition

/-! ### A session whose turn ends after a preemption -/

/-- A session with its first step in flight is among the running requests. -/
theorem queues_partition_running :
    ∃ (kv : KVCacheManager ℕ 1) (w : World ℕ 1), Runs asyncModel InTime (World.init kv) w ∧ w.sched.running = [0] ∧
      (∀ id r, w.sched.requests.get? id = some r → r.isFinished = false →
        w.sched.queues.seats.count id = 1 ∧ w.sched.queues.HasSeat id r) ∧
      (∀ id ∈ w.sched.queues.seats, ∃ r, w.sched.requests.get? id = some r ∧ r.isFinished = false) ∧
      (w.sched.pauseState = .unpaused →
        (w.sched.getNumUnfinishedRequests = w.sched.requests.countVals (fun r => r.isFinished = false) ↔
          ∀ id r, w.sched.requests.get? id = some r → r.status ≠ .waitingForStreamingReq)) := by
  have hcalls : (withSession 16 fun _ w₁ =>
      (w₁.step asyncModel (.schedule noAnswers)).map fun w₂ => w₂.sched.running) = some [0] := by decide +kernel
  obtain ⟨kv, _, h⟩ := bind_eq_some_iff.1 hcalls
  obtain ⟨w₁, hadd, h⟩ := bind_eq_some_iff.1 h
  obtain ⟨w₂, hschedule, hrunning⟩ := map_eq_some_iff.1 h
  have hrun : Runs asyncModel InTime (World.init kv) w₂ :=
    (added_run trivial hadd).tail ⟨.schedule noAnswers, trivial, trivial, hschedule⟩
  exact ⟨kv, w₂, hrun, hrunning, queues_partition hrun⟩

/-- A second session. -/
def lateSession : Request ℕ :=
  { session with
    requestId := 1
    allTokenIds := [6, 7, 8, 6, 7]
    promptTokenIds := [6, 7, 8, 6, 7]
    blockHashes := [6, 67, 678, 6786, 67867] }

theorem lateSession_new : asyncModel.NewRequest lateSession := by
  constructor <;> decide

/-- The worker samples a token for both sessions; the second one ends its turn. -/
def eightAndNine : ModelRunnerOutput where
  sampledTokenIds := fun id => if id = 0 then [8] else if id = 1 then [9] else []

/-- **A session is lost**: with 11 blocks the second session is preempted while its first step is in flight.
The output of that step ends its turn, and the session, put back into the queue to wait for input, is
removed from it with the preempted requests that have stopped: it is unfinished and in no queue. -/
theorem late_stop_loses_session : ∃ (kv : KVCacheManager ℕ 1) (w : World ℕ 1) (r : Request ℕ),
      Runs asyncModel (fun _ _ => True) (World.init kv) w ∧ w.sched.requests.get? 1 = some r ∧
      r.isFinished = false ∧ w.sched.queues.seats = [0] ∧ w.sched.getNumUnfinishedRequests = 0 := by
  have hcalls : (withSession 12 fun _ w₁ =>
      (w₁.step asyncModel (.addRequest (fun _ => false) lateSession)).bind fun w₂ =>
      (w₂.step asyncModel (.schedule noAnswers)).bind fun w₃ =>
      (w₃.step asyncModel (.schedule noAnswers)).bind fun w₄ =>
      (w₄.step asyncModel (.updateFromOutput eightAndNine)).bind fun w₅ =>
      (w₅.sched.requests.get? 1).map fun r => (w₁.used, w₄.inFlight.head?.map fun i => (i.samples 0, i.samples 1),
        r.isFinished, w₅.sched.queues.seats, w₅.sched.getNumUnfinishedRequests)) =
          some ([0], some (true, true), false, [0], 0) := by decide +kernel
  simp only [withSession, bind_eq_some_iff, map_eq_some_iff, Prod.mk.injEq] at hcalls
  obtain ⟨kv, -, w₁, hfirst, w₂, hsecond, w₃, hissue, w₄, hpreempt, w₅, houtput, r, hr, hused,
    ⟨j, hj, hsamples⟩, hlive, hseats, hcount⟩ := hcalls
  have hfresh : Allowed asyncModel w₁ (.addRequest (fun _ => false) lateSession) := by
    refine ⟨lateSession_new, fun hin => ?_⟩
    rw [hused] at hin
    exact absurd hin (by decide)
  have hsampled : Allowed asyncModel w₄ (.updateFromOutput eightAndNine) := by
    intro i hi id
    cases hj.symm.trans (mem_def.1 hi)
    by_cases hid : id = 0
    · subst hid
      exact sampled_le (le_refl 1) hsamples.1
    by_cases hid' : id = 1
    · subst hid'
      exact sampled_le (le_refl 1) hsamples.2
    · have hnone : eightAndNine.sampledTokenIds id = [] := (if_neg hid).trans (if_neg hid')
      rw [hnone]
      exact Nat.zero_le _
  have hrun : Runs asyncModel (fun _ _ => True) (World.init kv) w₅ :=
    ((((added_run trivial hfirst).tail ⟨.addRequest (fun _ => false) lateSession, hfresh, trivial, hsecond⟩).tail
      ⟨.schedule noAnswers, trivial, trivial, hissue⟩).tail ⟨.schedule noAnswers, trivial, trivial, hpreempt⟩).tail
        ⟨.updateFromOutput eightAndNine, hsampled, trivial, houtput⟩
  exact ⟨kv, w₅, r, hrun, hr, hlive, hseats, hcount⟩

end World

end VllmRwkv
