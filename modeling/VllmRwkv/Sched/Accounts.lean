import VllmRwkv.Sched.Ledger

/-!
# The accounts of all requests, over a run

`Good` says that queues and statuses agree and that the counters of every request stand for the steps
in flight (`Account`). One lemma for each call of the engine says that the call keeps it, and
`good_of_run` that every run does.
-/

namespace VllmRwkv

open List Dict Option Request Fence Raise Queues Relation

variable {H : Type} {n : ℕ} {status : RequestStatus} {rs : List (Request H)} {request : Request H}

namespace World

open SchedulerConfig

variable (cfg : SchedulerConfig H n)

/-- Queues and statuses agree, and the requests' counters stand for the steps in flight. -/
structure Good (c : Prop) (w : World H n) : Prop where
  placed : Placed c w.sched.queues
  counted : Counted w.sched.queues
  ordered : Fence.Ordered Issued.seq w.inFlight
  bound : ∀ i ∈ w.inFlight, i.seq < w.issued
  left : ∀ id, w.leftAt id ≤ w.issued
  drafts : ∀ i ∈ w.inFlight, ∀ id, 0 < i.drafts id → i.samples id
  samples : ∀ i ∈ w.inFlight, ∀ id, i.samples id → 0 < i.tokens id
  known : ∀ i ∈ w.inFlight, ∀ id, 0 < i.tokens id → id ∈ w.used
  used : ∀ id r, w.sched.requests.get? id = some r → id ∈ w.used
  accounts : ∀ id r, w.sched.requests.get? id = some r → cfg.Account w.inFlight w.issued (w.leftAt id) id r

section Calls

variable {cfg} {c : Prop} {w : World H n} {s s' : Scheduler H n} {id : RequestId} {r r' : Request H}
  {steps : List (Issued n)} {issued left : ℕ}

/-- A call that leaves the table and the steps alone. -/
theorem Good.quiet (h : w.Good cfg c) (hq : s'.queues = w.sched.queues) : Good cfg c { w with sched := s' } := by
  have hrequests : s'.requests = w.sched.requests := congrArg requests hq
  refine { h with placed := hq ▸ h.placed, counted := hq ▸ h.counted, used := fun id r hr => ?_,
                  accounts := fun id r hr => ?_ }
  · exact h.used id r (hrequests ▸ hr)
  · exact h.accounts id r (hrequests ▸ hr)

/-! ## Adding and finishing requests -/

theorem account_new (hnew : cfg.NewRequest r) (hleft : left ≤ issued)
    (hsteps : ∀ i ∈ steps, i.tokens id = 0 ∧ i.samples id = false) : cfg.Account steps issued left id r := by
  have hdue : ∀ i ∈ steps, cfg.tokensDue id i = 0 := by
    intro i hi
    unfold tokensDue
    rw [(hsteps i hi).2]
    rfl
  have hsum : ((steps.map (·.tokens id)).sum : ℕ) = 0 := by
    refine sum_eq_zero ?_
    intro k hk
    obtain ⟨i, hi, rfl⟩ := mem_map.1 hk
    exact (hsteps i hi).1
  refine ⟨?_, ⟨left, hleft, ?_, fun _ => rfl⟩, hnew.placeholders.ge, fun _ _ => ?_, fun _ => hnew.placeholders,
    fun _ => ⟨hnew.placeholders, fun i hi hpos => ?_⟩, fun hs => ?_⟩
  · rw [hnew.inFlight, hsum]
    rfl
  · rw [hnew.stale, below_of_weightless fun i hi => (hsteps i hi).1]
    rfl
  · rw [hnew.placeholders, above_of_weightless hdue]
    exact le_refl _
  · rw [(hsteps i hi).1] at hpos
    cases hpos
  · rcases hnew.status with h | h <;> rw [h] at hs <;> cases hs

/-- The account of a request that has been finished. -/
theorem account_finished (h : cfg.Account steps issued left id r)
    (hstatus : status.isFinished) : cfg.Account steps issued left id { r with status := status } := by
  have hfin : isFinished { r with status := status } := hstatus
  refine h.congr rfl rfl rfl (fun _ => hfin) (fun hw => ?_) rfl fun hs => ?_
  · rw [isFinished_of_waiting hw] at hfin
    cases hfin
  · have hs' : status = .waitingForStreamingReq := hs
    rw [hs'] at hstatus
    cases hstatus

theorem accounts_finished {q q' : Queues H}
    {left : RequestId → ℕ} (hf : q.Finished rs status q') (hstatus : status.isFinished)
    (hrs : ∀ r ∈ rs, q.requests.get? r.requestId = some r)
    (h : ∀ id r, q.requests.get? id = some r → cfg.Account steps issued (left id) id r) :
    ∀ id r', q'.requests.get? id = some r' → (∃ r, q.requests.get? id = some r) ∧
      cfg.Account steps issued (left id) id r' := by
  intro id r' hr'
  by_cases hid : id ∈ rs.map requestId
  · obtain ⟨r, hr, rfl⟩ := mem_map.1 hid
    rcases hf.these r hr with hnone | hsome
    · cases hnone.symm.trans hr'
    · cases hsome.symm.trans hr'
      exact ⟨⟨r, hrs r hr⟩, account_finished (h _ r (hrs r hr)) hstatus⟩
  · rw [hf.others id hid] at hr'
    exact ⟨⟨r', hr'⟩, h id r' hr'⟩

theorem Good.finished (h : w.Good cfg c)
    (hf : w.sched.queues.Finished rs status s'.queues) (hstatus : status.isFinished)
    (hrs : ∀ r ∈ rs, w.sched.requests.get? r.requestId = some r) (hnodup : (rs.map requestId).Nodup) :
    Good cfg c { w with sched := s' } := by
  have hback := accounts_finished hf hstatus hrs h.accounts
  refine { h with placed := h.placed.finished hf hrs hstatus, counted := h.counted.finished hf hrs hnodup hstatus,
                  used := fun id r hr => ?_, accounts := fun id r hr => ?_ }
  · obtain ⟨r₀, hr₀⟩ := (hback id r hr).1
    exact h.used id r₀ hr₀
  · exact (hback id r hr).2

section

variable {q' : Queues H} (ha : cfg.Added s request q') (hkeyed : Keyed s.queues)

include ha hkeyed

theorem added_others (hid : id ≠ request.requestId) : q'.requests.get? id = s.requests.get? id := by
  cases ha with
  | new _ hq =>
    rw [hq.requests, requests_enqueue]
    exact get?_set_of_ne hid
  | queued _ _ _ hq | merged _ _ _ hq =>
    rw [hq]
    exact get?_set_of_ne hid
  | ended hsome _ hq =>
    refine hq.others id ?_
    rw [map_singleton, mem_singleton, hkeyed _ _ hsome]
    exact hid

/-- The account of the request that `add_request` is given. -/
theorem account_added (hr : q'.requests.get? request.requestId = some r)
    (hnew : s.requests.get? request.requestId = none → cfg.Account steps issued left request.requestId request)
    (hold : ∀ r, s.requests.get? request.requestId = some r → cfg.Account steps issued left request.requestId r) :
    cfg.Account steps issued left request.requestId r := by
  cases ha with
  | new hnone hq =>
    rw [hq.requests, requests_enqueue] at hr
    cases get?_set_self.symm.trans hr
    exact (hnew hnone).congr rfl rfl rfl id id rfl id
  | queued hsome _ _ hq =>
    rw [hq] at hr
    cases get?_set_self.symm.trans hr
    exact (hold _ hsome).congr rfl rfl rfl id id rfl id
  | merged hsome hstatus _ hq =>
    rw [hq] at hr
    cases get?_set_self.symm.trans hr
    refine (hold _ hsome).congr rfl rfl rfl (fun hf => ?_) (fun _ => by rw [hstatus]; rfl) rfl nofun
    rw [isFinished, hstatus] at hf
    cases hf
  | @ended existing hsome _ hq =>
    have hkey := hkeyed _ _ hsome
    rcases hq.these existing mem_cons_self with hnone | hthis
    · rw [hkey, hr] at hnone
      cases hnone
    rw [hkey] at hthis
    cases hthis.symm.trans hr
    have hacc : cfg.Account steps issued left request.requestId { existing with status := .finishedAborted } :=
      account_finished (hold _ hsome) rfl
    exact hacc.congr rfl rfl rfl id id rfl id

end

/-- A fresh id has no tokens in any step; a known one keeps its account. -/
theorem Good.added (h : w.Good cfg c) (hnew : cfg.NewRequest request)
    (hfresh : request.requestId ∈ w.used → request.requestId ∈ w.sched.requests.keys)
    (ha : cfg.Added w.sched request s'.queues) :
    Good cfg c { w with sched := s', used := w.used.insert request.requestId } := by
  have hkeyed : Keyed w.sched.queues := h.placed.seated.keyed
  have hothers {id : RequestId} {r : Request H} (hid : id ≠ request.requestId) (hr : s'.requests.get? id = some r) :
      w.sched.requests.get? id = some r := (added_others ha hkeyed hid).symm.trans hr
  have hnot : request.status ≠ .waitingForStreamingReq := by
    rcases hnew.status with hs | hs <;> rw [hs] <;> simp
  refine { h with placed := SchedulerConfig.Placed.added h.placed ha (by rcases hnew.status with hs | hs <;> rw [hs] <;> rfl),
                  counted := SchedulerConfig.Counted.added h.counted hkeyed ha hnot,
                  known := fun i hi id hpos => mem_insert_of_mem (h.known i hi id hpos),
                  used := fun id r hr => ?_, accounts := fun id r hr => ?_ }
  · by_cases hid : id = request.requestId
    · exact hid ▸ mem_insert_self
    · exact mem_insert_of_mem (h.used id r (hothers hid hr))
  · by_cases hid : id = request.requestId
    · subst hid
      refine account_added ha hkeyed hr (fun hnone => ?_) fun r hr => h.accounts _ r hr
      -- no step knows a new request
      have hunused : request.requestId ∉ w.used := fun hin => not_mem_keys_iff.2 hnone (hfresh hin)
      refine account_new hnew (h.left _) fun i hi => ?_
      have htokens : i.tokens request.requestId = 0 := by
        by_contra hpos
        exact hunused (h.known i hi _ (pos_of_ne_zero hpos))
      refine ⟨htokens, Bool.eq_false_iff.2 fun hs => ?_⟩
      have hpos := h.samples i hi _ hs
      omega
    · exact h.accounts id r (hothers hid hr)

/-! ## Preempting all requests -/

variable (cfg) in
/-- With enough turns all running requests are preempted. -/
theorem preemptAll_empties (fuel : ℕ) (hfuel : s.running.length ≤ fuel) :
    wp (cfg.preemptAll fuel) (fun _ s' => s'.running = []) any s := by
  induction fuel generalizing s with
  | zero => exact length_eq_zero_iff.1 (Nat.le_zero.1 hfuel)
  | succ fuel ih =>
    unfold preemptAll
    rw [wp_get_bind]
    cases hlast : s.running.getLast? with
    | none => exact getLast?_eq_none_iff.1 hlast
    | some id =>
      rw [wp_bind, wp_modify, wp_bind]
      refine wp_any (cfg.preemptRequest_effect true) (fun _ s1 h1 => ?_)
      obtain ⟨r, _, _, hequiv⟩ := h1
      refine ih ?_
      have hrunning : s1.running = s.running.dropLast := hequiv.running.trans running_enqueue
      rw [hrunning, length_dropLast]
      omega

/-- While the running requests are preempted one by one: those that still run have their old accounts. -/
structure Leaving (cfg : SchedulerConfig H n) (c : Prop) (w : World H n) (q : Queues H) : Prop where
  placed : Placed c q
  counted : Counted q
  sub : q.running ⊆ w.sched.running
  used : ∀ id r, q.requests.get? id = some r → id ∈ w.used
  accounts : ∀ id r, q.requests.get? id = some r →
    cfg.Account w.inFlight w.issued (if id ∈ q.running then w.leftAt id else w.leave w.sched.running id) id r

section

variable {q q' : Queues H} (h : Leaving cfg c w q) (hbound : ∀ i ∈ w.inFlight, i.seq < w.issued)

include h hbound

theorem Leaving.step (hp : PreemptedLast q q') : Leaving cfg c w q' := by
  have hplaced := SchedulerConfig.Placed.preemptedLast h.placed hp
  have hcounted := SchedulerConfig.Counted.preemptedLast h.counted hp
  obtain @⟨id, r, _, hlast, hr, hstatus, hq⟩ := hp
  have hrunning : q'.running = q.running.dropLast := hq.running.trans running_enqueue
  have hmem : id ∈ q.running := mem_of_getLast? hlast
  have hsplit : q.running = q.running.dropLast ++ [id] := (dropLast_append_getLast? id (mem_def.2 hlast)).symm
  have hnodup := h.placed.seated.nodup_running
  -- the queue has no duplicates, so the preempted request is no longer in it
  have hout : id ∉ q.running.dropLast := by
    rw [hsplit] at hnodup
    intro hin
    exact disjoint_of_nodup_append hnodup hin mem_cons_self
  have hget {id' : RequestId} {r' : Request H} (hr' : q'.requests.get? id' = some r') :
      (q.requests.set id (r.preempt true)).get? id' = some r' := by
    rwa [hq.requests, requests_enqueue] at hr'
  refine ⟨hplaced, hcounted, ?_, fun id' r' hr' => ?_, fun id' r' hr' => ?_⟩
  · rw [hrunning]
    exact fun x hx => h.sub (dropLast_subset _ hx)
  · by_cases hid : id' = id
    · exact hid ▸ h.used id r hr
    · exact h.used id' r' ((get?_set_of_ne hid).symm.trans (hget hr'))
  by_cases hid : id' = id
  · subst hid
    cases get?_set_self.symm.trans (hget hr')
    have hacc := h.accounts id' r hr
    rw [hrunning, if_neg hout]
    unfold leave
    rw [if_pos (h.sub hmem)]
    exact hacc.leave hbound rfl rfl rfl nofun
  have hacc := h.accounts id' r' ((get?_set_of_ne hid).symm.trans (hget hr'))
  have hiff : id' ∈ q'.running ↔ id' ∈ q.running := by
    rw [hrunning]
    conv_rhs => rw [hsplit]
    rw [mem_append, mem_singleton]
    exact ⟨.inl, fun h => h.resolve_right hid⟩
  simpa only [hiff] using hacc

theorem Leaving.chain (hchain : ReflTransGen PreemptedLast q q') : Leaving cfg c w q' := by
  induction hchain with
  | refl => exact h
  | tail _ hp ih => exact ih.step hbound hp

end

/-- All running requests leave the steps in flight behind. -/
theorem Good.preempted (h : w.Good cfg c) (hchain : ReflTransGen PreemptedLast w.sched.queues s'.queues)
    (hempty : s'.running = []) : Good cfg c { w with sched := s', leftAt := w.leave w.sched.running } := by
  have hstart : Leaving cfg c w w.sched.queues := by
    refine ⟨h.placed, h.counted, fun x hx => hx, h.used, fun id r hr => ?_⟩
    have hacc := h.accounts id r hr
    split_ifs with hnot
    · exact hacc
    unfold leave
    rw [if_neg (show id ∉ w.sched.running from hnot)]
    exact hacc
  have hend := hstart.chain h.bound hchain
  refine { h with placed := hend.placed, counted := hend.counted, used := hend.used, left := fun id => ?_,
                  accounts := fun id r hr => ?_ }
  · show w.leave w.sched.running id ≤ w.issued
    unfold leave
    split
    · exact le_refl _
    · exact h.left id
  · have hacc := hend.accounts id r hr
    rwa [if_neg (by rw [show s'.queues.running = [] from hempty]; exact not_mem_nil)] at hacc

/-! ## Issuing a step -/

theorem leave_le (h : w.Good cfg c) (ids : List RequestId) (id : RequestId) : w.leave ids id ≤ w.issued := by
  unfold leave
  split
  · exact le_refl _
  · exact h.left id

variable (cfg) in
theorem issuedRequest_same (t : Scheduler H n) (out : SchedulerOutput n) (id : RequestId) (r : Request H) :
    (cfg.issuedRequest t out id r).requestId = r.requestId ∧ (cfg.issuedRequest t out id r).status = r.status ∧
      (cfg.issuedRequest t out id r).isPrefillChunk =
        decide (((r.numComputedTokens + (out.numScheduledTokens.get? id).getD 0 : ℕ) : ℤ) <
          r.numTokens + r.numOutputPlaceholders) := by
  unfold issuedRequest addPlaceholders
  split <;> exact ⟨rfl, rfl, rfl⟩

/-- The step that a pass issues, as the requests `q` of the pass tell it. -/
structure StepOf (cfg : SchedulerConfig H n) (p : Pass n) (q : Queues H) (t : Scheduler H n) (i : Issued n) : Prop where
  tokens : ∀ id, i.tokens id = p.tokens id
  drafts : ∀ id, i.drafts id = p.drafts id
  others : ∀ id, id ∉ p.numScheduledTokens.keys → i.samples id = false
  these : ∀ id ∈ p.numScheduledTokens.keys, ∀ r, q.requests.get? id = some r →
    i.samples id = !(cfg.issuedRequest t i.out id r).isPrefillChunk

theorem tokens_of_not_scheduled {p : Pass n} (h : id ∉ p.numScheduledTokens.keys) : p.tokens id = 0 := by
  unfold Pass.tokens
  rw [not_mem_keys_iff.1 h]
  rfl

section Issue

variable {p : Pass n} {q : Queues H} {t : Scheduler H n} {i : Issued n}

theorem StepOf.scheduled (hi : StepOf cfg p q t i) (hpos : 0 < i.tokens id) : id ∈ p.numScheduledTokens.keys := by
  by_contra hnot
  rw [hi.tokens, tokens_of_not_scheduled hnot] at hpos
  cases hpos

theorem running_of_scheduled (hrec : cfg.PassRecord c w.sched.queues q p) (hid : id ∈ p.numScheduledTokens.keys) :
    ∃ r, q.requests.get? id = some r ∧ r.status = .running :=
  hrec.placed.seated.running id (hrec.scheduled id hid)

theorem StepOf.drafts_sampled (hi : StepOf cfg p q t i) (hrec : cfg.PassRecord c w.sched.queues q p)
    (hpos : 0 < i.drafts id) : i.samples id := by
  rw [hi.drafts] at hpos
  have hid : id ∈ p.numScheduledTokens.keys := by
    by_contra hnot
    unfold Pass.drafts at hpos
    rw [hrec.drafts id hnot] at hpos
    cases hpos
  obtain ⟨r, hr, _⟩ := running_of_scheduled hrec hid
  have hchunk := (hrec.chunk id hid r hr).drafts hpos
  have htokens : (i.out.numScheduledTokens.get? id).getD 0 = p.tokens id := hi.tokens id
  rw [hi.these id hid r hr, (issuedRequest_same cfg t i.out id r).2.2, htokens]
  have hnot : ¬ ((r.numComputedTokens + p.tokens id : ℕ) : ℤ) < r.numTokens + r.numOutputPlaceholders := by
    omega
  rw [decide_eq_false hnot]
  rfl

theorem counted_of_record (h : Counted w.sched.queues) (hrec : cfg.PassRecord c w.sched.queues q p) : Counted q := by
  unfold Counted
  rw [hrec.streaming, show w.sched.queues.streaming = _ from h]
  congr 1
  refine (countVals_congr fun id => ?_).symm
  cases hr : q.requests.get? id with
  | none =>
    have hnone : w.sched.queues.requests.get? id = none := by
      rw [← not_mem_keys_iff, ← hrec.keys, not_mem_keys_iff]
      exact hr
    rw [hnone]
  | some r =>
    obtain ⟨r₀, hr₀, hserved⟩ := hrec.served id r hr
    rw [hr₀]
    refine decide_eq_decide.2 ?_
    unfold Served at hserved
    split at hserved
    · obtain ⟨r₁, hkept, hstatus, rfl⟩ := hserved
      refine iff_of_false nofun fun hs => ?_
      rw [hkept.paused hs, hs] at hstatus
      cases hstatus
    · refine ⟨hserved.streaming, fun hs => ?_⟩
      rw [hserved.paused hs]
      exact hs

/-- The scheduled requests advance, those that the pass has preempted leave the older steps behind. -/
theorem Good.issue (h : w.Good cfg c) (hrec : cfg.PassRecord c w.sched.queues q p) (hi : StepOf cfg p q t i)
    (hseq : i.seq = w.issued) (hequiv : Queues.Equiv (requeued q p) s.queues)
    (hs' : s'.queues = s.queues.alter fun id r =>
      if id ∈ p.numScheduledTokens.keys then cfg.issuedRequest t i.out id r else r) : Good cfg c { w with
      sched := s', inFlight := w.inFlight ++ [i], issued := w.issued + 1, leftAt := w.leave p.preemptedReqs } := by
  have hrequests := hequiv.requests
  have hback {id : RequestId} {r' : Request H} (hr' : s'.requests.get? id = some r') :
      ∃ r, q.requests.get? id = some r ∧
        (if id ∈ p.numScheduledTokens.keys then cfg.issuedRequest t i.out id r else r) = r' := by
    have hmap : (s.queues.requests.get? id).map (fun r =>
        if id ∈ p.numScheduledTokens.keys then cfg.issuedRequest t i.out id r else r) = some r' := by
      rwa [show s'.requests = _ from congrArg requests hs'] at hr'
    rw [hrequests] at hmap
    exact map_eq_some_iff.1 hmap
  have hfirst {id : RequestId} {r : Request H} (hr : q.requests.get? id = some r) : id ∈ w.used := by
    obtain ⟨r₀, hr₀, _⟩ := hrec.served id r hr
    exact h.used id r₀ hr₀
  have hsteps {P : Issued n → Prop} (hold : ∀ j ∈ w.inFlight, P j) (hnew : P i) : ∀ j ∈ w.inFlight ++ [i], P j :=
    forall_mem_append.2 ⟨hold, forall_mem_singleton.2 hnew⟩
  have hretabled : s.queues.Retabled s'.queues := by
    rw [hs']
    refine Retabled.of_alter fun id r hr => ?_
    split_ifs with hid
    · obtain ⟨r₁, hr₁, hstatus⟩ := running_of_scheduled hrec hid
      rw [hrequests] at hr
      obtain rfl := some.inj (hr₁.symm.trans hr)
      obtain ⟨hsame, hstatus', _⟩ := issuedRequest_same cfg t i.out id r₁
      refine ⟨.of_status hsame hstatus', fun hw => ?_⟩
      rw [hstatus] at hw
      cases hw
    · exact ⟨.of_status rfl rfl, fun _ hh => .inl hh⟩
  have hcounted : Counted q := counted_of_record h.counted hrec
  have hcounted : Counted (requeued q p) := hcounted
  have hstreaming : s'.queues.streaming = s.queues.streaming := by rw [hs']; rfl
  refine ⟨(hrec.placed.equiv hequiv).retable hretabled, (hcounted.equiv hequiv).retable hretabled hstreaming,
    h.ordered.concat fun j hj => ?_, hsteps (fun j hj => ?_) ?_, fun id => ?_,
    hsteps h.drafts fun id => hi.drafts_sampled hrec, hsteps h.samples fun id hs => ?_,
    hsteps h.known fun id hpos => ?_, fun id r' hr' => ?_, fun id r' hr' => ?_⟩
  · rw [hseq]
    exact h.bound j hj
  · exact Nat.lt_succ_of_lt (h.bound j hj)
  · rw [hseq]
    exact lt_add_one _
  · exact Nat.le_succ_of_le (leave_le h _ id)
  · have hid : id ∈ p.numScheduledTokens.keys := by
      by_contra hnot
      rw [hi.others id hnot] at hs
      cases hs
    obtain ⟨r, hr, _⟩ := running_of_scheduled hrec hid
    rw [hi.tokens]
    exact (hrec.chunk id hid r hr).nonempty
  · obtain ⟨r, hr, _⟩ := running_of_scheduled hrec (hi.scheduled hpos)
    exact hfirst hr
  · obtain ⟨r, hr, _⟩ := hback hr'
    exact hfirst hr
  · obtain ⟨r, hr, rfl⟩ := hback hr'
    obtain ⟨r₀, hr₀, hserved⟩ := hrec.served id r hr
    -- first the pass itself, with the steps of before, then the new step
    have hacc := (h.accounts id r₀ hr₀).served h.bound hserved
    split_ifs with hid
    · obtain ⟨r₁, hr₁, hstatus⟩ := running_of_scheduled hrec hid
      cases hr₁.symm.trans hr
      exact hacc.issue hseq (leave_le h _ id) hstatus (hi.these id hid _ hr)
    · refine hacc.issue_other ?_ (hi.others id hid)
      rw [hi.tokens, tokens_of_not_scheduled hid]

end Issue

/-! ## Processing an output -/

section Output

variable {i : Issued n} {rest : List (Issued n)} {mro : ModelRunnerOutput} {st st' : Stopped} {q q' : Queues H}
  {rem failed : List RequestId}

/-- While the output of the step `i` is processed: the requests `rem` are still to be visited, the others have
the accounts of the later steps. -/
structure Receiving (cfg : SchedulerConfig H n) (c : Prop) (w : World H n) (i : Issued n)
    (rest : List (Issued n)) (rem : List RequestId) (q : Queues H) (st : Stopped) : Prop where
  placed : Placed c (settle st q)
  counted : Counted q
  nodup : rem.Nodup
  fresh : ∀ id ∈ rem, id ∉ st.sessions ∧ id ∉ st.preempted
  onTime : c → ∀ id ∈ rem, ∀ r, 0 < i.tokens id → q.requests.get? id = some r → OnTime r
  used : ∀ id r, q.requests.get? id = some r → id ∈ w.used
  accounts : ∀ id r, q.requests.get? id = some r →
    if id ∈ rem then cfg.Account (i :: rest) w.issued (w.leftAt id) id r
    else cfg.Account rest w.issued (w.leave st.sessions id) id r

theorem settle_none (q : Queues H) : settle {} q = q := by
  have hall (l : List RequestId) : l.filter (· ∉ ([] : List RequestId)) = l :=
    filter_eq_self.2 fun _ _ => decide_eq_true not_mem_nil
  unfold settle
  rw [hall, hall, hall]

/-- A step without tokens of the request changes no account. -/
theorem account_tail (h : cfg.Account (i :: rest) issued left id r)
    (hordered : Fence.Ordered Issued.seq (i :: rest)) (hzero : i.tokens id = 0) :
    cfg.Account rest issued left id r := by
  have hdrain := h.drain hordered
  rw [hzero] at hdrain
  refine hdrain.congr ?_ ?_ rfl (fun hf => hf) (fun hw => hw) rfl fun hs => hs
  · show r.numInFlightTokens = r.numInFlightTokens - ((0 : ℕ) : ℤ)
    omega
  · show r.numStaleOutputTokens =
      if 0 < r.numStaleOutputTokens then r.numStaleOutputTokens - ((0 : ℕ) : ℤ) else r.numStaleOutputTokens
    split <;> omega

theorem Good.receiving (h : w.Good cfg c) (hsteps : w.inFlight = i :: rest)
    (hontime : c → ∀ id r, 0 < i.tokens id → w.sched.requests.get? id = some r → OnTime r)
    (hq : w.sched.queues.Recomputed q) : Receiving cfg c w i rest i.out.numScheduledTokens.keys q {} := by
  have hback {id : RequestId} {r : Request H} (hr : q.requests.get? id = some r) :
      ∃ r₀ k, w.sched.requests.get? id = some r₀ ∧ { r₀ with numComputedTokens := k } = r := by
    have hkey : id ∈ w.sched.queues.requests.keys := by
      rw [← hq.keys]
      exact mem_keys_of_get? hr
    obtain ⟨r₀, hr₀⟩ := exists_of_mem_keys hkey
    obtain ⟨k, hk, _⟩ := hq.request id r₀ hr₀
    exact ⟨r₀, k, hr₀, some.inj (hk.symm.trans hr)⟩
  refine ⟨?_, h.counted.retable (hq.retabled h.placed.seated) hq.streaming, i.out.numScheduledTokens.nodup,
    fun _ _ => ⟨not_mem_nil, not_mem_nil⟩,
    fun hc id hid r hpos hr => ?_, fun id r hr => ?_, fun id r hr => ?_⟩
  · rw [settle_none]
    exact h.placed.retable (hq.retabled h.placed.seated)
  · obtain ⟨r₀, k, hr₀, rfl⟩ := hback hr
    exact hontime hc id r₀ hpos hr₀
  · obtain ⟨r₀, k, hr₀, rfl⟩ := hback hr
    exact h.used id r₀ hr₀
  · obtain ⟨r₀, k, hr₀, rfl⟩ := hback hr
    have hacc : cfg.Account (i :: rest) w.issued (w.leftAt id) id { r₀ with numComputedTokens := k } := by
      rw [← hsteps]
      exact (h.accounts id r₀ hr₀).congr rfl rfl rfl (fun hf => hf) (fun hw => hw) rfl fun hs => hs
    split_ifs with hid
    · exact hacc
    refine account_tail hacc (hsteps ▸ h.ordered) ?_
    unfold Issued.tokens
    rw [not_mem_keys_iff.1 hid]
    rfl

theorem output_known (hstep : cfg.OutputStep i.out mro failed id q st q' st')
    (hr' : q'.requests.get? id = some r') : ∃ r, q.requests.get? id = some r := by
  cases hstep with
  | unknown _ => exact ⟨r', hr'⟩
  | ignored hr _ | continued hr _ _ | finished hr _ _ _ _ | nextTurn hr _ _ _ _ => exact ⟨_, hr⟩

theorem mem_add {wasRunning finished : Bool} {id' : RequestId} (hne : id' ≠ id) :
    (id' ∈ (st.add id wasRunning finished).sessions ↔ id' ∈ st.sessions) ∧
      (id' ∈ (st.add id wasRunning finished).preempted ↔ id' ∈ st.preempted) := by
  cases wasRunning <;> cases finished <;> simp [Stopped.add, hne]

theorem output_stopped (hstep : cfg.OutputStep i.out mro failed id q st q' st') {id' : RequestId} (hne : id' ≠ id) :
    (id' ∈ st'.sessions ↔ id' ∈ st.sessions) ∧ (id' ∈ st'.preempted ↔ id' ∈ st.preempted) := by
  cases hstep with
  | unknown _ | ignored _ _ | continued _ _ _ => exact ⟨Iff.rfl, Iff.rfl⟩
  | finished _ _ _ _ _ | nextTurn _ _ _ _ _ => exact mem_add hne

theorem Receiving.round (hgood : w.Good cfg c) (hsteps : w.inFlight = i :: rest)
    (hsampled : ∀ id, (mro.sampledTokenIds id).length ≤ cfg.tokensDue id i)
    (h : Receiving cfg c w i rest (id :: rem) q st) (hpos : 0 < i.tokens id)
    (hstep : cfg.OutputStep i.out mro failed id q st q' st') : Receiving cfg c w i rest rem q' st' := by
  have hmem : i ∈ w.inFlight := hsteps ▸ mem_cons_self
  obtain ⟨hout, hnodup⟩ := nodup_cons.1 h.nodup
  obtain ⟨hsession, hpreempted⟩ := h.fresh id mem_cons_self
  have hother {id' : RequestId} (hid' : id' ∈ rem) : id' ≠ id := fun heq => hout (heq ▸ hid')
  refine ⟨SchedulerConfig.Placed.output h.placed hstep hpreempted fun hc r hr =>
      h.onTime hc id mem_cons_self r hpos hr,
    SchedulerConfig.Counted.output h.counted hstep fun r hr hs => ?_, hnodup, fun id' hid' => ?_,
    fun hc id' hid' r hpos' hr => ?_, fun id' r' hr' => ?_, fun id' r' hr' => ?_⟩
  · -- a paused session has left all steps in flight behind
    have hacc := h.accounts id r hr
    rw [if_pos mem_cons_self] at hacc
    have hwaiting : r.status.isWaiting := by
      rw [hs]
      rfl
    have hbehind := (hacc.idle hwaiting).2 i mem_cons_self hpos
    have hstale := hacc.stale_iff (hsteps ▸ hgood.ordered) hpos (isFinished_of_waiting hwaiting)
    exact ⟨hstale.2 hbehind, hacc.paused hs⟩
  · obtain ⟨hs, hp⟩ := output_stopped hstep (hother hid')
    rw [hs, hp]
    exact h.fresh id' (mem_cons_of_mem _ hid')
  · rw [OutputStep.others cfg hstep (hother hid')] at hr
    exact h.onTime hc id' (mem_cons_of_mem _ hid') r hpos' hr
  · by_cases hid : id' = id
    · subst hid
      obtain ⟨r, hr⟩ := output_known hstep hr'
      exact h.used id' r hr
    · rw [OutputStep.others cfg hstep hid] at hr'
      exact h.used id' r' hr'
  · by_cases hid : id' = id
    · subst hid
      obtain ⟨r, hr⟩ := output_known hstep hr'
      -- the visited request: its account loses the step `i`
      have hacc := h.accounts id' r hr
      rw [if_pos mem_cons_self] at hacc
      rw [if_neg hout]
      refine hacc.output (hsteps ▸ hgood.ordered) (hsampled id') (hgood.drafts i hmem id') hr (fun j hj => ?_) hpos
        hsession hstep hr'
      exact hgood.bound j (hsteps ▸ mem_cons_of_mem _ hj)
    · rw [OutputStep.others cfg hstep hid] at hr'
      have hacc := h.accounts id' r' hr'
      unfold leave at hacc ⊢
      simpa only [mem_cons, hid, false_or, (output_stopped hstep hid).1] using hacc

/-- The queues after the main loop. -/
structure Received (cfg : SchedulerConfig H n) (c : Prop) (w : World H n) (rest : List (Issued n))
    (q : Queues H) (st : Stopped) : Prop where
  placed : Placed c q
  counted : Counted q
  used : ∀ id r, q.requests.get? id = some r → id ∈ w.used
  accounts : ∀ id r, q.requests.get? id = some r → cfg.Account rest w.issued (w.leave st.sessions id) id r

theorem Receiving.remove (h : Receiving cfg c w i rest [] q st) (hq : (settle st q).Equiv q') :
    Received cfg c w rest q' st := by
  have hrequests := hq.requests
  have hcounted : Counted (settle st q) := h.counted
  refine ⟨h.placed.equiv hq, hcounted.equiv hq, fun id r hr => ?_, fun id r hr => ?_⟩
  · rw [hrequests] at hr
    exact h.used id r hr
  · rw [hrequests] at hr
    have hacc := h.accounts id r hr
    rwa [if_neg not_mem_nil] at hacc

theorem Received.finish (h : Received cfg c w rest q st)
    (hrs : ∀ r ∈ rs, q.requests.get? r.requestId = some r) (hnodup : (rs.map requestId).Nodup)
    (hf : q.Finished rs status q') (hstatus : status.isFinished) : Received cfg c w rest q' st := by
  have hback := accounts_finished hf hstatus hrs h.accounts
  refine ⟨h.placed.finished hf hrs hstatus, h.counted.finished hf hrs hnodup hstatus, fun id r hr => ?_,
    fun id r hr => (hback id r hr).2⟩
  obtain ⟨r₀, hr₀⟩ := (hback id r hr).1
  exact h.used id r₀ hr₀

theorem Received.forget (h : Received cfg c w rest q st) (hq : q.Forgotten q') : Received cfg c w rest q' st := by
  have hback {id : RequestId} {r : Request H} (hr : q'.requests.get? id = some r) : q.requests.get? id = some r := by
    rcases hq.request id with hsame | ⟨hnone, _⟩
    · exact hsame.symm.trans hr
    · cases hnone.symm.trans hr
  exact ⟨h.placed.retable hq.retabled, h.counted.retable hq.retabled hq.streaming,
    fun id r hr => h.used id r (hback hr),
    fun id r hr => h.accounts id r (hback hr)⟩

theorem Good.received (h : w.Good cfg c) (hsteps : w.inFlight = i :: rest) (hr : Received cfg c w rest s'.queues st) :
    Good cfg c { w with sched := s', inFlight := rest, leftAt := w.leave st.sessions } := by
  have hmem {j : Issued n} (hj : j ∈ rest) : j ∈ w.inFlight := hsteps ▸ mem_cons_of_mem _ hj
  have hordered : Fence.Ordered Issued.seq (i :: rest) := hsteps ▸ h.ordered
  exact ⟨hr.placed, hr.counted, hordered.tail, fun j hj => h.bound j (hmem hj), leave_le h _,
    fun j hj => h.drafts j (hmem hj), fun j hj => h.samples j (hmem hj), fun j hj => h.known j (hmem hj),
    hr.used, hr.accounts⟩

end Output

/-! ## Drafts -/

theorem Good.drafted {specTokenIds : RequestId → Request H → List ℤ} (h : w.Good cfg c)
    (hs' : s'.queues = w.sched.queues.alter fun id r => { r with specTokenIds := specTokenIds id r }) :
    Good cfg c { w with sched := s' } := by
  have hback {id : RequestId} {r' : Request H} (hr' : s'.requests.get? id = some r') :
      ∃ r, w.sched.requests.get? id = some r ∧ { r with specTokenIds := specTokenIds id r } = r' := by
    rw [show s'.requests = _ from congrArg requests hs'] at hr'
    exact map_eq_some_iff.1 hr'
  have hretabled : w.sched.queues.Retabled s'.queues := by
    rw [hs']
    exact Retabled.of_alter fun id r _ => ⟨.of_status rfl rfl, fun _ hh => .inl hh⟩
  have hstreaming : s'.queues.streaming = w.sched.queues.streaming := by rw [hs']; rfl
  refine { h with placed := h.placed.retable hretabled, counted := h.counted.retable hretabled hstreaming,
                  used := fun id r' hr' => ?_, accounts := fun id r' hr' => ?_ }
  · obtain ⟨r, hr, rfl⟩ := hback hr'
    exact h.used id r hr
  · obtain ⟨r, hr, rfl⟩ := hback hr'
    exact (h.accounts id r hr).congr rfl rfl rfl (fun hf => hf) (fun hw => hw) rfl fun hs => hs

/-- Drafts that come later are cut or padded to the number of those that the step has. -/
theorem updateDraftTokenIdsInOutput_same (drafts : List (RequestId × List ℤ)) (out : SchedulerOutput n) :
    (updateDraftTokenIdsInOutput s drafts out).numScheduledTokens = out.numScheduledTokens ∧
      ∀ id, (((updateDraftTokenIdsInOutput s drafts out).scheduledSpecDecodeTokens.get? id).getD []).length =
        ((out.scheduledSpecDecodeTokens.get? id).getD []).length := by
  unfold updateDraftTokenIdsInOutput
  refine foldlRecOn (motive := fun o : SchedulerOutput n => o.numScheduledTokens = out.numScheduledTokens ∧
    ∀ id, ((o.scheduledSpecDecodeTokens.get? id).getD []).length =
      ((out.scheduledSpecDecodeTokens.get? id).getD []).length) drafts _ ⟨rfl, fun _ => rfl⟩ ?_
  rintro o ⟨hkeys, hdrafts⟩ ⟨id, specTokenIds⟩ -
  dsimp only
  split
  next r placeholders _ hplaceholders =>
    split
    · exact ⟨hkeys, hdrafts⟩
    refine ⟨hkeys, fun id' => ?_⟩
    rw [← hdrafts id', get?_set]
    split_ifs with hid
    · rw [hid, hplaceholders]
      simp only [getD_some, length_append, length_replicate, length_take]
      omega
    · rfl
  · exact ⟨hkeys, hdrafts⟩

/-- The account reads the number, the tokens and the tokens due of each step. -/
theorem account_redraft {i i' : Issued n} (h : cfg.Account (steps ++ [i]) issued left id r) (hseq : i'.seq = i.seq)
    (htokens : i'.tokens id = i.tokens id) (hdue : cfg.tokensDue id i' = cfg.tokensDue id i) :
    cfg.Account (steps ++ [i']) issued left id r := by
  have hbelow (b : ℕ) : below Issued.seq (·.tokens id) b (steps ++ [i']) =
      below Issued.seq (·.tokens id) b (steps ++ [i]) := by
    rw [below_append, below_append, below_cons, below_cons]
    simp only [hseq, htokens]
  have habove (b : ℕ) : above Issued.seq (cfg.tokensDue id) b (steps ++ [i']) =
      above Issued.seq (cfg.tokensDue id) b (steps ++ [i]) := by
    rw [above_append, above_append, above_cons, above_cons]
    simp only [hseq, hdue]
  obtain ⟨b, hb, hsum, hleft⟩ := h.stale
  refine ⟨?_, ⟨b, hb, ?_, hleft⟩, h.nonneg, fun hlive ha => ?_, h.sync,
    fun hw => ⟨(h.idle hw).1, fun j hj hpos => ?_⟩, h.paused⟩
  · rw [h.inFlight, map_append, map_append, map_singleton, map_singleton, htokens]
  · rw [hbelow]
    exact hsum
  · rw [habove]
    exact h.due hlive ha
  · rcases mem_append.1 hj with hj | hj
    · exact (h.idle hw).2 j (mem_append_left _ hj) hpos
    · rw [mem_singleton.1 hj] at hpos ⊢
      rw [hseq]
      exact (h.idle hw).2 i (mem_append_right _ mem_cons_self) (htokens ▸ hpos)

theorem Good.redraft (h : w.Good cfg c) (drafts : List (RequestId × List ℤ)) : Good cfg c (w.redraft drafts) := by
  unfold World.redraft
  cases hlast : w.inFlight.getLast? with
  | none => exact h
  | some i =>
    dsimp only
    have hsplit : w.inFlight = w.inFlight.dropLast ++ [i] := (dropLast_append_getLast? i (mem_def.2 hlast)).symm
    obtain ⟨hkeys, hlengths⟩ := updateDraftTokenIdsInOutput_same drafts i.out
    obtain ⟨i', hi'⟩ : ∃ i', i' = { i with out := updateDraftTokenIdsInOutput w.sched drafts i.out } := ⟨_, rfl⟩
    rw [← hi']
    have hseq : i'.seq = i.seq := by rw [hi']
    have hsamples : i'.samples = i.samples := by rw [hi']
    have htokens (id : RequestId) : i'.tokens id = i.tokens id := by
      unfold Issued.tokens
      rw [hi', hkeys]
    have hdrafts (id : RequestId) : i'.drafts id = i.drafts id := by
      rw [hi']
      exact hlengths id
    have hmem : i ∈ w.inFlight := hsplit ▸ mem_append_right _ mem_cons_self
    have hsteps {P : Issued n → Prop} (hold : ∀ j ∈ w.inFlight, P j) (hnew : P i') :
        ∀ j ∈ w.inFlight.dropLast ++ [i'], P j :=
      forall_mem_append.2 ⟨fun j hj => hold j (dropLast_subset _ hj), forall_mem_singleton.2 hnew⟩
    -- only the texts of the drafts change, not their number
    have hordered : Fence.Ordered Issued.seq (w.inFlight.dropLast ++ [i]) := hsplit ▸ h.ordered
    obtain ⟨hfirst, -, hless⟩ := pairwise_append.1 hordered
    refine ⟨h.placed, h.counted, Fence.Ordered.concat hfirst fun j hj => ?_, hsteps h.bound ?_, h.left,
      hsteps h.drafts fun id => ?_,
      hsteps h.samples fun id => ?_, hsteps h.known fun id => ?_, h.used, fun id r hr => ?_⟩
    · rw [hseq]
      exact hless j hj i mem_cons_self
    · rw [hseq]
      exact h.bound i hmem
    · rw [hdrafts, hsamples]
      exact h.drafts i hmem id
    · rw [hsamples, htokens]
      exact h.samples i hmem id
    · rw [htokens]
      exact h.known i hmem id
    · have hacc := h.accounts id r hr
      rw [hsplit] at hacc
      refine account_redraft hacc hseq (htokens id) ?_
      unfold tokensDue
      rw [hsamples, hdrafts]

end Calls

/-! ## Runs -/

/-- The call brings no output of a session that has been preempted since, unless it is dropped. -/
def InTime (w : World H n) : Call H n → Prop
  | .updateFromOutput _ => ∀ i ∈ w.inFlight.head?, ∀ id r, 0 < i.tokens id →
      w.sched.requests.get? id = some r → OnTime r
  | _ => True

variable {cfg} {c : Prop} [DecidableEq H] {w w' : World H n}

omit [DecidableEq H] in
theorem good_init (kv : KVCacheManager H n) (encoder : EncoderManager) : Good cfg c (init kv encoder) := by
  refine ⟨⟨⟨fun _ _ hr => ?_, ?_, fun _ hid => ?_, fun _ hid => ?_⟩, fun _ _ _ hr => ?_⟩, rfl, .nil, fun _ hi => ?_,
    fun _ => le_refl _, fun _ hi => ?_, fun _ hi => ?_, fun _ hi => ?_, fun _ _ hr => ?_, fun _ _ hr => ?_⟩
  · cases hr
  · exact nodup_nil
  · cases hid
  · cases hid
  · cases hr
  · cases hi
  · cases hi
  · cases hi
  · cases hi
  · cases hr
  · cases hr

theorem Good.scheduleStep (h : w.Good cfg c) (env : ScheduleEnv n) (hstep : w.step cfg (.schedule env) = some w') :
    w'.Good cfg c := by
  obtain ⟨⟨p, out⟩, s', hm, rfl⟩ := call_eq_some hstep
  have hidle : ∀ id r, w.sched.requests.get? id = some r → r.status.isWaiting →
      r.numOutputPlaceholders = 0 := fun id r hr hw => ((h.accounts id r hr).idle hw).1
  have hwp : wp (cfg.scheduleRecorded env) (fun result s' => ∃ q s t copies freed,
      cfg.PassRecord c w.sched.queues q result.1 ∧ Queues.Equiv (requeued q result.1) s.queues ∧
      result.2 = cfg.makeOutput s result.1 copies freed ∧
      s'.queues = s.queues.alter fun id r =>
        if id ∈ result.1.numScheduledTokens.keys then cfg.issuedRequest t result.2 id r else r) any w.sched := by
    unfold scheduleRecorded
    rw [wp_bind]
    refine wp_any (cfg.schedulePass_record env h.placed hidle) (fun p s ⟨q, hrec, hequiv⟩ => ?_)
    rw [wp_bind]
    refine wp_any (cfg.finishPass_effect p) (fun out s' ⟨t, copies, freed, hout, _, _, hs'⟩ => ?_)
    exact ⟨q, s, t, copies, freed, hrec, hequiv, hout, hs'⟩
  obtain ⟨q, s, t, copies, freed, hrec, hequiv, hout, hs'⟩ := wp_ok hwp hm
  dsimp only at hrec hequiv hout hs'
  have hkeys : out.numScheduledTokens = p.numScheduledTokens := by
    rw [hout]
    rfl
  have hspec : out.scheduledSpecDecodeTokens = p.scheduledSpecDecodeTokens := by
    rw [hout]
    rfl
  refine Good.issue h hrec ⟨fun id => ?_, fun id => ?_, fun id hid => ?_, fun id hid r hr => ?_⟩ rfl hequiv hs'
  · unfold Issued.tokens Pass.tokens
    rw [hkeys]
  · unfold Issued.drafts Pass.drafts
    rw [hspec]
  · dsimp only
    rw [hkeys, decide_eq_false hid]
    rfl
  · dsimp only
    have hr' : s'.requests.get? id = some (cfg.issuedRequest t out id r) := by
      have hget : s'.requests.get? id = (s.queues.requests.get? id).map (fun r =>
          if id ∈ p.numScheduledTokens.keys then cfg.issuedRequest t out id r else r) := by
        rw [show s'.requests = _ from congrArg requests hs']
        rfl
      rw [hget, hequiv.requests, show (requeued q p).requests.get? id = some r from hr, map_some, if_pos hid]
    rw [hkeys, decide_eq_true hid, hr']
    rfl

theorem Good.outputStep {mro : ModelRunnerOutput} (h : w.Good cfg c)
    (hallowed : Allowed cfg w (.updateFromOutput mro)) (hintime : c → InTime w (.updateFromOutput mro))
    (hstep : w.step cfg (.updateFromOutput mro) = some w') :
    w'.Good cfg c := by
  unfold step at hstep
  cases hsteps : w.inFlight with
  | nil =>
    rw [hsteps] at hstep
    cases hstep
  | cons i rest =>
    rw [hsteps] at hstep
    have hhead : i ∈ w.inFlight.head? := by
      rw [hsteps]
      rfl
    obtain ⟨st, s', hm, rfl⟩ := call_eq_some hstep
    have hinvariant : cfg.UpdateInvariant i.out mro w.sched (Receiving cfg c w i rest) (Received cfg c w rest) := by
      refine ⟨fun hq => ?_, fun hJ hpos hout => ?_, fun hJ hq => hJ.remove hq, fun hF => hF.placed.seated.keyed,
        fun hF hrs hnodup hf => ?_, fun hF hq => hF.forget hq⟩
      · exact h.receiving hsteps (fun hc => hintime hc i hhead) hq
      · exact hJ.round h hsteps (hallowed i hhead) hpos hout
      · exact hF.finish (fun r hr => (hrs r hr).1) hnodup hf rfl
    have hreceived := wp_ok (cfg.updateFromOutput_rule hinvariant) hm
    exact h.received hsteps hreceived

theorem Good.resetStep {resetRunningRequests : Bool} (h : w.Good cfg c)
    (hstep : w.step cfg (.resetPrefixCache resetRunningRequests) = some w') : w'.Good cfg c := by
  obtain ⟨ok, s', hm, rfl⟩ := call_eq_some hstep
  cases resetRunningRequests with
  | false =>
    have hwp : wp (cfg.preemptAndReset false) (fun _ s' => s'.queues = w.sched.queues) any w.sched := by
      unfold preemptAndReset
      rw [wp_bind, wp_runIf]
      refine ⟨fun h => (by cases h), fun _ => ?_⟩
      exact wp_any (Quiet.onKv w.sched.queues w.sched rfl) (fun _ _ hs' => hs')
    have hsame := wp_ok hwp hm
    exact h.quiet hsame
  | true =>
    have hwp : wp (cfg.preemptAndReset true) (fun _ s' =>
        ReflTransGen PreemptedLast w.sched.queues s'.queues ∧ s'.running = []) any w.sched := by
      unfold preemptAndReset
      rw [wp_bind, wp_runIf]
      refine ⟨fun _ => ?_, fun hnot => absurd rfl hnot⟩
      refine wp_any (wp_and (cfg.preemptAll_effect _) (preemptAll_empties cfg _ le_rfl))
        (fun _ s ⟨hchain, hempty⟩ => ?_)
      refine wp_any (Quiet.onKv s.queues s rfl) (fun _ s' hs' => ?_)
      rw [show s'.running = _ from congrArg running hs', hs']
      exact ⟨hchain, hempty⟩
    obtain ⟨hchain, hempty⟩ := wp_ok hwp hm
    exact h.preempted hchain hempty

theorem Good.step {call : Call H n} (h : w.Good cfg c) (hallowed : Allowed cfg w call) (hintime : c → InTime w call)
    (hstep : w.step cfg call = some w') : w'.Good cfg c := by
  cases call with
  | addRequest delayFree request =>
    obtain ⟨_, s', hm, rfl⟩ := call_eq_some hstep
    have hadded := wp_ok (cfg.addRequest_effect delayFree request h.placed.seated.keyed) hm
    exact h.added hallowed.1 hallowed.2 hadded
  | schedule env => exact h.scheduleStep env hstep
  | updateFromOutput mro => exact h.outputStep hallowed hintime hstep
  | finishRequests delayFree requestIds status =>
    obtain ⟨_, s', hm, rfl⟩ := call_eq_some hstep
    obtain ⟨hstatus, hf⟩ := wp_ok (cfg.finishRequests_effect delayFree requestIds status h.placed.seated.keyed) hm
    have hnodup : (requestedIds w.sched requestIds).Nodup := by
      cases requestIds with
      | none => exact w.sched.requests.nodup
      | some ids => exact nodup_dedup ids
    obtain ⟨hnodup', hmem⟩ := unfinishedAmong_spec h.placed.seated.keyed hnodup
    exact h.finished hf hstatus (fun r hr => ((hmem r).1 hr).2.1) hnodup'
  | resetPrefixCache resetRunningRequests => exact h.resetStep hstep
  | resetEncoderCache =>
    obtain ⟨_, s', hm, rfl⟩ := call_eq_some hstep
    have hsame := wp_ok (Quiet.onEncoder w.sched.queues w.sched rfl) hm
    exact h.quiet hsame
  | updateDraftTokenIds drafts =>
    obtain ⟨_, s', hm, rfl⟩ := call_eq_some hstep
    obtain ⟨specTokenIds, hs'⟩ := wp_ok (updateDraftTokenIds_effect drafts) hm
    exact h.drafted hs'
  | updateDraftTokenIdsInOutput drafts =>
    cases hstep
    exact h.redraft drafts
  | setPauseState pauseState =>
    have hcall : w.call (setPauseState pauseState) (fun _ s => { w with sched := s }) = some w' := hstep
    obtain ⟨_, s', hm, rfl⟩ := call_eq_some hcall
    have hquiet : Quiet (setPauseState pauseState : SchedM H n Unit) := Quiet.modify fun _ => rfl
    have hsame := wp_ok (hquiet w.sched.queues w.sched rfl) hm
    exact h.quiet hsame

theorem good_of_run {P : World H n → Call H n → Prop} {kv : KVCacheManager H n} {encoder : EncoderManager}
    (hrun : Runs cfg P (init kv encoder) w) (hP : c → ∀ w call, P w call → InTime w call) : w.Good cfg c :=
  Runs.induction cfg hrun (good_init kv encoder) fun w call _ hgood hallowed hcall hstep =>
    hgood.step hallowed (fun hc => hP hc w call hcall) hstep

end World

end VllmRwkv
