import VllmRwkv.Sched.PassRecord
import VllmRwkv.Sched.World

/-!
# The budgets of a pass

A pass spends three budgets: tokens, input slots and encoder compute. `Spent` says that what the record
of a pass holds and what is left of the budgets add up, that everything recorded about a request goes
with its scheduled tokens, and that no chunk leads past the length of the model unless its request came in
too long. Rolling a preempted request back and scheduling a request keep it; `schedule_withinBudget` is the
result for `schedule`.
-/

namespace VllmRwkv

open List Dict Option KVCacheManager Raise

variable {H : Type} {n : ℕ}

/-- All requests that the record of a pass lists as scheduled. -/
def Pass.listed (p : Pass n) : List RequestId :=
  p.scheduledNewReqs ++ (p.scheduledResumedReqs ++ p.scheduledRunningReqs)

namespace SchedulerConfig

open Scheduler Queues

variable (cfg : SchedulerConfig H n)

section

variable (limit : ℕ) (q₀ q : Queues H) (p : Pass n)

/-- The request `id` waits with more tokens than the model takes. -/
def Outgrown (id : RequestId) : Prop :=
  ∃ r, q.requests.get? id = some r ∧ r.status.isWaiting ∧ cfg.cache.maxModelLen < r.numTokens

/-- The record `p` of a pass that started with `limit` tokens and the queues `q₀`. -/
structure Spent : Prop where
  tokens : p.tokenBudget + p.numScheduledTokens.total = limit
  input : p.inputBudget + p.numScheduledTokens.total + p.numScheduledTokens.keys.length * cfg.draftSlots =
    cfg.maxNumBatchedTokens
  encoder : 0 ≤ p.encoderComputeBudget
  blocks : ∀ id, id ∉ p.numScheduledTokens.keys → p.reqToNewBlocks.get? id = none
  encoderInputs : ∀ id, id ∉ p.numScheduledTokens.keys → p.scheduledEncoderInputs.get? id = none
  listed : ∀ id ∈ p.listed, id ∈ p.numScheduledTokens.keys
  nodup : p.scheduledRunningReqs.Nodup
  length : ∀ id ∈ p.numScheduledTokens.keys, ¬ cfg.Outgrown q₀ id → ∀ r, q.requests.get? id = some r →
    r.numComputedTokens + p.tokens id ≤ cfg.cache.maxModelLen

/-- While the running requests are served, no other request is listed. -/
structure RunningSpent : Prop where
  spent : cfg.Spent limit q₀ q p
  noneAdmitted : p.scheduledNewReqs = [] ∧ p.scheduledResumedReqs = []

end

section Lemmas

variable {cfg} {c : Prop} {limit : ℕ} {q₀ q q' : Queues H} {p p' : Pass n} {id v : RequestId}
  {r r' rv : Request H} {reqIndex : ℕ}

/-! ## Preempting a request -/

/-- A request that the pass has not scheduled is preempted. -/
theorem Spent.keep (h : cfg.Spent limit q₀ q p) (hnot : v ∉ p.numScheduledTokens.keys)
    (hothers : ∀ id, id ≠ v → q'.requests.get? id = q.requests.get? id) (preempted : List RequestId) :
    cfg.Spent limit q₀ q' { p with preemptedReqs := preempted } := by
  refine ⟨h.tokens, h.input, h.encoder, h.blocks, h.encoderInputs, h.listed, h.nodup, fun id hid hshort r hr => ?_⟩
  have hne : id ≠ v := fun heq => hnot (heq ▸ hid)
  rw [hothers id hne] at hr
  exact h.length id hid hshort r hr

/-- A request that the pass has scheduled is preempted: everything recorded about it is taken back. -/
theorem Spent.rollback (h : cfg.Spent limit q₀ q p) (hadmitted : p.scheduledNewReqs = [] ∧ p.scheduledResumedReqs = [])
    (hv : v ∈ p.scheduledRunningReqs)
    (hothers : ∀ id, id ≠ v → q'.requests.get? id = q.requests.get? id) (preempted : List RequestId) :
    cfg.Spent limit q₀ q' { Pass.rollback p cfg.draftSlots v rv with preemptedReqs := preempted } := by
  have hkey : v ∈ p.numScheduledTokens.keys := h.listed v (mem_append_right _ (mem_append_right _ hv))
  obtain ⟨k, hk⟩ := exists_of_mem_keys hkey
  have hrestored : (p.numScheduledTokens.get? v).getD 0 = k := by rw [hk]; rfl
  have htotal := total_erase hk
  have hlen : (p.numScheduledTokens.erase v).keys.length + 1 = p.numScheduledTokens.keys.length := by
    have := length_erase_of_mem hkey
    have hpos := length_pos_of_mem hkey
    show (p.numScheduledTokens.keys.erase v).length + 1 = _
    omega
  have hmem : ∀ id, id ∉ (p.numScheduledTokens.erase v).keys → id = v ∨ id ∉ p.numScheduledTokens.keys := by
    intro id hid
    rwa [mem_keys_erase, not_and_or, not_not] at hid
  refine ⟨?_, ?_, ?_, fun id hid => ?_, fun id hid => ?_, fun id hid => ?_, h.nodup.erase v,
    fun id hid hshort r hr => ?_⟩
  · show p.tokenBudget + (p.numScheduledTokens.get? v).getD 0 + (p.numScheduledTokens.erase v).total = limit
    have := h.tokens
    omega
  · show p.inputBudget + (p.numScheduledTokens.get? v).getD 0 + cfg.draftSlots +
      (p.numScheduledTokens.erase v).total + (p.numScheduledTokens.erase v).keys.length * cfg.draftSlots = _
    have hinput := h.input
    rw [← hlen, add_mul, one_mul] at hinput
    omega
  · exact Int.add_nonneg h.encoder (Int.natCast_nonneg _)
  · show (p.reqToNewBlocks.erase v).get? id = none
    rw [get?_erase, ite_eq_left_iff]
    exact fun hne => h.blocks id ((hmem id hid).resolve_left hne)
  · show (p.scheduledEncoderInputs.erase v).get? id = none
    rw [get?_erase, ite_eq_left_iff]
    exact fun hne => h.encoderInputs id ((hmem id hid).resolve_left hne)
  · have hid' : id ∈ p.scheduledRunningReqs.erase v := by
      have : id ∈ p.scheduledNewReqs ++ (p.scheduledResumedReqs ++ p.scheduledRunningReqs.erase v) := hid
      rwa [hadmitted.1, hadmitted.2] at this
    have hne : id ≠ v := fun heq => (h.nodup.not_mem_erase) (heq ▸ hid')
    exact mem_keys_erase.2 ⟨hne, h.listed id (mem_append_right _ (mem_append_right _ (mem_of_mem_erase hid')))⟩
  · obtain ⟨hne, hid⟩ := mem_keys_erase.1 hid
    rw [hothers id hne] at hr
    have hsame : Pass.tokens { Pass.rollback p cfg.draftSlots v rv with preemptedReqs := preempted } id =
        p.tokens id := congrArg (Option.getD · 0) (get?_erase_of_ne hne)
    rw [hsame]
    exact h.length id hid hshort r hr

variable (cfg) in
theorem passWithout_cases (v : RequestId) (rv : Request H) (p : Pass n) : cfg.passWithout v rv p = p ∨
    v ∈ p.scheduledRunningReqs ∧ cfg.passWithout v rv p = Pass.rollback p cfg.draftSlots v rv := by
  unfold passWithout
  split
  · exact .inl rfl
  split_ifs with hlisted
  · exact .inr ⟨hlisted, rfl⟩
  · exact .inl rfl

/-- Whatever the policy, the record without the victim adds up. -/
theorem RunningSpent.preempt (h : cfg.RunningSpent limit q₀ q p) (hrec : cfg.RunningRecord c q₀ q reqIndex p)
    (hlt : reqIndex < q.running.length) (hv : cfg.nextVictim q = some v)
    (hothers : ∀ id, id ≠ v → q'.requests.get? id = q.requests.get? id) (rv : Request H) :
    cfg.RunningSpent limit q₀ q' { cfg.passWithout v rv p with
      preemptedReqs := (cfg.passWithout v rv p).preemptedReqs ++ [v] } := by
  have hgone : (cfg.passWithout v rv p).numScheduledTokens.get? v = none := (hrec.unscheduled hlt hv rv).victim.1
  rcases cfg.passWithout_cases v rv p with heq | ⟨hlisted, heq⟩
  · rw [heq] at hgone ⊢
    exact ⟨h.spent.keep (not_mem_keys_iff.2 hgone) hothers _, h.noneAdmitted⟩
  · rw [heq]
    exact ⟨h.spent.rollback h.noneAdmitted hlisted hothers _, h.noneAdmitted⟩

/-! ## Scheduling a request -/

/-- The record `p'` has gained a chunk of `k` tokens of the request `id`. -/
structure Charged (cfg : SchedulerConfig H n) (id : RequestId) (k : ℕ) (p p' : Pass n) : Prop where
  tokens : p'.numScheduledTokens = p.numScheduledTokens.set id k
  tokenBudget : p'.tokenBudget = p.tokenBudget - k
  inputBudget : p'.inputBudget = p.inputBudget - (k + cfg.draftSlots)
  encoder : 0 ≤ p'.encoderComputeBudget
  blocks : ∀ id', id' ≠ id → p'.reqToNewBlocks.get? id' = p.reqToNewBlocks.get? id'
  encoderInputs : ∀ id', id' ≠ id → p'.scheduledEncoderInputs.get? id' = p.scheduledEncoderInputs.get? id'
  listed : ∀ id' ∈ p'.listed, id' = id ∨ id' ∈ p.listed
  runningReqs : p'.scheduledRunningReqs = p.scheduledRunningReqs ∨
    p'.scheduledRunningReqs = p.scheduledRunningReqs ++ [id]

theorem Spent.charge {k : ℕ} (h : cfg.Spent limit q₀ q p) (hp : Charged cfg id k p p')
    (hnot : id ∉ p.numScheduledTokens.keys) (hk : k ≠ 0) (htokens : k ≤ p.tokenBudget)
    (hinput : k ≤ p.inputBudget - cfg.draftSlots)
    (hothers : ∀ id', id' ≠ id → q'.requests.get? id' = q.requests.get? id')
    (hlength : ¬ cfg.Outgrown q₀ id → ∀ r, q'.requests.get? id = some r →
      r.numComputedTokens + k ≤ cfg.cache.maxModelLen) :
    cfg.Spent limit q₀ q' p' := by
  have htotal : p'.numScheduledTokens.total = p.numScheduledTokens.total + k := by
    rw [hp.tokens]
    exact total_set_new (not_mem_keys_iff.1 hnot)
  have hlen : p'.numScheduledTokens.keys.length = p.numScheduledTokens.keys.length + 1 := by
    rw [hp.tokens, keys_set_of_not_mem hnot, length_append, length_singleton]
  have hkeys : ∀ id', id' ∈ p'.numScheduledTokens.keys ↔ id' = id ∨ id' ∈ p.numScheduledTokens.keys := by
    intro id'
    rw [hp.tokens]
    exact mem_keys_set
  refine ⟨?_, ?_, hp.encoder, fun id' hid' => ?_, fun id' hid' => ?_, fun id' hid' => ?_, ?_,
    fun id' hid' hshort r hr => ?_⟩
  · have := h.tokens
    rw [hp.tokenBudget, htotal]
    omega
  · have := h.input
    rw [hp.inputBudget, htotal, hlen, add_mul, one_mul]
    omega
  · rw [hkeys, not_or] at hid'
    rw [hp.blocks id' hid'.1]
    exact h.blocks id' hid'.2
  · rw [hkeys, not_or] at hid'
    rw [hp.encoderInputs id' hid'.1]
    exact h.encoderInputs id' hid'.2
  · rw [hkeys]
    exact (hp.listed id' hid').imp_right (h.listed id')
  · rcases hp.runningReqs with heq | heq
    · rw [heq]
      exact h.nodup
    · rw [heq]
      refine nodup_append.2 ⟨h.nodup, nodup_singleton _, ?_⟩
      intro a ha b hb hab
      rw [mem_singleton.1 hb] at hab
      exact hnot (hab ▸ h.listed a (mem_append_right _ (mem_append_right _ ha)))
  · by_cases hne : id' = id
    · subst hne
      have hself : p'.tokens id' = k := by
        unfold Pass.tokens
        rw [hp.tokens, get?_set_self]
        rfl
      rw [hself]
      exact hlength hshort r hr
    · rw [hothers id' hne] at hr
      have hsame : p'.tokens id' = p.tokens id' := by
        unfold Pass.tokens
        rw [hp.tokens, get?_set_of_ne hne]
      rw [hsame]
      exact h.length id' (((hkeys id').1 hid').resolve_left hne) hshort r hr

/-- Recording encoder inputs changes what is recorded for the request, and the encoder budget. -/
theorem recordEncoder_eq (id : RequestId) (plan : EncoderPlan) (p : Pass n) : ∃ inputs budget, recordEncoder id plan p =
        { p with scheduledEncoderInputs := inputs, encoderComputeBudget := budget } ∧
      (∀ id', id' ≠ id → inputs.get? id' = p.scheduledEncoderInputs.get? id') ∧
      (0 ≤ p.encoderComputeBudget → 0 ≤ plan.encoderComputeBudget → 0 ≤ budget) := by
  unfold recordEncoder
  split
  · exact ⟨_, _, rfl, fun _ _ => rfl, fun h _ => h⟩
  · exact ⟨_, _, rfl, fun _ hne => get?_set_of_ne hne, fun _ h => h⟩

theorem charged_recordRunning {k : ℕ} (plan : EncoderPlan) (newBlocks : Fin n → List KVCacheBlock)
    (hsolvent : 0 ≤ p.encoderComputeBudget) (hplan : 0 ≤ plan.encoderComputeBudget) :
    Charged cfg id k p (recordEncoder id plan (cfg.recordRunning id r k newBlocks p)) := by
  obtain ⟨inputs, budget, heq, hothers, hbudget⟩ := recordEncoder_eq id plan (cfg.recordRunning id r k newBlocks p)
  rw [heq]
  refine ⟨rfl, rfl, rfl, hbudget hsolvent hplan, fun _ hne => get?_set_of_ne hne, hothers,
    fun id' hid' => ?_, .inr rfl⟩
  have hid' : id' ∈ p.scheduledNewReqs ++ (p.scheduledResumedReqs ++ (p.scheduledRunningReqs ++ [id])) := hid'
  simp only [mem_append, mem_singleton] at hid'
  unfold Pass.listed
  simp only [mem_append]
  tauto

theorem charged_recordAdmitted {look : Lookup n} {chunk : Chunk} (blocks : Fin n → List KVCacheBlock)
    (hsolvent : 0 ≤ p.encoderComputeBudget) (hplan : 0 ≤ chunk.encoder.encoderComputeBudget) :
    Charged cfg id chunk.numNewTokens p
      (recordEncoder id chunk.encoder (cfg.recordAdmitted id r look chunk blocks p)) := by
  obtain ⟨inputs, budget, heq, hothers, hbudget⟩ :=
    recordEncoder_eq id chunk.encoder (cfg.recordAdmitted id r look chunk blocks p)
  rw [heq]
  refine ⟨rfl, rfl, rfl, hbudget hsolvent hplan, fun _ hne => get?_set_of_ne hne, hothers,
    fun id' hid' => ?_, .inl rfl⟩
  have hid' : id' ∈ (if r.status = .waiting then p.scheduledNewReqs ++ [id] else p.scheduledNewReqs) ++
      ((if r.status = .waiting then p.scheduledResumedReqs else p.scheduledResumedReqs ++ [id]) ++
        p.scheduledRunningReqs) := hid'
  unfold Pass.listed
  simp only [mem_append]
  split at hid' <;> simp only [mem_append, mem_singleton] at hid' <;> tauto

/-! ## What a pass leaves alone -/

theorem Kept.tokens (h : r.Kept r') : r'.numTokens = r.numTokens ∧ (r.ItemsSorted → r'.ItemsSorted) := by
  obtain ⟨_, _, _, _, rfl⟩ := h.same
  exact ⟨rfl, fun hs => hs⟩

theorem Decided.tokens (h : r.Decided r') : r'.numTokens = r.numTokens ∧ (r.ItemsSorted → r'.ItemsSorted) := by
  obtain ⟨_, _, _, rfl⟩ := h.same
  exact ⟨rfl, fun hs => hs⟩

theorem PassRecord.kept (h : cfg.PassRecord c q₀ q p) (hr : q.requests.get? id = some r)
    (hid : id ∉ p.preemptedReqs) : ∃ r₀, q₀.requests.get? id = some r₀ ∧ r₀.Kept r := by
  obtain ⟨r₀, hr₀, hserved⟩ := h.served id r hr
  unfold Served at hserved
  rw [if_neg hid] at hserved
  exact ⟨r₀, hr₀, hserved⟩

/-- A running request that the loop has reached is not scheduled yet. -/
theorem RunningRecord.not_scheduled (h : cfg.RunningRecord c q₀ q reqIndex p)
    (hat : q.running[reqIndex]? = some id) : id ∉ p.numScheduledTokens.keys := by
  intro hkey
  obtain ⟨i, hbefore, hi⟩ := exists_of_mem_take (h.visited id hkey)
  have hlt := (List.getElem?_eq_some_iff.1 hi).1
  have hsame := (getElem?_inj hlt h.record.placed.seated.nodup_running).1 (hi.trans hat.symm)
  omega

theorem PassRecord.not_scheduled (h : cfg.PassRecord c q₀ q p) (hr : q.requests.get? id = some r)
    (hwait : r.status.isWaiting) : id ∉ p.numScheduledTokens.keys := by
  intro hkey
  have hrunning := h.placed.seated.status_of_running hr (h.scheduled id hkey)
  rw [hrunning] at hwait
  cases hwait

/-- The chunk of a waiting request fits into the model. -/
theorem FirstChunk.length {deferPrefills : Bool} {threshold : ℕ} {look : Lookup n} {chunk : Chunk}
    (h : cfg.FirstChunk deferPrefills threshold p r look chunk)
    (hpad : chunk.padSpecDecode → chunk.numNewTokens = 1 + cfg.numSpecTokens)
    (hsorted : r.ItemsSorted) (hlen : r.numTokens ≤ cfg.cache.maxModelLen) :
    look.numComputedTokens + chunk.numNewTokens ≤ cfg.cache.maxModelLen := by
  have hsize := h.size
  have hpos := h.nonzero
  obtain ⟨numNewTokens, hwanted, -⟩ := h.wanted
  have hroom := (cfg.waitingNumNewTokens_spec hwanted).2.2.2
  cases hp : chunk.padSpecDecode with
  | true =>
    have := hpad hp
    have := hroom hp
    omega
  | false =>
    rw [hp] at hsize
    have : chunk.numNewTokens ≤ r.numTokens - look.numComputedTokens := hsize hsorted
    omega

/-! ## A whole pass -/

variable (cfg) in
theorem spent_invariant (c : Prop) (limit : ℕ) (q₀ : Queues H)
    (hitems : ∀ id r, q₀.requests.get? id = some r → r.ItemsSorted) :
    cfg.PassInvariant (fun q reqIndex p => cfg.RunningRecord c q₀ q reqIndex p ∧ cfg.RunningSpent limit q₀ q p)
      (fun q p => cfg.PassRecord c q₀ q p ∧ cfg.Spent limit q₀ q p) where
  skip := fun h hat => ⟨(cfg.passRecord_invariant c q₀).skip h.1 hat, h.2⟩
  preempt := fun {q q' reqIndex p v rv} h hlt hv hrv hstatus hq => by
    refine ⟨(cfg.passRecord_invariant c q₀).preempt h.1 hlt hv hrv hstatus hq,
      h.2.preempt h.1 hlt hv (fun id hne => ?_) rv⟩
    rw [hq.requests]
    exact get?_set_of_ne hne
  grant := fun {q reqIndex p id r numNewTokens} plan newBlocks h hat hr hk hfits hafford => by
    obtain ⟨hrec, hspent⟩ := h
    have hmem : id ∈ q.running := mem_of_getElem? hat
    obtain ⟨r₀, hr₀, hkept⟩ := hrec.record.kept hr fun hin => hrec.record.preempted id hin hmem
    have hsorted : r.ItemsSorted := (Kept.tokens hkept).2 (hitems id r₀ hr₀)
    obtain ⟨_, _, p₀, ⟨_, hspent₀⟩, hafford⟩ := hafford
    refine ⟨hrec.grant plan newBlocks hat hr hk hfits, ?_, ?_⟩
    · refine hspent.spent.charge
        (charged_recordRunning plan newBlocks hspent.spent.encoder (hafford.encoder hspent₀.spent.encoder))
        (hrec.not_scheduled hat) hk (hafford.tokens hsorted) (hafford.input hsorted)
        (fun id' hne => get?_set_of_ne hne) fun _ r₁ hr₁ => ?_
      obtain rfl := some.inj (Dict.get?_set_self.symm.trans hr₁)
      have hlen := hafford.length hsorted
      show r.numComputedTokens + numNewTokens ≤ _
      omega
    · obtain ⟨inputs, budget, heq, -⟩ := recordEncoder_eq id plan (cfg.recordRunning id r numNewTokens newBlocks p)
      rw [heq]
      exact hspent.noneAdmitted
  noneAside := fun h => h.1.noneAside
  admitNow := fun loras h => ⟨(cfg.passRecord_invariant c q₀).admitNow loras h.1, h.2.spent.tokens,
    h.2.spent.input, h.2.spent.encoder, h.2.spent.blocks, h.2.spent.encoderInputs, h.2.spent.listed,
    h.2.spent.nodup, h.2.spent.length⟩
  keyed := fun h hr => (cfg.passRecord_invariant c q₀).keyed h.1 hr
  stop := fun {q p id r r'} h hpre hid hr hdec hholds => by
    have hnot := h.1.not_scheduled hr (h.1.waiting_of_mem hid hr)
    exact ⟨h.1.stop hpre hid hr hdec hholds, h.2.keep hnot (fun id' hne => get?_set_of_ne hne) p.preemptedReqs⟩
  aside := fun {q q' p id r r' fromKvHolding} h hpre hr hdec hq => by
    have hnot := h.1.not_scheduled hr (h.1.waiting_of_mem (mem_of_enqueue hq) hr)
    have hreq : q'.requests = q.requests.set id r' := by
      have heq := hq.requests
      rw [requests_enqueue] at heq
      exact heq.symm
    have hkeep : cfg.Spent limit q₀ q' p := h.2.keep hnot (fun id' hne => by
      rw [hreq]
      exact get?_set_of_ne hne) p.preemptedReqs
    refine ⟨h.1.aside hpre hr hdec hq, ?_⟩
    split <;> exact ⟨hkeep.tokens, hkeep.input, hkeep.encoder, hkeep.blocks, hkeep.encoderInputs, hkeep.listed,
        hkeep.nodup, hkeep.length⟩
  accept := fun {q q' p id r r' fromKvHolding look chunk} blocks h hpre hr hdec hq hstatus hfirst hpad => by
    obtain ⟨hrec, hspent⟩ := h
    obtain ⟨_, _, hfirst⟩ := hfirst
    have hwait := hrec.waiting_of_mem (mem_of_enqueue hq) hr
    have hreq : q'.requests = q.requests.set id r' := by
      have heq := hq.requests
      rw [requests_enqueue] at heq
      exact heq.symm
    obtain ⟨r₀, hr₀, hkept⟩ := hrec.kept hr (by rw [hpre]; exact not_mem_nil)
    have hsorted : r'.ItemsSorted := (Decided.tokens hdec).2 ((Kept.tokens hkept).2 (hitems id r₀ hr₀))
    have hlen : ¬ cfg.Outgrown q₀ id → r'.numTokens ≤ cfg.cache.maxModelLen := by
      intro hshort
      rw [(Decided.tokens hdec).1, (Kept.tokens hkept).1]
      by_contra hlong
      exact hshort ⟨r₀, hr₀, hkept.waiting hwait, by omega⟩
    obtain ⟨numNewTokens, hwanted, hfits⟩ := hfirst.wanted
    have hafford := (cfg.waitingNumNewTokens_spec hwanted).2
    have hle : chunk.numNewTokens ≤ numNewTokens := by
      rw [hfirst.reserved]
      exact (cfg.reservePrefillLookahead_le _ _ _).trans (hfits hsorted)
    refine ⟨hrec.accept blocks hpre hr hdec hq hstatus hfirst hpad, hspent.charge
      (charged_recordAdmitted blocks hspent.encoder (hfirst.solvent hspent.encoder))
      (hrec.not_scheduled hr hwait) hfirst.nonzero (hle.trans hafford.1) (hle.trans hafford.2.1)
      (fun id' hne => ?_) fun hshort r₁ hr₁ => ?_⟩
    · show (q'.requests.set id _).get? id' = _
      rw [hreq, Dict.set_set]
      exact get?_set_of_ne hne
    · cases get?_set_self.symm.trans hr₁
      exact hfirst.length hpad hsorted (hlen hshort)

theorem spent_start (tokenBudget : ℕ) (q : Queues H) :
    cfg.RunningSpent tokenBudget q q ({ tokenBudget := tokenBudget
                                        inputBudget := cfg.maxNumBatchedTokens
                                        encoderComputeBudget := cfg.maxNumEncoderInputTokens } : Pass n) :=
  ⟨⟨rfl, by show cfg.maxNumBatchedTokens + 0 + 0 * cfg.draftSlots = _; omega, Int.natCast_nonneg _,
    fun _ _ => rfl, fun _ _ => rfl, nofun, nodup_nil, nofun⟩, rfl, rfl⟩

end Lemmas

/-! ## The output -/

/-- What `schedule` promises about the record `p` of its pass, its output and the state it leaves. -/
structure WithinBudget (limit : ℕ) (p : Pass n) (out : SchedulerOutput n) (s' : Scheduler H n) : Prop where
  /-- The tokens scheduled and the budget left add up to the budget of the pass, so nothing was
  subtracted below 0; the same holds for the input slots. -/
  tokens : p.tokenBudget + out.numScheduledTokens.total = limit
  input : p.inputBudget + out.numScheduledTokens.total +
    out.numScheduledTokens.keys.length * cfg.draftSlots = cfg.maxNumBatchedTokens
  encoder : 0 ≤ p.encoderComputeBudget
  total : out.totalNumScheduledTokens = out.numScheduledTokens.total ∧
    out.totalNumScheduledTokens ≤ cfg.maxNumScheduledTokens
  /-- `schedule` has added the scheduled tokens to the computed ones. -/
  scheduled : ∀ id k, out.numScheduledTokens.get? id = some k → 0 < k ∧ id ∈ s'.running ∧
    ∃ r, s'.requests.get? id = some r ∧ r.status = .running ∧ k ≤ r.numComputedTokens ∧
      r.numComputedTokens ≤ cfg.cache.maxModelLen
  preempted : ∀ id ∈ p.preemptedReqs, out.numScheduledTokens.get? id = none ∧
    out.scheduledSpecDecodeTokens.get? id = none ∧ out.scheduledEncoderInputs.get? id = none ∧
    ∀ x ∈ out.scheduledNewReqs ++ (out.scheduledResumedReqs ++ out.scheduledCachedReqs), x.reqId ≠ id
  running : s'.running.length ≤ cfg.maxNumRunningReqs

section Output

variable {cfg} {c : Prop} {s : Scheduler H n} {p : Pass n} {x : ScheduledRequest n}

theorem mem_scheduledRequests {ids : List RequestId} (hx : x ∈ scheduledRequests s p ids) : x.reqId ∈ ids := by
  obtain ⟨id, hid, hmap⟩ := mem_filterMap.1 hx
  obtain ⟨r, -, rfl⟩ := map_eq_some_iff.1 hmap
  exact hid

theorem listed_of_makeOutput {copies : List (KVCacheBlock × KVCacheBlock)} {freed : List ℕ}
    (hx : x ∈ (cfg.makeOutput s p copies freed).scheduledNewReqs ++
      ((cfg.makeOutput s p copies freed).scheduledResumedReqs ++
        (cfg.makeOutput s p copies freed).scheduledCachedReqs)) : x.reqId ∈ p.listed := by
  unfold makeOutput at hx
  unfold Pass.listed
  simp only [mem_append] at hx ⊢
  split at hx
  · rcases hx with hx | hx | hx
    · have := mem_scheduledRequests hx
      rw [mem_append] at this
      tauto
    · cases mem_scheduledRequests hx
    · exact .inr (.inr (mem_scheduledRequests hx))
  · rcases hx with hx | hx | hx
    · exact .inl (mem_scheduledRequests hx)
    · exact .inr (.inl (mem_scheduledRequests hx))
    · exact .inr (.inr (mem_scheduledRequests hx))

theorem finishPass_checks (p : Pass n) :
    wp (cfg.finishPass p) (fun _ _ => p.numScheduledTokens.total ≤ cfg.maxNumScheduledTokens ∧
      s.running.length ≤ cfg.maxNumRunningReqs) any s := by
  unfold finishPass
  rw [wp_get_bind]
  refine wp_check_bind fun htotal => ?_
  refine wp_check_bind fun hrunning => ?_
  exact wp_any wp_trivial (fun _ _ _ => ⟨htotal, hrunning⟩)

variable (cfg) in
/-- Issuing a step adds the scheduled tokens to the computed ones and leaves the status alone. -/
theorem issuedRequest_eq (t : Scheduler H n) (out : SchedulerOutput n) (id : RequestId) (r : Request H) :
    (cfg.issuedRequest t out id r).status = r.status ∧ (cfg.issuedRequest t out id r).numComputedTokens =
      r.numComputedTokens + (out.numScheduledTokens.get? id).getD 0 := by
  unfold issuedRequest addPlaceholders
  split <;> exact ⟨rfl, rfl⟩

variable [DecidableEq H]

variable (cfg) in
/-- `schedule` stays within its budgets, from every state in which queues and statuses agree, if no request
that it schedules came in with more tokens than the model takes. -/
theorem schedule_withinBudget (env : ScheduleEnv n) (hplaced : Placed c s.queues)
    (hidle : ∀ id r, s.requests.get? id = some r → r.status.isWaiting → r.numOutputPlaceholders = 0)
    (hitems : ∀ id r, s.requests.get? id = some r → r.ItemsSorted) :
    wp (cfg.scheduleRecorded env) (fun result s' =>
      (∀ id ∈ result.2.numScheduledTokens.keys, ¬ cfg.Outgrown s.queues id) → cfg.WithinBudget
        (if s.pauseState = .pausedAll then 0 else cfg.maxNumScheduledTokens) result.1 result.2 s') any s := by
  unfold scheduleRecorded
  rw [wp_bind]
  refine wp_any (schedulePass_rule env (cfg.spent_invariant c _ s.queues hitems)
    ⟨passRecord_start hplaced hidle _ _ _, spent_start _ _⟩) (fun p s₁ h₁ => ?_)
  obtain ⟨q, ⟨hrec, hspent⟩, hequiv⟩ := h₁
  rw [wp_bind]
  refine wp_any (wp_and (cfg.finishPass_effect p) (finishPass_checks p)) (fun out s' h' => ?_)
  obtain ⟨⟨t, copies, freed, rfl, -, -, hs'⟩, htotal, hrunning⟩ := h'
  rw [wp_pure]
  intro hshort
  have hrun : s₁.running = q.running := hequiv.running
  have hreq : s₁.requests = q.requests := hequiv.requests
  have hrun' : s'.running = s₁.running := congrArg Queues.running hs'
  have hpre : ∀ id ∈ p.preemptedReqs, id ∉ p.numScheduledTokens.keys := fun id hid hkey =>
    hrec.preempted id hid (hrec.scheduled id hkey)
  refine ⟨hspent.tokens, hspent.input, hspent.encoder, ⟨rfl, htotal⟩, fun id k hk => ?_, fun id hid => ?_, ?_⟩
  · have hkey : id ∈ p.numScheduledTokens.keys := mem_keys_of_get? hk
    have htokens : p.tokens id = k := congrArg (Option.getD · 0) hk
    have hmem := hrec.scheduled id hkey
    obtain ⟨r, hr, hstatus⟩ := hrec.placed.seated.running id hmem
    have hr : q.requests.get? id = some r := hr
    have hpos := (hrec.chunk id hkey r hr).nonempty
    have hlen := hspent.length id hkey (hshort id hkey) r hr
    rw [htokens] at hpos hlen
    obtain ⟨hissued, hcomputed⟩ := cfg.issuedRequest_eq t (cfg.makeOutput s₁ p copies freed) id r
    have hk' : ((cfg.makeOutput s₁ p copies freed).numScheduledTokens.get? id).getD 0 = k := htokens
    rw [hk'] at hcomputed
    refine ⟨hpos, by rw [hrun', hrun]; exact hmem, _, ?_, hissued.trans hstatus, by omega, by omega⟩
    rw [show s'.requests = _ from congrArg Queues.requests hs']
    show ((s₁.requests.get? id).map fun r => if id ∈ p.numScheduledTokens.keys then
      cfg.issuedRequest t (cfg.makeOutput s₁ p copies freed) id r else r) = _
    rw [hreq, hr, map_some, if_pos hkey]
  · have hnot := hpre id hid
    refine ⟨not_mem_keys_iff.1 hnot, hrec.drafts id hnot, hspent.encoderInputs id hnot, fun x hx heq => ?_⟩
    exact hnot (heq ▸ hspent.listed _ (listed_of_makeOutput hx))
  · rw [hrun']
    exact hrunning

end Output

/-! ## A session that outgrows the model -/

/-- Full attention in blocks of one token, for a model of length 8. -/
def shortModel : SchedulerConfig ℕ 1 :=
  .plain (.unitaryOf .fullAttention 1 Nat.one_pos CacheConfig.fullAttention_window) .fcfs

def noAnswers : ScheduleEnv 1 where
  throttlePrefills := false
  ecTransferPending := fun _ => false
  ecHasCacheItem := fun _ => false
  grammar := fun _ => .ready
  hasPendingBlockFrees := fun _ _ => false
  numNewMatchedTokens := fun _ _ => (some 0, false)
  loadedKvCacheGroupIds := fun _ => []

/-- An input of five tokens, alone or the chunk of a session, that asks for one token of output. -/
def fiveTokens (resumable : Bool) : Request ℕ where
  requestId := 0
  status := .waiting
  numPromptTokens := 5
  allTokenIds := [1, 2, 3, 4, 5]
  promptTokenIds := [1, 2, 3, 4, 5]
  blockHashes := [1, 12, 123, 1234, 12345]
  numComputedTokens := 0
  numInFlightTokens := 0
  sharedPrefixBoundary := 0
  maxTokens := 1
  resumable := resumable

/-- The input waits in a fresh scheduler. -/
def oneWaiting (kv : KVCacheManager ℕ 1) : Scheduler ℕ 1 :=
  { init kv with requests := Dict.empty.set 0 (fiveTokens false), waiting := [0] }

/-- The first chunk of a session is computed and its one token of output comes back, then the second
chunk comes in: ten tokens. -/
def twoChunks (kv : KVCacheManager ℕ 1) : Option (World ℕ 1) :=
  [Call.addRequest (fun _ => false) (fiveTokens true), .schedule noAnswers,
    .updateFromOutput { sampledTokenIds := fun _ => [9] },
    .addRequest (fun _ => false) (fiveTokens true)].foldlM (World.step shortModel) (World.init kv)

/-- What a pass schedules for the request 0, and the computed tokens it leaves. -/
def scheduledAndComputed (s : Scheduler ℕ 1) : Option (ℕ × ℕ) :=
  match shortModel.scheduleRecorded noAnswers s with
  | .ok (_, out) s' => do return (← out.numScheduledTokens.get? 0, (← s'.requests.get? 0).numComputedTokens)
  | .error _ _ => none

theorem scheduledAndComputed_eq {s : Scheduler ℕ 1} {k m : ℕ} (h : scheduledAndComputed s = some (k, m)) :
    ∃ p out s' r, shortModel.scheduleRecorded noAnswers s = .ok (p, out) s' ∧
      out.numScheduledTokens.get? 0 = some k ∧ s'.requests.get? 0 = some r ∧ r.numComputedTokens = m := by
  unfold scheduledAndComputed at h
  split at h
  next p out s' hrun =>
    obtain ⟨k', hk, h⟩ := bind_eq_some_iff.1 h
    obtain ⟨r, hr, h⟩ := bind_eq_some_iff.1 h
    cases h
    exact ⟨p, out, s', r, hrun, hk, hr, rfl⟩
  · cases h

end SchedulerConfig

end VllmRwkv
