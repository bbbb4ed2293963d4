import VllmRwkv.Lib.Fence
import VllmRwkv.Sched.PassRecord
import VllmRwkv.Sched.World

/-!
# What is in flight for a request

`Account` says what the counters of a request stand for: the tokens of the steps in flight, those of the
steps issued before the request was last preempted or ended a turn, and output tokens still to come.
-/

namespace VllmRwkv

open List Dict Fence Queues

variable {H : Type} {n : ℕ}

namespace SchedulerConfig

variable (cfg : SchedulerConfig H n)

/-- The output tokens that a step may still bring for the request. -/
def tokensDue (id : RequestId) (i : Issued n) : ℕ :=
  if i.samples id then cfg.numSampledTokensPerStep + i.drafts id else 0

/-- The counters of the request `r` under `id`, with `steps` in flight out of `issued`; `left` were issued
when the request last left them behind. -/
structure Account (steps : List (Issued n)) (issued left : ℕ) (id : RequestId) (r : Request H) : Prop where
  inFlight : r.numInFlightTokens = ((steps.map (·.tokens id)).sum : ℕ)
  stale : ∃ b ≤ issued, r.numStaleOutputTokens = (Fence.below Issued.seq (·.tokens id) b steps : ℕ) ∧
    (r.isFinished = false → b = left)
  nonneg : 0 ≤ r.numOutputPlaceholders
  due : r.isFinished = false → cfg.asyncScheduling →
    (Fence.above Issued.seq (cfg.tokensDue id) left steps : ℤ) ≤ r.numOutputPlaceholders
  sync : cfg.asyncScheduling = false → r.numOutputPlaceholders = 0
  idle : r.status.isWaiting → r.numOutputPlaceholders = 0 ∧ ∀ i ∈ steps, 0 < i.tokens id → i.seq < left
  paused : r.status = .waitingForStreamingReq → r.dropStaleOutput

section Account

variable {cfg} {steps : List (Issued n)} {issued left : ℕ} {id : RequestId} {r r' : Request H} {i : Issued n}

section

variable (h : cfg.Account steps issued left id r)

include h

theorem Account.congr (hinFlight : r'.numInFlightTokens = r.numInFlightTokens)
    (hstale : r'.numStaleOutputTokens = r.numStaleOutputTokens)
    (hplaceholders : r'.numOutputPlaceholders = r.numOutputPlaceholders) (hfinished : r.isFinished → r'.isFinished)
    (hwaiting : r'.status.isWaiting → r.status.isWaiting) (hdrop : r'.dropStaleOutput = r.dropStaleOutput)
    (hpaused : r'.status = .waitingForStreamingReq → r.status = .waitingForStreamingReq) :
    cfg.Account steps issued left id r' := by
  have hlive : r'.isFinished = false → r.isFinished = false := fun h' => by
    by_contra hfin
    rw [hfinished (Bool.eq_true_of_not_eq_false hfin)] at h'
    cases h'
  obtain ⟨b, hb, hsum, hleft⟩ := h.stale
  refine ⟨hinFlight.trans h.inFlight, ⟨b, hb, hstale.trans hsum, fun h' => hleft (hlive h')⟩, ?_, fun h' ha => ?_,
    fun hs => hplaceholders.trans (h.sync hs), fun hw => ?_, fun hs => hdrop.trans (h.paused (hpaused hs))⟩
  · rw [hplaceholders]
    exact h.nonneg
  · rw [hplaceholders]
    exact h.due (hlive h') ha
  · rw [hplaceholders]
    exact h.idle (hwaiting hw)

/-! ## Leaving the steps in flight behind -/

theorem Account.leave (hbound : ∀ i ∈ steps, i.seq < issued) (hinFlight : r'.numInFlightTokens = r.numInFlightTokens)
    (hstale : r'.numStaleOutputTokens = r.numInFlightTokens) (hplaceholders : r'.numOutputPlaceholders = 0)
    (hpaused : r'.status = .waitingForStreamingReq → r'.dropStaleOutput) : cfg.Account steps issued issued id r' := by
  refine ⟨hinFlight.trans h.inFlight, ⟨issued, le_refl _, ?_, fun _ => rfl⟩, hplaceholders.ge, fun _ _ => ?_,
    fun _ => hplaceholders, fun _ => ⟨hplaceholders, fun i hi _ => hbound i hi⟩, hpaused⟩
  · rw [hstale, h.inFlight, below_eq_total hbound]
  · rw [hplaceholders, above_eq_zero hbound]
    exact le_refl _

/-- Once the request has finished, nobody asks when it left. -/
theorem Account.finished (left' : ℕ) (hfin : r.isFinished) : cfg.Account steps issued left' id r := by
  have hnot {p : Prop} (hlive : r.isFinished = false) : p := by
    cases hfin.symm.trans hlive
  obtain ⟨b, hb, hsum, -⟩ := h.stale
  refine ⟨h.inFlight, ⟨b, hb, hsum, fun hlive => hnot hlive⟩, h.nonneg, fun hlive => hnot hlive, h.sync,
    fun hw => hnot (isFinished_of_waiting hw), h.paused⟩

end

/-! ## The output of a step -/

variable {failed : List RequestId}

theorem not_finished_of_live (h : ¬ ignoresOutput failed id r) : r.isFinished = false :=
  Bool.eq_false_iff.2 fun hfin => h (.inr (.inl hfin))

section Output

variable {mro : ModelRunnerOutput} (h : cfg.Account (i :: steps) issued left id r)
  (hordered : Fence.Ordered Issued.seq (i :: steps)) (hsampled : (mro.sampledTokenIds id).length ≤ cfg.tokensDue id i)
  (hdrafts : 0 < i.drafts id → i.samples id)

include h hordered in
/-- The output is stale exactly if its step was issued before the request left. -/
theorem Account.stale_iff (hpos : 0 < i.tokens id) (hlive : r.isFinished = false) :
    0 < r.numStaleOutputTokens ↔ i.seq < left := by
  obtain ⟨b, -, hsum, hleft⟩ := h.stale
  obtain rfl := hleft hlive
  rw [hsum, Int.natCast_pos]
  exact hordered.below_pos_iff hpos

include h hordered in
theorem Account.drain : cfg.Account steps issued left id (r.drain (i.tokens id)) := by
  obtain ⟨b, hb, hsum, hleft⟩ := h.stale
  have htotal := h.inFlight
  rw [map_cons, sum_cons] at htotal
  refine ⟨?_, ⟨b, hb, ?_, hleft⟩, h.nonneg, fun hlive ha => ?_, h.sync, fun hw => ?_, h.paused⟩
  · show r.numInFlightTokens - i.tokens id = _
    omega
  · show (if 0 < r.numStaleOutputTokens then r.numStaleOutputTokens - i.tokens id
      else r.numStaleOutputTokens) = _
    have hcons := below_cons Issued.seq (·.tokens id) b i steps
    by_cases hbefore : i.seq < b
    · rw [if_pos hbefore] at hcons
      split <;> omega
    -- nothing behind the step is stale either
    have hzero := hordered.below_eq_zero (w := (·.tokens id)) (not_lt.1 hbefore)
    rw [if_neg hbefore] at hcons
    rw [if_neg (by omega)]
    omega
  · have hcons := above_cons Issued.seq (cfg.tokensDue id) left i steps
    have hdue := h.due hlive ha
    show _ ≤ r.numOutputPlaceholders
    omega
  · exact ⟨(h.idle hw).1, fun j hj => (h.idle hw).2 j (mem_cons_of_mem _ hj)⟩

include hsampled hdrafts

/-- What an output takes from the placeholders of a request that has not left its step behind. -/
theorem received_placeholders :
    r.numOutputPlaceholders - cfg.tokensDue id i ≤ (cfg.received i.out mro id r).numOutputPlaceholders -
      (mro.sampledTokenIds id).length := by
  have hlen : ((i.out.scheduledSpecDecodeTokens.get? id).getD []).length = i.drafts id := rfl
  rw [received_eq]
  dsimp only
  split_ifs with hreject
  · have hpos : 0 < i.drafts id := by
      rw [← hlen]
      exact length_pos_iff.2 hreject.1.1
    unfold tokensDue at hsampled ⊢
    unfold numRejected
    rw [if_pos (hdrafts hpos)] at hsampled ⊢
    rw [hlen]
    omega
  · omega

include h hordered

/-- The placeholders when the output of a live request has been appended. -/
theorem Account.placeholders (hpos : 0 < i.tokens id) (hlive : r.isFinished = false) {placeholders : ℤ}
    (hplaceholders : placeholders = (cfg.received i.out mro id r).numOutputPlaceholders -
      cfg.placeholdersTaken mro id (decide (0 < r.numStaleOutputTokens)) (cfg.received i.out mro id r)) :
    (cfg.asyncScheduling → (Fence.above Issued.seq (cfg.tokensDue id) left steps : ℤ) ≤ placeholders) ∧
      (cfg.asyncScheduling = false → placeholders = 0) ∧ (r.status.isWaiting → placeholders = 0) := by
  subst hplaceholders
  have hiff := h.stale_iff hordered hpos hlive
  have hcons := above_cons Issued.seq (cfg.tokensDue id) left i steps
  by_cases hstale : 0 < r.numStaleOutputTokens
  · -- late output takes nothing
    have hreceived : (cfg.received i.out mro id r).numOutputPlaceholders = r.numOutputPlaceholders := by
      rw [received_eq]
      exact if_neg fun hreject => hreject.1.2.2 hstale
    have htaken : cfg.placeholdersTaken mro id (decide (0 < r.numStaleOutputTokens))
        (cfg.received i.out mro id r) = 0 := by
      unfold placeholdersTaken
      rw [if_neg (by simp [hstale])]
    rw [hreceived, htaken, Int.natCast_zero, Int.sub_zero]
    refine ⟨fun ha => ?_, h.sync, fun hw => (h.idle hw).1⟩
    have hdue := h.due hlive ha
    omega
  · have hbehind : left ≤ i.seq := not_lt.1 fun hlt => hstale (hiff.2 hlt)
    rw [if_pos hbehind] at hcons
    have hrest := received_placeholders (r := r) hsampled hdrafts
    refine ⟨fun ha => ?_, fun hs => ?_, fun hw => ?_⟩
    · have hdue := h.due hlive ha
      have htaken : cfg.placeholdersTaken mro id (decide (0 < r.numStaleOutputTokens))
          (cfg.received i.out mro id r) ≤ (mro.sampledTokenIds id).length := by
        unfold placeholdersTaken
        split
        · exact (cfg.appendTokens_spec _ _).2.1
        · exact Nat.zero_le _
      omega
    · have hzero := h.sync hs
      have htaken : cfg.placeholdersTaken mro id (decide (0 < r.numStaleOutputTokens))
          (cfg.received i.out mro id r) = 0 := by
        unfold placeholdersTaken
        rw [if_neg (by simp [hs])]
      rw [htaken, received_eq]
      dsimp only
      rw [if_neg (by omega), hzero]
      rfl
    · exact absurd ((h.idle hw).2 i mem_cons_self hpos) (not_lt.2 hbehind)

/-- The account of a live request when its output has been appended. -/
theorem Account.checked {stopped : Bool} (hpos : 0 < i.tokens id) (hlive : r.isFinished = false)
    (hchecked : cfg.Checked mro id (decide (0 < r.numStaleOutputTokens)) (cfg.received i.out mro id r) r' stopped) :
    cfg.Account steps issued left id r' := by
  have hdrain := h.drain hordered
  obtain ⟨_, _, _, _, _, hr'⟩ := hchecked.extended
  have hplaceholders := congrArg Request.numOutputPlaceholders hr'
  obtain ⟨hasync, hsync, hidle⟩ := h.placeholders hordered hsampled hdrafts hpos hlive hplaceholders
  have hcounters : r'.numInFlightTokens = (r.drain (i.tokens id)).numInFlightTokens ∧
      r'.numStaleOutputTokens = (r.drain (i.tokens id)).numStaleOutputTokens ∧
      r'.dropStaleOutput = r.dropStaleOutput := by
    rw [hr', received_eq]
    exact ⟨rfl, rfl, rfl⟩
  -- a request that goes on has the status it had
  have hstatus : r'.status.isWaiting → r'.status = r.status := by
    intro hw
    cases stopped with
    | true =>
      have hfin := hchecked.stops rfl
      rw [isFinished_of_waiting hw] at hfin
      cases hfin
    | false => exact (hchecked.continues rfl).trans (received_same cfg i.out mro id r).2.1
  have hwaiting : r'.status.isWaiting → r.status.isWaiting := fun hw => hstatus hw ▸ hw
  obtain ⟨b, hb, hsum, hleft⟩ := hdrain.stale
  refine ⟨hcounters.1.trans hdrain.inFlight, ⟨b, hb, hcounters.2.1.trans hsum, fun _ => hleft hlive⟩, ?_,
    fun _ ha => hasync ha, hsync, fun hw => ⟨hidle (hwaiting hw), (hdrain.idle (hwaiting hw)).2⟩, fun hs => ?_⟩
  · cases ha : cfg.asyncScheduling with
    | true => exact le_trans (Int.natCast_nonneg _) (hasync ha)
    | false => exact (hsync ha).ge
  · have hsame := hstatus (by rw [hs]; rfl)
    rw [hcounters.2.2]
    exact h.paused (hsame.symm.trans hs)

/-- The account after a round of `update_from_output`; a session that goes on has left the steps in flight
behind. -/
theorem Account.output {q q' : Queues H} {st st' : Stopped}
    (hr : q.requests.get? id = some r) (hbound : ∀ j ∈ steps, j.seq < issued) (hpos : 0 < i.tokens id)
    (hnew : id ∉ st.sessions)
    (hstep : cfg.OutputStep i.out mro failed id q st q' st') (hr' : q'.requests.get? id = some r') :
    cfg.Account steps issued (if id ∈ st'.sessions then issued else left) id r' := by
  have hsame {r₁ : Request H} (hr₁ : q.requests.get? id = some r₁) : r = r₁ := Option.some.inj (hr.symm.trans hr₁)
  cases hstep with
  | unknown hnone =>
    cases hnone.symm.trans hr
  | ignored hr₁ _ =>
    obtain rfl := hsame hr₁
    cases get?_set_self.symm.trans hr'
    rw [if_neg hnew]
    exact h.drain hordered
  | continued hr₁ hgo hchecked =>
    obtain rfl := hsame hr₁
    cases get?_set_self.symm.trans hr'
    rw [if_neg hnew]
    exact h.checked hordered hsampled hdrafts hpos (not_finished_of_live hgo) hchecked
  | @finished _ r₁ r₂ _ hr₁ hgo hchecked hend hq =>
    obtain rfl := hsame hr₁
    have hlive := not_finished_of_live hgo
    have hchecked' := h.checked hordered hsampled hdrafts hpos hlive hchecked
    have hnot : id ∉ (st.add id (r.status = .running) true).sessions := hnew
    rw [if_neg hnot]
    rcases hq with rfl | rfl
    · cases get?_set_self.symm.trans hr'
      rcases hend with rfl | ⟨rest, rfl⟩
      · exact hchecked'
      have hfin : r₁.isFinished := hchecked.stops rfl
      have hleave : cfg.Account steps issued issued id { r₁.endTurn with streamingQueue := some rest } :=
        hchecked'.leave hbound rfl rfl rfl fun _ => rfl
      exact hleave.finished left hfin
    · rw [show (q.drop id).requests.get? id = none from get?_erase_self] at hr'
      cases hr'
  | @nextTurn _ r₁ r₂ _ _ hr₁ hgo hchecked hnext hq =>
    obtain rfl := hsame hr₁
    have hchecked' := h.checked hordered hsampled hdrafts hpos (not_finished_of_live hgo) hchecked
    have hin : id ∈ (st.add id (r.status = .running) false).sessions := mem_append_right _ (mem_singleton.2 rfl)
    rw [if_pos hin]
    rw [hq.requests, requests_enqueue] at hr'
    cases get?_set_self.symm.trans hr'
    cases hnext with
    | input | pause => exact hchecked'.leave hbound rfl rfl rfl fun _ => rfl

end Output

/-! ## Issuing a step -/

/-- The request `r` during the pass that found `r₀`. -/
theorem Account.served {p : Pass n} {r₀ : Request H} (h : cfg.Account steps issued left id r₀)
    (hbound : ∀ i ∈ steps, i.seq < issued) (hserved : cfg.Served p id r₀ r) :
    cfg.Account steps issued (if id ∈ p.preemptedReqs then issued else left) id r := by
  unfold Served at hserved
  split_ifs at hserved with hpre
  · obtain ⟨r₁, hkept, _, rfl⟩ := hserved
    obtain ⟨_, _, _, _, heq⟩ := hkept.same
    rw [if_pos hpre]
    refine h.leave hbound ?_ ?_ rfl nofun
    · show r₁.numInFlightTokens = _
      rw [heq]
    · show r₁.numInFlightTokens = _
      rw [heq]
  · obtain ⟨_, _, _, _, heq⟩ := hserved.same
    rw [if_neg hpre]
    exact h.congr (by rw [heq]) (by rw [heq]) (by rw [heq]) hserved.finished hserved.waiting (by rw [heq])
      hserved.streaming

theorem Account.issue_other (h : cfg.Account steps issued left id r) (htokens : i.tokens id = 0)
    (hsamples : i.samples id = false) : cfg.Account (steps ++ [i]) (issued + 1) left id r := by
  obtain ⟨b, hb, hsum, hleft⟩ := h.stale
  have hbelow : below Issued.seq (·.tokens id) b [i] = 0 :=
    below_of_weightless fun j hj => by rw [mem_singleton.1 hj]; exact htokens
  have habove : above Issued.seq (cfg.tokensDue id) left [i] = 0 := above_of_weightless fun j hj => by
      rw [mem_singleton.1 hj]
      unfold tokensDue
      rw [hsamples]
      rfl
  refine ⟨?_, ⟨b, by omega, ?_, hleft⟩, h.nonneg, fun hlive ha => ?_, h.sync, fun hw => ⟨(h.idle hw).1, ?_⟩, h.paused⟩
  · rw [map_append, sum_append, map_singleton, sum_singleton, htokens]
    exact h.inFlight
  · rw [below_append, hbelow]
    exact hsum
  · rw [above_append, habove]
    exact h.due hlive ha
  · intro j hj hpos
    rcases mem_append.1 hj with hj | hj
    · exact (h.idle hw).2 j hj hpos
    · rw [mem_singleton.1 hj, htokens] at hpos
      cases hpos

theorem Account.issue {t : Scheduler H n} (h : cfg.Account steps issued left id r) (hseq : i.seq = issued)
    (hleft : left ≤ issued) (hstatus : r.status = .running)
    (hsamples : i.samples id = !(cfg.issuedRequest t i.out id r).isPrefillChunk) :
    cfg.Account (steps ++ [i]) (issued + 1) left id (cfg.issuedRequest t i.out id r) := by
  have hchunk : (cfg.issuedRequest t i.out id r).isPrefillChunk = (cfg.advance t (i.tokens id) r).isPrefillChunk := by
    unfold issuedRequest addPlaceholders
    split <;> rfl
  have hsame : (cfg.issuedRequest t i.out id r).numInFlightTokens = r.numInFlightTokens + i.tokens id ∧
      (cfg.issuedRequest t i.out id r).numStaleOutputTokens = r.numStaleOutputTokens ∧
      (cfg.issuedRequest t i.out id r).status = r.status := by
    unfold issuedRequest addPlaceholders
    split <;> exact ⟨rfl, rfl, rfl⟩
  have hplaceholders : (cfg.issuedRequest t i.out id r).numOutputPlaceholders =
      r.numOutputPlaceholders + if cfg.asyncScheduling then (cfg.tokensDue id i : ℤ) else 0 := by
    have hadd : (cfg.issuedRequest t i.out id r).numOutputPlaceholders =
        if cfg.asyncScheduling && !(cfg.advance t (i.tokens id) r).isPrefillChunk then
          r.numOutputPlaceholders + (cfg.numSampledTokensPerStep + i.drafts id : ℕ)
        else r.numOutputPlaceholders := by
      unfold issuedRequest addPlaceholders
      split
      next hgo => exact (if_pos hgo).symm
      next hgo => exact (if_neg hgo).symm
    rw [hadd, ← hchunk, ← hsamples]
    unfold tokensDue
    cases cfg.asyncScheduling <;> cases i.samples id <;> simp
  have hlive : r.isFinished = false := isFinished_of_running hstatus
  obtain ⟨b, hb, hsum, hb'⟩ := h.stale
  refine ⟨?_, ⟨b, by omega, ?_, fun _ => hb' hlive⟩, ?_, fun _ ha => ?_, fun hs => ?_, fun hw => ?_, fun hs => ?_⟩
  · rw [hsame.1, h.inFlight, map_append, sum_append, map_singleton, sum_singleton, Int.natCast_add]
  · have hnone : below Issued.seq (·.tokens id) b [i] = 0 := below_eq_zero fun j hj => by
        rw [mem_singleton.1 hj]
        omega
    rw [hsame.2.1, hsum, below_append, hnone, add_zero]
  · have := h.nonneg
    rw [hplaceholders]
    split <;> omega
  · have hone := above_cons Issued.seq (cfg.tokensDue id) left i []
    rw [if_pos (by omega)] at hone
    have hdue := h.due hlive ha
    have hnil : above Issued.seq (cfg.tokensDue id) left ([] : List (Issued n)) = 0 := rfl
    rw [hplaceholders, if_pos ha, above_append]
    omega
  · rw [hplaceholders, hs, h.sync hs]
    rfl
  · rw [hsame.2.2, hstatus] at hw
    cases hw
  · rw [hsame.2.2, hstatus] at hs
    cases hs

end Account

end SchedulerConfig

end VllmRwkv
