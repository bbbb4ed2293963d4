import VllmRwkv.Lib.Bisect
import VllmRwkv.Lib.Search

/-!
# Stop strings in the detokenizer

`update` cuts the text at the stop string that completes first in what is new. Its end lies behind the older text, so
`get_next_output_text`, which holds back one character less than the longest stop string, streams nothing cut later.
-/

namespace VllmRwkv

open List Search

variable {α : Type}

/-- A generated token, and the text that `decode_next` gives for it. -/
structure OutputToken (α : Type) where
  tokenId : ℕ
  text : List α

structure Detokenizer (α : Type) where
  tokenIds : List ℕ := []
  outputText : List α := []
  lastOutputTextOffset : ℕ := 0

/-- The sampling parameters, which refuse empty stop strings. -/
structure StopParams (α : Type) where
  stop : List (List α)
  minTokens : ℕ
  includeStopStrInOutput : Bool
  stop_ne : ∀ s ∈ stop, s ≠ []

theorem le_of_mem_scanl {new : List (OutputToken α)} {a n : ℕ}
    (h : n ∈ new.scanl (fun n t => n + t.text.length) a) : a ≤ n := by
  induction new generalizing a with
  | nil => exact (mem_singleton.1 h).ge
  | cons t new ih =>
    rw [scanl_cons] at h
    rcases mem_cons.1 h with rfl | h
    · exact le_rfl
    · exact (Nat.le_add_right _ _).trans (ih h)

variable [DecidableEq α]

/-- The loop of `check_stop_strings`: the best stop string so far, and its index. -/
def bestStop (outputText : List α) (newCharCount : ℕ) : List (List α) → Option (List α × ℕ) → Option (List α × ℕ)
  | [], best => best
  | stopStr :: rest, best =>
    -- a negative start counts from the end, and stops at the first character
    match find stopStr outputText (outputText.length + 1 - newCharCount - stopStr.length) with
    | none => bestStop outputText newCharCount rest best
    | some stopIndex =>
      -- `best_end` starts at `sys.maxsize`
      if best.all fun b => stopIndex + stopStr.length < b.2 + b.1.length then
        bestStop outputText newCharCount rest (some (stopStr, stopIndex))
      else bestStop outputText newCharCount rest best

/-- The stop string, and where the text is to be truncated, if it is. -/
def checkStopStrings (outputText : List α) (newCharCount : ℕ) (stop : List (List α)) (includeInOutput : Bool) :
    Option (List α × Option ℕ) :=
  if newCharCount = 0 then none
  else (bestStop outputText newCharCount stop none).map fun (stopStr, index) => (stopStr,
    if !includeInOutput then some index
    else if outputText.length ≤ index + stopStr.length then none
    else some (index + stopStr.length))

theorem bestStop_found {stop : List (List α)} {best : Option (List α × ℕ)} {s text : List α} {new i : ℕ}
    (hne : ∀ s ∈ stop, s ≠ []) (h : bestStop text new stop best = some (s, i)) :
    best = some (s, i) ∨ s ∈ stop ∧ text.length + 1 ≤ i + s.length + new := by
  induction stop generalizing best with
  | nil => exact .inl h
  | cons s' stop ih =>
    obtain ⟨hs', hstop⟩ := forall_mem_cons.1 hne
    have hrest {best' : Option (List α × ℕ)} (h : bestStop text new stop best' = some (s, i)) :
        best' = some (s, i) ∨ s ∈ s' :: stop ∧ text.length + 1 ≤ i + s.length + new :=
      (ih hstop h).imp_right fun h => ⟨mem_cons_of_mem _ h.1, h.2⟩
    unfold bestStop at h
    split at h
    · exact hrest h
    rename_i j hj
    split at h
    · rcases hrest h with heq | hfound
      · cases heq
        have := ((find_eq_some hs').1 hj).1
        exact .inr ⟨mem_cons_self, by omega⟩
      · exact .inr hfound
    · exact hrest h

namespace StopParams

variable (p : StopParams α) (d : Detokenizer α) (newTokens : List (OutputToken α)) (stopTerminated finished : Bool)

def stopBufferLength : ℕ := if p.includeStopStrInOutput then 0 else (p.stop.map length).max?.getD 0 - 1

/-- The second part of `update`. -/
def evaluateStop (tokenOffsets : List ℕ) (text : List α) (numPrevTokens numTokens : ℕ) : Option (List α × Option ℕ) :=
  if p.minTokens < numTokens then
    let stopCheckOffset := tokenOffsets.getD (p.minTokens - numPrevTokens) text.length
    checkStopStrings text (text.length - stopCheckOffset) p.stop p.includeStopStrInOutput
  else none

def update : Option (List α) × Detokenizer α :=
  if newTokens.isEmpty then (none, d)
  else
    -- a skipped stop token adds no text
    let new := if stopTerminated && !p.includeStopStrInOutput then
        newTokens.dropLast ++ newTokens.getLast?.toList.map ({ · with text := [] })
      else newTokens
    let tokenOffsets := new.scanl (fun n t => n + t.text.length) d.outputText.length
    let text := d.outputText ++ new.flatMap (·.text)
    let tokenIds := d.tokenIds ++ new.map (·.tokenId)
    match p.evaluateStop tokenOffsets text d.tokenIds.length tokenIds.length with
    | none => (none, { d with tokenIds, outputText := text })
    | some (stopString, truncateTo) =>
      let stopEnd := truncateTo.getD text.length + if p.includeStopStrInOutput then 0 else stopString.length
      let numKept := bisectLoop id tokenOffsets stopEnd tokenOffsets.length 1 tokenOffsets.length
      (some stopString, { d with
        tokenIds := tokenIds.take (d.tokenIds.length + numKept)
        outputText := text.take (truncateTo.getD text.length) })

/-- `get_next_output_text` in delta mode. -/
def getNextOutputText : List α × Detokenizer α :=
  let length := d.outputText.length - if finished then 0 else p.stopBufferLength
  if d.lastOutputTextOffset < length then
    ((d.outputText.take length).drop d.lastOutputTextOffset, { d with lastOutputTextOffset := length })
  else ([], d)

/-- All that is streamed, and the final text: rounds of `update`, asked for a piece or not, up to a stop string. -/
def stream (sent : List α) (d : Detokenizer α) : List (List (OutputToken α) × Bool × Bool) → List α × List α
  | [] => (sent ++ (p.getNextOutputText d true).1, d.outputText)
  | (newTokens, stopTerminated, asked) :: rounds =>
    match p.update d newTokens stopTerminated with
    | (some _, d) => (sent ++ (p.getNextOutputText d true).1, d.outputText)
    | (none, d) =>
      if asked then stream (sent ++ (p.getNextOutputText d false).1) (p.getNextOutputText d false).2 rounds
      else stream sent d rounds

variable {p}

theorem evaluateStop_cut {tokenOffsets : List ℕ} {text s : List α} {prev num lo : ℕ} {t : Option ℕ}
    (hoff : ∀ x ∈ tokenOffsets, lo ≤ x) (hlo : lo ≤ text.length)
    (h : p.evaluateStop tokenOffsets text prev num = some (s, t)) : lo - p.stopBufferLength ≤ t.getD text.length := by
  unfold evaluateStop at h
  split at h
  case isFalse => cases h
  -- the search starts behind the text that was there
  have hstart : lo ≤ tokenOffsets.getD (p.minTokens - prev) text.length := by
    rw [getD_eq_getElem?_getD]
    cases hx : tokenOffsets[p.minTokens - prev]? with
    | none => exact hlo
    | some x => exact hoff x (mem_of_getElem? hx)
  unfold checkStopStrings at h
  dsimp only at h
  split at h
  · cases h
  obtain ⟨⟨s', index⟩, hbest, heq⟩ := Option.map_eq_some_iff.1 h
  obtain ⟨rfl, rfl⟩ := Prod.mk.inj heq
  obtain ⟨hs, hend⟩ := (bestStop_found p.stop_ne hbest).resolve_left nofun
  have hlen := le_max?_getD_of_mem (k := 0) (mem_map_of_mem (f := length) hs)
  unfold stopBufferLength
  cases p.includeStopStrInOutput with
  | true =>
    simp only [Bool.not_true, Bool.false_eq_true, if_false, if_true]
    split_ifs
    · exact hlo
    · show _ ≤ index + s'.length
      omega
  | false =>
    show lo - (_ - 1) ≤ index
    omega

/-- The text grows, or is cut behind everything that may have been streamed. -/
theorem update_text : let r := p.update d newTokens stopTerminated
    r.2.lastOutputTextOffset = d.lastOutputTextOffset ∧ ∃ added cut, r.2.outputText = (d.outputText ++ added).take cut ∧
      d.outputText.length - p.stopBufferLength ≤ cut ∧ (r.1 = none → r.2.outputText = d.outputText ++ added) := by
  unfold update
  split
  · exact ⟨rfl, [], d.outputText.length, by simp, Nat.sub_le _ _, fun _ => (append_nil _).symm⟩
  dsimp only
  split
  · exact ⟨rfl, _, _, take_length.symm, (Nat.sub_le _ _).trans (prefix_append _ _).length_le, fun _ => rfl⟩
  next hstop =>
    exact ⟨rfl, _, _, rfl, evaluateStop_cut (fun _ => le_of_mem_scanl) (prefix_append _ _).length_le hstop, nofun⟩

omit [DecidableEq α] in
/-- What was sent and the next piece are the text up to the new offset. -/
theorem sent_append : let r := p.getNextOutputText d finished
    d.outputText.take d.lastOutputTextOffset ++ r.1 = d.outputText.take r.2.lastOutputTextOffset ∧
      r.2.outputText = d.outputText ∧ r.2.lastOutputTextOffset =
        max d.lastOutputTextOffset (d.outputText.length - if finished then 0 else p.stopBufferLength) := by
  intro r
  unfold r getNextOutputText
  generalize d.outputText.length - (if finished then 0 else p.stopBufferLength) = n
  dsimp only
  split_ifs with hlt
  · refine ⟨?_, rfl, (max_eq_right hlt.le).symm⟩
    rw [← min_eq_left hlt.le, ← take_take, min_eq_left hlt.le]
    exact take_append_drop _ _
  · exact ⟨append_nil _, rfl, (max_eq_left (not_lt.1 hlt)).symm⟩

omit [DecidableEq α] in
theorem finished_text : d.outputText.take d.lastOutputTextOffset ++ (p.getNextOutputText d true).1 = d.outputText := by
  obtain ⟨happend, -, hlast⟩ := p.sent_append d true
  rw [happend, hlast]
  exact take_of_length_le (le_max_right _ _)

/-- While what was sent is the text up to the offset, with the buffer held back, it ends up as the final text. -/
theorem stream_eq (rounds : List (List (OutputToken α) × Bool × Bool)) {sent : List α} {d : Detokenizer α}
    (hsent : sent = d.outputText.take d.lastOutputTextOffset)
    (h : d.lastOutputTextOffset ≤ d.outputText.length - p.stopBufferLength) :
    (p.stream sent d rounds).1 = (p.stream sent d rounds).2 := by
  induction rounds generalizing sent d with
  | nil => exact hsent ▸ finished_text d
  | cons c rounds ih =>
    obtain ⟨newTokens, stopTerminated, asked⟩ := c
    obtain ⟨hlast, added, cut, htext, hcut, hnone⟩ := p.update_text d newTokens stopTerminated
    unfold stream
    cases hupdate : p.update d newTokens stopTerminated with
    | mk found d' =>
      rw [hupdate] at hlast htext hnone
      dsimp only at hlast htext hnone
      have hsent' : sent = d'.outputText.take d'.lastOutputTextOffset := by
        rw [hsent, hlast, htext, take_take, min_eq_left (h.trans hcut),
          take_append_of_le_length (h.trans (Nat.sub_le _ _))]
      cases found with
      | some s => exact hsent' ▸ finished_text d'
      | none =>
        have hgrown := congrArg length (hnone rfl)
        rw [length_append] at hgrown
        split_ifs
        · obtain ⟨happend, hsame, hlast'⟩ := p.sent_append d' false
          refine ih ?_ ?_
          · rw [hsent', happend, hsame]
          · rw [hlast', hsame]
            exact max_le (by omega) le_rfl
        · exact ih hsent' (by omega)

/-- **Streamed text is never retracted**: the pieces of a request make up its final text. -/
theorem streamed_text_final (p : StopParams α) (rounds : List (List (OutputToken α) × Bool × Bool)) :
    (p.stream [] {} rounds).1 = (p.stream [] {} rounds).2 :=
  stream_eq rounds rfl (Nat.zero_le _)

end StopParams

end VllmRwkv
