import Mathlib

/-!
# Data-parallel engines

The engines of a data-parallel group (`DPEngineCoreProc`) work in waves: within a wave they step together, and they stop
together when an all-reduce finds no work. An idle engine starts with a request of its own, or because the coordinator
broadcasts `START_DP_WAVE`, which a paused engine discards.
-/

namespace VllmRwkv.Wave

open List Function

inductive PauseState
  | unpaused
  | pausedNew
  | pausedAll
deriving DecidableEq

inductive PauseMode
  | abort
  | wait
  | keep
deriving DecidableEq

/-- Where the loop of an engine is: at its input queue, in the all-reduce of a step, in the one of a resume. -/
inductive Phase
  | polling
  | syncing
  | resuming
deriving DecidableEq

/-- What an engine tells the coordinator. -/
inductive Control
  | waveComplete (wave : ℕ)
  | startWave (wave : ℕ)
deriving DecidableEq

/-- What a client sends to an engine; an abort names some queued and some started requests. -/
inductive Input
  | add (wave : ℕ)
  | abort (queued started : ℕ)
  | pause (mode : PauseMode)
  | resume
deriving DecidableEq

/-- The scheduler's requests are counted: `started` requests hold blocks, `queued` ones do not. `wasRunning` is what
`engines_running` was when the current round of the loop began, `outputs` are the messages on their way to the
coordinator. -/
structure Engine where
  currentWave : ℕ := 0
  stepCounter : ℕ := 0
  enginesRunning : Bool := false
  wasRunning : Bool := false
  pendingPause : Bool := false
  ignoreStartDpWave : Bool := false
  pauseState : PauseState := .unpaused
  queued : ℕ := 0
  started : ℕ := 0
  phase : Phase := .polling
  outputs : List Control := []
deriving DecidableEq

/-- `START_DP_WAVE`: the wave, and the engine that need not be woken. -/
structure Start (n : ℕ) where
  wave : ℕ
  exclude : Option (Fin (n + 2))
deriving DecidableEq

namespace Engine

variable (g : Engine)

/-- `get_num_unfinished_requests` -/
def numUnfinished : ℕ :=
  match g.pauseState with
  | .pausedAll => 0
  | .pausedNew => g.started
  | .unpaused => g.queued + g.started

def hasWork : Bool := g.enginesRunning || 0 < g.numUnfinished

def addRequest (requestWave : ℕ) : Engine :=
  let g := { g with queued := g.queued + 1 }
  if requestWave = g.currentWave then g
  else if requestWave > g.currentWave then { g with currentWave := requestWave }
  else if g.enginesRunning = false ∧ g.pauseState = .unpaused then
    { g with enginesRunning := true, outputs := g.outputs ++ [.startWave g.currentWave] }
  else g

/-- `pause_scheduler` with the first phase of the pause (`_pause_complete`). -/
def pauseScheduler (mode : PauseMode) : Engine :=
  { g with
    queued := if mode = .abort then 0 else g.queued
    started := if mode = .abort then 0 else g.started
    pauseState := if mode = .keep then .pausedAll else .pausedNew
    pendingPause := true
    enginesRunning := true }

/-- `resume_scheduler` up to its all-reduce; while a pause is in flight it raises. -/
def resumeScheduler : Engine :=
  if g.pendingPause ∨ g.enginesRunning then g
  else { g with pauseState := .unpaused, ignoreStartDpWave := false, phase := .resuming }

def handleClientRequest : Input → Engine
  | .add wave => g.addRequest wave
  | .abort queued started => { g with queued := g.queued - queued, started := g.started - started }
  | .pause mode => g.pauseScheduler mode
  | .resume => g.resumeScheduler

/-- The message is meant for this engine and not for a wave that is over. -/
def Wakes {n : ℕ} (engineIndex : Fin (n + 2)) (m : Start n) : Prop :=
  m.exclude ≠ some engineIndex ∧ g.currentWave ≤ m.wave

instance {n : ℕ} (engineIndex : Fin (n + 2)) (m : Start n) : Decidable (g.Wakes engineIndex m) :=
  inferInstanceAs (Decidable (_ ∧ _))

def handleStart {n : ℕ} (engineIndex : Fin (n + 2)) (m : Start n) : Engine :=
  if g.ignoreStartDpWave then g
  else if g.Wakes engineIndex m then { g with currentWave := m.wave, enginesRunning := true }
  else g

/-- The end of a round of `run_busy_loop`, with the answer of `_has_global_unfinished_reqs`. -/
def finishRound (rankZero unfinished : Bool) : Engine :=
  { g with
    phase := .polling
    enginesRunning := unfinished
    wasRunning := unfinished
    outputs := g.outputs ++ if rankZero = false then []
      else if unfinished = false then [.waveComplete g.currentWave]
      else if g.wasRunning = false ∧ g.pendingPause = false then [.startWave g.currentWave]
      else []
    currentWave := if unfinished then g.currentWave else g.currentWave + 1
    stepCounter := if unfinished then g.stepCounter else 0 }

/-- A round up to its all-reduce, which takes place in the first step of a wave and in every `interval`-th one; the
step leaves any number of requests. -/
def step (interval : ℕ) (rankZero : Bool) (queued started : ℕ) : Engine :=
  let g := { g with queued := queued, started := started, stepCounter := g.stepCounter + 1 }
  if g.stepCounter ≠ 1 ∧ g.stepCounter % interval ≠ 0 then g.finishRound rankZero true
  else { g with phase := .syncing }

end Engine

/-- The engines with what is on its way to them: the messages of every client, and those of the coordinator. The waves
of the messages that a paused engine discarded although they were meant to wake it are recorded; no code reads them. -/
structure Group (C : Type) (n : ℕ) where
  engines : Fin (n + 2) → Engine := fun _ => {}
  inputs : C → Fin (n + 2) → List Input := fun _ _ => []
  starts : Fin (n + 2) → List (Start n) := fun _ => []
  discarded : List ℕ := []

/-- A move of one engine, or an all-reduce that all of them have reached. -/
inductive Move (C : Type) (n : ℕ)
  | handle (client : C) (i : Fin (n + 2))
  | start (i : Fin (n + 2))
  | step (i : Fin (n + 2)) (queued started : ℕ)
  | sync
  | resume

namespace Group

variable {C : Type} {n : ℕ}

section

variable (g : Group C n)

def setEngine (i : Fin (n + 2)) (engine : Engine) : Group C n :=
  { g with engines := update g.engines i engine }

def anyUnfinished : Bool := decide (∃ i, 0 < (g.engines i).numUnfinished)

def pauseCount : ℕ := (Finset.univ.filter fun i => (g.engines i).pendingPause).card

/-- `sync_dp_state` and the end of the round in every engine. -/
def sync : Group C n :=
  let consensus := decide (g.pauseCount = n + 2)
  let unfinished := g.anyUnfinished || decide (g.pauseCount % (n + 2) ≠ 0)
  { g with
    engines := fun i =>
      let engine := g.engines i
      { engine with
        ignoreStartDpWave := engine.ignoreStartDpWave || consensus
        pendingPause := engine.pendingPause && !consensus }.finishRound (i = 0) unfinished }

/-- The all-reduce of `resume_scheduler`. If there is work, all engines run, and it does not matter any more what has
been discarded. -/
def resume : Group C n :=
  { g with
    engines := fun i =>
      let engine := g.engines i
      { engine with phase := .polling, enginesRunning := engine.enginesRunning || g.anyUnfinished }
    discarded := if g.anyUnfinished then [] else g.discarded }

end

def move [DecidableEq C] (interval : ℕ) (g : Group C n) : Move C n → Option (Group C n)
  | .handle client i =>
    match g.inputs client i with
    | m :: rest =>
      if (g.engines i).phase = .polling then
        some { g.setEngine i ((g.engines i).handleClientRequest m) with
          inputs := update g.inputs client (update (g.inputs client) i rest) }
      else none
    | [] => none
  | .start i =>
    match g.starts i with
    | m :: rest =>
      if (g.engines i).phase = .polling then
        some { g.setEngine i ((g.engines i).handleStart i m) with
          starts := update g.starts i rest
          discarded := if (g.engines i).ignoreStartDpWave ∧ (g.engines i).Wakes i m then m.wave :: g.discarded
            else g.discarded }
      else none
    | [] => none
  | .step i queued started =>
    if (g.engines i).phase = .polling ∧ (g.engines i).hasWork then
      some (g.setEngine i ((g.engines i).step interval (i = 0) queued started))
    else none
  | .sync => if ∀ i, (g.engines i).phase = .syncing then some g.sync else none
  | .resume => if ∀ i, (g.engines i).phase = .resuming then some g.resume else none

end Group

/-! ## What a move changes -/

/-- An engine goes on within its wave: what it sends is that it has started the wave. -/
structure Engine.Within (g g' : Engine) : Prop where
  wave : g'.currentWave = g.currentWave
  running : g.enginesRunning → g'.enginesRunning
  outputs : ∃ new, g'.outputs = g.outputs ++ new ∧ ∀ m ∈ new, m = .startWave g.currentWave ∧ g'.enginesRunning

namespace Engine

variable {g : Engine}

theorem Within.of_same {g' : Engine} (hwave : g'.currentWave = g.currentWave)
    (hrunning : g.enginesRunning → g'.enginesRunning) (houtputs : g'.outputs = g.outputs) : Within g g' :=
  ⟨hwave, hrunning, [], by rw [houtputs, append_nil], nofun⟩

theorem handleClientRequest_within {m : Input} (h : ∀ wave, m = .add wave → wave ≤ g.currentWave) :
    Within g (g.handleClientRequest m) := by
  cases m with
  | add wave =>
    have hwave := h wave rfl
    unfold handleClientRequest addRequest
    dsimp only
    split
    · exact .of_same rfl id rfl
    rw [if_neg (by omega)]
    split
    · exact ⟨rfl, fun _ => rfl, [.startWave g.currentWave], rfl, fun m hm => ⟨mem_singleton.1 hm, rfl⟩⟩
    · exact .of_same rfl id rfl
  | abort queued started => exact .of_same rfl id rfl
  | pause mode => exact .of_same rfl (fun _ => rfl) rfl
  | resume =>
    show Within g g.resumeScheduler
    unfold resumeScheduler
    split <;> exact .of_same rfl id rfl

theorem handleStart_within {n : ℕ} {i : Fin (n + 2)} {m : Start n} (h : m.wave ≤ g.currentWave) :
    Within g (g.handleStart i m) := by
  unfold handleStart
  split
  · exact .of_same rfl id rfl
  split_ifs with hwakes
  · exact .of_same (le_antisymm h hwakes.2) (fun _ => rfl) rfl
  · exact .of_same rfl id rfl

theorem finishRound_within (g : Engine) (rankZero : Bool) : Within g (g.finishRound rankZero true) := by
  refine ⟨rfl, fun _ => rfl, _, rfl, fun m hm => ⟨?_, rfl⟩⟩
  split at hm
  · cases hm
  rw [if_neg (by decide)] at hm
  split at hm
  · exact mem_singleton.1 hm
  · cases hm

theorem step_within (interval : ℕ) (rankZero : Bool) (queued started : ℕ) :
    Within g (g.step interval rankZero queued started) := by
  unfold step
  dsimp only
  split
  · obtain ⟨hwave, hrunning, houtputs⟩ := finishRound_within
      { g with queued := queued, started := started, stepCounter := g.stepCounter + 1 } rankZero
    exact ⟨hwave, hrunning, houtputs⟩
  · exact .of_same rfl id rfl

end Engine

namespace Group

variable {C : Type} {n wave interval : ℕ} {g g' : Group C n} {i : Fin (n + 2)}

/-- All engines are in one wave, and nothing on its way is of a later one. -/
structure InWave (wave : ℕ) (g : Group C n) : Prop where
  waves : ∀ i, (g.engines i).currentWave = wave
  adds : ∀ client i w, .add w ∈ g.inputs client i → w ≤ wave
  starts : ∀ i, ∀ m ∈ g.starts i, m.wave ≤ wave
  completes : ∀ i w, .waveComplete w ∈ (g.engines i).outputs → w < wave
  started : ∀ i w, .startWave w ∈ (g.engines i).outputs → w ≤ wave ∧ (w = wave → (g.engines i).enginesRunning)

/-- The message will wake the engine. -/
def Waking (wave : ℕ) (i : Fin (n + 2)) (m : Start n) : Prop := m.wave = wave ∧ m.exclude ≠ some i

/-- The wave goes on: engines stay running, and a message that would have woken one has done so or is lost. -/
structure Continues (wave : ℕ) (g g' : Group C n) : Prop where
  running : ∀ i, (g.engines i).enginesRunning → (g'.engines i).enginesRunning
  outputs : ∀ i, (g.engines i).outputs <+: (g'.engines i).outputs
  starts : ∀ i, ∀ m ∈ g.starts i, Waking wave i m →
    m ∈ g'.starts i ∨ (g'.engines i).enginesRunning ∨ wave ∈ g'.discarded
  discarded : wave ∈ g.discarded → wave ∈ g'.discarded ∨ ∃ i, (g'.engines i).enginesRunning

theorem InWave.within (h : InWave wave g) (hengines : ∀ i, (g.engines i).Within (g'.engines i))
    (hinputs : ∀ client i, ∀ m ∈ g'.inputs client i, m ∈ g.inputs client i)
    (hstarts : ∀ i, ∀ m ∈ g'.starts i, m ∈ g.starts i) : InWave wave g' := by
  have hnew (i : Fin (n + 2)) (m : Control) (hm : m ∈ (g'.engines i).outputs) :
      m ∈ (g.engines i).outputs ∨ m = .startWave wave ∧ (g'.engines i).enginesRunning := by
    obtain ⟨new, hout, hnew⟩ := (hengines i).outputs
    rw [hout] at hm
    rcases mem_append.1 hm with hm | hm
    · exact .inl hm
    · exact .inr (h.waves i ▸ hnew m hm)
  refine ⟨fun i => (hengines i).wave.trans (h.waves i), fun client i w hw => h.adds client i w (hinputs client i _ hw),
    fun i m hm => h.starts i m (hstarts i m hm), fun i w hw => ?_, fun i w hw => ?_⟩
  · rcases hnew i _ hw with hold | ⟨hcon, -⟩
    · exact h.completes i w hold
    · cases hcon
  · rcases hnew i _ hw with hold | ⟨heq, hrunning⟩
    · exact ⟨(h.started i w hold).1, fun heq => (hengines i).running ((h.started i w hold).2 heq)⟩
    · cases heq
      exact ⟨le_rfl, fun _ => hrunning⟩

theorem within_setEngine {engine : Engine} (h : (g.engines i).Within engine) (j : Fin (n + 2)) :
    (g.engines j).Within ((g.setEngine i engine).engines j) := by
  exact (forall_update_iff g.engines fun j e => (g.engines j).Within e).2 ⟨h, fun _ _ => .of_same rfl id rfl⟩ j

theorem Continues.within (hengines : ∀ i, (g.engines i).Within (g'.engines i))
    (hstarts : ∀ i, ∀ m ∈ g.starts i, Waking wave i m →
      m ∈ g'.starts i ∨ (g'.engines i).enginesRunning ∨ wave ∈ g'.discarded)
    (hdiscarded : wave ∈ g.discarded → wave ∈ g'.discarded ∨ ∃ i, (g'.engines i).enginesRunning) :
    Continues wave g g' := by
  refine ⟨fun i => (hengines i).running, fun i => ?_, hstarts, hdiscarded⟩
  obtain ⟨new, hout, -⟩ := (hengines i).outputs
  exact ⟨new, hout.symm⟩

/-- The all-reduce ends the wave, or all engines go on. -/
theorem sync_cases (h : InWave wave g) : InWave wave g.sync ∧ Continues wave g g.sync ∨ InWave (wave + 1) g.sync ∧
      .waveComplete wave ∈ (g.sync.engines 0).outputs := by
  cases hunfinished : g.anyUnfinished || decide (g.pauseCount % (n + 2) ≠ 0) with
  | true =>
    have hengines (i : Fin (n + 2)) : (g.engines i).Within (g.sync.engines i) := by
      unfold sync
      rw [hunfinished]
      obtain ⟨hwave, hrunning, houtputs⟩ := Engine.finishRound_within { g.engines i with
        ignoreStartDpWave := (g.engines i).ignoreStartDpWave || decide (g.pauseCount = n + 2)
        pendingPause := (g.engines i).pendingPause && !decide (g.pauseCount = n + 2) } (decide (i = 0))
      exact ⟨hwave, hrunning, houtputs⟩
    exact .inl ⟨h.within hengines (fun _ _ _ hm => hm) fun _ _ hm => hm,
      .within hengines (fun _ _ hm _ => .inl hm) .inl⟩
  | false =>
    have hout (i : Fin (n + 2)) : (g.sync.engines i).outputs =
        (g.engines i).outputs ++ if i = 0 then [.waveComplete wave] else [] := by
      unfold sync Engine.finishRound
      dsimp only
      rw [hunfinished, h.waves i]
      by_cases hi : i = 0 <;> simp [hi]
    refine .inr ⟨⟨fun i => ?_, fun client i w hw => (h.adds client i w hw).trans (Nat.le_succ _),
      fun i m hm => (h.starts i m hm).trans (Nat.le_succ _), fun i w hw => ?_, fun i w hw => ?_⟩, ?_⟩
    · unfold sync Engine.finishRound
      dsimp only
      rw [hunfinished, h.waves i]
      rfl
    · rw [hout] at hw
      rcases mem_append.1 hw with hw | hw
      · exact (h.completes i w hw).trans (Nat.lt_succ_self _)
      split at hw
      · cases mem_singleton.1 hw
        exact Nat.lt_succ_self _
      · cases hw
    · rw [hout] at hw
      rcases mem_append.1 hw with hw | hw
      · have := (h.started i w hw).1
        exact ⟨by omega, fun heq => by omega⟩
      · split at hw
        · cases mem_singleton.1 hw
        · cases hw
    · rw [hout]
      simp

/-- Every move keeps the engines in one wave; it goes on, or it is complete and engine 0 says so. -/
theorem move_cases [DecidableEq C] {a : Move C n} (h : InWave wave g) (hmove : g.move interval a = some g') :
    InWave wave g' ∧ Continues wave g g' ∨ InWave (wave + 1) g' ∧ .waveComplete wave ∈ (g'.engines 0).outputs := by
  unfold move at hmove
  split at hmove
  next client i => -- a message of a client
    split at hmove
    next m rest hinputs =>
      split at hmove
      · cases hmove
        have hadd (w : ℕ) (hm : m = .add w) : w ≤ (g.engines i).currentWave := by
          rw [h.waves i]
          exact h.adds client i w (by rw [hinputs, hm]; exact mem_cons_self ..)
        have hengines := within_setEngine (Engine.handleClientRequest_within hadd)
        refine .inl ⟨h.within hengines (fun client' j m' hm' => ?_) fun _ _ hm => hm,
          .within hengines (fun _ _ hm _ => .inl hm) .inl⟩
        dsimp only at hm'
        by_cases hc : client' = client
        · subst hc
          rw [update_self] at hm'
          by_cases hj : j = i
          · subst hj
            rw [update_self] at hm'
            rw [hinputs]
            exact mem_cons_of_mem _ hm'
          · rwa [update_of_ne hj] at hm'
        · rwa [update_of_ne hc] at hm'
      · cases hmove
    · cases hmove
  next i => -- a message of the coordinator
    split at hmove
    next m rest hstarts =>
      split at hmove
      · cases hmove
        have hle : m.wave ≤ (g.engines i).currentWave := by
          rw [h.waves i]
          exact h.starts i m (by rw [hstarts]; exact mem_cons_self ..)
        have hengines := within_setEngine (Engine.handleStart_within (i := i) hle)
        refine .inl ⟨h.within hengines (fun _ _ _ hm => hm) fun j m' hm' => ?_, .within hengines (fun j m' hm' hwake => ?_)
          fun hd => ?_⟩
        · dsimp only at hm'
          by_cases hj : j = i
          · subst hj
            rw [update_self] at hm'
            rw [hstarts]
            exact mem_cons_of_mem _ hm'
          · rwa [update_of_ne hj] at hm'
        · dsimp only
          by_cases hj : j = i
          · subst hj
            rw [update_self]
            rw [hstarts] at hm'
            rcases mem_cons.1 hm' with rfl | hm'
            · have hwakes : (g.engines j).Wakes j m' := ⟨hwake.2, (h.waves j).trans_le hwake.1.ge⟩
              right
              by_cases hignore : (g.engines j).ignoreStartDpWave
              · rw [if_pos ⟨hignore, hwakes⟩]
                exact .inr (hwake.1 ▸ mem_cons_self ..)
              left
              unfold setEngine Engine.handleStart
              dsimp only
              rw [update_self, if_neg hignore, if_pos hwakes]
            · exact .inl hm'
          · rw [update_of_ne hj]
            exact .inl hm'
        · split
          · exact .inl (mem_cons_of_mem _ hd)
          · exact .inl hd
      · cases hmove
    · cases hmove
  next i queued started =>
    split at hmove
    · cases hmove
      have hengines := within_setEngine (g := g) (i := i) (Engine.step_within interval (i = 0) queued started)
      exact .inl ⟨h.within hengines (fun _ _ _ hm => hm) fun _ _ hm => hm,
        .within hengines (fun _ _ hm _ => .inl hm) .inl⟩
    · cases hmove
  · split at hmove
    · cases hmove
      exact sync_cases h
    · cases hmove
  · split at hmove
    · cases hmove
      have hengines (i : Fin (n + 2)) : (g.engines i).Within (g.resume.engines i) :=
        .of_same rfl (fun hr => by show (_ || _) = true; rw [hr, Bool.true_or]) rfl
      refine .inl ⟨h.within hengines (fun _ _ _ hm => hm) fun _ _ hm => hm,
        .within hengines (fun _ _ hm _ => .inl hm) fun hd => ?_⟩
      unfold resume
      cases g.anyUnfinished with
      | true => exact .inr ⟨0, Bool.or_true _⟩
      | false => exact .inl hd
    · cases hmove

end Group

end VllmRwkv.Wave
