import VllmRwkv.Wave.Engine

/-!
# The in-process coordinator

The coordinator of the Rust client shares its state with the clients: a client that finds the engines not running sets
`engines_running` itself and queues a command, for which the coordinator broadcasts `START_DP_WAVE`. When everything
is at rest the flag is false, unless engines that were paused have discarded such a broadcast.
-/

namespace VllmRwkv.Wave.InProc

open List Function Option

/-- `CoordinatorStateSnapshot`; `current_wave` is a `u32`. -/
structure Snapshot where
  currentWave : ℕ := 0
  enginesRunning : Bool := false
deriving DecidableEq

/-- A request that a client is about to send, stamped with the wave of its snapshot; `notify`: the engines did not run
then, and `notify_first_request` is still to be called. -/
structure Submission (C : Type) (n : ℕ) where
  client : C
  target : Fin (n + 2)
  wave : ℕ
  notify : Bool

structure System (C : Type) (n : ℕ) where
  group : Group C n := {}
  state : Snapshot := {}
  submissions : List (Submission C n) := []
  /-- `FirstRequest`: the engine that gets the request, and the wave. -/
  commands : List (Fin (n + 2) × ℕ) := []

inductive Action (C : Type) (n : ℕ)
  | snapshot (client : C) (target : Fin (n + 2))
  | notify (k : ℕ)
  | send (k : ℕ)
  | cancel (k : ℕ)
  | abort (client : C) (i : Fin (n + 2)) (queued started : ℕ)
  | pause (client : C) (i : Fin (n + 2)) (mode : PauseMode)
  | resume (client : C) (i : Fin (n + 2))
  | engine (move : Move C n)
  | command
  | output (i : Fin (n + 2))

variable {C : Type} [DecidableEq C] {n : ℕ}

def sendInput (s : System C n) (client : C) (i : Fin (n + 2)) (m : Input) : System C n :=
  { s with group := { s.group with
      inputs := update s.group.inputs client (update (s.group.inputs client) i (s.group.inputs client i ++ [m])) } }

/-- `broadcast_start_wave` -/
def broadcastStartWave (g : Group C n) (m : Start n) : Group C n := { g with starts := fun i => g.starts i ++ [m] }

/-- `start_wave_for_first_request` -/
def startWaveForFirstRequest (state : Snapshot) (requestWave : ℕ) (target : Fin (n + 2)) : Snapshot × Start n :=
  ({ state with enginesRunning := true },
    ⟨state.currentWave, if requestWave ≥ state.currentWave then some target else none⟩)

/-- `handle_outputs`: the new state, and the wave that is to be broadcast. The next wave wraps around, as in a release
build. -/
def handleOutput (state : Snapshot) : Control → Snapshot × Option ℕ
  | .waveComplete wave =>
    if wave ≥ state.currentWave then (⟨(wave + 1) % 2 ^ 32, false⟩, none) else (state, none)
  | .startWave wave =>
    if wave > state.currentWave ∨ wave = state.currentWave ∧ state.enginesRunning = false then (⟨wave, true⟩, some wave)
    else (state, none)

def step (interval : ℕ) (s : System C n) : Action C n → Option (System C n)
  | .snapshot client target => some { s with
      submissions := s.submissions ++ [⟨client, target, s.state.currentWave, !s.state.enginesRunning⟩] }
  | .notify k =>
    s.submissions[k]?.map fun x =>
      let s := { s with submissions := s.submissions.set k { x with notify := false } }
      if x.notify = false ∨ s.state.enginesRunning then s
      else { s with
        commands := s.commands ++ [(x.target, s.state.currentWave)]
        state := { s.state with enginesRunning := true } }
  | .send k =>
    s.submissions[k]?.bind fun x =>
      if x.notify then none
      else some (sendInput { s with submissions := s.submissions.eraseIdx k } x.client x.target (.add x.wave))
  | .cancel k => some { s with submissions := s.submissions.eraseIdx k }
  | .abort client i queued started => some (sendInput s client i (.abort queued started))
  | .pause client i mode => some (sendInput s client i (.pause mode))
  | .resume client i => some (sendInput s client i .resume)
  | .engine move => (s.group.move interval move).map fun group => { s with group := group }
  | .command =>
    match s.commands with
    | [] => none
    | (target, wave) :: rest =>
      let (state, m) := startWaveForFirstRequest s.state wave target
      some { s with state := state, commands := rest, group := broadcastStartWave s.group m }
  | .output i =>
    match (s.group.engines i).outputs with
    | [] => none
    | m :: rest =>
      let group := s.group.setEngine i { s.group.engines i with outputs := rest }
      let (state, broadcast) := handleOutput s.state m
      some { s with
        state := state
        group := match broadcast with
          | none => group
          | some wave => broadcastStartWave group ⟨wave, some i⟩ }

def run (interval : ℕ) (s : System C n) (actions : List (Action C n)) : Option (System C n) :=
  actions.foldlM (step interval) s

/-- All channels are empty, and every engine is idle with `engines_running` false. -/
def Quiet (s : System C n) : Prop :=
  s.submissions = [] ∧ s.commands = [] ∧ (∀ client i, s.group.inputs client i = []) ∧
    ∀ i, s.group.starts i = [] ∧ (s.group.engines i).outputs = [] ∧ (s.group.engines i).phase = .polling ∧
      (s.group.engines i).hasWork = false

instance [Fintype C] (s : System C n) : Decidable (Quiet s) := inferInstanceAs (Decidable (_ ∧ _ ∧ _ ∧ _))

/-- The coordinator is in the engines' wave or will be told that its wave is complete. If its flag is set, then it will
be reset, some engine runs or will be woken, or the message to wake it has been discarded. -/
structure Inv (wave : ℕ) (s : System C n) : Prop where
  group : s.group.InWave wave
  submissions : ∀ x ∈ s.submissions, x.wave ≤ wave
  behind : s.state.currentWave ≤ wave
  lag : s.state.currentWave < wave → ∃ w, w + 1 = wave ∧ .waveComplete w ∈ (s.group.engines 0).outputs
  flag : s.state.enginesRunning → s.state.currentWave < wave ∨ s.commands ≠ [] ∨
    (∃ i, (s.group.engines i).enginesRunning) ∨ (∃ i, ∃ m ∈ s.group.starts i, Group.Waking wave i m) ∨
    wave ∈ s.group.discarded

variable {s s' : System C n} {wave interval : ℕ}

theorem Inv.sendInput (h : Inv wave s) {client : C} {i : Fin (n + 2)} {m : Input}
    (hm : ∀ w, m = .add w → w ≤ wave) : Inv wave (InProc.sendInput s client i m) := by
  refine ⟨⟨h.group.waves, fun client' j w hw => ?_, h.group.starts, h.group.completes, h.group.started⟩, h.submissions,
    h.behind, h.lag, h.flag⟩
  unfold InProc.sendInput at hw
  dsimp only at hw
  by_cases hc : client' = client
  · subst hc
    rw [update_self] at hw
    by_cases hj : j = i
    · subst hj
      rw [update_self] at hw
      rcases mem_append.1 hw with hw | hw
      · exact h.group.adds client' j w hw
      · exact hm w (mem_singleton.1 hw).symm
    · rw [update_of_ne hj] at hw
      exact h.group.adds client' j w hw
  · rw [update_of_ne hc] at hw
    exact h.group.adds client' j w hw

omit [DecidableEq C] in
theorem inWave_broadcast {g : Group C n} (h : g.InWave wave) {m : Start n} (hm : m.wave ≤ wave) :
    (broadcastStartWave g m).InWave wave := by
  refine ⟨h.waves, h.adds, fun i m' hm' => ?_, h.completes, h.started⟩
  rcases mem_append.1 hm' with hm' | hm'
  · exact h.starts i m' hm'
  · rw [mem_singleton.1 hm']
    exact hm

/-- With two engines there is one that a broadcast does not exclude. -/
theorem exists_ne_exclude (exclude : Option (Fin (n + 2))) : ∃ i : Fin (n + 2), exclude ≠ some i := by
  by_cases h : exclude = some 0
  · refine ⟨1, fun hcon => ?_⟩
    rw [h] at hcon
    exact absurd (congrArg Fin.val (some.inj hcon)) (by simp)
  · exact ⟨0, h⟩

theorem Inv.engine (h : Inv wave s) {a : Move C n} {group : Group C n} (hmove : s.group.move interval a = some group) :
    Inv wave { s with group := group } ∨ Inv (wave + 1) { s with group := group } := by
  have hbehind := h.behind
  rcases Group.move_cases h.group hmove with ⟨hgroup, hcont⟩ | ⟨hgroup, hcomplete⟩
  · refine .inl ⟨hgroup, h.submissions, h.behind, fun hlt => ?_, fun hflag => ?_⟩
    · obtain ⟨w, hw, hmem⟩ := h.lag hlt
      exact ⟨w, hw, (hcont.outputs 0).subset hmem⟩
    · rcases h.flag hflag with hlt | hcommands | ⟨i, hi⟩ | ⟨i, m, hm, hwaking⟩ | hdiscarded
      · exact .inl hlt
      · exact .inr (.inl hcommands)
      · exact .inr (.inr (.inl ⟨i, hcont.running i hi⟩))
      · rcases hcont.starts i m hm hwaking with hkept | hrunning | hlost
        · exact .inr (.inr (.inr (.inl ⟨i, m, hkept, hwaking⟩)))
        · exact .inr (.inr (.inl ⟨i, hrunning⟩))
        · exact .inr (.inr (.inr (.inr hlost)))
      · rcases hcont.discarded hdiscarded with hlost | hrunning
        · exact .inr (.inr (.inr (.inr hlost)))
        · exact .inr (.inr (.inl hrunning))
  · -- the coordinator will hear that the wave is complete
    exact .inr ⟨hgroup, fun x hx => (h.submissions x hx).trans (Nat.le_succ _), hbehind.trans (Nat.le_succ _),
      fun _ => ⟨wave, rfl, hcomplete⟩, fun _ => .inl (Nat.lt_succ_of_le hbehind)⟩

omit [DecidableEq C] in
theorem Inv.command (h : Inv wave s) {target : Fin (n + 2)} {w : ℕ} {rest : List (Fin (n + 2) × ℕ)} : Inv wave { s with
      state := (startWaveForFirstRequest s.state w target).1
      commands := rest
      group := broadcastStartWave s.group (startWaveForFirstRequest s.state w target).2 } := by
  refine ⟨inWave_broadcast h.group h.behind, h.submissions, h.behind, h.lag, fun _ => ?_⟩
  rcases h.behind.lt_or_eq with hlt | heq
  · exact .inl hlt
  · obtain ⟨i, hi⟩ := exists_ne_exclude (startWaveForFirstRequest s.state w target).2.exclude
    exact .inr (.inr (.inr (.inl ⟨i, _, mem_append_right _ (mem_singleton.2 rfl), heq, hi⟩)))

omit [DecidableEq C] in
theorem Inv.output (h : Inv wave s) (hfit : wave < 2 ^ 32) {i : Fin (n + 2)} {m : Control} {rest : List Control}
    (hout : (s.group.engines i).outputs = m :: rest) :
    let group := s.group.setEngine i { s.group.engines i with outputs := rest }
    Inv wave { s with
      state := (handleOutput s.state m).1
      group := match (handleOutput s.state m).2 with
        | none => group
        | some wave => broadcastStartWave group ⟨wave, some i⟩ } := by
  intro group
  have hbehind := h.behind
  have hengine (j : Fin (n + 2)) : (group.engines j).currentWave = (s.group.engines j).currentWave ∧
      (group.engines j).enginesRunning = (s.group.engines j).enginesRunning ∧
      ∀ m' ∈ (group.engines j).outputs, m' ∈ (s.group.engines j).outputs := by
    show (update s.group.engines i _ j).currentWave = _ ∧ (update s.group.engines i _ j).enginesRunning = _ ∧
      ∀ m' ∈ (update s.group.engines i _ j).outputs, _
    by_cases hj : j = i
    · subst hj
      rw [update_self]
      exact ⟨rfl, rfl, fun m' hm' => by rw [hout]; exact mem_cons_of_mem _ hm'⟩
    · rw [update_of_ne hj]
      exact ⟨rfl, rfl, fun _ hm' => hm'⟩
  have hgroup : group.InWave wave := ⟨fun j => (hengine j).1.trans (h.group.waves j), h.group.adds, h.group.starts,
      fun j w hw => h.group.completes j w ((hengine j).2.2 _ hw), fun j w hw => by
        rw [(hengine j).2.1]
        exact h.group.started j w ((hengine j).2.2 _ hw)⟩
  -- a message about the end of the last wave is still there, unless it is this one
  have hlag : s.state.currentWave < wave → (∃ w, w + 1 = wave ∧ m = .waveComplete w) ∨
      ∃ w, w + 1 = wave ∧ .waveComplete w ∈ (group.engines 0).outputs := by
    intro hlt
    obtain ⟨w, hw, hmem⟩ := h.lag hlt
    by_cases hi : (0 : Fin (n + 2)) = i
    · subst hi
      rw [hout] at hmem
      rcases mem_cons.1 hmem with heq | hmem
      · exact .inl ⟨w, hw, heq.symm⟩
      refine .inr ⟨w, hw, ?_⟩
      show _ ∈ (update s.group.engines 0 _ 0).outputs
      rw [update_self]
      exact hmem
    · refine .inr ⟨w, hw, ?_⟩
      show _ ∈ (update s.group.engines i _ 0).outputs
      rw [update_of_ne hi]
      exact hmem
  have hflag : s.state.enginesRunning → s.state.currentWave < wave ∨ s.commands ≠ [] ∨
      (∃ i, (group.engines i).enginesRunning) ∨ (∃ i, ∃ m ∈ group.starts i, Group.Waking wave i m) ∨
      wave ∈ group.discarded := by
    intro hf
    simp only [fun j => (hengine j).2.1]
    exact h.flag hf
  have hhead : m ∈ (s.group.engines i).outputs := by
    rw [hout]
    exact mem_cons_self ..
  cases m with
  | waveComplete w =>
    have hw := h.group.completes i w hhead
    unfold handleOutput
    dsimp only
    split_ifs with hge
    · rw [Nat.mod_eq_of_lt (by omega)]
      refine ⟨hgroup, h.submissions, hw, fun hlt => ?_, nofun⟩
      rcases hlag (lt_of_le_of_lt hge hw) with ⟨w', hw', heq⟩ | hmem
      · cases heq
        exact absurd hw' (ne_of_lt hlt)
      · exact hmem
    refine ⟨hgroup, h.submissions, h.behind, fun hlt => ?_, hflag⟩
    change s.state.currentWave < wave at hlt
    rcases hlag hlt with ⟨w', hw', heq⟩ | hmem
    · cases heq
      omega
    · exact hmem
  | startWave w =>
    obtain ⟨hw, hrunning⟩ := h.group.started i w hhead
    have hkeep (hlt : s.state.currentWave < wave) :
        ∃ w, w + 1 = wave ∧ .waveComplete w ∈ (group.engines 0).outputs := by
      rcases hlag hlt with ⟨w', -, heq⟩ | hmem
      · cases heq
      · exact hmem
    unfold handleOutput
    dsimp only
    split_ifs with hnew
    · refine ⟨inWave_broadcast hgroup hw, h.submissions, hw, fun hlt => hkeep ?_, fun _ => ?_⟩
      · dsimp only at hlt
        omega
      rcases hw.lt_or_eq with hlt | heq
      · exact .inl hlt
      refine .inr (.inr (.inl ⟨i, ?_⟩))
      show (group.engines i).enginesRunning
      rw [(hengine i).2.1]
      exact hrunning heq
    · exact ⟨hgroup, h.submissions, h.behind, hkeep, hflag⟩

theorem Inv.step (h : Inv wave s) (hfit : wave < 2 ^ 32) {a : Action C n} (hstep : step interval s a = some s') :
    ∃ wave', Inv wave' s' := by
  cases a with
  | snapshot client target =>
    cases hstep
    refine ⟨wave, h.group, fun x hx => ?_, h.behind, h.lag, h.flag⟩
    rcases mem_append.1 hx with hx | hx
    · exact h.submissions x hx
    · rw [mem_singleton.1 hx]
      exact h.behind
  | notify k =>
    obtain ⟨x, hx, rfl⟩ := map_eq_some_iff.1 hstep
    have hsub : ∀ y ∈ s.submissions.set k { x with notify := false }, y.wave ≤ wave := by
      intro y hy
      rcases mem_or_eq_of_mem_set hy with hy | rfl
      · exact h.submissions y hy
      · exact h.submissions x (mem_of_getElem? hx)
    dsimp only
    split
    · exact ⟨wave, h.group, hsub, h.behind, h.lag, h.flag⟩
    · exact ⟨wave, h.group, hsub, h.behind, h.lag, fun _ => .inr (.inl (by simp))⟩
  | send k =>
    obtain ⟨x, hx, hsend⟩ := bind_eq_some_iff.1 hstep
    split at hsend
    · cases hsend
    cases hsend
    have hwave := h.submissions x (mem_of_getElem? hx)
    have herase : Inv wave { s with submissions := s.submissions.eraseIdx k } :=
      ⟨h.group, fun y hy => h.submissions y (mem_of_mem_eraseIdx hy), h.behind, h.lag, h.flag⟩
    exact ⟨wave, herase.sendInput fun w hw => by cases hw; exact hwave⟩
  | cancel k =>
    cases hstep
    exact ⟨wave, h.group, fun y hy => h.submissions y (mem_of_mem_eraseIdx hy), h.behind, h.lag, h.flag⟩
  | abort client i queued started | pause client i mode | resume client i =>
    cases hstep
    exact ⟨wave, h.sendInput nofun⟩
  | engine move =>
    obtain ⟨group, hmove, rfl⟩ := map_eq_some_iff.1 hstep
    rcases h.engine hmove with hinv | hinv
    · exact ⟨wave, hinv⟩
    · exact ⟨wave + 1, hinv⟩
  | command =>
    unfold InProc.step at hstep
    dsimp only at hstep
    split at hstep
    · cases hstep
    · cases hstep
      exact ⟨wave, h.command⟩
  | output i =>
    unfold InProc.step at hstep
    dsimp only at hstep
    split at hstep
    · cases hstep
    next m rest hout =>
      cases hstep
      exact ⟨wave, h.output hfit hout⟩

omit [DecidableEq C] in
theorem inv_start : Inv 0 ({} : System C n) :=
  ⟨⟨fun _ => rfl, nofun, nofun, nofun, nofun⟩, nofun, le_rfl, nofun, nofun⟩

/-- The run has fewer than `2 ^ 32` waves: no engine is ever in a later one. -/
def FewWaves (interval : ℕ) (actions : List (Action C n)) : Prop :=
  ∀ before s, before <+: actions → run interval {} before = some s →
    (s.group.engines ⟨0, Nat.succ_pos _⟩).currentWave < 2 ^ 32

theorem inv_run {actions : List (Action C n)} (hfew : FewWaves interval actions)
    (hrun : run interval {} actions = some s) : ∃ wave, Inv wave s := by
  induction actions using reverseRecOn generalizing s with
  | nil =>
    cases hrun
    exact ⟨0, inv_start⟩
  | append_singleton actions a ih =>
    unfold InProc.run at hrun
    rw [foldlM_append] at hrun
    obtain ⟨s₁, hbefore, hlast⟩ := bind_eq_some_iff.1 hrun
    rw [foldlM_cons] at hlast
    obtain ⟨s₂, hstep, heq⟩ := bind_eq_some_iff.1 hlast
    cases heq
    obtain ⟨wave, hinv⟩ := ih (fun before s hbefore => hfew before s (hbefore.trans (prefix_append _ _))) hbefore
    have hfit := hfew actions s₁ (prefix_append _ _) hbefore
    rw [hinv.group.waves] at hfit
    exact hinv.step hfit hstep

/-- In every run of fewer than `2 ^ 32` waves: when all channels are empty and every engine is idle, the flag of the
coordinator is false, unless a broadcast to wake an engine in the current wave was discarded while it was paused, and no
resume has found work since. -/
theorem flag_false_of_quiet {actions : List (Action C n)} (hfew : FewWaves interval actions)
    (hrun : run interval {} actions = some s) (hquiet : Quiet s)
    (hkept : s.state.currentWave ∉ s.group.discarded) : s.state.enginesRunning = false := by
  obtain ⟨wave, hinv⟩ := inv_run hfew hrun
  obtain ⟨-, hnoCommands, -, hengines⟩ := hquiet
  have hwave : s.state.currentWave = wave := by
    rcases hinv.behind.lt_or_eq with hlt | heq
    · obtain ⟨w, -, hmem⟩ := hinv.lag hlt
      rw [(hengines 0).2.1] at hmem
      cases hmem
    · exact heq
  rw [hwave] at hkept
  by_contra hflag
  rcases hinv.flag (Bool.not_eq_false _ ▸ hflag) with hlt | hcommands | ⟨i, hi⟩ | ⟨i, m, hm, -⟩ | hdiscarded
  · exact absurd hwave (ne_of_lt hlt)
  · exact hcommands hnoCommands
  · have hidle := (hengines i).2.2.2
    unfold Engine.hasWork at hidle
    rw [hi, Bool.true_or] at hidle
    cases hidle
  · rw [(hengines i).1] at hm
    cases hm
  · exact hkept hdiscarded

/-- Two engines serve a request. -/
def served : List (Action Unit 0) :=
  [.snapshot () 0, .notify 0, .command, .send 0, .engine (.handle () 0), .engine (.start 0), .engine (.start 1),
    .engine (.step 0 0 0), .engine (.step 1 0 0), .engine .sync, .output 0]

theorem flag_false_of_quiet_served : ∃ s, run 1 {} served = some s ∧ Quiet s ∧ s.state.enginesRunning = false := by
  have hend : (run 1 {} served).any (fun s => decide (Quiet s ∧ s.state.currentWave ∉ s.group.discarded)) := by
    decide
  obtain ⟨s, hrun, hs⟩ := any_eq_true _ _ |>.1 hend
  obtain ⟨hquiet, hkept⟩ := of_decide_eq_true hs
  have hfew : FewWaves 1 served := by
    have hall : ∀ before ∈ served.inits,
        (run 1 {} before).all fun s => (s.group.engines ⟨0, Nat.succ_pos _⟩).currentWave < 2 ^ 32 := by
      decide
    intro before s hbefore hs
    have hwave := hall before ((mem_inits _ _).2 hbefore)
    rw [hs] at hwave
    exact of_decide_eq_true hwave
  exact ⟨s, hrun, hquiet, flag_false_of_quiet hfew hrun hquiet hkept⟩

/-- Two engines are paused. The broadcast for a request is discarded, the request is aborted, and the engines are
resumed. -/
def abortedWhilePaused : List (Action Unit 0) :=
  [.pause () 0 .keep, .pause () 1 .keep, .engine (.handle () 0), .engine (.handle () 1), .engine (.step 0 0 0),
    .engine (.step 1 0 0), .engine .sync, .output 0, .snapshot () 0, .notify 0, .command, .send 0, .engine (.start 0),
    .engine (.start 1), .engine (.handle () 0), .abort () 0 1 0, .engine (.handle () 0), .resume () 0, .resume () 1,
    .engine (.handle () 0), .engine (.handle () 1), .engine .resume]

/-- All is quiet and no engine is paused, but the coordinator takes the engines for running. -/
theorem sleeping_taken_for_running :
    (run 1 {} abortedWhilePaused).any fun s => decide (Quiet s ∧ s.state.enginesRunning ∧
      ∀ i, (s.group.engines i).pauseState = .unpaused ∧ (s.group.engines i).ignoreStartDpWave = false) := by
  decide

end VllmRwkv.Wave.InProc
