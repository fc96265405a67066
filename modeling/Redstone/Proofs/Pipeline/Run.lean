import Redstone.Pipeline.Run

/-!
# What a run does to the circuit

A run changes the circuit by its passes only.  A step either honours a request to stop, or skips
its pass, or performs it; so a property of circuits that is tied to the passes still to come, and
that every step keeps, holds wherever the run stops.
-/

namespace Redstone.Run

variable {settings : Settings} {scene : Option Scene}

theorem circuit_heed (r : Run) (stop : Bool) :
    (r.heed stop).workspace.circuit = r.workspace.circuit := by
  cases stop <;> rfl

/-- Performing a pass and taking its sample changes the circuit as the pass does. -/
theorem circuit_conclude (settings : Settings) (scene : Option Scene) (pass : Pass)
    (start stop : Instant) (r : Run) :
    let done := perform settings scene pass r
    let out := conclude pass start stop done.2 done.1
    out.1.workspace.circuit = (pass.run settings scene r.workspace).1.circuit ∧
      out.2 = (pass.run settings scene r.workspace).2.map (.failed pass.name) := by
  unfold conclude
  dsimp only
  have hdone : (perform settings scene pass r).2 = (pass.run settings scene r.workspace).2 := rfl
  rw [hdone]
  cases (pass.run settings scene r.workspace).2 with
  | none => exact ⟨rfl, rfl⟩
  | some cause => exact ⟨rfl, rfl⟩

theorem run_stepIn {σ : Type} (env : Surroundings (StateM σ)) (pass : Pass) (r : Run) (s : σ) :
    (stepIn env settings scene pass r).run s =
      (let asked := env.stopRequested.run s
      let heeded := r.heed asked.1
      let shown := heeded.modifyMonitor (·.withStatus pass.status)
      if heeded.workspace.monitor.cancelled then
        ((heeded.note .info "compilation cancelled" pass [], some .cancelled), asked.2)
      else if isEnabled settings pass then
        let begun := env.now.run asked.2
        let done := perform settings scene pass shown
        let ended := env.now.run begun.2
        (conclude pass begun.1 ended.1 done.2 done.1, ended.2)
      else
        (((shown.note .debug "skipping pass" pass []).modifyMonitor Monitor.advance, none),
          asked.2)) := by
  unfold stepIn
  rw [StateT.run_bind]
  generalize StateT.run env.stopRequested s = asked
  dsimp only
  cases hcancelled : (r.heed (Prod.fst asked)).workspace.monitor.cancelled with
  | true =>
      change StateT.run (if (r.heed asked.1).workspace.monitor.cancelled = true then _ else _)
        asked.2 = _
      rw [hcancelled, if_pos rfl, if_pos rfl]
      rfl
  | false =>
      change StateT.run (if (r.heed asked.1).workspace.monitor.cancelled = true then _ else _)
        asked.2 = _
      rw [hcancelled, if_neg Bool.false_ne_true, if_neg Bool.false_ne_true]
      split <;> rfl

/-- All that a step can do: it honours a request to stop, or it skips the pass, or it performs
it. -/
theorem stepIn_cases {σ : Type} (env : Surroundings (StateM σ)) (pass : Pass) (r : Run) (s : σ) :
    ∃ r' failure s', (stepIn env settings scene pass r).run s = ((r', failure), s') ∧
      (failure = some .cancelled ∧ r'.workspace.circuit = r.workspace.circuit ∨
        isEnabled settings pass = false ∧ failure = none ∧
          r'.workspace.circuit = r.workspace.circuit ∨
        isEnabled settings pass = true ∧ ∃ w : Workspace, w.circuit = r.workspace.circuit ∧
          r'.workspace.circuit = (pass.run settings scene w).1.circuit ∧
          failure = (pass.run settings scene w).2.map (.failed pass.name)) := by
  have hheed := circuit_heed r (env.stopRequested.run s).1
  rw [run_stepIn]
  dsimp only
  split
  · exact ⟨_, _, _, rfl, .inl ⟨rfl, hheed⟩⟩
  · split
    case isTrue henabled =>
      let shown := (r.heed (env.stopRequested.run s).1).modifyMonitor (·.withStatus pass.status)
      refine ⟨_, _, _, rfl, .inr (.inr ⟨henabled, shown.workspace, hheed, ?_⟩)⟩
      exact circuit_conclude settings scene pass _ _ shown
    case isFalse henabled =>
      exact ⟨_, _, _, rfl, .inr (.inl ⟨Bool.eq_false_iff.mpr henabled, rfl, hheed⟩)⟩

theorem run_stepsIn_cons {σ : Type} (env : Surroundings (StateM σ)) (pass : Pass)
    (rest : List Pass) (r : Run) (s : σ) :
    (stepsIn env settings scene (pass :: rest) r).run s =
      (let out := (stepIn env settings scene pass r).run s
      match out.1.2 with
      | some e => ((out.1.1, some e), out.2)
      | none => (stepsIn env settings scene rest out.1.1).run out.2) := by
  rw [stepsIn, StateT.run_bind]
  generalize StateT.run (stepIn env settings scene pass r) s = out
  obtain ⟨⟨r', failure⟩, s'⟩ := out
  cases failure <;> rfl

/-! ## Stages of a run -/

/-- A property of the circuit at each stage of a run, told by the passes that are still to come.
Passes that are performed do not fail and lead to the next stage, and so does skipping them. -/
structure Stages (settings : Settings) (scene : Option Scene)
    (stage : List Pass → Circuit → Prop) : Prop where
  step : ∀ {pass rest} {w : Workspace}, stage (pass :: rest) w.circuit →
    isEnabled settings pass = true →
    (pass.run settings scene w).2 = none ∧ stage rest (pass.run settings scene w).1.circuit
  skip : ∀ {pass rest g}, stage (pass :: rest) g → isEnabled settings pass = false → stage rest g

variable {σ : Type} {stage : List Pass → Circuit → Prop}

/-- What a step of a run through its stages can do: it stops on request or leads to the next
stage. -/
theorem Stages.stepIn (h : Stages settings scene stage) (env : Surroundings (StateM σ))
    {pass : Pass} {rest : List Pass} {r : Run} (hr : stage (pass :: rest) r.workspace.circuit)
    (s : σ) :
    let out := (stepIn env settings scene pass r).run s
    out.1.2 = some .cancelled ∧ stage (pass :: rest) out.1.1.workspace.circuit ∨
      out.1.2 = none ∧ stage rest out.1.1.workspace.circuit := by
  obtain ⟨r', failure, s', heq, hcases⟩ := stepIn_cases env pass r s
  rw [heq]
  dsimp only
  rcases hcases with ⟨hfailure, hsame⟩ | ⟨hskipped, hfailure, hsame⟩ | ⟨henabled, w, hw, hrun, hfailure⟩
  · exact .inl ⟨hfailure, hsame ▸ hr⟩
  · exact .inr ⟨hfailure, hsame ▸ h.skip hr hskipped⟩
  · obtain ⟨hok, hnext⟩ := h.step (hw ▸ hr) henabled
    rw [hok] at hfailure
    exact .inr ⟨hfailure, hrun ▸ hnext⟩

/-- Wherever a run through its stages ends, the circuit is at one of the stages, and the run has
not failed. -/
theorem Stages.stepsIn (h : Stages settings scene stage) (env : Surroundings (StateM σ))
    {passes : List Pass} {r : Run} (hr : stage passes r.workspace.circuit) (s : σ) :
    let out := (stepsIn env settings scene passes r).run s
    (∃ rest, rest <:+ passes ∧ stage rest out.1.1.workspace.circuit) ∧
      (out.1.2 = none ∨ out.1.2 = some .cancelled) := by
  induction passes generalizing r s with
  | nil => exact ⟨⟨[], List.suffix_refl _, hr⟩, .inl rfl⟩
  | cons pass rest ih =>
      rw [run_stepsIn_cons]
      dsimp only
      rcases h.stepIn env hr s with ⟨hfailure, hstage⟩ | ⟨hfailure, hstage⟩
      · rw [hfailure]
        exact ⟨⟨pass :: rest, List.suffix_refl _, hstage⟩, .inr rfl⟩
      · rw [hfailure]
        obtain ⟨⟨later, hsuffix, hlater⟩, herror⟩ :=
          ih hstage (StateT.run (Run.stepIn env settings scene pass r) s).2
        exact ⟨⟨later, hsuffix.trans (List.suffix_cons pass rest), hlater⟩, herror⟩

/-- A property of the circuit at each stage of a run of which only the last pass can fail. -/
structure Ending (settings : Settings) (scene : Option Scene)
    (stage : List Pass → Circuit → Prop) : Prop where
  step : ∀ {pass rest} {w : Workspace}, stage (pass :: rest) w.circuit →
    isEnabled settings pass = true →
    stage rest (pass.run settings scene w).1.circuit ∧
      ((pass.run settings scene w).2 = none ∨ rest = [])
  skip : ∀ {pass rest g}, stage (pass :: rest) g → isEnabled settings pass = false → stage rest g

/-- Unless such a run is stopped on request, it ends at the last stage. -/
theorem Ending.stepsIn (h : Ending settings scene stage) (env : Surroundings (StateM σ))
    {passes : List Pass} {r : Run} (hr : stage passes r.workspace.circuit) {s : σ}
    (herror : ((stepsIn env settings scene passes r).run s).1.2 ≠ some .cancelled) :
    stage [] ((stepsIn env settings scene passes r).run s).1.1.workspace.circuit := by
  induction passes generalizing r s with
  | nil => exact hr
  | cons pass rest ih =>
      rw [run_stepsIn_cons] at herror ⊢
      obtain ⟨r', failure, s', heq, hcases⟩ := stepIn_cases env pass r s
      rw [heq] at herror ⊢
      dsimp only at herror ⊢
      rcases hcases with ⟨rfl, -⟩ | ⟨hskipped, rfl, hsame⟩ | ⟨henabled, w, hw, hrun, hfailure⟩
      · exact absurd rfl herror
      · exact ih (hsame ▸ h.skip hr hskipped) herror
      · obtain ⟨hnext, hok⟩ := h.step (hw ▸ hr) henabled
        rw [← hrun] at hnext
        cases failure with
        | none => exact ih hnext herror
        | some e =>
            have hlast : rest = [] := by
              refine hok.resolve_left fun hnone => ?_
              rw [hnone] at hfailure
              cases hfailure
            exact hlast ▸ hnext

/-- Passes in the place of others that do the same, each at its stage. -/
inductive Mirrors (settings : Settings) (scene : Option Scene)
    (stage : List Pass → Circuit → Prop) : List Pass → List Pass → Prop
  | nil : Mirrors settings scene stage [] []
  | cons {mirror pass : Pass} {mirrors rest : List Pass}
      (hlook : mirror = { pass with run := mirror.run })
      (hrun : ∀ w : Workspace, stage (pass :: rest) w.circuit →
        mirror.run settings scene w = pass.run settings scene w)
      (hrest : Mirrors settings scene stage mirrors rest) :
      Mirrors settings scene stage (mirror :: mirrors) (pass :: rest)

theorem stepIn_mirror (env : Surroundings (StateM σ)) {mirror pass : Pass} {r : Run}
    (hlook : mirror = { pass with run := mirror.run })
    (hrun : ∀ w : Workspace, w.circuit = r.workspace.circuit →
      mirror.run settings scene w = pass.run settings scene w) (s : σ) :
    (stepIn env settings scene mirror r).run s = (stepIn env settings scene pass r).run s := by
  have hperform (r' : Run) (hr' : r'.workspace.circuit = r.workspace.circuit) :
      perform settings scene mirror r' = perform settings scene pass r' := by
    have hname : mirror.name = pass.name := by rw [hlook]
    simp only [perform, hrun r'.workspace hr', hname]
  rw [run_stepIn, run_stepIn]
  dsimp only
  rw [hperform]
  · rw [hlook]
    rfl
  · exact circuit_heed r _

/-- A run of mirroring passes is the run of the passes themselves. -/
theorem Stages.stepsIn_mirror (h : Stages settings scene stage) (env : Surroundings (StateM σ))
    {mirrors passes : List Pass} (hmirrors : Mirrors settings scene stage mirrors passes) {r : Run}
    (hr : stage passes r.workspace.circuit) (s : σ) :
    (Run.stepsIn env settings scene mirrors r).run s =
      (Run.stepsIn env settings scene passes r).run s := by
  induction hmirrors generalizing r s with
  | nil => rfl
  | @cons mirror pass mirrors rest hlook hrun hrest ih =>
      rw [run_stepsIn_cons, run_stepsIn_cons, stepIn_mirror env hlook fun w hw => hrun w (hw ▸ hr)]
      dsimp only
      rcases h.stepIn env hr s with ⟨hfailure, -⟩ | ⟨hfailure, hstage⟩
      · rw [hfailure]
      · rw [hfailure]
        exact ih hstage _

/-! ## Finished runs -/

/-- The passes turn the circuit `g` into the circuit `g'`, and none of them fails. -/
inductive Finishes (settings : Settings) (scene : Option Scene) :
    List Pass → Circuit → Circuit → Prop
  | nil (g : Circuit) : Finishes settings scene [] g g
  | skip {pass : Pass} {rest : List Pass} {g g' : Circuit}
      (hskipped : isEnabled settings pass = false) (hrest : Finishes settings scene rest g g') :
      Finishes settings scene (pass :: rest) g g'
  | step {pass : Pass} {rest : List Pass} {w : Workspace} {g' : Circuit}
      (henabled : isEnabled settings pass = true) (hok : (pass.run settings scene w).2 = none)
      (hrest : Finishes settings scene rest (pass.run settings scene w).1.circuit g') :
      Finishes settings scene (pass :: rest) w.circuit g'

/-- A run that ends without an error has been through all of its passes. -/
theorem finishes_of_stepsIn (env : Surroundings (StateM σ)) {passes : List Pass} {r : Run} {s : σ}
    (h : ((Run.stepsIn env settings scene passes r).run s).1.2 = none) :
    Finishes settings scene passes r.workspace.circuit
      ((Run.stepsIn env settings scene passes r).run s).1.1.workspace.circuit := by
  induction passes generalizing r s with
  | nil => exact .nil _
  | cons pass rest ih =>
      rw [run_stepsIn_cons] at h ⊢
      obtain ⟨r', failure, s', heq, hcases⟩ := stepIn_cases env pass r s
      rw [heq] at h ⊢
      dsimp only at h ⊢
      rcases hcases with ⟨rfl, -⟩ | ⟨hskipped, rfl, hsame⟩ | ⟨henabled, w, hw, hrun, hfailure⟩
      · cases h
      · rw [← hsame]
        exact .skip hskipped (ih h)
      · cases failure with
        | some e => cases h
        | none =>
            rw [← hw]
            refine .step henabled (Option.map_eq_none_iff.mp hfailure.symm) ?_
            rw [← hrun]
            exact ih h

theorem finishes_of_allIn (env : Surroundings (StateM σ)) {passes : List Pass} {w : Workspace}
    {s : σ} (h : ((Run.allIn env settings scene passes w).run s).1.2 = none) :
    Finishes settings scene passes .empty
      ((Run.allIn env settings scene passes w).run s).1.1.workspace.circuit :=
  finishes_of_stepsIn env h

/-- The first pass of a finished run is passed over when its effect on the circuit is known. -/
theorem Finishes.after {pass : Pass} {rest : List Pass} {g g' : Circuit}
    (h : Finishes settings scene (pass :: rest) g g') (effect : Circuit → Circuit)
    (henabled : isEnabled settings pass = true)
    (heffect : ∀ w : Workspace, (pass.run settings scene w).2 = none →
      (pass.run settings scene w).1.circuit = effect w.circuit) :
    Finishes settings scene rest (effect g) g' := by
  cases h with
  | skip hskipped =>
      rw [henabled] at hskipped
      cases hskipped
  | step _ hok hrest =>
      rw [heffect _ hok] at hrest
      exact hrest

theorem Finishes.afterSkipped {pass : Pass} {rest : List Pass} {g g' : Circuit}
    (h : Finishes settings scene (pass :: rest) g g') (hskipped : isEnabled settings pass = false) :
    Finishes settings scene rest g g' := by
  cases h with
  | skip _ hrest => exact hrest
  | step henabled =>
      rw [hskipped] at henabled
      cases henabled

/-! ## Stopped runs -/

/-- The first of the passes turn the circuit `g` into the circuit `g'`.  The last one of them may
have failed. -/
inductive Reaches (settings : Settings) (scene : Option Scene) :
    List Pass → Circuit → Circuit → Prop
  | stop (passes : List Pass) (g : Circuit) : Reaches settings scene passes g g
  | skip {pass : Pass} {rest : List Pass} {g g' : Circuit}
      (hskipped : isEnabled settings pass = false) (hrest : Reaches settings scene rest g g') :
      Reaches settings scene (pass :: rest) g g'
  | step {pass : Pass} {rest : List Pass} {w : Workspace} {g' : Circuit}
      (henabled : isEnabled settings pass = true)
      (hrest : Reaches settings scene rest (pass.run settings scene w).1.circuit g') :
      Reaches settings scene (pass :: rest) w.circuit g'

/-- Wherever a run ends, its passes lead there. -/
theorem reaches_of_stepsIn (env : Surroundings (StateM σ)) (passes : List Pass) (r : Run) (s : σ) :
    Reaches settings scene passes r.workspace.circuit
      ((Run.stepsIn env settings scene passes r).run s).1.1.workspace.circuit := by
  induction passes generalizing r s with
  | nil => exact .stop [] _
  | cons pass rest ih =>
      rw [run_stepsIn_cons]
      obtain ⟨r', failure, s', heq, hcases⟩ := stepIn_cases env pass r s
      rw [heq]
      dsimp only
      have hrest : Reaches settings scene rest r'.workspace.circuit
          (match failure with
            | some e => ((r', some e), s')
            | none => (Run.stepsIn env settings scene rest r').run s').1.1.workspace.circuit := by
        cases failure with
        | none => exact ih r' s'
        | some e => exact .stop rest _
      rcases hcases with ⟨rfl, hsame⟩ | ⟨hskipped, rfl, hsame⟩ | ⟨henabled, w, hw, hrun, -⟩
      · rw [← hsame]
        exact .stop _ _
      · rw [← hsame]
        exact .skip hskipped hrest
      · rw [← hw]
        exact .step henabled (hrun ▸ hrest)

/-- What every one of the passes keeps is kept. -/
theorem Reaches.keeps {P : Circuit → Prop} {passes : List Pass} {g g' : Circuit}
    (h : Reaches settings scene passes g g')
    (hpass : ∀ pass ∈ passes, ∀ w : Workspace, P w.circuit →
      P (pass.run settings scene w).1.circuit) (hg : P g) : P g' := by
  induction h with
  | stop => exact hg
  | skip _ _ ih => exact ih (fun pass hmem => hpass pass (List.mem_cons_of_mem _ hmem)) hg
  | step _ _ ih =>
      exact ih (fun pass hmem => hpass pass (List.mem_cons_of_mem _ hmem))
        (hpass _ List.mem_cons_self _ hg)

/-! ## Runs that are not asked to stop -/

/-- A step that is not asked to stop skips its pass or performs it. -/
theorem run_stepIn_of_unasked (env : Surroundings (StateM σ)) (pass : Pass) {r : Run} {s : σ}
    (hcancelled : r.workspace.monitor.cancelled = false)
    (hasked : (env.stopRequested.run s).1 = false) :
    (stepIn env settings scene pass r).run s =
      (let asked := env.stopRequested.run s
      let shown := r.modifyMonitor (·.withStatus pass.status)
      if isEnabled settings pass then
        let begun := env.now.run asked.2
        let done := perform settings scene pass shown
        let ended := env.now.run begun.2
        (conclude pass begun.1 ended.1 done.2 done.1, ended.2)
      else
        (((shown.note .debug "skipping pass" pass []).modifyMonitor Monitor.advance, none),
          asked.2)) := by
  rw [run_stepIn]
  dsimp only
  rw [hasked]
  change (if r.workspace.monitor.cancelled = true then _ else _) = _
  rw [hcancelled, if_neg Bool.false_ne_true]
  rfl

/-- If the first pass is performed, the run goes on from its circuit. -/
theorem reaches_after_first (env : Surroundings (StateM σ)) (scene : Option Scene) {pass : Pass}
    (rest : List Pass) {r : Run} {s : σ} (hcancelled : r.workspace.monitor.cancelled = false)
    (hasked : (env.stopRequested.run s).1 = false) (henabled : isEnabled settings pass = true) :
    ∃ w : Workspace, w.circuit = r.workspace.circuit ∧
      Reaches settings scene rest (pass.run settings scene w).1.circuit
        ((Run.stepsIn env settings scene (pass :: rest) r).run s).1.1.workspace.circuit := by
  let shown := r.modifyMonitor (·.withStatus pass.status)
  refine ⟨shown.workspace, rfl, ?_⟩
  rw [run_stepsIn_cons, run_stepIn_of_unasked env pass hcancelled hasked]
  dsimp only
  rw [if_pos henabled]
  dsimp only
  obtain ⟨hcircuit, -⟩ := circuit_conclude settings scene pass
    (env.now.run (env.stopRequested.run s).2).1
    (env.now.run (env.now.run (env.stopRequested.run s).2).2).1 shown
  rw [← hcircuit]
  split
  · exact .stop rest _
  · exact reaches_of_stepsIn env rest _ _

theorem cancelled_conclude (settings : Settings) (scene : Option Scene) (pass : Pass)
    (start stop : Instant) (r : Run) :
    let done := perform settings scene pass r
    let out := conclude pass start stop done.2 done.1
    out.1.workspace.monitor.cancelled =
      (pass.run settings scene r.workspace).1.monitor.cancelled := by
  unfold conclude
  dsimp only
  split <;> rfl

/-- A run that nobody asks to stop is not cancelled, if its passes do not ask, either. -/
theorem ne_cancelled_of_unasked (env : Surroundings (StateM σ))
    (hasked : ∀ s, (env.stopRequested.run s).1 = false) {passes : List Pass}
    (hpasses : ∀ pass ∈ passes, isEnabled settings pass = true → ∀ w : Workspace,
      (pass.run settings scene w).1.monitor.cancelled = w.monitor.cancelled) {r : Run}
    (hcancelled : r.workspace.monitor.cancelled = false) (s : σ) :
    ((Run.stepsIn env settings scene passes r).run s).1.2 ≠ some .cancelled := by
  induction passes generalizing r s with
  | nil => exact nofun
  | cons pass rest ih =>
      have hrest {r : Run} (hr : r.workspace.monitor.cancelled = false) (s : σ) :=
        ih (fun next hnext => hpasses next (List.mem_cons_of_mem _ hnext)) hr s
      rw [run_stepsIn_cons, run_stepIn_of_unasked env pass hcancelled (hasked s)]
      dsimp only
      split
      case h_1 e hfailure =>
        -- a step that ends the run is one whose pass has failed
        split at hfailure
        case isTrue =>
          rw [(circuit_conclude settings scene pass _ _ _).2] at hfailure
          obtain ⟨cause, -, rfl⟩ := Option.map_eq_some_iff.mp hfailure
          exact nofun
        case isFalse => cases hfailure
      case h_2 =>
        refine hrest ?_ _
        split
        case isTrue henabled =>
          dsimp only
          rw [cancelled_conclude, hpasses pass List.mem_cons_self henabled]
          exact hcancelled
        case isFalse => exact hcancelled

end Redstone.Run
