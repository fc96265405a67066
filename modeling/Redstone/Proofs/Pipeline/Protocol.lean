import Redstone.Proofs.Pipeline.Run

/-!
# The protocol of a run

A run deals with its passes in their order.  It stops where a request to stop stands when it
reaches a pass, or where a pass fails, and otherwise it is done; until then it skips some passes
and gives each of the others its turn.  Everything that a run shows follows from these turns: the
circuit is what they make of the empty one, there is one timing sample for each of them, and the
progress is the place that has been reached.
-/

namespace Redstone

/-- The pass leaves the monitor as it is, except that it may ask the run to stop. -/
def Pass.Discreet (pass : Pass) : Prop :=
  ∀ settings scene w, (pass.run settings scene w).1.monitor = w.monitor ∨
    (pass.run settings scene w).1.monitor = w.monitor.cancel

/-- Records have been added to a log, and nothing else. -/
structure Log.Grows (log log' : Log) : Prop where
  verbose_eq : log'.verbose = log.verbose
  records_prefix : log.records <+: log'.records

theorem Log.Grows.refl (log : Log) : log.Grows log :=
  ⟨rfl, List.prefix_rfl⟩

theorem Log.Grows.trans {log₁ log₂ log₃ : Log} (h : log₁.Grows log₂) (h' : log₂.Grows log₃) :
    log₁.Grows log₃ :=
  ⟨h'.verbose_eq.trans h.verbose_eq, h.records_prefix.trans h'.records_prefix⟩

theorem Log.grows_add (log : Log) (level : LogLevel) (message : String)
    (fields : List (String × String)) : log.Grows (log.add level message fields) := by
  unfold Log.add
  split
  · exact .refl log
  · exact ⟨rfl, List.prefix_append ..⟩

/-- Two workspaces with the same content: only the monitor may differ, and records may have been added
to the log.  The run adds some of its own between two turns; the passes of a compilation write to the
log but do not read it. -/
structure Workspace.SameContent (w w' : Workspace) : Prop where
  circuit_eq : w'.circuit = w.circuit
  sink_eq : w'.sink = w.sink
  files_eq : w'.files = w.files
  log_grows : w.log.Grows w'.log

theorem Workspace.SameContent.trans {w₁ w₂ w₃ : Workspace} (h : w₁.SameContent w₂)
    (h' : w₂.SameContent w₃) : w₁.SameContent w₃ :=
  ⟨h'.circuit_eq.trans h.circuit_eq, h'.sink_eq.trans h.sink_eq, h'.files_eq.trans h.files_eq,
    h.log_grows.trans h'.log_grows⟩

namespace Run

variable {σ : Type}

/-- Everything that a run depends on. -/
structure Job (σ : Type) where
  env : Surroundings (StateM σ)
  settings : Settings
  scene : Option Scene
  passes : List Pass
  workspace : Workspace
  state : σ

/-- The turn of a pass: its place among all passes, the workspace that it finds, and the times at
which it begins and ends. -/
structure Turn where
  place : Nat
  pass : Pass
  found : Workspace
  began : Instant
  ended : Instant

namespace Job

/-- What the run comes to, and how it ends. -/
def outcome (job : Job σ) : Run × Option RunError :=
  ((allIn job.env job.settings job.scene job.passes job.workspace).run job.state).1

/-! ## The surroundings of a run -/

/-- The surroundings after a pass: the run has looked for a request to stop, and at the clock
before and after the pass if it has performed it. -/
def passed (job : Job σ) (s : σ) (pass : Pass) : σ :=
  let heard := (job.env.stopRequested.run s).2
  if isEnabled job.settings pass then (job.env.now.run (job.env.now.run heard).2).2 else heard

/-- The surroundings when the run reaches a place. -/
def reaching (job : Job σ) (place : Nat) : σ :=
  (job.passes.take place).foldl job.passed job.state

/-- Someone asks the run to stop when it reaches a place. -/
def asked (job : Job σ) (place : Nat) : Bool :=
  (job.env.stopRequested.run (job.reaching place)).1

/-! ## The turns of passes -/

/-- The workspace that a pass leaves behind. -/
def left (job : Job σ) (t : Turn) : Workspace :=
  (t.pass.run job.settings job.scene t.found).1

/-- Why a pass fails, if it does. -/
def failure (job : Job σ) (t : Turn) : Option PassError :=
  (t.pass.run job.settings job.scene t.found).2

/-- The sample of a turn: the size of the circuit is that right after it. -/
def sample (job : Job σ) (t : Turn) : Sample where
  label := t.pass.name
  start := t.began
  stop := t.ended
  nodes := (job.left t).circuit.nodeCount
  links := (job.left t).circuit.linkCount

/-- The turns lead from one workspace to another one: each finds what the one before has left. -/
def Leads (job : Job σ) : List Turn → Workspace → Workspace → Prop
  | [], w, w' => w.SameContent w'
  | t :: rest, w, w' => w.SameContent t.found ∧ job.Leads rest (job.left t) w'

/-- A request to stop stands after some turns and some looks at the surroundings: it stood before
the run, or someone has asked, or a pass has. -/
def StopStands (job : Job σ) (turns : List Turn) (looks : Nat) : Prop :=
  job.workspace.monitor.cancelled = true ∨ (∃ place < looks, job.asked place = true) ∨
    ∃ t ∈ turns, (job.left t).monitor.cancelled = true

/-- A request to stop stands when the run reaches a place. -/
def StopStandsAt (job : Job σ) (turns : List Turn) (place : Nat) : Prop :=
  job.StopStands (turns.filter (·.place < place)) (place + 1)

/-- A turn as the run gives it: the pass is enabled, it finds its own progress and status on the
monitor and no request to stop, and the times are those of the clock. -/
structure Given (job : Job σ) (t : Turn) : Prop where
  pass_eq : job.passes[t.place]? = some t.pass
  enabled : isEnabled job.settings t.pass = true
  monitor_eq : t.found.monitor =
    { completed := t.place, total := job.passes.length, status := t.pass.status }
  began_eq : t.began =
    (job.env.now.run (job.env.stopRequested.run (job.reaching t.place)).2).1
  ended_eq : t.ended = (job.env.now.run
    (job.env.now.run (job.env.stopRequested.run (job.reaching t.place)).2).2).1

/-- The course of a run up to a place: exactly the enabled ones of the passes before it have had
their turns, none has failed, and no request to stop has stood at any place before. -/
structure Course (job : Job σ) (place : Nat) (turns : List Turn) : Prop where
  places_eq : turns.map (fun t => (t.pass, t.place)) =
    (job.passes.take place).zipIdx.filter fun (pass, _) => isEnabled job.settings pass
  given : ∀ t ∈ turns, job.Given t
  succeeded : ∀ t ∈ turns, job.failure t = none
  unstopped : ∀ earlier < place, ¬job.StopStandsAt turns earlier

/-- What turns leave behind when the run has reached a place. -/
structure Leaves (job : Job σ) (turns : List Turn) (place looks : Nat) (r : Run) : Prop where
  leads : job.Leads turns { job.workspace with circuit := .empty } r.workspace
  samples_eq : r.samples = turns.map job.sample
  completed_eq : r.workspace.monitor.completed = place
  total_eq : r.workspace.monitor.total = job.passes.length
  cancelled_iff : r.workspace.monitor.cancelled = true ↔ job.StopStands turns looks

/-- The three ways in which a run ends. -/
inductive Ends (job : Job σ) : Run × Option RunError → Prop
  | cancelled {place : Nat} {turns : List Turn} {r : Run} (hcourse : job.Course place turns)
      (hplace : place < job.passes.length) (hstop : job.StopStandsAt turns place)
      (hleaves : job.Leaves turns place (place + 1) r) : Ends job (r, some .cancelled)
  | failed {turns : List Turn} {t : Turn} {cause : PassError} {r : Run}
      (hcourse : job.Course t.place turns) (hunstopped : ¬job.StopStandsAt turns t.place)
      (hgiven : job.Given t) (hfailure : job.failure t = some cause)
      (hleaves : job.Leaves (turns ++ [t]) t.place (t.place + 1) r) :
      Ends job (r, some (.failed t.pass.name cause))
  | done {turns : List Turn} {r : Run} (hcourse : job.Course job.passes.length turns)
      (hleaves : job.Leaves turns job.passes.length job.passes.length r)
      (hstatus : r.workspace.monitor.status = "Done") : Ends job (r, none)

/-! ## One step -/

variable {job : Job σ} {turns : List Turn} {place : Nat} {r : Run} {s : σ} {pass : Pass}

theorem leads_append {t : Turn} {w w' w'' : Workspace} (h : job.Leads turns w w')
    (hfound : w'.SameContent t.found) (hleft : (job.left t).SameContent w'') :
    job.Leads (turns ++ [t]) w w'' := by
  induction turns generalizing w with
  | nil => exact ⟨h.trans hfound, hleft⟩
  | cons first rest ih => exact ⟨h.1, ih h.2⟩

theorem Leads.sameContent {w w' w'' : Workspace} (h : job.Leads turns w w')
    (hsame : w'.SameContent w'') : job.Leads turns w w'' := by
  induction turns generalizing w with
  | nil => exact Workspace.SameContent.trans h hsame
  | cons first rest ih => exact ⟨h.1, ih h.2⟩

theorem reaching_succ (hpass : job.passes[place]? = some pass) :
    job.reaching (place + 1) = job.passed (job.reaching place) pass := by
  rw [reaching, List.take_add_one, hpass, List.foldl_append]
  rfl

theorem stopStands_append {looks : Nat} {t : Turn} :
    job.StopStands (turns ++ [t]) looks ↔
      job.StopStands turns looks ∨ (job.left t).monitor.cancelled = true := by
  simp only [StopStands, List.mem_append, List.mem_singleton, or_and_right, exists_or,
    exists_eq_left, or_assoc]

theorem stopStands_succ {looks : Nat} :
    job.StopStands turns (looks + 1) ↔ job.StopStands turns looks ∨ job.asked looks = true := by
  simp only [StopStands, Nat.lt_succ_iff_lt_or_eq, or_and_right, exists_or, exists_eq_left]
  exact ⟨by grind, by grind⟩

/-- A turn makes no difference to the places up to its own. -/
theorem stopStandsAt_append {t : Turn} (hplace : place ≤ t.place) :
    job.StopStandsAt (turns ++ [t]) place ↔ job.StopStandsAt turns place := by
  have hlater : ¬t.place < place := Nat.not_lt.mpr hplace
  simp [StopStandsAt, List.filter_append, hlater]

/-- A record about a pass is the only thing that is added. -/
theorem sameContent_note (r : Run) (level : LogLevel) (message : String) (pass : Pass)
    (fields : List (String × String)) :
    r.workspace.SameContent (r.note level message pass fields).workspace :=
  ⟨rfl, rfl, rfl, Log.grows_add _ level message _⟩

theorem sameContent_modifyMonitor (r : Run) (f : Monitor → Monitor) :
    r.workspace.SameContent (r.modifyMonitor f).workspace :=
  ⟨rfl, rfl, rfl, .refl _⟩

/-- A turn that does not fail ends with its sample in the log. -/
theorem sameContent_conclude (pass : Pass) (start stop : Instant) (r : Run) :
    r.workspace.SameContent (conclude pass start stop none r).1.workspace :=
  ⟨rfl, rfl, rfl, Log.grows_add _ .debug pass.status _⟩

theorem samples_heed (r : Run) (stop : Bool) : (r.heed stop).samples = r.samples := by
  cases stop <;> rfl

namespace Course

theorem place_lt (h : job.Course place turns) {t : Turn} (ht : t ∈ turns) : t.place < place := by
  have hmem : (t.pass, t.place) ∈ turns.map fun t => (t.pass, t.place) :=
    List.mem_map_of_mem ht
  rw [h.places_eq, List.mem_filter, List.mem_zipIdx_iff_getElem?] at hmem
  exact Nat.lt_of_lt_of_le (List.getElem?_eq_some_iff.mp hmem.1).1 (List.length_take_le _ _)

theorem stopStandsAt_iff (h : job.Course place turns) :
    job.StopStandsAt turns place ↔ job.StopStands turns (place + 1) := by
  have hall : turns.filter (·.place < place) = turns :=
    List.filter_eq_self.mpr fun t ht => decide_eq_true (h.place_lt ht)
  rw [StopStandsAt, hall]

theorem zipIdx_take_succ (hpass : job.passes[place]? = some pass) :
    (job.passes.take (place + 1)).zipIdx = (job.passes.take place).zipIdx ++ [(pass, place)] := by
  have hlength : (job.passes.take place).length = place :=
    List.length_take_of_le (Nat.le_of_lt (List.getElem?_eq_some_iff.mp hpass).1)
  rw [List.take_add_one, hpass, List.zipIdx_append, hlength, Nat.zero_add]
  rfl

theorem start : job.Course 0 [] where
  places_eq := rfl
  given := nofun
  succeeded := nofun
  unstopped := nofun

/-- The course goes on behind a pass that is skipped. -/
theorem skip (h : job.Course place turns) (hpass : job.passes[place]? = some pass)
    (hskipped : isEnabled job.settings pass = false) (hstop : ¬job.StopStandsAt turns place) :
    job.Course (place + 1) turns where
  places_eq := by
    rw [zipIdx_take_succ hpass, List.filter_append, ← h.places_eq]
    simp [hskipped]
  given := h.given
  succeeded := h.succeeded
  unstopped := by
    intro earlier hearlier
    rcases Nat.lt_succ_iff_lt_or_eq.mp hearlier with hlt | rfl
    · exact h.unstopped earlier hlt
    · exact hstop

/-- The course goes on behind a pass that has had its turn and has not failed. -/
theorem append {t : Turn} (h : job.Course t.place turns) (hgiven : job.Given t)
    (hfailure : job.failure t = none) (hstop : ¬job.StopStandsAt turns t.place) :
    job.Course (t.place + 1) (turns ++ [t]) where
  places_eq := by
    rw [zipIdx_take_succ hgiven.pass_eq, List.filter_append, ← h.places_eq, List.map_append]
    simp [hgiven.enabled]
  given := by
    intro u hu
    rcases List.mem_append.mp hu with hu | hu
    · exact h.given u hu
    · exact List.mem_singleton.mp hu ▸ hgiven
  succeeded := by
    intro u hu
    rcases List.mem_append.mp hu with hu | hu
    · exact h.succeeded u hu
    · exact List.mem_singleton.mp hu ▸ hfailure
  unstopped := by
    intro earlier hearlier
    rw [stopStandsAt_append (Nat.le_of_lt_succ hearlier)]
    rcases Nat.lt_succ_iff_lt_or_eq.mp hearlier with hlt | rfl
    · exact h.unstopped earlier hlt
    · exact hstop

end Course

/-- A run that is still under way: it has reached a place, and nothing has ended it. -/
structure Underway (job : Job σ) (place : Nat) (turns : List Turn) (r : Run) (s : σ) : Prop where
  course : job.Course place turns
  leaves : job.Leaves turns place place r
  state_eq : s = job.reaching place

theorem underway_start :
    job.Underway 0 [] (Run.start job.workspace job.passes.length) job.state where
  course := .start
  leaves :=
    { leads := ⟨rfl, rfl, rfl, .refl _⟩
      samples_eq := rfl
      completed_eq := rfl
      total_eq := rfl
      cancelled_iff := by
        simp [StopStands, Run.start, Monitor.start] }
  state_eq := rfl

namespace Underway

/-- The workspace once the run has heeded what it has heard. -/
theorem cancelled_heed (h : job.Underway place turns r s) :
    (r.heed (job.env.stopRequested.run s).1).workspace.monitor.cancelled = true ↔
      job.StopStands turns (place + 1) := by
  rw [stopStands_succ, ← h.leaves.cancelled_iff, asked, ← h.state_eq]
  cases (job.env.stopRequested.run s).1 <;> simp [heed, modifyMonitor, Monitor.cancel]

theorem leaves_heed (h : job.Underway place turns r s) :
    job.Leaves turns place (place + 1) (r.heed (job.env.stopRequested.run s).1) where
  leads := by
    refine h.leaves.leads.sameContent ?_
    cases (job.env.stopRequested.run s).1 <;> exact ⟨rfl, rfl, rfl, .refl _⟩
  samples_eq := by
    rw [← h.leaves.samples_eq]
    cases (job.env.stopRequested.run s).1 <;> rfl
  completed_eq := by
    rw [← h.leaves.completed_eq]
    cases (job.env.stopRequested.run s).1 <;> rfl
  total_eq := by
    rw [← h.leaves.total_eq]
    cases (job.env.stopRequested.run s).1 <;> rfl
  cancelled_iff := h.cancelled_heed

/-- The turn that a pass gets when the run has reached it. -/
def turn (job : Job σ) (place : Nat) (pass : Pass) (r : Run) (s : σ) : Turn where
  place
  pass
  found := ((r.heed (job.env.stopRequested.run s).1).modifyMonitor
    (·.withStatus pass.status)).workspace
  began := (job.env.now.run (job.env.stopRequested.run s).2).1
  ended := (job.env.now.run (job.env.now.run (job.env.stopRequested.run s).2).2).1

theorem given_turn (h : job.Underway place turns r s) (hpass : job.passes[place]? = some pass)
    (henabled : isEnabled job.settings pass = true) (hstop : ¬job.StopStands turns (place + 1)) :
    job.Given (turn job place pass r s) where
  pass_eq := hpass
  enabled := henabled
  monitor_eq := by
    have hheed := h.leaves_heed
    rw [← h.cancelled_heed, Bool.not_eq_true] at hstop
    change ((r.heed (job.env.stopRequested.run s).1).workspace.monitor.withStatus pass.status) = _
    rw [Monitor.withStatus, hheed.completed_eq, hheed.total_eq, hstop]
    rfl
  began_eq := by
    rw [turn, h.state_eq]
  ended_eq := by
    rw [turn, h.state_eq]

/-- A discreet pass leaves the progress as it has found it. -/
theorem progress_left {t : Turn} (hdiscreet : t.pass.Discreet) (hgiven : job.Given t) :
    (job.left t).monitor.completed = t.place ∧
      (job.left t).monitor.total = job.passes.length := by
  have hmonitor := hgiven.monitor_eq
  rcases hdiscreet job.settings job.scene t.found with heq | heq <;>
    rw [left, heq, hmonitor] <;> exact ⟨rfl, rfl⟩

/-- What is left behind when a pass has had its turn.  The run may add to the log and count the
pass. -/
theorem leaves_append (h : job.Underway place turns r s) {t : Turn}
    (ht : t = turn job place pass r s) (hdiscreet : pass.Discreet) (hgiven : job.Given t)
    (hstop : ¬job.StopStands turns (place + 1)) {r' : Run} (count : Nat)
    (hcontent : (job.left t).SameContent r'.workspace)
    (hsamples : r'.samples = r.samples ++ [job.sample t])
    (hmonitor : r'.workspace.monitor =
      { (job.left t).monitor with completed := (job.left t).monitor.completed + count }) :
    job.Leaves (turns ++ [t]) (place + count) (place + 1) r' where
  leads := by
    refine leads_append (h.leaves_heed.leads.sameContent ?_) ⟨rfl, rfl, rfl, .refl _⟩ hcontent
    rw [ht]
    exact ⟨rfl, rfl, rfl, .refl _⟩
  samples_eq := by
    rw [hsamples, h.leaves.samples_eq, List.map_append]
    rfl
  completed_eq := by
    subst ht
    rw [hmonitor, (progress_left hdiscreet hgiven).1]
    rfl
  total_eq := by
    subst ht
    rw [hmonitor, (progress_left hdiscreet hgiven).2]
  cancelled_iff := by
    rw [hmonitor, stopStands_append, or_iff_right hstop]

/-- A step ends the run, or leads on to the next place. -/
theorem step (h : job.Underway place turns r s) (hpass : job.passes[place]? = some pass)
    (hdiscreet : pass.Discreet) :
    let out := (stepIn job.env job.settings job.scene pass r).run s
    (∃ e, out.1.2 = some e ∧ job.Ends out.1) ∨
      out.1.2 = none ∧ ∃ turns', job.Underway (place + 1) turns' out.1.1 out.2 := by
  have hplace : place < job.passes.length := (List.getElem?_eq_some_iff.mp hpass).1
  have hstate (hskipped : isEnabled job.settings pass = false) :
      (job.env.stopRequested.run s).2 = job.reaching (place + 1) := by
    rw [reaching_succ hpass, ← h.state_eq, passed, hskipped]
    rfl
  rw [run_stepIn]
  dsimp only
  split
  case isTrue hcancelled =>
    refine .inl ⟨_, rfl, .cancelled h.course hplace ?_ ?_⟩
    · exact h.course.stopStandsAt_iff.mpr (h.cancelled_heed.mp hcancelled)
    · exact { h.leaves_heed with leads := h.leaves_heed.leads.sameContent (sameContent_note ..) }
  case isFalse hcancelled =>
    rw [h.cancelled_heed] at hcancelled
    have hunstopped : ¬job.StopStandsAt turns place :=
      fun hstop => hcancelled (h.course.stopStandsAt_iff.mp hstop)
    split
    case isFalse hskipped =>
      rw [Bool.not_eq_true] at hskipped
      refine .inr ⟨rfl, turns, h.course.skip hpass hskipped hunstopped, ?_, hstate hskipped⟩
      have hheed := h.leaves_heed
      refine ⟨hheed.leads.sameContent ?_, hheed.samples_eq,
        congrArg (· + 1) hheed.completed_eq, hheed.total_eq, hheed.cancelled_iff⟩
      exact (sameContent_modifyMonitor _ _).trans
        ((sameContent_note _ .debug "skipping pass" pass []).trans (sameContent_modifyMonitor _ _))
    case isTrue henabled =>
      let t := turn job place pass r s
      have hgiven : job.Given t := h.given_turn hpass henabled hcancelled
      let performed := perform job.settings job.scene pass ((r.heed
          (job.env.stopRequested.run s).1).modifyMonitor (·.withStatus pass.status))
      have hdone : performed.2 = job.failure t := rfl
      rw [hdone]
      cases hfailure : job.failure t with
      | some cause =>
          refine .inl ⟨_, rfl, .failed (t := t) h.course hunstopped hgiven hfailure ?_⟩
          exact h.leaves_append rfl hdiscreet hgiven hcancelled 0 ⟨rfl, rfl, rfl, .refl _⟩
            (congrArg (· ++ [job.sample t]) (samples_heed r _)) rfl
      | none =>
          refine .inr ⟨rfl, turns ++ [t], h.course.append hgiven hfailure hunstopped, ?_, ?_⟩
          · exact h.leaves_append rfl hdiscreet hgiven hcancelled 1
              (sameContent_conclude pass _ _ performed.1)
              (congrArg (· ++ [job.sample t]) (samples_heed r _)) rfl
          · rw [reaching_succ hpass, ← h.state_eq, passed, henabled]
            rfl

end Underway

/-- A run that is under way ends in one of the three ways. -/
theorem Underway.ends (h : job.Underway place turns r s) (hplace : place ≤ job.passes.length)
    {rest : List Pass} (hrest : job.passes.drop place = rest)
    (hdiscreet : ∀ pass ∈ job.passes, pass.Discreet) :
    job.Ends ((stepsIn job.env job.settings job.scene rest r).run s).1 := by
  induction rest generalizing place turns r s with
  | nil =>
      have heq : place = job.passes.length :=
        Nat.le_antisymm hplace (List.drop_eq_nil_iff.mp hrest)
      subst heq
      have hleaves := h.leaves
      refine .done h.course ?_ rfl
      exact ⟨hleaves.leads.sameContent ⟨rfl, rfl, rfl, .refl _⟩, hleaves.samples_eq,
        hleaves.completed_eq, hleaves.total_eq, hleaves.cancelled_iff⟩
  | cons pass rest ih =>
      have hpass : job.passes[place]? = some pass := by
        rw [← List.head?_drop, hrest]
        rfl
      have hnext : job.passes.drop (place + 1) = rest := by
        rw [← List.tail_drop, hrest]
        rfl
      have hstep := h.step hpass (hdiscreet pass (List.mem_of_getElem? hpass))
      rw [run_stepsIn_cons]
      generalize (stepIn job.env job.settings job.scene pass r).run s = out at hstep ⊢
      obtain ⟨⟨r', failure⟩, s'⟩ := out
      rcases hstep with ⟨e, rfl, hends⟩ | ⟨rfl, turns', hunderway⟩
      · exact hends
      · exact ih hunderway (List.getElem?_eq_some_iff.mp hpass).1 hnext

/-! ## The protocol -/

theorem ends_outcome (hdiscreet : ∀ pass ∈ job.passes, pass.Discreet) : job.Ends job.outcome :=
  underway_start.ends (Nat.zero_le _) List.drop_zero hdiscreet

/-- What a failed run says names the pass that has failed. -/
theorem Ends.message_eq {out : Run × Option RunError} (h : job.Ends out) {e : RunError}
    (he : out.2 = some e) : e.message = "compilation cancelled" ∨
      ∃ t cause, job.Given t ∧ job.failure t = some cause ∧
        e.message = t.pass.name ++ ": " ++ cause.message := by
  cases h with
  | cancelled =>
      cases he
      exact .inl rfl
  | failed _ _ hgiven hfailure =>
      cases he
      exact .inr ⟨_, _, hgiven, hfailure, rfl⟩
  | done => cases he

/-- A request to stop that stands before a run ends it before its first pass. -/
theorem Ends.of_cancelled {out : Run × Option RunError} (h : job.Ends out)
    (hcancelled : job.workspace.monitor.cancelled = true) (hpasses : job.passes ≠ []) :
    out.2 = some .cancelled ∧ out.1.workspace.circuit = .empty ∧ out.1.samples = [] ∧
      out.1.workspace.monitor.completed = 0 ∧ out.1.workspace.monitor.cancelled = true := by
  have hstop (turns : List Turn) : job.StopStandsAt turns 0 := .inl hcancelled
  cases h with
  | @cancelled place turns r hcourse _ _ hleaves =>
      cases place with
      | succ place => exact absurd (hstop turns) (hcourse.unstopped 0 (Nat.succ_pos place))
      | zero =>
          have hnone : turns = [] :=
            List.eq_nil_iff_forall_not_mem.mpr fun t ht => Nat.not_lt_zero _ (hcourse.place_lt ht)
          subst hnone
          exact ⟨rfl, hleaves.leads.circuit_eq, hleaves.samples_eq, hleaves.completed_eq,
            hleaves.cancelled_iff.mpr (.inl hcancelled)⟩
  | @failed turns t cause r hcourse hunstopped =>
      cases hplace : t.place with
      | zero =>
          rw [hplace] at hunstopped
          exact absurd (hstop turns) hunstopped
      | succ place =>
          exact absurd (hstop turns) (hcourse.unstopped 0 (hplace ▸ Nat.succ_pos place))
  | @done turns r hcourse =>
      exact absurd (hstop turns) (hcourse.unstopped 0 (List.length_pos_iff.mpr hpasses))

end Job

/-- Every run of discreet passes ends in one of the three ways: on request, by the failure of a
pass, or done.  What it says when it has not been done names the reason.  A later run of the same
passes with the monitor that is left starts afresh, but for the request to stop: this stays, and
ends the run before its first pass. -/
theorem run_follows_protocol (job : Job σ) (hdiscreet : ∀ pass ∈ job.passes, pass.Discreet) :
    job.Ends job.outcome ∧
    (∀ e, job.outcome.2 = some e → e.message = "compilation cancelled" ∨
      ∃ t cause, job.Given t ∧ job.failure t = some cause ∧
        e.message = t.pass.name ++ ": " ++ cause.message) ∧
    ∀ {τ : Type} (later : Job τ), later.passes = job.passes →
      later.workspace.monitor = job.outcome.1.workspace.monitor →
      let fresh := Run.start later.workspace later.passes.length
      (fresh.workspace.circuit = .empty ∧ fresh.samples = [] ∧
        fresh.workspace.monitor.completed = 0 ∧
        fresh.workspace.monitor.cancelled = job.outcome.1.workspace.monitor.cancelled) ∧
      later.Ends later.outcome ∧
      (job.outcome.1.workspace.monitor.cancelled = true → later.passes ≠ [] →
        later.outcome.2 = some .cancelled ∧ later.outcome.1.workspace.circuit = .empty ∧
          later.outcome.1.samples = [] ∧ later.outcome.1.workspace.monitor.completed = 0 ∧
          later.outcome.1.workspace.monitor.cancelled = true) := by
  have hends := job.ends_outcome hdiscreet
  refine ⟨hends, fun e he => hends.message_eq he, ?_⟩
  intro τ later hpasses hmonitor
  have hlater : later.Ends later.outcome := later.ends_outcome (hpasses ▸ hdiscreet)
  have hkept : later.workspace.monitor.cancelled = job.outcome.1.workspace.monitor.cancelled :=
    congrArg Monitor.cancelled hmonitor
  refine ⟨⟨rfl, rfl, rfl, hkept⟩, hlater, fun hcancelled hsome => ?_⟩
  exact hlater.of_cancelled (hkept.trans hcancelled) hsome

/-- A pass that adds a lamp, and may ask the run to stop. -/
def lampPass (name : String) (applies : Settings → Bool) (asks : Bool) : Pass where
  name
  status := "Running " ++ name
  applies
  run := fun _ _ w =>
    ({ w with
        circuit := w.circuit.addNode { gate := .plain .lamp }
        monitor := if asks then w.monitor.cancel else w.monitor }, none)

theorem discreet_lampPass (name : String) (applies : Settings → Bool) (asks : Bool) :
    (lampPass name applies asks).Discreet := by
  intro settings scene w
  cases asks with
  | false => exact .inl rfl
  | true => exact .inr rfl

/-- A run whose third pass asks it to stop before the fourth. -/
def hurriedJob : Job Unit where
  env := .quiet (pure 0)
  settings := {}
  scene := none
  passes :=
    [ lampPass "first" (fun _ => true) false, lampPass "idle" Settings.optimize false
    , lampPass "third" (fun _ => true) true, lampPass "late" (fun _ => true) false ]
  workspace := { log := { verbose := false } }
  state := ()

/-- The run stops with two lamps and three passes behind it, and when it is run again it stops at
once with an empty circuit. -/
theorem run_follows_protocol_hurriedJob :
    let out := hurriedJob.outcome
    let rerun : Job Unit := { hurriedJob with workspace := out.1.workspace }
    (∀ pass ∈ hurriedJob.passes, pass.Discreet) ∧ hurriedJob.Ends out ∧
      out.2 = some .cancelled ∧ out.1.workspace.monitor.completed = 3 ∧
      out.1.workspace.circuit.nodeCount = 2 ∧
      out.1.samples.map (fun x => (x.label, x.nodes)) = [("first", 1), ("third", 2)] ∧
      rerun.outcome.2 = some .cancelled ∧ rerun.outcome.1.workspace.circuit = .empty ∧
      rerun.outcome.1.samples = [] := by
  have hdiscreet : ∀ pass ∈ hurriedJob.passes, pass.Discreet := by
    intro pass hpass
    simp only [hurriedJob, List.mem_cons, List.not_mem_nil, or_false] at hpass
    rcases hpass with rfl | rfl | rfl | rfl <;> exact discreet_lampPass _ _ _
  obtain ⟨hends, -, hlater⟩ := run_follows_protocol hurriedJob hdiscreet
  obtain ⟨-, -, hagain⟩ := hlater
    { hurriedJob with workspace := hurriedJob.outcome.1.workspace } rfl rfl
  obtain ⟨herror, hempty, hsamples, -⟩ := hagain (by decide) nofun
  exact ⟨hdiscreet, hends, by decide, by decide, by decide, by decide, herror, hempty, hsamples⟩

end Run

end Redstone
