import Mathlib.Data.List.FinRange
import Redstone.Proofs.Optimize.AnalogBuses

/-!
# The idiom of an analog bus

The search for a bus walks over the outputs of a comparator and gives up at the first that does not
fit.  What it finds is described here as a picture instead: fifteen branches, one for each level,
that lead over repeaters from one comparator to another.  A bus is collapsed where the picture is
found and nowhere else, all that goes is in the picture, and what comes in its place brings the same
power to everyone.
-/

namespace Redstone.Optimize

open Circuit

variable {g g' : Circuit} {source target : NodeId} {channel : Channel}

/-- One branch of a bus: a link that enters a repeater and a link that leaves it. -/
structure BusBranch where
  enter : LinkId
  repeater : NodeId
  leave : LinkId

/-- The link that enters the branch of level `k`.  It loses `k`. -/
def BusBranch.enterLink (b : BusBranch) (source : NodeId) (k : Fin 15) : Link :=
  { source, target := b.repeater, channel := .main, loss := UInt8.ofNat k }

/-- The link that leaves the branch of level `k`.  It loses the rest up to fourteen. -/
def BusBranch.leaveLink (b : BusBranch) (target : NodeId) (channel : Channel) (k : Fin 15) : Link :=
  { source := b.repeater, target, channel, loss := UInt8.ofNat (14 - k) }

/-- The fifteen branches make up a bus from a node to an input of another one, a comparator.  They
are all the outputs of the source; each goes over a repeater of delay one that has no other links
and no role. -/
structure BusIdiom (g : Circuit) (source target : NodeId) (channel : Channel)
    (branch : Fin 15 → BusBranch) : Prop where
  -- the levels may come in any order
  outputs : (g.outputs source).Perm (List.ofFn fun k => (branch k).enter)
  enters : ∀ k, g.link? (branch k).enter = some ((branch k).enterLink source k)
  leaves : ∀ k, g.link? (branch k).leave = some ((branch k).leaveLink target channel k)
  -- nothing else hangs on a repeater, and nobody outside looks at it
  repeater : ∀ k, ∃ n, g.node? (branch k).repeater = some n ∧ n.gate = .repeater 1 false ∧
    n.isRemovable = true
  inputs_repeater : ∀ k, g.inputs (branch k).repeater = [(branch k).enter]
  outputs_repeater : ∀ k, g.outputs (branch k).repeater = [(branch k).leave]
  distinct : Function.Injective fun k => (branch k).repeater
  target_ne : target ≠ source
  target_node : ∃ n, g.node? target = some n ∧ n.gate.isComparator = true

/-- Branches of different levels lose different strengths. -/
theorem injective_loss : Function.Injective fun k : Fin 15 => UInt8.ofNat k := by
  have hall : ∀ k j : Fin 15, UInt8.ofNat k = UInt8.ofNat j → k = j := by decide
  intro k j hkj
  exact hall k j hkj

/-! ## The search finds nothing but buses -/

/-- The level of a line tells its two losses. -/
theorem losses_of_isTuned {line : BusLine} (h : line.isTuned = true) {k : Fin 15}
    (hk : line.inLoss.toNat = k) :
    line.inLoss = UInt8.ofNat k ∧ line.outLoss = UInt8.ofNat (14 - k) := by
  have hwidth : busWidth = 15 := rfl
  simp only [BusLine.isTuned, beq_iff_eq] at h
  rw [← UInt8.toNat_inj, ← UInt8.toNat_inj, UInt8.toNat_ofNat', UInt8.toNat_ofNat']
  omega

/-- Where the search finds lines, there is a branch for every level. -/
theorem exists_branch (h : g.WellFormed) {lines : List BusLine} {first : BusLine}
    (hfound : (g.outputs source).mapM (busLine? g) = some lines)
    (hlength : lines.length = busWidth)
    (hall : ∀ line ∈ lines, line.isTuned = true ∧ line.target = first.target ∧
      line.channel = first.channel)
    (hnodup : (lines.map BusLine.inLoss).Nodup) (k : Fin 15) :
    ∃ b : BusBranch, b.enter ∈ g.outputs source ∧
      g.link? b.enter = some (b.enterLink source k) ∧
      g.link? b.leave = some (b.leaveLink first.target first.channel k) ∧
      (∃ n, g.node? b.repeater = some n ∧ n.gate = .repeater 1 false ∧ n.isRemovable = true) ∧
      g.inputs b.repeater = [b.enter] ∧ g.outputs b.repeater = [b.leave] := by
  obtain ⟨line, hline, hlevel⟩ := exists_inLoss_eq (fun line hline => (hall line hline).1) hlength
    hnodup (a := k) k.isLt
  obtain ⟨htuned, htarget, hchannel⟩ := hall line hline
  obtain ⟨hin, hout⟩ := losses_of_isTuned htuned hlevel
  obtain ⟨i, hi, hfits⟩ := mem_of_mapM_eq_some hfound hline
  obtain ⟨l, n, j, o, hl, hend, hmain, hloss, hn, hgate, hrole, hone, hj, ho, htarget',
    hchannel', hloss'⟩ := busLine?_eq_some hfits
  have hsource := h.source_eq hl hi
  have hstart := h.source_eq ho (hj ▸ List.mem_singleton_self j)
  -- the repeater has one input, which is the link from the source
  obtain ⟨i', hi'⟩ := List.length_eq_one_iff.mp hone
  have hinput : i ∈ g.inputs line.repeater := hend ▸ h.mem_inputs hl
  rw [hi', List.mem_singleton] at hinput
  subst hinput
  refine ⟨⟨i, line.repeater, j⟩, hi, ?_, ?_, ⟨n, hn, hgate, hrole⟩, hi', hj⟩
  · rw [hl, BusBranch.enterLink, ← hsource, ← hend, ← hmain, ← hin, ← hloss]
  · rw [ho, BusBranch.leaveLink, ← hstart, ← htarget, ← htarget', ← hchannel, ← hchannel', ← hout,
      ← hloss']

theorem exists_busIdiom_of_busLines? (h : g.WellFormed) {lines : List BusLine}
    (hlines : busLines? g source = some lines) :
    ∃ target channel branch, BusIdiom g source target channel branch := by
  obtain ⟨hfound, first, n, -, hn, hlength, hall, hnodup, hne, hcomparator⟩ :=
    busLines?_eq_some_iff.mp hlines
  choose branch houtput henter hleave hrepeater hinputs houtputs using
    exists_branch h hfound hlength hall hnodup
  -- a link has one loss, so branches of different levels are entered by different links
  have hdistinct : Function.Injective fun k => (branch k).enter := by
    intro k j hkj
    have hlink := (henter k).symm.trans ((congrArg g.link? hkj).trans (henter j))
    exact injective_loss (congrArg Link.loss (Option.some.inj hlink))
  refine ⟨first.target, first.channel, branch, ?_, henter, hleave, hrepeater, hinputs, houtputs,
    fun k j hkj => hdistinct ?_, hne, ⟨n, hn, hcomparator⟩⟩
  · -- fifteen different outputs are all the outputs
    have hsub : (List.ofFn fun k => (branch k).enter) ⊆ g.outputs source := by
      intro i hi
      obtain ⟨k, rfl⟩ := List.mem_ofFn.mp hi
      exact houtput k
    have hcount : (g.outputs source).length = lines.length := by
      simpa using congrArg List.length (mapM_eq_some_iff.mp hfound)
    refine (((List.nodup_ofFn.mpr hdistinct).subperm hsub).perm_of_length_le ?_).symm
    rw [hcount, hlength, List.length_ofFn]
    decide
  · -- a repeater has one input, so the branches over it are the same
    have hlist := (hinputs k).symm.trans ((congrArg g.inputs hkj).trans (hinputs j))
    exact List.singleton_inj.mp hlist

/-! ## The search finds all buses -/

namespace BusIdiom

variable {branch : Fin 15 → BusBranch}

/-- The line that the search makes of the branch of level `k`. -/
def lineOf (target : NodeId) (channel : Channel) (branch : Fin 15 → BusBranch) (k : Fin 15) :
    BusLine :=
  { repeater := (branch k).repeater
    inLoss := UInt8.ofNat k
    target
    channel
    outLoss := UInt8.ofNat (14 - k) }

theorem busLine?_enter (h : BusIdiom g source target channel branch) (k : Fin 15) :
    busLine? g (branch k).enter = some (lineOf target channel branch k) := by
  obtain ⟨n, hn, hgate, hrole⟩ := h.repeater k
  simp [busLine?, h.enters k, BusBranch.enterLink, hn, hgate, hrole, h.inputs_repeater k,
    h.outputs_repeater k, h.leaves k, BusBranch.leaveLink, lineOf]

/-- All outputs of the source fit, and the lines that they make are those of the branches. -/
theorem mapM_busLine? (h : BusIdiom g source target channel branch) :
    ∃ lines, (g.outputs source).mapM (busLine? g) = some lines ∧
      lines.Perm (List.ofFn (lineOf target channel branch)) := by
  refine ⟨(g.outputs source).filterMap (busLine? g), ?_, ?_⟩
  · rw [mapM_eq_some_iff, List.map_filterMap_some_eq_filter_map_isSome, eq_comm,
      List.filter_eq_self]
    intro line hline
    obtain ⟨i, hi, rfl⟩ := List.mem_map.mp hline
    obtain ⟨k, rfl⟩ := List.mem_ofFn.mp (h.outputs.mem_iff.mp hi)
    rw [h.busLine?_enter k]
    rfl
  · refine (h.outputs.filterMap _).trans (List.Perm.of_eq ?_)
    rw [List.ofFn_eq_map, List.ofFn_eq_map, List.filterMap_map, ← List.filterMap_eq_map]
    exact List.filterMap_congr fun k _ => h.busLine?_enter k

/-- The search finds the branches, in the order of the outputs. -/
theorem exists_busLines? (h : BusIdiom g source target channel branch) :
    ∃ first rest, busLines? g source = some (first :: rest) ∧
      (first :: rest).Perm (List.ofFn (lineOf target channel branch)) := by
  obtain ⟨lines, hfound, hperm⟩ := h.mapM_busLine?
  have hlength : lines.length = 15 := by rw [hperm.length_eq, List.length_ofFn]
  have hmem {line : BusLine} (hline : line ∈ lines) : ∃ k, lineOf target channel branch k = line :=
    List.mem_ofFn.mp (hperm.mem_iff.mp hline)
  obtain ⟨first, rest, rfl⟩ := List.exists_cons_of_length_pos (by omega : 0 < lines.length)
  obtain ⟨start, rfl⟩ := hmem List.mem_cons_self
  obtain ⟨n, hn, hcomparator⟩ := h.target_node
  refine ⟨_, rest, busLines?_eq_some_iff.mpr ⟨hfound, _, n, rfl, hn, hlength, ?_, ?_, h.target_ne,
    hcomparator⟩, hperm⟩
  · intro line hline
    obtain ⟨k, rfl⟩ := hmem hline
    have htuned : ∀ k : Fin 15,
        (UInt8.ofNat k).toNat + (UInt8.ofNat (14 - k)).toNat + 1 = busWidth := by decide
    exact ⟨beq_iff_eq.mpr (htuned k), rfl, rfl⟩
  · have hlosses : ((List.ofFn (lineOf target channel branch)).map BusLine.inLoss).Nodup := by
      rw [List.map_ofFn]
      exact List.nodup_ofFn.mpr injective_loss
    exact (hperm.map _).nodup_iff.mpr hlosses

/-! ## What a collapse does -/

theorem eq_enter (h : BusIdiom g source target channel branch) (hwf : g.WellFormed) {i : LinkId}
    {l : Link} (hl : g.link? i = some l) {k : Fin 15} (hend : l.target = (branch k).repeater) :
    i = (branch k).enter := by
  have hmem : i ∈ g.inputs (branch k).repeater := hend ▸ hwf.mem_inputs hl
  rw [h.inputs_repeater k] at hmem
  exact List.mem_singleton.mp hmem

theorem eq_leave (h : BusIdiom g source target channel branch) (hwf : g.WellFormed) {i : LinkId}
    {l : Link} (hl : g.link? i = some l) {k : Fin 15} (hstart : l.source = (branch k).repeater) :
    i = (branch k).leave := by
  have hmem : i ∈ g.outputs (branch k).repeater := hstart ▸ hwf.mem_outputs hl
  rw [h.outputs_repeater k] at hmem
  exact List.mem_singleton.mp hmem

end BusIdiom

/-- In `g'` the branches of a bus are gone, and one comparator stands between its two ends. -/
structure BusReplaced (g : Circuit) (source target : NodeId) (channel : Channel)
    (branch : Fin 15 → BusBranch) (g' : Circuit) : Prop where
  wellFormed : g'.WellFormed
  node : ∀ {id n}, g'.node? id = some n ↔
    id = g.nodeBound ∧ n = busNode (g.strength source) ∨
      g.node? id = some n ∧ ∀ k, id ≠ (branch k).repeater
  link : ∀ {i l}, g'.link? i = some l ↔
    i = g.linkBound ∧ l = { source, target := g.nodeBound, channel := .main, loss := 0 } ∨
      i = g.linkBound + 1 ∧ l = { source := g.nodeBound, target, channel, loss := 0 } ∨
      g.link? i = some l ∧ ∀ k, i ≠ (branch k).enter ∧ i ≠ (branch k).leave

/-- The lines that the search finds, and their branches. -/
structure FoundBus (g : Circuit) (source target : NodeId) (channel : Channel)
    (branch : Fin 15 → BusBranch) (lines : List BusLine) (first : BusLine) : Prop
    extends Bus g source lines first where
  target_eq : first.target = target
  channel_eq : first.channel = channel
  lines_iff : ∀ {line}, line ∈ lines ↔ ∃ k, BusIdiom.lineOf target channel branch k = line

namespace BusIdiom

variable {branch : Fin 15 → BusBranch}

/-- A bus is collapsed, if its source is a comparator. -/
theorem exists_foundBus (h : BusIdiom g source target channel branch) (hwf : g.WellFormed)
    {n : Node} (hn : g.node? source = some n) (hcomparator : n.gate.isComparator = true) :
    ∃ lines first, collapseBus source g = .once (replaceBus g source lines first) ∧
      FoundBus g source target channel branch lines first := by
  obtain ⟨first, rest, hlines, hperm⟩ := h.exists_busLines?
  have hmem {line : BusLine} :
      line ∈ first :: rest ↔ ∃ k, lineOf target channel branch k = line := by
    rw [hperm.mem_iff, List.mem_ofFn]
  obtain ⟨k, hk⟩ := hmem.mp List.mem_cons_self
  have hbus : Bus g source (first :: rest) first :=
    bus_of_busLines? hwf (by rw [hn]; exact hcomparator) hlines
  refine ⟨first :: rest, first, ?_, hbus, by rw [← hk]; rfl, by rw [← hk]; rfl, hmem⟩
  rw [collapseBus, hlines]

end BusIdiom

namespace FoundBus

variable {branch : Fin 15 → BusBranch} {lines : List BusLine} {first : BusLine}

theorem mem_repeaters (h : FoundBus g source target channel branch lines first) {id : NodeId} :
    id ∈ lines.map BusLine.repeater ↔ ∃ k, (branch k).repeater = id := by
  rw [List.mem_map]
  constructor
  · rintro ⟨line, hline, rfl⟩
    obtain ⟨k, rfl⟩ := h.lines_iff.mp hline
    exact ⟨k, rfl⟩
  · rintro ⟨k, rfl⟩
    exact ⟨_, h.lines_iff.mpr ⟨k, rfl⟩, rfl⟩

/-- Without the repeaters, the links of the branches are gone and no others. -/
theorem link?_withoutLines (h : FoundBus g source target channel branch lines first)
    (hidiom : BusIdiom g source target channel branch) (hwf : g.WellFormed) {i : LinkId}
    {l : Link} : (withoutLines g lines).link? i = some l ↔
      g.link? i = some l ∧ ∀ k, i ≠ (branch k).enter ∧ i ≠ (branch k).leave := by
  rw [link?_withoutLines_eq_some_iff hwf, h.mem_repeaters, h.mem_repeaters, not_exists, not_exists]
  refine and_congr_right fun hl => ?_
  constructor
  · rintro ⟨hstart, hend⟩ k
    constructor
    · rintro rfl
      rw [hidiom.enters k] at hl
      exact hend k (congrArg Link.target (Option.some.inj hl))
    · rintro rfl
      rw [hidiom.leaves k] at hl
      exact hstart k (congrArg Link.source (Option.some.inj hl))
  · intro hother
    constructor
    · intro k hk
      exact (hother k).2 (hidiom.eq_leave hwf hl hk.symm)
    · intro k hk
      exact (hother k).1 (hidiom.eq_enter hwf hl hk.symm)

theorem busReplaced (h : FoundBus g source target channel branch lines first)
    (hidiom : BusIdiom g source target channel branch) (hwf : g.WellFormed) :
    BusReplaced g source target channel branch (replaceBus g source lines first) where
  wellFormed := Bus.wellFormed_replaceBus hwf source lines first
  node := by
    intro id n
    rw [Bus.node?_replaceBus]
    by_cases hid : id = g.nodeBound
    · -- the new name stands for nothing yet
      have hnone : g.node? id = none := by
        rw [← contains_eq_false_iff, Bool.eq_false_iff]
        intro hc
        exact Nat.ne_of_lt (lt_nodeBound_of_contains hc) hid
      rw [if_pos hid, hnone, Option.some_inj]
      simp only [hid, true_and, reduceCtorEq, false_and, or_false]
      exact eq_comm
    · rw [if_neg hid, ← ite_not, Option.ite_none_right_eq_some, h.mem_repeaters, not_exists,
        and_comm]
      simp only [hid, false_and, false_or, ne_comm (a := id)]
  link := by
    intro i l
    have hold : g.link? i = some l → i < g.linkBound := lt_linkBound_of_link?
    have hin : busIn g source = { source, target := g.nodeBound, channel := .main, loss := 0 } :=
      rfl
    have hout : busOut g first = { source := g.nodeBound, target, channel, loss := 0 } := by
      rw [busOut, h.target_eq, h.channel_eq]
    rw [h.link?_replaceBus, ← hin, ← hout, ← h.link?_withoutLines hidiom hwf,
      link?_withoutLines_eq_some_iff hwf]
    -- the new names are not below the bound, where all old names are
    split
    · grind
    split
    · grind
    · rw [link?_withoutLines_eq_some_iff hwf]
      grind

end FoundBus

/-! ## What a bus carries -/

/-- The strength that is given to a node is what its gate puts out under the power that the
strengths of the others bring. -/
def SettledAt (g : Circuit) (σ : NodeId → UInt8) (id : NodeId) : Prop :=
  ∀ n, g.node? id = some n → (n.gate.settle n.state (g.powerUnder σ id)).strength = σ id

instance (g : Circuit) (σ : NodeId → UInt8) (id : NodeId) : Decidable (SettledAt g σ id) :=
  decidable_of_iff
    ((g.node? id).all fun n => (n.gate.settle n.state (g.powerUnder σ id)).strength == σ id) (by
      simp [SettledAt, Option.all_eq_true])

namespace FoundBus

variable {branch : Fin 15 → BusBranch} {lines : List BusLine} {first : BusLine}
  {σ : NodeId → UInt8}

theorem linesFollow (h : FoundBus g source target channel branch lines first) (hwf : g.WellFormed)
    (hσ : ∀ k, SettledAt g σ (branch k).repeater) : LinesFollow lines source σ := by
  intro line hline
  obtain ⟨n, hn, hgate, -⟩ := (h.line hline).node
  obtain ⟨k, hk⟩ := h.mem_repeaters.mp (List.mem_map_of_mem hline)
  have hsettled := hσ k n (hk ▸ hn)
  rw [hk, (h.line hline).hangs.powerUnder_eq hwf, hgate] at hsettled
  have hdigital : digital (0 < attenuate (σ source) line.inLoss) = σ line.repeater := hsettled
  rw [← hdigital]
  simp only [attenuate_pos_iff]

/-- The comparator repeats the strength of the source. -/
theorem carried (h : FoundBus g source target channel branch lines first) (hwf : g.WellFormed)
    (hσ : SettledAt (replaceBus g source lines first) σ g.nodeBound) :
    σ g.nodeBound = σ source := by
  have hnode := (Bus.node?_replaceBus g source lines first g.nodeBound).trans (if_pos rfl)
  have hsettled := hσ _ hnode
  rw [(h.hangsOn_replaceBus hwf).powerUnder_eq (Bus.wellFormed_replaceBus hwf source lines first),
    attenuate_zero] at hsettled
  have hout := Bus.comparatorOutput_busNode (p := { main := σ source }) rfl (g.strength source)
  exact hsettled.symm.trans hout

/-- With the comparator settled as with the repeaters settled, the same power comes to everyone. -/
theorem powerUnder_eq (h : FoundBus g source target channel branch lines first)
    (hwf : g.WellFormed) (hle : σ source ≤ maxStrength)
    (hlines : ∀ k, SettledAt g σ (branch k).repeater)
    (hbus : SettledAt (replaceBus g source lines first) σ g.nodeBound) {id : NodeId}
    (hid : id ≠ g.nodeBound) (hother : ∀ k, id ≠ (branch k).repeater) :
    (replaceBus g source lines first).powerUnder σ id = g.powerUnder σ id := by
  -- the same strengths serve on both sides: the old circuit does not look at the new name
  have hmatches : Bus.Matches g source lines σ σ :=
    ⟨h.linesFollow hwf hlines, hle, h.carried hwf hbus, fun _ _ _ => rfl⟩
  refine h.powerUnder_replaceBus hwf hmatches hid ?_
  rw [h.mem_repeaters, not_exists]
  exact fun k hk => hother k hk.symm

end FoundBus

/-- The buses of a comparator are found, all of them and nothing else.  Where there is one, its
repeaters and their links are replaced by a comparator, and this makes no difference to the power
at any other node once the repeaters and the comparator have settled. -/
theorem collapseBus_is_exact (source : NodeId) (h : g.WellFormed) {n : Node}
    (hn : g.node? source = some n) (hcomparator : n.gate.isComparator = true) :
    ((collapseBus source g).changes = 1 ↔
      ∃ target channel branch, BusIdiom g source target channel branch) ∧
    ((¬∃ target channel branch, BusIdiom g source target channel branch) →
      collapseBus source g = .unchanged g) ∧
    ∀ target channel branch, BusIdiom g source target channel branch →
      BusReplaced g source target channel branch (collapseBus source g).circuit ∧
      ∀ σ : NodeId → UInt8, σ source ≤ maxStrength →
        (∀ k, SettledAt g σ (branch k).repeater) →
        SettledAt (collapseBus source g).circuit σ g.nodeBound →
        ∀ id, id ≠ g.nodeBound → (∀ k, id ≠ (branch k).repeater) →
          (collapseBus source g).circuit.powerUnder σ id = g.powerUnder σ id := by
  have hmissing : (¬∃ target channel branch, BusIdiom g source target channel branch) →
      collapseBus source g = .unchanged g := by
    intro hno
    unfold collapseBus
    split
    case h_1 first rest hlines => exact absurd (exists_busIdiom_of_busLines? h hlines) hno
    case h_2 => rfl
  refine ⟨⟨?_, ?_⟩, hmissing, ?_⟩
  · intro hchanges
    by_contra hno
    rw [hmissing hno] at hchanges
    cases hchanges
  · rintro ⟨target, channel, branch, hidiom⟩
    obtain ⟨lines, first, hcollapse, -⟩ := hidiom.exists_foundBus h hn hcomparator
    rw [hcollapse]
    rfl
  · intro target channel branch hidiom
    obtain ⟨lines, first, hcollapse, hfound⟩ := hidiom.exists_foundBus h hn hcomparator
    rw [hcollapse]
    exact ⟨hfound.busReplaced hidiom h,
      fun σ hle hlines hbus id hid hother => hfound.powerUnder_eq h hle hlines hbus hid hother⟩

/-- Two comparators and, between them, the repeaters of a bus in mixed order. -/
def mixedBus : Circuit :=
  (List.range 15).foldl
    (fun g k =>
      (g.addLink { source := 0, target := 2 + k, channel := .main, loss := level k }).addLink
        { source := 2 + k, target := 1, channel := .side, loss := 14 - level k })
    (Circuit.empty.addNodes (comparator :: comparator :: List.replicate 15 repeater))
where
  level (k : Nat) : UInt8 := UInt8.ofNat ((7 * k + 3) % 15)
  comparator : Node := { gate := .comparator .compare false, state := .ofStrength 9 }
  repeater : Node := { gate := .repeater 1 false }

/-- The branches of the mixed bus in the order of their levels. -/
def mixedBranch (level : Fin 15) : BusBranch :=
  let k : Fin 15 := 13 * (level - 3)
  { enter := 2 * k, repeater := 2 + k, leave := 2 * k + 1 }

/-- The strengths of the mixed bus when its source puts out nine. -/
def mixedStrength (id : NodeId) : UInt8 :=
  if id = 0 ∨ id = 17 then 9 else digital (mixedBus.level (id - 2) < 9)

theorem wellFormed_mixedBus : mixedBus.WellFormed :=
  List.foldlRecOn _ _ (WellFormed.empty.addNodes _) fun _ hg _ _ => (hg.addLink _).addLink _

theorem busIdiom_mixedBus : BusIdiom mixedBus 0 1 .side mixedBranch where
  outputs := by decide +kernel
  enters := by decide +kernel
  leaves := by decide +kernel
  repeater := by
    intro k
    refine ⟨mixedBus.repeater, ?_, rfl, rfl⟩
    revert k
    decide +kernel
  inputs_repeater := by decide +kernel
  outputs_repeater := by decide +kernel
  distinct := by
    have hall : ∀ k j : Fin 15, (mixedBranch k).repeater = (mixedBranch j).repeater → k = j := by
      decide +kernel
    exact fun k j => hall k j
  target_ne := by decide
  target_node := ⟨mixedBus.comparator, by decide +kernel, rfl⟩

/-- All that comes to the second comparator of the mixed bus is the strength of the first one,
before and after. -/
theorem collapseBus_is_exact_mixedBus :
    (collapseBus 0 mixedBus).changes = 1 ∧
    (collapseBus 0 mixedBus).circuit.powerUnder mixedStrength 1 = { side := 9 } ∧
    mixedBus.powerUnder mixedStrength 1 = { side := 9 } := by
  obtain ⟨hfound, -, hexact⟩ := collapseBus_is_exact 0 wellFormed_mixedBus
    (n := mixedBus.comparator) (by decide +kernel) rfl
  have hpower : mixedBus.powerUnder mixedStrength 1 = { side := 9 } := by decide +kernel
  refine ⟨hfound.mpr ⟨_, _, _, busIdiom_mixedBus⟩, ?_, hpower⟩
  rw [← hpower]
  exact (hexact _ _ _ busIdiom_mixedBus).2 mixedStrength (by decide) (by decide +kernel)
    (by decide +kernel) 1 (by decide +kernel) (by decide +kernel)

end Redstone.Optimize
