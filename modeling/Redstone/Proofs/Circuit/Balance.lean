import Redstone.Proofs.Circuit.Lineage
import Redstone.Proofs.Circuit.Power

/-!
# Steady states and their simulation

A state of a circuit is steady when evaluating any node changes nothing.  What counts for
other nodes is the strength that a node puts out, so steady states are studied through their
strengths: an assignment of strengths is balanced when every node upholds its strength under
the power that the others give it.

A revision of a circuit is justified by carrying balanced strengths to the revised circuit
and back.  `Refines` says that this is possible; it is kept by putting revisions one after the
other, so that the passes only have to be looked at step by step.
-/

namespace Redstone

namespace GateType

/-- The type is one of the eleven defined ones. -/
def isDefined : GateType → Bool
  | undefined _ => false
  | _ => true

/-- The type of a gate that is switched from outside. -/
def isSwitch : GateType → Bool
  | lever | button | pressurePlate => true
  | _ => false

/-- The type of a gate that has no inputs. -/
def isSource (t : GateType) : Bool :=
  t == constant || t.isSwitch

/-- The type of a gate that shows the power it is given. -/
def isIndicator : GateType → Bool
  | lamp | trapdoor | noteBlock => true
  | _ => false

end GateType

/-- A node with the given power goes on putting out the given strength: evaluation keeps it,
folding would give it, and it is the own strength of a constant. -/
structure Node.Upholds (n : Node) (p : Power) (s : UInt8) : Prop where
  settles : (n.gate.settle { n.state with strength := s } p).strength = s
  folds : ∀ out, n.gate.fold n.state p = some out → out = s
  constant : n.gate.isConstant = true → n.state.strength = s

/-- A node that the passes can deal with: its type is defined, its far input and the strengths
that it can keep are signals, and as an output it is an indicator. -/
structure Node.Regular (n : Node) : Prop where
  defined : n.gate.type.isDefined = true
  farInput_le : n.gate.hasFarInput = true → n.gate.farInput ≤ maxStrength
  constant_le : n.gate.isConstant = true → n.state.strength ≤ maxStrength
  locked_le : n.gate.type = .repeater → n.state.locked = true → n.state.strength ≤ maxStrength
  output_indicator : n.isOutput = true → n.gate.type.isIndicator = true

/-- The strength that a node puts out under the given power.  A switch is taken to be off. -/
def Node.response (n : Node) (p : Power) : UInt8 :=
  (n.gate.settle
    { n.state with strength := if n.gate.isConstant then n.state.strength else 0 } p).strength

namespace Node

variable {n : Node} {p : Power} {s : UInt8}

theorem upholds_response (hlocked : n.gate.type = .repeater → n.state.locked = false)
    (hside : n.gate.type = .repeater → p.side = 0) : n.Upholds p (n.response p) where
  settles := by
    let start : GateState :=
      { n.state with strength := if n.gate.isConstant then n.state.strength else 0 }
    have hidem : (n.gate.settle (n.gate.settle start p) p).strength = n.response p :=
      congrArg GateState.strength (n.gate.settle_settle start p)
    refine Eq.trans (Gate.settle_strength_congr (t := n.gate.settle start p) ?_) hidem
    rfl
  folds := by
    intro out hfold
    exact (Gate.settle_strength_of_fold hlocked hside hfold).symm
  constant := by
    intro hconst
    have htype : n.gate.type = .constant := by simpa [Gate.isConstant] using hconst
    simp [response, Gate.settle, htype, hconst]

theorem Regular.response_le (h : n.Regular) (hmain : p.main ≤ maxStrength) :
    n.response p ≤ maxStrength := by
  refine Gate.settle_le h.farInput_le hmain ?_
  dsimp only
  split
  case isTrue hconst => exact h.constant_le hconst
  case isFalse => decide

theorem regular_constant (hs : s ≤ maxStrength) : (Node.constant s).Regular where
  defined := rfl
  farInput_le := nofun
  constant_le := fun _ => hs
  locked_le := nofun
  output_indicator := nofun

/-- Two nodes of the same gate put out the same under the same power.  Switches and constants
are apart, and so is the side input of repeaters. -/
theorem Upholds.eq_of_gate_eq {m : Node} {t : UInt8} (h : n.Upholds p s) (h' : m.Upholds p t)
    (hgate : m.gate = n.gate) (hdefined : n.gate.type.isDefined = true)
    (hsource : n.gate.type.isSource = false) (hside : p.side = 0) : s = t := by
  have hsettle := h.settles
  have hsettle' := h'.settles
  rw [hgate] at hsettle'
  rw [← hsettle, ← hsettle']
  unfold Gate.settle
  cases htype : n.gate.type <;>
    simp_all [GateType.isSource, GateType.isSwitch, GateType.isDefined]

/-- A repeater without a side input is on or off, whatever its state says. -/
theorem Upholds.eq_digital (h : n.Upholds p s) (htype : n.gate.type = .repeater)
    (hside : p.side = 0) : digital (0 < p.main) = s := by
  have hsettle := h.settles
  simpa [Gate.settle, htype, hside] using hsettle

theorem upholds_digital (htype : n.gate.type = .repeater) (hside : p.side = 0)
    (hlocked : n.state.locked = false) : n.Upholds p (digital (0 < p.main)) where
  settles := by simp [Gate.settle, htype, hside]
  folds := by simp [Gate.fold, htype, hlocked]
  constant := by simp [Gate.isConstant, htype]

theorem upholds_comparator_iff (htype : n.gate.type = .comparator) :
    n.Upholds p s ↔ n.gate.comparatorOutput p = s := by
  constructor
  · intro h
    have hsettle := h.settles
    simpa [Gate.settle, htype] using hsettle
  · intro h
    refine ⟨?_, ?_, ?_⟩
    · simpa [Gate.settle, htype] using h
    · simp [Gate.fold, htype, h]
    · simp [Gate.isConstant, htype]

/-- An indicator looks at its main input only. -/
theorem upholds_indicator_iff (h : n.gate.type.isIndicator = true) :
    n.Upholds p s ↔ p.main = s := by
  have hfoldable : n.gate.isFoldable = false := by
    unfold Gate.isFoldable
    cases htype : n.gate.type <;> simp_all [GateType.isIndicator]
  have hconst : n.gate.isConstant = false := by
    unfold Gate.isConstant
    cases htype : n.gate.type <;> simp_all [GateType.isIndicator]
  have hsettle : (n.gate.settle { n.state with strength := s } p).strength = p.main := by
    unfold Gate.settle
    cases htype : n.gate.type <;> simp_all [GateType.isIndicator]
  constructor
  · intro hup
    rw [← hsettle]
    exact hup.settles
  · intro hmain
    refine ⟨hsettle.trans hmain, ?_, ?_⟩
    · intro out hfold
      rw [Gate.fold_eq_none_of_not_isFoldable hfoldable] at hfold
      cases hfold
    · intro htrue
      rw [hconst] at htrue
      cases htrue

theorem upholds_constant_iff (h : n.gate.isConstant = true) :
    n.Upholds p s ↔ n.state.strength = s := by
  have htype : n.gate.type = .constant := by simpa [Gate.isConstant] using h
  constructor
  · intro hup
    exact hup.constant h
  · intro hs
    refine ⟨?_, ?_, fun _ => hs⟩
    · simp [Gate.settle, htype]
    · intro out hfold
      simp [Gate.fold, htype] at hfold

end Node

namespace Circuit

/-- A state in which every node stays as it is, every constant puts out its stored strength,
and no strength exceeds the greatest one. -/
structure Steady (g : Circuit) (σ : NodeId → GateState) : Prop where
  settled : ∀ {id n}, g.node? id = some n →
    n.gate.settle (σ id) (g.powerUnder (fun j => (σ j).strength) id) = σ id
  constant : ∀ {id n}, g.node? id = some n → n.gate.type = .constant →
    (σ id).strength = n.state.strength
  bounded : ∀ {id n}, g.node? id = some n → (σ id).strength ≤ maxStrength

/-- Strengths that every node upholds. -/
structure Balanced (g : Circuit) (τ : NodeId → UInt8) : Prop where
  upholds : ∀ {id n}, g.node? id = some n → n.Upholds (g.powerUnder τ id) (τ id)
  bounded : ∀ {id n}, g.node? id = some n → τ id ≤ maxStrength

/-- No repeater is stored as locked, and none has a side input. -/
structure Unlatched (g : Circuit) : Prop where
  unlocked : ∀ {id n}, g.node? id = some n → n.gate.type = .repeater → n.state.locked = false
  no_side : ∀ {i l n}, g.link? i = some l → g.node? l.target = some n →
    n.gate.type = .repeater → l.channel ≠ .side

/-- What the passes rely on: all nodes are regular, and constants and switches have no
inputs. -/
structure Regular (g : Circuit) : Prop where
  wellFormed : g.WellFormed
  nodes : ∀ {id n}, g.node? id = some n → n.Regular
  source_free : ∀ {i l n}, g.link? i = some l → g.node? l.target = some n →
    n.gate.type.isSource = false

variable {g g' : Circuit}

theorem Unlatched.side_eq_zero (h : g.Unlatched) (hwf : g.WellFormed) {id : NodeId} {n : Node}
    (hn : g.node? id = some n) (htype : n.gate.type = .repeater) (τ : NodeId → UInt8) :
    (g.powerUnder τ id).side = 0 := by
  change (g.powerUnder τ id).at true = 0
  apply hwf.powerUnder_eq_zero
  rintro i l hl rfl hside
  exact h.no_side hl hn htype (by simpa [Channel.isSide] using hside)

/-! ## Steady states are balanced strengths -/

/-- Without latches, the strengths of a steady state are balanced. -/
theorem Steady.balanced {σ : NodeId → GateState} (h : g.Steady σ) (hun : g.Unlatched)
    (hwf : g.WellFormed) : g.Balanced fun id => (σ id).strength where
  upholds := by
    intro id n hn
    have hsettled := congrArg GateState.strength (h.settled hn)
    refine ⟨?_, ?_, ?_⟩
    · refine Eq.trans (Gate.settle_strength_congr (t := σ id) ?_) hsettled
      rfl
    · intro out hfold
      have hout := Gate.settle_strength_of_fold (t := σ id) (fun ht => hun.unlocked hn ht)
        (fun ht => hun.side_eq_zero hwf hn ht _) hfold
      rw [← hout]
      exact hsettled
    · intro hconst
      exact (h.constant hn (by simpa [Gate.isConstant] using hconst)).symm
  bounded := h.bounded

/-- The state that nodes with the given strengths take. -/
def stateOf (g : Circuit) (τ : NodeId → UInt8) (id : NodeId) : GateState :=
  match g.node? id with
  | some n => n.gate.settle { n.state with strength := τ id } (g.powerUnder τ id)
  | none => { strength := τ id }

theorem Balanced.strength_stateOf {τ : NodeId → UInt8} (h : g.Balanced τ) (id : NodeId) :
    (g.stateOf τ id).strength = τ id := by
  unfold stateOf
  cases hn : g.node? id with
  | none => rfl
  | some n => exact (h.upholds hn).settles

/-- Balanced strengths are those of a steady state. -/
theorem Balanced.steady_stateOf {τ : NodeId → UInt8} (h : g.Balanced τ) :
    g.Steady (g.stateOf τ) := by
  have hstrength : (fun j => (g.stateOf τ j).strength) = τ := funext h.strength_stateOf
  refine ⟨?_, ?_, ?_⟩
  · intro id n hn
    rw [hstrength]
    unfold stateOf
    rw [hn]
    exact n.gate.settle_settle _ _
  · intro id n hn htype
    rw [h.strength_stateOf]
    exact ((h.upholds hn).constant (by simp [Gate.isConstant, htype])).symm
  · intro id n hn
    rw [h.strength_stateOf]
    exact h.bounded hn

/-! ## Power under balanced strengths -/

theorem Balanced.source_le {τ : NodeId → UInt8} (h : g.Balanced τ) (hwf : g.WellFormed) {i : LinkId} {l : Link}
    (hl : g.link? i = some l) : τ l.source ≤ maxStrength := by
  obtain ⟨n, hn⟩ := contains_iff.mp (hwf.contains_source hl)
  exact h.bounded hn

theorem Balanced.power_le {τ : NodeId → UInt8} (h : g.Balanced τ) (hwf : g.WellFormed)
    (id : NodeId) (side : Bool) : (g.powerUnder τ id).at side ≤ maxStrength :=
  hwf.powerUnder_le (fun _ _ hl _ => h.source_le hwf hl) side

/-! ## Simulation -/

/-- Both assignments have the same strength at every node that both circuits have. -/
def Agree (g g' : Circuit) (τ τ' : NodeId → UInt8) : Prop :=
  ∀ id, g.contains id = true → g'.contains id = true → τ' id = τ id

/-- Balanced strengths of `g` can be carried to `g'`. -/
def Forward (g g' : Circuit) : Prop :=
  ∀ τ, g.Balanced τ → ∃ τ', g'.Balanced τ' ∧ Agree g g' τ τ'

/-- Balanced strengths of `g'` can be carried back to `g`. -/
def Backward (g g' : Circuit) : Prop :=
  ∀ τ', g'.Balanced τ' → ∃ τ, g.Balanced τ ∧ Agree g g' τ τ'

/-- The circuit `g'` can take the place of `g`: balanced strengths are carried over, and, in
circuits without latches, back again. -/
structure Simulates (g g' : Circuit) : Prop where
  regular : g'.Regular
  unlatched : g.Unlatched → g'.Unlatched
  forward : Forward g g'
  backward : g.Unlatched → Backward g g'

/-- The circuit `g'` descends from `g` and can take its place. -/
structure Refines (g g' : Circuit) : Prop extends Simulates g g' where
  lineage : Lineage g g'

theorem Agree.trans {g₁ g₂ g₃ : Circuit} {τ₁ τ₂ τ₃ : NodeId → UInt8}
    (hbetween : ∀ id, g₁.contains id = true → g₃.contains id = true → g₂.contains id = true)
    (h : Agree g₁ g₂ τ₁ τ₂) (h' : Agree g₂ g₃ τ₂ τ₃) : Agree g₁ g₃ τ₁ τ₃ := by
  intro id hfirst hlast
  have hmid := hbetween id hfirst hlast
  rw [h' id hmid hlast, h id hfirst hmid]

theorem Simulates.trans {g₁ g₂ g₃ : Circuit}
    (hbetween : ∀ id, g₁.contains id = true → g₃.contains id = true → g₂.contains id = true)
    (h : Simulates g₁ g₂) (h' : Simulates g₂ g₃) : Simulates g₁ g₃ where
  regular := h'.regular
  unlatched := fun hun => h'.unlatched (h.unlatched hun)
  forward := by
    intro τ₁ hτ₁
    obtain ⟨τ₂, hτ₂, hagree⟩ := h.forward τ₁ hτ₁
    obtain ⟨τ₃, hτ₃, hagree'⟩ := h'.forward τ₂ hτ₂
    exact ⟨τ₃, hτ₃, hagree.trans hbetween hagree'⟩
  backward := by
    intro hun τ₃ hτ₃
    obtain ⟨τ₂, hτ₂, hagree'⟩ := h'.backward (h.unlatched hun) τ₃ hτ₃
    obtain ⟨τ₁, hτ₁, hagree⟩ := h.backward hun τ₂ hτ₂
    exact ⟨τ₁, hτ₁, hagree.trans hbetween hagree'⟩

namespace Refines

theorem refl (h : g.Regular) : Refines g g where
  regular := h
  unlatched := fun h => h
  forward := fun τ hτ => ⟨τ, hτ, fun _ _ _ => rfl⟩
  backward := fun _ τ hτ => ⟨τ, hτ, fun _ _ _ => rfl⟩
  lineage := .refl g

theorem trans {g₁ g₂ g₃ : Circuit} (h : Refines g₁ g₂) (h' : Refines g₂ g₃) :
    Refines g₁ g₃ where
  toSimulates := h.toSimulates.trans (fun _ => h.lineage.contains_between h'.lineage)
    h'.toSimulates
  lineage := h.lineage.trans h'.lineage

end Refines

end Circuit

end Redstone
