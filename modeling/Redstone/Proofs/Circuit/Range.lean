import Redstone.Proofs.Circuit.Balance

/-!
# Circuits in range

The strengths and losses of a circuit are bytes, and its modes and channels are codes.  A circuit
is in range when strengths and losses are at most the greatest strength and all codes are defined
ones.  This is what a netlist can hold.
-/

namespace Redstone

/-- The strength of a node is a signal and its mode is a defined one. -/
structure Node.InRange (n : Node) : Prop where
  strength_le : n.state.strength ≤ maxStrength
  mode : n.gate.mode = .compare ∨ n.gate.mode = .subtract

/-- The loss of a link is at most the greatest strength and its channel is a defined one. -/
structure Link.InRange (l : Link) : Prop where
  loss_le : l.loss ≤ maxStrength
  channel : l.channel = .main ∨ l.channel = .side

theorem Node.inRange_constant {s : UInt8} (h : s ≤ maxStrength) : (Node.constant s).InRange :=
  ⟨h, .inl rfl⟩

namespace Circuit

/-- All nodes and links of the circuit are in range. -/
structure InRange (g : Circuit) : Prop where
  node : ∀ {id n}, g.node? id = some n → n.InRange
  link : ∀ {i l}, g.link? i = some l → l.InRange

namespace InRange

variable {g : Circuit}

theorem addNode (h : g.InRange) {n : Node} (hn : n.InRange) : (g.addNode n).InRange where
  node := by
    intro id m hm
    rw [node?_addNode] at hm
    split at hm
    · cases hm
      exact hn
    · exact h.node hm
  link := h.link

/-- Whether both ends are there or not, a link in range does no harm. -/
theorem addLink (h : g.InRange) {l : Link} (hl : l.InRange) : (g.addLink l).InRange where
  node := by
    intro id n hn
    rw [node?_addLink] at hn
    exact h.node hn
  link := by
    intro i m hm
    rcases eq_or_link?_of_addLink hm with rfl | hm
    · exact hl
    · exact h.link hm

theorem removeLinks (h : g.InRange) (ids : List LinkId) : (g.removeLinks ids).InRange where
  node := by
    intro id n hn
    rw [node?_removeLinks] at hn
    exact h.node hn
  link := by
    intro i l hl
    rw [link?_removeLinks] at hl
    split at hl
    · cases hl
    · exact h.link hl

theorem removeLink (h : g.InRange) (i : LinkId) : (g.removeLink i).InRange :=
  h.removeLinks [i]

theorem removeNode (h : g.InRange) (hwf : g.WellFormed) (id : NodeId) :
    (g.removeNode id).InRange where
  node := fun hn => h.node (node?_removeNode_eq_some_iff.mp hn).2
  link := fun hl => h.link (hwf.link?_removeNode_eq_some_iff.mp hl).1

/-- A link that starts elsewhere keeps its loss and its channel. -/
theorem setSource (h : g.InRange) (i : LinkId) (source : NodeId) :
    (g.setSource i source).InRange where
  node := by
    intro id n hn
    rw [node?_setSource] at hn
    exact h.node hn
  link := by
    intro j m hm
    cases hs : g.contains source with
    | false =>
        rw [setSource_of_stay (by simp [hs])] at hm
        exact h.link hm
    | true =>
        rw [link?_setSource hs] at hm
        split at hm
        · obtain ⟨l, hl, rfl⟩ := Option.map_eq_some_iff.mp hm
          exact ⟨(h.link hl).loss_le, (h.link hl).channel⟩
        · exact h.link hm

/-- Only the node that is changed has to be looked at. -/
theorem modifyNode (h : g.InRange) {id : NodeId} {f : Node → Node}
    (hf : ∀ n, g.node? id = some n → (f n).InRange) : (g.modifyNode id f).InRange where
  node := by
    intro j m hm
    rw [node?_modifyNode] at hm
    split at hm
    case isTrue hid =>
      subst hid
      obtain ⟨n, hn, rfl⟩ := Option.map_eq_some_iff.mp hm
      exact hf n hn
    case isFalse => exact h.node hm
  link := h.link

end InRange

end Circuit

end Redstone
