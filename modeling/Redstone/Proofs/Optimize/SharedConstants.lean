import Redstone.Proofs.Optimize.Steps

/-!
# Sharing of constants

While constants are shared, every server is a constant of the strength that it serves, and
none of them is ever removed: a constant that serves a demand keeps the link that made it a
server.  So a link only ever moves between constants of equal strength.
-/

namespace Redstone.Optimize

open Circuit

variable {g : Circuit}

/-- Every server is there, is a constant, and has the strength that is asked of it. -/
def Sharing.Served (s : Sharing) : Prop :=
  ∀ {d server}, (d, server) ∈ s.servers →
    ∃ m, s.circuit.node? server = some m ∧ m.gate.isConstant = true ∧ m.state.strength = d.2

/-- No server is among the nodes that are still to come. -/
def Sharing.Apart (s : Sharing) (later : List NodeId) : Prop :=
  ∀ {d server}, (d, server) ∈ s.servers → server ∉ later

/-- The sharing so far, before the nodes `later` are looked at. -/
structure Sharing.Sound (g : Circuit) (later : List NodeId) (s : Sharing) : Prop where
  refines : Refines g s.circuit
  served : s.Served
  apart : s.Apart later
  known : ∀ id ∈ later, id < g.nodeBound

/-- The sharing of constant `id`, which is the node `n`, before its links `rest` are looked at.
A constant that serves has a link that stays. -/
structure Share.Sound (g : Circuit) (later : List NodeId) (id : NodeId) (n : Node)
    (rest : List LinkId) (s : Share) : Prop extends Sharing.Sound g later s.toSharing where
  node : s.circuit.node? id = some n
  self : ∀ {d}, (d, id) ∈ s.servers → s.serves = true
  stays : s.serves = true → ∃ i ∈ s.circuit.outputs id, i ∉ rest
  pending : ∀ i ∈ rest, ∃ l, s.circuit.link? i = some l ∧ l.source = id

theorem mem_of_lookup_eq_some {servers : List (Demand × NodeId)} {d : Demand} {server : NodeId}
    (h : servers.lookup d = some server) : (d, server) ∈ servers := by
  obtain ⟨before, behind, hsplit, -⟩ := List.lookup_eq_some_iff.mp h
  rw [hsplit]
  exact List.mem_append_right _ List.mem_cons_self

/-- A link moves from one constant to another of the same strength. -/
theorem refines_setSource_constant (h : g.Regular) {i : LinkId} {l : Link} {server : NodeId}
    {n m : Node} (hl : g.link? i = some l) (hn : g.node? l.source = some n)
    (hconst : n.gate.isConstant = true) (hm : g.node? server = some m)
    (hconst' : m.gate.isConstant = true) (hsame : m.state.strength = n.state.strength) :
    Refines g (g.setSource i server) := by
  refine .setSource h (contains_of_node? hm) fun l' hl' τ hτ => ?_
  rw [hl] at hl'
  cases hl'
  have hkeeps {j : NodeId} {k : Node} (hk : g.node? j = some k) (hc : k.gate.isConstant = true) :
      k.state.strength = τ j := by
    rcases hτ with hτ | hτ
    · exact (hτ.upholds hk).constant hc
    · exact (hτ.upholds ((node?_setSource i server j).trans hk)).constant hc
  rw [← hkeeps hm hconst', hsame, hkeeps hn hconst]

namespace Share.Sound

variable {later : List NodeId} {id : NodeId} {n : Node} {i : LinkId} {rest : List LinkId}
  {s : Share}

/-- The next link is left where it is. -/
theorem skip (h : Share.Sound g later id n (i :: rest) s) : Share.Sound g later id n rest s where
  toSound := h.toSound
  node := h.node
  self := h.self
  stays := by
    intro hserves
    obtain ⟨j, hj, hnot⟩ := h.stays hserves
    exact ⟨j, hj, fun hmem => hnot (List.mem_cons_of_mem _ hmem)⟩
  pending := fun j hj => h.pending j (List.mem_cons_of_mem _ hj)

/-- The next link moves to a server. -/
theorem move (h : Share.Sound g later id n (i :: rest) s) (hnodup : (i :: rest).Nodup)
    (hconst : n.gate.isConstant = true) {d : Demand} {server : NodeId}
    (hserver : (d, server) ∈ s.servers) (hd : d.2 = n.state.strength) :
    Share.Sound g later id n rest (s.move i server) := by
  obtain ⟨m, hm, hmc, hms⟩ := h.served hserver
  obtain ⟨l, hl, hsource⟩ := h.pending i List.mem_cons_self
  have hnotMem : i ∉ rest := (List.nodup_cons.mp hnodup).1
  have hwf := h.refines.regular.wellFormed
  have hsource' : s.circuit.node? l.source = some n := hsource ▸ h.node
  have hwf' : (s.circuit.setSource i server).WellFormed := hwf.setSource i server
  have hlink {j : LinkId} (hj : i ≠ j) : (s.circuit.setSource i server).link? j =
      s.circuit.link? j := by
    rw [link?_setSource (contains_of_node? hm), if_neg hj]
  exact {
    refines := h.refines.trans
      (refines_setSource_constant h.refines.regular hl hsource' hconst hm hmc (hms.trans hd))
    served := fun hmem => by
      obtain ⟨k, hk, hrest⟩ := h.served hmem
      exact ⟨k, (node?_setSource i server _).trans hk, hrest⟩
    apart := h.apart
    known := h.known
    node := (node?_setSource i server id).trans h.node
    self := h.self
    stays := by
      intro hserves
      -- the link that keeps the constant alive is another one
      obtain ⟨j, hj, hnot⟩ := h.stays hserves
      have hij : i ≠ j := fun hij => hnot (hij ▸ List.mem_cons_self)
      refine ⟨j, ?_, fun hmem => hnot (List.mem_cons_of_mem _ hmem)⟩
      change j ∈ (s.circuit.setSource i server).outputs id
      rw [hwf'.mem_outputs_iff, hlink hij, ← hwf.mem_outputs_iff]
      exact hj
    pending := by
      intro j hj
      have hij : i ≠ j := fun hij => hnotMem (hij ▸ hj)
      change ∃ l, (s.circuit.setSource i server).link? j = some l ∧ l.source = id
      rw [hlink hij]
      exact h.pending j (List.mem_cons_of_mem _ hj) }

/-- A new constant comes to serve a demand. -/
theorem addServer (h : Share.Sound g later id n rest s) (hconst : n.gate.isConstant = true)
    {d : Demand} (hd : d.2 = n.state.strength) :
    Share.Sound g later id n rest
      { s with
        circuit := s.circuit.addNode (.constant n.state.strength)
        servers := (d, s.circuit.nodeBound) :: s.servers } := by
  have hregular := h.refines.regular
  exact {
    refines := h.refines.trans (.addConstant hregular ((hregular.nodes h.node).constant_le hconst))
    served := by
      intro d' server hmem
      rcases List.mem_cons.mp hmem with heq | hmem
      · cases heq
        refine ⟨.constant n.state.strength, ?_, rfl, hd.symm⟩
        change (s.circuit.addNode _).node? _ = _
        rw [node?_addNode, if_pos rfl]
      · obtain ⟨m, hm, hrest⟩ := h.served hmem
        exact ⟨m, node?_addNode_of_node? hm _, hrest⟩
    apart := by
      intro d' server hmem
      rcases List.mem_cons.mp hmem with heq | hmem
      · cases heq
        intro hlater
        exact Nat.lt_irrefl _
          (Nat.lt_of_lt_of_le (h.known _ hlater) h.refines.lineage.nodeBound_le)
      · exact h.apart hmem
    known := h.known
    node := node?_addNode_of_node? h.node _
    self := by
      intro d' hmem
      rcases List.mem_cons.mp hmem with heq | hmem
      · -- the new constant has a new name
        have hid : id = s.circuit.nodeBound := congrArg Prod.snd heq
        exact absurd hid (ne_nodeBound_of_node? h.node)
      · exact h.self hmem
    stays := by
      intro hserves
      obtain ⟨j, hj, hnot⟩ := h.stays hserves
      refine ⟨j, ?_, hnot⟩
      change j ∈ (s.circuit.addNode _).outputs id
      rw [outputs_addNode]
      exact hj
    pending := h.pending }

/-- The constant itself serves a demand, by the link that is looked at. -/
theorem serve (h : Share.Sound g later id n (i :: rest) s) (hnodup : (i :: rest).Nodup)
    (hlater : id ∉ later) (hconst : n.gate.isConstant = true) {d : Demand}
    (hd : d.2 = n.state.strength) :
    Share.Sound g later id n rest { s with servers := (d, id) :: s.servers, serves := true } where
  refines := h.refines
  served := by
    intro d' server hmem
    rcases List.mem_cons.mp hmem with heq | hmem
    · cases heq
      exact ⟨n, h.node, hconst, hd.symm⟩
    · exact h.served hmem
  apart := by
    intro d' server hmem
    rcases List.mem_cons.mp hmem with heq | hmem
    · cases heq
      exact hlater
    · exact h.apart hmem
  known := h.known
  node := h.node
  self := fun _ => rfl
  stays := by
    intro _
    obtain ⟨l, hl, hsource⟩ := h.pending i List.mem_cons_self
    refine ⟨i, ?_, (List.nodup_cons.mp hnodup).1⟩
    exact h.refines.regular.wellFormed.mem_outputs_iff.mpr ⟨l, hl, hsource⟩
  pending := fun j hj => h.pending j (List.mem_cons_of_mem _ hj)

theorem shareLink (h : Share.Sound g later id n (i :: rest) s) (hnodup : (i :: rest).Nodup)
    (hlater : id ∉ later) (hconst : n.gate.isConstant = true) (part : NodeId → Nat) :
    Share.Sound g later id n rest (shareLink part id n.state.strength s i) := by
  rcases shareLink_cases part id n.state.strength s i with
    ⟨heq, -⟩ | ⟨l, -, ⟨server, hlookup, -, heq⟩ | ⟨-, ⟨-, heq⟩ | ⟨-, heq⟩⟩⟩
  · rw [heq]
    exact h.skip
  · rw [heq]
    exact h.move hnodup hconst (mem_of_lookup_eq_some hlookup) rfl
  · rw [heq]
    exact (h.addServer hconst (d := (part l.target, n.state.strength)) rfl).move hnodup hconst
      (d := (part l.target, n.state.strength)) List.mem_cons_self rfl
  · rw [heq]
    exact h.serve hnodup hlater hconst rfl

theorem foldl_shareLink (h : Share.Sound g later id n rest s) (hnodup : rest.Nodup)
    (hlater : id ∉ later) (hconst : n.gate.isConstant = true) (part : NodeId → Nat) :
    Share.Sound g later id n []
      (rest.foldl (Optimize.shareLink part id n.state.strength) s) := by
  induction rest generalizing s with
  | nil => exact h
  | cons i rest ih => exact ih (h.shareLink hnodup hlater hconst part) (List.nodup_cons.mp hnodup).2

end Share.Sound

namespace Sharing.Sound

variable {later : List NodeId} {id : NodeId} {n : Node} {s : Sharing}

/-- The links of a constant are looked at. -/
theorem share (h : Sharing.Sound g (id :: later) s) (hn : s.circuit.node? id = some n) :
    Share.Sound g later id n (s.circuit.outputs id) { s with serves := false, moved := false } where
  refines := h.refines
  served := h.served
  apart := fun hmem hlater => h.apart hmem (List.mem_cons_of_mem _ hlater)
  known := fun j hj => h.known j (List.mem_cons_of_mem _ hj)
  node := hn
  self := fun hmem => absurd List.mem_cons_self (h.apart hmem)
  stays := nofun
  pending := fun _ hi => h.refines.regular.wellFormed.mem_outputs_iff.mp hi

theorem shareConstant (h : Sharing.Sound g (id :: later) s) (hlater : id ∉ later)
    (hn : s.circuit.node? id = some n) (hsharable : isSharable n = true) (part : NodeId → Nat) :
    Sharing.Sound g later (shareConstant part id n.state.strength s).1 := by
  rw [isSharable, Bool.and_eq_true] at hsharable
  obtain ⟨hconst, hrole⟩ := hsharable
  have hshare := (h.share hn).foldl_shareLink (h.refines.regular.wellFormed.outputs_nodup id)
    hlater hconst part
  rcases shareConstant_cases part id n.state.strength s with heq | ⟨-, hbare, heq⟩
  · rw [heq]
    exact hshare.toSound
  rw [heq]
  have hregular := hshare.refines.regular
  refine ⟨hshare.refines.trans (.removeNode hregular hshare.node hrole fun _ _ hl =>
    hregular.wellFormed.source_ne hbare hl), ?_, hshare.apart, hshare.known⟩
  intro d server hmem
  -- a constant that serves has an output, so that it is not the removed one
  have hne : id ≠ server := by
    rintro rfl
    obtain ⟨i, hi, -⟩ := hshare.stays (hshare.self hmem)
    rw [hbare] at hi
    cases hi
  obtain ⟨m, hm, hrest⟩ := hshare.served hmem
  refine ⟨m, ?_, hrest⟩
  change (Circuit.removeNode _ id).node? server = some m
  rw [node?_removeNode, if_neg hne, hm]

/-- The sharing goes on with the next node. -/
theorem shareNode (part : NodeId → Nat) {acc : Sharing × Nat}
    (h : Sharing.Sound g (id :: later) acc.1) (hlater : id ∉ later) :
    Sharing.Sound g later (shareNode part acc id).1 := by
  have hskip : Sharing.Sound g later acc.1 :=
    ⟨h.refines, h.served, fun hmem hlater => h.apart hmem (List.mem_cons_of_mem _ hlater),
      fun j hj => h.known j (List.mem_cons_of_mem _ hj)⟩
  rcases shareNode_cases part acc id with ⟨heq, -⟩ | ⟨n, hn, hsharable, heq⟩
  · rw [heq]
    exact hskip
  · rw [heq]
    exact h.shareConstant hlater hn hsharable part

theorem foldl_shareNode (part : NodeId → Nat) (acc : Sharing × Nat)
    (h : Sharing.Sound g later acc.1) (hnodup : later.Nodup) :
    Sharing.Sound g [] (later.foldl (Optimize.shareNode part) acc).1 := by
  induction later generalizing acc with
  | nil => exact h
  | cons id later ih =>
      obtain ⟨hlater, hnodup⟩ := List.nodup_cons.mp hnodup
      exact ih _ (h.shareNode part hlater) hnodup

theorem start (h : g.Regular) : Sharing.Sound g g.nodeIds { circuit := g, servers := [] } where
  refines := .refl h
  served := nofun
  apart := nofun
  known := fun _ hid => lt_nodeBound_of_contains (mem_nodeIds.mp hid)

end Sharing.Sound

theorem refines_shareConstants (h : g.Regular) : Refines g (shareConstants g).circuit :=
  (Sharing.Sound.foldl_shareNode (components g).root (_, 0) (Sharing.Sound.start h)
    g.nodeIds_nodup).refines

end Redstone.Optimize
