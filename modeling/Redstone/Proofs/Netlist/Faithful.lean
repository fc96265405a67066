import Redstone.Proofs.Netlist.Forward
import Redstone.Proofs.Netlist.Steady

/-!
# Netlists are faithful

A circuit has a netlist unless a link loses more than the greatest strength.  The netlist tells of
every node what the circuit tells of it, under the number of the node, and both give the node the
same power.  Its links are held three times, as inputs, as outputs and as forward links, and all
three agree.
-/

namespace Redstone

/-- Outputs and inputs of a netlist tell of the same links. -/
def Netlist.Reciprocal (net : Netlist) : Prop :=
  ∀ {i j : Nat} {node node' : NetNode}, net.nodes[i]? = some node → net.nodes[j]? = some node' →
    ((∃ o ∈ node.outputs, o.toNat = j) ↔ ∃ input ∈ node'.inputs, input.source.toNat = i)

/-- The netlist has been made from a circuit or read from an artifact. -/
inductive Netlist.Produced : Netlist → Prop where
  | flatten {g : Circuit} {net : Netlist} (h : g.WellFormed) (hflat : g.flatten = .ok net) :
      Produced net
  | decode {b : Bytes} {net : Netlist} (hread : Artifact.decode b = .ok net) : Produced net

namespace Circuit

/-- The input of a netlist with the nodes `ids` is the given link. -/
structure InputOf (ids : List NodeId) (l : Link) (i : NetInput) : Prop where
  channel : i.channel = l.channel
  loss : i.loss = l.loss
  source : ids[i.source.toNat]? = some l.source

/-- Node `k` of the netlist stands for the node `id` of the circuit: it has the same gate, state,
roles and blocks, the links that end there are its inputs, the ends of the links that start there
are its outputs, each where it comes first, and the power there is the same. -/
structure Represents (g : Circuit) (id : NodeId) (net : Netlist) (k : Nat) (node : NetNode) :
    Prop where
  node? : g.node? id = some node.toNode
  getElem? : net.nodes[k]? = some node
  inputs : List.Forall₂ (InputOf g.nodeIds) (g.inLinks id) node.inputs
  inputPower : net.inputPower k = .ok (g.inputPower id)
  outputs : List.Forall₂ (fun target o => g.nodeIds[o.toNat]? = some target)
    ((g.outLinks id).map Link.target).eraseDups node.outputs
  outputs_nodup : node.outputs.Nodup

variable {g : Circuit} {net : Netlist}

/-! ## Which circuits have a netlist -/

theorem of_mapM_eq_ok {α β ε : Type} {f : α → Except ε β} {xs : List α} {ys : List β}
    (h : xs.mapM f = .ok ys) : ∀ x ∈ xs, ∃ y, f x = .ok y := by
  induction xs generalizing ys with
  | nil => exact fun x hx => absurd hx List.not_mem_nil
  | cons first xs ih =>
      rw [List.mapM_cons] at h
      obtain ⟨y, hy, h⟩ := Artifact.bind_eq_ok_iff.mp h
      obtain ⟨ys, hys, -⟩ := Artifact.bind_eq_ok_iff.mp h
      intro x hx
      rcases List.mem_cons.mp hx with rfl | hx
      · exact ⟨y, hy⟩
      · exact ih hys x hx

/-- A circuit with a netlist has no link with an excessive loss. -/
theorem WellFormed.loss_le_of_flatten (h : g.WellFormed) (hflat : g.flatten = .ok net)
    {i : LinkId} {l : Link} (hl : g.link? i = some l) : l.loss ≤ maxStrength := by
  have hcount := length_nodeIds_le_of_flatten hflat
  unfold flatten at hflat
  dsimp only at hflat
  rw [if_neg (Nat.not_lt.mpr hcount)] at hflat
  obtain ⟨nodes, hnodes, -⟩ := Artifact.bind_eq_ok_iff.mp hflat
  obtain ⟨n, hn⟩ := contains_iff.mp (h.contains_target hl)
  obtain ⟨node, hnode⟩ := of_mapM_eq_ok hnodes (l.target, n) (mem_nodes.mpr hn)
  obtain ⟨inputs, hinputs, -⟩ := Artifact.bind_eq_ok_iff.mp hnode
  obtain ⟨input, hinput⟩ := of_mapM_eq_ok hinputs l (h.mem_inLinks_iff.mpr ⟨i, hl, rfl⟩)
  by_contra hloss
  rw [flattenLink, if_pos (UInt8.not_le.mp hloss)] at hinput
  cases hinput

/-- Only excessive losses keep a circuit that is not too large from having a netlist. -/
theorem WellFormed.flatten_eq_error_iff (h : g.WellFormed)
    (hcount : g.nodeIds.length ≤ ForwardLink.maxNodes) :
    (∃ e, g.flatten = .error e) ↔ ∃ i l, g.link? i = some l ∧ maxStrength < l.loss := by
  constructor
  · rintro ⟨e, he⟩
    by_contra hnone
    have hloss {i : LinkId} {l : Link} (hl : g.link? i = some l) : l.loss ≤ maxStrength := by
      by_contra hgt
      exact hnone ⟨i, l, hl, UInt8.not_le.mp hgt⟩
    rw [flatten_eq hloss hcount] at he
    cases he
  · rintro ⟨i, l, hl, hgt⟩
    cases hflat : g.flatten with
    | error e => exact ⟨e, rfl⟩
    | ok net => exact absurd (h.loss_le_of_flatten hflat hl) (UInt8.not_le.mpr hgt)

/-! ## The nodes of the netlist -/

theorem getElem?_toNat_netIndex (hcount : g.nodeIds.length ≤ ForwardLink.maxNodes) {id : NodeId}
    (hid : g.contains id = true) : g.nodeIds[(netIndex g.nodeIds id).toNat]? = some id := by
  rw [toNat_netIndex hcount hid]
  exact List.getElem?_idxOf (mem_nodeIds.mpr hid)

theorem idxOf_nodeIds {k : Nat} {id : NodeId} (hk : g.nodeIds[k]? = some id) :
    g.nodeIds.idxOf id = k := by
  obtain ⟨hlt, hget⟩ := List.getElem?_eq_some_iff.mp hk
  rw [← hget]
  exact g.nodeIds_nodup.idxOf_getElem k hlt

theorem toNat_netIndex_eq_iff (hcount : g.nodeIds.length ≤ ForwardLink.maxNodes) {k : Nat}
    {id id' : NodeId} (hk : g.nodeIds[k]? = some id) (hid' : g.contains id' = true) :
    (netIndex g.nodeIds id').toNat = k ↔ id' = id := by
  constructor
  · rintro rfl
    rw [getElem?_toNat_netIndex hcount hid', Option.some.injEq] at hk
    exact hk
  · rintro rfl
    rw [toNat_netIndex hcount hid', idxOf_nodeIds hk]

theorem WellFormed.forall₂_inputOf (h : g.WellFormed)
    (hcount : g.nodeIds.length ≤ ForwardLink.maxNodes) (id : NodeId) :
    List.Forall₂ (InputOf g.nodeIds) (g.inLinks id)
      ((g.inLinks id).map (flatInput g.nodeIds)) := by
  rw [List.forall₂_map_right_iff, List.forall₂_same]
  intro l hl
  obtain ⟨i, hi, -⟩ := h.mem_inLinks_iff.mp hl
  exact ⟨rfl, rfl, getElem?_toNat_netIndex hcount (h.contains_source hi)⟩

theorem nodup_eraseDups {α : Type} [BEq α] [LawfulBEq α] (xs : List α) : xs.eraseDups.Nodup := by
  match xs with
  | [] => exact List.nodup_nil
  | x :: xs =>
      rw [List.eraseDups_cons, List.nodup_cons]
      refine ⟨fun hx => ?_, nodup_eraseDups _⟩
      have hne := (List.mem_filter.mp (List.mem_eraseDups.mp hx)).2
      simp at hne
termination_by xs.length
decreasing_by exact Nat.lt_succ_of_le (List.length_filter_le _ _)

theorem WellFormed.contains_of_mem_successors (h : g.WellFormed) {id target : NodeId}
    (htarget : target ∈ g.successors id) : g.contains target = true := by
  obtain ⟨l, hl, rfl⟩ := List.mem_map.mp (List.mem_eraseDups.mp htarget)
  obtain ⟨i, hi, -⟩ := h.mem_outLinks_iff.mp hl
  exact h.contains_target hi

theorem WellFormed.mem_successors_iff (h : g.WellFormed) {id target : NodeId} :
    target ∈ g.successors id ↔ ∃ i l, g.link? i = some l ∧ l.source = id ∧ l.target = target := by
  unfold successors
  rw [List.mem_eraseDups, List.mem_map]
  constructor
  · rintro ⟨l, hl, rfl⟩
    obtain ⟨i, hi, hsource⟩ := h.mem_outLinks_iff.mp hl
    exact ⟨i, l, hi, hsource, rfl⟩
  · rintro ⟨i, l, hi, hsource, rfl⟩
    exact ⟨l, h.mem_outLinks_iff.mpr ⟨i, hi, hsource⟩, rfl⟩

/-- The strengths of the netlist are those of the circuit. -/
theorem readBack_flatten (hloss : ∀ {i l}, g.link? i = some l → l.loss ≤ maxStrength)
    (hflat : g.flatten = .ok net) {id : NodeId} (hid : g.contains id = true) :
    g.readBack net id = g.strength id := by
  obtain ⟨n, hn⟩ := contains_iff.mp hid
  obtain ⟨links, hnode⟩ := getElem?_flatten_of_node? hloss hflat hn
  rw [readBack, Netlist.strength, hnode, strength, hn]
  rfl

theorem WellFormed.inputPower_flatten (h : g.WellFormed) (hflat : g.flatten = .ok net)
    {id : NodeId} (hid : g.contains id = true) :
    net.inputPower (g.nodeIds.idxOf id) = .ok (g.inputPower id) := by
  have hloss {i : LinkId} {l : Link} (hl : g.link? i = some l) : l.loss ≤ maxStrength :=
    h.loss_le_of_flatten hflat hl
  obtain ⟨n, hn⟩ := contains_iff.mp hid
  obtain ⟨links, hnode⟩ := getElem?_flatten_of_node? hloss hflat hn
  have hpower : net.inputPower? (g.nodeIds.idxOf id) = some (g.powerUnder (g.readBack net) id) := by
    rw [Netlist.inputPower?, hnode, Option.map_some,
      ← powerOf_flatInputs (length_nodeIds_le_of_flatten hflat) h]
    rfl
  have hunder : g.powerUnder (g.readBack net) id = g.inputPower id := by
    unfold inputPower powerUnder powerOf
    refine List.foldl_ext _ _ _ fun p l hl => ?_
    obtain ⟨i, hi, -⟩ := h.mem_inLinks_iff.mp hl
    rw [readBack_flatten hloss hflat (h.contains_source hi)]
  rw [Netlist.inputPower, hpower, hunder]

theorem WellFormed.exists_represents (h : g.WellFormed) (hflat : g.flatten = .ok net) {k : Nat}
    {id : NodeId} (hk : g.nodeIds[k]? = some id) : ∃ node, g.Represents id net k node := by
  have hcount := length_nodeIds_le_of_flatten hflat
  have hid : g.contains id = true := mem_nodeIds.mp (List.mem_of_getElem? hk)
  have hidx := idxOf_nodeIds hk
  obtain ⟨n, hn⟩ := contains_iff.mp hid
  obtain ⟨links, hnode⟩ := getElem?_flatten_of_node? (h.loss_le_of_flatten hflat) hflat hn
  rw [hidx] at hnode
  exact ⟨_, {
    node? := hn
    getElem? := hnode
    inputs := h.forall₂_inputOf hcount id
    inputPower := hidx ▸ h.inputPower_flatten hflat hid
    outputs := by
      change List.Forall₂ _ (g.successors id) ((g.successors id).map (netIndex g.nodeIds))
      rw [List.forall₂_map_right_iff, List.forall₂_same]
      exact fun target htarget =>
        getElem?_toNat_netIndex hcount (h.contains_of_mem_successors htarget)
    outputs_nodup := by
      refine (nodup_eraseDups _).map_on fun a ha b hb heq => ?_
      have hb' := getElem?_toNat_netIndex hcount (h.contains_of_mem_successors hb)
      exact (toNat_netIndex_eq_iff hcount hb' (h.contains_of_mem_successors ha)).mp
        (congrArg UInt32.toNat heq) }⟩

/-- Every node of the netlist stands for a node of the circuit. -/
theorem exists_of_getElem?_flatten (hloss : ∀ {i l}, g.link? i = some l → l.loss ≤ maxStrength)
    (hflat : g.flatten = .ok net) {k : Nat} {node : NetNode} (hnode : net.nodes[k]? = some node) :
    ∃ id, g.nodeIds[k]? = some id ∧ node.inputs = (g.inLinks id).map (flatInput g.nodeIds) ∧
      node.outputs = (g.successors id).map (netIndex g.nodeIds) := by
  obtain ⟨links, heq⟩ := getElem?_flatten hloss hflat k
  rw [hnode] at heq
  obtain ⟨p, hp, rfl⟩ := Option.map_eq_some_iff.mp heq.symm
  refine ⟨p.1, ?_, rfl, rfl⟩
  rw [← map_fst_nodes, List.getElem?_map, hp]
  rfl

theorem WellFormed.reciprocal_flatten (h : g.WellFormed) (hflat : g.flatten = .ok net) :
    net.Reciprocal := by
  have hcount := length_nodeIds_le_of_flatten hflat
  intro i j node node' hi hj
  obtain ⟨id, hid, -, houtputs⟩ := exists_of_getElem?_flatten (h.loss_le_of_flatten hflat) hflat hi
  obtain ⟨id', hid', hinputs, -⟩ := exists_of_getElem?_flatten (h.loss_le_of_flatten hflat) hflat hj
  rw [houtputs, hinputs]
  constructor
  · rintro ⟨o, ho, hoj⟩
    obtain ⟨target, htarget, rfl⟩ := List.mem_map.mp ho
    rw [toNat_netIndex_eq_iff hcount hid' (h.contains_of_mem_successors htarget)] at hoj
    obtain ⟨e, l, hl, hsource, rfl⟩ := h.mem_successors_iff.mp htarget
    refine ⟨_, List.mem_map.mpr ⟨l, h.mem_inLinks_iff.mpr ⟨e, hl, hoj⟩, rfl⟩, ?_⟩
    exact (toNat_netIndex_eq_iff hcount hid (h.contains_source hl)).mpr hsource
  · rintro ⟨input, hinput, hsource⟩
    obtain ⟨l, hl, rfl⟩ := List.mem_map.mp hinput
    obtain ⟨e, hl, htarget⟩ := h.mem_inLinks_iff.mp hl
    have hsource' : l.source = id :=
      (toNat_netIndex_eq_iff hcount hid (h.contains_source hl)).mp hsource
    have hsucc : l.target ∈ g.successors id := h.mem_successors_iff.mpr ⟨e, l, hl, hsource', rfl⟩
    refine ⟨_, List.mem_map.mpr ⟨l.target, hsucc, rfl⟩, ?_⟩
    exact (toNat_netIndex_eq_iff hcount hid' (h.contains_target hl)).mpr htarget

/-! ## The links of the netlist -/

theorem size_flatten (hloss : ∀ {i l}, g.link? i = some l → l.loss ≤ maxStrength)
    (hflat : g.flatten = .ok net) : net.size = g.nodeIds.length := by
  rw [flatten_eq hloss (length_nodeIds_le_of_flatten hflat), Except.ok.injEq] at hflat
  subst hflat
  simp [Netlist.relink, Netlist.size, length_flatNodes]

theorem WellFormed.linked_flatten (h : g.WellFormed) (hflat : g.flatten = .ok net) :
    net.Linked := by
  have hcount := length_nodeIds_le_of_flatten hflat
  have hsize := size_flatten (h.loss_le_of_flatten hflat) hflat
  -- an input of the netlist is a link of the circuit
  have hinput {node : NetNode} (hnode : node ∈ net.nodes) {i : NetInput} (hi : i ∈ node.inputs) :
      ∃ e l, g.link? e = some l ∧ i = flatInput g.nodeIds l := by
    obtain ⟨k, hk⟩ := Array.mem_iff_getElem?.mp hnode
    obtain ⟨id, -, hinputs, -⟩ := exists_of_getElem?_flatten (h.loss_le_of_flatten hflat) hflat hk
    rw [hinputs] at hi
    obtain ⟨l, hl, rfl⟩ := List.mem_map.mp hi
    obtain ⟨e, he, -⟩ := h.mem_inLinks_iff.mp hl
    exact ⟨e, l, he, rfl⟩
  exact {
    size_le := hsize ▸ hcount
    source_lt := by
      intro node hnode i hi
      obtain ⟨e, l, hl, rfl⟩ := hinput hnode hi
      rw [hsize]
      exact netIndex_lt hcount (h.contains_source hl)
    loss_le := by
      intro node hnode i hi
      obtain ⟨e, l, hl, rfl⟩ := hinput hnode hi
      exact h.loss_le_of_flatten hflat hl
    relink_eq := by
      rw [flatten_eq (h.loss_le_of_flatten hflat) hcount, Except.ok.injEq] at hflat
      rw [← hflat, Netlist.relink_relink] }

end Circuit

theorem Netlist.Produced.linked {net : Netlist} (h : net.Produced) : net.Linked := by
  cases h with
  | flatten h hflat => exact h.linked_flatten hflat
  | decode hread => exact (Artifact.valid_of_decodeWith hread).toLinked

namespace Circuit

/-- A circuit that is not too large has a netlist unless a link loses too much, and then every node
of it is represented under its number, with outputs and inputs that agree.  In whatever way a
netlist has come about, its forward links are its inputs once more, and pushing power along them
brings to each node what it pulls from its inputs. -/
theorem flatten_is_faithful {g : Circuit} (h : g.WellFormed)
    (hcount : g.nodeIds.length ≤ ForwardLink.maxNodes) :
    ((∃ e, g.flatten = .error e) ↔ ∃ i l, g.link? i = some l ∧ maxStrength < l.loss) ∧
    (∀ net, g.flatten = .ok net →
      net.size = g.nodeIds.length ∧
      (∀ k id, g.nodeIds[k]? = some id → ∃ node, g.Represents id net k node) ∧
      net.Reciprocal) ∧
    ∀ net : Netlist, net.Produced →
      net.forwardWires.Perm net.inputWires ∧
      ∀ k < net.size, ∃ p, net.inputPower k = .ok p ∧ net.pushPower[k]? = some p := by
  refine ⟨h.flatten_eq_error_iff hcount, fun net hflat => ⟨?_, ?_, ?_⟩, fun net hnet => ⟨?_, ?_⟩⟩
  · exact size_flatten (h.loss_le_of_flatten hflat) hflat
  · exact fun k id hk => h.exists_represents hflat hk
  · exact h.reciprocal_flatten hflat
  · exact hnet.linked.forwardWires_perm
  · intro k hk
    have hpower : net.inputPower? k = some (Netlist.powerOf net.strength net.nodes[k].inputs) := by
      rw [Netlist.inputPower?, Array.getElem?_eq_getElem hk, Option.map_some]
    refine ⟨_, ?_, (hnet.linked.getElem?_pushPower k).trans hpower⟩
    rw [Netlist.inputPower, hpower]

/-- A source feeds a comparator from behind and, twice, from its side, with the greatest loss that
there is; a node before them has been removed. -/
def sidelong : Circuit :=
  empty
    |>.addNode { gate := .plain .torch }
    |>.addNode (.constant 15)
    |>.addNode { gate := .plain .comparator }
    |>.addLink { source := 1, target := 2, channel := .side, loss := 15 }
    |>.addLink { source := 1, target := 2, channel := .main, loss := 3 }
    |>.addLink { source := 1, target := 2, channel := .side, loss := 2 }
    |>.removeNode 0

/-- The two nodes are numbered from zero, and the comparator has the power that is pushed to it. -/
theorem flatten_is_faithful_sidelong :
    sidelong.WellFormed ∧ sidelong.nodeIds = [1, 2] ∧
      ∃ net, sidelong.flatten = .ok net ∧
        (∃ node, sidelong.Represents 2 net 1 node) ∧ net.Reciprocal ∧
        net.forwardWires.Perm net.inputWires ∧
        net.pushPower[1]? = some { main := 12, side := 13 } := by
  have hwf : sidelong.WellFormed :=
    WellFormed.empty
      |>.addNode _ |>.addNode _ |>.addNode _ |>.addLink _ |>.addLink _ |>.addLink _ |>.removeNode _
  obtain ⟨-, hok, hlinks⟩ := flatten_is_faithful hwf (by decide +kernel)
  obtain ⟨-, hnodes, hreciprocal⟩ := hok _ rfl
  exact ⟨hwf, by decide +kernel, _, rfl, hnodes 1 2 (by decide +kernel), hreciprocal,
    (hlinks _ (.flatten hwf rfl)).1, by decide +kernel⟩

end Circuit

end Redstone
