import Mathlib.Data.List.Perm.Basic
import Mathlib.Data.Nat.Bitwise
import Redstone.Proofs.Artifact.RoundTrip
import Redstone.Proofs.Circuit.Power

/-!
# Forward links and inputs

A netlist holds its links twice: as the inputs of their targets, and packed as the forward links of
their sources.  Read back from either place they are the same links.  Therefore power may be pulled
from the inputs of a node or pushed along the forward links of all nodes: what arrives is the same.
-/

namespace Redstone

/-! ## Signals that arrive one after the other -/

theorem Power.receive_comm (p : Power) (c c' : Channel) (s s' : UInt8) :
    (p.receive c s).receive c' s' = (p.receive c' s').receive c s := by
  apply Power.ext_at
  intro side
  apply eq_of_forall_le_iff
  intro a _
  simp only [Power.at_receive]
  split <;> split <;> simp only [le_max_iff, or_assoc, or_comm (a := a ≤ s)]

theorem Power.receive_congr_isSide (p : Power) {c c' : Channel} (h : c.isSide = c'.isSide)
    (s : UInt8) : p.receive c s = p.receive c' s := by
  apply Power.ext_at
  intro side
  rw [Power.at_receive, Power.at_receive, h]

/-! ## Packing a link -/

namespace ForwardLink

/-- The fields of a forward link do not overlap. -/
theorem toNat_word_pack {target : UInt32} (side : Bool) {loss : UInt8}
    (htarget : target.toNat < maxNodes) (hloss : loss ≤ maxStrength) :
    (pack target side loss).word.toNat =
      target.toNat * 2 ^ 5 + (side.toNat * 2 ^ 4 + loss.toNat) := by
  have hloss' : loss.toNat < 2 ^ 4 := Nat.lt_succ_of_le (UInt8.le_iff_toNat_le.mp hloss)
  have hlow : (loss &&& 0xF).toUInt32.toNat = loss.toNat := by
    rw [UInt8.toNat_toUInt32, UInt8.toNat_and]
    exact (Nat.and_two_pow_sub_one_eq_mod _ 4).trans (Nat.mod_eq_of_lt hloss')
  have hflag : (if side then sideFlag else 0).toNat = side.toNat * 2 ^ 4 := by
    cases side <;> rfl
  have hhigh : (target <<< 5).toNat = target.toNat <<< 5 := by
    have hlt : target.toNat <<< 5 < 2 ^ 32 := by
      rw [Nat.shiftLeft_eq]
      unfold maxNodes at htarget
      omega
    rw [UInt32.toNat_shiftLeft]
    exact Nat.mod_eq_of_lt hlt
  have hlower : (loss.toNat ||| side.toNat * 2 ^ 4) = side.toNat * 2 ^ 4 + loss.toNat := by
    rw [Nat.or_comm, ← Nat.shiftLeft_eq, ← Nat.shiftLeft_add_eq_or_of_lt hloss']
  have hside := side.toNat_lt
  unfold pack
  rw [UInt32.toNat_or, UInt32.toNat_or, hlow, hflag, hhigh, Nat.or_assoc, hlower,
    ← Nat.shiftLeft_add_eq_or_of_lt (by omega), Nat.shiftLeft_eq]

variable {t : UInt32} (s : Bool) {w : UInt8}

theorem target_pack (ht : t.toNat < maxNodes) (hw : w ≤ maxStrength) :
    (pack t s w).target = t := by
  have hw' : w.toNat ≤ 15 := UInt8.le_iff_toNat_le.mp hw
  have hs := s.toNat_lt
  apply UInt32.toNat_inj.mp
  rw [target, UInt32.toNat_shiftRight, toNat_word_pack s ht hw, Nat.shiftRight_eq_div_pow]
  change _ / 2 ^ 5 = _
  omega

theorem side_pack (ht : t.toNat < maxNodes) (hw : w ≤ maxStrength) : (pack t s w).side = s := by
  have hw' : w.toNat ≤ 15 := UInt8.le_iff_toNat_le.mp hw
  have hbit : ((pack t s w).word &&& sideFlag).toNat = s.toNat * 2 ^ 4 := by
    rw [UInt32.toNat_and, toNat_word_pack s ht hw]
    change _ &&& 2 ^ 4 = _
    rw [Nat.and_two_pow, Nat.testBit_eq_decide_div_mod_eq]
    cases s with
    | false => rw [decide_eq_false (by simp; omega)]
    | true => rw [decide_eq_true (by simp; omega)]
  rw [side, Bool.eq_iff_iff, bne_iff_ne, ne_eq, ← UInt32.toNat_inj, hbit]
  cases s <;> decide

theorem loss_pack (ht : t.toNat < maxNodes) (hw : w ≤ maxStrength) : (pack t s w).loss = w := by
  have hw' : w.toNat ≤ 15 := UInt8.le_iff_toNat_le.mp hw
  apply UInt8.toNat_inj.mp
  rw [loss, UInt32.toNat_toUInt8, UInt32.toNat_and, toNat_word_pack s ht hw]
  change (_ &&& (2 ^ 4 - 1)) % 2 ^ 8 = _
  rw [Nat.and_two_pow_sub_one_eq_mod]
  omega

end ForwardLink

namespace Netlist

/-! ## The links of a netlist, read from both ends -/

/-- A link of a netlist, written out. -/
structure Wire where
  source : Nat
  target : Nat
  side : Bool
  loss : UInt8
deriving DecidableEq, Repr

/-- The link that an input of node `target` stands for. -/
def Wire.ofInput (target : Nat) (i : NetInput) : Wire where
  source := i.source.toNat
  target
  side := i.channel == .side
  loss := i.loss

/-- The link that a forward link of node `source` stands for. -/
def Wire.ofForwardLink (source : Nat) (l : ForwardLink) : Wire where
  source
  target := l.target.toNat
  side := l.side
  loss := l.loss

/-- The links, read from the inputs. -/
def inputWires (n : Netlist) : List Wire :=
  n.wires.map fun w => .ofInput w.1 w.2

/-- The links, read from the forward links. -/
def forwardWires (n : Netlist) : List Wire :=
  n.nodes.toList.zipIdx.flatMap fun p => p.1.links.map (.ofForwardLink p.2)

/-- The inputs stay within what a forward link can hold, and the forward links are those that the
inputs give. -/
structure Linked (n : Netlist) : Prop where
  size_le : n.size ≤ ForwardLink.maxNodes
  source_lt : ∀ node ∈ n.nodes, ∀ i ∈ node.inputs, i.source.toNat < n.size
  loss_le : ∀ node ∈ n.nodes, ∀ i ∈ node.inputs, i.loss ≤ maxStrength
  relink_eq : n.relink = n

theorem Valid.toLinked {n : Netlist} (h : n.Valid) : n.Linked where
  size_le := h.size_le
  source_lt node hnode := (h.nodes node hnode).source_lt
  loss_le node hnode := (h.nodes node hnode).loss_le
  relink_eq := h.linked

variable {n : Netlist}

theorem mem_wires_iff {index : Nat} {i : NetInput} :
    (index, i) ∈ n.wires ↔ ∃ node, n.nodes[index]? = some node ∧ i ∈ node.inputs := by
  unfold wires
  rw [List.mem_flatMap]
  constructor
  · rintro ⟨⟨node, k⟩, hnode, hi⟩
    obtain ⟨i', hi', heq⟩ := List.mem_map.mp hi
    cases heq
    rw [List.mem_zipIdx_iff_getElem?, Array.getElem?_toList] at hnode
    exact ⟨node, hnode, hi'⟩
  · rintro ⟨node, hnode, hi⟩
    refine ⟨(node, index), ?_, List.mem_map.mpr ⟨i, hi, rfl⟩⟩
    rw [List.mem_zipIdx_iff_getElem?, Array.getElem?_toList]
    exact hnode

theorem Linked.of_mem_wires (h : n.Linked) {w : Nat × NetInput} (hw : w ∈ n.wires) :
    w.1 < n.size ∧ w.2.source.toNat < n.size ∧ w.2.loss ≤ maxStrength := by
  obtain ⟨node, hnode, hi⟩ := mem_wires_iff.mp hw
  have hmem := Array.mem_of_getElem? hnode
  exact ⟨(Array.getElem?_eq_some_iff.mp hnode).1, h.source_lt node hmem _ hi,
    h.loss_le node hmem _ hi⟩

/-- Packing the link of an input and reading it back gives the link. -/
theorem Linked.ofForwardLink_forward (h : n.Linked) {w : Nat × NetInput} (hw : w ∈ n.wires) :
    Wire.ofForwardLink w.2.source.toNat (forward w.1 w.2) = .ofInput w.1 w.2 := by
  obtain ⟨hindex, -, hloss⟩ := h.of_mem_wires hw
  have hindex' : (UInt32.ofNat w.1).toNat = w.1 := by
    refine UInt32.toNat_ofNat_of_lt (Nat.lt_of_lt_of_le hindex (Nat.le_trans h.size_le ?_))
    decide
  have hfits : (UInt32.ofNat w.1).toNat < ForwardLink.maxNodes :=
    hindex'.symm ▸ Nat.lt_of_lt_of_le hindex h.size_le
  unfold Wire.ofForwardLink Wire.ofInput forward
  rw [ForwardLink.target_pack _ hfits hloss, ForwardLink.side_pack _ hfits hloss,
    ForwardLink.loss_pack _ hfits hloss, hindex']

/-! ## Sorting links by their sources -/

/-- The links with a given source end up in its list, in their order. -/
theorem getElem?_foldr_modify (ws : List (Nat × NetInput)) (lists : Array (List ForwardLink))
    (k : Nat) :
    (ws.foldr (fun w lists => lists.modify w.2.source.toNat (forward w.1 w.2 :: ·)) lists)[k]? =
      lists[k]?.map
        (((ws.filter fun w => w.2.source.toNat == k).map fun w => forward w.1 w.2) ++ ·) := by
  induction ws with
  | nil => simp
  | cons w ws ih =>
      rw [List.foldr_cons, Array.getElem?_modify, ih, List.filter_cons]
      by_cases hk : w.2.source.toNat = k
      · rw [if_pos hk, if_pos (beq_iff_eq.mpr hk), Option.map_map]
        rfl
      · rw [if_neg hk, if_neg (by simpa using hk)]

theorem getD_forwardLinks {k : Nat} (hk : k < n.size) :
    n.forwardLinks.getD k [] =
      (n.wires.filter fun w => w.2.source.toNat == k).map fun w => forward w.1 w.2 := by
  unfold forwardLinks
  rw [Array.getD_eq_getD_getElem?, getElem?_foldr_modify, Array.getElem?_replicate, if_pos hk]
  simp

/-- Items with numbers are rearranged when they are sorted into lists by their numbers. -/
theorem flatMap_filter_perm {α : Type} (key : α → Nat) (xs : List α) (bound : Nat) :
    ((List.range bound).flatMap fun k => xs.filter fun x => key x == k).Perm
      (xs.filter fun x => key x < bound) := by
  induction bound with
  | zero => simp
  | succ bound ih =>
      have hsplit := List.filter_append_perm (fun x => decide (key x < bound))
        (xs.filter fun x => key x < bound + 1)
      rw [List.filter_filter, List.filter_filter] at hsplit
      have hlow : (xs.filter fun x => decide (key x < bound) && decide (key x < bound + 1)) =
          xs.filter fun x => key x < bound := by
        refine List.filter_congr fun x _ => ?_
        rw [Bool.eq_iff_iff]
        simp
        omega
      have hlast : (xs.filter fun x => !decide (key x < bound) && decide (key x < bound + 1)) =
          xs.filter fun x => key x == bound := by
        refine List.filter_congr fun x _ => ?_
        rw [Bool.eq_iff_iff]
        simp
        omega
      rw [hlow, hlast] at hsplit
      rw [List.range_succ, List.flatMap_append, List.flatMap_singleton]
      exact (ih.append_right _).trans hsplit

/-- The forward links of a node are its links, packed. -/
theorem Linked.links_eq (h : n.Linked) {k : Nat} {node : NetNode}
    (hnode : n.nodes[k]? = some node) :
    node.links = (n.wires.filter fun w => w.2.source.toNat == k).map fun w => forward w.1 w.2 := by
  have hk : k < n.size := (Array.getElem?_eq_some_iff.mp hnode).1
  have hrelink := h.relink_eq
  unfold relink at hrelink
  have hget := congrArg (fun m : Netlist => m.nodes[k]?) hrelink
  dsimp only at hget
  rw [Array.getElem?_mapIdx, hnode, Option.map_some, Option.some.injEq] at hget
  rw [← getD_forwardLinks hk, ← hget]

/-- Read from the forward links or from the inputs, the links are the same. -/
theorem Linked.forwardWires_perm (h : n.Linked) : n.forwardWires.Perm n.inputWires := by
  have hlinks : n.forwardWires = (List.range n.size).flatMap fun k =>
      (n.wires.filter fun w => w.2.source.toNat == k).map fun w => .ofInput w.1 w.2 := by
    have hrange : n.nodes.toList.zipIdx.map Prod.snd = List.range n.size := by
      rw [List.zipIdx_map_snd, Array.length_toList, List.range_eq_range']
      rfl
    rw [← hrange, List.flatMap_map, forwardWires]
    refine List.flatMap_congr fun p hp => ?_
    rw [List.mem_zipIdx_iff_getElem?, Array.getElem?_toList] at hp
    rw [h.links_eq hp, List.map_map]
    refine List.map_congr_left fun w hw => ?_
    obtain ⟨hmem, hsource⟩ := List.mem_filter.mp hw
    rw [Function.comp_apply, ← beq_iff_eq.mp hsource]
    exact h.ofForwardLink_forward hmem
  have hall : (n.wires.filter fun w => decide (w.2.source.toNat < n.size)) = n.wires :=
    List.filter_eq_self.mpr fun w hw => decide_eq_true (h.of_mem_wires hw).2.1
  have hperm := flatMap_filter_perm (fun w : Nat × NetInput => w.2.source.toNat) n.wires n.size
  rw [hall] at hperm
  rw [hlinks, ← List.map_flatMap]
  exact hperm.map _

/-! ## Pushing power -/

/-- A signal of the given strength is sent along a forward link. -/
def send (strength : UInt8) (powers : Array Power) (l : ForwardLink) : Array Power :=
  powers.modify l.target.toNat fun p =>
    p.receive (if l.side then .side else .main) (attenuate strength l.loss)

/-- Every node sends its strength along its forward links.  The result is the power at each
node. -/
def pushPower (n : Netlist) : Array Power :=
  n.nodes.foldl (fun powers node => node.links.foldl (send node.state.strength) powers)
    (Array.replicate n.size {})

/-- The power that a link brings to its target. -/
def Wire.carry (n : Netlist) (p : Power) (w : Wire) : Power :=
  p.receive (if w.side then .side else .main) (attenuate (n.strength w.source) w.loss)

instance (n : Netlist) : RightCommutative (Wire.carry n) :=
  ⟨fun p _ _ => p.receive_comm ..⟩

/-- The power that inputs bring is carried by their links. -/
theorem powerOf_eq_foldl_carry (n : Netlist) (inputs : List NetInput) (k : Nat) :
    powerOf n.strength inputs = (inputs.map (.ofInput k)).foldl (Wire.carry n) {} := by
  rw [List.foldl_map, powerOf]
  refine List.foldl_ext _ _ _ fun p i _ => ?_
  -- only the side channel is told apart from the others
  refine Power.receive_congr_isSide p ?_ _
  change i.channel.isSide = (if (i.channel == .side) = true then Channel.side else .main).isSide
  cases i.channel <;> rfl

theorem pushPower_eq (n : Netlist) :
    n.pushPower = n.forwardWires.foldl (fun powers w => powers.modify w.target (Wire.carry n · w))
      (Array.replicate n.size {}) := by
  have hnodes : n.nodes.toList = n.nodes.toList.zipIdx.map Prod.fst :=
    (List.zipIdx_map_fst 0 _).symm
  unfold pushPower forwardWires
  rw [← Array.foldl_toList, hnodes, List.foldl_map, ← hnodes, List.foldl_flatMap]
  refine List.foldl_ext _ _ _ fun powers p hp => ?_
  rw [List.mem_zipIdx_iff_getElem?, Array.getElem?_toList] at hp
  have hstrength : n.strength p.2 = p.1.state.strength := by
    rw [strength, hp]
    rfl
  rw [List.foldl_map, ← hstrength]
  rfl

theorem getElem?_foldl_carry (n : Netlist) (ws : List Wire) (powers : Array Power) (k : Nat) :
    (ws.foldl (fun powers w => powers.modify w.target (Wire.carry n · w)) powers)[k]? =
      powers[k]?.map fun p => (ws.filter fun w => w.target == k).foldl (Wire.carry n) p := by
  induction ws generalizing powers with
  | nil => simp
  | cons w ws ih =>
      rw [List.foldl_cons, ih, Array.getElem?_modify, List.filter_cons]
      by_cases hk : w.target = k
      · rw [if_pos hk, if_pos (beq_iff_eq.mpr hk), Option.map_map]
        rfl
      · rw [if_neg hk, if_neg (by simpa using hk)]

/-- Of items marked with the places of the lists that they are from, those with one mark are the
items of one list. -/
theorem filter_flatMap_zipIdx {α β : Type} (f : α → List β) (xs : List α) (start k : Nat) {x : α}
    (hx : xs[k]? = some x) :
    (((xs.zipIdx start).flatMap fun p => (f p.1).map (p.2, ·)).filter fun w => w.1 == start + k) =
      (f x).map (start + k, ·) := by
  induction xs generalizing start k with
  | nil => cases hx
  | cons first xs ih =>
      rw [List.zipIdx_cons, List.flatMap_cons, List.filter_append]
      cases k with
      | zero =>
          cases hx
          have hrest : (((xs.zipIdx (start + 1)).flatMap fun p => (f p.1).map (p.2, ·)).filter
              fun w => w.1 == start + 0) = [] := by
            rw [List.filter_eq_nil_iff]
            intro w hw
            obtain ⟨p, hp, hwp⟩ := List.mem_flatMap.mp hw
            obtain ⟨y, -, rfl⟩ := List.mem_map.mp hwp
            have hle := List.le_snd_of_mem_zipIdx hp
            simp
            omega
          rw [hrest, List.append_nil, List.filter_map]
          simp [Function.comp_def]
      | succ k =>
          have hrest := ih (start + 1) k hx
          rw [Nat.add_assoc, Nat.add_comm 1 k] at hrest
          rw [hrest, List.filter_map]
          simp

/-- The links that end at a node are its inputs. -/
theorem filter_inputWires {k : Nat} {node : NetNode} (hnode : n.nodes[k]? = some node) :
    (n.inputWires.filter fun w => w.target == k) = node.inputs.map (.ofInput k) := by
  have hwires := filter_flatMap_zipIdx NetNode.inputs n.nodes.toList 0 k
    (Array.getElem?_toList.trans hnode)
  rw [Nat.zero_add] at hwires
  unfold inputWires
  rw [List.filter_map]
  change (n.wires.filter fun w => w.1 == k).map _ = _
  rw [wires, hwires, List.map_map]
  rfl

/-- Pushing power along the forward links brings to every node what it pulls from its inputs. -/
theorem Linked.getElem?_pushPower (h : n.Linked) (k : Nat) :
    n.pushPower[k]? = n.inputPower? k := by
  rw [pushPower_eq, getElem?_foldl_carry, Array.getElem?_replicate, inputPower?]
  cases hnode : n.nodes[k]? with
  | none =>
      have hk : ¬ k < n.size := Nat.not_lt.mpr (Array.getElem?_eq_none_iff.mp hnode)
      rw [if_neg hk]
      rfl
  | some node =>
      have hk : k < n.size := (Array.getElem?_eq_some_iff.mp hnode).1
      rw [if_pos hk, Option.map_some, Option.map_some,
        (h.forwardWires_perm.filter _).foldl_eq, filter_inputWires hnode, ← powerOf_eq_foldl_carry]

end Netlist

end Redstone
