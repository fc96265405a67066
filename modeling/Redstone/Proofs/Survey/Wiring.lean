import Redstone.Proofs.Survey.Components
import Redstone.Survey.Wiring

/-!
# The links between components

A feed comes from a block that puts out power, and it arrives with some strength left.  The links
that are made of feeds therefore start at gates that drive others, end at gates with inputs, and
lose less than the greatest strength.  Both of their ends are nodes, so that no link is refused.
-/

namespace Redstone

/-- Blocks of the material put out power. -/
def Material.emits : Material → Bool
  | repeater | comparator | torch | lever | button | pressurePlate | redstoneBlock => true
  | _ => false

/-- The type of a gate that drives others. -/
def GateType.drives : GateType → Bool
  | repeater | comparator | torch | lever | button | pressurePlate | constant => true
  | _ => false

namespace Survey

open Circuit

/-! ## Feeds -/

/-- The feed comes from a block that puts out power and reaches a defined channel before all
strength is lost. -/
structure Feed.Sound (w : World) (f : Feed) : Prop where
  emits : (w.get f.origin).material.emits = true
  loss_lt : f.loss.toNat < maxStrength.toNat
  channel : f.channel = .main ∨ f.channel = .side

variable {w : World} {p q : Position}

theorem emits_of_emitsInto {b : Block} (h : emitsInto p b q = true) : b.material.emits = true := by
  unfold emitsInto at h
  cases hm : b.material <;> simp_all [Material.emits]

theorem emits_of_powersSolid {b : Block} (h : powersSolid p b q = true) :
    b.material.emits = true := by
  unfold powersSolid at h
  cases hm : b.material <;> simp_all [Material.emits]

/-- The loss of the next level does not wrap. -/
theorem toNat_loss_succ {loss : UInt8} (h : loss.toNat < maxStrength.toNat) :
    (loss + 1).toNat = loss.toNat + 1 := by
  have hmax : maxStrength.toNat = 15 := rfl
  rw [UInt8.toNat_add]
  exact Nat.mod_eq_of_lt (by simp; omega)

/-- The loss and the levels that are left never exceed the greatest strength together. -/
theorem sound_of_mem_networkFeeds {channel : Channel} (hchannel : channel = .main ∨ channel = .side)
    {levels : Nat} {loss : UInt8} {reached : Reached}
    (hlevels : loss.toNat + levels ≤ maxStrength.toNat) {f : Feed}
    (h : f ∈ networkFeeds w channel levels loss reached) : f.Sound w := by
  induction levels generalizing loss reached with
  | zero => cases h
  | succ levels ih =>
      rw [networkFeeds, List.mem_append, List.mem_map] at h
      rcases h with ⟨origin, horigin, rfl⟩ | h
      · obtain ⟨q, -, hq⟩ := List.mem_flatMap.mp horigin
        have hemits := (List.mem_filter.mp hq).2
        rw [Bool.and_eq_true] at hemits
        have hloss : loss.toNat < maxStrength.toNat := by omega
        exact ⟨emits_of_emitsInto hemits.2, hloss, hchannel⟩
      · have hsucc : (loss + 1).toNat = loss.toNat + 1 := toNat_loss_succ (by omega)
        exact ih (by omega) h

theorem sound_of_mem_wireFeeds {channel : Channel} (hchannel : channel = .main ∨ channel = .side)
    {f : Feed} (h : f ∈ wireFeeds w channel p) : f.Sound w :=
  sound_of_mem_networkFeeds hchannel (Nat.le_refl _) h

/-- A feed without loss from a block that puts out power. -/
theorem sound_direct {channel : Channel} (hchannel : channel = .main ∨ channel = .side)
    (hemits : (w.get q).material.emits = true) :
    ({ origin := q, channel, loss := 0 } : Feed).Sound w :=
  ⟨hemits, (by decide : (0 : UInt8).toNat < maxStrength.toNat), hchannel⟩

theorem sound_of_mem_solidFeeds {f : Feed} (h : f ∈ solidFeeds w .main p q) : f.Sound w := by
  unfold solidFeeds at h
  obtain ⟨n, -, h⟩ := List.mem_flatMap.mp h
  split at h
  · split at h
    · exact sound_of_mem_wireFeeds (.inl rfl) h
    · cases h
  · split at h
    case isTrue hpowers =>
      rw [List.mem_singleton.mp h]
      exact sound_direct (.inl rfl) (emits_of_powersSolid hpowers)
    case isFalse => cases h

theorem sound_of_mem_neighbourFeeds {f : Feed} (h : f ∈ neighbourFeeds w .main p q) :
    f.Sound w := by
  unfold neighbourFeeds at h
  split at h
  · split at h
    · exact sound_of_mem_wireFeeds (.inl rfl) h
    · cases h
  · exact sound_of_mem_solidFeeds h
  · split at h
    case isTrue hemits =>
      rw [List.mem_singleton.mp h]
      exact sound_direct (.inl rfl) (emits_of_emitsInto hemits)
    case isFalse => cases h

theorem sound_of_mem_lockFeeds {f : Feed} (h : f ∈ lockFeeds w p q) : f.Sound w := by
  unfold lockFeeds at h
  split at h
  case isTrue hlock =>
    rw [Bool.and_eq_true] at hlock
    rw [List.mem_singleton.mp h]
    exact sound_direct (.inr rfl) (emits_of_emitsInto hlock.2)
  case isFalse => cases h

theorem sound_of_mem_comparedFeeds {f : Feed} (h : f ∈ comparedFeeds w p q) : f.Sound w := by
  unfold comparedFeeds at h
  split at h
  case h_4 => exact sound_of_mem_wireFeeds (.inr rfl) h
  case h_5 => cases h
  all_goals
    split at h
    case isTrue hemits =>
      rw [List.mem_singleton.mp h]
      exact sound_direct (.inr rfl) (emits_of_emitsInto hemits)
    case isFalse => cases h

theorem sound_of_mem_feeds {f : Feed} (h : f ∈ feeds w p) : f.Sound w := by
  unfold feeds at h
  dsimp only at h
  split at h
  case h_1 =>
    rcases List.mem_append.mp h with h | h
    · exact sound_of_mem_neighbourFeeds h
    · obtain ⟨q, -, hq⟩ := List.mem_flatMap.mp h
      exact sound_of_mem_lockFeeds hq
  case h_2 =>
    rcases List.mem_append.mp h with h | h
    · exact sound_of_mem_neighbourFeeds h
    · obtain ⟨q, -, hq⟩ := List.mem_flatMap.mp h
      exact sound_of_mem_comparedFeeds hq
  case h_3 => exact sound_of_mem_neighbourFeeds h
  case h_7 => exact sound_of_mem_wireFeeds (.inl rfl) h
  case h_8 => cases h
  all_goals
    obtain ⟨q, -, hq⟩ := List.mem_flatMap.mp h
    exact sound_of_mem_neighbourFeeds hq

/-- Constants and switches are not fed. -/
theorem isSource_eq_false_of_mem_feeds {n : Node} (hn : StandsAt w p n) {f : Feed}
    (h : f ∈ feeds w p) : n.gate.type.isSource = false := by
  have htype := gateType?_of_component? hn
  unfold feeds at h
  dsimp only at h
  cases hm : (w.get p).material <;> rw [hm] at h htype <;> cases hn : n.gate.type <;>
    simp_all [gateType?, GateType.isSource, GateType.isSwitch]

theorem drives_of_emits {n : Node} (hn : StandsAt w p n)
    (h : (w.get p).material.emits = true) : n.gate.type.drives = true := by
  have htype := gateType?_of_component? hn
  cases hm : (w.get p).material <;> rw [hm] at h htype <;> cases hn : n.gate.type <;>
    simp_all [gateType?, Material.emits, GateType.drives]

/-! ## Owners -/

/-- Every owner is a node of the circuit, with a block at the position that it owns. -/
def Owned (g : Circuit) (owners : Owners) : Prop :=
  ∀ p id, owners[p]? = some id →
    ∃ n, g.node? id = some n ∧ ∃ b ∈ n.blocks, b.position = p

theorem Owned.addNode {g : Circuit} {owners : Owners} (h : Owned g owners) {id : NodeId} {n : Node}
    (hn : g.node? id = some n) : Owned g (owners.addNode id n) := by
  have hfold (blocks : List BlockRef) (hblocks : ∀ b ∈ blocks, b ∈ n.blocks) {owners : Owners}
      (h : Owned g owners) :
      Owned g (blocks.foldl (fun owners b => owners.insert b.position id) owners) := by
    induction blocks generalizing owners with
    | nil => exact h
    | cons b rest ih =>
        refine ih (fun c hc => hblocks c (List.mem_cons_of_mem _ hc)) ?_
        intro p id' hp
        rw [Std.ExtTreeMap.getElem?_insert] at hp
        split at hp
        case isTrue heq =>
          cases hp
          exact ⟨n, hn, b, hblocks b List.mem_cons_self,
            Std.LawfulEqCmp.eq_of_compare heq⟩
        case isFalse => exact h p id' hp
  exact hfold n.blocks (fun _ hb => hb) h

theorem owned_owners (g : Circuit) : Owned g (owners g) := by
  unfold owners
  refine List.foldlRecOn g.nodeIds _ ?_ fun found h id _ => ?_
  · intro p id hp
    simp at hp
  · split
    case h_1 n hn => exact h.addNode hn
    case h_2 => exact h

theorem Placed.owner_stands {g : Circuit} (h : Placed w g) {id : NodeId}
    (hp : (owners g)[p]? = some id) : ∃ n, g.node? id = some n ∧ StandsAt w p n := by
  obtain ⟨n, hn, b, hb, hposition⟩ := owned_owners g p id hp
  obtain ⟨p', hstands⟩ := h.stands hn
  rw [blocks_of_component? hstands, List.mem_singleton] at hb
  rw [hb] at hposition
  cases hposition
  exact ⟨n, hn, hstands⟩

/-! ## Links -/

theorem nodeFeeds_eq {n : Node} (hstands : StandsAt w p n) : nodeFeeds w n = feeds w p := by
  rw [nodeFeeds, blocks_of_component? hstands]

section Keeps

variable {P : Circuit → Prop} {g₀ g : Circuit}

/-- A feed does nothing, or it makes a link from the node that stands at its origin. -/
theorem linkFeed_keeps (hplaced : Placed w g₀) {target : NodeId} {f : Feed}
    (hlink : ∀ {source n}, g₀.node? source = some n → StandsAt w f.origin n → source ≠ target →
      P (g.addLink { source, target, channel := f.channel, loss := f.loss }))
    (h : P g) : P (linkFeed (owners g₀) target g f) := by
  unfold linkFeed
  split
  case h_1 => exact h
  case h_2 source hsource =>
    split
    case isTrue => exact h
    case isFalse hne =>
      obtain ⟨n, hn, hstands⟩ := hplaced.owner_stands hsource
      exact hlink hn hstands hne

/-- What the feeds of components do not change, the links of a node do not change. -/
theorem linkNode_keeps (hplaced : Placed w g₀) (hnode : ∀ {g}, P g → ∀ id, g.node? id = g₀.node? id)
    (hfeed : ∀ {g target n p f}, P g → g₀.node? target = some n → StandsAt w p n →
      f ∈ feeds w p → P (linkFeed (owners g₀) target g f))
    (h : P g) (id : NodeId) : P (linkNode w (owners g₀) g id) := by
  unfold linkNode
  split
  case h_1 => exact h
  case h_2 n hn =>
    rw [hnode h] at hn
    obtain ⟨p, hp⟩ := hplaced.stands hn
    rw [nodeFeeds_eq hp]
    exact List.foldlRecOn (feeds w p) _ h fun _ hg _ hf => hfeed hg hn hp hf

end Keeps

/-- Some links have been made between the components.  They start at gates that drive others, end
at gates with inputs, and are in range. -/
structure Wired (g₀ g : Circuit) : Prop where
  wellFormed : g.WellFormed
  nodeBound_eq : g.nodeBound = g₀.nodeBound
  node?_eq : ∀ id, g.node? id = g₀.node? id
  driven : ∀ {i l n}, g.link? i = some l → g₀.node? l.source = some n →
    n.gate.type.drives = true
  source_free : ∀ {i l n}, g.link? i = some l → g₀.node? l.target = some n →
    n.gate.type.isSource = false
  inRange : ∀ {i l}, g.link? i = some l → l.InRange

namespace Wired

variable {g₀ g : Circuit}

theorem start (h : Placed w g₀) : Wired g₀ g₀ where
  wellFormed := h.wellFormed
  nodeBound_eq := rfl
  node?_eq := fun _ => rfl
  driven := by
    intro i l n hl
    rw [h.link?_eq] at hl
    cases hl
  source_free := by
    intro i l n hl
    rw [h.link?_eq] at hl
    cases hl
  inRange := by
    intro i l hl
    rw [h.link?_eq] at hl
    cases hl

theorem addLink (h : Wired g₀ g) {l : Link} (hl : l.InRange)
    (hs : ∃ n, g₀.node? l.source = some n ∧ n.gate.type.drives = true)
    (ht : ∃ n, g₀.node? l.target = some n ∧ n.gate.type.isSource = false) :
    Wired g₀ (g.addLink l) := by
  obtain ⟨s, hs, hdrives⟩ := hs
  obtain ⟨t, ht, hfree⟩ := ht
  refine ⟨h.wellFormed.addLink l, (nodeBound_addLink l).trans h.nodeBound_eq,
    fun id => (node?_addLink l id).trans (h.node?_eq id), ?_, ?_, ?_⟩
  · intro i m n hm hn
    rcases eq_or_link?_of_addLink hm with rfl | hm
    · rw [hs] at hn
      cases hn
      exact hdrives
    · exact h.driven hm hn
  · intro i m n hm hn
    rcases eq_or_link?_of_addLink hm with rfl | hm
    · rw [ht] at hn
      cases hn
      exact hfree
    · exact h.source_free hm hn
  · intro i m hm
    rcases eq_or_link?_of_addLink hm with rfl | hm
    · exact hl
    · exact h.inRange hm

theorem linkFeed (h : Wired g₀ g) (hplaced : Placed w g₀) {target : NodeId}
    (ht : ∃ n, g₀.node? target = some n ∧ n.gate.type.isSource = false) {f : Feed}
    (hf : f.Sound w) : Wired g₀ (linkFeed (owners g₀) target g f) := by
  refine linkFeed_keeps hplaced (fun hn hstands _ => ?_) h
  refine h.addLink ⟨?_, hf.channel⟩ ⟨_, hn, drives_of_emits hstands hf.emits⟩ ht
  exact UInt8.le_iff_toNat_le.mpr (Nat.le_of_lt hf.loss_lt)

theorem linkNode (h : Wired g₀ g) (hplaced : Placed w g₀) (id : NodeId) :
    Wired g₀ (linkNode w (owners g₀) g id) := by
  refine linkNode_keeps hplaced (fun hg => hg.node?_eq) (fun hg hn hp hf => ?_) h id
  exact hg.linkFeed hplaced ⟨_, hn, isSource_eq_false_of_mem_feeds hp hf⟩ (sound_of_mem_feeds hf)

end Wired

theorem wired_addWiring {g : Circuit} (h : Placed w g) : Wired g (addWiring w g) :=
  List.foldlRecOn g.nodeIds _ (.start h) fun _ hg id _ => hg.linkNode h id

namespace Wired

variable {g₀ g : Circuit}

theorem regular (h : Wired g₀ g) (hplaced : Placed w g₀) (hw : w.Powered) : g.Regular where
  wellFormed := h.wellFormed
  nodes := by
    intro id n hn
    rw [h.node?_eq] at hn
    exact hplaced.regular_node hw hn
  source_free := by
    intro i l n hl hn
    rw [h.node?_eq] at hn
    exact h.source_free hl hn

theorem circuit_inRange (h : Wired g₀ g) (hplaced : Placed w g₀) (hw : w.Powered) :
    g.InRange where
  node := by
    intro id n hn
    rw [h.node?_eq] at hn
    exact (hplaced.inRange hw).node hn
  link := h.inRange

theorem lineage (h : Wired g₀ g) : Lineage g₀ g :=
  .of_node?_eq h.nodeBound_eq h.node?_eq

end Wired

end Survey

end Redstone
