import Redstone.Proofs.Optimize.Distinct
import Redstone.Proofs.Provenance

/-!
# Links made of feeds

Every link of a surveyed circuit has been made of one feed, and tells as much as the feed: where it
comes from, on which channel and with which loss it arrives.  What the blocks around a component can
do to it is thereby known of the links of its node.
-/

namespace Redstone

/-- The type of a gate that has an input. -/
def GateType.receives : GateType → Bool
  | repeater | comparator | torch | lamp | trapdoor | noteBlock | wire => true
  | _ => false

namespace Survey

open Circuit

variable {w : World} {p q : Position} {channel : Channel} {f : Feed}

/-! ## The channel of a feed -/

/-- What comes over a network comes in by the channel that the search has begun with. -/
theorem channel_of_mem_networkFeeds {levels : Nat} {loss : UInt8} {reached : Reached}
    (h : f ∈ networkFeeds w channel levels loss reached) : f.channel = channel := by
  induction levels generalizing loss reached with
  | zero => cases h
  | succ levels ih =>
      rw [networkFeeds, List.mem_append, List.mem_map] at h
      rcases h with ⟨origin, -, rfl⟩ | h
      · rfl
      · exact ih h

theorem channel_of_mem_wireFeeds (h : f ∈ wireFeeds w channel p) : f.channel = channel :=
  channel_of_mem_networkFeeds h

theorem channel_of_mem_solidFeeds (h : f ∈ solidFeeds w channel p q) : f.channel = channel := by
  unfold solidFeeds at h
  obtain ⟨n, -, h⟩ := List.mem_flatMap.mp h
  split at h
  · split at h
    · exact channel_of_mem_wireFeeds h
    · cases h
  · split at h
    · rw [List.mem_singleton.mp h]
    · cases h

theorem channel_of_mem_neighbourFeeds (h : f ∈ neighbourFeeds w channel p q) :
    f.channel = channel := by
  unfold neighbourFeeds at h
  split at h
  · split at h
    · exact channel_of_mem_wireFeeds h
    · cases h
  · exact channel_of_mem_solidFeeds h
  · split at h
    · rw [List.mem_singleton.mp h]
    · cases h

/-- Only diodes are fed from the side, and a repeater by another diode without loss. -/
theorem side_of_mem_feeds (h : f ∈ feeds w p) (hside : f.channel = .side) :
    (w.get p).material = .comparator ∨
      (w.get p).material = .repeater ∧ f.loss = 0 ∧ (w.get f.origin).material.isDiode = true := by
  have hmain {q : Position} (hf : f ∈ neighbourFeeds w .main p q) : False := by
    rw [channel_of_mem_neighbourFeeds hf] at hside
    cases hside
  unfold feeds at h
  dsimp only at h
  split at h
  case h_1 hrepeater =>
    rcases List.mem_append.mp h with h | h
    · exact (hmain h).elim
    · obtain ⟨q, -, hq⟩ := List.mem_flatMap.mp h
      unfold lockFeeds at hq
      split at hq
      case isTrue hlock =>
        rw [Bool.and_eq_true] at hlock
        rw [List.mem_singleton.mp hq]
        exact .inr ⟨hrepeater, rfl, hlock.1⟩
      case isFalse => cases hq
  case h_2 hcomparator => exact .inl hcomparator
  case h_3 => exact (hmain h).elim
  case h_7 =>
    rw [channel_of_mem_wireFeeds h] at hside
    cases hside
  case h_8 => cases h
  all_goals
    obtain ⟨q, -, hq⟩ := List.mem_flatMap.mp h
    exact (hmain hq).elim

/-- Nothing feeds a component that has no input. -/
theorem receives_of_mem_feeds {n : Node} (hn : StandsAt w p n) (h : f ∈ feeds w p) :
    n.gate.type.receives = true := by
  have htype := gateType?_of_component? hn
  unfold feeds at h
  dsimp only at h
  cases hm : (w.get p).material <;> rw [hm] at h htype <;> cases hn : n.gate.type <;>
    simp_all [gateType?, GateType.receives]

/-! ## The feed of a link -/

/-- The link has been made of a feed of the component at its target, which comes from the component
at its source. -/
structure MadeOf (w : World) (g : Circuit) (l : Link) (p : Position) (f : Feed) : Prop where
  mem_feeds : f ∈ feeds w p
  target : ∃ n, g.node? l.target = some n ∧ StandsAt w p n
  source : ∃ n, g.node? l.source = some n ∧ StandsAt w f.origin n
  ne : l.source ≠ l.target
  channel_eq : l.channel = f.channel
  loss_eq : l.loss = f.loss

/-- All links have been made of feeds between the components `g₀`. -/
structure Fed (w : World) (g₀ g : Circuit) : Prop where
  node?_eq : ∀ id, g.node? id = g₀.node? id
  madeOf : ∀ {i l}, g.link? i = some l → ∃ p f, MadeOf w g₀ l p f

namespace Fed

variable {g₀ g : Circuit}

theorem linkFeed (h : Fed w g₀ g) (hplaced : Placed w g₀) {target : NodeId} {n : Node}
    (hn : g₀.node? target = some n) (hstands : StandsAt w p n) (hf : f ∈ feeds w p) :
    Fed w g₀ (linkFeed (owners g₀) target g f) := by
  refine linkFeed_keeps hplaced (fun hsource hstart hne => ?_) h
  refine ⟨fun id => (node?_addLink _ id).trans (h.node?_eq id), fun {i l} hl => ?_⟩
  rcases eq_or_link?_of_addLink hl with rfl | hl
  · exact ⟨p, f, hf, ⟨n, hn, hstands⟩, ⟨_, hsource, hstart⟩, hne, rfl, rfl⟩
  · exact h.madeOf hl

theorem linkNode (h : Fed w g₀ g) (hplaced : Placed w g₀) (id : NodeId) :
    Fed w g₀ (linkNode w (owners g₀) g id) :=
  linkNode_keeps hplaced (fun hg => hg.node?_eq) (fun hg => hg.linkFeed hplaced) h id

end Fed

theorem fed_addWiring {g : Circuit} (h : Placed w g) : Fed w g (addWiring w g) := by
  have hstart : Fed w g g := by
    refine ⟨fun _ => rfl, fun {i l} hl => ?_⟩
    rw [h.link?_eq] at hl
    cases hl
  exact List.foldlRecOn g.nodeIds _ hstart fun _ hg id _ => hg.linkNode h id

/-! ## What the optimizer relies on -/

/-- A link as the survey makes it: from a gate that drives others to another gate with an input,
with some strength left.  Side links end at diodes, and those of a repeater come from a diode
without loss. -/
structure Fits (g : Circuit) (l : Link) : Prop where
  source : ∃ n, g.node? l.source = some n ∧ n.gate.type.drives = true
  target : ∃ n, g.node? l.target = some n ∧ n.gate.type.receives = true
  ne : l.source ≠ l.target
  loss_le : l.loss ≤ 14
  channel : l.channel = .main ∨ l.channel = .side
  side : l.channel = .side → ∃ n, g.node? l.target = some n ∧
    (n.gate.type = .repeater ∨ n.gate.type = .comparator)
  locks : l.channel = .side → ∀ n, g.node? l.target = some n → n.gate.type = .repeater →
    l.loss = 0 ∧ ∃ m, g.node? l.source = some m ∧
      (m.gate.type = .repeater ∨ m.gate.type = .comparator)

/-- A circuit as the survey makes it: all links fit, exactly the switches are inputs and exactly
the indicators are outputs. -/
structure Prepared (g : Circuit) : Prop where
  wellFormed : g.WellFormed
  fits : ∀ {i l}, g.link? i = some l → Fits g l
  isInput_eq : ∀ {id n}, g.node? id = some n → n.isInput = n.gate.type.isSwitch
  isOutput_eq : ∀ {id n}, g.node? id = some n → n.isOutput = n.gate.type.isIndicator

theorem isIndicator_eq_of_gateType? {m : Material} {t : GateType} (h : gateType? m = some t) :
    t.isIndicator = m.isIndicator := by
  cases m <;> cases h <;> rfl

theorem diode_of_gateType? {m : Material} {t : GateType} (h : gateType? m = some t)
    (hdiode : m.isDiode = true) : t = .repeater ∨ t = .comparator := by
  cases m <;> simp only [Material.isDiode, Bool.false_eq_true] at hdiode <;> cases h
  · exact .inl rfl
  · exact .inr rfl

/-- A feed comes from a gate that drives others, and it has some strength left. -/
theorem MadeOf.fits {g : Circuit} {l : Link} (h : MadeOf w g l p f) : Fits g l := by
  obtain ⟨n, hn, hstands⟩ := h.target
  obtain ⟨m, hm, hstands'⟩ := h.source
  have hsound := sound_of_mem_feeds h.mem_feeds
  have htype := gateType?_of_component? hstands
  have htype' := gateType?_of_component? hstands'
  have hloss : l.loss ≤ 14 := by
    rw [h.loss_eq]
    exact UInt8.le_iff_toNat_le.mpr (Nat.le_of_lt_succ hsound.loss_lt)
  refine ⟨⟨m, hm, drives_of_emits hstands' hsound.emits⟩,
    ⟨n, hn, receives_of_mem_feeds hstands h.mem_feeds⟩, h.ne, hloss, ?_, fun hside => ?_,
    fun hside n' hn' hrepeater => ?_⟩
  · rw [h.channel_eq]
    exact hsound.channel
  · rw [h.channel_eq] at hside
    refine ⟨n, hn, diode_of_gateType? htype ?_⟩
    rcases side_of_mem_feeds h.mem_feeds hside with hmaterial | ⟨hmaterial, -⟩ <;>
      rw [hmaterial] <;> rfl
  · rw [h.channel_eq] at hside
    rw [hn, Option.some.injEq] at hn'
    subst hn'
    rcases side_of_mem_feeds h.mem_feeds hside with hmaterial | ⟨-, hzero, hdiode⟩
    · rw [hmaterial, hrepeater] at htype
      cases htype
    · exact ⟨h.loss_eq.trans hzero, m, hm, diode_of_gateType? htype' hdiode⟩

theorem Fits.congr {g g' : Circuit} {l : Link} (h : Fits g l)
    (hnode : ∀ id, g'.node? id = g.node? id) : Fits g' l := by
  obtain ⟨hsource, htarget, hne, hloss, hchannel, hside, hlocks⟩ := h
  simp only [← hnode] at hsource htarget hside hlocks
  exact ⟨hsource, htarget, hne, hloss, hchannel, hside, hlocks⟩

/-- Before the components are linked, there is nothing to check but their roles. -/
theorem Placed.prepared {g : Circuit} (h : Placed w g) : Prepared g where
  wellFormed := h.wellFormed
  fits := by
    intro i l hl
    rw [h.link?_eq] at hl
    cases hl
  isInput_eq := by
    intro id n hn
    obtain ⟨p, hp⟩ := h.stands hn
    rw [isInput_eq_of_component? hp, isSwitch_eq_of_gateType? (gateType?_of_component? hp)]
  isOutput_eq := by
    intro id n hn
    obtain ⟨p, hp⟩ := h.stands hn
    rw [isOutput_eq_of_component? hp, isIndicator_eq_of_gateType? (gateType?_of_component? hp)]

theorem prepared_addWiring {g : Circuit} (h : Placed w g) : Prepared (addWiring w g) := by
  have hfed := fed_addWiring h
  refine ⟨(wired_addWiring h).wellFormed, fun hl => ?_, fun hn => ?_, fun hn => ?_⟩
  · obtain ⟨p, f, hmade⟩ := hfed.madeOf hl
    exact hmade.fits.congr hfed.node?_eq
  · exact h.prepared.isInput_eq ((hfed.node?_eq _).symm.trans hn)
  · exact h.prepared.isOutput_eq ((hfed.node?_eq _).symm.trans hn)

end Survey

end Redstone
