import Redstone.Proofs.Optimize.Pendants
import Redstone.Proofs.Outputs
import Redstone.Proofs.Survey.Sides

/-!
# Lamps next to blocks of redstone

In a world of lamps and blocks of redstone, where every lamp has just one block of redstone among its
neighbours, each lamp is fed by that block and by nothing else.  The survey finds a constant for each
block of redstone, an output for each lamp, and one link for each lamp.
-/

namespace Redstone.Survey

open Circuit Optimize

/-- There are lamps and blocks of redstone only, and every lamp has one block of redstone next to
it. -/
structure LampsOnly (w : World) : Prop where
  material : ∀ {p b}, (p, b) ∈ w.toList → b.material = .lamp ∨ b.material = .redstoneBlock
  lit : ∀ {p b}, (p, b) ∈ w.toList → b.material = .lamp →
    ∃ q, (Direction.all.map p.step).filter (fun q => (w.get q).material == .redstoneBlock) = [q]

variable {w : World} {r : Region} {p q : Position} {n : Node} {id : NodeId}

namespace LampsOnly

/-! ## Components and feeds -/

theorem get_cases (h : LampsOnly w) (p : Position) :
    (w.get p).material = .lamp ∨ (w.get p).material = .redstoneBlock ∨
      (w.get p).material = .air := by
  cases hp : w.blocks[p]? with
  | none =>
      rw [World.get, hp]
      exact .inr (.inr rfl)
  | some b =>
      rw [World.get, hp]
      exact (h.material (mem_toList_iff.mpr hp)).imp_right .inl

/-- A component is an output at a lamp or a constant at a block of redstone. -/
theorem standsAt_cases (h : LampsOnly w) (hstands : StandsAt w p n) :
    ((w.get p).material = .lamp ∧ n.gate = .plain .lamp ∧ n.isOutput = true) ∨
      ((w.get p).material = .redstoneBlock ∧ n.gate = .constant ∧ n.isOutput = false ∧
        isSharable n = true ∧ n.state.strength = maxStrength) := by
  unfold StandsAt component? at hstands
  rcases h.get_cases p with hmaterial | hmaterial | hmaterial
  · rw [hmaterial] at hstands
    cases hstands
    exact .inl ⟨hmaterial, rfl, rfl⟩
  · rw [hmaterial] at hstands
    cases hstands
    exact .inr ⟨hmaterial, rfl, rfl, rfl, rfl⟩
  · rw [hmaterial] at hstands
    cases hstands

theorem isFoldable_eq_false (h : LampsOnly w) (hstands : StandsAt w p n) :
    n.gate.isFoldable = false := by
  rcases h.standsAt_cases hstands with ⟨-, hgate, -⟩ | ⟨-, hgate, -⟩
  · rw [hgate]
    rfl
  · rw [hgate]
    rfl

/-- A neighbour feeds a lamp just if it is a block of redstone. -/
theorem neighbourFeeds_eq (h : LampsOnly w) (p q : Position) :
    neighbourFeeds w .main p q =
      if (w.get q).material = .redstoneBlock then [{ origin := q, channel := .main, loss := 0 }]
      else [] := by
  unfold neighbourFeeds emitsInto
  rcases h.get_cases q with hmaterial | hmaterial | hmaterial <;> simp [hmaterial]

/-- A lamp is fed by the block of redstone next to it. -/
theorem feeds_lamp (h : LampsOnly w) (hstands : StandsAt w p n) (hout : n.isOutput = true) :
    ∃ q, (w.get q).material = .redstoneBlock ∧
      feeds w p = [{ origin := q, channel := .main, loss := 0 }] := by
  rcases h.standsAt_cases hstands with ⟨hlamp, -⟩ | ⟨-, -, hnot, -⟩
  · obtain ⟨q, hq⟩ := h.lit (mem_toList_of_standsAt hstands) hlamp
    have hmem := hq ▸ List.mem_singleton_self q
    refine ⟨q, eq_of_beq (List.mem_filter.mp hmem).2, ?_⟩
    have hflat (qs : List Position) : qs.flatMap (neighbourFeeds w .main p) =
        (qs.filter fun q => (w.get q).material == .redstoneBlock).map
          fun q => { origin := q, channel := .main, loss := 0 } := by
      induction qs with
      | nil => rfl
      | cons q qs ih =>
          rw [List.flatMap_cons, ih, h.neighbourFeeds_eq]
          by_cases hq : (w.get q).material = .redstoneBlock <;> simp [hq]
    have hfeeds : feeds w p = (Direction.all.map p.step).flatMap (neighbourFeeds w .main p) := by
      simp [feeds, hlamp]
    rw [hfeeds, hflat, hq]
    rfl
  · cases hout.symm.trans hnot

/-- A block of redstone is not fed. -/
theorem feeds_constant (h : LampsOnly w) (hstands : StandsAt w p n) (hout : n.isOutput = false) :
    feeds w p = [] := by
  rcases h.standsAt_cases hstands with ⟨-, -, hlamp⟩ | ⟨hmaterial, -⟩
  · cases hout.symm.trans hlamp
  · simp [feeds, hmaterial]

/-! ## Links -/

/-- One link is made into an output, and none into a constant. -/
theorem map_target_linksInto (h : LampsOnly w) (hextent : w.extent = some r) (id : NodeId) :
    (linksInto w (addComponents w r .empty) id).map Link.target =
      if ((addComponents w r .empty).node? id).any Node.isOutput then [id] else [] := by
  have hplaced := placed_addComponents w r
  unfold linksInto
  cases hn : (addComponents w r .empty).node? id with
  | none => rfl
  | some n =>
      obtain ⟨p, hstands⟩ := hplaced.stands hn
      dsimp only
      rw [nodeFeeds_eq hstands, Option.any_some]
      split
      case isFalse hnot =>
        rw [h.feeds_constant hstands (Bool.eq_false_iff.mpr hnot)]
        rfl
      case isTrue hout =>
        obtain ⟨q, hq, hfeeds⟩ := h.feeds_lamp hstands hout
        obtain ⟨m, hm⟩ : ∃ m, StandsAt w q m := by simp [StandsAt, component?, hq]
        obtain ⟨source, hsource⟩ := exists_node_of_standsAt hextent hm
        have howner := hplaced.owner_iff.mpr ⟨m, hsource, hm⟩
        -- a block of redstone is no output
        have hne : source ≠ id := by
          rintro rfl
          cases hsource.symm.trans hn
          rcases h.standsAt_cases hm with ⟨hlamp, -⟩ | ⟨-, -, hnot, -⟩
          · cases hq.symm.trans hlamp
          · cases hout.symm.trans hnot
        rw [hfeeds]
        simp [Feed.link?, howner, hne]

/-- The survey makes one link for each output. -/
theorem map_target_links (h : LampsOnly w) (hextent : w.extent = some r) :
    let g := addComponents w r .empty
    (g.nodeIds.flatMap (linksInto w g)).map Link.target =
      g.nodeIds.filter fun id => (g.node? id).any Node.isOutput := by
  intro g
  generalize g.nodeIds = ids
  induction ids with
  | nil => rfl
  | cons id ids ih =>
      rw [List.flatMap_cons, List.map_append, ih, h.map_target_linksInto hextent, List.filter_cons]
      split <;> rfl

/-- There are as many outputs as lamps. -/
theorem length_outputs (h : LampsOnly w) (hextent : w.extent = some r) :
    let g := addComponents w r .empty
    (g.nodeIds.filter fun id => (g.node? id).any Node.isOutput).length =
      w.toList.countP fun x => x.2.material == .lamp := by
  intro g
  have hnodes : g.nodes.map Prod.snd = components w r := nodes_addNodes_empty _
  calc (g.nodeIds.filter fun id => (g.node? id).any Node.isOutput).length
      = g.nodes.countP fun y => y.2.isOutput := by
        rw [← List.countP_eq_length_filter, nodes, List.countP_filterMap]
        refine List.countP_congr fun id _ => ?_
        cases g.node? id <;> simp
    _ = (components w r).countP Node.isOutput := by
        rw [← hnodes, List.countP_map]
        rfl
    _ = w.toList.countP fun x => x.2.material == .lamp := by
        rw [components, List.countP_filterMap, List.countP_filter]
        refine List.countP_congr fun x hx => ?_
        have hin := World.contains_of_extent hextent (mem_toList_iff.mp hx)
        rcases h.material hx with hmaterial | hmaterial <;>
          simp [hin, component?, hmaterial]

/-! ## The circuit of the survey -/

theorem linkCount_surveyed (h : LampsOnly w) (hextent : w.extent = some r) :
    (surveyed w r).linkCount = w.toList.countP fun x => x.2.material == .lamp := by
  have hplaced := placed_addComponents w r
  have hnone : (addComponents w r .empty).linkCount = 0 := by
    rw [hplaced.wellFormed.linkCount_eq, List.length_eq_zero_iff, List.eq_nil_iff_forall_not_mem]
    intro i hi
    obtain ⟨l, hl⟩ := mem_linkIds.mp hi
    cases (hplaced.link?_eq i).symm.trans hl
  rw [surveyed, addWiring_eq_foldl_addLink, linkCount_foldl_addLink hplaced.contains_links, hnone,
    Nat.zero_add, ← h.length_outputs hextent, ← h.map_target_links hextent, List.length_map]

/-- No two links end at one output. -/
theorem eq_of_target_eq (h : LampsOnly w) (hextent : w.extent = some r) {i j : LinkId} {l m : Link}
    (hl : (surveyed w r).link? i = some l) (hm : (surveyed w r).link? j = some m)
    (htarget : l.target = m.target) : i = j := by
  have hplaced := placed_addComponents w r
  obtain ⟨a, rfl, ha⟩ := hplaced.exists_getElem?_links hl
  obtain ⟨b, rfl, hb⟩ := hplaced.exists_getElem?_links hm
  have htargets := h.map_target_links hextent
  dsimp only at htargets
  generalize (addComponents w r .empty).nodeIds.flatMap
    (linksInto w (addComponents w r .empty)) = links at ha hb htargets
  have hnodup : (links.map Link.target).Nodup :=
    htargets ▸ (addComponents w r .empty).nodeIds_nodup.filter _
  have hlt : a < (links.map Link.target).length := by
    obtain ⟨hlt, -⟩ := List.getElem?_eq_some_iff.mp ha
    rwa [List.length_map]
  have hsame : (links.map Link.target)[a]? = (links.map Link.target)[b]? := by
    simp [ha, hb, htarget]
  rw [(List.getElem?_inj hlt hnodup).mp hsame]

/-- The survey of such a world leaves nothing to be computed. -/
theorem pendants_surveyed (h : LampsOnly w) (hextent : w.extent = some r) :
    Pendants (surveyed w r) := by
  have hplaced := placed_addComponents w r
  have hwired := wired_surveyed w r
  have hmade {i : LinkId} {l : Link} (hl : (surveyed w r).link? i = some l) :
      l.channel = .main ∧ l.loss = 0 ∧
        (∃ n, (surveyed w r).node? l.source = some n ∧ isSharable n = true ∧
          n.state.strength = maxStrength) ∧
        ∃ n, (surveyed w r).node? l.target = some n ∧ n.isOutput = true := by
    obtain ⟨p, f, hmade⟩ := hplaced.exists_link_iff.mp ⟨i, hl⟩
    obtain ⟨n, hn, hstands⟩ := hmade.target
    obtain ⟨m, hm, hstands'⟩ := hmade.source
    cases hout : n.isOutput with
    | false =>
        have hmem := hmade.mem_feeds
        rw [h.feeds_constant hstands hout] at hmem
        cases hmem
    | true =>
        obtain ⟨q, hq, hfeeds⟩ := h.feeds_lamp hstands hout
        have hmem := hmade.mem_feeds
        rw [hfeeds, List.mem_singleton] at hmem
        subst hmem
        refine ⟨hmade.channel_eq, hmade.loss_eq, ⟨m, ?_, ?_⟩, n, ?_, hout⟩
        · rw [hwired.node?_eq, hm]
        · rcases h.standsAt_cases hstands' with ⟨hlamp, -⟩ | ⟨-, -, -, hsharable, hstrength⟩
          · cases hq.symm.trans hlamp
          · exact ⟨hsharable, hstrength⟩
        · rw [hwired.node?_eq, hn]
  exact {
    wellFormed := hwired.wellFormed
    inert := fun id n hn => by
      obtain ⟨p, hstands⟩ := hplaced.stands ((hwired.node?_eq id).symm.trans hn)
      exact h.isFoldable_eq_false hstands
    main := fun hl => (hmade hl).1
    lossless := fun hl => (hmade hl).2.1
    source := fun hl => by
      obtain ⟨n, hn, hsharable, hstrength⟩ := (hmade hl).2.2.1
      exact ⟨n, hn, hsharable, hstrength ▸ by decide⟩
    target := fun hl => (hmade hl).2.2.2
    sole := h.eq_of_target_eq hextent }

end LampsOnly

end Redstone.Survey
