import Redstone.Proofs.Survey.Feeds
import Redstone.Proofs.Survey.Networks

/-!
# What feeds a diode from the side

Every link of a surveyed circuit is made of a feed, and every feed between two components becomes a
link.  The links on the side channel are thereby those of the two positions at the sides of a diode.

A diode that faces one of the four compass directions has its sides across that direction, so that a
straight line of repeaters never locks itself.  Up and down do not turn: the sides of a diode that
faces up or down are the positions before and behind it, and there the line does lock itself.
-/

namespace Redstone

namespace Direction

/-- The four directions that a quarter turn moves. -/
def isCompass : Direction → Bool
  | north | south | west | east => true
  | _ => false

theorem clockwise_of_not_isCompass {d : Direction} (h : d.isCompass = false) : d.clockwise = d := by
  cases d with
  | down | up | undefined => rfl
  | north | south | west | east => cases h

end Direction

namespace Position

/-- The second position lies on the line through the first one along a direction. -/
def InLine (d : Direction) (p q : Position) : Prop :=
  match d with
  | .down | .up => q.x = p.x ∧ q.z = p.z
  | .north | .south => q.x = p.x ∧ q.y = p.y
  | .west | .east => q.y = p.y ∧ q.z = p.z
  | .undefined _ => q = p

theorem inLine_step {d : Direction} (h : d.isCompass = true) (p : Position) :
    InLine d p (p.step d) ∧ InLine d p (p.step d.opposite) := by
  cases d <;> cases h <;> exact ⟨⟨rfl, rfl⟩, ⟨rfl, rfl⟩⟩

/-- A step back and a step forth cancel, also across the edge of the coordinate range. -/
theorem step_opposite_step {d : Direction} (h : d ∈ Direction.all) (p : Position) :
    (p.step d.opposite).step d = p := by
  have hforth (x : Int32) : x + 1 - 1 = x := by grind
  have hback (x : Int32) : x - 1 + 1 = x := by grind
  simp only [Direction.all, List.mem_cons, List.not_mem_nil, or_false] at h
  rcases h with rfl | rfl | rfl | rfl | rfl | rfl <;>
    simp [step, Direction.opposite, hforth, hback]

end Position

namespace Survey

open Circuit

variable {w : World} {g : Circuit} {p q : Position} {f : Feed} {l : Link} {id : NodeId} {n : Node}

/-! ## The two sides -/

/-- The sides of a diode that faces a compass direction lie off its line. -/
theorem not_inLine_of_mem_sides {d : Direction} (h : d.isCompass = true) (hq : q ∈ sides p d) :
    ¬ p.InLine d q := by
  simp only [sides, List.mem_cons, List.not_mem_nil, or_false] at hq
  cases d <;> cases h <;> rcases hq with rfl | rfl <;>
    simp [Position.InLine, Position.step, Direction.clockwise, Direction.counterclockwise,
      Direction.opposite, coordinate_pred_ne]

/-- Where a direction does not turn, the sides are the positions before and behind the diode. -/
theorem mem_sides_of_not_isCompass {d : Direction} (h : d.isCompass = false) :
    q ∈ sides p d ↔ q = p.step d ∨ q = p.step d.opposite := by
  unfold sides Direction.counterclockwise
  rw [Direction.clockwise_of_not_isCompass h, List.mem_pair]

/-- A side lies off the line of the diode just if the diode faces a compass direction. -/
theorem side_ne_iff {d : Direction} (hq : q ∈ sides p d) :
    q ≠ p.step d ∧ q ≠ p.step d.opposite ↔ d.isCompass = true := by
  constructor
  · rintro ⟨hbefore, hbehind⟩
    by_contra hcompass
    rw [Bool.not_eq_true] at hcompass
    rcases (mem_sides_of_not_isCompass hcompass).mp hq with heq | heq
    · exact hbefore heq
    · exact hbehind heq
  · intro hcompass
    have hoff := not_inLine_of_mem_sides hcompass hq
    obtain ⟨hbefore, hbehind⟩ := Position.inLine_step hcompass p
    constructor
    · rintro rfl
      exact hoff hbefore
    · rintro rfl
      exact hoff hbehind

/-! ## Feeds from a side -/

/-- The feeds of the diode at `p` from the position `q` at its side. -/
def sideFeeds (w : World) (p q : Position) : List Feed :=
  match (w.get p).material with
  | .repeater => lockFeeds w p q
  | .comparator => comparedFeeds w p q
  | _ => []

theorem mem_lockFeeds :
    f ∈ lockFeeds w p q ↔ f = { origin := q, channel := .side, loss := 0 } ∧
      (w.get q).material.isDiode = true ∧ emitsInto q (w.get q) p = true := by
  unfold lockFeeds
  rw [← Bool.and_eq_true]
  split
  case isTrue h => simp [h]
  case isFalse h => simp [h]

theorem channel_of_mem_comparedFeeds (h : f ∈ comparedFeeds w p q) : f.channel = .side := by
  unfold comparedFeeds at h
  split at h
  case h_4 => exact channel_of_mem_wireFeeds h
  case h_5 => cases h
  all_goals
    split at h
    · rw [List.mem_singleton.mp h]
    · cases h

theorem channel_of_mem_sideFeeds (h : f ∈ sideFeeds w p q) : f.channel = .side := by
  unfold sideFeeds at h
  split at h
  · rw [(mem_lockFeeds.mp h).1]
  · exact channel_of_mem_comparedFeeds h
  · cases h

theorem isDiode_of_mem_sideFeeds (h : f ∈ sideFeeds w p q) :
    (w.get p).material.isDiode = true := by
  unfold sideFeeds at h
  split at h
  case h_1 hm => rw [hm]; rfl
  case h_2 hm => rw [hm]; rfl
  case h_3 => cases h

/-- A diode is fed from behind and from its sides. -/
theorem feeds_of_isDiode (h : (w.get p).material.isDiode = true) :
    feeds w p = neighbourFeeds w .main p (p.step (w.get p).facing.opposite) ++
      (sides p (w.get p).facing).flatMap (sideFeeds w p) := by
  cases hm : (w.get p).material <;> rw [hm] at h <;> cases h
  all_goals
    unfold feeds sideFeeds
    simp only [hm]

/-- The feeds on the side channel are those from the two sides of a diode. -/
theorem mem_feeds_side_iff :
    f ∈ feeds w p ∧ f.channel = .side ↔
      ∃ q ∈ sides p (w.get p).facing, f ∈ sideFeeds w p q := by
  constructor
  · rintro ⟨h, hside⟩
    have hdiode : (w.get p).material.isDiode = true := by
      rcases side_of_mem_feeds h hside with hm | ⟨hm, -⟩ <;> rw [hm] <;> rfl
    rw [feeds_of_isDiode hdiode, List.mem_append] at h
    rcases h with h | h
    · rw [channel_of_mem_neighbourFeeds h] at hside
      cases hside
    · exact List.mem_flatMap.mp h
  · rintro ⟨q, hq, hf⟩
    refine ⟨?_, channel_of_mem_sideFeeds hf⟩
    rw [feeds_of_isDiode (isDiode_of_mem_sideFeeds hf)]
    exact List.mem_append_right _ (List.mem_flatMap.mpr ⟨q, hq, hf⟩)

theorem emitsInto_of_isDiode {b : Block} (h : b.material.isDiode = true) :
    emitsInto p b q = (p.step b.facing == q) := by
  unfold emitsInto
  cases hm : b.material <;> rw [hm] at h <;> cases h

/-- A diode at the side that puts out power into the diode feeds it. -/
theorem mem_sideFeeds_of_isDiode (hp : (w.get p).material.isDiode = true)
    (hq : (w.get q).material.isDiode = true) (hemits : emitsInto q (w.get q) p = true) :
    { origin := q, channel := .side, loss := 0 } ∈ sideFeeds w p q := by
  unfold sideFeeds
  cases hm : (w.get p).material <;> rw [hm] at hp <;> cases hp
  case repeater => exact mem_lockFeeds.mpr ⟨rfl, hq, hemits⟩
  case comparator =>
    unfold comparedFeeds
    cases hm' : (w.get q).material <;> rw [hm'] at hq <;> cases hq <;>
      simp only [hemits] <;> exact List.mem_singleton_self _

/-! ## Owners -/

theorem isSome_addNode {owners : Owners} :
    (owners.addNode id n)[p]?.isSome = true ↔
      owners[p]?.isSome = true ∨ ∃ b ∈ n.blocks, b.position = p := by
  unfold Owners.addNode
  induction n.blocks generalizing owners with
  | nil => simp
  | cons b blocks ih =>
      rw [List.foldl_cons, ih, Std.ExtTreeMap.getElem?_insert, List.exists_mem_cons_iff, ← or_assoc]
      by_cases heq : b.position = p
      · simp [heq]
      · have hcompare : Position.scanOrder b.position p ≠ .eq :=
          fun h => heq (Std.LawfulEqCmp.eq_of_compare h)
        simp [heq, hcompare]

/-- The position of every block is owned. -/
theorem exists_owner (hn : g.node? id = some n) {b : BlockRef} (hb : b ∈ n.blocks) :
    ∃ id', (owners g)[b.position]? = some id' := by
  -- the node notes the position, and the nodes after it leave it owned
  obtain ⟨before, after, hids⟩ :=
    List.append_of_mem (mem_nodeIds.mpr (contains_of_node? hn))
  unfold owners
  rw [hids, List.foldl_append, List.foldl_cons, hn]
  apply Option.isSome_iff_exists.mp
  refine List.foldlRecOn (motive := fun found : Owners => found[b.position]?.isSome = true) after _
    ?_ fun found hfound id' _ => ?_
  · exact isSome_addNode.mpr (.inr ⟨b, hb, rfl⟩)
  · split
    · exact isSome_addNode.mpr (.inl hfound)
    · exact hfound

theorem StandsAt.position_eq (h : StandsAt w p n) (h' : StandsAt w q n) : p = q := by
  have hblocks := (blocks_of_component? h).symm.trans (blocks_of_component? h')
  exact congrArg BlockRef.position (List.singleton_inj.mp hblocks)

/-- A component is the owner of the position where it stands. -/
theorem Placed.owner_iff (h : Placed w g) :
    (owners g)[p]? = some id ↔ ∃ n, g.node? id = some n ∧ StandsAt w p n := by
  constructor
  · exact h.owner_stands
  · rintro ⟨n, hn, hstands⟩
    have hblock : (⟨p, (w.get p).id⟩ : BlockRef) ∈ n.blocks := by
      rw [blocks_of_component? hstands]
      exact List.mem_singleton_self _
    obtain ⟨id', hid'⟩ := exists_owner hn hblock
    obtain ⟨n', hn', b', hb', hposition⟩ := owned_owners g p id' hid'
    rw [hid', eq_of_position_eq h.positions_nodup hn hn' hblock hb' hposition.symm]

/-! ## The links of a survey -/

/-- The links that are made into a node. -/
def linksInto (w : World) (g : Circuit) (id : NodeId) : List Link :=
  match g.node? id with
  | none => []
  | some n => (nodeFeeds w n).filterMap (Feed.link? (owners g) id)

theorem addWiring_eq_foldl_addLink :
    addWiring w g = (g.nodeIds.flatMap (linksInto w g)).foldl addLink g := by
  have hfold (ids : List NodeId) (g' : Circuit) (h : ∀ id, g'.node? id = g.node? id) :
      ids.foldl (linkNode w (owners g)) g' = (ids.flatMap (linksInto w g)).foldl addLink g' := by
    induction ids generalizing g' with
    | nil => rfl
    | cons id ids ih =>
        have hnode : linkNode w (owners g) g' id = (linksInto w g id).foldl addLink g' := by
          unfold linkNode linksInto
          rw [h]
          cases g.node? id with
          | none => rfl
          | some n => exact foldl_linkFeed _
        rw [List.foldl_cons, List.flatMap_cons, List.foldl_append, hnode]
        exact ih _ fun j => (node?_foldl_addLink _ j).trans (h j)
  exact hfold g.nodeIds g fun _ => rfl

theorem Placed.mem_linksInto (h : Placed w g) :
    l ∈ linksInto w g id ↔ l.target = id ∧ ∃ p f, MadeOf w g l p f := by
  unfold linksInto
  cases hn : g.node? id with
  | none =>
      simp only [List.not_mem_nil, false_iff, not_and]
      rintro rfl ⟨p, f, hmade⟩
      obtain ⟨n, hn', -⟩ := hmade.target
      rw [hn] at hn'
      cases hn'
  | some n =>
      obtain ⟨p, hstands⟩ := h.stands hn
      simp only [nodeFeeds_eq hstands, List.mem_filterMap, Feed.link?_eq_some_iff, h.owner_iff]
      constructor
      · rintro ⟨f, hf, hsource, hne, rfl, hchannel, hloss⟩
        exact ⟨rfl, p, f, hf, ⟨n, hn, hstands⟩, hsource, hne, hchannel, hloss⟩
      · rintro ⟨rfl, p', f, hmade⟩
        obtain ⟨n', hn', hstands'⟩ := hmade.target
        rw [hn, Option.some.injEq] at hn'
        subst hn'
        -- the node has one block only, so that the position is known
        obtain rfl := hstands'.position_eq hstands
        exact ⟨f, hmade.mem_feeds, hmade.source, hmade.ne, rfl, hmade.channel_eq, hmade.loss_eq⟩

/-- The links of a survey are between components. -/
theorem Placed.contains_links (h : Placed w g) :
    ∀ l ∈ g.nodeIds.flatMap (linksInto w g),
      g.contains l.source = true ∧ g.contains l.target = true := by
  intro l hl
  obtain ⟨id, -, hl⟩ := List.mem_flatMap.mp hl
  obtain ⟨-, p, f, hmade⟩ := h.mem_linksInto.mp hl
  obtain ⟨s, hs, -⟩ := hmade.source
  obtain ⟨t, ht, -⟩ := hmade.target
  exact ⟨contains_of_node? hs, contains_of_node? ht⟩

/-- Links are named in the order in which they are made. -/
theorem Placed.exists_getElem?_links (h : Placed w g) {i : LinkId}
    (hl : (addWiring w g).link? i = some l) :
    ∃ k, i = g.linkBound + k ∧ (g.nodeIds.flatMap (linksInto w g))[k]? = some l := by
  rw [addWiring_eq_foldl_addLink, link?_foldl_addLink h.contains_links] at hl
  split at hl
  case isTrue => cases (h.link?_eq i).symm.trans hl
  case isFalse hbound => exact ⟨_, (Nat.add_sub_cancel' (Nat.le_of_not_lt hbound)).symm, hl⟩

/-- Every feed between two components becomes a link, and there are no other links. -/
theorem Placed.exists_link_iff (h : Placed w g) :
    (∃ i, (addWiring w g).link? i = some l) ↔ ∃ p f, MadeOf w g l p f := by
  rw [addWiring_eq_foldl_addLink, exists_link?_foldl_addLink_iff h.contains_links]
  simp only [h.link?_eq, reduceCtorEq, exists_false, false_or, List.mem_flatMap, h.mem_linksInto]
  constructor
  · rintro ⟨id, -, -, hmade⟩
    exact hmade
  · rintro ⟨p, f, hmade⟩
    obtain ⟨t, ht, -⟩ := hmade.target
    exact ⟨l.target, mem_nodeIds.mpr (contains_of_node? ht), rfl, p, f, hmade⟩

/-! ## Links from a side -/

/-- The link feeds the diode at `p` from the position `q` at its side. -/
structure FromSide (w : World) (g : Circuit) (l : Link) (p q : Position) : Prop where
  side : q ∈ sides p (w.get p).facing
  made : ∃ f ∈ sideFeeds w p q, MadeOf w g l p f

theorem Placed.exists_side_link_iff (h : Placed w g) :
    (∃ i, (addWiring w g).link? i = some l) ∧ l.channel = .side ↔
      ∃ p q, FromSide w g l p q := by
  rw [h.exists_link_iff]
  constructor
  · rintro ⟨⟨p, f, hmade⟩, hside⟩
    obtain ⟨q, hq, hf⟩ :=
      mem_feeds_side_iff.mp ⟨hmade.mem_feeds, hmade.channel_eq.symm.trans hside⟩
    exact ⟨p, q, hq, f, hf, hmade⟩
  · rintro ⟨p, q, hq, f, hf, hmade⟩
    exact ⟨⟨p, f, hmade⟩, hmade.channel_eq.trans (channel_of_mem_sideFeeds hf)⟩

/-- A repeater is locked by the diode that stands at its side. -/
theorem FromSide.not_inLine (h : FromSide w g l p q) (hrepeater : (w.get p).material = .repeater)
    (hcompass : (w.get p).facing.isCompass = true) {p' : Position}
    (hn : g.node? l.source = some n) (hstands : StandsAt w p' n) :
    ¬ p.InLine (w.get p).facing p' := by
  obtain ⟨hq, f, hf, hmade⟩ := h
  rw [sideFeeds, hrepeater] at hf
  obtain ⟨rfl, -⟩ := mem_lockFeeds.mp hf
  obtain ⟨m, hm, hstands'⟩ := hmade.source
  rw [hn, Option.some.injEq] at hm
  subst hm
  rw [hstands.position_eq hstands']
  exact not_inLine_of_mem_sides hcompass hq

theorem exists_standsAt_of_isDiode (h : (w.get p).material.isDiode = true) :
    ∃ n, StandsAt w p n := by
  unfold StandsAt component?
  cases hm : (w.get p).material <;> rw [hm] at h <;> cases h <;> exact ⟨_, rfl⟩

/-- A diode that faces up or down is fed from the side by a diode behind it that faces the same
way. -/
theorem exists_fromSide_behind {r : Region} {d : Direction} (hd : d = .up ∨ d = .down)
    (hp : r.contains p = true) (hq : r.contains (p.step d.opposite) = true)
    (hdiode : (w.get p).material.isDiode = true) (hfacing : (w.get p).facing = d)
    (hdiode' : (w.get (p.step d.opposite)).material.isDiode = true)
    (hfacing' : (w.get (p.step d.opposite)).facing = d) :
    ∃ l : Link, FromSide w (addComponents w r .empty) l p (p.step d.opposite) := by
  obtain ⟨n, hn⟩ := exists_standsAt_of_isDiode hdiode
  obtain ⟨m, hm⟩ := exists_standsAt_of_isDiode hdiode'
  obtain ⟨target, htarget⟩ := exists_node_of_contains hp hn
  obtain ⟨source, hsource⟩ := exists_node_of_contains hq hm
  have hall : d ∈ Direction.all := by
    rcases hd with rfl | rfl <;> decide
  have hemits : emitsInto (p.step d.opposite) (w.get (p.step d.opposite)) p = true := by
    rw [emitsInto_of_isDiode hdiode', hfacing', Position.step_opposite_step hall, beq_self_eq_true]
  have hside : p.step d.opposite ∈ sides p (w.get p).facing := by
    rw [hfacing]
    refine (mem_sides_of_not_isCompass ?_).mpr (.inr rfl)
    rcases hd with rfl | rfl <;> rfl
  have hfeed := mem_sideFeeds_of_isDiode hdiode hdiode' hemits
  -- the two stand at different heights, so that they are two nodes
  have hne : source ≠ target := by
    rintro rfl
    rw [htarget, Option.some.injEq] at hsource
    subst hsource
    have hsame := congrArg Position.y (hn.position_eq hm)
    rcases hd with rfl | rfl
    · exact coordinate_pred_ne _ hsame.symm
    · exact coordinate_succ_ne _ hsame.symm
  refine ⟨{ source, target, channel := .side, loss := 0 }, hside, _, hfeed, ?_⟩
  exact ⟨(mem_feeds_side_iff.mpr ⟨_, hside, hfeed⟩).1, ⟨n, htarget, hn⟩, ⟨m, hsource, hm⟩, hne, rfl,
    rfl⟩

/-- The links on the side channel come from the sides of diodes, and all of them do.  The position at
the side is neither before nor behind the diode just if the diode faces a compass direction, and then
no repeater is locked by a component on its own line.  In a line of diodes that face up or down, each
one is fed from the side by the one behind it. -/
theorem side_links_come_from_sides (w : World) (r : Region) :
    let g₀ := addComponents w r .empty
    (∀ l : Link, (∃ i, (addWiring w g₀).link? i = some l) ∧ l.channel = .side ↔
      ∃ p q, FromSide w g₀ l p q) ∧
    (∀ l p q, FromSide w g₀ l p q →
      (q ≠ p.step (w.get p).facing ∧ q ≠ p.step (w.get p).facing.opposite ↔
        (w.get p).facing.isCompass = true)) ∧
    (∀ l p q, FromSide w g₀ l p q → (w.get p).material = .repeater →
      (w.get p).facing.isCompass = true → ∀ p' n, g₀.node? l.source = some n → StandsAt w p' n →
        ¬ p.InLine (w.get p).facing p') ∧
    ∀ p d, d = .up ∨ d = .down → r.contains p = true → r.contains (p.step d.opposite) = true →
      (w.get p).material.isDiode = true → (w.get p).facing = d →
      (w.get (p.step d.opposite)).material.isDiode = true →
      (w.get (p.step d.opposite)).facing = d →
        ∃ l : Link, FromSide w g₀ l p (p.step d.opposite) := by
  have hplaced := placed_addComponents w r
  refine ⟨fun l => hplaced.exists_side_link_iff, fun l p q h => side_ne_iff h.side, ?_, ?_⟩
  · intro l p q h hrepeater hcompass p' n hn hstands
    exact h.not_inLine hrepeater hcompass hn hstands
  · intro p d hd hp hq hdiode hfacing hdiode' hfacing'
    exact exists_fromSide_behind hd hp hq hdiode hfacing hdiode' hfacing'

/-- Three repeaters: two in line to the east, and one that locks the second of them from its side. -/
def crossing : World :=
  let east := { Block.placed .repeater with facing := .east }
  ((World.empty.set ⟨-1, 0, 0⟩ east).set ⟨0, 0, 0⟩ east).set ⟨0, 0, 1⟩ (.placed .repeater)

/-- The components of the crossing, in scanning order. -/
def crossingParts : Circuit :=
  addComponents crossing ⟨⟨-1, 0, 0⟩, ⟨0, 0, 1⟩⟩ .empty

/-- Two repeaters on top of each other that face up. -/
def climbing : World :=
  let up := { Block.placed .repeater with facing := .up }
  (World.empty.set ⟨0, 0, 0⟩ up).set ⟨0, 1, 0⟩ up

/-- The lock comes from a position that is neither before nor behind the locked repeater, and the
other repeater of the line does not lock it.  Among repeaters that face up there is such a lock. -/
theorem side_links_come_from_sides_crossing :
    (∃ q, FromSide crossing crossingParts { source := 2, target := 1, channel := .side, loss := 0 }
        ⟨0, 0, 0⟩ q ∧ q ≠ ⟨1, 0, 0⟩ ∧ q ≠ ⟨-1, 0, 0⟩) ∧
      (∀ i loss, (addWiring crossing crossingParts).link? i ≠
        some { source := 0, target := 1, channel := .side, loss }) ∧
      ∃ l : Link, FromSide climbing (addComponents climbing ⟨⟨0, 0, 0⟩, ⟨0, 1, 0⟩⟩ .empty) l
        ⟨0, 1, 0⟩ ⟨0, 0, 0⟩ := by
  obtain ⟨hlinks, hoff, hline, -⟩ :=
    side_links_come_from_sides crossing ⟨⟨-1, 0, 0⟩, ⟨0, 0, 1⟩⟩
  obtain ⟨-, -, -, hclimb⟩ := side_links_come_from_sides climbing ⟨⟨0, 0, 0⟩, ⟨0, 1, 0⟩⟩
  have hat (id : NodeId) (p' : Position)
      (hblocks : (crossingParts.node? id).map (fun n => n.blocks.map BlockRef.position) = some [p'])
      {n : Node} {p : Position} (hn : crossingParts.node? id = some n)
      (hp : StandsAt crossing p n) : p = p' := by
    rw [hn, Option.map_some, blocks_of_component? hp] at hblocks
    exact List.singleton_inj.mp (Option.some.inj hblocks)
  have hlocked : (crossing.get ⟨0, 0, 0⟩).material = .repeater := by decide +kernel
  have heast : (crossing.get ⟨0, 0, 0⟩).facing = .east := by decide +kernel
  -- the target of both links is the second repeater of the line
  have htarget {l : Link} {p q : Position} (h : FromSide crossing crossingParts l p q)
      (hl : l.target = 1) : p = ⟨0, 0, 0⟩ := by
    obtain ⟨f, -, hmade⟩ := h.made
    obtain ⟨n, hn, hp⟩ := hmade.target
    rw [hl] at hn
    exact hat 1 ⟨0, 0, 0⟩ (by decide +kernel) hn hp
  refine ⟨?_, ?_, hclimb ⟨0, 1, 0⟩ .up (.inl rfl) (by decide +kernel) (by decide +kernel)
    (by decide +kernel) (by decide +kernel) (by decide +kernel) (by decide +kernel)⟩
  · have hlink : (addWiring crossing crossingParts).link? 1 =
        some { source := 2, target := 1, channel := .side, loss := 0 } := by decide +kernel
    obtain ⟨p, q, hfrom⟩ := (hlinks _).mp ⟨⟨1, hlink⟩, rfl⟩
    obtain rfl := htarget hfrom rfl
    obtain ⟨hbefore, hbehind⟩ := (hoff _ _ _ hfrom).mpr (by rw [heast]; rfl)
    rw [heast] at hbefore hbehind
    exact ⟨q, hfrom, hbefore, hbehind⟩
  · intro i loss hlink
    obtain ⟨p, q, hfrom⟩ := (hlinks _).mp ⟨⟨i, hlink⟩, rfl⟩
    obtain rfl := htarget hfrom rfl
    obtain ⟨f, -, hmade⟩ := hfrom.made
    obtain ⟨n, hn, hp⟩ := hmade.source
    refine hline _ _ _ hfrom hlocked (by rw [heast]; rfl) _ n hn hp ?_
    rw [hat 0 ⟨-1, 0, 0⟩ (by decide +kernel) hn hp, heast]
    exact ⟨rfl, rfl⟩

/-- The upper repeater is fed by the lower one, from behind and also from the side. -/
theorem line_locks_itself_climbing :
    let g := addWiring climbing (addComponents climbing ⟨⟨0, 0, 0⟩, ⟨0, 1, 0⟩⟩ .empty)
    World.read (Bytes.ofString "0 0 0 repeater facing=up\n0 1 0 repeater facing=up\n") =
        .ok climbing ∧
      g.link? 0 = some { source := 0, target := 1, channel := .main, loss := 0 } ∧
      g.link? 1 = some { source := 0, target := 1, channel := .side, loss := 0 } := by
  exact ⟨rfl, by decide +kernel, by decide +kernel⟩

end Survey

end Redstone
