import Redstone.Proofs.Circuit.Relocation
import Redstone.Proofs.Survey.Scan
import Redstone.Proofs.World.Translation
import Redstone.Survey.Wiring

/-!
# Surveying a world that has been moved

The survey looks at blocks by their places relative to each other only.  So in a world that has been
moved it finds the same components and the same feeds, at moved positions and in the same order:
surveying the moved world gives the circuit of the world, relocated.
-/

namespace Redstone.Survey

open Position (translate)

variable {v : Offset} {w : World} {p q : Position}

/-! ## Components -/

@[simp] theorem facesDiode_translate (b : Block) :
    facesDiode (w.translate v) (p.translate v) b = facesDiode w p b := by
  simp [facesDiode]

@[simp] theorem comparatorGate_translate (b : Block) :
    comparatorGate (w.translate v) (p.translate v) b = comparatorGate w p b := by
  have hfar : farInput? (w.translate v) (p.translate v) b = farInput? w p b := by
    simp [farInput?]
  unfold comparatorGate
  rw [facesDiode_translate, hfar]

/-- A block becomes the same component at its new place. -/
theorem component?_translate (b : Block) :
    component? (w.translate v) (p.translate v) b =
      (component? w p b).map (Node.relocate (translate v)) := by
  unfold component?
  rw [facesDiode_translate, comparatorGate_translate]
  cases b.material <;> rfl

/-- The components keep their order, and so they keep their names. -/
theorem components_translate {r : Region} (h : r.Fits v) :
    components (w.translate v) (r.translate v) =
      (components w r).map (Node.relocate (translate v)) := by
  -- the moved blocks may be stored in another order, but the region lists its positions in order
  rw [components_eq_scan, components_eq_scan, h.positions_translate, List.filterMap_map,
    List.map_filterMap]
  refine List.filterMap_congr fun p _ => ?_
  rw [Function.comp, World.get_translate]
  exact component?_translate (w.get p)

theorem addComponents_translate {r : Region} (h : r.Fits v) (g : Circuit) :
    addComponents (w.translate v) (r.translate v) (g.relocate (translate v)) =
      (addComponents w r g).relocate (translate v) := by
  rw [addComponents, components_translate h, Circuit.addNodes_relocate, addComponents]

/-! ## Neighbours -/

@[simp] theorem emitsInto_translate (b : Block) :
    emitsInto (p.translate v) b (q.translate v) = emitsInto p b q := by
  simp [emitsInto]

@[simp] theorem powersSolid_translate (b : Block) :
    powersSolid (p.translate v) b (q.translate v) = powersSolid p b q := by
  simp [powersSolid]

@[simp] theorem wirePowers_translate :
    wirePowers (p.translate v) (q.translate v) = wirePowers p q := by
  have hlayer : ((q.translate v).y == (p.translate v).y) = (q.y == p.y) := by
    rw [Bool.eq_iff_iff]
    simp [Position.translate]
  rw [wirePowers, hlayer, Position.step_translate, Position.translate_beq, wirePowers]

@[simp] theorem isWire_translate : isWire (w.translate v) (p.translate v) = isWire w p := by
  simp [isWire]

theorem map_step_translate (ds : List Direction) :
    ds.map (p.translate v).step = (ds.map p.step).map (translate v) := by
  simp

theorem emitters_translate :
    emitters (w.translate v) (p.translate v) = (emitters w p).map (translate v) := by
  rw [emitters, map_step_translate, List.filter_map, emitters]
  congr 1
  refine List.filter_congr fun n _ => ?_
  simp

/-- Neighbours are listed by direction, which does not change. -/
theorem joinedWires_translate :
    joinedWires (w.translate v) (p.translate v) = (joinedWires w p).map (translate v) := by
  rw [joinedWires, map_step_translate, List.filter_map, joinedWires]
  congr 1
  refine List.filter_congr fun n _ => ?_
  simp

/-! ## Wire networks -/

/-- One search has come to the moved positions of the other one. -/
structure Reached.Moved (v : Offset) (r r' : Reached) : Prop where
  visited : ∀ p, r'.visited.contains (p.translate v) = r.visited.contains p
  level : r'.level = r.level.map (translate v)

namespace Reached.Moved

variable {r r' : Reached}

theorem visit (h : r.Moved v r') (p : Position) :
    (r.visit p).Moved v (r'.visit (p.translate v)) := by
  unfold Reached.visit
  rw [h.visited p]
  split
  · exact h
  · refine ⟨fun q => ?_, ?_⟩
    · rw [Std.ExtTreeSet.contains_insert, Std.ExtTreeSet.contains_insert, h.visited,
        Position.scanOrder_translate_beq_eq]
    · dsimp only
      rw [h.level, List.map_append]
      rfl

theorem foldl_visit (h : r.Moved v r') (ps : List Position) :
    (ps.foldl Reached.visit r).Moved v ((ps.map (translate v)).foldl Reached.visit r') := by
  induction ps generalizing r r' with
  | nil => exact h
  | cons p ps ih => exact ih (h.visit p)

theorem next (h : r.Moved v r') : (r.next w).Moved v (r'.next (w.translate v)) := by
  have hfound : r'.level.flatMap (joinedWires (w.translate v)) =
      (r.level.flatMap (joinedWires w)).map (translate v) := by
    rw [h.level, List.flatMap_map, List.map_flatMap]
    exact List.flatMap_congr fun p _ => joinedWires_translate
  have hbare : Reached.Moved v { r with level := [] } { r' with level := [] } := ⟨h.visited, rfl⟩
  unfold Reached.next
  rw [hfound]
  exact hbare.foldl_visit _

end Reached.Moved

/-- The feed with its origin moved. -/
def Feed.translate (v : Offset) (f : Feed) : Feed :=
  { f with origin := f.origin.translate v }

/-- The search of a network goes through the moved network level by level. -/
theorem networkFeeds_translate (channel : Channel) (levels : Nat) (loss : UInt8) {r r' : Reached}
    (h : r.Moved v r') :
    networkFeeds (w.translate v) channel levels loss r' =
      (networkFeeds w channel levels loss r).map (Feed.translate v) := by
  induction levels generalizing loss r r' with
  | zero => rfl
  | succ levels ih =>
      have hlevel : r'.level.flatMap (emitters (w.translate v)) =
          (r.level.flatMap (emitters w)).map (translate v) := by
        rw [h.level, List.flatMap_map, List.map_flatMap]
        exact List.flatMap_congr fun p _ => emitters_translate
      rw [networkFeeds, networkFeeds, hlevel, ih (loss + 1) h.next, List.map_append, List.map_map,
        List.map_map]
      rfl

/-- The search of a network meets the same wires at their new places, in the same order. -/
theorem wireFeeds_translate (channel : Channel) :
    wireFeeds (w.translate v) channel (p.translate v) =
      (wireFeeds w channel p).map (Feed.translate v) := by
  refine networkFeeds_translate channel _ 0 ⟨fun q => ?_, rfl⟩
  dsimp only
  rw [Std.ExtTreeSet.contains_insert, Std.ExtTreeSet.contains_insert,
    Position.scanOrder_translate_beq_eq]
  rfl

/-! ## Feeds -/

theorem solidFeeds_translate (channel : Channel) :
    solidFeeds (w.translate v) channel (p.translate v) (q.translate v) =
      (solidFeeds w channel p q).map (Feed.translate v) := by
  have hothers : (((Direction.all.map q.step).map (translate v)).filter (· != p.translate v)) =
      ((Direction.all.map q.step).filter (· != p)).map (translate v) := by
    rw [List.filter_map]
    congr 1
    exact List.filter_congr fun n _ => Position.translate_bne
  unfold solidFeeds
  rw [map_step_translate, hothers, List.flatMap_map, List.map_flatMap]
  refine List.flatMap_congr fun n _ => ?_
  rw [isWire_translate, wirePowers_translate, World.get_translate, powersSolid_translate,
    wireFeeds_translate]
  refine ite_eq_map_ite (List.map (Feed.translate v)) (fun _ => ?_) fun _ => ?_
  · exact ite_eq_map_ite (List.map (Feed.translate v)) (fun _ => rfl) fun _ => rfl
  · exact ite_eq_map_ite (List.map (Feed.translate v)) (fun _ => rfl) fun _ => rfl

theorem neighbourFeeds_translate (channel : Channel) :
    neighbourFeeds (w.translate v) channel (p.translate v) (q.translate v) =
      (neighbourFeeds w channel p q).map (Feed.translate v) := by
  unfold neighbourFeeds
  rw [World.get_translate, wirePowers_translate, wireFeeds_translate, solidFeeds_translate,
    emitsInto_translate]
  split
  · exact ite_eq_map_ite (List.map (Feed.translate v)) (fun _ => rfl) fun _ => rfl
  · rfl
  · exact ite_eq_map_ite (List.map (Feed.translate v)) (fun _ => rfl) fun _ => rfl

theorem lockFeeds_translate :
    lockFeeds (w.translate v) (p.translate v) (q.translate v) =
      (lockFeeds w p q).map (Feed.translate v) := by
  unfold lockFeeds
  rw [World.get_translate, emitsInto_translate]
  exact ite_eq_map_ite (List.map (Feed.translate v)) (fun _ => rfl) fun _ => rfl

theorem comparedFeeds_translate :
    comparedFeeds (w.translate v) (p.translate v) (q.translate v) =
      (comparedFeeds w p q).map (Feed.translate v) := by
  have hdirect (c : Bool) :
      (if c then [({ origin := q.translate v, channel := .side, loss := 0 } : Feed)] else []) =
        (if c then [({ origin := q, channel := .side, loss := 0 } : Feed)] else []).map
          (Feed.translate v) :=
    ite_eq_map_ite (List.map (Feed.translate v)) (fun _ => rfl) fun _ => rfl
  unfold comparedFeeds
  rw [World.get_translate, emitsInto_translate, wireFeeds_translate, hdirect]
  split <;> rfl

theorem sides_translate (facing : Direction) :
    sides (p.translate v) facing = (sides p facing).map (translate v) := by
  simp [sides]

/-- The feeds of a component keep their order, channels and losses. -/
theorem feeds_translate (p : Position) :
    feeds (w.translate v) (p.translate v) = (feeds w p).map (Feed.translate v) := by
  have hneighbour (d : Direction) :
      neighbourFeeds (w.translate v) .main (p.translate v) ((p.translate v).step d) =
        (neighbourFeeds w .main p (p.step d)).map (Feed.translate v) := by
    rw [Position.step_translate, neighbourFeeds_translate]
  have hsides {search search' : Position → List Feed} (facing : Direction)
      (h : ∀ q, search' (q.translate v) = (search q).map (Feed.translate v)) :
      (sides (p.translate v) facing).flatMap search' =
        ((sides p facing).flatMap search).map (Feed.translate v) := by
    rw [sides_translate, List.flatMap_map, List.map_flatMap]
    exact List.flatMap_congr fun q _ => h q
  unfold feeds
  rw [World.get_translate]
  dsimp only
  cases (w.get p).material with
  | repeater =>
      dsimp only
      rw [hneighbour, hsides _ fun q => lockFeeds_translate, List.map_append]
  | comparator =>
      dsimp only
      rw [hneighbour, hsides _ fun q => comparedFeeds_translate, List.map_append]
  | torch => exact hneighbour _
  | wire => exact wireFeeds_translate .main
  | lamp | trapdoor | noteBlock =>
      dsimp only
      rw [map_step_translate, List.flatMap_map, List.map_flatMap]
      exact List.flatMap_congr fun q _ => neighbourFeeds_translate .main
  | _ => rfl

/-! ## Wiring -/

/-- The same nodes stand at the moved positions. -/
def Owners.Moved (v : Offset) (o o' : Owners) : Prop :=
  ∀ p : Position, o'[p.translate v]? = o[p]?

theorem Owners.Moved.addNode {o o' : Owners} (h : o.Moved v o') (id : NodeId) (n : Node) :
    (o.addNode id n).Moved v (o'.addNode id (n.relocate (translate v))) := by
  have hfold (blocks : List BlockRef) {o o' : Owners} (h : o.Moved v o') :
      Owners.Moved v (blocks.foldl (fun o b => o.insert b.position id) o)
        ((blocks.map (·.relocate (translate v))).foldl (fun o b => o.insert b.position id) o') := by
    induction blocks generalizing o o' with
    | nil => exact h
    | cons b blocks ih =>
        refine ih fun p => ?_
        simp only [BlockRef.relocate, Std.ExtTreeMap.getElem?_insert, h p,
          Position.scanOrder_translate_eq_iff]
  exact hfold n.blocks h

/-- Who stands where is moved with the nodes. -/
theorem owners_relocate (g : Circuit) :
    (owners g).Moved v (owners (g.relocate (translate v))) := by
  have hfold (ids : List NodeId) {note note' : Owners → NodeId → Owners}
      (hnote : ∀ {o o' : Owners} (id : NodeId), o.Moved v o' → (note o id).Moved v (note' o' id))
      {o o' : Owners} (h : o.Moved v o') :
      Owners.Moved v (ids.foldl note o) (ids.foldl note' o') := by
    induction ids generalizing o o' with
    | nil => exact h
    | cons id ids ih => exact ih (hnote id h)
  unfold owners
  rw [Circuit.nodeIds_relocate]
  refine hfold g.nodeIds (fun id h => ?_) fun p => rfl
  rw [Circuit.node?_relocate]
  cases g.node? id with
  | none => exact h
  | some n => exact h.addNode id n

theorem linkFeed_relocate {o o' : Owners} (h : o.Moved v o') (target : NodeId) (g : Circuit)
    (f : Feed) :
    linkFeed o' target (g.relocate (translate v)) (f.translate v) =
      (linkFeed o target g f).relocate (translate v) := by
  have howner : o'[(f.translate v).origin]? = o[f.origin]? := h f.origin
  unfold linkFeed
  rw [howner]
  cases o[f.origin]? with
  | none => rfl
  | some source =>
      refine ite_eq_map_ite (Circuit.relocate (translate v)) (fun _ => rfl) fun _ => ?_
      exact Circuit.addLink_relocate (translate v) g _

/-- A node is linked to the same nodes, since the same nodes stand where its feeds come from. -/
theorem linkNode_translate {o o' : Owners} (h : o.Moved v o') (g : Circuit) (id : NodeId) :
    linkNode (w.translate v) o' (g.relocate (translate v)) id =
      (linkNode w o g id).relocate (translate v) := by
  have hfold (fs : List Feed) :
      (fs.map (Feed.translate v)).foldl (linkFeed o' id) (g.relocate (translate v)) =
        (fs.foldl (linkFeed o id) g).relocate (translate v) := by
    rw [List.foldl_map]
    exact List.foldl_hom (Circuit.relocate (translate v)) fun g f => linkFeed_relocate h id g f
  have hfeeds (n : Node) :
      nodeFeeds (w.translate v) (n.relocate (translate v)) =
        (nodeFeeds w n).map (Feed.translate v) := by
    unfold nodeFeeds Node.relocate
    cases n.blocks with
    | nil => rfl
    | cons b rest => exact feeds_translate b.position
  unfold linkNode
  rw [Circuit.node?_relocate]
  cases g.node? id with
  | none => rfl
  | some n =>
      change (nodeFeeds (w.translate v) (n.relocate (translate v))).foldl _ _ = _
      rw [hfeeds, hfold]

/-- Wiring the moved circuit in the moved world gives the moved wiring. -/
theorem addWiring_translate (g : Circuit) :
    addWiring (w.translate v) (g.relocate (translate v)) =
      (addWiring w g).relocate (translate v) := by
  unfold addWiring
  rw [Circuit.nodeIds_relocate]
  exact List.foldl_hom (Circuit.relocate (translate v)) fun g' id =>
    linkNode_translate (owners_relocate g) g' id

end Redstone.Survey
