import Redstone.Proofs.Survey.Lamps
import Redstone.Proofs.Survey.Scan
import Redstone.Proofs.World.Written

/-!
# Circuits that outgrow their worlds

A netlist names its nodes with 27 bits, and a circuit with more nodes has no netlist.  The survey
finds no more nodes than the world has blocks, but the optimization adds constants: where every lamp
has a block of redstone next to it, every lamp ends up with a constant of its own, however few blocks
of redstone there are.  Rows of lamps above and below a row of blocks of redstone become a circuit
with four nodes for three blocks.  If they are long enough, the world has fewer than `2 ^ 27` blocks
and the circuit has more nodes than that.
-/

namespace Redstone

open Circuit Survey Optimize

namespace Optimize

/-- The optimization leaves as many links, and two nodes for each of them. -/
theorem pairs_tidied_folded {g : Circuit} (h : Pendants g) :
    Pairs (tidied (folded g)) ∧ (tidied (folded g)).linkCount = g.linkCount := by
  have hfolded : folded g = g := by
    simp [folded, h.dedupLinks_eq, h.collapseBuses_eq, h.foldConstants_eq, Revision.unchanged]
  have hreachable : (Pass.removeUnreachable g).1 = (settleOutputs g).circuit := by
    simp [Pass.removeUnreachable, h.pruneDeadLinks_eq, Revision.unchanged]
  obtain ⟨hsettled, hlinks⟩ := h.settleOutputs
  obtain ⟨hshared, hlinks'⟩ := hsettled.shareConstants
  obtain ⟨hpruned, hlinks''⟩ := hshared.pruneOrphans
  have htidied : tidied g =
      (pruneOrphans (shareConstants (settleOutputs g).circuit).circuit).circuit := by
    rw [tidied, hreachable, hshared.mergeDuplicates_eq]
    rfl
  rw [hfolded, htidied]
  exact ⟨hpruned, hlinks''.trans (hlinks'.trans hlinks)⟩

end Optimize

namespace Compile

/-- Each lamp of such a world gets a constant of its own. -/
theorem crowded {σ : Type} (now : StateM σ Instant) (settings : Settings)
    (hoptimize : settings.optimize = true) (hdisabled : settings.disabled = [])
    (hexports : settings.exports = false) {data : Bytes} {world : World}
    (hread : World.read data = .ok world) (hblocks : 0 < world.size) (hlamps : LampsOnly world)
    (w : Workspace) (hcancelled : w.monitor.cancelled = false) (s : σ) :
    let c := ((textIn (.quiet now) settings data w).run s).1
    c.error = none ∧ ∃ g, c.circuit? = some g ∧ g.WellFormed ∧
      g.linkCount = (world.toList.countP fun x => x.2.material == .lamp) ∧
      2 * g.linkCount ≤ g.nodeCount := by
  obtain ⟨region, hextent, hvalid⟩ := World.exists_extent hblocks
  obtain ⟨hnone, hfinishes⟩ := finishes_of_unasked (.quiet now) (fun _ => rfl) hexports
    (World.powered_of_read hread) hvalid (w := w.debug "compiling" [("bounds", region.text)])
    hcancelled s
  have hpendants := hlamps.pendants_surveyed hextent
  obtain ⟨hpairs, hlinks⟩ := pairs_tidied_folded hpendants
  have hcircuit := circuit_of_optimized hdisabled hoptimize hfinishes
  rw [hpendants.clampLosses_eq] at hcircuit
  rw [run_textIn (.quiet now) settings hread hextent]
  dsimp only
  rw [error_outcome, circuit?_outcome, hnone, hcircuit]
  refine ⟨rfl, _, rfl, hpairs.wellFormed, ?_, hpairs.two_mul_linkCount_le⟩
  rw [← hlamps.linkCount_surveyed hextent]
  exact hlinks

end Compile

namespace World

/-! ## Rows of lamps -/

/-- A block of redstone with a lamp below and a lamp above it, in column `k`. -/
def column (k : Nat) : List (Position × Material) :=
  [ (⟨Int32.ofNat k, 0, 0⟩, .lamp)
  , (⟨Int32.ofNat k, 1, 0⟩, .redstoneBlock)
  , (⟨Int32.ofNat k, 2, 0⟩, .lamp) ]

/-- `n` columns side by side. -/
def rows (n : Nat) : List (Position × Material) :=
  (List.range n).flatMap column

/-- The world of the rows. -/
def ofRows (n : Nat) : World :=
  empty.placeAll ((rows n).map fun x => (x.1, Block.placed x.2))

variable {n : Nat}

theorem mem_rows {x : Position × Material} : x ∈ rows n ↔ ∃ k < n, x ∈ column k := by
  simp [rows]

/-- The columns stand side by side as long as their numbers are coordinates. -/
theorem nodup_rows (hn : n ≤ 2 ^ 31) : ((rows n).map Prod.fst).Nodup := by
  have hx {k : Nat} {p : Position} (hp : p ∈ (column k).map Prod.fst) : p.x = Int32.ofNat k := by
    simp only [column, List.map_cons, List.map_nil, List.mem_cons, List.not_mem_nil, or_false] at hp
    rcases hp with rfl | rfl | rfl <;> rfl
  rw [rows, List.map_flatMap, List.nodup_flatMap]
  refine ⟨fun k _ => by simp [column], ?_⟩
  refine List.nodup_range.imp_of_mem fun {a b} ha hb hne => ?_
  intro p hpa hpb
  have heq := congrArg Int32.toInt ((hx hpa).symm.trans (hx hpb))
  rw [List.mem_range] at ha hb
  rw [Int32.toInt_ofNat_of_lt (by omega), Int32.toInt_ofNat_of_lt (by omega)] at heq
  omega

theorem material_of_mem_rows {x : Position × Material} (hx : x ∈ rows n) :
    x.2 = .lamp ∨ x.2 = .redstoneBlock := by
  obtain ⟨k, -, hx⟩ := mem_rows.mp hx
  simp only [column, List.mem_cons, List.not_mem_nil, or_false] at hx
  rcases hx with rfl | rfl | rfl <;> simp

theorem ofRows_perm (hn : n ≤ 2 ^ 31) :
    (ofRows n).toList.Perm ((rows n).map fun x => (x.1, Block.placed x.2)) := by
  refine toList_placeAll_perm ?_ fun y hy => ?_
  · rw [List.map_map]
    exact nodup_rows hn
  · obtain ⟨x, hx, rfl⟩ := List.mem_map.mp hy
    rcases material_of_mem_rows hx with hm | hm <;> simp [hm, Block.placed]

theorem size_ofRows (hn : n ≤ 2 ^ 31) : (ofRows n).size = 3 * n := by
  have hlength : (ofRows n).toList.length = (ofRows n).size := Std.ExtTreeMap.length_toList
  rw [← hlength, (ofRows_perm hn).length_eq]
  simp [rows, column, Nat.mul_comm]

theorem countP_lamps_ofRows (hn : n ≤ 2 ^ 31) :
    ((ofRows n).toList.countP fun x => x.2.material == .lamp) = 2 * n := by
  rw [(ofRows_perm hn).countP_eq, List.countP_map, rows, List.countP_flatMap]
  simp [column, Block.placed, Function.comp_def, Nat.mul_comm]

/-- Blocks of redstone stand in the middle row. -/
theorem get_ofRows_eq_redstoneBlock_iff (hn : n ≤ 2 ^ 31) {q : Position} :
    ((ofRows n).get q).material = .redstoneBlock ↔ ∃ k < n, q = ⟨Int32.ofNat k, 1, 0⟩ := by
  constructor
  · intro hq
    cases hb : (ofRows n).blocks[q]? with
    | none =>
        rw [get, hb] at hq
        cases hq
    | some b =>
        rw [get, hb] at hq
        have hmem := (ofRows_perm hn).mem_iff.mp (mem_toList_iff.mpr hb)
        obtain ⟨x, hx, heq⟩ := List.mem_map.mp hmem
        cases heq
        obtain ⟨k, hk, hx⟩ := mem_rows.mp hx
        simp only [column, List.mem_cons, List.not_mem_nil, or_false] at hx
        rcases hx with rfl | rfl | rfl
        · cases hq
        · exact ⟨k, hk, rfl⟩
        · cases hq
  · rintro ⟨k, hk, rfl⟩
    have hmem : (⟨Int32.ofNat k, 1, 0⟩, Block.placed .redstoneBlock) ∈ (ofRows n).toList := by
      refine (ofRows_perm hn).mem_iff.mpr (List.mem_map.mpr ⟨(_, .redstoneBlock), ?_, rfl⟩)
      exact mem_rows.mpr ⟨k, hk, by simp [column]⟩
    rw [get_of_mem_toList hmem]
    rfl

/-- Every lamp of the rows has one block of redstone next to it, above or below. -/
theorem lampsOnly_ofRows (hn : n ≤ 2 ^ 31) : LampsOnly (ofRows n) where
  material := by
    intro p b hb
    obtain ⟨x, hx, heq⟩ := List.mem_map.mp ((ofRows_perm hn).mem_iff.mp hb)
    cases heq
    rcases material_of_mem_rows hx with hm | hm <;> simp [hm, Block.placed]
  lit := by
    intro p b hb hlamp
    obtain ⟨x, hx, heq⟩ := List.mem_map.mp ((ofRows_perm hn).mem_iff.mp hb)
    cases heq
    obtain ⟨k, hk, hx⟩ := mem_rows.mp hx
    have hmiddle : ((ofRows n).get ⟨Int32.ofNat k, 1, 0⟩).material = .redstoneBlock :=
      (get_ofRows_eq_redstoneBlock_iff hn).mpr ⟨k, hk, rfl⟩
    have houtside {q : Position} (hq : q.y ≠ 1) :
        ((ofRows n).get q).material ≠ .redstoneBlock := by
      intro hredstone
      obtain ⟨j, -, rfl⟩ := (get_ofRows_eq_redstoneBlock_iff hn).mp hredstone
      exact hq rfl
    refine ⟨⟨Int32.ofNat k, 1, 0⟩, ?_⟩
    simp only [column, List.mem_cons, List.not_mem_nil, or_false] at hx
    rcases hx with rfl | rfl | rfl
    · simp [Direction.all, Position.step, hmiddle, houtside]
    · cases hlamp
    · simp [Direction.all, Position.step, hmiddle, houtside]

end World

namespace Compile

/-- The circuit of `n` columns has two links and four nodes for each of them, and it has no netlist if
these are too many. -/
theorem crowded_rows {σ : Type} (now : StateM σ Instant) (settings : Settings)
    (hoptimize : settings.optimize = true) (hdisabled : settings.disabled = [])
    (hexports : settings.exports = false) {n : Nat} (hpos : 0 < n) (hn : n ≤ 2 ^ 31)
    (w : Workspace) (hcancelled : w.monitor.cancelled = false) (s : σ) :
    let c := ((textIn (.quiet now) settings (World.written (World.rows n)) w).run s).1
    World.read (World.written (World.rows n)) = .ok (World.ofRows n) ∧
      c.error = none ∧ ∃ g, c.circuit? = some g ∧ g.linkCount = 2 * n ∧ 4 * n ≤ g.nodeCount ∧
        (ForwardLink.maxNodes < 4 * n → g.flatten = .error (.tooManyNodes g.nodeCount)) := by
  have hread : World.read (World.written (World.rows n)) = .ok (World.ofRows n) := by
    refine World.read_written fun x hx => ?_
    rcases World.material_of_mem_rows hx with hm | hm <;> rw [hm] <;> decide
  have hblocks : 0 < (World.ofRows n).size := by
    rw [World.size_ofRows hn]
    omega
  obtain ⟨herror, g, hcircuit, hwf, hlinks, hnodes⟩ := crowded now settings hoptimize hdisabled
    hexports hread hblocks (World.lampsOnly_ofRows hn) w hcancelled s
  rw [World.countP_lamps_ofRows hn] at hlinks
  have hcount : 4 * n ≤ g.nodeCount := by omega
  refine ⟨hread, herror, g, hcircuit, hlinks, hcount, fun hmany => ?_⟩
  rw [hwf.nodeCount_eq] at hcount ⊢
  exact flatten_of_lt (Nat.lt_of_lt_of_le hmany hcount)

/-- Rows of 33554433 columns have 100663299 blocks and 67108866 links, but no netlist. -/
theorem long_rows_have_no_netlist :
    let data := World.written (World.rows 33554433)
    let world := World.ofRows 33554433
    let c := ((textIn (m := StateM Unit) (.quiet (pure 0)) .default data
      { log := { verbose := false } }).run ()).1
    World.read data = .ok world ∧ 0 < world.size ∧ world.size < 2 ^ 27 ∧ c.error = none ∧
      ∃ g, c.circuit? = some g ∧ g.linkCount < 2 ^ 32 ∧ 2 ^ 27 < g.nodeCount ∧
        g.flatten = .error (.tooManyNodes g.nodeCount) := by
  obtain ⟨hread, herror, g, hcircuit, hlinks, hnodes, hflatten⟩ :=
    crowded_rows (σ := Unit) (pure 0) .default rfl rfl rfl (n := 33554433) (by decide) (by decide)
      { log := { verbose := false } } rfl ()
  have hsize : (World.ofRows 33554433).size = 100663299 := World.size_ofRows (by decide)
  have hmany : ForwardLink.maxNodes < 4 * 33554433 := by decide
  have hfew : g.linkCount < 2 ^ 32 := by omega
  have hmore : 2 ^ 27 < g.nodeCount := by omega
  refine ⟨hread, ?_, ?_, herror, g, hcircuit, hfew, hmore, hflatten hmany⟩
  · rw [hsize]
    decide
  · rw [hsize]
    decide

end Compile

end Redstone
