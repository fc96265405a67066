import Mathlib.Logic.Function.Iterate
import Mathlib.Order.Bounds.Basic
import Redstone.Proofs.Survey.Wiring

/-!
# Distances in a network of wires

A signal that enters a network of wires loses one strength on each step to the wire where it is
wanted.  The search over a network goes level by level, and its levels are the wires at one distance:
the length of the shortest path through wires of one layer.  So the links that it makes are known
without the search.  For every wire at a distance of at most fourteen, and every neighbour that puts
out power into it, there is one link, which loses the distance.

A search that keeps its wires in a queue finds the same feeds in the same order, and it ends.
-/

namespace Redstone.Survey

open Circuit

variable {w : World} {start p q : Position} {channel : Channel}

/-! ## Paths along wires -/

/-- A path along wires, which takes a number of steps on the layer of the wire `start`. -/
inductive WirePath (w : World) (start : Position) : Nat → Position → Prop
  | here (hwire : isWire w start = true) : WirePath w start 0 start
  | step {k : Nat} {p : Position} {d : Direction} (hpath : WirePath w start k p)
      (hd : d ∈ Direction.all) (hhorizontal : d.isHorizontal = true)
      (hwire : isWire w (p.step d) = true) : WirePath w start (k + 1) (p.step d)

/-- The number of steps of the shortest path to a wire. -/
def WireDistance (w : World) (start p : Position) (d : Nat) : Prop :=
  IsLeast { k | WirePath w start k p } d

theorem mem_joinedWires :
    q ∈ joinedWires w p ↔
      ∃ d ∈ Direction.all, d.isHorizontal = true ∧ p.step d = q ∧ isWire w q = true := by
  unfold joinedWires
  rw [List.mem_filter, List.mem_map]
  constructor
  · rintro ⟨⟨d, hd, rfl⟩, hwire⟩
    obtain ⟨hall, hhorizontal⟩ := List.mem_filter.mp hd
    exact ⟨d, hall, hhorizontal, rfl, hwire⟩
  · rintro ⟨d, hall, hhorizontal, rfl, hwire⟩
    exact ⟨⟨d, List.mem_filter.mpr ⟨hall, hhorizontal⟩, rfl⟩, hwire⟩

theorem wirePath_zero_iff (hstart : isWire w start = true) : WirePath w start 0 p ↔ p = start := by
  constructor
  · intro h
    cases h
    rfl
  · intro h
    rw [h]
    exact .here hstart

/-- The last step of a path joins two wires. -/
theorem wirePath_succ_iff {k : Nat} :
    WirePath w start (k + 1) q ↔ ∃ p, WirePath w start k p ∧ q ∈ joinedWires w p := by
  constructor
  · intro h
    cases h with
    | step hpath hd hhorizontal hwire =>
        exact ⟨_, hpath, mem_joinedWires.mpr ⟨_, hd, hhorizontal, rfl, hwire⟩⟩
  · rintro ⟨p, hpath, hjoined⟩
    obtain ⟨d, hd, hhorizontal, rfl, hwire⟩ := mem_joinedWires.mp hjoined
    exact .step hpath hd hhorizontal hwire

/-- A wire is one step farther away than the nearest of the wires it is joined to. -/
theorem wireDistance_succ_iff {d : Nat} :
    WireDistance w start q (d + 1) ↔
      (∃ p, WireDistance w start p d ∧ q ∈ joinedWires w p) ∧
        ∀ k ≤ d, ¬ WirePath w start k q := by
  constructor
  · rintro ⟨hpath, hleast⟩
    have hnone : ∀ k ≤ d, ¬ WirePath w start k q := by
      intro k hk hshort
      have hle : d + 1 ≤ k := hleast hshort
      omega
    obtain ⟨p, hp, hjoined⟩ := wirePath_succ_iff.mp hpath
    refine ⟨⟨p, ⟨hp, fun k hk => ?_⟩, hjoined⟩, hnone⟩
    -- a shorter path to `p` would go on to `q`
    by_contra hlt
    exact hnone (k + 1) (by omega) (wirePath_succ_iff.mpr ⟨p, hk, hjoined⟩)
  · rintro ⟨⟨p, hp, hjoined⟩, hnone⟩
    refine ⟨wirePath_succ_iff.mpr ⟨p, hp.1, hjoined⟩, fun k hk => ?_⟩
    by_contra hlt
    exact hnone k (by omega) hk

/-! ## The levels of a search -/

namespace Reached

variable {r : Reached}

@[simp] theorem contains_visit :
    (r.visit p).visited.contains q = true ↔ r.visited.contains q = true ∨ q = p := by
  unfold visit
  split
  case isTrue hold =>
    constructor
    · exact .inl
    · rintro (h | rfl)
      · exact h
      · exact hold
  case isFalse =>
    rw [Std.ExtTreeSet.contains_insert, Bool.or_eq_true, beq_iff_eq,
      Std.LawfulEqCmp.compare_eq_iff_eq, or_comm, eq_comm (a := p)]

theorem mem_level_visit :
    q ∈ (r.visit p).level ↔ q ∈ r.level ∨ q = p ∧ r.visited.contains p = false := by
  unfold visit
  split
  case isTrue hold => simp [hold]
  case isFalse hnew =>
    rw [Bool.not_eq_true] at hnew
    simp [hnew]

theorem contains_foldl_visit (ps : List Position) :
    (ps.foldl visit r).visited.contains q = true ↔ r.visited.contains q = true ∨ q ∈ ps := by
  induction ps generalizing r with
  | nil => simp
  | cons p ps ih =>
      rw [List.foldl_cons, ih, contains_visit, List.mem_cons, or_assoc]

theorem mem_level_foldl_visit (ps : List Position) :
    q ∈ (ps.foldl visit r).level ↔ q ∈ r.level ∨ q ∈ ps ∧ r.visited.contains q = false := by
  induction ps generalizing r with
  | nil => simp
  | cons p ps ih =>
      have hvisit : (r.visit p).visited.contains q = false ↔
          r.visited.contains q = false ∧ q ≠ p := by
        rw [← Bool.not_eq_true, contains_visit, not_or, Bool.not_eq_true]
      rw [List.foldl_cons, ih, mem_level_visit, List.mem_cons, hvisit]
      grind

/-- The wires of the newest level have been visited, and each of them once. -/
structure Consistent (r : Reached) : Prop where
  visited : ∀ p ∈ r.level, r.visited.contains p = true
  nodup : r.level.Nodup

theorem Consistent.visit (h : r.Consistent) (p : Position) : (r.visit p).Consistent where
  visited := by
    intro q hq
    rw [contains_visit]
    rcases mem_level_visit.mp hq with hq | ⟨rfl, -⟩
    · exact .inl (h.visited q hq)
    · exact .inr rfl
  nodup := by
    unfold Reached.visit
    split
    · exact h.nodup
    case isFalse hnew =>
      have hfresh : p ∉ r.level := fun hp => hnew (h.visited p hp)
      simp only [List.nodup_append, List.mem_singleton]
      refine ⟨h.nodup, by simp, ?_⟩
      rintro q hq _ rfl rfl
      exact hfresh hq

theorem Consistent.foldl_visit (h : r.Consistent) (ps : List Position) :
    (ps.foldl Reached.visit r).Consistent :=
  List.foldlRecOn ps _ h fun _ hr p _ => hr.visit p

/-- The newest level holds the wires at distance `d` from the start, and the search has come to all
wires that are not farther away. -/
structure AtDepth (w : World) (start : Position) (d : Nat) (r : Reached) : Prop where
  visited : ∀ p, r.visited.contains p = true ↔ ∃ k ≤ d, WirePath w start k p
  level : ∀ p, p ∈ r.level ↔ WireDistance w start p d
  nodup : r.level.Nodup

theorem atDepth_zero (hstart : isWire w start = true) :
    AtDepth w start 0 { visited := Std.ExtTreeSet.empty.insert start, level := [start] } where
  visited := by
    intro p
    simp only [Nat.le_zero_eq, exists_eq_left, wirePath_zero_iff hstart]
    rw [Std.ExtTreeSet.contains_insert, Bool.or_eq_true, beq_iff_eq,
      Std.LawfulEqCmp.compare_eq_iff_eq, eq_comm]
    simp
  level := by
    intro p
    rw [List.mem_singleton, ← wirePath_zero_iff hstart]
    exact ⟨fun h => ⟨h, fun _ _ => Nat.zero_le _⟩, fun h => h.1⟩
  nodup := List.nodup_singleton _

/-- One level of the search is one step of distance. -/
theorem AtDepth.next {d : Nat} (h : AtDepth w start d r) :
    AtDepth w start (d + 1) (r.next w) := by
  have hjoined (q : Position) : q ∈ r.level.flatMap (joinedWires w) ↔
      ∃ p, WireDistance w start p d ∧ q ∈ joinedWires w p := by
    simp only [List.mem_flatMap, h.level]
  have hlevel (q : Position) : q ∈ (r.next w).level ↔ WireDistance w start q (d + 1) := by
    have hnew : r.visited.contains q = false ↔ ∀ k ≤ d, ¬ WirePath w start k q := by
      rw [← Bool.not_eq_true, h.visited]
      simp only [not_exists, not_and]
    rw [Reached.next, mem_level_foldl_visit, wireDistance_succ_iff, hjoined, hnew]
    simp
  have hempty : Consistent { r with level := [] } := ⟨nofun, .nil⟩
  refine ⟨fun q => ?_, hlevel, (hempty.foldl_visit _).nodup⟩
  rw [Reached.next, contains_foldl_visit, h.visited, hjoined]
  constructor
  · rintro (⟨k, hk, hpath⟩ | ⟨p, hp, hq⟩)
    · exact ⟨k, by omega, hpath⟩
    · exact ⟨d + 1, by omega, wirePath_succ_iff.mpr ⟨p, hp.1, hq⟩⟩
  · rintro ⟨k, hk, hpath⟩
    by_cases hold : ∃ k ≤ d, WirePath w start k q
    · exact .inl hold
    · -- the path is the shortest one, so that its last step leaves the newest level
      have hlast : k = d + 1 := by
        by_contra hne
        exact hold ⟨k, by omega, hpath⟩
      subst hlast
      obtain ⟨p, hp, hq⟩ := wirePath_succ_iff.mp hpath
      have hdistance : WireDistance w start q (d + 1) := by
        refine ⟨hpath, fun k hk => ?_⟩
        by_contra hlt
        exact hold ⟨k, by omega, hk⟩
      exact .inr (wireDistance_succ_iff.mp hdistance).1

end Reached

/-! ## Taps -/

/-- A place where power enters a wire from a neighbour, and the distance of the wire. -/
structure Tap where
  wire : Position
  origin : Position
  distance : Nat
deriving DecidableEq, Repr

/-- The tap belongs to the network of the wire at `start`. -/
structure Tap.IsOn (w : World) (start : Position) (t : Tap) : Prop where
  distance : WireDistance w start t.wire t.distance
  neighbour : ∃ d ∈ Direction.all, t.wire.step d = t.origin
  not_wire : isWire w t.origin = false
  emits : emitsInto t.origin (w.get t.origin) t.wire = true

theorem mem_emitters :
    q ∈ emitters w p ↔ (∃ d ∈ Direction.all, p.step d = q) ∧ isWire w q = false ∧
      emitsInto q (w.get q) p = true := by
  unfold emitters
  rw [List.mem_filter, List.mem_map, Bool.and_eq_true, Bool.not_eq_true']

/-- Coordinates change with every step, also at the edge of their range. -/
theorem coordinate_succ_ne (x : Int32) : x + 1 ≠ x := by grind

theorem coordinate_pred_ne (x : Int32) : x - 1 ≠ x := by grind

/-- The six neighbours of a position are different. -/
theorem nodup_neighbours (p : Position) : (Direction.all.map p.step).Nodup := by
  have hboth (x : Int32) : x - 1 ≠ x + 1 := by grind
  simp [Direction.all, Position.step, Position.mk.injEq, coordinate_pred_ne, hboth,
    (coordinate_succ_ne _).symm, (coordinate_pred_ne _).symm]

/-- The taps of all wires of a level. -/
def levelTaps (w : World) (d : Nat) (level : List Position) : List Tap :=
  level.flatMap fun p => (emitters w p).map fun n => { wire := p, origin := n, distance := d }

theorem mem_levelTaps {d : Nat} {level : List Position} {t : Tap} :
    t ∈ levelTaps w d level ↔ t.wire ∈ level ∧ t.origin ∈ emitters w t.wire ∧ t.distance = d := by
  obtain ⟨p, n, k⟩ := t
  simp only [levelTaps, List.mem_flatMap, List.mem_map, Tap.mk.injEq]
  constructor
  · rintro ⟨_, hp, _, hn, rfl, rfl, rfl⟩
    exact ⟨hp, hn, rfl⟩
  · rintro ⟨hp, hn, rfl⟩
    exact ⟨p, hp, n, hn, rfl, rfl, rfl⟩

theorem nodup_levelTaps {d : Nat} {level : List Position} (h : level.Nodup) :
    (levelTaps w d level).Nodup := by
  induction level with
  | nil => exact .nil
  | cons p level ih =>
      obtain ⟨hnew, hnodup⟩ := List.nodup_cons.mp h
      have hsplit : levelTaps w d (p :: level) =
          (emitters w p).map (fun n => { wire := p, origin := n, distance := d }) ++
            levelTaps w d level :=
        List.flatMap_cons
      rw [hsplit, List.nodup_append]
      refine ⟨?_, ih hnodup, ?_⟩
      · refine List.Nodup.map ?_ ((nodup_neighbours p).filter _)
        intro n n' heq
        exact congrArg Tap.origin heq
      · -- taps of different wires are different
        intro t ht t' ht' heq
        obtain ⟨n, -, rfl⟩ := List.mem_map.mp ht
        rw [← heq] at ht'
        exact hnew (mem_levelTaps.mp ht').1

/-- The taps of a network, found level by level. -/
def networkTaps (w : World) : Nat → Nat → Reached → List Tap
  | 0, _, _ => []
  | levels + 1, d, r => levelTaps w d r.level ++ networkTaps w levels (d + 1) (r.next w)

/-- The taps that a search finds are those of the network within its range of distances. -/
theorem mem_networkTaps {levels d : Nat} {r : Reached} (h : r.AtDepth w start d) {t : Tap} :
    t ∈ networkTaps w levels d r ↔ d ≤ t.distance ∧ t.distance < d + levels ∧ t.IsOn w start := by
  induction levels generalizing d r with
  | zero =>
      simp only [networkTaps, List.not_mem_nil, false_iff]
      omega
  | succ levels ih =>
      have hhere : t ∈ levelTaps w d r.level ↔ t.distance = d ∧ t.IsOn w start := by
        rw [mem_levelTaps, h.level, mem_emitters]
        constructor
        · rintro ⟨hdistance, ⟨hneighbour, hwire, hemits⟩, rfl⟩
          exact ⟨rfl, hdistance, hneighbour, hwire, hemits⟩
        · rintro ⟨rfl, hon⟩
          exact ⟨hon.distance, ⟨hon.neighbour, hon.not_wire, hon.emits⟩, rfl⟩
      rw [networkTaps, List.mem_append, hhere, ih h.next]
      by_cases hon : t.IsOn w start
      · simp only [hon, and_true]
        omega
      · simp only [hon, and_false, or_false]

theorem nodup_networkTaps {levels d : Nat} {r : Reached} (h : r.AtDepth w start d) :
    (networkTaps w levels d r).Nodup := by
  induction levels generalizing d r with
  | zero => exact .nil
  | succ levels ih =>
      rw [networkTaps, List.nodup_append]
      refine ⟨nodup_levelTaps h.nodup, ih h.next, ?_⟩
      -- taps of different levels are at different distances
      intro t ht t' ht' heq
      have hd := (mem_levelTaps.mp ht).2.2
      have hd' := ((mem_networkTaps h.next).mp ht').1
      rw [← heq] at hd'
      omega

/-- The feed that enters at a tap. -/
def Tap.feed (channel : Channel) (t : Tap) : Feed :=
  { origin := t.origin, channel, loss := UInt8.ofNat t.distance }

theorem networkFeeds_eq_map_networkTaps {levels d : Nat} {r : Reached} :
    networkFeeds w channel levels (UInt8.ofNat d) r =
      (networkTaps w levels d r).map (Tap.feed channel) := by
  induction levels generalizing d r with
  | zero => rfl
  | succ levels ih =>
      have hlevel : (r.level.flatMap (emitters w)).map
          (fun origin => { origin, channel, loss := UInt8.ofNat d }) =
            (levelTaps w d r.level).map (Tap.feed channel) := by
        simp [levelTaps, List.map_flatMap, Tap.feed, Function.comp_def]
      have hnext : UInt8.ofNat d + 1 = UInt8.ofNat (d + 1) := by simp
      rw [networkFeeds, networkTaps, List.map_append, hlevel, hnext, ih]

/-- The taps of a network at distances of at most fourteen. -/
theorem exists_taps (channel : Channel) (hstart : isWire w start = true) :
    ∃ taps : List Tap, taps.Nodup ∧ (∀ t, t ∈ taps ↔ t.distance ≤ 14 ∧ t.IsOn w start) ∧
      wireFeeds w channel start = taps.map (Tap.feed channel) := by
  have hzero := Reached.atDepth_zero hstart
  refine ⟨networkTaps w maxStrength.toNat 0 _, nodup_networkTaps hzero, fun t => ?_,
    networkFeeds_eq_map_networkTaps⟩
  have hmax : maxStrength.toNat = 15 := rfl
  rw [mem_networkTaps hzero, hmax]
  constructor
  · rintro ⟨-, hlt, hon⟩
    exact ⟨by omega, hon⟩
  · rintro ⟨hle, hon⟩
    exact ⟨by omega, by omega, hon⟩

/-! ## The links of feeds -/

/-- The link that a feed becomes: one from the node at its origin, unless that is the target. -/
def Feed.link? (owners : Owners) (target : NodeId) (f : Feed) : Option Link :=
  match owners[f.origin]? with
  | none => none
  | some source =>
      if source = target then none
      else some { source, target, channel := f.channel, loss := f.loss }

theorem Feed.link?_eq_some_iff {owners : Owners} {target : NodeId} {f : Feed} {l : Link} :
    f.link? owners target = some l ↔ owners[f.origin]? = some l.source ∧ l.source ≠ target ∧
      l.target = target ∧ l.channel = f.channel ∧ l.loss = f.loss := by
  obtain ⟨source, target', channel, loss⟩ := l
  unfold Feed.link?
  split
  case h_1 hnone => simp [hnone]
  case h_2 owner howner =>
    split
    case isTrue heq => simp_all
    case isFalse hne =>
      simp only [howner, Option.some.injEq, Link.mk.injEq]
      grind

/-- Linking feeds adds their links, one after the other. -/
theorem foldl_linkFeed {g : Circuit} {owners : Owners} {target : NodeId} (fs : List Feed) :
    fs.foldl (linkFeed owners target) g =
      (fs.filterMap (Feed.link? owners target)).foldl addLink g := by
  induction fs generalizing g with
  | nil => rfl
  | cons f fs ih =>
      rw [List.foldl_cons, ih, List.filterMap_cons]
      unfold linkFeed Feed.link?
      cases owners[f.origin]? with
      | none => rfl
      | some source => by_cases heq : source = target <;> simp [heq]

/-- The link that a tap becomes, which loses the distance of the wire. -/
def Tap.link? (owners : Owners) (target : NodeId) (channel : Channel) (t : Tap) : Option Link :=
  (t.feed channel).link? owners target

theorem Tap.link?_eq_some_iff {owners : Owners} {target : NodeId} {t : Tap} {l : Link} :
    t.link? owners target channel = some l ↔
      owners[t.origin]? = some l.source ∧ l.source ≠ target ∧
        l.target = target ∧ l.channel = channel ∧ l.loss = UInt8.ofNat t.distance :=
  Feed.link?_eq_some_iff

/-- The links from one source lose no less than the distance of the nearest wire that it puts power
into, and one of them just that. -/
theorem isLeast_loss {owners : Owners} {taps : List Tap}
    (htaps : ∀ t, t ∈ taps ↔ t.distance ≤ 14 ∧ t.IsOn w start) {source target : NodeId}
    (hne : source ≠ target) {d : Nat} (hd : d ≤ 14)
    (hleast : IsLeast { k | ∃ t : Tap, t.IsOn w start ∧ owners[t.origin]? = some source ∧
      t.distance = k } d) :
    IsLeast { k | ∃ l ∈ taps.filterMap (Tap.link? owners target channel),
      l.source = source ∧ l.loss.toNat = k } d := by
  have hloss {t : Tap} (ht : t.distance ≤ 14) : (UInt8.ofNat t.distance).toNat = t.distance := by
    rw [UInt8.toNat_ofNat']
    exact Nat.mod_eq_of_lt (by omega)
  obtain ⟨⟨t, hon, howner, rfl⟩, hlower⟩ := hleast
  constructor
  · have hmem : t ∈ taps := (htaps t).mpr ⟨hd, hon⟩
    have hlink : t.link? owners target channel =
        some { source, target, channel, loss := UInt8.ofNat t.distance } :=
      Tap.link?_eq_some_iff.mpr ⟨howner, hne, rfl, rfl, rfl⟩
    exact ⟨_, List.mem_filterMap.mpr ⟨t, hmem, hlink⟩, rfl, hloss hd⟩
  · rintro k ⟨l, hl, rfl, rfl⟩
    obtain ⟨t', ht', hlink⟩ := List.mem_filterMap.mp hl
    obtain ⟨howner', -, -, -, hl'⟩ := Tap.link?_eq_some_iff.mp hlink
    obtain ⟨hle, hon'⟩ := (htaps t').mp ht'
    rw [hl', hloss hle]
    exact hlower ⟨t', hon', howner', rfl⟩

/-! ## A search with a queue -/

/-- A search that keeps the wires it has still to look at in a queue, each with its distance. -/
structure Crawl where
  visited : Std.ExtTreeSet Position Position.scanOrder
  queue : List (Position × UInt8)
  feeds : List Feed

namespace Crawl

/-- The search before it has looked at its first wire. -/
def ofWire (start : Position) : Crawl where
  visited := Std.ExtTreeSet.empty.insert start
  queue := [(start, 0)]
  feeds := []

/-- Looks from the wire at `p` in one direction.  A wire is joined to the queue, unless the search
has been there or the signal would be lost; another block is noted if it puts out power. -/
def look (w : World) (channel : Channel) (p : Position) (loss : UInt8) (c : Crawl)
    (d : Direction) : Crawl :=
  let n := p.step d
  if isWire w n then
    if d.isHorizontal && !c.visited.contains n && decide (loss + 1 < maxStrength) then
      { c with visited := c.visited.insert n, queue := c.queue ++ [(n, loss + 1)] }
    else c
  else if emitsInto n (w.get n) p then
    { c with feeds := c.feeds ++ [{ origin := n, channel, loss }] }
  else c

/-- Takes the first wire off the queue and looks in all directions. -/
def step (w : World) (channel : Channel) (c : Crawl) : Crawl :=
  match c.queue with
  | [] => c
  | (p, loss) :: rest => Direction.all.foldl (look w channel p loss) { c with queue := rest }

/-- The queue holds some wires of a level, and behind them the wires that have been found for the
next one. -/
def between (pending : List (Position × UInt8)) (loss : UInt8) (found : Reached)
    (feeds : List Feed) : Crawl where
  visited := found.visited
  queue := pending ++ found.level.map fun p => (p, loss + 1)
  feeds := feeds

/-- What a level adds to the next one: nothing, if no strength would be left. -/
def spread (loss : UInt8) (joined : List Position) (found : Reached) : Reached :=
  if loss + 1 < maxStrength then joined.foldl Reached.visit found else found

variable {pending : List (Position × UInt8)} {loss : UInt8} {found : Reached} {feeds : List Feed}

theorem spread_append (joined joined' : List Position) :
    spread loss (joined ++ joined') found = spread loss joined' (spread loss joined found) := by
  unfold spread
  split
  · rw [List.foldl_append]
  · rfl

theorem look_between (d : Direction) :
    look w channel p loss (between pending loss found feeds) d =
      between pending loss
        (spread loss ((([d].filter Direction.isHorizontal).map p.step).filter (isWire w)) found)
        (feeds ++ (([d].map p.step).filter fun n => !isWire w n && emitsInto n (w.get n) p).map
          fun origin => ⟨origin, channel, loss⟩) := by
  unfold look
  dsimp only
  cases hwire : isWire w (p.step d) with
  | false =>
      cases hemits : emitsInto (p.step d) (w.get (p.step d)) p <;>
        cases hhorizontal : d.isHorizontal <;>
        simp [spread, between, hwire, hemits, hhorizontal]
  | true =>
      cases hhorizontal : d.isHorizontal with
      | false => simp [spread, hhorizontal, hwire]
      | true =>
          by_cases hlost : loss + 1 < maxStrength <;>
            cases hold : found.visited.contains (p.step d) <;>
            simp [spread, between, Reached.visit, hwire, hhorizontal, hlost, hold]

theorem foldl_look_between (ds : List Direction) :
    ds.foldl (look w channel p loss) (between pending loss found feeds) =
      between pending loss
        (spread loss (((ds.filter Direction.isHorizontal).map p.step).filter (isWire w)) found)
        (feeds ++ ((ds.map p.step).filter fun n => !isWire w n && emitsInto n (w.get n) p).map
          fun origin => ⟨origin, channel, loss⟩) := by
  induction ds generalizing found feeds with
  | nil => simp [spread]
  | cons d ds ih =>
      rw [List.foldl_cons, look_between, ih, ← spread_append, List.append_assoc, ← List.map_append,
        ← List.filter_append, ← List.map_append, ← List.filter_append, ← List.filter_append,
        ← List.map_append]
      rfl

theorem step_between :
    step w channel (between ((p, loss) :: pending) loss found feeds) =
      between pending loss (spread loss (joinedWires w p) found)
        (feeds ++ (emitters w p).map fun origin => ⟨origin, channel, loss⟩) :=
  foldl_look_between Direction.all

/-- The search goes through a level before it comes to the next one. -/
theorem iterate_step_between (level : List Position) :
    (step w channel)^[level.length]
        (between (level.map fun p => (p, loss)) loss found feeds) =
      between [] loss (spread loss (level.flatMap (joinedWires w)) found)
        (feeds ++ (level.flatMap (emitters w)).map fun origin => ⟨origin, channel, loss⟩) := by
  induction level generalizing found feeds with
  | nil => simp [spread]
  | cons p level ih =>
      rw [List.length_cons, Function.iterate_succ_apply, List.map_cons, step_between, ih,
        ← spread_append, List.append_assoc, ← List.map_append]
      rfl

/-- The queue holds a whole level. -/
def atLevel (loss : UInt8) (reached : Reached) (feeds : List Feed) : Crawl where
  visited := reached.visited
  queue := reached.level.map fun p => (p, loss)
  feeds := feeds

theorem atLevel_eq_between (reached : Reached) :
    atLevel loss reached feeds =
      between (reached.level.map fun p => (p, loss)) loss { reached with level := [] } feeds := by
  simp [atLevel, between]

theorem iterate_step_atLevel (hleft : loss + 1 < maxStrength) (reached : Reached) :
    (step w channel)^[reached.level.length] (atLevel loss reached feeds) =
      atLevel (loss + 1) (reached.next w) (feeds ++
        (reached.level.flatMap (emitters w)).map fun origin => ⟨origin, channel, loss⟩) := by
  rw [atLevel_eq_between, iterate_step_between, spread, if_pos hleft]
  rfl

/-- Behind the last level there is nothing to look at. -/
theorem iterate_step_atLevel_last (hlost : ¬ loss + 1 < maxStrength) (reached : Reached) :
    (step w channel)^[reached.level.length] (atLevel loss reached feeds) =
      { visited := reached.visited, queue := [],
        feeds := feeds ++
          (reached.level.flatMap (emitters w)).map fun origin => ⟨origin, channel, loss⟩ } := by
  rw [atLevel_eq_between, iterate_step_between, spread, if_neg hlost]
  rfl

/-- The search with a queue comes to its end with the feeds of all levels. -/
theorem exists_iterate_step_eq (levels : Nat) (loss : UInt8) (reached : Reached)
    (feeds : List Feed) (hlevels : loss.toNat + levels + 1 = maxStrength.toNat) :
    ∃ n visited, (step w channel)^[n] (atLevel loss reached feeds) =
      { visited, queue := [],
        feeds := feeds ++ networkFeeds w channel (levels + 1) loss reached } := by
  have hsucc : (loss + 1).toNat = loss.toNat + 1 := toNat_loss_succ (by omega)
  induction levels generalizing loss reached feeds with
  | zero =>
      have hlost : ¬ loss + 1 < maxStrength := by
        rw [UInt8.lt_iff_toNat_lt]
        omega
      refine ⟨reached.level.length, reached.visited, ?_⟩
      rw [iterate_step_atLevel_last hlost]
      simp [networkFeeds]
  | succ levels ih =>
      have hleft : loss + 1 < maxStrength := by
        rw [UInt8.lt_iff_toNat_lt]
        omega
      -- one level, then the rest of the search
      obtain ⟨n, visited, hrest⟩ := ih (loss + 1) (reached.next w)
        (feeds ++ (reached.level.flatMap (emitters w)).map fun origin => ⟨origin, channel, loss⟩)
        (by omega) (toNat_loss_succ (by omega))
      refine ⟨n + reached.level.length, visited, ?_⟩
      rw [Function.iterate_add_apply, iterate_step_atLevel hleft, hrest, List.append_assoc]
      rfl

end Crawl

/-! ## The search as a whole -/

/-- The links that a search of the network at `start` makes, told from distances alone.  There is one
link for every tap at a distance of at most fourteen, from the node at its origin.  The least loss of
the links from a node is the distance of the nearest wire that it puts power into, and a node that is
too far away is not linked. -/
structure LinkedByDistance (w : World) (start : Position) (channel : Channel) (owners : Owners)
    (target : NodeId) (links : List Link) : Prop where
  taps : ∃ taps : List Tap, taps.Nodup ∧ (∀ t, t ∈ taps ↔ t.distance ≤ 14 ∧ t.IsOn w start) ∧
    links = taps.filterMap (Tap.link? owners target channel)
  least : ∀ source ≠ target, ∀ d ≤ 14,
    IsLeast { k | ∃ t : Tap, t.IsOn w start ∧ owners[t.origin]? = some source ∧
      t.distance = k } d →
    IsLeast { k | ∃ l ∈ links, l.source = source ∧ l.loss.toNat = k } d
  beyond : ∀ source, (∀ t : Tap, t.IsOn w start → owners[t.origin]? = some source →
    15 ≤ t.distance) → ∀ l ∈ links, l.source ≠ source

theorem linkedByDistance_filterMap {owners : Owners} {target : NodeId} {taps : List Tap}
    (hnodup : taps.Nodup) (htaps : ∀ t, t ∈ taps ↔ t.distance ≤ 14 ∧ t.IsOn w start) :
    LinkedByDistance w start channel owners target
      (taps.filterMap (Tap.link? owners target channel)) where
  taps := ⟨taps, hnodup, htaps, rfl⟩
  least := fun _ hne _ hd hleast => isLeast_loss htaps hne hd hleast
  beyond := by
    rintro source hfar l hl rfl
    obtain ⟨t, ht, hlink⟩ := List.mem_filterMap.mp hl
    obtain ⟨howner, -⟩ := Tap.link?_eq_some_iff.mp hlink
    obtain ⟨hle, hon⟩ := (htaps t).mp ht
    have hge := hfar t hon howner
    omega

/-- The search over the wires at `start` finds shortest distances.  It adds the links that these
tell, and nothing else.  With a queue it comes to its end after finitely many wires, with the same
feeds. -/
theorem wires_are_searched_by_distance (w : World) (start : Position)
    (hstart : isWire w start = true) (channel : Channel) (g : Circuit) (owners : Owners)
    (howners : ∀ (p : Position) (source : NodeId), owners[p]? = some source →
      g.contains source = true) (target : NodeId) (htarget : g.contains target = true) :
    let g' := (wireFeeds w channel start).foldl (linkFeed owners target) g
    (∃ added : List Link, LinkedByDistance w start channel owners target added ∧
      (∀ id, g'.node? id = g.node? id) ∧
      ∀ i, g'.link? i = if i < g.linkBound then g.link? i else added[i - g.linkBound]?) ∧
    ∃ n visited, (Crawl.step w channel)^[n] (.ofWire start) =
      { visited, queue := [], feeds := wireFeeds w channel start } := by
  obtain ⟨taps, hnodup, htaps, hfeeds⟩ := exists_taps channel hstart
  refine ⟨⟨_, linkedByDistance_filterMap hnodup htaps, ?_⟩, ?_⟩
  · have hlinks : (taps.map (Tap.feed channel)).filterMap (Feed.link? owners target) =
        taps.filterMap (Tap.link? owners target channel) :=
      List.filterMap_map
    rw [hfeeds, foldl_linkFeed, hlinks]
    refine ⟨node?_foldl_addLink _, link?_foldl_addLink fun l hl => ?_⟩
    obtain ⟨t, -, hlink⟩ := List.mem_filterMap.mp hl
    obtain ⟨howner, -, rfl, -⟩ := Tap.link?_eq_some_iff.mp hlink
    exact ⟨howners _ _ howner, htarget⟩
  · exact Crawl.exists_iterate_step_eq 14 0
      { visited := Std.ExtTreeSet.empty.insert start, level := [start] } [] rfl

/-- A lamp at the end of a bent line of wires.  The block of redstone inside the bend touches the
second wire and the last one. -/
def bend : World :=
  ((((((World.empty.set ⟨-1, 0, 0⟩ (.placed .lamp)).set ⟨0, 0, 0⟩ (.placed .wire)).set ⟨1, 0, 0⟩
    (.placed .wire)).set ⟨2, 0, 0⟩ (.placed .wire)).set ⟨2, 0, 1⟩ (.placed .wire)).set ⟨1, 0, 1⟩
    (.placed .redstoneBlock))

/-- The components of the bend: the lamp comes first, the block of redstone fifth. -/
def bendParts : Circuit :=
  addComponents bend ⟨⟨-1, 0, 0⟩, ⟨2, 0, 1⟩⟩ .empty

/-- The block of redstone is linked to the lamp twice, with the distances of both wires. -/
theorem wires_are_searched_by_distance_bend :
    isWire bend ⟨0, 0, 0⟩ = true ∧ bendParts.contains 0 = true ∧
      LinkedByDistance bend ⟨0, 0, 0⟩ .main (owners bendParts) 0
        [{ source := 4, target := 0, channel := .main, loss := 1 },
          { source := 4, target := 0, channel := .main, loss := 3 }] ∧
      ∃ n visited, (Crawl.step bend .main)^[n] (.ofWire ⟨0, 0, 0⟩) =
        { visited, queue := [], feeds := wireFeeds bend .main ⟨0, 0, 0⟩ } := by
  have hwire : isWire bend ⟨0, 0, 0⟩ = true := by decide +kernel
  have htarget : bendParts.contains 0 = true := by decide +kernel
  obtain ⟨⟨added, hadded, -, hlink⟩, hcrawl⟩ := wires_are_searched_by_distance bend ⟨0, 0, 0⟩ hwire
    .main bendParts (owners bendParts)
    (fun p source h => by
      obtain ⟨n, hn, -⟩ := owned_owners bendParts p source h
      exact contains_of_node? hn) 0 htarget
  have hbound : bendParts.linkBound = 0 := by decide +kernel
  have hlinks : ((wireFeeds bend .main ⟨0, 0, 0⟩).foldl (linkFeed (owners bendParts) 0)
      bendParts).links =
        #[some { source := 4, target := 0, channel := .main, loss := 1 },
          some { source := 4, target := 0, channel := .main, loss := 3 }] := by
    decide +kernel
  have heq : added = [{ source := 4, target := 0, channel := .main, loss := 1 },
      { source := 4, target := 0, channel := .main, loss := 3 }] := by
    apply List.ext_getElem?
    intro i
    have hi := hlink i
    rw [hbound, if_neg (Nat.not_lt_zero i), Nat.sub_zero, Circuit.link?, hlinks] at hi
    rw [← hi]
    rcases i with _ | _ | i <;> rfl
  exact ⟨hwire, htarget, heq ▸ hadded, hcrawl⟩

end Redstone.Survey
