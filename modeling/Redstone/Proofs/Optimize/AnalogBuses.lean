import Redstone.Proofs.Circuit.Sessions
import Redstone.Proofs.Optimize.Steps

/-!
# Collapsing of analog buses

The line of a bus with loss `a` on its way in is on exactly when the source puts out more than
`a`, and then it brings `a + 1`.  There is a line for every loss below fifteen, so the strongest
line brings just the strength of the source, as does the comparator that replaces the bus.
-/

namespace Redstone.Optimize

open Circuit

variable {g : Circuit} {source : NodeId} {lines : List BusLine} {first : BusLine}

/-- One line of a bus from `source` to the input of `first`. -/
structure Bus.Line (g : Circuit) (source : NodeId) (first line : BusLine) : Prop where
  node : ∃ n, g.node? line.repeater = some n ∧ n.gate = .repeater 1 false ∧ n.isRemovable = true
  hangs : HangsOn g line.repeater source line.inLoss
  out : ∃ k o, g.link? k = some o ∧ o.source = line.repeater
  out_eq : ∀ {k o}, g.link? k = some o → o.source = line.repeater →
    o.target = first.target ∧ o.channel = first.channel ∧ o.loss = line.outLoss
  tuned : line.inLoss.toNat + line.outLoss.toNat + 1 = busWidth

/-- The lines form a bus from `source` to the input of `first`. -/
structure Bus (g : Circuit) (source : NodeId) (lines : List BusLine) (first : BusLine) : Prop where
  line : ∀ {line}, line ∈ lines → Bus.Line g source first line
  covers : ∀ {a : Nat}, a < busWidth → ∃ line ∈ lines, line.inLoss.toNat = a
  source_node : ∃ n, g.node? source = some n ∧ n.gate.isComparator = true
  target_node : ∃ n, g.node? first.target = some n ∧ n.gate.isComparator = true

theorem busLine?_eq_some {i : LinkId} {line : BusLine} (hline : busLine? g i = some line) :
    ∃ l n k o, g.link? i = some l ∧ l.target = line.repeater ∧ l.channel = .main ∧
      l.loss = line.inLoss ∧ g.node? line.repeater = some n ∧ n.gate = .repeater 1 false ∧
      n.isRemovable = true ∧ (g.inputs line.repeater).length = 1 ∧
      g.outputs line.repeater = [k] ∧ g.link? k = some o ∧ o.target = line.target ∧
      o.channel = line.channel ∧ o.loss = line.outLoss := by
  simp only [busLine?, Option.bind_eq_bind, Option.bind_eq_some_iff] at hline
  obtain ⟨l, hl, n, hn, hguard⟩ := hline
  split at hguard
  case isFalse => cases hguard
  case isTrue hcond =>
    obtain ⟨hchannel, hgate, hrole, hone⟩ := hcond
    split at hguard
    case h_2 => cases hguard
    case h_1 k hk =>
      simp only [Option.bind_eq_some_iff] at hguard
      obtain ⟨o, ho, heq⟩ := hguard
      cases heq
      exact ⟨l, n, k, o, hl, rfl, hchannel, rfl, hn, hgate, hrole, hone, hk, ho, rfl, rfl, rfl⟩

/-- Fifteen different losses below fifteen are all losses below fifteen. -/
theorem exists_inLoss_eq (htuned : ∀ line ∈ lines, line.isTuned = true)
    (hlength : lines.length = busWidth) (hnodup : (lines.map BusLine.inLoss).Nodup) {a : Nat}
    (ha : a < busWidth) : ∃ line ∈ lines, line.inLoss.toNat = a := by
  let losses := lines.map fun line => line.inLoss.toNat
  have hlosses : losses.Nodup := by
    have hmap : losses = (lines.map BusLine.inLoss).map UInt8.toNat := by simp [losses]
    rw [hmap]
    exact hnodup.map fun x y hxy => UInt8.toNat_inj.mp hxy
  have hsub : losses ⊆ List.range busWidth := by
    intro b hb
    obtain ⟨line, hline, rfl⟩ := List.mem_map.mp hb
    have ht := htuned line hline
    simp only [BusLine.isTuned, beq_iff_eq] at ht
    rw [List.mem_range]
    omega
  have hperm : losses.Perm (List.range busWidth) := by
    refine (hlosses.subperm hsub).perm_of_length_le ?_
    simp [losses, hlength]
  have hmem : a ∈ losses := hperm.mem_iff.mpr (List.mem_range.mpr ha)
  exact List.mem_map.mp hmem

theorem mapM_eq_some_iff {α β : Type} {f : α → Option β} {xs : List α} {ys : List β} :
    xs.mapM f = some ys ↔ xs.map f = ys.map some := by
  induction xs generalizing ys with
  | nil =>
      rw [List.mapM_nil, List.map_nil, eq_comm, List.nil_eq, List.map_eq_nil_iff]
      exact Option.some_inj
  | cons x rest ih =>
      simp only [List.mapM_cons, Option.bind_eq_bind, Option.bind_eq_some_iff, Option.pure_def,
        Option.some_inj, ih, List.map_cons]
      constructor
      · rintro ⟨z, hz, zs, hzs, rfl⟩
        rw [hz, hzs, List.map_cons]
      · intro h
        cases ys with
        | nil => cases h
        | cons y ys =>
            obtain ⟨hx, hrest⟩ := List.cons.inj h
            exact ⟨y, hx, ys, hrest, rfl⟩

theorem mem_of_mapM_eq_some {α β : Type} {f : α → Option β} {xs : List α} {ys : List β}
    (h : xs.mapM f = some ys) {y : β} (hy : y ∈ ys) : ∃ x ∈ xs, f x = some y := by
  have hmem : some y ∈ xs.map f := mapM_eq_some_iff.mp h ▸ List.mem_map_of_mem hy
  exact List.mem_map.mp hmem

/-- What the search for a bus asks for. -/
theorem busLines?_eq_some_iff : busLines? g source = some lines ↔
    (g.outputs source).mapM (busLine? g) = some lines ∧ ∃ first n, lines.head? = some first ∧
      g.node? first.target = some n ∧ lines.length = busWidth ∧
      (∀ line ∈ lines, line.isTuned = true ∧ line.target = first.target ∧
        line.channel = first.channel) ∧
      (lines.map BusLine.inLoss).Nodup ∧ first.target ≠ source ∧ n.gate.isComparator = true := by
  simp only [busLines?, Option.bind_eq_bind, Option.bind_eq_some_iff, Option.ite_none_right_eq_some,
    List.all_eq_true, Bool.and_eq_true, beq_iff_eq, and_assoc]
  constructor
  · rintro ⟨found, hfound, first, hfirst, n, hn, hlength, hall, hnodup, hne, hcomparator, heq⟩
    cases heq
    exact ⟨hfound, first, n, hfirst, hn, hlength, hall, hnodup, hne, hcomparator⟩
  · rintro ⟨hfound, first, n, hfirst, hn, hlength, hall, hnodup, hne, hcomparator⟩
    exact ⟨lines, hfound, first, hfirst, n, hn, hlength, hall, hnodup, hne, hcomparator, rfl⟩

theorem bus_of_busLines? (h : g.WellFormed) {rest : List BusLine}
    (hsource : (g.node? source).any (fun n => n.gate.isComparator) = true)
    (hbus : busLines? g source = some (first :: rest)) : Bus g source (first :: rest) first := by
  obtain ⟨hlines, head, target, hhead, htarget, hlength, hall, hnodup, -, hcomparator⟩ :=
    busLines?_eq_some_iff.mp hbus
  cases hhead
  refine ⟨fun {line} hline => ?_, exists_inLoss_eq (fun line hline => (hall line hline).1)
    hlength hnodup, (Option.any_eq_true _ _).mp hsource, ⟨target, htarget, hcomparator⟩⟩
  obtain ⟨i, hi, hfound⟩ := mem_of_mapM_eq_some hlines hline
  obtain ⟨l, n, k, o, hl, hend, hchannel, hloss, hn, hgate, hrole, hone, hk, ho, htarget',
    hchannel', hloss'⟩ := busLine?_eq_some hfound
  obtain ⟨htuned, hsameTarget, hsameChannel⟩ := hall line hline
  have hstart := h.source_eq hl hi
  have hstart' := h.source_eq ho (hk ▸ List.mem_singleton_self k)
  refine ⟨⟨n, hn, hgate, hrole⟩, ⟨⟨i, l, hl, hend⟩, fun {j p} hp hpend => ?_⟩,
    ⟨k, o, ho, hstart'⟩, fun {j p} hp hpstart => ?_, by simpa [BusLine.isTuned] using htuned⟩
  · -- the link from the source is the only one that ends here
    have hij := h.eq_of_inputs_length_one hl hp (hpend.trans hend.symm) (hend ▸ hone)
    rw [← hij, hl] at hp
    cases hp
    exact ⟨hstart, hchannel, hloss⟩
  · have hjk : j ∈ g.outputs line.repeater := h.mem_outputs_iff.mpr ⟨p, hp, hpstart⟩
    rw [hk, List.mem_singleton] at hjk
    rw [hjk, ho] at hp
    cases hp
    exact ⟨htarget'.trans hsameTarget, hchannel'.trans hsameChannel, hloss'⟩

/-! ## The strength that a bus carries -/

theorem attenuate_pos_iff {s loss : UInt8} : 0 < attenuate s loss ↔ loss < s := by
  rw [UInt8.lt_iff_toNat_lt, UInt8.lt_iff_toNat_lt, toNat_attenuate, UInt8.toNat_zero]
  omega

/-- The lines are on below the strength of the source and off from there on. -/
def LinesFollow (lines : List BusLine) (source : NodeId) (τ : NodeId → UInt8) : Prop :=
  ∀ line ∈ lines, τ line.repeater = digital (line.inLoss < τ source)

/-- Together, the lines bring the strength of the source. -/
theorem Bus.le_lines_iff (h : Bus g source lines first) {τ : NodeId → UInt8}
    (hfollow : LinesFollow lines source τ) (hle : τ source ≤ maxStrength) {s : UInt8}
    (hs : 0 < s) :
    (∃ line ∈ lines, s ≤ attenuate (τ line.repeater) line.outLoss) ↔ s ≤ τ source := by
  have hwidth : busWidth = 15 := rfl
  have hmax : maxStrength.toNat = 15 := rfl
  have hle' := UInt8.le_iff_toNat_le.mp hle
  have hs' := UInt8.lt_iff_toNat_lt.mp hs
  rw [UInt8.toNat_zero] at hs'
  rw [UInt8.le_iff_toNat_le]
  constructor
  · rintro ⟨line, hline, hbring⟩
    have htuned := (h.line hline).tuned
    rw [hfollow line hline, le_attenuate_iff hs] at hbring
    by_cases hon : line.inLoss < τ source
    · have hon' := UInt8.lt_iff_toNat_lt.mp hon
      rw [decide_eq_true hon, digital, if_pos rfl] at hbring
      omega
    · rw [decide_eq_false hon, digital, if_neg Bool.false_ne_true, UInt8.toNat_zero] at hbring
      omega
  · intro hbring
    -- the line that is the last one to be on
    obtain ⟨line, hline, hloss⟩ := h.covers (a := (τ source).toNat - 1) (by omega)
    have htuned := (h.line hline).tuned
    have hon : line.inLoss < τ source := by
      rw [UInt8.lt_iff_toNat_lt]
      omega
    refine ⟨line, hline, ?_⟩
    rw [hfollow line hline, le_attenuate_iff hs, decide_eq_true hon, digital, if_pos rfl]
    omega

theorem Bus.linesFollow (h : Bus g source lines first) (hwf : g.WellFormed) {τ : NodeId → UInt8}
    (hτ : g.Balanced τ) : LinesFollow lines source τ := by
  intro line hline
  obtain ⟨n, hn, hgate, -⟩ := (h.line hline).node
  have hup := hτ.upholds hn
  rw [(h.line hline).hangs.powerUnder_eq hwf] at hup
  have hdigital := hup.eq_digital (by rw [hgate]; rfl) rfl
  rw [← hdigital]
  simp only [attenuate_pos_iff]

/-! ## The circuit without the lines -/

/-- The circuit without the repeaters of the lines. -/
def withoutLines (g : Circuit) (lines : List BusLine) : Circuit :=
  lines.foldl (fun g line => g.removeNode line.repeater) g

/-- The repeaters are removed one after the other.  Until then each of them is the node that it was. -/
theorem withoutLines_keeps {P : Circuit → Prop}
    (hremove : ∀ {g' line}, P g' → line ∈ lines →
      (∀ n, g'.node? line.repeater = some n → g.node? line.repeater = some n) →
      P (g'.removeNode line.repeater)) (h : P g) : P (withoutLines g lines) := by
  have hfold (rest : List BusLine) (hrest : ∀ line ∈ rest, line ∈ lines) {g' : Circuit} (hg' : P g')
      (hsame : ∀ id n, g'.node? id = some n → g.node? id = some n) : P (withoutLines g' rest) := by
    induction rest generalizing g' with
    | nil => exact hg'
    | cons line rest ih =>
        refine ih (fun next hnext => hrest next (List.mem_cons_of_mem _ hnext))
          (hremove hg' (hrest line List.mem_cons_self) (hsame line.repeater)) fun id n hn => ?_
        exact hsame id n (node?_removeNode_eq_some_iff.mp hn).2
  exact hfold lines (fun _ hline => hline) h fun _ _ hn => hn

theorem wellFormed_withoutLines (h : g.WellFormed) (lines : List BusLine) :
    (withoutLines g lines).WellFormed :=
  withoutLines_keeps (fun hg _ _ => hg.removeNode _) h

theorem nodeBound_withoutLines (g : Circuit) (lines : List BusLine) :
    (withoutLines g lines).nodeBound = g.nodeBound :=
  withoutLines_keeps (P := fun g' => g'.nodeBound = g.nodeBound)
    (fun hg _ _ => (nodeBound_removeNode _).trans hg) rfl

theorem linkBound_withoutLines (g : Circuit) (lines : List BusLine) :
    (withoutLines g lines).linkBound = g.linkBound :=
  withoutLines_keeps (P := fun g' => g'.linkBound = g.linkBound)
    (fun hg _ _ => (WellFormed.linkBound_removeNode _).trans hg) rfl

theorem node?_withoutLines (g : Circuit) (lines : List BusLine) (j : NodeId) :
    (withoutLines g lines).node? j =
      if j ∈ lines.map BusLine.repeater then none else g.node? j := by
  induction lines generalizing g with
  | nil => simp [withoutLines]
  | cons line rest ih =>
      change (withoutLines (g.removeNode line.repeater) rest).node? j = _
      rw [ih, node?_removeNode]
      by_cases hj : line.repeater = j
      · simp [hj]
      · simp [hj, Ne.symm hj]

theorem link?_withoutLines_eq_some_iff (h : g.WellFormed) (lines : List BusLine) {i : LinkId}
    {l : Link} :
    (withoutLines g lines).link? i = some l ↔
      g.link? i = some l ∧ l.source ∉ lines.map BusLine.repeater ∧
        l.target ∉ lines.map BusLine.repeater := by
  induction lines generalizing g with
  | nil => simp [withoutLines]
  | cons line rest ih =>
      change (withoutLines (g.removeNode line.repeater) rest).link? i = some l ↔ _
      rw [ih (h.removeNode line.repeater), h.link?_removeNode_eq_some_iff]
      simp only [List.map_cons, List.mem_cons, not_or]
      tauto

theorem lineage_withoutLines (lines : List BusLine)
    (hrole : ∀ line ∈ lines, ∀ n, g.node? line.repeater = some n → n.isRemovable = true) :
    Lineage g (withoutLines g lines) :=
  withoutLines_keeps (P := Lineage g) (fun {g' line} hg hline hsame =>
    hg.trans (.removeNode g' fun n hn => hrole line hline n (hsame n hn))) (.refl g)

/-! ## The comparator in place of the bus -/

/-- The comparator that replaces a bus from a source of the given strength. -/
def busNode (strength : UInt8) : Node :=
  { gate := .comparator .compare false, state := .ofStrength strength }

/-- The link from the source to the new comparator. -/
def busIn (g : Circuit) (source : NodeId) : Link :=
  { source, target := g.nodeBound, channel := .main, loss := 0 }

/-- The link from the new comparator to the target. -/
def busOut (g : Circuit) (first : BusLine) : Link :=
  { source := g.nodeBound, target := first.target, channel := first.channel, loss := 0 }

theorem replaceBus_eq (g : Circuit) (source : NodeId) (lines : List BusLine) (first : BusLine) :
    replaceBus g source lines first =
      (((withoutLines g lines).addNode (busNode (g.strength source))).addLink
        (busIn g source)).addLink (busOut g first) := by
  rw [busIn, busOut, ← nodeBound_withoutLines g lines]
  rfl

namespace Bus

/-- A comparator is not a repeater of the bus. -/
theorem notMem_of_isComparator (h : Bus g source lines first) {j : NodeId} {n : Node}
    (hn : g.node? j = some n) (hcomparator : n.gate.isComparator = true) :
    j ∉ lines.map BusLine.repeater := by
  intro hmem
  obtain ⟨line, hline, rfl⟩ := List.mem_map.mp hmem
  obtain ⟨m, hm, hgate, -⟩ := (h.line hline).node
  rw [hn] at hm
  cases hm
  rw [hgate] at hcomparator
  cases hcomparator

theorem source_notMem (h : Bus g source lines first) : source ∉ lines.map BusLine.repeater := by
  obtain ⟨n, hn, hcomparator⟩ := h.source_node
  exact h.notMem_of_isComparator hn hcomparator

theorem target_notMem (h : Bus g source lines first) :
    first.target ∉ lines.map BusLine.repeater := by
  obtain ⟨n, hn, hcomparator⟩ := h.target_node
  exact h.notMem_of_isComparator hn hcomparator

theorem source_ne (h : Bus g source lines first) : source ≠ g.nodeBound := by
  obtain ⟨n, hn, -⟩ := h.source_node
  exact ne_nodeBound_of_node? hn

theorem target_ne (h : Bus g source lines first) : first.target ≠ g.nodeBound := by
  obtain ⟨n, hn, -⟩ := h.target_node
  exact ne_nodeBound_of_node? hn

theorem wellFormed_replaceBus (h : g.WellFormed) (source : NodeId) (lines : List BusLine)
    (first : BusLine) : (replaceBus g source lines first).WellFormed := by
  rw [replaceBus_eq]
  exact (((wellFormed_withoutLines h lines).addNode _).addLink _).addLink _

theorem node?_replaceBus (g : Circuit) (source : NodeId) (lines : List BusLine) (first : BusLine)
    (j : NodeId) :
    (replaceBus g source lines first).node? j =
      if j = g.nodeBound then some (busNode (g.strength source))
      else if j ∈ lines.map BusLine.repeater then none else g.node? j := by
  rw [replaceBus_eq, node?_addLink, node?_addLink, node?_addNode, nodeBound_withoutLines,
    node?_withoutLines]

theorem node?_target (h : Bus g source lines first) :
    ∃ n, (replaceBus g source lines first).node? first.target = some n ∧
      n.gate.type = .comparator := by
  obtain ⟨n, hn, hcomparator⟩ := h.target_node
  refine ⟨n, ?_, by simpa [Gate.isComparator] using hcomparator⟩
  rw [node?_replaceBus, if_neg h.target_ne, if_neg h.target_notMem, hn]

/-- Nodes other than the repeaters are still there when the new comparator comes. -/
theorem contains_added (h : Bus g source lines first) {j : NodeId}
    (hj : ∃ n, g.node? j = some n ∧ n.gate.isComparator = true) (m : Node) :
    ((withoutLines g lines).addNode m).contains j = true := by
  obtain ⟨n, hn, hcomparator⟩ := hj
  refine contains_of_node? (n := n) ?_
  rw [node?_addNode, nodeBound_withoutLines, if_neg, node?_withoutLines,
    if_neg (h.notMem_of_isComparator hn hcomparator), hn]
  exact ne_nodeBound_of_node? hn

/-- The two new links come behind the old ones. -/
theorem link?_replaceBus (h : Bus g source lines first) (i : LinkId) :
    (replaceBus g source lines first).link? i =
      if i = g.linkBound + 1 then some (busOut g first)
      else if i = g.linkBound then some (busIn g source) else (withoutLines g lines).link? i := by
  let added := (withoutLines g lines).addNode (busNode (g.strength source))
  have hnew : added.contains g.nodeBound = true := by
    show ((withoutLines g lines).addNode _).contains _ = true
    rw [contains_addNode, nodeBound_withoutLines]
    simp
  have hsource : added.contains (busIn g source).source = true := h.contains_added h.source_node _
  have htarget : added.contains (busOut g first).target = true := h.contains_added h.target_node _
  have hbound : added.linkBound = g.linkBound := linkBound_withoutLines g lines
  rw [replaceBus_eq, link?_addLink ((contains_addLink _ _).trans hnew)
    ((contains_addLink _ _).trans htarget), linkBound_addLink hsource hnew, hbound,
    link?_addLink hsource hnew, hbound]
  rfl

theorem exists_link?_replaceBus (h : Bus g source lines first) (hwf : g.WellFormed) {l : Link} :
    (∃ i, (replaceBus g source lines first).link? i = some l) ↔
      l = busOut g first ∨ l = busIn g source ∨
        (∃ i, g.link? i = some l) ∧ l.source ∉ lines.map BusLine.repeater ∧
          l.target ∉ lines.map BusLine.repeater := by
  simp only [h.link?_replaceBus]
  constructor
  · rintro ⟨i, hi⟩
    split at hi
    · exact .inl (Option.some.inj hi).symm
    split at hi
    · exact .inr (.inl (Option.some.inj hi).symm)
    · obtain ⟨hl, hrest⟩ := (link?_withoutLines_eq_some_iff hwf lines).mp hi
      exact .inr (.inr ⟨⟨i, hl⟩, hrest⟩)
  · rintro (rfl | rfl | ⟨⟨i, hl⟩, hrest⟩)
    · exact ⟨g.linkBound + 1, if_pos rfl⟩
    · refine ⟨g.linkBound, ?_⟩
      rw [if_neg (Nat.ne_of_lt (Nat.lt_succ_self _)), if_pos rfl]
    · have hlt := lt_linkBound_of_link? hl
      refine ⟨i, ?_⟩
      rw [if_neg (Nat.ne_of_lt (Nat.lt_succ_of_lt hlt)), if_neg (Nat.ne_of_lt hlt)]
      exact (link?_withoutLines_eq_some_iff hwf lines).mpr ⟨hl, hrest⟩

theorem hangsOn_replaceBus (h : Bus g source lines first) (hwf : g.WellFormed) :
    HangsOn (replaceBus g source lines first) g.nodeBound source 0 where
  link := by
    obtain ⟨i, hi⟩ := (h.exists_link?_replaceBus hwf).mpr (.inr (.inl rfl))
    exact ⟨i, busIn g source, hi, rfl⟩
  every := by
    intro i l hl htarget
    rcases (h.exists_link?_replaceBus hwf).mp ⟨i, hl⟩ with rfl | rfl | ⟨⟨j, hj⟩, -⟩
    · exact absurd htarget h.target_ne
    · exact ⟨rfl, rfl, rfl⟩
    · exact absurd htarget (Nat.ne_of_lt (lt_nodeBound_of_contains (hwf.contains_target hj)))

/-- Strengths of the circuit with the bus and of the one with the comparator that tell the
same. -/
structure Matches (g : Circuit) (source : NodeId) (lines : List BusLine) (τ τ' : NodeId → UInt8) :
    Prop where
  follow : LinesFollow lines source τ
  source_le : τ source ≤ maxStrength
  carried : τ' g.nodeBound = τ source
  same : ∀ k, k ≠ g.nodeBound → k ∉ lines.map BusLine.repeater → τ' k = τ k

/-- Outside of the bus, every node gets the same power from the bus and from the comparator. -/
theorem powerUnder_replaceBus (h : Bus g source lines first) (hwf : g.WellFormed)
    {τ τ' : NodeId → UInt8} (hτ : Matches g source lines τ τ') {j : NodeId}
    (hj : j ≠ g.nodeBound) (hline : j ∉ lines.map BusLine.repeater) :
    (replaceBus g source lines first).powerUnder τ' j = g.powerUnder τ j := by
  have hold {i : LinkId} {l : Link} (hl : g.link? i = some l) : l.source ≠ g.nodeBound :=
    Nat.ne_of_lt (lt_nodeBound_of_contains (hwf.contains_source hl))
  apply powerUnder_congr (wellFormed_replaceBus hwf source lines first) hwf
  intro side s hs
  constructor
  · rintro ⟨i, l, hl, htarget, hside, hle⟩
    rcases (h.exists_link?_replaceBus hwf).mp ⟨i, hl⟩ with rfl | rfl | ⟨⟨k, hk⟩, hstart, -⟩
    · -- the bus carries as much as the best of its lines
      change s ≤ attenuate (τ' g.nodeBound) 0 at hle
      rw [attenuate_zero, hτ.carried, ← h.le_lines_iff hτ.follow hτ.source_le hs] at hle
      obtain ⟨line, hline, hbring⟩ := hle
      obtain ⟨k, o, ho, hstart⟩ := (h.line hline).out
      obtain ⟨hend, hchannel, hloss⟩ := (h.line hline).out_eq ho hstart
      refine ⟨k, o, ho, hend.trans htarget, hchannel ▸ hside, ?_⟩
      rw [hstart, hloss]
      exact hbring
    · exact absurd htarget.symm hj
    · exact ⟨k, l, hk, htarget, hside, hτ.same _ (hold hk) hstart ▸ hle⟩
  · rintro ⟨i, l, hl, htarget, hside, hle⟩
    by_cases hstart : l.source ∈ lines.map BusLine.repeater
    · -- no line brings more than the bus
      obtain ⟨line, hline, hrepeater⟩ := List.mem_map.mp hstart
      obtain ⟨hend, hchannel, hloss⟩ := (h.line hline).out_eq hl hrepeater.symm
      obtain ⟨k, hk⟩ := (h.exists_link?_replaceBus hwf).mpr (.inl rfl)
      have hside' : first.channel.isSide = side := hchannel ▸ hside
      refine ⟨k, busOut g first, hk, hend.symm.trans htarget, hside', ?_⟩
      change s ≤ attenuate (τ' g.nodeBound) 0
      rw [attenuate_zero, hτ.carried, ← h.le_lines_iff hτ.follow hτ.source_le hs]
      refine ⟨line, hline, ?_⟩
      rw [hrepeater, ← hloss]
      exact hle
    · obtain ⟨k, hk⟩ := (h.exists_link?_replaceBus hwf).mpr
        (.inr (.inr ⟨⟨i, hl⟩, hstart, htarget ▸ hline⟩))
      exact ⟨k, l, hk, htarget, hside, (hτ.same _ (hold hl) hstart).symm ▸ hle⟩

/-- The comparator puts out what the source does. -/
theorem comparatorOutput_busNode {p : Power} (hside : p.side = 0) (strength : UInt8) :
    (busNode strength).gate.comparatorOutput p = p.main := by
  have hle : (0 : UInt8) ≤ p.main := by grind
  simp [busNode, Gate.comparator, Gate.comparatorOutput, Gate.effectiveMain, hside, hle]

theorem upholds_busNode_iff {p : Power} (hside : p.side = 0) {strength s : UInt8} :
    (busNode strength).Upholds p s ↔ p.main = s := by
  rw [Node.upholds_comparator_iff rfl, comparatorOutput_busNode hside]

theorem regular_busNode (strength : UInt8) : (busNode strength).Regular where
  defined := rfl
  farInput_le := nofun
  constant_le := nofun
  locked_le := nofun
  output_indicator := nofun

theorem regular_replaceBus (h : Bus g source lines first) (hregular : g.Regular) :
    (replaceBus g source lines first).Regular where
  wellFormed := wellFormed_replaceBus hregular.wellFormed source lines first
  nodes := by
    intro j n hn
    rw [node?_replaceBus] at hn
    split at hn
    · cases hn
      exact regular_busNode _
    · split at hn
      · cases hn
      · exact hregular.nodes hn
  source_free := by
    intro i l n hl hn
    rcases (h.exists_link?_replaceBus hregular.wellFormed).mp ⟨i, hl⟩ with
      rfl | rfl | ⟨⟨k, hk⟩, -, hend⟩
    · obtain ⟨m, hm, htype⟩ := h.node?_target
      cases hm.symm.trans hn
      rw [htype]
      rfl
    · cases ((node?_replaceBus g source lines first g.nodeBound).trans (if_pos rfl)).symm.trans hn
      rfl
    · rw [node?_replaceBus, if_neg (Nat.ne_of_lt (lt_nodeBound_of_contains
        (hregular.wellFormed.contains_target hk))), if_neg hend] at hn
      exact hregular.source_free hk hn

theorem unlatched_replaceBus (h : Bus g source lines first) (hwf : g.WellFormed)
    (hun : g.Unlatched) : (replaceBus g source lines first).Unlatched where
  unlocked := by
    intro j n hn htype
    rw [node?_replaceBus] at hn
    split at hn
    · cases hn
      rfl
    · split at hn
      · cases hn
      · exact hun.unlocked hn htype
  no_side := by
    intro i l n hl hn htype
    rcases (h.exists_link?_replaceBus hwf).mp ⟨i, hl⟩ with rfl | rfl | ⟨⟨k, hk⟩, -, hend⟩
    · obtain ⟨m, hm, hcomparator⟩ := h.node?_target
      cases hm.symm.trans hn
      cases htype.symm.trans hcomparator
    · exact fun hside => Channel.noConfusion hside
    · rw [node?_replaceBus, if_neg (Nat.ne_of_lt (lt_nodeBound_of_contains (hwf.contains_target hk))),
        if_neg hend] at hn
      exact hun.no_side hk hn htype

theorem lineage_replaceBus (h : Bus g source lines first) :
    Lineage g (replaceBus g source lines first) := by
  rw [replaceBus_eq]
  refine (((lineage_withoutLines lines fun line hline n hn => ?_).trans
    (.addNode _ rfl rfl)).trans (.addLink _ _)).trans (.addLink _ _)
  obtain ⟨m, hm, -, hrole⟩ := (h.line hline).node
  rw [hn] at hm
  cases hm
  exact hrole

theorem forward_replaceBus (h : Bus g source lines first) (hwf : g.WellFormed) :
    Forward g (replaceBus g source lines first) := by
  intro τ hτ
  -- the new node carries what its source puts out
  let τ' : NodeId → UInt8 := fun j => if j = g.nodeBound then τ source else τ j
  have hother (j : NodeId) (hj : j ≠ g.nodeBound) : τ' j = τ j := if_neg hj
  have hself : τ' g.nodeBound = τ source := if_pos rfl
  obtain ⟨m, hm, -⟩ := h.source_node
  have hmatches : Matches g source lines τ τ' :=
    ⟨h.linesFollow hwf hτ, hτ.bounded hm, hself, fun k hk _ => hother k hk⟩
  refine ⟨τ', ⟨fun {j n} hn => ?_, fun {j n} hn => ?_⟩, fun j hc _ => ?_⟩
  · rw [node?_replaceBus] at hn
    split at hn
    case isTrue hj =>
      cases hn
      subst hj
      rw [(h.hangsOn_replaceBus hwf).powerUnder_eq
        (wellFormed_replaceBus hwf source lines first), upholds_busNode_iff rfl, attenuate_zero,
        hself, hother source h.source_ne]
    case isFalse hj =>
      split at hn
      case isTrue => cases hn
      case isFalse hline =>
        rw [hother j hj, h.powerUnder_replaceBus hwf hmatches hj hline]
        exact hτ.upholds hn
  · rw [node?_replaceBus] at hn
    split at hn
    case isTrue hj =>
      rw [hj, hself]
      exact hτ.bounded hm
    case isFalse hj =>
      rw [hother j hj]
      split at hn
      · cases hn
      · exact hτ.bounded hn
  · exact hother j (Nat.ne_of_lt (lt_nodeBound_of_contains hc))

/-- The strengths with the repeaters put back: each is on if the source is strong enough. -/
def expand (source : NodeId) (lines : List BusLine) (τ' : NodeId → UInt8) (j : NodeId) : UInt8 :=
  match lines.find? fun line => line.repeater == j with
  | some line => digital (line.inLoss < τ' source)
  | none => τ' j

theorem expand_of_notMem {τ' : NodeId → UInt8} {j : NodeId}
    (hj : j ∉ lines.map BusLine.repeater) : expand source lines τ' j = τ' j := by
  have hnone : lines.find? (fun line => line.repeater == j) = none := by
    rw [List.find?_eq_none]
    intro line hline heq
    exact hj (List.mem_map.mpr ⟨line, hline, by simpa using heq⟩)
  unfold expand
  rw [hnone]

theorem linesFollow_expand (h : Bus g source lines first) (τ' : NodeId → UInt8) :
    LinesFollow lines source (expand source lines τ') := by
  intro line hline
  rw [expand_of_notMem h.source_notMem]
  unfold expand
  split
  case h_2 hnone =>
    rw [List.find?_eq_none] at hnone
    exact absurd (by simp) (hnone line hline)
  case h_1 found hfound =>
    -- the repeater has one link, so all lines over it have the same loss
    have hrepeater : found.repeater = line.repeater := by simpa using List.find?_some hfound
    obtain ⟨i, l, hl, hend⟩ := (h.line hline).hangs.link
    have hloss := ((h.line hline).hangs.every hl hend).2.2
    have hloss' := ((h.line (List.mem_of_find?_eq_some hfound)).hangs.every hl
      (hend.trans hrepeater.symm)).2.2
    rw [← hloss, ← hloss']

theorem backward_replaceBus (h : Bus g source lines first) (hwf : g.WellFormed)
    (hun : g.Unlatched) : Backward g (replaceBus g source lines first) := by
  intro τ' hτ'
  have hwf' := wellFormed_replaceBus hwf source lines first
  have hstay {j : NodeId} {n : Node} (hn : g.node? j = some n)
      (hj : j ∉ lines.map BusLine.repeater) :
      (replaceBus g source lines first).node? j = some n := by
    rw [node?_replaceBus, if_neg, if_neg hj, hn]
    exact ne_nodeBound_of_node? hn
  have hcarried : τ' g.nodeBound = τ' source := by
    have hup := hτ'.upholds ((node?_replaceBus g source lines first g.nodeBound).trans (if_pos rfl))
    rw [(h.hangsOn_replaceBus hwf).powerUnder_eq hwf', upholds_busNode_iff rfl, attenuate_zero] at hup
    exact hup.symm
  obtain ⟨m, hm, -⟩ := h.source_node
  have hsource : expand source lines τ' source = τ' source := expand_of_notMem h.source_notMem
  have hfollow := h.linesFollow_expand τ'
  have hmatches : Matches g source lines (expand source lines τ') τ' :=
    ⟨hfollow, hsource ▸ hτ'.bounded (hstay hm h.source_notMem), hcarried.trans hsource.symm,
      fun k _ hk => (expand_of_notMem hk).symm⟩
  refine ⟨expand source lines τ', ⟨fun {j n} hn => ?_, fun {j n} hn => ?_⟩, fun j _ hc => ?_⟩
  · by_cases hj : j ∈ lines.map BusLine.repeater
    · obtain ⟨line, hline, rfl⟩ := List.mem_map.mp hj
      obtain ⟨k, hk, hgate, -⟩ := (h.line hline).node
      rw [hn] at hk
      cases hk
      have htype : n.gate.type = .repeater := by
        rw [hgate]
        rfl
      have hup := Node.upholds_digital (n := n)
        (p := g.powerUnder (expand source lines τ') line.repeater) htype
        (hun.side_eq_zero hwf hn htype _) (hun.unlocked hn htype)
      rw [(h.line hline).hangs.powerUnder_eq hwf] at hup ⊢
      simp only [attenuate_pos_iff] at hup
      rw [hfollow line hline]
      exact hup
    · have hne := ne_nodeBound_of_node? hn
      rw [expand_of_notMem hj, ← h.powerUnder_replaceBus hwf hmatches hne hj]
      exact hτ'.upholds (hstay hn hj)
  · by_cases hj : j ∈ lines.map BusLine.repeater
    · obtain ⟨line, hline, rfl⟩ := List.mem_map.mp hj
      rw [hfollow line hline]
      exact digital_le _
    · rw [expand_of_notMem hj]
      exact hτ'.bounded (hstay hn hj)
  · refine (expand_of_notMem fun hj => ?_).symm
    -- a repeater of the bus is gone
    obtain ⟨line, hline, rfl⟩ := List.mem_map.mp hj
    obtain ⟨n, hn⟩ := contains_iff.mp hc
    obtain ⟨k, hk, -⟩ := (h.line hline).node
    rw [node?_replaceBus, if_neg (ne_nodeBound_of_node? hk),
      if_pos hj] at hn
    cases hn

theorem refines_replaceBus (h : Bus g source lines first) (hregular : g.Regular) :
    Refines g (replaceBus g source lines first) where
  regular := h.regular_replaceBus hregular
  unlatched := h.unlatched_replaceBus hregular.wellFormed
  forward := h.forward_replaceBus hregular.wellFormed
  backward := h.backward_replaceBus hregular.wellFormed
  lineage := h.lineage_replaceBus

end Bus

theorem refines_collapseBusAt (h : g.Regular) (id : NodeId) :
    Refines g (collapseBusAt id g).circuit :=
  collapseBusAt_keeps (P := Refines g) (fun hcomparator hlines =>
    (bus_of_busLines? h.wellFormed hcomparator hlines).refines_replaceBus h) (.refl h)

theorem refines_collapseBuses (h : g.Regular) : Refines g (collapseBuses g).circuit :=
  .sweep (fun id _ hg => refines_collapseBusAt hg id) h

end Redstone.Optimize
