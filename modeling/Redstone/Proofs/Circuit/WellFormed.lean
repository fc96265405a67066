import Redstone.Proofs.Circuit.Views

/-!
# Well-formed circuits

Every link is kept in three places: in the array of links, in the list of outputs of its
source, and in the list of inputs of its target; two counters go with the arrays.  A circuit
is well-formed when all of these agree.  In particular both ends of a link are nodes of the
circuit.  Every operation keeps circuits well-formed.
-/

namespace Redstone.Circuit

/-- The lists at the nodes name exactly the links that end and start there, each once, and
the counters count the nodes and the links. -/
structure WellFormed (g : Circuit) : Prop where
  mem_inputs_iff : ∀ {id : NodeId} {i : LinkId},
    i ∈ g.inputs id ↔ ∃ l, g.link? i = some l ∧ l.target = id
  mem_outputs_iff : ∀ {id : NodeId} {i : LinkId},
    i ∈ g.outputs id ↔ ∃ l, g.link? i = some l ∧ l.source = id
  inputs_nodup : ∀ id : NodeId, (g.inputs id).Nodup
  outputs_nodup : ∀ id : NodeId, (g.outputs id).Nodup
  nodeCount_eq : g.nodeCount = g.nodeIds.length
  linkCount_eq : g.linkCount = g.linkIds.length

/-! ## The lists of names -/

section Names

variable {g g' : Circuit}

theorem nodeIds_congr (hbound : g'.nodeBound = g.nodeBound)
    (hcontains : ∀ id, g'.contains id = g.contains id) : g'.nodeIds = g.nodeIds := by
  unfold nodeIds
  change (List.range g'.nodeBound).filter (fun id => g'.contains id) =
    (List.range g.nodeBound).filter (fun id => g.contains id)
  rw [hbound]
  exact List.filter_congr fun id _ => hcontains id

theorem linkIds_congr (hbound : g'.linkBound = g.linkBound)
    (hlink : ∀ i, (g'.link? i).isSome = (g.link? i).isSome) : g'.linkIds = g.linkIds := by
  unfold linkIds
  change (List.range g'.linkBound).filter _ = (List.range g.linkBound).filter _
  rw [hbound]
  exact List.filter_congr fun i _ => hlink i

theorem nodeIds_addNode (n : Node) : (g.addNode n).nodeIds = g.nodeIds ++ [g.nodeBound] := by
  unfold nodeIds
  change (List.range (g.addNode n).nodeBound).filter (fun id => (g.addNode n).contains id) = _
  rw [nodeBound_addNode, List.range_succ, List.filter_append]
  congr 1
  · apply List.filter_congr
    intro id hid
    have hne : id ≠ g.nodeBound := Nat.ne_of_lt (List.mem_range.mp hid)
    rw [contains_addNode]
    simp [hne, contains]
  · simp [contains_addNode]

theorem nodeIds_removeNode (id : NodeId) : (g.removeNode id).nodeIds = g.nodeIds.erase id := by
  rw [g.nodeIds_nodup.erase_eq_filter]
  unfold nodeIds
  change (List.range (g.removeNode id).nodeBound).filter
    (fun j => (g.removeNode id).contains j) = _
  rw [nodeBound_removeNode, List.filter_filter]
  apply List.filter_congr
  intro j _
  rw [contains_removeNode, Bool.and_comm]
  congr 1
  by_cases h : id = j
  · simp [h]
  · have hji : j ≠ id := fun e => h e.symm
    simp [h, hji]

theorem linkIds_nodup (g : Circuit) : g.linkIds.Nodup :=
  List.nodup_range.filter _

theorem linkBound_addLink {l : Link} (hs : g.contains l.source = true)
    (ht : g.contains l.target = true) : (g.addLink l).linkBound = g.linkBound + 1 := by
  rw [addLink_of_contains hs ht]
  simp [linkBound]

theorem linkIds_addLink {l : Link} (hs : g.contains l.source = true)
    (ht : g.contains l.target = true) : (g.addLink l).linkIds = g.linkIds ++ [g.linkBound] := by
  unfold linkIds
  change (List.range (g.addLink l).linkBound).filter _ = _
  rw [linkBound_addLink hs ht, List.range_succ, List.filter_append]
  congr 1
  · apply List.filter_congr
    intro i hi
    have hne : i ≠ g.linkBound := Nat.ne_of_lt (List.mem_range.mp hi)
    rw [link?_addLink hs ht, if_neg hne]
  · simp [link?_addLink hs ht]

/-- Links between nodes of the circuit are numbered from the link bound on. -/
theorem link?_foldl_addLink {links : List Link}
    (h : ∀ l ∈ links, g.contains l.source = true ∧ g.contains l.target = true) (i : LinkId) :
    (links.foldl addLink g).link? i =
      if i < g.linkBound then g.link? i else links[i - g.linkBound]? := by
  induction links generalizing g with
  | nil =>
      split
      · rfl
      case isFalse hbound =>
        rw [List.foldl_nil, List.getElem?_nil, Option.eq_none_iff_forall_ne_some]
        exact fun l hl => hbound (lt_linkBound_of_link? hl)
  | cons l links ih =>
      obtain ⟨hsource, htarget⟩ := h l List.mem_cons_self
      have hrest : ∀ m ∈ links, (g.addLink l).contains m.source = true ∧
          (g.addLink l).contains m.target = true := by
        intro m hm
        rw [contains_addLink, contains_addLink]
        exact h m (List.mem_cons_of_mem _ hm)
      rw [List.foldl_cons, ih hrest, linkBound_addLink hsource htarget,
        link?_addLink hsource htarget]
      -- the added link itself stands at the old bound
      rcases Nat.lt_trichotomy i g.linkBound with hlt | rfl | hgt
      · rw [if_pos (Nat.lt_succ_of_lt hlt), if_neg (Nat.ne_of_lt hlt), if_pos hlt]
      · simp
      · obtain ⟨k, rfl⟩ := Nat.exists_eq_add_of_lt hgt
        have hk : g.linkBound + k + 1 - (g.linkBound + 1) = k := by omega
        have hk' : g.linkBound + k + 1 - g.linkBound = k + 1 := by omega
        rw [if_neg (Nat.not_lt_of_le (by omega)), if_neg (Nat.lt_asymm hgt), hk, hk',
          List.getElem?_cons_succ]

theorem linkCount_foldl_addLink {links : List Link}
    (h : ∀ l ∈ links, g.contains l.source = true ∧ g.contains l.target = true) :
    (links.foldl addLink g).linkCount = g.linkCount + links.length := by
  induction links generalizing g with
  | nil => rfl
  | cons l links ih =>
      obtain ⟨hsource, htarget⟩ := h l List.mem_cons_self
      have hrest : ∀ m ∈ links, (g.addLink l).contains m.source = true ∧
          (g.addLink l).contains m.target = true := by
        intro m hm
        rw [contains_addLink, contains_addLink]
        exact h m (List.mem_cons_of_mem _ hm)
      have hcount : (g.addLink l).linkCount = g.linkCount + 1 := by
        rw [addLink_of_contains hsource htarget]
      rw [List.foldl_cons, ih hrest, hcount, List.length_cons]
      omega

theorem node?_foldl_addLink (links : List Link) (j : NodeId) :
    (links.foldl addLink g).node? j = g.node? j := by
  induction links generalizing g with
  | nil => rfl
  | cons l links ih => rw [List.foldl_cons, ih, node?_addLink]

/-- The links of the circuit are then the old ones and the added ones. -/
theorem exists_link?_foldl_addLink_iff {links : List Link}
    (h : ∀ l ∈ links, g.contains l.source = true ∧ g.contains l.target = true) {l : Link} :
    (∃ i, (links.foldl addLink g).link? i = some l) ↔
      (∃ i, g.link? i = some l) ∨ l ∈ links := by
  constructor
  · rintro ⟨i, hi⟩
    rw [link?_foldl_addLink h] at hi
    split at hi
    · exact .inl ⟨i, hi⟩
    · exact .inr (List.mem_of_getElem? hi)
  · rintro (⟨i, hi⟩ | hl)
    · exact ⟨i, by rw [link?_foldl_addLink h, if_pos (lt_linkBound_of_link? hi), hi]⟩
    · obtain ⟨k, hk⟩ := List.mem_iff_getElem?.mp hl
      refine ⟨g.linkBound + k, ?_⟩
      rw [link?_foldl_addLink h, if_neg (Nat.not_lt_of_le (Nat.le_add_right _ k)),
        Nat.add_sub_cancel_left, hk]

theorem linkBound_removeLink (i : LinkId) : (g.removeLink i).linkBound = g.linkBound := by
  cases h : g.link? i with
  | none => rw [removeLink_of_none h]
  | some l =>
      rw [removeLink_of_some h]
      simp [linkBound]

theorem linkBound_removeLinks (ids : List LinkId) :
    (g.removeLinks ids).linkBound = g.linkBound := by
  induction ids generalizing g with
  | nil => rfl
  | cons i ids ih => rw [removeLinks_cons, ih, linkBound_removeLink]

theorem linkIds_removeLink (i : LinkId) : (g.removeLink i).linkIds = g.linkIds.erase i := by
  rw [g.linkIds_nodup.erase_eq_filter]
  unfold linkIds
  change (List.range (g.removeLink i).linkBound).filter _ = _
  rw [linkBound_removeLink, List.filter_filter]
  apply List.filter_congr
  intro j _
  rw [link?_removeLink]
  by_cases h : i = j
  · simp [h]
  · have hji : j ≠ i := fun e => h e.symm
    simp [h, hji]

end Names

/-! ## What well-formedness gives -/

namespace WellFormed

variable {g : Circuit}

theorem mem_inputs (h : g.WellFormed) {i : LinkId} {l : Link} (hl : g.link? i = some l) :
    i ∈ g.inputs l.target :=
  h.mem_inputs_iff.mpr ⟨l, hl, rfl⟩

theorem mem_outputs (h : g.WellFormed) {i : LinkId} {l : Link} (hl : g.link? i = some l) :
    i ∈ g.outputs l.source :=
  h.mem_outputs_iff.mpr ⟨l, hl, rfl⟩

/-- A link that is listed exists. -/
theorem exists_of_mem_inputs (h : g.WellFormed) {id : NodeId} {i : LinkId}
    (hi : i ∈ g.inputs id) : ∃ l, g.link? i = some l := by
  obtain ⟨l, hl, -⟩ := h.mem_inputs_iff.mp hi
  exact ⟨l, hl⟩

theorem exists_of_mem_outputs (h : g.WellFormed) {id : NodeId} {i : LinkId}
    (hi : i ∈ g.outputs id) : ∃ l, g.link? i = some l := by
  obtain ⟨l, hl, -⟩ := h.mem_outputs_iff.mp hi
  exact ⟨l, hl⟩

/-- A link is listed at its ends only. -/
theorem target_eq (h : g.WellFormed) {id : NodeId} {i : LinkId} {l : Link}
    (hl : g.link? i = some l) (hi : i ∈ g.inputs id) : l.target = id := by
  obtain ⟨m, hm, htarget⟩ := h.mem_inputs_iff.mp hi
  cases hl.symm.trans hm
  exact htarget

theorem source_eq (h : g.WellFormed) {id : NodeId} {i : LinkId} {l : Link}
    (hl : g.link? i = some l) (hi : i ∈ g.outputs id) : l.source = id := by
  obtain ⟨m, hm, hsource⟩ := h.mem_outputs_iff.mp hi
  cases hl.symm.trans hm
  exact hsource

/-- The next name of a link is in no list, since it is above all names in use. -/
theorem linkBound_notMem (h : g.WellFormed) (id : NodeId) :
    g.linkBound ∉ g.inputs id ∧ g.linkBound ∉ g.outputs id := by
  have hfresh : ¬∃ l, g.link? g.linkBound = some l := fun ⟨_, hl⟩ =>
    Nat.lt_irrefl _ (lt_linkBound_of_link? hl)
  exact ⟨fun hi => hfresh (h.exists_of_mem_inputs hi), fun hi => hfresh (h.exists_of_mem_outputs hi)⟩

/-- No link starts at a node without outputs. -/
theorem source_ne (h : g.WellFormed) {id : NodeId} (hnone : g.outputs id = []) {i : LinkId}
    {l : Link} (hl : g.link? i = some l) : l.source ≠ id := by
  rintro rfl
  have hmem := h.mem_outputs hl
  rw [hnone] at hmem
  cases hmem

theorem contains_target (h : g.WellFormed) {i : LinkId} {l : Link} (hl : g.link? i = some l) :
    g.contains l.target = true :=
  contains_of_mem_inputs (h.mem_inputs hl)

theorem contains_source (h : g.WellFormed) {i : LinkId} {l : Link} (hl : g.link? i = some l) :
    g.contains l.source = true :=
  contains_of_mem_outputs (h.mem_outputs hl)

theorem mem_inLinks_iff (h : g.WellFormed) {id : NodeId} {l : Link} :
    l ∈ g.inLinks id ↔ ∃ i, g.link? i = some l ∧ l.target = id := by
  unfold inLinks
  rw [List.mem_filterMap]
  constructor
  · rintro ⟨i, hi, hl⟩
    obtain ⟨m, hm, htarget⟩ := h.mem_inputs_iff.mp hi
    rw [hl] at hm
    cases hm
    exact ⟨i, hl, htarget⟩
  · rintro ⟨i, hl, htarget⟩
    exact ⟨i, htarget ▸ h.mem_inputs hl, hl⟩

theorem mem_outLinks_iff (h : g.WellFormed) {id : NodeId} {l : Link} :
    l ∈ g.outLinks id ↔ ∃ i, g.link? i = some l ∧ l.source = id := by
  unfold outLinks
  rw [List.mem_filterMap]
  constructor
  · rintro ⟨i, hi, hl⟩
    obtain ⟨m, hm, hsource⟩ := h.mem_outputs_iff.mp hi
    rw [hl] at hm
    cases hm
    exact ⟨i, hl, hsource⟩
  · rintro ⟨i, hl, hsource⟩
    exact ⟨i, hsource ▸ h.mem_outputs hl, hl⟩

/-- A link of a node that has one input is that input. -/
theorem eq_of_inputs_length_one (h : g.WellFormed) {i j : LinkId} {l m : Link}
    (hi : g.link? i = some l) (hj : g.link? j = some m) (htarget : m.target = l.target)
    (hone : (g.inputs l.target).length = 1) : i = j := by
  obtain ⟨k, hk⟩ := List.length_eq_one_iff.mp hone
  have hik : i ∈ [k] := hk ▸ h.mem_inputs hi
  have hjk : j ∈ [k] := hk ▸ htarget ▸ h.mem_inputs hj
  rw [List.mem_singleton.mp hik, List.mem_singleton.mp hjk]

/-- Circuits with links of the same names have as many links. -/
theorem linkCount_congr {g' : Circuit} (h : g.WellFormed) (h' : g'.WellFormed)
    (hlink : ∀ i, (∃ l, g'.link? i = some l) ↔ ∃ l, g.link? i = some l) :
    g'.linkCount = g.linkCount := by
  have hperm : g'.linkIds.Perm g.linkIds := by
    rw [List.perm_ext_iff_of_nodup g'.linkIds_nodup g.linkIds_nodup]
    intro i
    rw [mem_linkIds, mem_linkIds, hlink]
  rw [h.linkCount_eq, h'.linkCount_eq, hperm.length_eq]

/-! ## Operations keep circuits well-formed -/

theorem empty : Circuit.empty.WellFormed where
  mem_inputs_iff := by
    intro id i
    constructor
    · intro h
      cases h
    · rintro ⟨l, hl, -⟩
      cases hl
  mem_outputs_iff := by
    intro id i
    constructor
    · intro h
      cases h
    · rintro ⟨l, hl, -⟩
      cases hl
  inputs_nodup := fun _ => List.nodup_nil
  outputs_nodup := fun _ => List.nodup_nil
  nodeCount_eq := rfl
  linkCount_eq := rfl

theorem modifyNode (h : g.WellFormed) (id : NodeId) (f : Node → Node) :
    (g.modifyNode id f).WellFormed where
  mem_inputs_iff := by
    intro j i
    rw [inputs_modifyNode]
    exact h.mem_inputs_iff
  mem_outputs_iff := by
    intro j i
    rw [outputs_modifyNode]
    exact h.mem_outputs_iff
  inputs_nodup := by
    intro j
    rw [inputs_modifyNode]
    exact h.inputs_nodup j
  outputs_nodup := by
    intro j
    rw [outputs_modifyNode]
    exact h.outputs_nodup j
  nodeCount_eq := by
    rw [nodeIds_congr (g.nodeBound_modifyNode id f) (fun j => g.contains_modifyNode id j f)]
    exact h.nodeCount_eq
  linkCount_eq := h.linkCount_eq

theorem addNode (h : g.WellFormed) (n : Node) : (g.addNode n).WellFormed where
  mem_inputs_iff := by
    intro j i
    rw [inputs_addNode]
    exact h.mem_inputs_iff
  mem_outputs_iff := by
    intro j i
    rw [outputs_addNode]
    exact h.mem_outputs_iff
  inputs_nodup := by
    intro j
    rw [inputs_addNode]
    exact h.inputs_nodup j
  outputs_nodup := by
    intro j
    rw [outputs_addNode]
    exact h.outputs_nodup j
  nodeCount_eq := by
    rw [nodeIds_addNode, List.length_append, ← h.nodeCount_eq]
    rfl
  linkCount_eq := h.linkCount_eq

theorem addNodes (h : g.WellFormed) (nodes : List Node) : (g.addNodes nodes).WellFormed := by
  induction nodes generalizing g with
  | nil => exact h
  | cons n rest ih => exact ih (h.addNode n)

theorem addLink (h : g.WellFormed) (l : Link) : (g.addLink l).WellFormed := by
  by_cases hends : g.contains l.source = true ∧ g.contains l.target = true
  case neg =>
    rw [addLink_of_not_contains hends]
    exact h
  obtain ⟨hs, ht⟩ := hends
  constructor
  case mem_inputs_iff =>
    intro j i
    rw [inputs_addLink hs ht, link?_addLink hs ht]
    -- the name of the new link is in no list before, as it is above all names in use
    by_cases hi : i = g.linkBound
    · subst hi
      by_cases hj : l.target = j
      · simp [hj]
      · simp [hj, (h.linkBound_notMem j).1]
    · rw [if_neg hi, ← h.mem_inputs_iff]
      by_cases hj : l.target = j
      · simp [hj, hi]
      · simp [hj]
  case mem_outputs_iff =>
    intro j i
    rw [outputs_addLink hs ht, link?_addLink hs ht]
    by_cases hi : i = g.linkBound
    · subst hi
      by_cases hj : l.source = j
      · simp [hj]
      · simp [hj, (h.linkBound_notMem j).2]
    · rw [if_neg hi, ← h.mem_outputs_iff]
      by_cases hj : l.source = j
      · simp [hj, hi]
      · simp [hj]
  case inputs_nodup =>
    intro j
    rw [inputs_addLink hs ht]
    split
    · exact (h.inputs_nodup j).append (List.nodup_singleton _)
        (by simpa using (h.linkBound_notMem j).1)
    · exact h.inputs_nodup j
  case outputs_nodup =>
    intro j
    rw [outputs_addLink hs ht]
    split
    · exact (h.outputs_nodup j).append (List.nodup_singleton _)
        (by simpa using (h.linkBound_notMem j).2)
    · exact h.outputs_nodup j
  case nodeCount_eq =>
    rw [nodeIds_congr (nodeBound_addLink l) (contains_addLink l)]
    have hcount : (g.addLink l).nodeCount = g.nodeCount := by
      rw [addLink_of_contains hs ht]
      rfl
    rw [hcount]
    exact h.nodeCount_eq
  case linkCount_eq =>
    rw [linkIds_addLink hs ht, List.length_append, ← h.linkCount_eq, addLink_of_contains hs ht]
    rfl

/-- In a well-formed circuit the name of a removed link is struck from all lists of inputs,
wherever it stood. -/
theorem inputs_removeLink (h : g.WellFormed) (i : LinkId) (j : NodeId) :
    (g.removeLink i).inputs j = (g.inputs j).erase i := by
  cases hl : g.link? i with
  | none =>
      have hnot : i ∉ g.inputs j := by
        intro hmem
        obtain ⟨l, hl'⟩ := h.exists_of_mem_inputs hmem
        cases hl.symm.trans hl'
      rw [removeLink_of_none hl, List.erase_of_not_mem hnot]
  | some l =>
      rw [inputs_removeLink_of_some hl]
      split
      · rfl
      case isFalse hne =>
        rw [List.erase_of_not_mem fun hmem => hne (h.target_eq hl hmem)]

theorem outputs_removeLink (h : g.WellFormed) (i : LinkId) (j : NodeId) :
    (g.removeLink i).outputs j = (g.outputs j).erase i := by
  cases hl : g.link? i with
  | none =>
      have hnot : i ∉ g.outputs j := by
        intro hmem
        obtain ⟨l, hl'⟩ := h.exists_of_mem_outputs hmem
        cases hl.symm.trans hl'
      rw [removeLink_of_none hl, List.erase_of_not_mem hnot]
  | some l =>
      rw [outputs_removeLink_of_some hl]
      split
      · rfl
      case isFalse hne =>
        rw [List.erase_of_not_mem fun hmem => hne (h.source_eq hl hmem)]

theorem removeLink (h : g.WellFormed) (i : LinkId) : (g.removeLink i).WellFormed where
  mem_inputs_iff := by
    intro j k
    rw [h.inputs_removeLink, (h.inputs_nodup j).mem_erase_iff, link?_removeLink,
      h.mem_inputs_iff]
    by_cases hik : i = k
    · simp [hik]
    · have hki : k ≠ i := fun e => hik e.symm
      simp [hik, hki]
  mem_outputs_iff := by
    intro j k
    rw [h.outputs_removeLink, (h.outputs_nodup j).mem_erase_iff, link?_removeLink,
      h.mem_outputs_iff]
    by_cases hik : i = k
    · simp [hik]
    · have hki : k ≠ i := fun e => hik e.symm
      simp [hik, hki]
  inputs_nodup := by
    intro j
    rw [h.inputs_removeLink]
    exact (h.inputs_nodup j).erase i
  outputs_nodup := by
    intro j
    rw [h.outputs_removeLink]
    exact (h.outputs_nodup j).erase i
  nodeCount_eq := by
    rw [nodeIds_congr (nodeBound_removeLink i) (contains_removeLink i), ← h.nodeCount_eq]
    cases hl : g.link? i with
    | none => rw [removeLink_of_none hl]
    | some l =>
        rw [removeLink_of_some hl]
        rfl
  linkCount_eq := by
    rw [linkIds_removeLink]
    cases hl : g.link? i with
    | none =>
        have hnot : i ∉ g.linkIds := by simp [mem_linkIds, hl]
        rw [List.erase_of_not_mem hnot, removeLink_of_none hl]
        exact h.linkCount_eq
    | some l =>
        rw [List.length_erase_of_mem (mem_linkIds.mpr ⟨l, hl⟩), ← h.linkCount_eq,
          removeLink_of_some hl]

theorem removeLinks (h : g.WellFormed) (ids : List LinkId) : (g.removeLinks ids).WellFormed := by
  induction ids generalizing g with
  | nil => exact h
  | cons i ids ih => exact ih (h.removeLink i)

/-- Removing the inputs of a node removes exactly the links that end there. -/
theorem link?_removeInputs_eq_some_iff (h : g.WellFormed) {id : NodeId} {i : LinkId} {l : Link} :
    (g.removeLinks (g.inputs id)).link? i = some l ↔ g.link? i = some l ∧ l.target ≠ id := by
  rw [link?_removeLinks]
  constructor
  · intro hl
    split at hl
    · cases hl
    case isFalse hnot =>
      refine ⟨hl, ?_⟩
      rintro rfl
      exact hnot (h.mem_inputs hl)
  · rintro ⟨hl, hne⟩
    rw [if_neg, hl]
    intro hmem
    obtain ⟨l', hl', htarget⟩ := h.mem_inputs_iff.mp hmem
    rw [hl] at hl'
    cases hl'
    exact hne htarget

theorem isolate (h : g.WellFormed) (id : NodeId) : (g.isolate id).WellFormed :=
  (h.removeLinks _).removeLinks _

/-- Removing a node removes exactly the links that start or end there. -/
theorem link?_removeNode_eq_some_iff (h : g.WellFormed) {id : NodeId} {i : LinkId} {l : Link} :
    (g.removeNode id).link? i = some l ↔
      g.link? i = some l ∧ l.source ≠ id ∧ l.target ≠ id := by
  cases hc : g.contains id with
  | false =>
      rw [removeNode_of_not_contains hc]
      constructor
      · intro hl
        refine ⟨hl, ?_, ?_⟩
        · rintro rfl
          simp [h.contains_source hl] at hc
        · rintro rfl
          simp [h.contains_target hl] at hc
      · rintro ⟨hl, -, -⟩
        exact hl
  | true =>
      rw [link?_removeNode_of_contains hc, link?_isolate]
      constructor
      · intro hl
        split at hl
        · cases hl
        case isFalse hnot =>
          rw [not_or] at hnot
          refine ⟨hl, ?_, ?_⟩
          · rintro rfl
            exact hnot.1 (h.mem_outputs hl)
          · rintro rfl
            exact hnot.2 (h.mem_inputs hl)
      · rintro ⟨hl, hsource, htarget⟩
        rw [if_neg, hl]
        rintro (hmem | hmem)
        · exact hsource (h.source_eq hl hmem)
        · exact htarget (h.target_eq hl hmem)

theorem removeNode (h : g.WellFormed) (id : NodeId) : (g.removeNode id).WellFormed := by
  cases hc : g.contains id with
  | false =>
      rw [removeNode_of_not_contains hc]
      exact h
  | true =>
      have hiso := h.isolate id
      -- Nothing is left that starts or ends at the node.
      have hclear {i : LinkId} {l : Link} (hl : (g.isolate id).link? i = some l) :
          l.source ≠ id ∧ l.target ≠ id := by
        rw [← link?_removeNode_of_contains hc, h.link?_removeNode_eq_some_iff] at hl
        exact hl.2
      constructor
      case mem_inputs_iff =>
        intro j i
        rw [inputs_removeNode_of_contains hc, link?_removeNode_of_contains hc]
        by_cases hj : id = j
        · subst hj
          simp only [if_true, List.not_mem_nil, false_iff]
          rintro ⟨l, hl, htarget⟩
          exact (hclear hl).2 htarget
        · rw [if_neg hj]
          exact hiso.mem_inputs_iff
      case mem_outputs_iff =>
        intro j i
        rw [outputs_removeNode_of_contains hc, link?_removeNode_of_contains hc]
        by_cases hj : id = j
        · subst hj
          simp only [if_true, List.not_mem_nil, false_iff]
          rintro ⟨l, hl, hsource⟩
          exact (hclear hl).1 hsource
        · rw [if_neg hj]
          exact hiso.mem_outputs_iff
      case inputs_nodup =>
        intro j
        rw [inputs_removeNode_of_contains hc]
        split
        · exact List.nodup_nil
        · exact hiso.inputs_nodup j
      case outputs_nodup =>
        intro j
        rw [outputs_removeNode_of_contains hc]
        split
        · exact List.nodup_nil
        · exact hiso.outputs_nodup j
      case nodeCount_eq =>
        rw [nodeIds_removeNode, List.length_erase_of_mem (mem_nodeIds.mpr hc),
          removeNode_of_contains hc]
        change (g.isolate id).nodeCount - 1 = _
        rw [hiso.nodeCount_eq]
        congr 2
        unfold Circuit.isolate
        refine nodeIds_congr ?_ ?_
        · rw [nodeBound_removeLinks, nodeBound_removeLinks]
        · intro j
          rw [contains_removeLinks, contains_removeLinks]
      case linkCount_eq =>
        rw [linkIds_congr (g := g.isolate id) (by rw [removeNode_of_contains hc]; rfl)
          (fun i => by rw [link?_removeNode_of_contains hc]), ← hiso.linkCount_eq,
          removeNode_of_contains hc]

theorem setSource (h : g.WellFormed) (i : LinkId) (source : NodeId) :
    (g.setSource i source).WellFormed := by
  by_cases hstay : ∀ l, g.link? i = some l → g.contains source = true → l.source = source
  case pos =>
    rw [setSource_of_stay hstay]
    exact h
  simp only [not_forall] at hstay
  obtain ⟨l, hl, hs, hne⟩ := hstay
  have hlink := link?_setSource_of_move hl hs hne
  have hout := outputs_setSource_of_move hl hs hne
  have hfresh : i ∉ g.outputs source := fun hmem => hne (h.source_eq hl hmem)
  constructor
  case mem_inputs_iff =>
    intro j k
    rw [inputs_setSource, hlink, h.mem_inputs_iff]
    by_cases hik : i = k
    · subst hik
      simp [hl]
    · simp [hik]
  case mem_outputs_iff =>
    intro j k
    rw [hout, hlink]
    by_cases hik : i = k
    · subst hik
      -- the moved link is listed at its new source, and at its old one no longer
      by_cases hj : source = j
      · simp [hj]
      · by_cases hold : l.source = j
        · simp [hj, hold, (h.outputs_nodup j).mem_erase_iff]
        · simp [hj, hold, h.mem_outputs_iff, hl]
    · have hki : k ≠ i := fun e => hik e.symm
      rw [if_neg hik, ← h.mem_outputs_iff]
      by_cases hj : source = j
      · simp [hj, hki]
      · by_cases hold : l.source = j
        · simp [hj, hold, (h.outputs_nodup j).mem_erase_iff, hki]
        · simp [hj, hold]
  -- the lists of inputs stay as they are, and the link was in no list of its new source
  case inputs_nodup =>
    intro j
    rw [inputs_setSource]
    exact h.inputs_nodup j
  case outputs_nodup =>
    intro j
    rw [hout]
    split
    case isTrue hj =>
      subst hj
      exact (h.outputs_nodup source).append (List.nodup_singleton _) (by simpa using hfresh)
    case isFalse =>
      split
      · exact (h.outputs_nodup j).erase i
      · exact h.outputs_nodup j
  case nodeCount_eq =>
    rw [nodeIds_congr (nodeBound_setSource i source) (contains_setSource i source),
      ← h.nodeCount_eq, setSource_of_move hl hs hne]
    rfl
  case linkCount_eq =>
    rw [linkIds_congr (g := g) (by rw [setSource_of_move hl hs hne]; simp [linkBound])
      (fun k => ?_), ← h.linkCount_eq, setSource_of_move hl hs hne]
    · rfl
    · rw [hlink]
      by_cases hik : i = k
      · subst hik
        simp [hl]
      · simp [hik]

end WellFormed

end Redstone.Circuit
