import Redstone.Proofs.Circuit.WellFormed

/-!
# Sessions of edits

A session keeps a row of circuits and calls one operation after the other, each on one of them: a
node or a link is added or removed, the source of a link is moved, or the circuit is copied and the
copy put at the end of the row.  The names in a call are arbitrary, and may stand for nothing.

Whatever the calls are, every circuit of the row is consistent: links are listed once at each of
their ends and nowhere else, and the counters count.  A call changes what it names and nothing else,
and a name that has been given once is never given again.
-/

namespace Redstone.Circuit

/-! ## Consistent circuits -/

/-- A link is filed: both of its ends are there, its source lists it once among its outputs, its
target lists it once among its inputs, and no other list has it. -/
structure Filed (g : Circuit) (i : LinkId) (l : Link) : Prop where
  contains_source : g.contains l.source = true
  contains_target : g.contains l.target = true
  count_outputs : ∀ id, (g.outputs id).count i = if id = l.source then 1 else 0
  count_inputs : ∀ id, (g.inputs id).count i = if id = l.target then 1 else 0

/-- All links are filed, the lists name nothing else, the counters count, and only names that have
been given stand for something. -/
structure Consistent (g : Circuit) : Prop where
  filed : ∀ {i l}, g.link? i = some l → g.Filed i l
  listed : ∀ {id i}, i ∈ g.inputs id ∨ i ∈ g.outputs id → ∃ l, g.link? i = some l
  nodeCount_eq : g.nodeCount = g.nodeIds.length
  linkCount_eq : g.linkCount = g.linkIds.length
  node_lt : ∀ {id n}, g.node? id = some n → id < g.nodeBound
  link_lt : ∀ {i l}, g.link? i = some l → i < g.linkBound

/-- An item of a list without repetitions is in it once. -/
theorem count_of_mem_iff {ids : List LinkId} {i : LinkId} {c : Prop} [Decidable c]
    (hnodup : ids.Nodup) (hmem : i ∈ ids ↔ c) : ids.count i = if c then 1 else 0 := by
  split
  case isTrue hc => exact List.count_eq_one_of_mem hnodup (hmem.mpr hc)
  case isFalse hc => exact List.count_eq_zero_of_not_mem fun hi => hc (hmem.mp hi)

theorem WellFormed.consistent {g : Circuit} (h : g.WellFormed) : g.Consistent where
  filed := by
    intro i l hl
    refine ⟨h.contains_source hl, h.contains_target hl, fun id => ?_, fun id => ?_⟩
    · exact count_of_mem_iff (h.outputs_nodup id)
        ⟨fun hi => (h.source_eq hl hi).symm, fun hid => hid ▸ h.mem_outputs hl⟩
    · exact count_of_mem_iff (h.inputs_nodup id)
        ⟨fun hi => (h.target_eq hl hi).symm, fun hid => hid ▸ h.mem_inputs hl⟩
  listed := by
    rintro id i (hi | hi)
    · exact h.exists_of_mem_inputs hi
    · exact h.exists_of_mem_outputs hi
  nodeCount_eq := h.nodeCount_eq
  linkCount_eq := h.linkCount_eq
  node_lt := fun hn => lt_nodeBound_of_node? hn
  link_lt := lt_linkBound_of_link?

/-! ## Edits -/

/-- An edit of a circuit, with the names that it is given. -/
inductive Edit where
  | addNode (node : Node)
  | addLink (link : Link)
  | removeNode (id : NodeId)
  | removeLink (id : LinkId)
  | setSource (id : LinkId) (source : NodeId)
deriving DecidableEq, Repr

namespace Edit

/-- Performs an edit.  A link is refused if an end of it is missing. -/
def apply (g : Circuit) : Edit → Except LinkError Circuit
  | addNode node => .ok (g.addNode node)
  | addLink link => g.connect link
  | removeNode id => .ok (g.removeNode id)
  | removeLink id => .ok (g.removeLink id)
  | setSource id source => .ok (g.setSource id source)

/-- What a node's name stands for after an edit.  Only a node that is added or removed is
touched. -/
def nodeAfter (g : Circuit) (e : Edit) (id : NodeId) : Option Node :=
  match e with
  | addNode node => if id = g.nodeBound then some node else g.node? id
  | removeNode removed => if id = removed then none else g.node? id
  | _ => g.node? id

/-- What a link's name stands for after an edit.  Removing a node touches the links that start or
end there, and every other edit touches one link at most. -/
def linkAfter (g : Circuit) (e : Edit) (i : LinkId) : Option Link :=
  match e with
  | addNode _ => g.link? i
  | addLink link => if i = g.linkBound then some link else g.link? i
  | removeNode removed => (g.link? i).filter fun l => l.source ≠ removed ∧ l.target ≠ removed
  | removeLink removed => if i = removed then none else g.link? i
  | setSource moved source =>
      if i = moved ∧ g.contains source = true then (g.link? i).map fun l => { l with source }
      else g.link? i

/-- The number of node names that an edit gives. -/
def newNodes : Edit → Nat
  | addNode _ => 1
  | _ => 0

/-- The number of link names that an edit gives. -/
def newLinks : Edit → Nat
  | addLink _ => 1
  | _ => 0

end Edit

/-- The names that two lists have in common stand in the same order in both. -/
def KeepsOrder (old new : List LinkId) : Prop :=
  new.filter (· ∈ old) = old.filter (· ∈ new)

/-- A list from which some names are struck, and at the end of which new ones are added. -/
theorem keepsOrder_filter_append (old added : List LinkId) (p : LinkId → Bool)
    (hnew : ∀ i ∈ added, i ∉ old) : KeepsOrder old (old.filter p ++ added) := by
  have hkept : (old.filter p).filter (· ∈ old) = old.filter p :=
    List.filter_eq_self.mpr fun i hi => decide_eq_true (List.mem_of_mem_filter hi)
  have hadded : added.filter (· ∈ old) = [] :=
    List.filter_eq_nil_iff.mpr fun i hi => by simpa using hnew i hi
  unfold KeepsOrder
  rw [List.filter_append, hkept, hadded, List.append_nil]
  refine List.filter_congr fun i hi => ?_
  have hnot : i ∉ added := fun hmem => hnew i hmem hi
  rw [Bool.eq_iff_iff]
  simp [hi, hnot]

theorem keepsOrder_refl (ids : List LinkId) : KeepsOrder ids ids := rfl

theorem keepsOrder_filter (old : List LinkId) (p : LinkId → Bool) :
    KeepsOrder old (old.filter p) := by
  simpa using keepsOrder_filter_append old [] p (by simp)

theorem keepsOrder_append {old : List LinkId} {i : LinkId} (hnew : i ∉ old) :
    KeepsOrder old (old ++ [i]) := by
  simpa using keepsOrder_filter_append old [i] (fun _ => true) (by simpa using hnew)

theorem keepsOrder_erase {old : List LinkId} (hnodup : old.Nodup) (i : LinkId) :
    KeepsOrder old (old.erase i) := by
  rw [hnodup.erase_eq_filter]
  exact keepsOrder_filter old _

/-- The circuit `g'` comes out of `g` by an edit: what the names stand for has changed as the edit
says, the lists at the nodes have kept their order, and new names have come behind the old ones. -/
structure Performed (e : Edit) (g g' : Circuit) : Prop where
  node?_eq : ∀ id, g'.node? id = e.nodeAfter g id
  link?_eq : ∀ i, g'.link? i = e.linkAfter g i
  inputs_order : ∀ id, KeepsOrder (g.inputs id) (g'.inputs id)
  outputs_order : ∀ id, KeepsOrder (g.outputs id) (g'.outputs id)
  nodeBound_eq : g'.nodeBound = g.nodeBound + e.newNodes
  linkBound_eq : g'.linkBound = g.linkBound + e.newLinks

/-! ## What each edit does -/

namespace WellFormed

variable {g : Circuit}

theorem performed_addNode (n : Node) : Performed (.addNode n) g (g.addNode n) where
  node?_eq := g.node?_addNode n
  link?_eq := g.link?_addNode n
  inputs_order := fun id => by
    rw [inputs_addNode]
    exact keepsOrder_refl _
  outputs_order := fun id => by
    rw [outputs_addNode]
    exact keepsOrder_refl _
  nodeBound_eq := g.nodeBound_addNode n
  linkBound_eq := rfl

theorem performed_addLink (h : g.WellFormed) {l : Link} (hs : g.contains l.source = true)
    (ht : g.contains l.target = true) : Performed (.addLink l) g (g.addLink l) where
  node?_eq := node?_addLink l
  link?_eq := link?_addLink hs ht
  inputs_order := fun id => by
    rw [inputs_addLink hs ht]
    split
    · exact keepsOrder_append (h.linkBound_notMem id).1
    · exact keepsOrder_refl _
  outputs_order := fun id => by
    rw [outputs_addLink hs ht]
    split
    · exact keepsOrder_append (h.linkBound_notMem id).2
    · exact keepsOrder_refl _
  nodeBound_eq := nodeBound_addLink l
  linkBound_eq := linkBound_addLink hs ht

theorem performed_removeLink (h : g.WellFormed) (i : LinkId) :
    Performed (.removeLink i) g (g.removeLink i) where
  node?_eq := node?_removeLink i
  link?_eq := fun j => by
    rw [link?_removeLink]
    simp only [Edit.linkAfter, eq_comm]
  inputs_order := fun id => by
    rw [h.inputs_removeLink]
    exact keepsOrder_erase (h.inputs_nodup id) i
  outputs_order := fun id => by
    rw [h.outputs_removeLink]
    exact keepsOrder_erase (h.outputs_nodup id) i
  nodeBound_eq := nodeBound_removeLink i
  linkBound_eq := linkBound_removeLink i

/-- Removing links strikes their names from all lists. -/
theorem lists_removeLinks (h : g.WellFormed) (ids : List LinkId) (id : NodeId) :
    (g.removeLinks ids).inputs id = (g.inputs id).filter (· ∉ ids) ∧
      (g.removeLinks ids).outputs id = (g.outputs id).filter (· ∉ ids) := by
  induction ids generalizing g with
  | nil => simp
  | cons i ids ih =>
      obtain ⟨hinputs, houtputs⟩ := ih (h.removeLink i)
      rw [removeLinks_cons, hinputs, houtputs, h.inputs_removeLink, h.outputs_removeLink,
        (h.inputs_nodup id).erase_eq_filter, (h.outputs_nodup id).erase_eq_filter,
        List.filter_filter, List.filter_filter]
      constructor <;>
        exact List.filter_congr fun j _ => by
          rw [Bool.eq_iff_iff]
          simp [and_comm]

theorem lists_removeNode (h : g.WellFormed) (removed id : NodeId) :
    KeepsOrder (g.inputs id) ((g.removeNode removed).inputs id) ∧
      KeepsOrder (g.outputs id) ((g.removeNode removed).outputs id) := by
  cases hc : g.contains removed with
  | false =>
      rw [removeNode_of_not_contains hc]
      exact ⟨keepsOrder_refl _, keepsOrder_refl _⟩
  | true =>
      rw [inputs_removeNode_of_contains hc, outputs_removeNode_of_contains hc]
      split
      case isTrue =>
        -- the lists of the removed node are gone as a whole
        have hnone (ids : List LinkId) : KeepsOrder ids [] := by simp [KeepsOrder]
        exact ⟨hnone _, hnone _⟩
      case isFalse =>
        obtain ⟨hinputs, houtputs⟩ := h.lists_removeLinks (g.inputs removed) id
        obtain ⟨hinputs', houtputs'⟩ :=
          (h.removeLinks (g.inputs removed)).lists_removeLinks (g.outputs removed) id
        unfold Circuit.isolate
        rw [hinputs', houtputs', hinputs, houtputs, List.filter_filter, List.filter_filter]
        exact ⟨keepsOrder_filter _ _, keepsOrder_filter _ _⟩

theorem linkBound_removeNode (removed : NodeId) :
    (g.removeNode removed).linkBound = g.linkBound := by
  cases hc : g.contains removed with
  | false => rw [removeNode_of_not_contains hc]
  | true =>
      rw [removeNode_of_contains hc]
      change ((g.removeLinks (g.inputs removed)).removeLinks (g.outputs removed)).linkBound = _
      rw [linkBound_removeLinks, linkBound_removeLinks]

theorem performed_removeNode (h : g.WellFormed) (removed : NodeId) :
    Performed (.removeNode removed) g (g.removeNode removed) where
  node?_eq := fun id => by
    rw [node?_removeNode]
    simp only [Edit.nodeAfter, eq_comm]
  link?_eq := fun i => by
    ext l
    rw [h.link?_removeNode_eq_some_iff, Edit.linkAfter, Option.filter_eq_some_iff]
    simp
  inputs_order := fun id => (h.lists_removeNode removed id).1
  outputs_order := fun id => (h.lists_removeNode removed id).2
  nodeBound_eq := nodeBound_removeNode removed
  linkBound_eq := linkBound_removeNode removed

theorem performed_setSource (h : g.WellFormed) (i : LinkId) (source : NodeId) :
    Performed (.setSource i source) g (g.setSource i source) := by
  by_cases hstay : ∀ l, g.link? i = some l → g.contains source = true → l.source = source
  case pos =>
    rw [setSource_of_stay hstay]
    refine ⟨fun _ => rfl, fun j => ?_, fun _ => keepsOrder_refl _, fun _ => keepsOrder_refl _, rfl,
      rfl⟩
    unfold Edit.linkAfter
    dsimp only
    split
    case isFalse => rfl
    case isTrue hmoved =>
      obtain ⟨rfl, hs⟩ := hmoved
      cases hl : g.link? j with
      | none => rfl
      | some l => rw [Option.map_some, ← hstay l hl hs]
  simp only [not_forall] at hstay
  obtain ⟨l, hl, hs, hne⟩ := hstay
  -- the link is not yet listed at its new source
  have hfresh : i ∉ g.outputs source := fun hmem => hne (h.source_eq hl hmem)
  refine ⟨node?_setSource i source, fun j => ?_, fun id => ?_, fun id => ?_,
    nodeBound_setSource i source, ?_⟩
  · rw [link?_setSource hs]
    simp only [Edit.linkAfter, hs, and_true, eq_comm]
  · rw [inputs_setSource]
    exact keepsOrder_refl _
  · rw [outputs_setSource_of_move hl hs hne]
    split
    case isTrue hid => exact hid ▸ keepsOrder_append hfresh
    case isFalse =>
      split
      · exact keepsOrder_erase (h.outputs_nodup id) i
      · exact keepsOrder_refl _
  · rw [setSource_of_move hl hs hne]
    simp [linkBound, Edit.newLinks]

/-- An edit is performed, or it is a link that is refused because an end of it is missing. -/
theorem apply_cases (h : g.WellFormed) (e : Edit) :
    (∃ g', e.apply g = .ok g' ∧ g'.WellFormed ∧ Performed e g g') ∨
      ∃ l, e = .addLink l ∧ (g.contains l.source = false ∨ g.contains l.target = false) ∧
        e.apply g = .error { source := l.source, target := l.target } := by
  cases e with
  | addNode n => exact .inl ⟨_, rfl, h.addNode n, performed_addNode n⟩
  | removeNode id => exact .inl ⟨_, rfl, h.removeNode id, h.performed_removeNode id⟩
  | removeLink i => exact .inl ⟨_, rfl, h.removeLink i, h.performed_removeLink i⟩
  | setSource i source =>
      exact .inl ⟨_, rfl, h.setSource i source, h.performed_setSource i source⟩
  | addLink l =>
      cases hends : g.contains l.source && g.contains l.target with
      | true =>
          obtain ⟨hs, ht⟩ := Bool.and_eq_true_iff.mp hends
          exact .inl ⟨_, if_pos hends, h.addLink l, h.performed_addLink hs ht⟩
      | false =>
          refine .inr ⟨l, rfl, Bool.and_eq_false_iff.mp hends, if_neg ?_⟩
          rw [hends]
          exact Bool.false_ne_true

end WellFormed

/-! ## Names are never given again -/

/-- The circuit `g'` is a later state of `g`: names have been given in increasing order, and a name
that has been given and stands for nothing any more is not given again. -/
structure Outlives (g g' : Circuit) : Prop where
  nodeBound_le : g.nodeBound ≤ g'.nodeBound
  linkBound_le : g.linkBound ≤ g'.linkBound
  node?_eq_none : ∀ {id}, id < g.nodeBound → g.node? id = none → g'.node? id = none
  link?_eq_none : ∀ {i}, i < g.linkBound → g.link? i = none → g'.link? i = none

namespace Outlives

variable {g g' g'' : Circuit}

theorem refl (g : Circuit) : Outlives g g :=
  ⟨Nat.le_refl _, Nat.le_refl _, fun _ h => h, fun _ h => h⟩

theorem trans (h : Outlives g g') (h' : Outlives g' g'') : Outlives g g'' where
  nodeBound_le := Nat.le_trans h.nodeBound_le h'.nodeBound_le
  linkBound_le := Nat.le_trans h.linkBound_le h'.linkBound_le
  node?_eq_none := fun hlt hnone =>
    h'.node?_eq_none (Nat.lt_of_lt_of_le hlt h.nodeBound_le) (h.node?_eq_none hlt hnone)
  link?_eq_none := fun hlt hnone =>
    h'.link?_eq_none (Nat.lt_of_lt_of_le hlt h.linkBound_le) (h.link?_eq_none hlt hnone)

end Outlives

theorem Performed.outlives {e : Edit} {g g' : Circuit} (h : Performed e g g') : Outlives g g' where
  nodeBound_le := h.nodeBound_eq ▸ Nat.le_add_right _ _
  linkBound_le := h.linkBound_eq ▸ Nat.le_add_right _ _
  node?_eq_none := by
    intro id hlt hnone
    rw [h.node?_eq]
    cases e with
    | addNode n => exact (if_neg (Nat.ne_of_lt hlt)).trans hnone
    | removeNode removed =>
        change (if id = removed then none else g.node? id) = none
        rw [hnone, ite_self]
    | _ => exact hnone
  link?_eq_none := by
    intro i hlt hnone
    rw [h.link?_eq]
    cases e with
    | addNode n => exact hnone
    | addLink l => exact (if_neg (Nat.ne_of_lt hlt)).trans hnone
    | removeNode removed => simp [Edit.linkAfter, hnone]
    | removeLink removed => simp [Edit.linkAfter, hnone]
    | setSource moved source => simp [Edit.linkAfter, hnone]

/-! ## Sessions -/

/-- A copy of a circuit, made place by place.  An empty place stays empty, so that names stand for
the same in the copy. -/
def copy (g : Circuit) : Circuit where
  slots := g.slots.map fun place => place.map fun s =>
    { node := s.node, inputs := s.inputs, outputs := s.outputs }
  links := g.links.map fun place => place.map fun l =>
    { source := l.source, target := l.target, channel := l.channel, loss := l.loss }
  nodeCount := g.nodeCount
  linkCount := g.linkCount

theorem copy_eq (g : Circuit) : g.copy = g := by
  simp [copy]

/-- A call: an edit of the circuit at a place of the row, or a copy of it. -/
inductive Call where
  | edit (place : Nat) (e : Edit)
  | copy (place : Nat)
deriving DecidableEq, Repr

namespace Call

/-- Performs a call on a row of circuits.  A place without a circuit is passed over. -/
def perform (row : List Circuit) : Call → Except LinkError (List Circuit)
  | edit place e =>
      match row[place]? with
      | none => .ok row
      | some g => (e.apply g).map fun g' => row.set place g'
  | copy place =>
      match row[place]? with
      | none => .ok row
      | some g => .ok (row ++ [g.copy])

/-- What a call does to the row: an edit changes one circuit as it says, and a copy is added behind
all circuits.  No other circuit is touched. -/
inductive Done : Call → List Circuit → List Circuit → Prop
  | edit {place : Nat} {e : Edit} {row : List Circuit} {g g' : Circuit}
      (hplace : row[place]? = some g) (hperformed : Performed e g g') :
      Done (.edit place e) row (row.set place g')
  | copy {place : Nat} {row : List Circuit} {g : Circuit} (hplace : row[place]? = some g) :
      Done (.copy place) row (row ++ [g])
  | nowhere {call : Call} {row : List Circuit}
      (hplace : ∃ place, row[place]? = none ∧ (call = .copy place ∨ ∃ e, call = .edit place e)) :
      Done call row row

/-- The call adds a link without both of its ends. -/
def IsRefused (row : List Circuit) (call : Call) : Prop :=
  ∃ place l g, call = .edit place (.addLink l) ∧ row[place]? = some g ∧
    (g.contains l.source = false ∨ g.contains l.target = false)

/-- All that a call on a row of well-formed circuits can come to. -/
theorem perform_cases {row : List Circuit} (hrow : ∀ g ∈ row, g.WellFormed) (call : Call) :
    (∃ row', call.perform row = .ok row' ∧ Done call row row' ∧ ∀ g ∈ row', g.WellFormed) ∨
      IsRefused row call ∧ ∃ e, call.perform row = .error e := by
  cases call with
  | copy place =>
      cases hplace : row[place]? with
      | none =>
          exact .inl ⟨row, by simp only [perform, hplace],
            .nowhere ⟨place, hplace, .inl rfl⟩, hrow⟩
      | some g =>
          refine .inl ⟨row ++ [g], by simp only [perform, hplace, copy_eq], .copy hplace, ?_⟩
          intro g' hg'
          rcases List.mem_append.mp hg' with hg' | hg'
          · exact hrow g' hg'
          · rw [List.mem_singleton.mp hg']
            exact hrow g (List.mem_of_getElem? hplace)
  | edit place e =>
      cases hplace : row[place]? with
      | none =>
          exact .inl ⟨row, by simp only [perform, hplace],
            .nowhere ⟨place, hplace, .inr ⟨e, rfl⟩⟩, hrow⟩
      | some g =>
          rcases (hrow g (List.mem_of_getElem? hplace)).apply_cases e with
            ⟨g', hok, hwf, hperformed⟩ | ⟨l, rfl, hends, herror⟩
          · refine .inl ⟨row.set place g', by simp only [perform, hplace, hok, Except.map],
              .edit hplace hperformed, fun g'' hg'' => ?_⟩
            rcases List.mem_or_eq_of_mem_set hg'' with hold | rfl
            · exact hrow g'' hold
            · exact hwf
          · exact .inr ⟨⟨place, l, g, rfl, hplace, hends⟩,
              { source := l.source, target := l.target },
              by simp only [perform, hplace, herror, Except.map]⟩

/-- A circuit of the row is at its place after a call, too, in the same or in a later state. -/
theorem Done.outlives {call : Call} {row row' : List Circuit} (h : Done call row row') {place : Nat}
    {g : Circuit} (hg : row[place]? = some g) : ∃ g', row'[place]? = some g' ∧ Outlives g g' := by
  have hlt : place < row.length := List.getElem?_eq_some_iff.mp hg |>.1
  cases h with
  | nowhere => exact ⟨g, hg, .refl g⟩
  | copy => exact ⟨g, (List.getElem?_append_left hlt).trans hg, .refl g⟩
  | @edit at_ e _ old g' hold hperformed =>
      by_cases hat : at_ = place
      · subst hat
        rw [hg] at hold
        cases hold
        exact ⟨g', List.getElem?_set_self hlt, hperformed.outlives⟩
      · exact ⟨g, (List.getElem?_set_ne hat).trans hg, .refl g⟩

/-- A call gives one name at most. -/
theorem Done.bounds_le {call : Call} {row row' : List Circuit} (h : Done call row row') {b : Nat}
    (hrow : ∀ g ∈ row, g.nodeBound ≤ b ∧ g.linkBound ≤ b) :
    ∀ g ∈ row', g.nodeBound ≤ b + 1 ∧ g.linkBound ≤ b + 1 := by
  have hweaker (g : Circuit) (hg : g ∈ row) : g.nodeBound ≤ b + 1 ∧ g.linkBound ≤ b + 1 :=
    ⟨Nat.le_succ_of_le (hrow g hg).1, Nat.le_succ_of_le (hrow g hg).2⟩
  intro g hg
  cases h with
  | nowhere => exact hweaker g hg
  | copy hplace =>
      rcases List.mem_append.mp hg with hg | hg
      · exact hweaker g hg
      · rw [List.mem_singleton.mp hg]
        exact hweaker _ (List.mem_of_getElem? hplace)
  | @edit _ e _ old g' hplace hperformed =>
      rcases List.mem_or_eq_of_mem_set hg with hold | rfl
      · exact hweaker g hold
      · obtain ⟨hnodes, hlinks⟩ := hrow old (List.mem_of_getElem? hplace)
        have hnew : e.newNodes ≤ 1 ∧ e.newLinks ≤ 1 := by
          cases e <;> simp [Edit.newNodes, Edit.newLinks]
        rw [hperformed.nodeBound_eq, hperformed.linkBound_eq]
        exact ⟨Nat.add_le_add hnodes hnew.1, Nat.add_le_add hlinks hnew.2⟩

end Call

/-- Performs calls one after the other.  The session ends where a link is refused. -/
def session (row : List Circuit) (calls : List Call) : Except LinkError (List Circuit) :=
  calls.foldlM Call.perform row

variable {row row' : List Circuit}

/-- The first call of a session is performed, and the session goes on from there. -/
theorem session_cons {call : Call} {calls : List Call} (hrow : ∀ g ∈ row, g.WellFormed)
    (h : session row (call :: calls) = .ok row') :
    ∃ next, Call.Done call row next ∧ (∀ g ∈ next, g.WellFormed) ∧
      session next calls = .ok row' := by
  rw [session, List.foldlM_cons] at h
  rcases call.perform_cases hrow with ⟨next, hok, hdone, hnext⟩ | ⟨-, e, herror⟩
  · rw [hok] at h
    exact ⟨next, hdone, hnext, h⟩
  · rw [herror] at h
    cases h

theorem wellFormed_session {calls : List Call} (hrow : ∀ g ∈ row, g.WellFormed)
    (h : session row calls = .ok row') : ∀ g ∈ row', g.WellFormed := by
  induction calls generalizing row with
  | nil =>
      cases h
      exact hrow
  | cons call calls ih =>
      obtain ⟨next, -, hnext, hrest⟩ := session_cons hrow h
      exact ih hnext hrest

theorem outlives_session {calls : List Call} (hrow : ∀ g ∈ row, g.WellFormed)
    (h : session row calls = .ok row') {place : Nat} {g : Circuit} (hg : row[place]? = some g) :
    ∃ g', row'[place]? = some g' ∧ Outlives g g' := by
  induction calls generalizing row g with
  | nil =>
      cases h
      exact ⟨g, hg, .refl g⟩
  | cons call calls ih =>
      obtain ⟨next, hdone, hnext, hrest⟩ := session_cons hrow h
      obtain ⟨g', hg', hfirst⟩ := hdone.outlives hg
      obtain ⟨g'', hg'', hlater⟩ := ih hnext hrest hg'
      exact ⟨g'', hg'', hfirst.trans hlater⟩

theorem bounds_session {calls : List Call} {b : Nat} (hrow : ∀ g ∈ row, g.WellFormed)
    (hbounds : ∀ g ∈ row, g.nodeBound ≤ b ∧ g.linkBound ≤ b) (h : session row calls = .ok row') :
    ∀ g ∈ row', g.nodeBound ≤ b + calls.length ∧ g.linkBound ≤ b + calls.length := by
  induction calls generalizing row b with
  | nil =>
      cases h
      exact hbounds
  | cons call calls ih =>
      obtain ⟨next, hdone, hnext, hrest⟩ := session_cons hrow h
      intro g hg
      obtain ⟨hnodes, hlinks⟩ := ih hnext (hdone.bounds_le hbounds) hrest g hg
      rw [List.length_cons]
      omega

/-- Whatever is called on circuits, with whatever names, starting with the empty one: all circuits
are consistent, and no name is above the number of calls.  The next call does what it says to one
circuit and nothing to any other, unless it adds a link without both of its ends, which is refused.
And in all that is called later, no name is given again. -/
theorem sessions_are_consistent (calls : List Call) (row : List Circuit)
    (h : session [empty] calls = .ok row) :
    (∀ g ∈ row, g.Consistent ∧ g.nodeBound ≤ calls.length ∧ g.linkBound ≤ calls.length) ∧
    (∀ call : Call,
      (∃ row', call.perform row = .ok row' ∧ call.Done row row') ∧ ¬call.IsRefused row ∨
        call.IsRefused row ∧ ∃ e, call.perform row = .error e) ∧
    ∀ (later : List Call) (row' : List Circuit), session row later = .ok row' →
      ∀ (place : Nat) (g : Circuit), row[place]? = some g →
        ∃ g', row'[place]? = some g' ∧ Outlives g g' := by
  have hempty : ∀ g ∈ [empty], g.WellFormed := fun g hg => by
    rw [List.mem_singleton.mp hg]
    exact .empty
  have hnone : ∀ g ∈ [empty], g.nodeBound ≤ 0 ∧ g.linkBound ≤ 0 := fun g hg => by
    rw [List.mem_singleton.mp hg]
    exact ⟨Nat.le_refl _, Nat.le_refl _⟩
  have hrow := wellFormed_session hempty h
  refine ⟨fun g hg => ?_, fun call => ?_, fun later row' hlater place g hg =>
    outlives_session hrow hlater hg⟩
  · have hbounds := bounds_session hempty hnone h g hg
    rw [Nat.zero_add] at hbounds
    exact ⟨(hrow g hg).consistent, hbounds⟩
  · rcases call.perform_cases hrow with ⟨row', hok, hdone, -⟩ | hrefused
    · refine .inl ⟨⟨row', hok, hdone⟩, ?_⟩
      rintro ⟨place, l, g, rfl, hplace, hends⟩
      rw [← Bool.and_eq_false_iff] at hends
      simp [Call.perform, hplace, Edit.apply, connect, hends, Except.map] at hok
    · exact .inr hrefused

/-- A source that feeds itself and, twice, a lamp.  It is copied and then removed, and a torch comes
after it; in the copy, the second link to the lamp is moved to start at the lamp. -/
def rearrangement : List Call :=
  [ .edit 0 (.addNode (.constant 15)), .edit 0 (.addNode { gate := .plain .lamp })
  , .edit 0 (.addLink { source := 0, target := 0, channel := .side, loss := 1 })
  , .edit 0 (.addLink { source := 0, target := 1, channel := .main, loss := 0 })
  , .edit 0 (.addLink { source := 0, target := 1, channel := .main, loss := 3 })
  , .copy 0, .edit 0 (.removeNode 0), .edit 0 (.removeLink 7)
  , .edit 0 (.addNode { gate := .plain .torch }), .edit 1 (.setSource 2 1) ]

/-- The removed source takes all three links along, and its name is not given to the torch.  The
copy has kept everything. -/
theorem sessions_are_consistent_rearrangement :
    ∃ row, session [empty] rearrangement = .ok row ∧
      (row.map fun g => (g.nodeIds, g.linkIds)) = [([1, 2], []), ([0, 1], [0, 1, 2])] ∧
      ∀ g ∈ row, g.Consistent := by
  refine ⟨_, rfl, by decide +kernel, fun g hg => ?_⟩
  exact ((sessions_are_consistent rearrangement _ rfl).1 g hg).1

end Redstone.Circuit
