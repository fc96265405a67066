import Redstone.Proofs.Optimize.Steps

/-!
# Merging of duplicates

Two equal gates that hang on one node by equal links have the same power, so they put out the
same in every balanced state.  As long as this stays true, it makes no difference at which of
them a link starts, and in the end one of them feeds nothing.
-/

namespace Redstone.Optimize

open Circuit

variable {g : Circuit}

/-- Equal gates that hang on one node put out the same. -/
theorem strength_eq_of_hangsOn {id id' source : NodeId} {loss : UInt8} {n n' : Node}
    (h : HangsOn g id source loss)
    (h' : HangsOn g id' source loss) (hregular : g.Regular) (hn : g.node? id = some n)
    (hn' : g.node? id' = some n') (hgate : n'.gate = n.gate) {τ : NodeId → UInt8}
    (hτ : g.Balanced τ) : τ id = τ id' := by
  have hwf := hregular.wellFormed
  obtain ⟨i, l, hl, htarget⟩ := h.link
  have hup := hτ.upholds hn
  have hup' := hτ.upholds hn'
  rw [h.powerUnder_eq hwf] at hup
  rw [h'.powerUnder_eq hwf] at hup'
  exact hup.eq_of_gate_eq hup' hgate (hregular.nodes hn).defined
    (hregular.source_free hl (htarget ▸ hn)) rfl

theorem parallelOutput?_eq_some (h : g.WellFormed) {id target : NodeId} {channel : Channel}
    {j : LinkId} {m : Link} (hsome : parallelOutput? g id target channel = some (j, m)) :
    g.link? j = some m ∧ m.source = id ∧ m.target = target ∧ m.channel = channel := by
  unfold parallelOutput? at hsome
  have hmem := List.mem_of_find?_eq_some hsome
  have hfound := List.find?_some hsome
  simp only [Bool.and_eq_true, beq_iff_eq] at hfound
  rw [List.mem_reverse, List.mem_filterMap] at hmem
  obtain ⟨k, hk, hkm⟩ := hmem
  obtain ⟨m', hm', heq⟩ := Option.map_eq_some_iff.mp hkm
  cases heq
  exact ⟨hm', h.source_eq hm' hk, hfound⟩

/-! ## Twins -/

/-- Two different nodes with equal gates that hang on one other node by equal links.  The node
`n` is `twin` and the node `m` is `into`. -/
structure Twins (g : Circuit) (twin into source : NodeId) (loss : UInt8) (n m : Node) : Prop where
  regular : g.Regular
  twin_node : g.node? twin = some n
  into_node : g.node? into = some m
  gate_eq : m.gate = n.gate
  ne : twin ≠ into
  twin_ne_source : twin ≠ source
  into_ne_source : into ≠ source
  twin_hangs : HangsOn g twin source loss
  into_hangs : HangsOn g into source loss

namespace Twins

variable {g' : Circuit} {twin into source : NodeId} {loss : UInt8} {n m : Node} {i : LinkId}
  {l : Link}

theorem strength_eq (h : Twins g twin into source loss n m) {τ : NodeId → UInt8}
    (hτ : g.Balanced τ) : τ into = τ twin :=
  (strength_eq_of_hangsOn h.twin_hangs h.into_hangs h.regular h.twin_node h.into_node h.gate_eq
    hτ).symm

theorem of_links (h : Twins g twin into source loss n m) (hregular : g'.Regular)
    (hnode : ∀ id, g'.node? id = g.node? id)
    (hlinks : ∀ i l, l.target = twin ∨ l.target = into →
      (g'.link? i = some l ↔ g.link? i = some l)) : Twins g' twin into source loss n m where
  regular := hregular
  twin_node := (hnode twin).trans h.twin_node
  into_node := (hnode into).trans h.into_node
  gate_eq := h.gate_eq
  ne := h.ne
  twin_ne_source := h.twin_ne_source
  into_ne_source := h.into_ne_source
  twin_hangs := h.twin_hangs.of_links fun i l htarget => hlinks i l (.inl htarget)
  into_hangs := h.into_hangs.of_links fun i l htarget => hlinks i l (.inr htarget)

/-- A link that starts at one of the twins ends at neither of them. -/
theorem target_ne (h : Twins g twin into source loss n m) (hl : g.link? i = some l)
    (hstart : l.source = twin ∨ l.source = into) : ¬(l.target = twin ∨ l.target = into) := by
  have hsource : l.source ≠ source := by
    rcases hstart with hs | hs
    · exact hs ▸ h.twin_ne_source
    · exact hs ▸ h.into_ne_source
  rintro (htarget | htarget)
  · exact hsource (h.twin_hangs.every hl htarget).1
  · exact hsource (h.into_hangs.every hl htarget).1

theorem removeLink (h : Twins g twin into source loss n m) (hl : g.link? i = some l)
    (hstart : l.source = twin ∨ l.source = into) :
    Twins (g.removeLink i) twin into source loss n m := by
  have hregular : (g.removeLinks [i]).Regular :=
    h.regular.of_links (h.regular.wellFormed.removeLinks [i]) (node?_removeLinks [i])
      (endsWithin_removeLinks [i])
  refine h.of_links hregular (node?_removeLink i) fun k o htarget => ?_
  rw [link?_removeLink]
  split
  case isFalse => exact Iff.rfl
  case isTrue hik =>
    subst hik
    refine ⟨fun hnone => (by cases hnone), fun ho => ?_⟩
    rw [hl] at ho
    cases ho
    exact absurd htarget (h.target_ne hl hstart)

theorem setSource (h : Twins g twin into source loss n m) (hl : g.link? i = some l)
    (hstart : l.source = twin) : Twins (g.setSource i into) twin into source loss n m := by
  have hregular : (g.setSource i into).Regular :=
    h.regular.of_links (h.regular.wellFormed.setSource i into) (node?_setSource i into)
      (endsWithin_setSource i into)
  refine h.of_links hregular (node?_setSource i into) fun k o htarget => ?_
  rw [link?_setSource (contains_of_node? h.into_node)]
  split
  case isFalse => exact Iff.rfl
  case isTrue hik =>
    -- the link that is moved ends elsewhere, before and after
    subst hik
    have hnot := h.target_ne hl (.inl hstart)
    rw [hl]
    constructor
    · intro ho
      cases ho
      exact absurd htarget hnot
    · intro ho
      cases ho
      exact absurd htarget hnot

/-- Of two parallel links from the twins, the one that loses more may go. -/
theorem refines_removeLink (h : Twins g twin into source loss n m) {j : LinkId} {o : Link}
    (hl : g.link? i = some l) (ho : g.link? j = some o) (hne : i ≠ j)
    (htarget : o.target = l.target) (hchannel : o.channel = l.channel) (hloss : o.loss ≤ l.loss)
    (hstart : l.source = twin ∨ l.source = into) (hstart' : o.source = twin ∨ o.source = into) :
    Refines g (g.removeLink i) := by
  refine .removeLink h.regular hl ho hne htarget hchannel fun τ hτ => ?_
  have hsame : τ into = τ twin := by
    rcases hτ with hτ | hτ
    · exact h.strength_eq hτ
    · exact (h.removeLink hl hstart).strength_eq hτ
  have hsource : τ l.source = τ o.source := by
    rcases hstart with hs | hs <;> rcases hstart' with hs' | hs' <;> rw [hs, hs']
    · exact hsame.symm
    · exact hsame
  rw [hsource]
  exact attenuate_mono (UInt8.le_refl _) hloss

/-- It makes no difference at which of the twins a link starts. -/
theorem refines_setSource (h : Twins g twin into source loss n m) (hl : g.link? i = some l)
    (hstart : l.source = twin) : Refines g (g.setSource i into) := by
  refine .setSource h.regular (contains_of_node? h.into_node) fun l' hl' τ hτ => ?_
  rw [hl] at hl'
  cases hl'
  rw [hstart]
  rcases hτ with hτ | hτ
  · exact h.strength_eq hτ
  · exact (h.setSource hl hstart).strength_eq hτ

end Twins

/-! ## Taking over links -/

/-- What taking over a link of a node can come to. -/
theorem takeOver_cases (hwf : g.WellFormed) (into : NodeId) {i : LinkId} {l : Link}
    (hl : g.link? i = some l) :
    parallelOutput? g into l.target l.channel = none ∧ takeOver into g i = g.setSource i into ∨
      ∃ j o, g.link? j = some o ∧ o.source = into ∧ o.target = l.target ∧
        o.channel = l.channel ∧
        (o.loss ≤ l.loss ∧ takeOver into g i = g.removeLink i ∨
          l.loss < o.loss ∧ takeOver into g i = (g.removeLink j).setSource i into) := by
  unfold takeOver
  rw [hl]
  dsimp only
  split
  case h_1 hnone => exact .inl ⟨hnone, rfl⟩
  case h_2 j o hparallel =>
    obtain ⟨ho, hsource, htarget, hchannel⟩ := parallelOutput?_eq_some hwf hparallel
    refine .inr ⟨j, o, ho, hsource, htarget, hchannel, ?_⟩
    split
    case isTrue hle => exact .inl ⟨hle, rfl⟩
    case isFalse hle => exact .inr ⟨UInt8.not_le.mp hle, rfl⟩

/-- What has changed after a link of the twin has been taken over. -/
structure TakenOver (g : Circuit) (i : LinkId) (into : NodeId) (g' : Circuit) : Prop where
  node?_eq : ∀ id, g'.node? id = g.node? id
  new : ∀ {l'}, g'.link? i = some l' → ∃ l, g.link? i = some l ∧ l' = { l with source := into }
  old : ∀ {k l'}, k ≠ i → g'.link? k = some l' → g.link? k = some l'
  kept : ∀ {k l}, k ≠ i → l.source ≠ into → g.link? k = some l → g'.link? k = some l

namespace TakenOver

variable {g' : Circuit} {i : LinkId} {into twin : NodeId} {rest : List LinkId}

/-- The other links of the twin are still there. -/
theorem pending (h : TakenOver g i into g') (hne : twin ≠ into) (hnodup : (i :: rest).Nodup)
    (hpending : ∀ k ∈ i :: rest, ∃ l, g.link? k = some l ∧ l.source = twin) :
    ∀ k ∈ rest, ∃ l, g'.link? k = some l ∧ l.source = twin := by
  intro k hk
  obtain ⟨l, hl, hsource⟩ := hpending k (List.mem_cons_of_mem _ hk)
  have hki : k ≠ i := fun hki => (List.nodup_cons.mp hnodup).1 (hki ▸ hk)
  exact ⟨l, h.kept hki (hsource ▸ hne) hl, hsource⟩

/-- The link that has been taken over is none of the twin any more. -/
theorem complete (h : TakenOver g i into g') (hne : twin ≠ into)
    (hcomplete : ∀ {k l}, g.link? k = some l → l.source = twin → k ∈ i :: rest) {k : LinkId}
    {l : Link} (hl : g'.link? k = some l) (hsource : l.source = twin) : k ∈ rest := by
  by_cases hki : k = i
  · subst hki
    obtain ⟨l', -, rfl⟩ := h.new hl
    exact absurd hsource.symm hne
  · exact (List.mem_cons.mp (hcomplete (h.old hki hl) hsource)).resolve_left hki

/-- A link starts where it started, or it is the one that has been taken over. -/
theorem source (h : TakenOver g i into g') {k : LinkId} {l' : Link} (hl' : g'.link? k = some l') :
    ∃ l, g.link? k = some l ∧ (l'.source = l.source ∨ k = i ∧ l'.source = into) := by
  by_cases hki : k = i
  · subst hki
    obtain ⟨l, hl, rfl⟩ := h.new hl'
    exact ⟨l, hl, .inr ⟨rfl, rfl⟩⟩
  · exact ⟨l', h.old hki hl', .inl rfl⟩

end TakenOver

theorem takenOver_setSource {i : LinkId} {into : NodeId} (hc : g.contains into = true) :
    TakenOver g i into (g.setSource i into) where
  node?_eq := node?_setSource i into
  new := by
    intro l' hl'
    rw [link?_setSource hc, if_pos rfl, Option.map_eq_some_iff] at hl'
    obtain ⟨l, hl, rfl⟩ := hl'
    exact ⟨l, hl, rfl⟩
  old := by
    intro k l' hk hl'
    rw [link?_setSource hc, if_neg hk.symm] at hl'
    exact hl'
  kept := by
    intro k l hk _ hl
    rw [link?_setSource hc, if_neg hk.symm, hl]

theorem takenOver_removeLink {i : LinkId} {into : NodeId} : TakenOver g i into (g.removeLink i) where
  node?_eq := node?_removeLink i
  new := by
    intro l' hl'
    rw [link?_removeLink, if_pos rfl] at hl'
    cases hl'
  old := by
    intro k l' hk hl'
    rw [link?_removeLink, if_neg hk.symm] at hl'
    exact hl'
  kept := by
    intro k l hk _ hl
    rw [link?_removeLink, if_neg hk.symm, hl]

theorem takenOver_removeLink_setSource {i j : LinkId} {into : NodeId} {o : Link}
    (hc : g.contains into = true) (ho : g.link? j = some o) (hsource : o.source = into) :
    TakenOver g i into ((g.removeLink j).setSource i into) := by
  have hstep := takenOver_setSource (g := g.removeLink j) (i := i)
    ((contains_removeLink j into).trans hc)
  have hlink {k : LinkId} {l : Link} (hl : (g.removeLink j).link? k = some l) :
      g.link? k = some l := by
    rw [link?_removeLink] at hl
    split at hl
    · cases hl
    · exact hl
  refine ⟨fun id => (hstep.node?_eq id).trans (node?_removeLink j id), fun hl' => ?_,
    fun hk hl' => hlink (hstep.old hk hl'), fun {k l} hk hl hkl => ?_⟩
  · obtain ⟨l, hl, heq⟩ := hstep.new hl'
    exact ⟨l, hlink hl, heq⟩
  · refine hstep.kept hk hl ?_
    rw [link?_removeLink, if_neg, hkl]
    rintro rfl
    rw [ho] at hkl
    cases hkl
    exact hl hsource

theorem takenOver_takeOver (h : g.WellFormed) {i : LinkId} {into : NodeId} {l : Link}
    (hc : g.contains into = true) (hl : g.link? i = some l) :
    TakenOver g i into (takeOver into g i) := by
  rcases takeOver_cases h into hl with ⟨-, heq⟩ | ⟨j, o, ho, hsource, -, -, ⟨-, heq⟩ | ⟨-, heq⟩⟩
  · rw [heq]
    exact takenOver_setSource hc
  · rw [heq]
    exact takenOver_removeLink
  · rw [heq]
    exact takenOver_removeLink_setSource hc ho hsource

/-- Of the links of `twin`, those in `rest` are still to be handed over to `into`. -/
structure HandsOver (g : Circuit) (twin into : NodeId) (rest : List LinkId) (g' : Circuit) :
    Prop where
  wellFormed : g'.WellFormed
  node?_eq : ∀ id, g'.node? id = g.node? id
  pending : ∀ i ∈ rest, ∃ l, g'.link? i = some l ∧ l.source = twin
  complete : ∀ {i l}, g'.link? i = some l → l.source = twin → i ∈ rest
  sources : ∀ {i l'}, g'.link? i = some l' →
    ∃ l, g.link? i = some l ∧ (l'.source = l.source ∨ l.source = twin ∧ l'.source = into)

namespace HandsOver

variable {g' : Circuit} {twin into : NodeId} {i : LinkId} {rest : List LinkId}

theorem start (h : g.WellFormed) : HandsOver g twin into (g.outputs twin) g where
  wellFormed := h
  node?_eq := fun _ => rfl
  pending := fun _ hi => h.mem_outputs_iff.mp hi
  complete := fun hl hsource => h.mem_outputs_iff.mpr ⟨_, hl, hsource⟩
  sources := fun hl => ⟨_, hl, .inl rfl⟩

theorem contains_eq (h : HandsOver g twin into rest g') (id : NodeId) :
    g'.contains id = g.contains id := by
  rw [Bool.eq_iff_iff, contains_iff, contains_iff, h.node?_eq]

theorem takeOver (h : HandsOver g twin into (i :: rest) g') (hc : g.contains into = true)
    (hne : twin ≠ into) (hnodup : (i :: rest).Nodup) :
    HandsOver g twin into rest (takeOver into g' i) := by
  obtain ⟨l, hl, hstart⟩ := h.pending i List.mem_cons_self
  have htaken := takenOver_takeOver h.wellFormed ((h.contains_eq into).trans hc) hl
  refine ⟨wellFormed_takeOver h.wellFormed into i,
    fun id => (htaken.node?_eq id).trans (h.node?_eq id),
    htaken.pending hne hnodup h.pending, htaken.complete hne h.complete, fun {k o} ho => ?_⟩
  obtain ⟨l', hl', hsource⟩ := htaken.source ho
  obtain ⟨first, hfirst, hor⟩ := h.sources hl'
  refine ⟨first, hfirst, ?_⟩
  rcases hsource with hsource | ⟨rfl, hinto⟩
  · rw [hsource]
    exact hor
  · cases hl.symm.trans hl'
    exact .inr ⟨hor.elim (fun heq => heq.symm.trans hstart) And.left, hinto⟩

theorem foldl_takeOver (h : HandsOver g twin into rest g') (hc : g.contains into = true)
    (hne : twin ≠ into) (hnodup : rest.Nodup) :
    HandsOver g twin into [] (rest.foldl (Optimize.takeOver into) g') := by
  induction rest generalizing g' with
  | nil => exact h
  | cons i rest ih => exact ih (h.takeOver hc hne hnodup) (List.nodup_cons.mp hnodup).2

/-- In the end the twin feeds nothing any more. -/
theorem source_ne (h : HandsOver g twin into [] g') {l : Link} (hl : g'.link? i = some l) :
    l.source ≠ twin :=
  fun hsource => List.not_mem_nil (h.complete hl hsource)

end HandsOver

/-- A link starts where it started, or it has been handed over. -/
theorem link?_merge (h : g.WellFormed) {twin into : NodeId} {n m : Node}
    (hn : g.node? twin = some n) (hm : g.node? into = some m) (hne : twin ≠ into) {i : LinkId}
    {l' : Link} (hl' : (merge g twin into).link? i = some l') :
    ∃ l, g.link? i = some l ∧ (l'.source = l.source ∨ l.source = twin ∧ l'.source = into) := by
  have hhands := (HandsOver.start h).foldl_takeOver (contains_of_node? hm) hne (h.outputs_nodup twin)
  rw [merge_eq hn, (hhands.wellFormed.modifyNode into _).link?_removeNode_eq_some_iff] at hl'
  exact hhands.sources hl'.1

/-- Taking over one link refines the circuit and leaves the twins as they are. -/
theorem Twins.takeOver {twin into source : NodeId} {loss : UInt8} {n m : Node} {i : LinkId}
    {l : Link} (h : Twins g twin into source loss n m) (hl : g.link? i = some l)
    (hstart : l.source = twin) :
    Refines g (takeOver into g i) ∧ Twins (takeOver into g i) twin into source loss n m := by
  have hother {j : LinkId} {o : Link} (ho : g.link? j = some o) (hsource : o.source = into) :
      i ≠ j := by
    rintro rfl
    cases hl.symm.trans ho
    exact h.ne (hstart.symm.trans hsource)
  rcases takeOver_cases h.regular.wellFormed into hl with
    ⟨-, hstep⟩ | ⟨j, o, ho, hsource, htarget, hchannel, ⟨hle, hstep⟩ | ⟨hlt, hstep⟩⟩
  · rw [hstep]
    exact ⟨h.refines_setSource hl hstart, h.setSource hl hstart⟩
  · rw [hstep]
    exact ⟨h.refines_removeLink hl ho (hother ho hsource) htarget hchannel hle (.inl hstart)
      (.inr hsource), h.removeLink hl (.inl hstart)⟩
  · have hij := hother ho hsource
    have hremoved := h.removeLink ho (.inr hsource)
    have hl' : (g.removeLink j).link? i = some l := by
      rw [link?_removeLink, if_neg hij.symm, hl]
    rw [hstep]
    refine ⟨?_, hremoved.setSource hl' hstart⟩
    exact (h.refines_removeLink ho hl hij.symm htarget.symm hchannel.symm (UInt8.le_of_lt hlt)
      (.inr hsource) (.inl hstart)).trans (hremoved.refines_setSource hl' hstart)

/-- While links are handed over, the circuit is refined and the twins stay what they are. -/
structure Merging (g : Circuit) (twin into source : NodeId) (loss : UInt8) (n m : Node)
    (rest : List LinkId) (g' : Circuit) : Prop extends HandsOver g twin into rest g' where
  refines : Refines g g'
  twins : Twins g' twin into source loss n m

namespace Merging

variable {g' : Circuit} {twin into source : NodeId} {loss : UInt8} {n m : Node} {i : LinkId}
  {rest : List LinkId}

theorem takeOver (h : Merging g twin into source loss n m (i :: rest) g')
    (hnodup : (i :: rest).Nodup) :
    Merging g twin into source loss n m rest (takeOver into g' i) := by
  obtain ⟨l, hl, hstart⟩ := h.pending i List.mem_cons_self
  obtain ⟨hrefines, htwins⟩ := h.twins.takeOver hl hstart
  have hc := (h.contains_eq into).symm.trans (contains_of_node? h.twins.into_node)
  exact ⟨h.toHandsOver.takeOver hc h.twins.ne hnodup, h.refines.trans hrefines, htwins⟩

theorem foldl_takeOver (h : Merging g twin into source loss n m rest g') (hnodup : rest.Nodup) :
    Merging g twin into source loss n m [] (rest.foldl (Optimize.takeOver into) g') := by
  induction rest generalizing g' with
  | nil => exact h
  | cons i rest ih => exact ih (h.takeOver hnodup) (List.nodup_cons.mp hnodup).2

end Merging

/-! ## Merging -/

section Merge

variable {twin into source : NodeId} {loss : UInt8} {n m : Node}

theorem Twins.merging (h : Twins g twin into source loss n m) :
    Merging g twin into source loss n m (g.outputs twin) g :=
  ⟨.start h.regular.wellFormed, .refl h.regular, h⟩

/-- A node that feeds nothing any more is removed, and another one gets its blocks. -/
theorem refines_absorb (h : g.Regular) (hn : g.node? twin = some n) (hm : g.node? into = some m)
    (hne : twin ≠ into) (hrole : n.isRemovable = true) (hrole' : m.isRemovable = true)
    (hsink : ∀ i l, g.link? i = some l → l.source ≠ twin) :
    Refines g ((g.modifyNode into fun m => { m with blocks := m.blocks ++ n.blocks }).removeNode
      twin) := by
  have hchanged : Simulates g
      (g.modifyNode into fun m => { m with blocks := m.blocks ++ n.blocks }) := by
    have hreg := h.nodes hm
    refine .modifyNode h hm ⟨hreg.defined, hreg.farInput_le, hreg.constant_le, hreg.locked_le,
      hreg.output_indicator⟩ rfl (fun _ => rfl) fun p s => ?_
    constructor
    · intro hup
      exact ⟨hup.settles, hup.folds, hup.constant⟩
    · intro hup
      exact ⟨hup.settles, hup.folds, hup.constant⟩
  have hn' : (g.modifyNode into fun m => { m with blocks := m.blocks ++ n.blocks }).node? twin =
      some n := by
    rw [node?_modifyNode, if_neg hne.symm, hn]
  have hremoved := Refines.removeNode hchanged.regular hn' hrole hsink
  refine ⟨hchanged.trans (fun id hc _ => ?_) hremoved.toSimulates, .absorb hn hm hne hrole hrole'⟩
  rw [contains_modifyNode]
  exact hc

theorem Twins.refines_merge (h : Twins g twin into source loss n m) (hrole : n.isRemovable = true)
    (hrole' : m.isRemovable = true) : Refines g (merge g twin into) := by
  have hmerging := h.merging.foldl_takeOver (h.regular.wellFormed.outputs_nodup twin)
  have htwins := hmerging.twins
  rw [merge_eq h.twin_node]
  exact hmerging.refines.trans (refines_absorb htwins.regular htwins.twin_node htwins.into_node
    htwins.ne hrole hrole' fun i l hl => hmerging.source_ne hl)

/-- What is true of the surviving node and its source before a merge is true after it. -/
theorem Twins.hangsOn_merge (h : Twins g twin into source loss n m) :
    HangsOn (merge g twin into) into source loss := by
  have hmerging := h.merging.foldl_takeOver (h.regular.wellFormed.outputs_nodup twin)
  have htwins := hmerging.twins
  rw [merge_eq h.twin_node]
  have hwf := htwins.regular.wellFormed.modifyNode into
    fun m => { m with blocks := m.blocks ++ n.blocks }
  refine htwins.into_hangs.of_links fun i l htarget => ?_
  rw [hwf.link?_removeNode_eq_some_iff, link?_modifyNode]
  constructor
  · rintro ⟨hl, -, -⟩
    exact hl
  · intro hl
    refine ⟨hl, ?_, htarget ▸ h.ne.symm⟩
    rw [(htwins.into_hangs.every hl htarget).1]
    exact h.twin_ne_source.symm

end Merge

/-- A node that twins can be merged into: the links `items` are those of its source. -/
structure Host (g : Circuit) (into source : NodeId) (loss : UInt8) (items : List LinkId)
    (g' : Circuit) : Prop where
  refines : Refines g g'
  node : ∃ m, g'.node? into = some m ∧ m.isRemovable = true
  ne_source : into ≠ source
  hangs : HangsOn g' into source loss
  sources : ∀ i ∈ items, ∀ {l}, g'.link? i = some l → l.source = source

theorem twin?_eq_some (hwf : g.WellFormed) {source into twin : NodeId} {l : Link} {i : LinkId}
    (h : twin? g source into l i = some twin) :
    ∃ o n m, g.link? i = some o ∧ o.target = twin ∧ g.node? twin = some n ∧
      g.node? into = some m ∧ twin ≠ into ∧ twin ≠ source ∧ o.channel = l.channel ∧
      o.loss = l.loss ∧ n.gate = m.gate ∧ n.isRemovable = true ∧
      ∀ {j p}, g.link? j = some p → p.target = twin → p = o := by
  obtain ⟨o, n, m, ho, rfl, hn, hm, hinto, hsource, hchannel, hloss, hgate, hrole, hone⟩ :=
    twin?_eq_some_iff.mp h
  refine ⟨o, n, m, ho, rfl, hn, hm, hinto, hsource, hchannel, hloss, hgate, hrole, ?_⟩
  intro j p hp htarget
  cases hwf.eq_of_inputs_length_one ho hp htarget hone
  cases ho.symm.trans hp
  rfl

theorem Host.twins {g' : Circuit} {into source : NodeId} {l : Link} {items : List LinkId}
    {i : LinkId} {twin : NodeId} (h : Host g into source l.loss items g') (hi : i ∈ items)
    (hchannel : l.channel = .main) (htwin : twin? g' source into l i = some twin) :
    ∃ n m, Twins g' twin into source l.loss n m ∧ n.isRemovable = true ∧ m.isRemovable = true := by
  obtain ⟨m', hm', hrole'⟩ := h.node
  obtain ⟨o, n, m, ho, htarget, hn, hm, hinto, hsource, hch, hloss, hgate, hrole, hunique⟩ :=
    twin?_eq_some h.refines.regular.wellFormed htwin
  rw [hm'] at hm
  cases hm
  refine ⟨n, m', ⟨h.refines.regular, hn, hm', hgate.symm, hinto, hsource, h.ne_source,
    ⟨⟨i, o, ho, htarget⟩, fun hl hend => ?_⟩, h.hangs⟩, hrole, hrole'⟩
  rw [hunique hl hend]
  exact ⟨h.sources i hi ho, hch.trans hchannel, hloss⟩

theorem Host.mergeTwin {g' : Circuit} {into source : NodeId} {l : Link} {items : List LinkId}
    {i : LinkId} (h : Host g into source l.loss items g') (hi : i ∈ items)
    (hchannel : l.channel = .main) :
    Host g into source l.loss items (mergeTwin source into l i g').circuit := by
  rcases mergeTwin_cases source into l i g' with ⟨heq, -⟩ | ⟨twin, htwin, heq⟩
  · rw [heq]
    exact h
  obtain ⟨n, m, htwins, hrole, hrole'⟩ := h.twins hi hchannel htwin
  have hnode : (merge g' twin into).node? into = some { m with blocks := m.blocks ++ n.blocks } :=
    (node?_merge htwins.twin_node htwins.into_node into).trans
      ((if_neg htwins.ne).trans (if_pos rfl))
  rw [heq]
  refine ⟨h.refines.trans (htwins.refines_merge hrole hrole'), ⟨_, hnode, hrole'⟩, h.ne_source,
    htwins.hangsOn_merge, fun k hk {o} ho => ?_⟩
  obtain ⟨o', ho', hor⟩ :=
    link?_merge htwins.regular.wellFormed htwins.twin_node htwins.into_node htwins.ne ho
  have hsource := h.sources k hk ho'
  rcases hor with heq | ⟨htwin, -⟩
  · exact heq.trans hsource
  · exact absurd (htwin.symm.trans hsource) htwins.twin_ne_source

theorem host_of_soleLink? (h : g.Regular) {id : NodeId} {l : Link}
    (hsole : soleLink? g id = some l) :
    Host g id l.source l.loss (g.outputs l.source) g ∧ l.channel = .main := by
  have hwf := h.wellFormed
  obtain ⟨n, i, -, hn, hi, hl, -, -, hrole, hchannel, hne, -⟩ := soleLink?_eq_some_iff.mp hsole
  have htarget : l.target = id := hwf.target_eq hl (hi ▸ List.mem_singleton_self i)
  refine ⟨⟨.refl h, ⟨n, hn, hrole⟩, hne.symm, ⟨⟨i, l, hl, htarget⟩, fun {j o} ho hend => ?_⟩,
    fun j hj {o} ho => ?_⟩, hchannel⟩
  · have hone : (g.inputs l.target).length = 1 := by
      rw [htarget, hi]
      rfl
    cases hwf.eq_of_inputs_length_one hl ho (hend.trans htarget.symm) hone
    cases hl.symm.trans ho
    exact ⟨rfl, hchannel, rfl⟩
  · exact hwf.source_eq ho hj

theorem refines_mergeTwins (h : g.Regular) (id : NodeId) :
    Refines g (mergeTwins id g).circuit := by
  rcases mergeTwins_cases id g with ⟨heq, -⟩ | ⟨l, hsole, heq⟩
  · rw [heq]
    exact .refl h
  obtain ⟨hhost, hchannel⟩ := host_of_soleLink? h hsole
  rw [heq]
  exact (Revision.sweep_keeps (P := Host g id l.source l.loss (g.outputs l.source))
    (fun i hi g' hg' => hg'.mergeTwin hi hchannel) hhost).refines

theorem refines_mergeDuplicates (h : g.Regular) : Refines g (mergeDuplicates g).circuit :=
  .untilStable (fun _ hg => .sweep (fun id _ hg' => refines_mergeTwins hg' id) hg) _ h

end Redstone.Optimize
