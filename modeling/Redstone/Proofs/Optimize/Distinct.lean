import Redstone.Proofs.Optimize.Range

/-!
# Parallel links do not come back

Once superfluous links have been removed, no two links are parallel.  The later passes keep it that
way, with one exception: constants that are shared take over links without a look at those that they
have already.  So parallel links may start at constants without a role for the outside world, and at
no other nodes.
-/

namespace Redstone.Optimize

open Circuit

/-- No two links are parallel.  If `lenient`, this is not asked of links that start at constants
which can be shared. -/
structure Distinct (lenient : Bool) (g : Circuit) : Prop where
  wellFormed : g.WellFormed
  eq_of_areParallel : ∀ {i j l m}, g.link? i = some l → g.link? j = some m →
    areParallel l m = true →
      i = j ∨ lenient = true ∧ ∃ n, g.node? l.source = some n ∧ isSharable n = true

variable {g g' : Circuit} {lenient : Bool}

namespace Distinct

/-! ## Edits -/

/-- Links may go, as long as constants that can be shared stay such. -/
theorem of_links (h : Distinct lenient g) (hwf : g'.WellFormed)
    (hlink : ∀ {i l}, g'.link? i = some l → g.link? i = some l)
    (hnode : ∀ {j n n'}, g.node? j = some n → g'.node? j = some n' → isSharable n = true →
      isSharable n' = true) : Distinct lenient g' where
  wellFormed := hwf
  eq_of_areParallel := by
    intro i j l m hl hm hpar
    rcases h.eq_of_areParallel (hlink hl) (hlink hm) hpar with hij | ⟨hlenient, n, hn, hshared⟩
    · exact .inl hij
    · obtain ⟨n', hn'⟩ := contains_iff.mp (hwf.contains_source hl)
      exact .inr ⟨hlenient, n', hn', hnode hn hn' hshared⟩

theorem removeLinks (h : Distinct lenient g) (ids : List LinkId) :
    Distinct lenient (g.removeLinks ids) := by
  refine h.of_links (h.wellFormed.removeLinks ids) (fun {i l} hl => ?_) fun hn hn' hshared => ?_
  · rw [link?_removeLinks] at hl
    split at hl
    · cases hl
    · exact hl
  · rw [node?_removeLinks, hn] at hn'
    exact Option.some.inj hn' ▸ hshared

theorem removeLink (h : Distinct lenient g) (i : LinkId) : Distinct lenient (g.removeLink i) :=
  h.removeLinks [i]

theorem removeNode (h : Distinct lenient g) (id : NodeId) : Distinct lenient (g.removeNode id) := by
  refine h.of_links (h.wellFormed.removeNode id)
    (fun hl => (h.wellFormed.link?_removeNode_eq_some_iff.mp hl).1) fun hn hn' hshared => ?_
  cases hn.symm.trans (node?_removeNode_eq_some_iff.mp hn').2
  exact hshared

theorem modifyNode (h : Distinct lenient g) (id : NodeId) {f : Node → Node}
    (hf : ∀ n, isSharable n = true → isSharable (f n) = true) :
    Distinct lenient (g.modifyNode id f) := by
  refine h.of_links (h.wellFormed.modifyNode id f) (fun hl => hl) fun {j n n'} hn hn' hshared => ?_
  rw [node?_modifyNode, hn] at hn'
  split at hn'
  · exact Option.some.inj hn' ▸ hf n hshared
  · exact Option.some.inj hn' ▸ hshared

theorem addNode (h : Distinct lenient g) (n : Node) : Distinct lenient (g.addNode n) := by
  refine h.of_links (h.wellFormed.addNode n) (fun hl => hl) fun {j m m'} hm hm' hshared => ?_
  cases (node?_addNode_of_node? hm n).symm.trans hm'
  exact hshared

/-- A link is added that is parallel to none. -/
theorem addLink (h : Distinct lenient g) {l : Link}
    (hfresh : ∀ {i m}, g.link? i = some m → areParallel m l = false) :
    Distinct lenient (g.addLink l) := by
  by_cases hends : g.contains l.source = true ∧ g.contains l.target = true
  case neg =>
    rw [addLink_of_not_contains hends]
    exact h
  case pos =>
    refine ⟨h.wellFormed.addLink l, fun {i j a b} ha hb hpar => ?_⟩
    rw [link?_addLink hends.1 hends.2] at ha hb
    rw [node?_addLink]
    split at ha <;> split at hb
    case isTrue.isTrue hi hj => exact .inl (hi.trans hj.symm)
    case isTrue.isFalse =>
      cases ha
      rw [areParallel_comm, hfresh hb] at hpar
      cases hpar
    case isFalse.isTrue =>
      cases hb
      rw [hfresh ha] at hpar
      cases hpar
    case isFalse.isFalse => exact h.eq_of_areParallel ha hb hpar

/-- A link comes to start at a node that has no link parallel to the moved one, or only ones that
are tolerated. -/
theorem setSource (h : Distinct lenient g) {i : LinkId} {l : Link} (hl : g.link? i = some l)
    {source : NodeId}
    (hfree : ∀ {j m}, i ≠ j → g.link? j = some m → areParallel { l with source } m = true →
      lenient = true ∧ ∃ n, g.node? source = some n ∧ isSharable n = true) :
    Distinct lenient (g.setSource i source) := by
  by_cases hs : g.contains source = true
  case neg =>
    rw [setSource_of_stay fun l _ hc => absurd hc hs]
    exact h
  case pos =>
    refine ⟨h.wellFormed.setSource i source, fun {j k a b} ha hb hpar => ?_⟩
    rw [link?_setSource hs] at ha hb
    rw [node?_setSource]
    split at ha <;> split at hb
    case isTrue.isTrue hij hik => exact .inl (hij.symm.trans hik)
    case isTrue.isFalse hij hik =>
      subst hij
      rw [hl] at ha
      cases ha
      exact .inr (hfree hik hb hpar)
    case isFalse.isTrue hij hik =>
      subst hik
      rw [hl] at hb
      cases hb
      rw [areParallel_comm] at hpar
      have hsource : source = a.source := (areParallel_iff.mp hpar).1
      rw [← hsource]
      exact .inr (hfree hij ha hpar)
    case isFalse.isFalse => exact h.eq_of_areParallel ha hb hpar

end Distinct

/-! ## Removing superfluous links -/

/-- Of two parallel links, one makes the other superfluous. -/
theorem outdoes_total {i j : LinkId} {l m : Link} (hpar : areParallel l m = true) (hij : i ≠ j) :
    outdoes j m i l = true ∨ outdoes i l j m = true := by
  rw [outdoes_iff, outdoes_iff, areParallel_comm m l]
  grind

theorem distinct_dedupLinks (h : g.WellFormed) : Distinct false (dedupLinks g).circuit where
  wellFormed := h.removeLinks _
  eq_of_areParallel := by
    intro i j l m hl hm hpar
    have hlink (k : LinkId) : (dedupLinks g).circuit.link? k =
        if k ∈ redundantLinks g then none else g.link? k := link?_removeLinks _ k
    rw [hlink] at hl hm
    split at hl
    case isTrue => cases hl
    case isFalse hi =>
      split at hm
      case isTrue => cases hm
      case isFalse hj =>
        by_contra hne
        rw [not_or] at hne
        rw [mem_redundantLinks h, isRedundant_iff h] at hi hj
        rcases outdoes_total hpar hne.1 with hout | hout
        · exact hi ⟨l, j, m, hl, hm, hout⟩
        · exact hj ⟨m, i, l, hm, hl, hout⟩

/-- A superfluous link is outdone by a parallel one. -/
theorem Distinct.not_isRedundant (h : Distinct lenient g) {i : LinkId} {l : Link}
    (hl : g.link? i = some l) (hred : isRedundant g i = true) :
    lenient = true ∧ ∃ n, g.node? l.source = some n ∧ isSharable n = true := by
  obtain ⟨l', j, m, hl', hm, hout⟩ := (isRedundant_iff h.wellFormed).mp hred
  rw [hl] at hl'
  cases hl'
  obtain ⟨hpar, hless⟩ := outdoes_iff.mp hout
  rcases h.eq_of_areParallel hl hm hpar with rfl | hshared
  · rw [hl] at hm
    cases hm
    rcases hless with hlt | ⟨-, hlt⟩
    · exact absurd hlt (UInt8.lt_irrefl _)
    · exact absurd hlt (Nat.lt_irrefl _)
  · exact hshared

/-- There is nothing to remove if no two links are parallel. -/
theorem Distinct.changes_dedupLinks (h : Distinct false g) : (dedupLinks g).changes = 0 := by
  refine List.length_eq_zero_iff.mpr (List.eq_nil_iff_forall_not_mem.mpr fun i hi => ?_)
  rw [mem_redundantLinks h.wellFormed] at hi
  obtain ⟨l, -, -, hl, -⟩ := (isRedundant_iff h.wellFormed).mp hi
  exact Bool.false_ne_true (h.not_isRedundant hl hi).1

/-! ## Passes that keep links distinct -/

namespace Distinct

variable {id : NodeId}

theorem withoutLines (h : Distinct lenient g) (lines : List BusLine) :
    Distinct lenient (withoutLines g lines) :=
  withoutLines_keeps (fun hg _ _ => hg.removeNode _) h

/-- The comparator that replaces a bus is new, so that its two links are parallel to none. -/
theorem replaceBus (h : Distinct lenient g) {source : NodeId} {lines : List BusLine}
    {first : BusLine} (hbus : Bus g source lines first) :
    Distinct lenient (replaceBus g source lines first) := by
  have hbare := (h.withoutLines lines).addNode (busNode (g.strength source))
  have hold {i : LinkId} {m : Link}
      (hm : ((Optimize.withoutLines g lines).addNode (busNode (g.strength source))).link? i =
        some m) :
      m.source ≠ g.nodeBound ∧ m.target ≠ g.nodeBound := by
    have hm' : g.link? i = some m := ((link?_withoutLines_eq_some_iff h.wellFormed lines).mp hm).1
    exact ⟨Nat.ne_of_lt (lt_nodeBound_of_contains (h.wellFormed.contains_source hm')),
      Nat.ne_of_lt (lt_nodeBound_of_contains (h.wellFormed.contains_target hm'))⟩
  rw [replaceBus_eq]
  refine (hbare.addLink fun hm => ?_).addLink fun {i m} hm => ?_
  · rw [Bool.eq_false_iff, ne_eq, areParallel_iff]
    exact fun hpar => (hold hm).2 hpar.2.1
  · rw [Bool.eq_false_iff, ne_eq, areParallel_iff]
    rintro ⟨hsource, -, -⟩
    rcases eq_or_link?_of_addLink hm with rfl | hm
    · exact hbus.source_ne hsource
    · exact (hold hm).1 hsource

theorem collapseBuses (h : Distinct lenient g) : Distinct lenient (collapseBuses g).circuit :=
  collapseBuses_keeps (P := Distinct lenient) (fun hg hcomparator hlines =>
    hg.replaceBus (bus_of_busLines? hg.wellFormed hcomparator hlines)) h

theorem foldConstants (h : Distinct lenient g) : Distinct lenient (foldConstants g).circuit := by
  refine foldConstants_keeps (P := Distinct lenient) (fun {g id n s} hg _ _ _ => ?_) h
  refine (hg.modifyNode id fun n hshared => ?_).removeLinks _
  exact (Bool.and_eq_true _ _ ▸ hshared : _ ∧ _).2

/-- The constant that feeds a settled output is new. -/
theorem feedConstant (h : Distinct lenient g) (id : NodeId) (strength : UInt8) :
    Distinct lenient (feedConstant g id strength) := by
  refine (h.addNode (.constant strength)).addLink fun {i m} hm => ?_
  rw [Bool.eq_false_iff, ne_eq, areParallel_iff]
  exact fun hpar =>
    Nat.ne_of_lt (lt_nodeBound_of_contains (h.wellFormed.contains_source hm)) hpar.1

theorem removeUnreachable (h : Distinct lenient g) :
    Distinct lenient (Pass.removeUnreachable g).1 :=
  Pass.removeUnreachable_keeps (P := Distinct lenient) (fun hg => hg.removeLinks _)
    (fun hg => hg.modifyNode _ fun _ hshared => hshared) (fun hg => hg.feedConstant _ _) h

theorem pruneOrphans (h : Distinct lenient g) : Distinct lenient (pruneOrphans g).circuit :=
  pruneOrphans_keeps (P := Distinct lenient) (fun hg _ _ _ => hg.removeNode _) h

end Distinct

/-! ## Merging duplicates -/

theorem parallelOutput?_eq_none (h : g.WellFormed) {id target : NodeId} {channel : Channel}
    (hnone : parallelOutput? g id target channel = none) {j : LinkId} {m : Link}
    (hm : g.link? j = some m) (hsource : m.source = id) :
    ¬(m.target = target ∧ m.channel = channel) := by
  unfold parallelOutput? at hnone
  rw [List.find?_eq_none] at hnone
  have hmem : (j, m) ∈ ((g.outputs id).filterMap fun i => (g.link? i).map (i, ·)).reverse := by
    rw [List.mem_reverse, List.mem_filterMap]
    exact ⟨j, h.mem_outputs_iff.mpr ⟨m, hm, hsource⟩, by rw [hm]; rfl⟩
  simpa using hnone (j, m) hmem

namespace Distinct

/-- Of a link that is taken over and a parallel one, only one is kept. -/
theorem takeOver (h : Distinct lenient g) (into : NodeId) (i : LinkId) :
    Distinct lenient (takeOver into g i) := by
  cases hl : g.link? i with
  | none =>
      rw [Optimize.takeOver, hl]
      exact h
  | some l =>
      rcases takeOver_cases h.wellFormed into hl with
        ⟨hnone, heq⟩ | ⟨j, o, ho, hsource, htarget, hchannel, ⟨-, heq⟩ | ⟨hlt, heq⟩⟩
      · rw [heq]
        refine h.setSource hl fun {j m} _ hm hpar => ?_
        obtain ⟨hsource, htarget, hchannel⟩ := areParallel_iff.mp hpar
        exact absurd ⟨htarget.symm, hchannel.symm⟩
          (parallelOutput?_eq_none h.wellFormed hnone hm hsource.symm)
      · rw [heq]
        exact h.removeLink i
      · have hij : j ≠ i := by
          rintro rfl
          cases hl.symm.trans ho
          exact UInt8.lt_irrefl _ hlt
        have hl' : (g.removeLink j).link? i = some l := by rw [link?_removeLink, if_neg hij, hl]
        rw [heq]
        refine (h.removeLink j).setSource hl' fun {k m} _ hm hpar => ?_
        rw [link?_removeLink] at hm
        split at hm
        case isTrue => cases hm
        case isFalse hjk =>
          -- another link from there would be parallel to the removed one
          obtain ⟨hsource', htarget', hchannel'⟩ := areParallel_iff.mp hpar
          have hpar' : areParallel o m = true :=
            areParallel_iff.mpr ⟨hsource.trans hsource', htarget.trans htarget',
              hchannel.trans hchannel'⟩
          rw [node?_removeLink, ← hsource]
          exact (h.eq_of_areParallel ho hm hpar').resolve_left hjk

theorem merge (h : Distinct lenient g) (twin into : NodeId) :
    Distinct lenient (merge g twin into) := by
  have hfold (ids : List LinkId) {g : Circuit} (h : Distinct lenient g) :
      Distinct lenient (ids.foldl (Optimize.takeOver into) g) := by
    induction ids generalizing g with
    | nil => exact h
    | cons i rest ih => exact ih (h.takeOver into i)
  unfold Optimize.merge
  refine ((hfold (g.outputs twin) h).modifyNode into ?_).removeNode twin
  exact fun _ hshared => hshared

theorem mergeDuplicates (h : Distinct lenient g) : Distinct lenient (mergeDuplicates g).circuit :=
  mergeDuplicates_keeps (P := Distinct lenient) (fun hg _ => hg.merge _ _) h

end Distinct

/-! ## Sharing constants -/

/-- No input of a node is fed by two different constants of one strength that can be shared. -/
def ConstantsDiffer (g : Circuit) : Prop :=
  ∀ {i j l m n o}, g.link? i = some l → g.link? j = some m → l.target = m.target →
    l.channel = m.channel → g.node? l.source = some n → g.node? m.source = some o →
    isSharable n = true → isSharable o = true → n.state.strength = o.state.strength →
    l.source = m.source

/-- The link `l'` started at the same node as link `l`, or at a constant that is served by the
present one. -/
def Sharing.Continues (g : Circuit) (part : NodeId → Nat) (s : Sharing) (l l' : Link) : Prop :=
  l'.target = l.target ∧ l'.channel = l.channel ∧
    (l'.source = l.source ∨ ∃ n, g.node? l.source = some n ∧ isSharable n = true ∧
      ((part l.target, n.state.strength), l'.source) ∈ s.servers)

/-- The sharing so far: old nodes are as they were if they are still there, so are servers, and
every link continues an old one. -/
structure Sharing.Traced (g : Circuit) (part : NodeId → Nat) (s : Sharing) : Prop where
  wellFormed : s.circuit.WellFormed
  nodeBound_le : g.nodeBound ≤ s.circuit.nodeBound
  node : ∀ {id n}, id < g.nodeBound → s.circuit.node? id = some n → g.node? id = some n
  server_lt : ∀ {d server}, (d, server) ∈ s.servers → server < s.circuit.nodeBound
  served : ∀ {d server m}, (d, server) ∈ s.servers → s.circuit.node? server = some m →
    isSharable m = true ∧ m.state.strength = d.2
  link : ∀ {i l'}, s.circuit.link? i = some l' →
    ∃ l, g.link? i = some l ∧ s.Continues g part l l'

/-- The sharing of constant `id`, which is the node `n`, before its links `rest` are looked at. -/
structure Share.Traced (g : Circuit) (part : NodeId → Nat) (id : NodeId) (n : Node)
    (rest : List LinkId) (s : Share) : Prop extends Sharing.Traced g part s.toSharing where
  self : s.circuit.node? id = some n
  pending : ∀ i ∈ rest, ∀ {l}, s.circuit.link? i = some l → l.source = id

variable {part : NodeId → Nat}

theorem Sharing.Continues.mono {s s' : Sharing} {l l' : Link} (h : s.Continues g part l l')
    (hservers : ∀ {x}, x ∈ s.servers → x ∈ s'.servers) : s'.Continues g part l l' := by
  obtain ⟨htarget, hchannel, hsource | ⟨n, hn, hshared, hserver⟩⟩ := h
  · exact ⟨htarget, hchannel, .inl hsource⟩
  · exact ⟨htarget, hchannel, .inr ⟨n, hn, hshared, hservers hserver⟩⟩

namespace Share.Traced

variable {id : NodeId} {n : Node} {i : LinkId} {rest : List LinkId} {s : Share}

theorem skip (h : Share.Traced g part id n (i :: rest) s) : Share.Traced g part id n rest s where
  toTraced := h.toTraced
  self := h.self
  pending := fun j hj => h.pending j (List.mem_cons_of_mem _ hj)

/-- The constant comes to serve a demand for its strength. -/
theorem serve (h : Share.Traced g part id n rest s) (hshared : isSharable n = true) {d : Demand}
    (hd : d.2 = n.state.strength) :
    Share.Traced g part id n rest { s with servers := (d, id) :: s.servers, serves := true } where
  wellFormed := h.wellFormed
  nodeBound_le := h.nodeBound_le
  node := h.node
  server_lt := by
    intro d' server hmem
    rcases List.mem_cons.mp hmem with heq | hmem
    · cases heq
      exact lt_nodeBound_of_node? h.self
    · exact h.server_lt hmem
  served := by
    intro d' server m hmem hm
    rcases List.mem_cons.mp hmem with heq | hmem
    · cases heq
      cases h.self.symm.trans hm
      exact ⟨hshared, hd.symm⟩
    · exact h.served hmem hm
  link := by
    intro j l' hl'
    obtain ⟨l, hl, hcontinues⟩ := h.link hl'
    exact ⟨l, hl, hcontinues.mono (List.mem_cons_of_mem _)⟩
  self := h.self
  pending := h.pending

/-- A new constant comes to serve a demand. -/
theorem addServer (h : Share.Traced g part id n rest s) (d : Demand) :
    Share.Traced g part id n rest
      { s with
        circuit := s.circuit.addNode (.constant d.2)
        servers := (d, s.circuit.nodeBound) :: s.servers } := by
  have hold {j : NodeId} (hj : j < s.circuit.nodeBound) :
      (s.circuit.addNode (.constant d.2)).node? j = s.circuit.node? j := by
    rw [node?_addNode, if_neg (Nat.ne_of_lt hj)]
  exact {
    wellFormed := h.wellFormed.addNode _
    nodeBound_le := by
      rw [nodeBound_addNode]
      exact Nat.le_succ_of_le h.nodeBound_le
    node := fun hid hm => h.node hid (hold (Nat.lt_of_lt_of_le hid h.nodeBound_le) ▸ hm)
    server_lt := by
      intro d' server hmem
      rw [nodeBound_addNode]
      rcases List.mem_cons.mp hmem with heq | hmem
      · cases heq
        exact Nat.lt_succ_self _
      · exact Nat.lt_succ_of_lt (h.server_lt hmem)
    served := by
      intro d' server m hmem hm
      rcases List.mem_cons.mp hmem with heq | hmem
      · cases heq
        rw [node?_addNode, if_pos rfl] at hm
        cases hm
        exact ⟨rfl, rfl⟩
      · exact h.served hmem (hold (h.server_lt hmem) ▸ hm)
    link := by
      intro j l' hl'
      obtain ⟨l, hl, hcontinues⟩ := h.link hl'
      exact ⟨l, hl, hcontinues.mono (List.mem_cons_of_mem _)⟩
    self := (hold (lt_nodeBound_of_node? h.self)).trans h.self
    pending := h.pending }

/-- A link of the constant may go to a server of its demand. -/
theorem continues_move (hg : g.WellFormed) (h : Share.Traced g part id n (i :: rest) s)
    (hshared : isSharable n = true) {l' : Link} (hl' : s.circuit.link? i = some l')
    {server : NodeId} (hserver : ((part l'.target, n.state.strength), server) ∈ s.servers) :
    ∃ l, g.link? i = some l ∧ s.Continues g part l { l' with source := server } := by
  have hid : l'.source = id := h.pending i List.mem_cons_self hl'
  obtain ⟨l, hl, htarget, hchannel, hsource⟩ := h.link hl'
  refine ⟨l, hl, htarget, hchannel, .inr ?_⟩
  rw [htarget] at hserver
  rcases hsource with hsource | ⟨m, hm, hmshared, hmserver⟩
  · have hn : s.circuit.node? l.source = some n := by
      rw [← hsource, hid]
      exact h.self
    exact ⟨n, h.node (lt_nodeBound_of_contains (hg.contains_source hl)) hn, hshared, hserver⟩
  · -- the link had come to this constant before, from one of the same strength
    rw [hid] at hmserver
    have hstrength : n.state.strength = m.state.strength := (h.served hmserver h.self).2
    exact ⟨m, hm, hmshared, hstrength ▸ hserver⟩

/-- The next link moves to a server. -/
theorem move (hg : g.WellFormed) (h : Share.Traced g part id n (i :: rest) s)
    (hnodup : (i :: rest).Nodup) (hshared : isSharable n = true) {l' : Link}
    (hl' : s.circuit.link? i = some l') {server : NodeId}
    (hserver : ((part l'.target, n.state.strength), server) ∈ s.servers) :
    Share.Traced g part id n rest (s.move i server) := by
  have hnot : i ∉ rest := (List.nodup_cons.mp hnodup).1
  -- a server that is not there leaves the link where it is
  have hlink {j : LinkId} {m : Link} (hm : (s.circuit.setSource i server).link? j = some m) :
      s.circuit.link? j = some m ∨ i = j ∧ m = { l' with source := server } := by
    by_cases hc : s.circuit.contains server = true
    case neg =>
      rw [setSource_of_stay fun _ _ hc' => absurd hc' hc] at hm
      exact .inl hm
    case pos =>
      rw [link?_setSource hc] at hm
      split at hm
      case isFalse => exact .inl hm
      case isTrue hij =>
        rw [← hij, hl'] at hm
        exact .inr ⟨hij, (Option.some.inj hm).symm⟩
  exact {
    wellFormed := h.wellFormed.setSource i server
    nodeBound_le := (nodeBound_setSource i server).symm ▸ h.nodeBound_le
    node := fun hid hm => h.node hid ((node?_setSource i server _).symm.trans hm)
    server_lt := fun hmem => (nodeBound_setSource i server).symm ▸ h.server_lt hmem
    served := fun hmem hm => h.served hmem ((node?_setSource i server _).symm.trans hm)
    link := by
      intro j m hm
      rcases hlink hm with hold | ⟨rfl, rfl⟩
      · exact h.link hold
      · exact h.continues_move hg hshared hl' hserver
    self := (node?_setSource i server id).trans h.self
    pending := by
      intro j hj m hm
      rcases hlink hm with hold | ⟨rfl, -⟩
      · exact h.pending j (List.mem_cons_of_mem _ hj) hold
      · exact absurd hj hnot }

theorem shareLink (hg : g.WellFormed) (h : Share.Traced g part id n (i :: rest) s)
    (hnodup : (i :: rest).Nodup) (hshared : isSharable n = true) :
    Share.Traced g part id n rest (shareLink part id n.state.strength s i) := by
  rcases shareLink_cases part id n.state.strength s i with
    ⟨heq, -⟩ | ⟨l, hl, ⟨server, hlookup, -, heq⟩ | ⟨-, ⟨-, heq⟩ | ⟨-, heq⟩⟩⟩
  · rw [heq]
    exact h.skip
  · rw [heq]
    exact h.move hg hnodup hshared hl (mem_of_lookup_eq_some hlookup)
  · rw [heq]
    exact (h.addServer (part l.target, n.state.strength)).move hg hnodup hshared hl
      List.mem_cons_self
  · rw [heq]
    exact (h.serve hshared rfl).skip

theorem foldl_shareLink (hg : g.WellFormed) (h : Share.Traced g part id n rest s)
    (hnodup : rest.Nodup) (hshared : isSharable n = true) :
    Share.Traced g part id n [] (rest.foldl (Optimize.shareLink part id n.state.strength) s) := by
  induction rest generalizing s with
  | nil => exact h
  | cons i rest ih => exact ih (h.shareLink hg hnodup hshared) (List.nodup_cons.mp hnodup).2

end Share.Traced

namespace Sharing.Traced

variable {id : NodeId} {n : Node} {s : Sharing}

theorem removeNode (h : Sharing.Traced g part s) (id : NodeId) :
    Sharing.Traced g part { s with circuit := s.circuit.removeNode id } := by
  have hnode {j : NodeId} {m : Node} (hm : (s.circuit.removeNode id).node? j = some m) :
      s.circuit.node? j = some m := (node?_removeNode_eq_some_iff.mp hm).2
  exact {
    wellFormed := h.wellFormed.removeNode id
    nodeBound_le := (nodeBound_removeNode id).symm ▸ h.nodeBound_le
    node := fun hid hm => h.node hid (hnode hm)
    server_lt := fun hmem => (nodeBound_removeNode id).symm ▸ h.server_lt hmem
    served := fun hmem hm => h.served hmem (hnode hm)
    link := fun hl => h.link (h.wellFormed.link?_removeNode_eq_some_iff.mp hl).1 }

theorem shareConstant (hg : g.WellFormed) (h : Sharing.Traced g part s)
    (hn : s.circuit.node? id = some n) (hshared : isSharable n = true) :
    Sharing.Traced g part (shareConstant part id n.state.strength s).1 := by
  have hstart : Share.Traced g part id n (s.circuit.outputs id)
      { s with serves := false, moved := false } :=
    { h with
      self := hn
      pending := by
        intro i hi l hl
        exact h.wellFormed.source_eq hl hi }
  have hshare := hstart.foldl_shareLink hg (h.wellFormed.outputs_nodup id) hshared
  rcases shareConstant_cases part id n.state.strength s with heq | ⟨-, -, heq⟩
  · rw [heq]
    exact hshare.toTraced
  · rw [heq]
    exact hshare.toTraced.removeNode id

theorem shareNode (hg : g.WellFormed) {acc : Sharing × Nat} (h : Sharing.Traced g part acc.1)
    (id : NodeId) : Sharing.Traced g part (shareNode part acc id).1 := by
  rcases shareNode_cases part acc id with ⟨heq, -⟩ | ⟨n, hn, hshared, heq⟩
  · rw [heq]
    exact h
  · rw [heq]
    exact h.shareConstant hg hn hshared

theorem start (hg : g.WellFormed) : Sharing.Traced g part { circuit := g, servers := [] } where
  wellFormed := hg
  nodeBound_le := Nat.le_refl _
  node := fun _ hn => hn
  server_lt := nofun
  served := nofun
  link := fun hl => ⟨_, hl, rfl, rfl, .inl rfl⟩

/-- A constant that can be shared feeds links that came from such constants of its strength. -/
theorem node_of_continues (hg : g.WellFormed) (h : Sharing.Traced g part s) {i : LinkId}
    {l l' : Link} (hl : g.link? i = some l) (hcontinues : s.Continues g part l l') {m : Node}
    (hm : s.circuit.node? l'.source = some m) (hshared : isSharable m = true) :
    ∃ n, g.node? l.source = some n ∧ isSharable n = true ∧
      n.state.strength = m.state.strength := by
  obtain ⟨-, -, hsource | ⟨n, hn, hnshared, hserver⟩⟩ := hcontinues
  · rw [hsource] at hm
    exact ⟨m, h.node (lt_nodeBound_of_contains (hg.contains_source hl)) hm, hshared, rfl⟩
  · exact ⟨n, hn, hnshared, (h.served hserver hm).2.symm⟩

/-- Links that have become parallel start at a constant that can be shared. -/
theorem isSharable_of_areParallel (hg : Distinct lenient g) (h : Sharing.Traced g part s)
    {i j : LinkId} {l' m' : Link} (hl' : s.circuit.link? i = some l')
    (hm' : s.circuit.link? j = some m') (hpar : areParallel l' m' = true) (hij : i ≠ j) :
    ∃ n, s.circuit.node? l'.source = some n ∧ isSharable n = true := by
  obtain ⟨l, hl, htarget, hchannel, hsource⟩ := h.link hl'
  obtain ⟨m, hm, htarget', hchannel', hsource'⟩ := h.link hm'
  obtain ⟨hsame, hsameTarget, hsameChannel⟩ := areParallel_iff.mp hpar
  obtain ⟨n, hn⟩ := contains_iff.mp (h.wellFormed.contains_source hl')
  refine ⟨n, hn, ?_⟩
  rcases hsource with hsource | ⟨_, _, _, hserver⟩
  case inr => exact (h.served hserver hn).1
  case inl =>
    rcases hsource' with hsource' | ⟨_, _, _, hserver⟩
    case inr => exact (h.served hserver (hsame ▸ hn)).1
    case inl =>
      -- neither link has moved, so they were parallel before
      have hpar' : areParallel l m = true := areParallel_iff.mpr
        ⟨hsource.symm.trans (hsame.trans hsource'), htarget.symm.trans (hsameTarget.trans htarget'),
          hchannel.symm.trans (hsameChannel.trans hchannel')⟩
      obtain ⟨o, ho, hshared⟩ := ((hg.eq_of_areParallel hl hm hpar').resolve_left hij).2
      have hn' := h.node (lt_nodeBound_of_contains (hg.wellFormed.contains_source hl))
        (hsource ▸ hn)
      cases ho.symm.trans hn'
      exact hshared

/-- Links become parallel only where two constants feed one input with one strength. -/
theorem eq_of_areParallel (hg : Distinct false g) (hdiffer : ConstantsDiffer g)
    (h : Sharing.Traced g part s) {i j : LinkId} {l' m' : Link}
    (hl' : s.circuit.link? i = some l') (hm' : s.circuit.link? j = some m')
    (hpar : areParallel l' m' = true) : i = j := by
  by_contra hij
  obtain ⟨n, hn, hshared⟩ := h.isSharable_of_areParallel hg hl' hm' hpar hij
  obtain ⟨l, hl, hcontinues⟩ := h.link hl'
  obtain ⟨m, hm, hcontinues'⟩ := h.link hm'
  obtain ⟨hsame, hsameTarget, hsameChannel⟩ := areParallel_iff.mp hpar
  obtain ⟨a, ha, hashared, hastrength⟩ := h.node_of_continues hg.wellFormed hl hcontinues hn hshared
  obtain ⟨b, hb, hbshared, hbstrength⟩ :=
    h.node_of_continues hg.wellFormed hm hcontinues' (hsame ▸ hn) hshared
  have htarget : l.target = m.target :=
    hcontinues.1.symm.trans (hsameTarget.trans hcontinues'.1)
  have hchannel : l.channel = m.channel :=
    hcontinues.2.1.symm.trans (hsameChannel.trans hcontinues'.2.1)
  have hsource := hdiffer hl hm htarget hchannel ha hb hashared hbshared
    (hastrength.trans hbstrength.symm)
  have hpar' : areParallel l m = true := areParallel_iff.mpr ⟨hsource, htarget, hchannel⟩
  exact Bool.false_ne_true ((hg.eq_of_areParallel hl hm hpar').resolve_left hij).1

end Sharing.Traced

theorem traced_shareConstants (h : g.WellFormed) :
    ∃ s : Sharing, s.Traced g (components g).root ∧ (shareConstants g).circuit = s.circuit := by
  have hfold (ids : List NodeId) (acc : Sharing × Nat)
      (hacc : Sharing.Traced g (components g).root acc.1) :
      Sharing.Traced g (components g).root (ids.foldl (shareNode (components g).root) acc).1 := by
    induction ids generalizing acc with
    | nil => exact hacc
    | cons id ids ih => exact ih _ (hacc.shareNode h id)
  exact ⟨_, hfold g.nodeIds (_, 0) (.start h), rfl⟩

namespace Distinct

/-- Sharing constants makes links parallel at constants that can be shared only. -/
theorem shareConstants_lenient (h : Distinct lenient g) :
    Distinct true (shareConstants g).circuit := by
  obtain ⟨s, htraced, heq⟩ := traced_shareConstants h.wellFormed
  rw [heq]
  refine ⟨htraced.wellFormed, fun {i j l m} hl hm hpar => ?_⟩
  by_cases hij : i = j
  · exact .inl hij
  · exact .inr ⟨rfl, htraced.isSharable_of_areParallel h hl hm hpar hij⟩

/-- Sharing constants keeps links distinct where constants of one strength feed different inputs. -/
theorem shareConstants (h : Distinct false g) (hdiffer : ConstantsDiffer g) :
    Distinct false (shareConstants g).circuit := by
  obtain ⟨s, htraced, heq⟩ := traced_shareConstants h.wellFormed
  rw [heq]
  exact ⟨htraced.wellFormed,
    fun hl hm hpar => .inl (htraced.eq_of_areParallel h hdiffer hl hm hpar)⟩

end Distinct

end Redstone.Optimize
