import Redstone.Circuit.Power
import Redstone.Proofs.Circuit.WellFormed
import Redstone.Proofs.DisjointSets
import Redstone.Proofs.Optimize.Steps

/-!
# The servers of the demands

A link from a constant that can be shared demands a strength for a connected part.  When all
constants have been shared, there is one server for each demand and one demand for each server: two
such links start at the same constant exactly if they demand the same.  Nothing else is changed, and
sharing the constants again changes nothing at all.

The sharing is followed link by link.  Links that are still pending are where they were; the others
start at the server of their demand.
-/

namespace Redstone.Optimize

open Circuit

variable {g : Circuit}

/-- The link starts at a constant that can be shared. -/
def startsShared (g : Circuit) (l : Link) : Bool :=
  (g.node? l.source).any isSharable

theorem startsShared_eq {l : Link} {n : Node} (hn : g.node? l.source = some n) :
    startsShared g l = isSharable n := by
  rw [startsShared, hn, Option.any_some]

/-- No link ends at a constant that can be shared. -/
def ConstantsAreSources (g : Circuit) : Prop :=
  ∀ {i l n}, g.link? i = some l → g.node? l.target = some n → isSharable n = false

instance (g : Circuit) : Decidable (ConstantsAreSources g) :=
  decidable_of_iff
    (∀ i ∈ g.linkIds, ∀ l ∈ g.link? i, ∀ n ∈ g.node? l.target, isSharable n = false)
    ⟨fun h {i l n} hl hn => h i (mem_linkIds.mpr ⟨l, hl⟩) l hl n hn,
      fun h _ _ _ hl _ hn => h hl hn⟩

/-! ## Connected parts -/

/-- The nodes are connected by links that do not start at constants that can be shared. -/
def Joined (g : Circuit) : NodeId → NodeId → Prop :=
  Relation.EqvGen fun a b => ∃ i l, g.link? i = some l ∧ startsShared g l = false ∧
    l.source = a ∧ l.target = b

/-- The two ends of each link that connects parts. -/
def connectors (g : Circuit) : List (NodeId × NodeId) :=
  ((g.linkIds.filterMap g.link?).filter fun l => !startsShared g l).map fun l =>
    (l.source, l.target)

theorem mem_connectors {a b : NodeId} : (a, b) ∈ connectors g ↔
    ∃ i l, g.link? i = some l ∧ startsShared g l = false ∧ l.source = a ∧ l.target = b := by
  simp only [connectors, List.mem_map, List.mem_filter, List.mem_filterMap, Bool.not_eq_true',
    Prod.mk.injEq]
  constructor
  · rintro ⟨l, ⟨⟨i, -, hl⟩, hstarts⟩, hsource, htarget⟩
    exact ⟨i, l, hl, hstarts, hsource, htarget⟩
  · rintro ⟨i, l, hl, hstarts, hsource, htarget⟩
    exact ⟨l, ⟨⟨i, mem_linkIds.mpr ⟨l, hl⟩, hl⟩, hstarts⟩, hsource, htarget⟩

theorem components_eq_unionAll (g : Circuit) :
    components g = (DisjointSets.discrete g.nodeBound).unionAll (connectors g) := by
  rw [components, connectors, DisjointSets.unionAll, List.foldl_map, List.foldl_filter]
  congr 1
  funext s l
  unfold startsShared
  cases (g.node? l.source).any isSharable <;> rfl

/-- Two nodes have the same name of their parts if they are connected. -/
theorem root_components_eq_iff (h : g.WellFormed) {a b : NodeId} :
    (components g).root a = (components g).root b ↔ Joined g a b := by
  rw [components_eq_unionAll, DisjointSets.root_unionAll_eq_iff]
  · unfold DisjointSets.Connects Joined
    simp only [mem_connectors]
  · rintro ⟨a, b⟩ hmem
    obtain ⟨i, l, hl, -, rfl, rfl⟩ := mem_connectors.mp hmem
    exact ⟨lt_nodeBound_of_contains (h.contains_source hl),
      lt_nodeBound_of_contains (h.contains_target hl)⟩

/-! ## The state of the sharing -/

/-- What a link demands. -/
def demand (g : Circuit) (part : NodeId → Nat) (l : Link) : Demand :=
  (part l.target, g.strength l.source)

theorem demand_eq {part : NodeId → Nat} {l : Link} {n : Node} (hn : g.node? l.source = some n) :
    demand g part l = (part l.target, n.state.strength) := by
  rw [demand, strength, hn]
  rfl

/-- The link is still to be looked at: it is among the next ones or starts at a later constant. -/
def Pending (g : Circuit) (later : List NodeId) (rest : List LinkId) (i : LinkId) : Prop :=
  i ∈ rest ∨ ∃ l, g.link? i = some l ∧ l.source ∈ later

/-- The sharing so far, before the links `rest` and those of the nodes `later` are looked at. -/
structure Sharing.Exact (g : Circuit) (part : NodeId → Nat) (later : List NodeId)
    (rest : List LinkId) (s : Sharing) : Prop where
  wellFormed : s.circuit.WellFormed
  -- links only change their sources, and only those that have been looked at
  link : ∀ {i l'}, s.circuit.link? i = some l' →
    ∃ l, g.link? i = some l ∧ l' = { l with source := l'.source }
  unmoved : ∀ {i l}, g.link? i = some l → startsShared g l = false ∨ Pending g later rest i →
    s.circuit.link? i = some l
  placed : ∀ {i l}, g.link? i = some l → startsShared g l = true → ¬Pending g later rest i →
    ∃ server, s.servers.lookup (demand g part l) = some server ∧
      s.circuit.link? i = some { l with source := server }
  -- a server is there because of a link, so that it is not removed, and serves one demand
  demanded : ∀ {d server}, s.servers.lookup d = some server →
    ∃ i l, g.link? i = some l ∧ startsShared g l = true ∧ ¬Pending g later rest i ∧
      demand g part l = d
  injective : ∀ {d d' server}, s.servers.lookup d = some server →
    s.servers.lookup d' = some server → d = d'
  served : ∀ {d server}, s.servers.lookup d = some server →
    ∃ m, s.circuit.node? server = some m ∧ isSharable m = true ∧ m.state.strength = d.2
  -- constants that are still to come serve nothing, and no new name is one of theirs
  apart : ∀ {d server}, s.servers.lookup d = some server → server ∉ later
  known : ∀ id ∈ later, id < g.nodeBound
  nodeBound_le : g.nodeBound ≤ s.circuit.nodeBound
  kept : ∀ {id n}, g.node? id = some n → s.circuit.node? id = some n ∨
    s.circuit.node? id = none ∧ isSharable n = true ∧ ∃ i l, g.link? i = some l ∧ l.source = id

/-- The sharing of constant `id`, which is the node `n`, before its links `rest` are looked at. -/
structure Share.Exact (g : Circuit) (part : NodeId → Nat) (later : List NodeId) (id : NodeId)
    (n : Node) (rest : List LinkId) (s : Share) : Prop
    extends Sharing.Exact g part later rest s.toSharing where
  node : s.circuit.node? id = some n
  self : ∀ {d}, s.servers.lookup d = some id → s.serves = true
  own : ∀ i ∈ rest, ∃ l, g.link? i = some l ∧ l.source = id

variable {part : NodeId → Nat} {later : List NodeId} {rest : List LinkId} {i : LinkId}

theorem Pending.of_cons (h : Pending g later rest i) (j : LinkId) :
    Pending g later (j :: rest) i :=
  h.imp (List.mem_cons_of_mem _) id

theorem Pending.of_cons_of_ne {j : LinkId} (h : Pending g later (j :: rest) i) (hne : j ≠ i) :
    Pending g later rest i :=
  h.imp (fun hmem => (List.mem_cons.mp hmem).resolve_left (Ne.symm hne)) id

theorem lookup_cons {servers : List (Demand × NodeId)} {d : Demand} {server : NodeId}
    (d' : Demand) :
    ((d, server) :: servers).lookup d' = if d' = d then some server else servers.lookup d' := by
  rw [List.lookup_cons]
  by_cases hd : d' = d
  · rw [if_pos hd, beq_iff_eq.mpr hd]
  · rw [if_neg hd, beq_eq_false_iff_ne.mpr hd]

/-- The list `servers` is that of the sharing with `server` for demand `d`, a constant of the
strength that is asked for which serves nothing else. -/
structure Sharing.Binds (s : Sharing) (d : Demand) (server : NodeId)
    (servers : List (Demand × NodeId)) : Prop where
  lookup : ∀ d', servers.lookup d' = if d' = d then some server else s.servers.lookup d'
  bound : ∀ {other}, s.servers.lookup d = some other → other = server
  free : ∀ {d'}, s.servers.lookup d' = some server → d' = d
  node : ∃ m, s.circuit.node? server = some m ∧ isSharable m = true ∧ m.state.strength = d.2

/-- A binding is the new one or an old one. -/
theorem Sharing.Binds.cases {s : Sharing} {d d' : Demand} {server other : NodeId}
    {servers : List (Demand × NodeId)} (h : s.Binds d server servers)
    (hother : servers.lookup d' = some other) :
    d' = d ∧ other = server ∨ s.servers.lookup d' = some other := by
  rw [h.lookup] at hother
  split at hother
  case isTrue hd => exact .inl ⟨hd, (Option.some.inj hother).symm⟩
  case isFalse => exact .inr hother

/-- A constant that serves nothing comes to serve a demand that nothing serves. -/
theorem Sharing.Binds.cons {s : Sharing} {d : Demand} {server : NodeId}
    (hnone : s.servers.lookup d = none) (hfree : ∀ d', s.servers.lookup d' ≠ some server)
    (hnode : ∃ m, s.circuit.node? server = some m ∧ isSharable m = true ∧
      m.state.strength = d.2) : s.Binds d server ((d, server) :: s.servers) where
  lookup := lookup_cons
  bound := fun hother => by cases hnone.symm.trans hother
  free := fun hd => absurd hd (hfree _)
  node := hnode

namespace Sharing.Exact

variable {s : Sharing} {l : Link}

/-- A node that is still there is as it was. -/
theorem node_of_contains (h : Sharing.Exact g part later rest s) {id : NodeId} {n m : Node}
    (hn : g.node? id = some n) (hm : s.circuit.node? id = some m) : m = n := by
  rcases h.kept hn with hsame | ⟨hnone, -⟩
  · cases hm.symm.trans hsame
    rfl
  · cases hm.symm.trans hnone

/-- A new constant changes nothing as long as it serves no demand. -/
theorem addNode (h : Sharing.Exact g part later rest s) (n : Node) :
    Sharing.Exact g part later rest { s with circuit := s.circuit.addNode n } := by
  exact {
    wellFormed := h.wellFormed.addNode n
    link := h.link
    unmoved := h.unmoved
    placed := h.placed
    demanded := h.demanded
    injective := h.injective
    served := fun hserver => by
      obtain ⟨m, hm, hrest⟩ := h.served hserver
      exact ⟨m, node?_addNode_of_node? hm n, hrest⟩
    apart := h.apart
    known := h.known
    nodeBound_le := by
      rw [nodeBound_addNode]
      exact Nat.le_succ_of_le h.nodeBound_le
    kept := fun {id k} hk => by
      -- the new name is not one of the old ones
      have hlt := (lt_nodeBound_of_node? hk).trans_le h.nodeBound_le
      rw [node?_addNode, if_neg (Nat.ne_of_lt hlt)]
      exact h.kept hk }

/-- A demand that is served may be bound to its server again. -/
theorem binds (h : Sharing.Exact g part later rest s) {d : Demand} {server : NodeId}
    (hserver : s.servers.lookup d = some server) : s.Binds d server s.servers where
  lookup := by
    intro d'
    split
    case isTrue hd => rw [hd, hserver]
    case isFalse => rfl
  bound := fun hother => Option.some.inj (hother.symm.trans hserver)
  free := fun hd => h.injective hd hserver
  node := h.served hserver

/-- The next link comes to start at the server of its demand. -/
theorem place (h : Sharing.Exact g part later (i :: rest) s) (hl : g.link? i = some l)
    (hshared : startsShared g l = true) (hdone : ¬Pending g later rest i) {server : NodeId}
    {servers : List (Demand × NodeId)} (hbinds : s.Binds (demand g part l) server servers)
    (hlater : server ∉ later) :
    Sharing.Exact g part later rest { circuit := s.circuit.setSource i server, servers } := by
  obtain ⟨m, hm, hsharable, hstrength⟩ := hbinds.node
  have hlink (j : LinkId) : (s.circuit.setSource i server).link? j =
      if i = j then some { l with source := server } else s.circuit.link? j := by
    rw [link?_setSource (contains_of_node? hm)]
    by_cases hij : i = j
    · rw [if_pos hij, if_pos hij, ← hij, h.unmoved hl (.inr (.inl List.mem_cons_self))]
      rfl
    · rw [if_neg hij, if_neg hij]
  exact {
    wellFormed := h.wellFormed.setSource i server
    link := by
      intro j l' hl'
      rw [hlink] at hl'
      split at hl'
      case isTrue hij =>
        cases hl'
        exact ⟨l, hij ▸ hl, rfl⟩
      case isFalse => exact h.link hl'
    unmoved := by
      intro j l' hl' hstays
      have hij : i ≠ j := by
        rintro rfl
        cases hl.symm.trans hl'
        rcases hstays with hstays | hstays
        · rw [hshared] at hstays
          cases hstays
        · exact hdone hstays
      rw [hlink, if_neg hij]
      exact h.unmoved hl' (hstays.imp_right fun hpending => hpending.of_cons i)
    placed := by
      intro j l' hl' hshared' hnot
      rw [hlink]
      by_cases hij : i = j
      · subst hij
        cases hl.symm.trans hl'
        exact ⟨server, (hbinds.lookup _).trans (if_pos rfl), if_pos rfl⟩
      · obtain ⟨other, hother, hplace⟩ := h.placed hl' hshared' fun hpending =>
          hnot (hpending.of_cons_of_ne hij)
        refine ⟨other, ?_, (if_neg hij).trans hplace⟩
        rw [hbinds.lookup]
        split
        case isTrue hsame =>
          rw [hsame] at hother
          rw [hbinds.bound hother]
        case isFalse => exact hother
    demanded := by
      intro d other hother
      rcases hbinds.cases hother with ⟨hd, -⟩ | hother
      · exact ⟨i, l, hl, hshared, hdone, hd.symm⟩
      · obtain ⟨j, l', hl', hshared', hnot, hd⟩ := h.demanded hother
        exact ⟨j, l', hl', hshared', fun hpending => hnot (hpending.of_cons i), hd⟩
    injective := by
      intro d d' other hother hother'
      -- the server of the new binding serves nothing else, by `free`
      rcases hbinds.cases hother with ⟨hd, rfl⟩ | hold <;>
        rcases hbinds.cases hother' with ⟨hd', heq⟩ | hold'
      · exact hd.trans hd'.symm
      · exact hd.trans (hbinds.free hold').symm
      · exact (hbinds.free (heq ▸ hold)).trans hd'.symm
      · exact h.injective hold hold'
    served := by
      intro d other hother
      rcases hbinds.cases hother with ⟨hd, rfl⟩ | hother
      · exact ⟨m, (node?_setSource i _ _).trans hm, hsharable, hd ▸ hstrength⟩
      · obtain ⟨k, hk, hrest⟩ := h.served hother
        exact ⟨k, (node?_setSource i _ _).trans hk, hrest⟩
    apart := by
      intro d other hother
      rcases hbinds.cases hother with ⟨-, rfl⟩ | hother
      · exact hlater
      · exact h.apart hother
    known := h.known
    nodeBound_le := (nodeBound_setSource i server).symm ▸ h.nodeBound_le
    kept := fun hn => by
      rw [node?_setSource]
      exact h.kept hn }

/-- The links of the next constant have not been touched, and no link has come to it. -/
theorem mem_outputs_iff {id : NodeId} (h : Sharing.Exact g part (id :: later) [] s) :
    i ∈ s.circuit.outputs id ↔ ∃ l, g.link? i = some l ∧ l.source = id := by
  rw [h.wellFormed.mem_outputs_iff]
  constructor
  · rintro ⟨l', hl', hsource⟩
    obtain ⟨l, hl, -⟩ := h.link hl'
    refine ⟨l, hl, ?_⟩
    by_cases hstays : startsShared g l = false ∨ Pending g (id :: later) [] i
    · cases hl'.symm.trans (h.unmoved hl hstays)
      exact hsource
    · -- the link would have come to the constant, which is no server yet
      rw [not_or, Bool.not_eq_false] at hstays
      obtain ⟨server, hserver, hplace⟩ := h.placed hl hstays.1 hstays.2
      cases hl'.symm.trans hplace
      exact absurd (hsource ▸ List.mem_cons_self) (h.apart hserver)
  · rintro ⟨l, hl, hsource⟩
    exact ⟨l, h.unmoved hl (.inr (.inr ⟨l, hl, hsource ▸ List.mem_cons_self⟩)), hsource⟩

/-- The links `rest` of the next constant are all that is pending besides later constants. -/
theorem advance {id : NodeId} (h : Sharing.Exact g part (id :: later) [] s)
    (hrest : ∀ {i l}, g.link? i = some l → startsShared g l = true →
      (l.source = id ↔ i ∈ rest)) : Sharing.Exact g part later rest s := by
  have hpending {i : LinkId} {l : Link} (hl : g.link? i = some l)
      (hshared : startsShared g l = true) :
      Pending g (id :: later) [] i ↔ Pending g later rest i := by
    unfold Pending
    simp [hl, ← hrest hl hshared]
  exact {
    wellFormed := h.wellFormed
    link := h.link
    unmoved := by
      intro i l hl hstays
      cases hshared : startsShared g l with
      | false => exact h.unmoved hl (.inl hshared)
      | true =>
          rw [hshared, ← hpending hl hshared] at hstays
          exact h.unmoved hl (hshared.symm ▸ hstays)
    placed := fun hl hshared hnot => h.placed hl hshared (mt (hpending hl hshared).mp hnot)
    demanded := fun hserver => by
      obtain ⟨i, l, hl, hshared, hnot, hd⟩ := h.demanded hserver
      exact ⟨i, l, hl, hshared, mt (hpending hl hshared).mpr hnot, hd⟩
    injective := h.injective
    served := h.served
    apart := fun hserver hmem => h.apart hserver (List.mem_cons_of_mem _ hmem)
    known := fun j hj => h.known j (List.mem_cons_of_mem _ hj)
    nodeBound_le := h.nodeBound_le
    kept := h.kept }

end Sharing.Exact

namespace Share.Exact

variable {s : Share} {id : NodeId} {n : Node} {l : Link}

/-- The constant is still the one of the circuit that the sharing started with. -/
theorem source_node (h : Share.Exact g part later id n rest s) (hg : g.WellFormed)
    (hl : g.link? i = some l) (hsource : l.source = id) : g.node? l.source = some n := by
  obtain ⟨m, hm⟩ := contains_iff.mp (hg.contains_source hl)
  cases h.node_of_contains (hsource ▸ hm) h.node
  exact hm

/-- A new constant comes, for a demand that is still to be bound. -/
theorem addNode (h : Share.Exact g part later id n rest s) (m : Node) :
    Share.Exact g part later id n rest { s with circuit := s.circuit.addNode m } where
  toExact := h.toExact.addNode m
  node := node?_addNode_of_node? h.node m
  self := h.self
  own := h.own

/-- The next link comes to start at the server of its demand. -/
theorem place (h : Share.Exact g part later id n (i :: rest) s) (hnodup : (i :: rest).Nodup)
    (hlater : id ∉ later) (hl : g.link? i = some l) (hsource : l.source = id)
    (hshared : startsShared g l = true) {server : NodeId} {servers : List (Demand × NodeId)}
    (hbinds : s.Binds (demand g part l) server servers) (hserver : server ∉ later)
    (serves moved : Bool) (hself : server = id → serves = true)
    (hserves : s.serves = true → serves = true) :
    Share.Exact g part later id n rest
      { circuit := s.circuit.setSource i server, servers, serves, moved } where
  toExact := by
    refine h.toExact.place hl hshared ?_ hbinds hserver
    rintro (hmem | ⟨l', hl', hmem⟩)
    · exact (List.nodup_cons.mp hnodup).1 hmem
    · cases hl.symm.trans hl'
      exact hlater (hsource ▸ hmem)
  node := (node?_setSource i server id).trans h.node
  self := by
    intro d hd
    rcases hbinds.cases hd with ⟨-, hid⟩ | hd
    · exact hself hid.symm
    · exact hserves (h.self hd)
  own := fun j hj => h.own j (List.mem_cons_of_mem _ hj)

theorem shareLink (hg : g.WellFormed) (h : Share.Exact g part later id n (i :: rest) s)
    (hnodup : (i :: rest).Nodup) (hlater : id ∉ later) (hsharable : isSharable n = true) :
    Share.Exact g part later id n rest (shareLink part id n.state.strength s i) := by
  obtain ⟨l, hl, hsource⟩ := h.own i List.mem_cons_self
  have hlink : s.circuit.link? i = some l := h.unmoved hl (.inr (.inl List.mem_cons_self))
  have hn := h.source_node hg hl hsource
  have hshared : startsShared g l = true := (startsShared_eq hn).trans hsharable
  have hd : (part l.target, n.state.strength) = demand g part l := (demand_eq hn).symm
  have hstrength : n.state.strength = (demand g part l).2 := by rw [demand_eq hn]
  -- a link that stays at the constant may be said to have moved there
  have hstay : s.circuit.setSource i id = s.circuit :=
    setSource_of_stay fun l' hl' _ => by cases hl'.symm.trans hlink; exact hsource
  rcases shareLink_cases part id n.state.strength s i with
    ⟨heq, hown⟩ | ⟨l', hl', ⟨server, hlookup, -, heq⟩ | ⟨hfresh, ⟨hserves, heq⟩ | ⟨hserves, heq⟩⟩⟩
  · have hlookup := hown l hlink
    rw [hd] at hlookup
    have hplace := h.place hnodup hlater hl hsource hshared (h.binds hlookup) hlater s.serves s.moved
      (fun _ => h.self hlookup) (fun hserves => hserves)
    rw [hstay] at hplace
    rw [heq]
    exact hplace
  · cases hlink.symm.trans hl'
    rw [hd] at hlookup
    rw [heq]
    exact h.place hnodup hlater hl hsource hshared (h.binds hlookup) (h.apart hlookup) s.serves true
      (fun hid => h.self (hid ▸ hlookup)) (fun hserves => hserves)
  · cases hlink.symm.trans hl'
    rw [hd] at hfresh heq
    rw [heq]
    -- the new constant has a new name, which serves nothing and is not to come later
    refine (h.addNode (.constant n.state.strength)).place hnodup hlater hl hsource hshared
      (.cons hfresh (fun d hd => ?_) ⟨.constant n.state.strength, ?_, rfl, hstrength⟩)
      (fun hmem => ?_) s.serves true (fun _ => hserves) (fun hserves => hserves)
    · obtain ⟨m, hm, -⟩ := h.served hd
      exact Nat.lt_irrefl _ (lt_nodeBound_of_node? hm)
    · exact (node?_addNode _ _ _).trans (if_pos rfl)
    · exact Nat.lt_irrefl _ ((h.known _ hmem).trans_le h.nodeBound_le)
  · cases hlink.symm.trans hl'
    have hfree (d : Demand) : s.servers.lookup d ≠ some id := by
      intro hd
      cases hserves.symm.trans (h.self hd)
    rw [hd] at hfresh heq
    have hplace := h.place hnodup hlater hl hsource hshared
      (.cons hfresh hfree ⟨n, h.node, hsharable, hstrength⟩) hlater true s.moved
      (fun _ => rfl) (fun _ => rfl)
    rw [hstay] at hplace
    rw [heq]
    exact hplace

theorem foldl_shareLink (hg : g.WellFormed) (h : Share.Exact g part later id n rest s)
    (hnodup : rest.Nodup) (hlater : id ∉ later) (hsharable : isSharable n = true) :
    Share.Exact g part later id n [] (rest.foldl (Optimize.shareLink part id n.state.strength) s) := by
  induction rest generalizing s with
  | nil => exact h
  | cons i rest ih =>
      exact ih (h.shareLink hg hnodup hlater hsharable) (List.nodup_cons.mp hnodup).2

end Share.Exact

namespace Sharing.Exact

variable {s : Sharing} {id : NodeId} {n : Node}

/-- The links of a constant are looked at. -/
theorem share (h : Sharing.Exact g part (id :: later) [] s) (hn : s.circuit.node? id = some n) :
    Share.Exact g part later id n (s.circuit.outputs id)
      { s with serves := false, moved := false } where
  toExact := by
    refine h.advance fun {i l} hl _ => ?_
    rw [h.mem_outputs_iff]
    constructor
    · intro hsource
      exact ⟨l, hl, hsource⟩
    · rintro ⟨l', hl', hsource⟩
      cases hl.symm.trans hl'
      exact hsource
  node := hn
  self := fun hserver => absurd List.mem_cons_self (h.apart hserver)
  own := fun i hi => h.mem_outputs_iff.mp hi

/-- A constant without links is removed.  No link ends there. -/
theorem removeNode (h : Sharing.Exact g part later [] s)
    (hsources : ConstantsAreSources g)
    (hn : g.node? id = some n) (hsharable : isSharable n = true)
    (hbare : s.circuit.outputs id = []) (hlinks : ∃ i l, g.link? i = some l ∧ l.source = id) :
    Sharing.Exact g part later [] { s with circuit := s.circuit.removeNode id } := by
  have hlink (i : LinkId) : (s.circuit.removeNode id).link? i = s.circuit.link? i := by
    refine Option.ext fun l' => ?_
    rw [h.wellFormed.link?_removeNode_eq_some_iff]
    refine and_iff_left_of_imp fun hl' => ⟨h.wellFormed.source_ne hbare hl', ?_⟩
    rintro rfl
    obtain ⟨l, hl, heq⟩ := h.link hl'
    have htarget : l'.target = l.target := by rw [heq]
    rw [hsources hl (htarget ▸ hn)] at hsharable
    cases hsharable
  exact {
    wellFormed := h.wellFormed.removeNode id
    link := fun hl' => h.link ((hlink _).symm.trans hl')
    unmoved := fun hl hstays => (hlink _).trans (h.unmoved hl hstays)
    placed := fun hl hshared hnot => by
      obtain ⟨server, hserver, hplace⟩ := h.placed hl hshared hnot
      exact ⟨server, hserver, (hlink _).trans hplace⟩
    demanded := h.demanded
    injective := h.injective
    served := fun {d server} hserver => by
      obtain ⟨m, hm, hrest⟩ := h.served hserver
      refine ⟨m, node?_removeNode_eq_some_iff.mpr ⟨?_, hm⟩, hrest⟩
      rintro rfl
      -- a server has the links that demand it
      obtain ⟨i, l, hl, hshared, hnot, hd⟩ := h.demanded hserver
      obtain ⟨server', hserver', hplace⟩ := h.placed hl hshared hnot
      cases (hd ▸ hserver').symm.trans hserver
      exact h.wellFormed.source_ne hbare hplace rfl
    apart := h.apart
    known := h.known
    nodeBound_le := (nodeBound_removeNode id).symm ▸ h.nodeBound_le
    kept := fun {j m} hm => by
      rw [node?_removeNode]
      split
      case isTrue hid =>
        subst hid
        cases hn.symm.trans hm
        exact .inr ⟨rfl, hsharable, hlinks⟩
      case isFalse => exact h.kept hm }

theorem shareConstant (h : Sharing.Exact g part (id :: later) [] s) (hg : g.WellFormed)
    (hsources : ConstantsAreSources g)
    (hlater : id ∉ later) (hn : s.circuit.node? id = some n) (hsharable : isSharable n = true) :
    Sharing.Exact g part later [] (shareConstant part id n.state.strength s).1 := by
  have hshare := (h.share hn).foldl_shareLink hg (h.wellFormed.outputs_nodup id) hlater hsharable
  rcases shareConstant_cases part id n.state.strength s with heq | ⟨hmoved, hbare, heq⟩
  · rw [heq]
    exact hshare.toExact
  have hlinks : ∃ i l, g.link? i = some l ∧ l.source = id := by
    cases houtputs : s.circuit.outputs id with
    | nil =>
        -- without links, none has moved
        rw [houtputs] at hmoved
        cases hmoved
    | cons i rest =>
        obtain ⟨l, hl⟩ := h.mem_outputs_iff.mp (houtputs ▸ List.mem_cons_self)
        exact ⟨i, l, hl⟩
  obtain ⟨i, l, hl, hsource⟩ := hlinks
  have hn' : g.node? id = some n := hsource ▸ hshare.source_node hg hl hsource
  rw [heq]
  exact hshare.toExact.removeNode hsources hn' hsharable hbare ⟨i, l, hl, hsource⟩

/-- A node that is not a constant to be shared has no pending links of such constants. -/
theorem skip (h : Sharing.Exact g part (id :: later) [] s)
    (hnot : ∀ n, s.circuit.node? id = some n → isSharable n = false) :
    Sharing.Exact g part later [] s := by
  refine h.advance fun {i l} hl hshared => iff_of_false ?_ List.not_mem_nil
  intro hsource
  obtain ⟨n, hn, hsharable⟩ := (Option.any_eq_true _ _).mp hshared
  have hlink := h.unmoved hl (.inr (.inr ⟨l, hl, hsource ▸ List.mem_cons_self⟩))
  obtain ⟨m, hm⟩ := contains_iff.mp (h.wellFormed.contains_source hlink)
  cases h.node_of_contains hn hm
  rw [hnot _ (hsource ▸ hm)] at hsharable
  cases hsharable

theorem shareNode {acc : Sharing × Nat} (h : Sharing.Exact g part (id :: later) [] acc.1)
    (hg : g.WellFormed)
    (hsources : ConstantsAreSources g)
    (hlater : id ∉ later) : Sharing.Exact g part later [] (shareNode part acc id).1 := by
  rcases shareNode_cases part acc id with ⟨heq, hnot⟩ | ⟨n, hn, hsharable, heq⟩
  · rw [heq]
    exact h.skip hnot
  · rw [heq]
    exact h.shareConstant hg hsources hlater hn hsharable

theorem foldl_shareNode (acc : Sharing × Nat) (h : Sharing.Exact g part later [] acc.1)
    (hg : g.WellFormed)
    (hsources : ConstantsAreSources g)
    (hnodup : later.Nodup) :
    Sharing.Exact g part [] [] (later.foldl (Optimize.shareNode part) acc).1 := by
  induction later generalizing acc with
  | nil => exact h
  | cons id later ih =>
      -- the invariant says which constants are left, so it moves along with the list
      obtain ⟨hlater, hnodup⟩ := List.nodup_cons.mp hnodup
      exact ih _ (h.shareNode hg hsources hlater) hnodup

/-- Before the first constant, all links are pending. -/
theorem start (hg : g.WellFormed) :
    Sharing.Exact g part g.nodeIds [] { circuit := g, servers := [] } where
  wellFormed := hg
  link := fun hl => ⟨_, hl, rfl⟩
  unmoved := fun hl _ => hl
  placed := fun hl _ hnot =>
    absurd (.inr ⟨_, hl, mem_nodeIds.mpr (hg.contains_source hl)⟩) hnot
  demanded := nofun
  injective := nofun
  served := nofun
  apart := nofun
  known := fun _ hid => lt_nodeBound_of_contains (mem_nodeIds.mp hid)
  nodeBound_le := Nat.le_refl _
  kept := .inl

end Sharing.Exact

theorem exact_shareConstants (hg : g.WellFormed)
    (hsources : ConstantsAreSources g) :
    ∃ s : Sharing, s.Exact g (components g).root [] [] ∧ (shareConstants g).circuit = s.circuit :=
  ⟨_, (Sharing.Exact.start hg).foldl_shareNode (_, 0) hg hsources g.nodeIds_nodup, rfl⟩

/-! ## The circuit with shared constants -/

/-- The circuit `g'` has the links of `g`, where two links from constants that can be shared start
at the same constant exactly if they need the same strength in one part. -/
structure ConstantsShared (g g' : Circuit) : Prop where
  wellFormed : g'.WellFormed
  link : ∀ {i l}, g.link? i = some l →
    ∃ source, g'.link? i = some { l with source } ∧ g'.strength source = g.strength l.source ∧
      (startsShared g l = false → source = l.source)
  link_of : ∀ {i l'}, g'.link? i = some l' → ∃ l, g.link? i = some l
  source_eq_iff : ∀ {i j l m}, g'.link? i = some l → g'.link? j = some m →
    startsShared g' l = true → startsShared g' m = true →
    (l.source = m.source ↔ g'.strength l.source = g'.strength m.source ∧
      Joined g' l.target m.target)
  joined : ∀ {a b}, Joined g' a b ↔ Joined g a b
  gone : ∀ {id n}, g.node? id = some n → g'.node? id = some n ∨
    g'.node? id = none ∧ isSharable n = true ∧ (∃ i l, g.link? i = some l ∧ l.source = id) ∧
      ∀ {i l l'}, g.link? i = some l → l.source = id → g'.link? i = some l' → l'.source ≠ id

namespace Sharing.Exact

variable {s : Sharing} {l : Link}

theorem not_pending (i : LinkId) : ¬Pending g [] [] i := by
  rintro (hmem | ⟨l, -, hmem⟩)
  · cases hmem
  · cases hmem

/-- A link that does not start at a constant to be shared stays, and so does its source. -/
theorem stays (h : Sharing.Exact g part later rest s) (hg : g.WellFormed)
    (hl : g.link? i = some l) (hstarts : startsShared g l = false) :
    s.circuit.link? i = some l ∧ s.circuit.node? l.source = g.node? l.source := by
  refine ⟨h.unmoved hl (.inl hstarts), ?_⟩
  obtain ⟨n, hn⟩ := contains_iff.mp (hg.contains_source hl)
  rcases h.kept hn with hsame | ⟨-, hsharable, -⟩
  · rw [hsame, hn]
  · rw [startsShared_eq hn, hsharable] at hstarts
    cases hstarts

/-- In the end, a link from a constant to be shared starts at the server of its demand. -/
theorem arrives (h : Sharing.Exact g part [] [] s) (hl : g.link? i = some l)
    (hstarts : startsShared g l = true) :
    ∃ server, s.servers.lookup (demand g part l) = some server ∧
      s.circuit.link? i = some { l with source := server } ∧
      s.circuit.strength server = g.strength l.source ∧
      (s.circuit.node? server).any isSharable = true := by
  obtain ⟨server, hserver, hlink⟩ := h.placed hl hstarts (not_pending i)
  obtain ⟨m, hm, hsharable, hstrength⟩ := h.served hserver
  refine ⟨server, hserver, hlink, ?_, ?_⟩
  · rw [strength, hm]
    exact hstrength
  · rw [hm]
    exact hsharable

/-- Links start at constants to be shared as they did before. -/
theorem exists_link (h : Sharing.Exact g part [] [] s) (hg : g.WellFormed) {l' : Link}
    (hl' : s.circuit.link? i = some l') :
    ∃ l, g.link? i = some l ∧ l' = { l with source := l'.source } ∧
      startsShared s.circuit l' = startsShared g l := by
  obtain ⟨l, hl, heq⟩ := h.link hl'
  refine ⟨l, hl, heq, ?_⟩
  cases hstarts : startsShared g l with
  | false =>
      obtain ⟨hlink, hnode⟩ := h.stays hg hl hstarts
      cases hl'.symm.trans hlink
      rw [startsShared, hnode]
      exact hstarts
  | true =>
      obtain ⟨server, -, hlink, -, hsharable⟩ := h.arrives hl hstarts
      cases hl'.symm.trans hlink
      exact hsharable

theorem joined_iff (h : Sharing.Exact g part [] [] s) (hg : g.WellFormed) {a b : NodeId} :
    Joined s.circuit a b ↔ Joined g a b := by
  constructor
  · intro hjoined
    refine hjoined.mono ?_
    rintro a b ⟨i, l', hl', hstarts, rfl, rfl⟩
    obtain ⟨l, hl, -, hsame⟩ := h.exists_link hg hl'
    rw [hsame] at hstarts
    cases hl'.symm.trans (h.stays hg hl hstarts).1
    exact ⟨i, l', hl, hstarts, rfl, rfl⟩
  · intro hjoined
    refine hjoined.mono ?_
    rintro a b ⟨i, l, hl, hstarts, rfl, rfl⟩
    obtain ⟨hlink, hnode⟩ := h.stays hg hl hstarts
    refine ⟨i, l, hlink, ?_, rfl, rfl⟩
    rw [startsShared, hnode]
    exact hstarts

theorem constantsShared (h : Sharing.Exact g (components g).root [] [] s) (hg : g.WellFormed) :
    ConstantsShared g s.circuit where
  wellFormed := h.wellFormed
  link := by
    intro i l hl
    cases hstarts : startsShared g l with
    | false =>
        obtain ⟨hlink, hnode⟩ := h.stays hg hl hstarts
        refine ⟨l.source, hlink, ?_, fun _ => rfl⟩
        rw [strength, hnode, strength]
    | true =>
        obtain ⟨server, -, hlink, hstrength, -⟩ := h.arrives hl hstarts
        exact ⟨server, hlink, hstrength, nofun⟩
  link_of := fun hl' => by
    obtain ⟨l, hl, -⟩ := h.link hl'
    exact ⟨l, hl⟩
  source_eq_iff := by
    intro i j l' m' hl' hm' hstarts hstarts'
    obtain ⟨l, hl, -, hsame⟩ := h.exists_link hg hl'
    obtain ⟨m, hm, -, hsame'⟩ := h.exists_link hg hm'
    obtain ⟨server, hserver, hlink, hstrength, -⟩ := h.arrives hl (hsame ▸ hstarts)
    obtain ⟨server', hserver', hlink', hstrength', -⟩ := h.arrives hm (hsame' ▸ hstarts')
    cases hl'.symm.trans hlink
    cases hm'.symm.trans hlink'
    -- servers are the same if their demands are
    have hdemand : server = server' ↔ demand g (components g).root l =
        demand g (components g).root m := by
      constructor
      · rintro rfl
        exact h.injective hserver hserver'
      · intro heq
        rw [heq] at hserver
        exact Option.some.inj (hserver.symm.trans hserver')
    show server = server' ↔ s.circuit.strength server = s.circuit.strength server' ∧
      Joined s.circuit l.target m.target
    rw [hdemand, demand, demand, Prod.mk.injEq, root_components_eq_iff hg, h.joined_iff hg,
      hstrength, hstrength', and_comm]
  joined := h.joined_iff hg
  gone := by
    intro id n hn
    refine (h.kept hn).imp_right fun ⟨hnone, hsharable, hlinks⟩ =>
      ⟨hnone, hsharable, hlinks, fun {i l l'} _ _ hl' hsource => ?_⟩
    obtain ⟨m, hm⟩ := contains_iff.mp (h.wellFormed.contains_source hl')
    rw [hsource, hnone] at hm
    cases hm

end Sharing.Exact

/-! ## Sharing again -/

/-- Links from constants to be shared start at the same constant exactly if they demand the same. -/
def ServedByDemand (g : Circuit) (part : NodeId → Nat) : Prop :=
  ∀ {i j l m}, g.link? i = some l → g.link? j = some m → startsShared g l = true →
    startsShared g m = true → (l.source = m.source ↔ demand g part l = demand g part m)

/-- Every server has a link with the demand that it serves. -/
def Sharing.Earned (g : Circuit) (part : NodeId → Nat) (s : Sharing) : Prop :=
  ∀ {d server}, s.servers.lookup d = some server →
    ∃ i l, g.link? i = some l ∧ startsShared g l = true ∧ l.source = server ∧ demand g part l = d

/-- The circuit is as it was. -/
structure Sharing.Idle (g : Circuit) (part : NodeId → Nat) (s : Sharing) : Prop where
  circuit_eq : s.circuit = g
  earned : s.Earned g part

/-- No link of constant `id` has moved. -/
structure Share.Idle (g : Circuit) (part : NodeId → Nat) (id : NodeId) (s : Share) : Prop
    extends Sharing.Idle g part s.toSharing where
  moved_eq : s.moved = false
  self : s.serves = true → ∃ d, s.servers.lookup d = some id

namespace Share.Idle

variable {s : Share} {id : NodeId} {n : Node}

/-- The demand of a link from a constant is served by the constant itself, or not yet. -/
theorem shareLink (h : Share.Idle g part id s) (hserved : ServedByDemand g part)
    (hn : g.node? id = some n) (hsharable : isSharable n = true) {l : Link}
    (hl : g.link? i = some l) (hsource : l.source = id) :
    Share.Idle g part id (shareLink part id n.state.strength s i) := by
  have hn' : g.node? l.source = some n := hsource ▸ hn
  have hstarts : startsShared g l = true := (startsShared_eq hn').trans hsharable
  have hd : (part l.target, n.state.strength) = demand g part l := (demand_eq hn').symm
  have hlink {l' : Link} (hl' : s.circuit.link? i = some l') : l' = l := by
    rw [h.circuit_eq, hl] at hl'
    exact (Option.some.inj hl').symm
  rcases shareLink_cases part id n.state.strength s i with
    ⟨heq, -⟩ | ⟨l', hl', ⟨server, hlookup, hne, heq⟩ | ⟨hfresh, ⟨hserves, heq⟩ | ⟨-, heq⟩⟩⟩
  · rw [heq]
    exact h
  · obtain rfl := hlink hl'
    rw [hd] at hlookup
    obtain ⟨j, m, hm, hstarts', rfl, hd'⟩ := h.earned hlookup
    exact absurd (((hserved hm hl hstarts' hstarts).mpr hd').trans hsource) hne
  · -- another link of this constant would demand the same, which is not served
    obtain rfl := hlink hl'
    obtain ⟨d, hearned⟩ := h.self hserves
    obtain ⟨j, m, hm, hstarts', hsource', rfl⟩ := h.earned hearned
    rw [hd, ← (hserved hm hl hstarts' hstarts).mp (hsource'.trans hsource.symm), hearned] at hfresh
    cases hfresh
  · obtain rfl := hlink hl'
    rw [hd] at heq
    rw [heq]
    refine ⟨⟨h.circuit_eq, fun {d server} hserver => ?_⟩, h.moved_eq, fun _ => ?_⟩
    · rw [lookup_cons] at hserver
      split at hserver
      case isTrue hsame =>
        cases hserver
        exact ⟨i, l', hl, hstarts, hsource, hsame.symm⟩
      case isFalse => exact h.earned hserver
    · exact ⟨_, (lookup_cons _).trans (if_pos rfl)⟩

theorem foldl_shareLink (h : Share.Idle g part id s) (hserved : ServedByDemand g part)
    (hn : g.node? id = some n) (hsharable : isSharable n = true) (rest : List LinkId)
    (hlinks : ∀ i ∈ rest, ∃ l, g.link? i = some l ∧ l.source = id) :
    Share.Idle g part id (rest.foldl (Optimize.shareLink part id n.state.strength) s) := by
  induction rest generalizing s with
  | nil => exact h
  | cons i rest ih =>
      obtain ⟨l, hl, hsource⟩ := hlinks i List.mem_cons_self
      exact ih (h.shareLink hserved hn hsharable hl hsource) fun j hj =>
        hlinks j (List.mem_cons_of_mem _ hj)

end Share.Idle

namespace Sharing.Idle

theorem shareNode {acc : Sharing × Nat} (h : Sharing.Idle g part acc.1) (hg : g.WellFormed)
    (hserved : ServedByDemand g part) (id : NodeId) :
    Sharing.Idle g part (shareNode part acc id).1 ∧ (shareNode part acc id).2 = acc.2 := by
  rcases shareNode_cases part acc id with ⟨heq, -⟩ | ⟨n, hn, hsharable, heq⟩
  · rw [heq]
    exact ⟨h, rfl⟩
  have hstart : Share.Idle g part id { acc.1 with serves := false, moved := false } :=
    ⟨h, rfl, nofun⟩
  have hidle := hstart.foldl_shareLink hserved (h.circuit_eq ▸ hn) hsharable
    (acc.1.circuit.outputs id) fun i hi => hg.mem_outputs_iff.mp (h.circuit_eq ▸ hi)
  rw [heq]
  rcases shareConstant_cases part id n.state.strength acc.1 with heq' | ⟨hmoved, -, -⟩
  · rw [heq']
    exact ⟨hidle.toIdle, rfl⟩
  · cases hidle.moved_eq.symm.trans hmoved

theorem foldl_shareNode (acc : Sharing × Nat) (h : Sharing.Idle g part acc.1) (hg : g.WellFormed)
    (hserved : ServedByDemand g part) (ids : List NodeId) :
    Sharing.Idle g part (ids.foldl (Optimize.shareNode part) acc).1 ∧
      (ids.foldl (Optimize.shareNode part) acc).2 = acc.2 := by
  induction ids generalizing acc with
  | nil => exact ⟨h, rfl⟩
  | cons id ids ih =>
      obtain ⟨hidle, hcount⟩ := h.shareNode hg hserved id
      obtain ⟨hrest, hcount'⟩ := ih _ hidle
      exact ⟨hrest, hcount'.trans hcount⟩

end Sharing.Idle

theorem shareConstants_of_served (hg : g.WellFormed)
    (hserved : ServedByDemand g (components g).root) : shareConstants g = .unchanged g := by
  have hstart : Sharing.Idle g (components g).root { circuit := g, servers := [] } := ⟨rfl, nofun⟩
  obtain ⟨hidle, hcount⟩ := hstart.foldl_shareNode (_, 0) hg hserved g.nodeIds
  unfold shareConstants
  dsimp only
  rw [hidle.circuit_eq, hcount]
  rfl

/-- Sharing constants keeps all links and what they bring, and leaves one constant for each strength
in each connected part.  A constant goes only if it had links and all of them have moved away.
Sharing once more changes nothing. -/
theorem shareConstants_is_exact (h : g.WellFormed) (hsources : ConstantsAreSources g) :
    ConstantsShared g (shareConstants g).circuit ∧
      shareConstants (shareConstants g).circuit = .unchanged (shareConstants g).circuit := by
  obtain ⟨s, hexact, heq⟩ := exact_shareConstants h hsources
  have hshared := hexact.constantsShared h
  rw [heq]
  refine ⟨hshared, shareConstants_of_served hshared.wellFormed ?_⟩
  intro i j l m hl hm hstarts hstarts'
  rw [hshared.source_eq_iff hl hm hstarts hstarts', demand, demand, Prod.mk.injEq,
    root_components_eq_iff hshared.wellFormed, and_comm]

/-- A comparator with a lamp behind it and a lamp for itself.  Two constants of full strength reach
into the part of the comparator, the first one also to the other lamp, and a weak one goes to the
side of the comparator. -/
def lampParts : Circuit :=
  let nodes := Circuit.empty.addNodes
    [ .constant 15, .constant 15, .constant 7, { gate := .comparator .compare false }
    , { gate := .plain .lamp, isOutput := true }, { gate := .plain .lamp, isOutput := true } ]
  ((((nodes.addLink { source := 0, target := 3, channel := .main, loss := 2 }).addLink
    { source := 0, target := 5, channel := .main, loss := 0 }).addLink
    { source := 1, target := 4, channel := .main, loss := 1 }).addLink
    { source := 2, target := 3, channel := .side, loss := 0 }).addLink
    { source := 3, target := 4, channel := .main, loss := 0 }

/-- One of the two constants is left for the part of the comparator, and the lamp for itself gets a
new one. -/
theorem shareConstants_is_exact_lampParts :
    (shareConstants lampParts).circuit.nodeIds = [0, 2, 3, 4, 5, 6] ∧
      (∃ source, (shareConstants lampParts).circuit.link? 2 =
        some { source, target := 4, channel := .main, loss := 1 } ∧
          (shareConstants lampParts).circuit.strength source = 15) ∧
      Joined lampParts 3 4 ∧ ¬Joined lampParts 3 5 ∧
      (shareConstants (shareConstants lampParts).circuit).changes = 0 := by
  have hwf : lampParts.WellFormed :=
    (((((WellFormed.empty.addNodes _).addLink _).addLink _).addLink _).addLink _).addLink _
  obtain ⟨hshared, hagain⟩ := shareConstants_is_exact hwf (by decide)
  obtain ⟨source, hlink, hstrength, -⟩ := hshared.link (i := 2)
    (l := { source := 1, target := 4, channel := .main, loss := 1 }) (by decide)
  -- the first two links of the first constant go to different parts
  have hapart : ¬Joined (shareConstants lampParts).circuit 3 5 := fun hjoined =>
    absurd ((hshared.source_eq_iff (i := 0) (j := 1)
      (l := { source := 0, target := 3, channel := .main, loss := 2 })
      (m := { source := 6, target := 5, channel := .main, loss := 0 }) (by decide) (by decide)
      (by decide) (by decide)).mpr ⟨by decide, hjoined⟩) (by decide)
  have hjoined := ((hshared.source_eq_iff (i := 0) (j := 2)
      (l := { source := 0, target := 3, channel := .main, loss := 2 })
      (m := { source := 0, target := 4, channel := .main, loss := 1 }) (by decide) (by decide)
      (by decide) (by decide)).mp rfl).2
  exact ⟨by decide, ⟨source, hlink, hstrength⟩, hshared.joined.mp hjoined,
    fun h => hapart (hshared.joined.mpr h), congrArg Revision.changes hagain⟩

end Redstone.Optimize
