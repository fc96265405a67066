import Mathlib.Data.List.Induction
import Redstone.Proofs.Circuit.Sessions
import Redstone.Proofs.Optimize.Distinct

/-!
# Upkeep of links

Removing parallel links and clamping losses cannot be seen from any node.  Of every group of parallel
links the one with the least loss is left, and no other link goes; clamped links differ in their
losses only.  In both cases all nodes keep their power, whatever the strengths, and a second run has
nothing to do.

The superfluous links are told from the circuit as a whole.  A search that runs over the inputs of a
node once, and keeps the best link of each group so far, removes the same links.
-/

namespace Redstone.Optimize

open Circuit

variable {g : Circuit} {i j k : LinkId} {l m : Link} {id : NodeId}

/-! ## What is left of parallel links -/

theorem link?_dedupLinks_eq_some_iff (h : g.WellFormed) :
    (dedupLinks g).circuit.link? i = some l ↔ g.link? i = some l ∧ isRedundant g i = false := by
  show (g.removeLinks (redundantLinks g)).link? i = some l ↔ _
  rw [link?_removeLinks]
  simp only [mem_redundantLinks h]
  cases isRedundant g i <;> simp

/-- The link that stays of a group loses the least of the whole group. -/
theorem exists_best (h : g.WellFormed) (hl : g.link? i = some l) :
    ∃ j m, (dedupLinks g).circuit.link? j = some m ∧ areParallel l m = true ∧
      (∀ {k o}, (dedupLinks g).circuit.link? k = some o → areParallel l o = true → k = j) ∧
      ∀ {k o}, g.link? k = some o → areParallel l o = true → m.loss ≤ o.loss := by
  obtain ⟨j, m, hm, hkept, hpar, -⟩ := exists_not_isRedundant h hl
  have hj := (link?_dedupLinks_eq_some_iff h).mpr ⟨hm, hkept⟩
  have hunique {k : LinkId} {o : Link} (ho : (dedupLinks g).circuit.link? k = some o)
      (hpar' : areParallel l o = true) : k = j := by
    have hboth : areParallel o m = true := by
      rw [areParallel_iff] at hpar hpar' ⊢
      grind
    rcases (distinct_dedupLinks h).eq_of_areParallel ho hj hboth with heq | ⟨hfalse, -⟩
    · exact heq
    · cases hfalse
  refine ⟨j, m, hj, hpar, hunique, fun {k o} ho hpar' => ?_⟩
  -- the link that makes up for `o` is the one that stays
  obtain ⟨j', m', hm', hkept', hpar'', hle⟩ := exists_not_isRedundant h ho
  have hj' := (link?_dedupLinks_eq_some_iff h).mpr ⟨hm', hkept'⟩
  have hpar₃ : areParallel l m' = true := by
    rw [areParallel_iff] at hpar' hpar'' ⊢
    grind
  rw [hunique hj' hpar₃, hj] at hj'
  cases hj'
  exact hle

/-- Of every group of parallel links just the best one is left, and nothing else has changed. -/
structure Deduplicated (g : Circuit) (r : Revision) : Prop where
  wellFormed : r.circuit.WellFormed
  best : ∀ {i l}, g.link? i = some l →
    ∃ j m, r.circuit.link? j = some m ∧ areParallel l m = true ∧
      (∀ {k o}, r.circuit.link? k = some o → areParallel l o = true → k = j) ∧
      ∀ {k o}, g.link? k = some o → areParallel l o = true → m.loss ≤ o.loss
  link : ∀ {i l}, r.circuit.link? i = some l → g.link? i = some l
  node : ∀ id, r.circuit.node? id = g.node? id
  inputs : ∀ id, r.circuit.inputs id = (g.inputs id).filter fun i => (r.circuit.link? i).isSome
  outputs : ∀ id, r.circuit.outputs id = (g.outputs id).filter fun i => (r.circuit.link? i).isSome
  changes : r.changes = (g.linkIds.filter fun i => (r.circuit.link? i).isNone).length

theorem isSome_link?_removeLinks {ids : List LinkId} (hlive : ∃ l, g.link? i = some l) :
    ((g.removeLinks ids).link? i).isSome = decide (i ∉ ids) := by
  obtain ⟨l, hl⟩ := hlive
  rw [link?_removeLinks, hl]
  by_cases hmem : i ∈ ids <;> simp [hmem]

theorem deduplicated_dedupLinks (h : g.WellFormed) : Deduplicated g (dedupLinks g) where
  wellFormed := h.removeLinks _
  best := exists_best h
  link := fun hl => ((link?_dedupLinks_eq_some_iff h).mp hl).1
  node := node?_removeLinks _
  inputs := by
    intro id
    show (g.removeLinks (redundantLinks g)).inputs id = _
    rw [(h.lists_removeLinks (redundantLinks g) id).1]
    apply List.filter_congr
    intro i hi
    exact (isSome_link?_removeLinks (h.exists_of_mem_inputs hi)).symm
  outputs := by
    intro id
    show (g.removeLinks (redundantLinks g)).outputs id = _
    rw [(h.lists_removeLinks (redundantLinks g) id).2]
    apply List.filter_congr
    intro i hi
    exact (isSome_link?_removeLinks (h.exists_of_mem_outputs hi)).symm
  changes := by
    apply List.Perm.length_eq
    rw [List.perm_ext_iff_of_nodup (nodup_redundantLinks h) (g.linkIds_nodup.filter _)]
    intro i
    rw [List.mem_filter, mem_linkIds, mem_redundantLinks h]
    constructor
    · intro hred
      obtain ⟨l, -, -, hl, -⟩ := (isRedundant_iff h).mp hred
      refine ⟨⟨l, hl⟩, ?_⟩
      rw [Option.isNone_iff_eq_none, Option.eq_none_iff_forall_ne_some]
      intro m hm
      rw [((link?_dedupLinks_eq_some_iff h).mp hm).2] at hred
      cases hred
    · rintro ⟨⟨l, hl⟩, hgone⟩
      by_contra hkept
      rw [(link?_dedupLinks_eq_some_iff h).mpr ⟨hl, Bool.eq_false_iff.mpr hkept⟩] at hgone
      cases hgone

theorem dedupLinks_dedupLinks (h : g.WellFormed) :
    dedupLinks (dedupLinks g).circuit = .unchanged (dedupLinks g).circuit := by
  have hnone : redundantLinks (dedupLinks g).circuit = [] :=
    List.length_eq_zero_iff.mp (distinct_dedupLinks h).changes_dedupLinks
  rw [dedupLinks, hnone]
  rfl

/-! ## A running search -/

/-- A search among the inputs of a node: the best link so far of each group, and the circuit without
the other ones. -/
structure Contest where
  best : List LinkId
  revision : Revision

namespace Contest

/-- The best link so far of the group to which the link belongs. -/
def rival? (c : Contest) (l : Link) : Option (LinkId × Link) :=
  c.best.findSome? fun j =>
    ((c.revision.circuit.link? j).filter (areParallel l)).map fun m => (j, m)

/-- A link takes part.  It is the first one of its group, or it beats the best one so far, or it is
beaten. -/
def enter (c : Contest) (i : LinkId) : Contest :=
  match c.revision.circuit.link? i with
  | none => c
  | some l =>
      match c.rival? l with
      | none => { c with best := i :: c.best }
      | some (j, m) =>
          if l.loss < m.loss then
            { best := i :: c.best.erase j
              revision := c.revision.andThen fun g => .once (g.removeLink j) }
          else { c with revision := c.revision.andThen fun g => .once (g.removeLink i) }

end Contest

/-- Removes the superfluous inputs of a node in one run over them. -/
def dedupInputs (id : NodeId) (g : Circuit) : Revision :=
  ((g.inputs id).foldl Contest.enter { best := [], revision := .unchanged g }).revision

/-- Removes superfluous links node by node. -/
def dedupRunning (g : Circuit) : Revision :=
  Revision.sweep dedupInputs g.nodeIds g

/-- One link makes another one superfluous. -/
def Beats (g : Circuit) (j i : LinkId) : Prop :=
  ∃ m l, g.link? j = some m ∧ g.link? i = some l ∧ outdoes j m i l = true

theorem isRedundant_iff_beats (h : g.WellFormed) : isRedundant g i = true ↔ ∃ j, Beats g j i := by
  rw [isRedundant_iff h]
  constructor
  · rintro ⟨l, j, m, hl, hm, hout⟩
    exact ⟨j, m, l, hm, hl, hout⟩
  · rintro ⟨j, m, l, hm, hl, hout⟩
    exact ⟨l, j, m, hl, hm, hout⟩

theorem Beats.trans (h : Beats g j i) (h' : Beats g k j) : Beats g k i := by
  obtain ⟨m, l, hm, hl, hout⟩ := h
  obtain ⟨o, m', ho, hm', hout'⟩ := h'
  rw [hm] at hm'
  cases hm'
  refine ⟨o, l, ho, hl, ?_⟩
  rw [outdoes_iff, areParallel_iff] at hout hout' ⊢
  grind

theorem Beats.asymm (h : Beats g j i) : ¬Beats g i j := by
  obtain ⟨m, l, hm, hl, hout⟩ := h
  rintro ⟨l', m', hl', hm', hout'⟩
  rw [hm] at hm'
  rw [hl] at hl'
  cases hm'
  cases hl'
  rw [outdoes_iff] at hout hout'
  grind

/-- The two links are in one group. -/
def Together (g : Circuit) (j k : LinkId) : Prop :=
  ∃ m o, g.link? j = some m ∧ g.link? k = some o ∧ areParallel m o = true

theorem Together.symm (h : Together g j k) : Together g k j := by
  obtain ⟨m, o, hm, ho, hpar⟩ := h
  exact ⟨o, m, ho, hm, areParallel_comm m o ▸ hpar⟩

theorem Beats.together (h : Beats g j i) : Together g j i := by
  obtain ⟨m, l, hm, hl, hout⟩ := h
  exact ⟨m, l, hm, hl, areParallel_comm l m ▸ (outdoes_iff.mp hout).1⟩

/-- Links that are in different groups, with one of yet another group. -/
theorem apart_cons {best : List LinkId} (hnew : ∀ {k}, k ∈ best → ¬Together g i k)
    (hold : ∀ {j k}, j ∈ best → k ∈ best → Together g j k → j = k) {j k : LinkId}
    (hj : j ∈ i :: best) (hk : k ∈ i :: best) (hjk : Together g j k) : j = k := by
  rw [List.mem_cons] at hj hk
  by_cases hji : j = i
  · by_cases hki : k = i
    · rw [hji, hki]
    · exact absurd (hji ▸ hjk) (hnew (hk.resolve_left hki))
  · by_cases hki : k = i
    · exact absurd (hki ▸ hjk).symm (hnew (hj.resolve_left hji))
    · exact hold (hj.resolve_left hji) (hk.resolve_left hki) hjk

namespace Contest

/-- The search has looked at the links `done` and removed the links `losers` from `g`.  Each of them
has been beaten by one of the best links, which are in different groups. -/
structure Stands (g : Circuit) (done losers : List LinkId) (c : Contest) : Prop where
  revision : c.revision = { circuit := g.removeLinks losers, changes := losers.length }
  perm : (losers ++ c.best).Perm done
  beaten : ∀ i ∈ losers, ∃ j ∈ c.best, Beats g j i
  apart : ∀ {j k}, j ∈ c.best → k ∈ c.best → Together g j k → j = k

variable {c : Contest} {done losers : List LinkId}

theorem rival?_eq_none (h : c.rival? l = none) (hj : j ∈ c.best)
    (hm : c.revision.circuit.link? j = some m) : areParallel l m = false := by
  unfold rival? at h
  rw [List.findSome?_eq_none_iff] at h
  have hnone := h j hj
  rw [hm, Option.map_eq_none_iff, Option.filter_eq_none_iff] at hnone
  exact Bool.eq_false_iff.mpr (hnone m rfl)

theorem rival?_eq_some (h : c.rival? l = some (j, m)) :
    j ∈ c.best ∧ c.revision.circuit.link? j = some m ∧ areParallel l m = true := by
  unfold rival? at h
  obtain ⟨k, hk, hsome⟩ := List.exists_of_findSome?_eq_some h
  obtain ⟨o, ho, heq⟩ := Option.map_eq_some_iff.mp hsome
  obtain ⟨ho, hpar⟩ := Option.filter_eq_some_iff.mp ho
  cases heq
  exact ⟨hk, ho, hpar⟩

namespace Stands

theorem mem_done (h : Stands g done losers c) : i ∈ losers ∨ i ∈ c.best ↔ i ∈ done := by
  rw [← h.perm.mem_iff, List.mem_append]

/-- The links that are left are those of the circuit at the start. -/
theorem link?_eq (h : Stands g done losers c) (hi : i ∉ losers) :
    c.revision.circuit.link? i = g.link? i := by
  rw [h.revision]
  show (g.removeLinks losers).link? i = _
  rw [link?_removeLinks, if_neg hi]

/-- One more link is removed. -/
theorem andThen_once (h : Stands g done losers c) (k : LinkId) :
    (c.revision.andThen fun g => .once (g.removeLink k)) =
      { circuit := g.removeLinks (losers ++ [k]), changes := (losers ++ [k]).length } := by
  rw [h.revision]
  simp [Revision.andThen, Revision.once, removeLinks, List.foldl_append]

theorem nodup (h : Stands g done losers c) (hdone : done.Nodup) : (losers ++ c.best).Nodup :=
  h.perm.nodup_iff.mpr hdone

/-- The best links are left as they were. -/
theorem link?_best (h : Stands g done losers c) (hdone : done.Nodup) (hj : j ∈ c.best) :
    c.revision.circuit.link? j = g.link? j :=
  h.link?_eq fun hmem => (List.nodup_append.mp (h.nodup hdone)).2.2 j hmem j hj rfl

/-- With the link that has been looked at, these are all. -/
theorem perm_done (h : Stands g done losers c) {ids : List LinkId}
    (hids : ids.Perm (i :: (losers ++ c.best))) : ids.Perm (done ++ [i]) :=
  (hids.trans (h.perm.cons i)).trans (List.perm_append_singleton i done).symm

/-- The first link of its group is the best one so far. -/
theorem enter_first (h : Stands g done losers c) (hdone : done.Nodup) (hl : g.link? i = some l)
    (hnone : c.rival? l = none) : Stands g (done ++ [i]) losers { c with best := i :: c.best } := by
  have hfirst {k : LinkId} (hk : k ∈ c.best) : ¬Together g i k := by
    rintro ⟨l', o, hl', ho, hpar⟩
    cases hl.symm.trans hl'
    rw [rival?_eq_none hnone hk ((h.link?_best hdone hk).trans ho)] at hpar
    cases hpar
  refine ⟨h.revision, h.perm_done List.perm_middle, fun k hk => ?_, apart_cons hfirst h.apart⟩
  obtain ⟨j, hj, hbeats⟩ := h.beaten k hk
  exact ⟨j, List.mem_cons_of_mem _ hj, hbeats⟩

/-- The best link of the group so far is beaten, and whatever it has beaten is. -/
theorem enter_better (h : Stands g done losers c) (hdone : done.Nodup) (hl : g.link? i = some l)
    (hj : j ∈ c.best) (hm : g.link? j = some m) (hpar : areParallel l m = true)
    (hless : l.loss < m.loss) :
    Stands g (done ++ [i]) (losers ++ [j])
      { best := i :: c.best.erase j
        revision := c.revision.andThen fun g => .once (g.removeLink j) } := by
  have hbeats : Beats g i j :=
    ⟨l, m, hl, hm, outdoes_iff.mpr ⟨areParallel_comm l m ▸ hpar, .inl hless⟩⟩
  have hbestNodup := (List.nodup_append.mp (h.nodup hdone)).2.1
  -- the other best links are not in the group of the beaten one, which is that of the new one
  have hgroup {k : LinkId} (hk : k ∈ c.best.erase j) : ¬Together g i k := by
    rintro ⟨l', o, hl', ho, hpar'⟩
    cases hl.symm.trans hl'
    obtain ⟨hkj, hk⟩ := hbestNodup.mem_erase_iff.mp hk
    refine hkj (h.apart hk hj ⟨o, m, ho, hm, ?_⟩)
    rw [areParallel_iff] at hpar hpar' ⊢
    grind
  have hold {a b : LinkId} (ha : a ∈ c.best.erase j) (hb : b ∈ c.best.erase j)
      (hab : Together g a b) : a = b :=
    h.apart (List.mem_of_mem_erase ha) (List.mem_of_mem_erase hb) hab
  refine ⟨h.andThen_once j, h.perm_done ?_, fun k hk => ?_, apart_cons hgroup hold⟩
  · have herase : (losers ++ [j] ++ c.best.erase j).Perm (losers ++ c.best) := by
      rw [List.append_assoc]
      exact (List.perm_cons_erase hj).symm.append_left losers
    exact List.perm_middle.trans (herase.cons i)
  · rcases List.mem_append.mp hk with hk | hk
    · obtain ⟨b, hb, hbk⟩ := h.beaten k hk
      by_cases hbj : b = j
      · subst hbj
        exact ⟨i, List.mem_cons_self, hbk.trans hbeats⟩
      · exact ⟨b, List.mem_cons_of_mem _ ((List.mem_erase_of_ne hbj).mpr hb), hbk⟩
    · rw [List.mem_singleton.mp hk]
      exact ⟨i, List.mem_cons_self, hbeats⟩

/-- The best link of the group so far beats a younger one that loses as much or more. -/
theorem enter_worse (h : Stands g done losers c) (hbeats : Beats g j i) (hj : j ∈ c.best) :
    Stands g (done ++ [i]) (losers ++ [i])
      { c with revision := c.revision.andThen fun g => .once (g.removeLink i) } := by
  refine ⟨h.andThen_once i, h.perm_done (by simp), fun k hk => ?_, h.apart⟩
  rcases List.mem_append.mp hk with hk | hk
  · exact h.beaten k hk
  · rw [List.mem_singleton.mp hk]
    exact ⟨j, hj, hbeats⟩

/-- What one link does to the search, if it is younger than those before. -/
theorem enter (h : Stands g done losers c) (hdone : done.Nodup) (hlater : ∀ j ∈ done, j < i)
    (hl : g.link? i = some l) :
    ∃ losers', Stands g (done ++ [i]) losers' (c.enter i) := by
  have hfree : i ∉ losers := fun hmem =>
    Nat.lt_irrefl i (hlater i (h.mem_done.mp (.inl hmem)))
  unfold Contest.enter
  rw [(h.link?_eq hfree).trans hl]
  dsimp only
  split
  case h_1 hnone => exact ⟨losers, h.enter_first hdone hl hnone⟩
  case h_2 j m hrival =>
    obtain ⟨hj, hm, hpar⟩ := rival?_eq_some hrival
    rw [h.link?_best hdone hj] at hm
    split
    case isTrue hless => exact ⟨losers ++ [j], h.enter_better hdone hl hj hm hpar hless⟩
    case isFalse hless =>
      have hji := hlater j (h.mem_done.mp (.inr hj))
      have hbeats : Beats g j i := by
        refine ⟨m, l, hm, hl, outdoes_iff.mpr ⟨hpar, ?_⟩⟩
        grind
      exact ⟨losers ++ [i], h.enter_worse hbeats hj⟩

/-- The search over the rest of the links. -/
theorem foldl_enter (h : Stands g done losers c) (rest : List LinkId)
    (hage : (done ++ rest).Pairwise (· < ·)) (hlive : ∀ i ∈ rest, ∃ l, g.link? i = some l) :
    ∃ losers', Stands g (done ++ rest) losers' (rest.foldl Contest.enter c) := by
  induction rest generalizing done losers c with
  | nil => exact ⟨losers, by simpa using h⟩
  | cons i rest ih =>
      obtain ⟨hdone, -, hlater⟩ := List.pairwise_append.mp hage
      obtain ⟨l, hl⟩ := hlive i List.mem_cons_self
      obtain ⟨losers', hstep⟩ := h.enter (hdone.imp Nat.ne_of_lt)
        (fun j hj => hlater j hj i List.mem_cons_self) hl
      have hrest := ih hstep (by simpa using hage)
        fun j hj => hlive j (List.mem_cons_of_mem _ hj)
      simpa using hrest

/-- At the end the losers are the superfluous links. -/
theorem mem_losers_iff (h : Stands g (g.inputs id) losers c) (hwf : g.WellFormed) :
    i ∈ losers ↔ i ∈ g.inputs id ∧ isRedundant g i = true := by
  constructor
  · intro hi
    obtain ⟨j, -, hbeats⟩ := h.beaten i hi
    exact ⟨h.mem_done.mp (.inl hi), (isRedundant_iff_beats hwf).mpr ⟨j, hbeats⟩⟩
  · rintro ⟨hi, hred⟩
    obtain ⟨j, hbeats⟩ := (isRedundant_iff_beats hwf).mp hred
    rcases h.mem_done.mpr hi with hlost | hbest
    · exact hlost
    · -- one of the best links would beat another one
      have hwinner : ∃ b ∈ c.best, Beats g b i := by
        have hj : j ∈ g.inputs id := by
          obtain ⟨m, l, hm, hl, hout⟩ := hbeats
          rw [← hwf.target_eq hl hi, (areParallel_iff.mp (outdoes_iff.mp hout).1).2.1]
          exact hwf.mem_inputs hm
        rcases h.mem_done.mpr hj with hlost | hbest
        · obtain ⟨b, hb, hbj⟩ := h.beaten j hlost
          exact ⟨b, hb, hbeats.trans hbj⟩
        · exact ⟨j, hbest, hbeats⟩
      obtain ⟨b, hb, hbi⟩ := hwinner
      cases h.apart hb hbest hbi.together
      exact absurd hbi hbi.asymm

end Stands

end Contest

/-- Links into a node are listed from the oldest to the youngest. -/
def ListedByAge (g : Circuit) : Prop :=
  ∀ id, (g.inputs id).Pairwise (· < ·)

/-- The search at one node removes its superfluous links, in some order. -/
theorem exists_dedupInputs_eq (h : g.WellFormed) (hage : (g.inputs id).Pairwise (· < ·)) :
    ∃ losers : List LinkId, losers.Perm ((g.inputs id).filter (isRedundant g)) ∧
      dedupInputs id g = { circuit := g.removeLinks losers, changes := losers.length } := by
  have hstart : Contest.Stands g [] [] { best := [], revision := .unchanged g } :=
    ⟨rfl, .refl _, nofun, nofun⟩
  obtain ⟨losers, hend⟩ := hstart.foldl_enter (g.inputs id) hage fun i hi =>
    h.exists_of_mem_inputs hi
  rw [List.nil_append] at hend
  refine ⟨losers, ?_, hend.revision⟩
  have hnodup := (hend.perm.nodup_iff.mpr (h.inputs_nodup id)).of_append_left
  rw [List.perm_ext_iff_of_nodup hnodup ((h.inputs_nodup id).filter _)]
  intro i
  rw [hend.mem_losers_iff h, List.mem_filter]

/-- Which inputs of a node are superfluous does not depend on the links into other nodes. -/
theorem isRedundant_removeLinks (h : g.WellFormed) {ids : List LinkId}
    (hfree : ∀ i ∈ g.inputs id, i ∉ ids) (hi : i ∈ g.inputs id) :
    isRedundant (g.removeLinks ids) i = isRedundant g i := by
  have hsame {k : LinkId} (hk : k ∈ g.inputs id) : (g.removeLinks ids).link? k = g.link? k := by
    rw [link?_removeLinks, if_neg (hfree k hk)]
  obtain ⟨l, hl, htarget⟩ := h.mem_inputs_iff.mp hi
  rw [Bool.eq_iff_iff, isRedundant_iff (h.removeLinks ids), isRedundant_iff h, hsame hi]
  constructor
  · rintro ⟨l', j, m, hl', hm, hout⟩
    rw [link?_removeLinks] at hm
    split at hm
    · cases hm
    · exact ⟨l', j, m, hl', hm, hout⟩
  · rintro ⟨l', j, m, hl', hm, hout⟩
    rw [hl] at hl'
    cases hl'
    refine ⟨l, j, m, hl, ?_, hout⟩
    have hj : j ∈ g.inputs id := by
      rw [← htarget, (areParallel_iff.mp (outdoes_iff.mp hout).1).2.1]
      exact h.mem_inputs hm
    rw [hsame hj, hm]

theorem exists_sweep_dedupInputs_eq (h : g.WellFormed) (hage : ListedByAge g)
    {order : List NodeId} (hnodup : order.Nodup) :
    ∃ losers : List LinkId,
      losers.Perm (order.flatMap fun id => (g.inputs id).filter (isRedundant g)) ∧
      Revision.sweep dedupInputs order g =
        { circuit := g.removeLinks losers, changes := losers.length } := by
  induction order using List.reverseRecOn with
  | nil => exact ⟨[], .refl _, rfl⟩
  | append_singleton order id ih =>
      obtain ⟨horder, -, hlast⟩ := List.nodup_append.mp hnodup
      obtain ⟨losers, hperm, hsweep⟩ := ih horder
      -- so far only links into other nodes have been removed
      have hfree : ∀ i ∈ g.inputs id, i ∉ losers := by
        intro i hi hlost
        obtain ⟨j, hj, hmem⟩ := List.mem_flatMap.mp (hperm.mem_iff.mp hlost)
        obtain ⟨l, hl, htarget⟩ := h.mem_inputs_iff.mp hi
        have htarget' := h.target_eq hl (List.mem_filter.mp hmem).1
        exact hlast j hj id (by simp) (htarget'.symm.trans htarget)
      have hinputs : (g.removeLinks losers).inputs id = g.inputs id := by
        rw [(h.lists_removeLinks losers id).1, List.filter_eq_self]
        simpa using hfree
      obtain ⟨losers', hperm', hstep⟩ :=
        exists_dedupInputs_eq (h.removeLinks losers) (hinputs.symm ▸ hage id)
      have hfilter : ((g.removeLinks losers).inputs id).filter (isRedundant (g.removeLinks losers)) =
          (g.inputs id).filter (isRedundant g) := by
        rw [hinputs]
        exact List.filter_congr fun i hi => isRedundant_removeLinks h hfree hi
      rw [hfilter] at hperm'
      refine ⟨losers ++ losers', ?_, ?_⟩
      · rw [List.flatMap_append, List.flatMap_singleton]
        exact hperm.append hperm'
      · have htwice : (g.removeLinks losers).removeLinks losers' = g.removeLinks (losers ++ losers') :=
          (List.foldl_append ..).symm
        rw [htwice] at hstep
        rw [Revision.sweep_append, hsweep]
        simp [Revision.andThen, Revision.sweep, Revision.unchanged, hstep]

/-- The running search and the removal of all superfluous links are the same revision, up to the
order in which links are struck from the lists. -/
theorem dedupRunning_agrees (h : g.WellFormed) (hage : ListedByAge g) :
    (dedupRunning g).changes = (dedupLinks g).changes ∧
      ∀ i, (dedupRunning g).circuit.link? i = (dedupLinks g).circuit.link? i := by
  obtain ⟨losers, hperm, hsweep⟩ := exists_sweep_dedupInputs_eq h hage g.nodeIds_nodup
  have hlosers : losers.Perm (redundantLinks g) := hperm
  rw [dedupRunning, hsweep]
  refine ⟨hlosers.length_eq, fun i => ?_⟩
  show (g.removeLinks losers).link? i = (g.removeLinks (redundantLinks g)).link? i
  rw [link?_removeLinks, link?_removeLinks]
  simp only [hlosers.mem_iff]

/-! ## Clamped losses -/

/-- Losses are cut off at the greatest strength, and nothing else has changed. -/
structure Clamped (g : Circuit) (r : Revision) : Prop where
  link : ∀ i, r.circuit.link? i = (g.link? i).map fun l => { l with loss := min l.loss maxStrength }
  loss_le : ∀ {i l}, r.circuit.link? i = some l → l.loss ≤ maxStrength
  slots : r.circuit.slots = g.slots
  linkBound : r.circuit.linkBound = g.linkBound
  nodeCount : r.circuit.nodeCount = g.nodeCount
  linkCount : r.circuit.linkCount = g.linkCount

theorem clampLink_loss_le (l : Link) : (clampLink l).loss ≤ maxStrength := by
  show (if l.loss ≤ maxStrength then l.loss else maxStrength) ≤ maxStrength
  split
  · assumption
  · exact UInt8.le_refl _

theorem clampLink_eq_self (h : l.loss ≤ maxStrength) : clampLink l = l := by
  have hmin : min l.loss maxStrength = l.loss := by
    show (if l.loss ≤ maxStrength then l.loss else maxStrength) = l.loss
    rw [if_pos h]
  rw [clampLink, hmin]

theorem clamped_clampLosses (g : Circuit) : Clamped g (clampLosses g) where
  link := link?_clampLosses g
  loss_le := by
    intro i l hl
    rw [link?_clampLosses, Option.map_eq_some_iff] at hl
    obtain ⟨m, -, rfl⟩ := hl
    exact clampLink_loss_le m
  slots := rfl
  linkBound := by simp [clampLosses, linkBound]
  nodeCount := rfl
  linkCount := rfl

/-- Where no loss is beyond the greatest strength, there is nothing to clamp. -/
theorem clampLosses_of_le (h : ∀ {i l}, g.link? i = some l → l.loss ≤ maxStrength) :
    clampLosses g = .unchanged g := by
  have hlinks : g.links.map (Option.map clampLink) = g.links := by
    apply Array.ext_getElem?
    intro i
    rw [Array.getElem?_map]
    match hi : g.links[i]? with
    | none => rfl
    | some none => rfl
    | some (some l) =>
        have hl : g.link? i = some l := by rw [link?, hi]; rfl
        simp [clampLink_eq_self (h hl)]
  have hnone : (g.linkIds.filterMap g.link?).filter exceedsMax = [] := by
    rw [List.filter_eq_nil_iff]
    intro l hl
    obtain ⟨i, -, hi⟩ := List.mem_filterMap.mp hl
    have hle := h hi
    simp only [exceedsMax, decide_eq_true_eq]
    grind
  rw [clampLosses, hlinks, hnone]
  rfl

/-! ## Both -/

/-- Removing parallel links and clamping losses is invisible.  Of each group of parallel links just
the best one is left, losses are cut off, and nothing else changes; all nodes keep their power under
all strengths, or under all strengths of signals; a second run changes nothing.  Where inputs are
listed by age, a running search removes the same links. -/
theorem upkeep_is_invisible (g : Circuit) (h : g.WellFormed) :
    (Deduplicated g (dedupLinks g) ∧
      (∀ σ id, (dedupLinks g).circuit.powerUnder σ id = g.powerUnder σ id) ∧
      dedupLinks (dedupLinks g).circuit = .unchanged (dedupLinks g).circuit ∧
      (ListedByAge g → (dedupRunning g).changes = (dedupLinks g).changes ∧
        ∀ i, (dedupRunning g).circuit.link? i = (dedupLinks g).circuit.link? i)) ∧
    Clamped g (clampLosses g) ∧
      (∀ σ : NodeId → UInt8, (∀ id, σ id ≤ maxStrength) → ∀ id,
        (clampLosses g).circuit.powerUnder σ id = g.powerUnder σ id) ∧
      clampLosses (clampLosses g).circuit = .unchanged (clampLosses g).circuit := by
  refine ⟨⟨deduplicated_dedupLinks h, powerUnder_dedupLinks h, dedupLinks_dedupLinks h,
    dedupRunning_agrees h⟩, clamped_clampLosses g, fun σ hσ id => ?_, ?_⟩
  · exact powerUnder_clampLosses h fun _ l _ _ => hσ l.source
  · exact clampLosses_of_le (clamped_clampLosses g).loss_le

/-- Six links between a lever and a comparator, on both channels, and one from the comparator to
itself. -/
def tangle : Circuit :=
  let nodes := Circuit.empty.addNodes
    [{ gate := .plain .lever, isInput := true }, { gate := .comparator .compare false }]
  ((((((nodes.addLink { source := 0, target := 1, channel := .main, loss := 5 }).addLink
    { source := 0, target := 1, channel := .side, loss := 40 }).addLink
    { source := 0, target := 1, channel := .main, loss := 2 }).addLink
    { source := 1, target := 1, channel := .main, loss := 2 }).addLink
    { source := 0, target := 1, channel := .main, loss := 9 }).addLink
    { source := 0, target := 1, channel := .side, loss := 40 }).addLink
    { source := 0, target := 1, channel := .main, loss := 2 }

/-- Of the links from the lever one is left on each channel: the older one where two lose the
same. -/
theorem upkeep_is_invisible_tangle :
    tangle.WellFormed ∧ ListedByAge tangle ∧
      (dedupLinks tangle).circuit.linkIds = [1, 2, 3] ∧
      ((dedupRunning tangle).changes = 4 ∧ (dedupRunning tangle).circuit.link? 2 =
        some { source := 0, target := 1, channel := .main, loss := 2 }) ∧
      ((clampLosses tangle).circuit.link? 1).map Link.loss = some 15 ∧
      (∀ σ id, (dedupLinks tangle).circuit.powerUnder σ id = tangle.powerUnder σ id) ∧
      (clampLosses (clampLosses tangle).circuit).changes = 0 := by
  have hwf : tangle.WellFormed :=
    (((((((WellFormed.empty.addNodes _).addLink _).addLink _).addLink _).addLink _).addLink
      _).addLink _).addLink _
  have hage : ListedByAge tangle := by
    intro id
    match id with
    | 0 => decide
    | 1 => decide
    | _ + 2 => exact .nil
  obtain ⟨⟨-, hpower, -, hrunning⟩, hclamped, -, hagain⟩ := upkeep_is_invisible tangle hwf
  obtain ⟨hchanges, hlink⟩ := hrunning hage
  refine ⟨hwf, hage, by decide, ⟨hchanges.trans (by decide), (hlink 2).trans (by decide)⟩, ?_,
    hpower, congrArg Revision.changes hagain⟩
  rw [hclamped.link]
  decide

end Redstone.Optimize
