import Mathlib.Logic.Relation
import Redstone.Proofs.Circuit.Gates

/-!
# Circuits without loops

When no signal can get back to where it has come from, every node can be given a rank that grows
along the links.  Ranks are easier to carry through a change of the circuit than the absence of
loops: a new node is given a rank between those of its neighbours.
-/

namespace Redstone

/-! ## Relations without loops -/

section Upstream

variable {α : Type} {r : α → α → Prop} {s : Finset α} {a b : α}

/-- Steps that lead up the ranks do not lead back. -/
theorem not_transGen_self (rank : α → Nat) (h : ∀ a b, r a b → rank a < rank b) (a : α) :
    ¬ Relation.TransGen r a a := by
  have hlt {a b : α} (hpath : Relation.TransGen r a b) : rank a < rank b := by
    induction hpath with
    | single hstep => exact h _ _ hstep
    | tail _ hstep ih => exact Nat.lt_trans ih (h _ _ hstep)
  intro hpath
  exact Nat.lt_irrefl _ (hlt hpath)

open Classical in
/-- The members of `s` from which steps lead to `a`. -/
noncomputable def upstreamIn (s : Finset α) (r : α → α → Prop) (a : α) : Finset α :=
  s.filter fun b => Relation.TransGen r b a

theorem mem_upstreamIn : b ∈ upstreamIn s r a ↔ b ∈ s ∧ Relation.TransGen r b a := by
  classical
  rw [upstreamIn, Finset.mem_filter]

/-- Without loops, more members are upstream of the end of a step than of its start. -/
theorem card_upstreamIn_lt (hloops : ∀ a, ¬ Relation.TransGen r a a) (hb : b ∈ s) (hstep : r b a) :
    (upstreamIn s r b).card < (upstreamIn s r a).card := by
  apply Finset.card_lt_card
  rw [Finset.ssubset_iff_of_subset]
  · exact ⟨b, mem_upstreamIn.mpr ⟨hb, .single hstep⟩, fun hmem => hloops b (mem_upstreamIn.mp hmem).2⟩
  · intro c hc
    obtain ⟨hmem, hpath⟩ := mem_upstreamIn.mp hc
    exact mem_upstreamIn.mpr ⟨hmem, .tail hpath hstep⟩

/-- Without loops, no member has all others and itself upstream. -/
theorem card_upstreamIn_lt_card (hloops : ∀ a, ¬ Relation.TransGen r a a) (ha : a ∈ s) :
    (upstreamIn s r a).card < s.card := by
  apply Finset.card_lt_card
  rw [Finset.ssubset_iff_of_subset]
  · exact ⟨a, ha, fun hmem => hloops a (mem_upstreamIn.mp hmem).2⟩
  · intro c hc
    exact (mem_upstreamIn.mp hc).1

end Upstream

namespace Circuit

variable {g g' : Circuit} {rank : NodeId → Nat}

/-! ## Circuits -/

/-- A link leads from the first node to the second. -/
def Feeds (g : Circuit) (source target : NodeId) : Prop :=
  ∃ i l, g.link? i = some l ∧ l.source = source ∧ l.target = target

/-- No node feeds itself, directly or through others. -/
def Acyclic (g : Circuit) : Prop :=
  ∀ id, ¬ Relation.TransGen g.Feeds id id

/-- A circuit whose links lead up the ranks is acyclic. -/
theorem acyclic_of_rank (rank : NodeId → Nat)
    (h : ∀ i l, g.link? i = some l → rank l.source < rank l.target) :
    g.Acyclic := by
  apply not_transGen_self rank
  intro source target ⟨i, l, hl, hsource, htarget⟩
  rw [← hsource, ← htarget]
  exact h i l hl

open Classical in
/-- The nodes that feed a node, directly or through others. -/
noncomputable def upstream (g : Circuit) (id : NodeId) : Finset NodeId :=
  g.nodeIds.toFinset.filter fun source => Relation.TransGen g.Feeds source id

/-- In an acyclic circuit more nodes are upstream of the end of a link than of its start. -/
theorem Acyclic.card_upstream_lt (h : g.Acyclic) (hwf : g.WellFormed) {i : LinkId} {l : Link}
    (hl : g.link? i = some l) : (g.upstream l.source).card < (g.upstream l.target).card := by
  have hmem : l.source ∈ g.nodeIds.toFinset :=
    List.mem_toFinset.mpr (mem_nodeIds.mpr (hwf.contains_source hl))
  exact card_upstreamIn_lt h hmem ⟨i, l, hl, rfl, rfl⟩

/-- All links lead up the ranks, and they start at constants and at gates that can be folded. -/
structure Cascade (g : Circuit) (rank : NodeId → Nat) : Prop where
  climbs : ∀ {i l}, g.link? i = some l → rank l.source < rank l.target
  driven : ∀ {i l n}, g.link? i = some l → g.node? l.source = some n →
    n.gate.isFoldable = true ∨ n.gate.isConstant = true

theorem Acyclic.cascade (h : g.Acyclic) (hwf : g.WellFormed)
    (hdriven : ∀ {i l n}, g.link? i = some l → g.node? l.source = some n →
      n.gate.isFoldable = true ∨ n.gate.isConstant = true) :
    g.Cascade fun id => (g.upstream id).card :=
  ⟨h.card_upstream_lt hwf, hdriven⟩

/-- Links may go or change their losses, and foldable gates may become constants. -/
theorem Cascade.of_feeds (h : g.Cascade rank) (hgates : GatesWithin g g')
    (hfeeds : ∀ {i l}, g'.link? i = some l → g.Feeds l.source l.target) : g'.Cascade rank where
  climbs := by
    intro i l hl
    obtain ⟨j, m, hm, hsource, htarget⟩ := hfeeds hl
    rw [← hsource, ← htarget]
    exact h.climbs hm
  driven := by
    intro i l n' hl hn'
    rcases hgates _ n' hn' with hconst | ⟨n, hn, hgate⟩
    · rw [hconst]
      exact .inr rfl
    · obtain ⟨j, m, hm, hsource, -⟩ := hfeeds hl
      rw [← hsource] at hn
      rw [hgate]
      exact h.driven hm hn

theorem Cascade.removeLinks (h : g.Cascade rank) (ids : List LinkId) :
    (g.removeLinks ids).Cascade rank := by
  refine h.of_feeds ((GatesWithin.refl g).removeLinks ids) fun {i l} hl => ?_
  rw [link?_removeLinks] at hl
  split at hl
  · cases hl
  · exact ⟨i, l, hl, rfl, rfl⟩

end Circuit

end Redstone
