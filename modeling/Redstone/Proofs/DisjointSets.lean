import Mathlib.Data.Finset.Card
import Mathlib.Logic.Relation
import Redstone.DisjointSets

/-!
# Disjoint sets

A forest of parent pointers is described by the root that it leads each element to.  Shortening a
path changes the forest but not the roots; a union sends the elements of one root to another one.
Ranks rise on the way to a root, so that no way is longer than there are elements, and the climb
does not run out of steps.

The classes of a forest that comes about by unions are those of the equivalence that the joined
pairs generate.
-/

namespace Redstone.DisjointSets

variable {s : DisjointSets} {ρ : Nat → Nat} {x : Nat}

theorem getD_setIfInBounds {a : Array Nat} {i : Nat} (hi : i < a.size) (j v d : Nat) :
    (a.setIfInBounds i v).getD j d = if i = j then v else a.getD j d := by
  rw [Array.getD_eq_getD_getElem?, Array.getElem?_setIfInBounds, Array.getD_eq_getD_getElem?]
  by_cases hij : i = j
  · rw [if_pos hij, if_pos hij, if_pos hi, Option.getD_some]
  · rw [if_neg hij, if_neg hij]

/-- Only the elements below the bound have other parents than themselves. -/
theorem lt_size (hx : s.parentOf x ≠ x) : x < s.size := by
  by_contra hle
  apply hx
  unfold parentOf
  rw [Array.getD_eq_getD_getElem?, Array.getElem?_eq_none (Nat.le_of_not_lt hle), Option.getD_none]

@[simp] theorem size_hang (x below : Nat) : (s.hang x below).size = s.size :=
  Array.size_setIfInBounds

theorem parentOf_hang (hx : x < s.size) (below y : Nat) :
    (s.hang x below).parentOf y = if x = y then below else s.parentOf y :=
  getD_setIfInBounds hx y below y

@[simp] theorem size_promote (x : Nat) : (s.promote x).size = s.size := rfl

@[simp] theorem parentOf_promote (x y : Nat) : (s.promote x).parentOf y = s.parentOf y := rfl

theorem rankOf_promote (hx : x < s.rank.size) (y : Nat) :
    (s.promote x).rankOf y = if x = y then s.rankOf x + 1 else s.rankOf y :=
  getD_setIfInBounds hx y _ 0

@[simp] theorem size_climb (fuel : Nat) (s : DisjointSets) (x : Nat) :
    (climb fuel s x).2.size = s.size := by
  induction fuel generalizing s x with
  | zero => rfl
  | succ fuel ih =>
      unfold climb
      split
      · rfl
      · exact (ih _ _).trans (size_hang _ _)

@[simp] theorem size_find (s : DisjointSets) (x : Nat) : (s.find x).2.size = s.size :=
  size_climb _ _ _

@[simp] theorem size_joinRoots (s : DisjointSets) (a b : Nat) :
    (s.joinRoots a b).size = s.size := by
  unfold joinRoots
  split
  · rfl
  split
  · exact size_hang a b
  split
  · exact size_hang b a
  · exact size_hang b a

@[simp] theorem size_union (s : DisjointSets) (a b : Nat) : (s.union a b).size = s.size := by
  simp [union]

/-- The parent pointers form a forest in which the root of `x` is `ρ x`. -/
structure Forest (s : DisjointSets) (ρ : Nat → Nat) : Prop where
  size_rank : s.rank.size = s.size
  parent_lt : ∀ {x}, x < s.size → s.parentOf x < s.size
  rank_lt : ∀ {x}, s.parentOf x ≠ x → s.rankOf x < s.rankOf (s.parentOf x)
  self : ∀ {x}, s.parentOf x = x → ρ x = x
  parent : ∀ x, ρ (s.parentOf x) = ρ x

/-- The number of elements of a higher rank. -/
def higher (s : DisjointSets) (x : Nat) : Nat :=
  ((Finset.range s.size).filter fun y => s.rankOf x < s.rankOf y).card

theorem higher_le_size (s : DisjointSets) (x : Nat) : s.higher x ≤ s.size := by
  unfold higher
  exact (Finset.card_filter_le _ _).trans (Finset.card_range _).le

theorem higher_lt_higher {y : Nat} (hy : y < s.size) (h : s.rankOf x < s.rankOf y) :
    s.higher y < s.higher x := by
  unfold higher
  apply Finset.card_lt_card
  refine ⟨fun z hz => ?_, fun hsub => ?_⟩
  · rw [Finset.mem_filter] at hz ⊢
    exact ⟨hz.1, h.trans hz.2⟩
  · -- `y` itself is higher than `x`
    have hmem := hsub (Finset.mem_filter.mpr ⟨Finset.mem_range.mpr hy, h⟩)
    exact Nat.lt_irrefl _ (Finset.mem_filter.mp hmem).2

namespace Forest

theorem discrete (n : Nat) : Forest (discrete n) id := by
  have hparent (x : Nat) : (DisjointSets.discrete n).parentOf x = x := by
    unfold DisjointSets.discrete parentOf
    rw [Array.getD_eq_getD_getElem?, Array.getElem?_range]
    split <;> rfl
  exact {
    size_rank := by simp [DisjointSets.discrete, size]
    parent_lt := fun {x} hx => (hparent x).symm ▸ hx
    rank_lt := fun {x} hx => absurd (hparent x) hx
    self := fun _ => rfl
    parent := hparent }

theorem rank_le (h : Forest s ρ) (x : Nat) : s.rankOf x ≤ s.rankOf (s.parentOf x) := by
  by_cases hx : s.parentOf x = x
  · rw [hx]
  · exact (h.rank_lt hx).le

theorem higher_parent_lt (h : Forest s ρ) (hx : s.parentOf x ≠ x) :
    s.higher (s.parentOf x) < s.higher x :=
  higher_lt_higher (h.parent_lt (lt_size hx)) (h.rank_lt hx)

/-- What holds of the roots, and of an element if it holds of the parent, holds everywhere. -/
theorem climbing (h : Forest s ρ) {P : Nat → Prop} (root : ∀ x, s.parentOf x = x → P x)
    (step : ∀ x, s.parentOf x ≠ x → P (s.parentOf x) → P x) (x : Nat) : P x := by
  induction hk : s.higher x using Nat.strong_induction_on generalizing x with
  | h k ih =>
      by_cases hx : s.parentOf x = x
      · exact root x hx
      · exact step x hx (ih _ (hk ▸ h.higher_parent_lt hx) _ rfl)

theorem parentOf_root (h : Forest s ρ) (x : Nat) : s.parentOf (ρ x) = ρ x := by
  refine h.climbing (P := fun x => s.parentOf (ρ x) = ρ x) (fun x hx => ?_) (fun x _ ih => ?_) x
  · rw [h.self hx, hx]
  · rw [h.parent x] at ih
    exact ih

theorem root_lt (h : Forest s ρ) : x < s.size → ρ x < s.size := by
  refine h.climbing (P := fun x => x < s.size → ρ x < s.size) (fun x hx => ?_)
    (fun x _ ih hlt => ?_) x
  · rw [h.self hx]
    exact id
  · rw [← h.parent x]
    exact ih (h.parent_lt hlt)

/-- An element is hung below another one of a higher rank.  Labels that follow the other parents
follow the new one, if they give the two elements the same root. -/
theorem hang (h : Forest s ρ) {below : Nat} (hx : x < s.size) (hbelow : below < s.size)
    (hrank : s.rankOf x < s.rankOf below) {ρ' : Nat → Nat}
    (hself : ∀ {y}, y ≠ x → s.parentOf y = y → ρ' y = y)
    (hparent : ∀ {y}, y ≠ x → ρ' (s.parentOf y) = ρ' y) (hlabel : ρ' below = ρ' x) :
    Forest (s.hang x below) ρ' := by
  have hnode (y : Nat) : y = x ∧ (s.hang x below).parentOf y = below ∨
      y ≠ x ∧ (s.hang x below).parentOf y = s.parentOf y := by
    rw [parentOf_hang hx]
    by_cases hy : y = x
    · exact .inl ⟨hy, if_pos hy.symm⟩
    · exact .inr ⟨hy, if_neg (Ne.symm hy)⟩
  refine ⟨h.size_rank.trans (size_hang _ _).symm, ?_, ?_, ?_, ?_⟩
  all_goals intro y
  all_goals obtain ⟨rfl, hnew⟩ | ⟨hy, hold⟩ := hnode y
  · rw [hnew, size_hang]
    exact fun _ => hbelow
  · rw [hold, size_hang]
    exact h.parent_lt
  · rw [hnew]
    exact fun _ => hrank
  · rw [hold]
    exact h.rank_lt
  · rw [hnew]
    rintro rfl
    exact absurd hrank (Nat.lt_irrefl _)
  · rw [hold]
    exact hself hy
  · rw [hnew, hlabel]
  · rw [hold, hparent hy]

/-! ## Finding roots -/

theorem rank_lt_grandparent (h : Forest s ρ) (hx : s.parentOf x ≠ x) :
    s.rankOf x < s.rankOf (s.parentOf (s.parentOf x)) :=
  (h.rank_lt hx).trans_le (h.rank_le _)

/-- Skipping the parent shortens the way to the same root. -/
theorem halve (h : Forest s ρ) (hx : s.parentOf x ≠ x) :
    Forest (s.hang x (s.parentOf (s.parentOf x))) ρ := by
  have hlt := lt_size hx
  refine h.hang hlt (h.parent_lt (h.parent_lt hlt)) (h.rank_lt_grandparent hx) (fun _ => h.self)
    (fun _ => h.parent _) ?_
  rw [h.parent, h.parent]

/-- With as many steps as there are elements of a higher rank, the climb comes to the root. -/
theorem climb (h : Forest s ρ) {fuel : Nat} (hfuel : s.higher x ≤ fuel) :
    (climb fuel s x).1 = ρ x ∧ Forest (climb fuel s x).2 ρ := by
  -- each step leaves fewer elements of a higher rank, so that none is left without steps
  induction fuel generalizing s x with
  | zero =>
      have hroot : s.parentOf x = x := by
        by_contra hx
        exact Nat.not_lt_zero _ ((h.higher_parent_lt hx).trans_le hfuel)
      exact ⟨(h.self hroot).symm, h⟩
  | succ fuel ih =>
      unfold DisjointSets.climb
      split
      case isTrue hroot => exact ⟨(h.self hroot).symm, h⟩
      case isFalse hx =>
        have hhigher := higher_lt_higher (h.parent_lt (h.parent_lt (lt_size hx)))
          (h.rank_lt_grandparent hx)
        -- hanging an element elsewhere changes no rank
        have hsame (y : Nat) : (s.hang x (s.parentOf (s.parentOf x))).higher y = s.higher y := by
          unfold higher
          rw [size_hang]
          rfl
        obtain ⟨hroot, hforest⟩ := ih (h.halve hx) (x := s.parentOf (s.parentOf x))
          (hsame _ ▸ Nat.le_of_lt_succ (hhigher.trans_le hfuel))
        refine ⟨hroot.trans ?_, hforest⟩
        rw [h.parent, h.parent]

theorem find (h : Forest s ρ) (x : Nat) : (s.find x).1 = ρ x ∧ Forest (s.find x).2 ρ :=
  h.climb (s.higher_le_size x)

/-! ## Joining classes -/

/-- Raising a root keeps the ranks in order. -/
theorem promote (h : Forest s ρ) (hx : x < s.size) (hroot : s.parentOf x = x) :
    Forest (s.promote x) ρ where
  size_rank := by
    rw [size_promote, ← h.size_rank]
    exact Array.size_setIfInBounds
  parent_lt := h.parent_lt
  rank_lt := by
    intro y hy
    rw [parentOf_promote] at hy ⊢
    have hrank := h.rank_lt hy
    have hxy : x ≠ y := by
      rintro rfl
      exact hy hroot
    rw [rankOf_promote (h.size_rank ▸ hx), rankOf_promote (h.size_rank ▸ hx), if_neg hxy]
    split
    case isTrue heq =>
      rw [← heq] at hrank
      omega
    case isFalse => exact hrank
  self := h.self
  parent := h.parent

/-- The roots after one root has been hung below another one. -/
def redirect (ρ : Nat → Nat) (loser winner x : Nat) : Nat :=
  if ρ x = loser then winner else ρ x

/-- A root is hung below another one of a higher rank. -/
theorem hang_root (h : Forest s ρ) {loser winner : Nat} (hloser : loser < s.size)
    (hroot : s.parentOf loser = loser) (hwinner : winner < s.size)
    (hroot' : s.parentOf winner = winner) (hrank : s.rankOf loser < s.rankOf winner) :
    Forest (s.hang loser winner) (redirect ρ loser winner) := by
  have hne : winner ≠ loser := fun heq => Nat.lt_irrefl _ (heq ▸ hrank)
  unfold redirect
  refine h.hang hloser hwinner hrank ?_ ?_ ?_
  · intro y hy hself
    rw [h.self hself, if_neg hy]
  · intro y _
    rw [h.parent]
  · rw [h.self hroot', if_neg hne, h.self hroot, if_pos rfl]

/-- Two elements are in one class after two roots have been joined if they were before, or if they
are in the two joined classes. -/
theorem redirect_eq_redirect_iff {loser winner x y : Nat} :
    redirect ρ loser winner x = redirect ρ loser winner y ↔
      ρ x = ρ y ∨ ρ x = loser ∧ ρ y = winner ∨ ρ x = winner ∧ ρ y = loser := by
  unfold redirect
  split <;> split <;> grind

/-- The roots `ρ'` are the roots `ρ` with the classes of `a` and `b` joined. -/
def Joins (ρ ρ' : Nat → Nat) (a b : Nat) : Prop :=
  ∀ {x y}, ρ' x = ρ' y ↔ ρ x = ρ y ∨ ρ x = ρ a ∧ ρ y = ρ b ∨ ρ x = ρ b ∧ ρ y = ρ a

theorem joinRoots (h : Forest s ρ) {a b : Nat} (ha : a < s.size) (hb : b < s.size) :
    ∃ ρ', Forest (s.joinRoots (ρ a) (ρ b)) ρ' ∧ Joins ρ ρ' a b := by
  have ha' := h.root_lt ha
  have hb' := h.root_lt hb
  have hroot := h.parentOf_root a
  have hroot' := h.parentOf_root b
  have hredirect : Joins ρ (redirect ρ (ρ b) (ρ a)) a b := by
    intro x y
    rw [redirect_eq_redirect_iff, or_comm (a := ρ x = ρ b ∧ _)]
  unfold DisjointSets.joinRoots
  split
  case isTrue heq => exact ⟨ρ, h, by intro x y; grind⟩
  case isFalse hne =>
    split
    case isTrue hlt =>
      exact ⟨_, h.hang_root ha' hroot hb' hroot' hlt, redirect_eq_redirect_iff⟩
    case isFalse hle =>
      split
      case isTrue hlt => exact ⟨_, h.hang_root hb' hroot' ha' hroot hlt, hredirect⟩
      case isFalse hle' =>
        -- raised first, the root that stays has the higher rank
        have hraised : (s.promote (ρ a)).rankOf (ρ b) < (s.promote (ρ a)).rankOf (ρ a) := by
          rw [rankOf_promote (h.size_rank ▸ ha'), rankOf_promote (h.size_rank ▸ ha'), if_neg hne,
            if_pos rfl]
          omega
        exact ⟨_, (h.promote ha' hroot).hang_root hb' hroot' ha' hroot hraised, hredirect⟩

theorem union (h : Forest s ρ) {a b : Nat} (ha : a < s.size) (hb : b < s.size) :
    ∃ ρ', Forest (s.union a b) ρ' ∧ Joins ρ ρ' a b := by
  obtain ⟨hroot, hforest⟩ := h.find a
  obtain ⟨hroot', hforest'⟩ := hforest.find b
  have hsize : ((s.find a).2.find b).2.size = s.size := (size_find _ _).trans (size_find _ _)
  unfold DisjointSets.union
  dsimp only
  rw [hroot, hroot']
  exact hforest'.joinRoots (hsize.symm ▸ ha) (hsize.symm ▸ hb)

end Forest

/-! ## The equivalence that unions generate -/

/-- Joins the classes of all pairs. -/
def unionAll (s : DisjointSets) (pairs : List (Nat × Nat)) : DisjointSets :=
  pairs.foldl (fun s p => s.union p.1 p.2) s

/-- The pairs connect two elements. -/
def Connects (pairs : List (Nat × Nat)) : Nat → Nat → Prop :=
  Relation.EqvGen fun a b => (a, b) ∈ pairs

namespace Connects

variable {pairs : List (Nat × Nat)} {a b y : Nat}

theorem of_mem (h : (a, b) ∈ pairs) : Connects pairs a b :=
  .rel _ _ h

theorem append (h : Connects pairs x y) (more : List (Nat × Nat)) :
    Connects (pairs ++ more) x y :=
  h.mono fun _ _ hmem => List.mem_append_left _ hmem

/-- Labels that agree on each pair agree on all that the pairs connect. -/
theorem label_eq (h : Connects pairs x y) (hpairs : ∀ a b, (a, b) ∈ pairs → ρ a = ρ b) :
    ρ x = ρ y := by
  induction h with
  | rel a b hmem => exact hpairs a b hmem
  | refl => rfl
  | symm _ _ _ ih => exact ih.symm
  | trans _ _ _ _ _ ih ih' => exact ih.trans ih'

end Connects

/-- The classes of the forest are what the pairs connect. -/
def Represents (s : DisjointSets) (pairs : List (Nat × Nat)) : Prop :=
  ∃ ρ, Forest s ρ ∧ ∀ {x y}, ρ x = ρ y ↔ Connects pairs x y

namespace Represents

variable {pairs : List (Nat × Nat)} {a b y : Nat}

theorem discrete (n : Nat) : Represents (discrete n) [] := by
  refine ⟨id, .discrete n, fun {x y} => ⟨?_, fun h => h.label_eq nofun⟩⟩
  rintro rfl
  exact .refl x

/-- The next pair is joined. -/
theorem union (h : Represents s pairs) (ha : a < s.size) (hb : b < s.size) :
    Represents (s.union a b) (pairs ++ [(a, b)]) := by
  obtain ⟨ρ, hforest, hρ⟩ := h
  obtain ⟨ρ', hforest', hjoins⟩ := hforest.union ha hb
  refine ⟨ρ', hforest', fun {x y} => ⟨fun heq => ?_, fun hconnects => ?_⟩⟩
  · have hold {x y : Nat} (heq : ρ x = ρ y) : Connects (pairs ++ [(a, b)]) x y :=
      (hρ.mp heq).append _
    have hnew : Connects (pairs ++ [(a, b)]) a b := .of_mem (by simp)
    rcases hjoins.mp heq with hxy | ⟨hx, hy⟩ | ⟨hx, hy⟩
    · exact hold hxy
    · exact ((hold hx).trans _ _ _ hnew).trans _ _ _ (hold hy.symm)
    · exact ((hold hx).trans _ _ _ (hnew.symm _ _)).trans _ _ _ (hold hy.symm)
  · -- equal labels are an equivalence, so that it is enough to look at the pairs
    refine hconnects.label_eq fun c d hmem => hjoins.mpr ?_
    rcases List.mem_append.mp hmem with hmem | hmem
    · exact .inl (hρ.mpr (.of_mem hmem))
    · cases List.mem_singleton.mp hmem
      exact .inr (.inl ⟨rfl, rfl⟩)

theorem unionAll (h : Represents s pairs) {more : List (Nat × Nat)}
    (hmore : ∀ p ∈ more, p.1 < s.size ∧ p.2 < s.size) :
    Represents (s.unionAll more) (pairs ++ more) := by
  induction more generalizing s pairs with
  | nil => rwa [List.append_nil]
  | cons p more ih =>
      obtain ⟨ha, hb⟩ := hmore p List.mem_cons_self
      rw [List.append_cons]
      refine ih (h.union ha hb) fun q hq => ?_
      rw [size_union]
      exact hmore q (List.mem_cons_of_mem _ hq)

theorem root_eq_iff (h : Represents s pairs) : s.root x = s.root y ↔ Connects pairs x y := by
  obtain ⟨ρ, hforest, hρ⟩ := h
  rw [root, root, (hforest.find x).1, (hforest.find y).1]
  exact hρ

end Represents

/-- After unions, two elements have the same root if the joined pairs connect them. -/
theorem root_unionAll_eq_iff {n : Nat} {pairs : List (Nat × Nat)}
    (hpairs : ∀ p ∈ pairs, p.1 < n ∧ p.2 < n) {y : Nat} :
    ((discrete n).unionAll pairs).root x = ((discrete n).unionAll pairs).root y ↔
      Connects pairs x y := by
  have hsize : (discrete n).size = n := Array.size_range
  refine Represents.root_eq_iff ((Represents.discrete n).unionAll ?_)
  rwa [hsize]

end Redstone.DisjointSets
