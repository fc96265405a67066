import Mathlib.Algebra.Group.Nat.Defs
import Redstone.Proofs.DisjointSets

/-!
# Unions and look-ups in any order

The classes of a forest are those that the joined pairs generate, however unions and look-ups follow
one another: a look-up shortens ways, but it changes no root and joins no pair.  The bound on the
steps of a climb is never what ends it, so that a climb without a bound ends as well, with the same
result.

A root of rank `k` has at least `2 ^ k` elements in its class, since its rank rises only when a
class of the same rank is added to its own.  Ranks are thereby at most the binary logarithm of the
number of elements, and a byte has room for them.
-/

namespace Redstone.DisjointSets

variable {s : DisjointSets} {ρ : Nat → Nat} {x y : Nat} {pairs : List (Nat × Nat)}

/-! ## Climbing without a bound -/

/-- A climb from `x` that goes on until it meets a root, with the root and the forest that it leaves
behind. -/
inductive Climbs : DisjointSets → Nat → Nat × DisjointSets → Prop where
  | root {s : DisjointSets} {x : Nat} (hx : s.parentOf x = x) : Climbs s x (x, s)
  | step {s : DisjointSets} {x : Nat} {result : Nat × DisjointSets} (hx : s.parentOf x ≠ x)
      (rest : Climbs (s.hang x (s.parentOf (s.parentOf x))) (s.parentOf (s.parentOf x)) result) :
      Climbs s x result

theorem Climbs.unique {result result' : Nat × DisjointSets} (h : Climbs s x result)
    (h' : Climbs s x result') : result = result' := by
  induction h with
  | root hx =>
      cases h' with
      | root => rfl
      | step hne => exact absurd hx hne
  | step hx _ ih =>
      cases h' with
      | root hroot => exact absurd hroot hx
      | step _ rest => exact ih rest

/-- A bounded climb that has come to a root has not been ended by its bound. -/
theorem climbs_of_root {fuel : Nat}
    (h : (climb fuel s x).2.parentOf (climb fuel s x).1 = (climb fuel s x).1) :
    Climbs s x (climb fuel s x) := by
  induction fuel generalizing s x with
  | zero => exact .root h
  | succ fuel ih =>
      unfold climb at h ⊢
      split
      case isTrue hx => exact .root hx
      case isFalse hx =>
        rw [if_neg hx] at h
        exact .step hx (ih h)

theorem Forest.climbs_iff (h : Forest s ρ) {result : Nat × DisjointSets} :
    Climbs s x result ↔ result = s.find x := by
  obtain ⟨hroot, hforest⟩ := h.find x
  have hclimbs : Climbs s x (s.find x) := by
    refine climbs_of_root ?_
    change (s.find x).2.parentOf (s.find x).1 = (s.find x).1
    rw [hroot]
    exact hforest.parentOf_root x
  constructor
  · intro hresult
    exact hresult.unique hclimbs
  · rintro rfl
    exact hclimbs

/-! ## Looking for roots -/

theorem Forest.root_eq (h : Forest s ρ) : s.root = ρ :=
  funext fun x => (h.find x).1

/-- A look-up changes no root. -/
theorem Forest.root_find (h : Forest s ρ) (x : Nat) : (s.find x).2.root = s.root := by
  rw [h.root_eq, (h.find x).2.root_eq]

theorem Forest.parentOf_eq_self_iff (h : Forest s ρ) : s.parentOf x = x ↔ ρ x = x := by
  constructor
  · exact h.self
  · intro hx
    rw [← hx]
    exact h.parentOf_root x

@[simp] theorem rankOf_find (s : DisjointSets) (x y : Nat) :
    (s.find x).2.rankOf y = s.rankOf y := by
  have hclimb (fuel : Nat) (s : DisjointSets) (x : Nat) : (climb fuel s x).2.rank = s.rank := by
    induction fuel generalizing s x with
    | zero => rfl
    | succ fuel ih =>
        unfold climb
        split
        · rfl
        · exact ih _ _
  unfold rankOf find
  rw [hclimb]

theorem Represents.forest (h : Represents s pairs) : Forest s s.root := by
  obtain ⟨ρ, hforest, -⟩ := h
  rwa [hforest.root_eq]

theorem Represents.find (h : Represents s pairs) (x : Nat) : Represents (s.find x).2 pairs := by
  obtain ⟨ρ, hforest, hρ⟩ := h
  exact ⟨ρ, (hforest.find x).2, hρ⟩

/-! ## Ranks against the size of classes -/

/-- The elements of the class with root `r`. -/
def members (s : DisjointSets) (r : Nat) : Finset Nat :=
  (Finset.range s.size).filter fun x => s.root x = r

theorem mem_members {r : Nat} : x ∈ s.members r ↔ x < s.size ∧ s.root x = r := by
  rw [members, Finset.mem_filter, Finset.mem_range]

/-- The class of a root of rank `k` has at least `2 ^ k` elements. -/
def Balanced (s : DisjointSets) : Prop :=
  ∀ r, r < s.size → s.parentOf r = r → 2 ^ s.rankOf r ≤ (s.members r).card

namespace Balanced

theorem discrete (n : Nat) : Balanced (discrete n) := by
  intro r hr _
  have hrank : (DisjointSets.discrete n).rankOf r = 0 := by
    rw [DisjointSets.discrete, rankOf, Array.getD_eq_getD_getElem?, Array.getElem?_replicate]
    split <;> rfl
  have hmem : r ∈ (DisjointSets.discrete n).members r := by
    refine mem_members.mpr ⟨hr, ?_⟩
    rw [(Forest.discrete n).root_eq, id]
  rw [hrank, pow_zero]
  exact Finset.card_pos.mpr ⟨r, hmem⟩

theorem find (h : Balanced s) (hforest : Forest s ρ) (x : Nat) : Balanced (s.find x).2 := by
  intro r hr hroot
  have hmembers : (s.find x).2.members r = s.members r := by
    rw [members, members, size_find, hforest.root_find]
  rw [rankOf_find, hmembers]
  rw [(hforest.find x).2.parentOf_eq_self_iff, ← hforest.parentOf_eq_self_iff] at hroot
  exact h r (size_find s x ▸ hr) hroot

/-- No element has a greater rank than its root, and no class more elements than there are. -/
theorem rankOf_le (h : Balanced s) (hforest : Forest s ρ) (hx : x < s.size) :
    s.rankOf x ≤ s.size.log2 := by
  have hle : s.rankOf x ≤ s.rankOf (ρ x) := by
    refine hforest.climbing (P := fun x => s.rankOf x ≤ s.rankOf (ρ x)) (fun x hroot => ?_)
      (fun x hne ih => ?_) x
    · rw [hforest.self hroot]
    · rw [hforest.parent] at ih
      exact (hforest.rank_lt hne).le.trans ih
  refine hle.trans ((Nat.le_log2 (Nat.ne_zero_of_lt hx)).mpr ?_)
  calc
    2 ^ s.rankOf (ρ x) ≤ (s.members (ρ x)).card :=
      h _ (hforest.root_lt hx) (hforest.parentOf_root x)
    _ ≤ s.size := (Finset.card_filter_le _ _).trans (Finset.card_range _).le

end Balanced

/-! ## Joining classes -/

/-- Joining two roots makes no new root. -/
theorem root_of_joinRoots {a b : Nat} (ha : a < s.size) (hb : b < s.size) (hroot : s.parentOf a = a)
    (hroot' : s.parentOf b = b) (hx : (s.joinRoots a b).parentOf x = x) : s.parentOf x = x := by
  have hhang {loser winner : Nat} (hlt : loser < s.size) (hself : s.parentOf loser = loser)
      (hx : (s.hang loser winner).parentOf x = x) : s.parentOf x = x := by
    rw [parentOf_hang hlt] at hx
    split at hx
    case isTrue heq => rw [← heq, hself]
    case isFalse => exact hx
  unfold joinRoots at hx
  split at hx
  · exact hx
  split at hx
  · exact hhang ha hroot hx
  split at hx
  · exact hhang hb hroot' hx
  · exact hhang hb hroot' hx

/-- Joining two roots raises at most the rank of the first one, and that only if the other one has
the same rank. -/
theorem rankOf_joinRoots {a b : Nat} (ha : a < s.rank.size) :
    (s.joinRoots a b).rankOf x = s.rankOf x ∨
      x = a ∧ a ≠ b ∧ s.rankOf b = s.rankOf a ∧ (s.joinRoots a b).rankOf x = s.rankOf a + 1 := by
  unfold joinRoots
  split
  · exact .inl rfl
  case isFalse hne =>
    split
    · exact .inl rfl
    split
    · exact .inl rfl
    case isFalse hle hle' =>
      have hrank := rankOf_promote (s := s.hang b a) ha x
      split at hrank
      case isTrue heq => exact .inr ⟨heq.symm, hne, by omega, hrank⟩
      case isFalse => exact .inl hrank

theorem Balanced.joinRoots (h : Balanced s) (hforest : Forest s ρ) {a b : Nat} (ha : a < s.size)
    (hb : b < s.size) : Balanced (s.joinRoots (ρ a) (ρ b)) := by
  have hlt := hforest.root_lt ha
  have hlt' := hforest.root_lt hb
  have hroot := hforest.parentOf_root a
  have hroot' := hforest.parentOf_root b
  obtain ⟨ρ', hjoined, hjoins⟩ := hforest.joinRoots ha hb
  intro r hr hself
  rw [size_joinRoots] at hr
  have hold : s.parentOf r = r := root_of_joinRoots hlt hlt' hroot hroot' hself
  have hmem : ∀ {y}, y ∈ (s.joinRoots (ρ a) (ρ b)).members r ↔ y < s.size ∧ ρ' y = ρ' r := by
    intro y
    rw [mem_members, size_joinRoots, hjoined.root_eq, hjoined.self hself]
  -- no class loses a member
  have hsub : s.members r ⊆ (s.joinRoots (ρ a) (ρ b)).members r := by
    intro y hy
    rw [mem_members, hforest.root_eq] at hy
    exact hmem.mpr ⟨hy.1, hjoins.mpr (.inl (hy.2.trans (hforest.self hold).symm))⟩
  -- a rank grows only where the ranks of both roots are equal
  rcases rankOf_joinRoots (x := r) (b := ρ b) (hforest.size_rank ▸ hlt) with
    hrank | ⟨rfl, hne, hequal, hrank⟩
  · rw [hrank]
    exact (h r hr hold).trans (Finset.card_le_card hsub)
  · -- the class of the other root is added, and it is as large by itself
    have hsub' : s.members (ρ b) ⊆ (s.joinRoots (ρ a) (ρ b)).members (ρ a) := by
      intro y hy
      rw [mem_members, hforest.root_eq] at hy
      exact hmem.mpr ⟨hy.1, hjoins.mpr (.inr (.inr ⟨hy.2, hforest.self hroot⟩))⟩
    have hdisjoint : Disjoint (s.members (ρ a)) (s.members (ρ b)) := by
      refine Finset.disjoint_left.mpr fun y hy hy' => hne ?_
      exact (mem_members.mp hy).2.symm.trans (mem_members.mp hy').2
    rw [hrank]
    calc
      2 ^ (s.rankOf (ρ a) + 1) = 2 ^ s.rankOf (ρ a) + 2 ^ s.rankOf (ρ b) := by
        rw [hequal, pow_succ, Nat.mul_two]
      _ ≤ (s.members (ρ a)).card + (s.members (ρ b)).card :=
        Nat.add_le_add (h _ hlt hroot) (h _ hlt' hroot')
      _ = (s.members (ρ a) ∪ s.members (ρ b)).card := (Finset.card_union_of_disjoint hdisjoint).symm
      _ ≤ ((s.joinRoots (ρ a) (ρ b)).members (ρ a)).card :=
        Finset.card_le_card (Finset.union_subset hsub hsub')

theorem Balanced.union (h : Balanced s) (hforest : Forest s ρ) {a b : Nat} (ha : a < s.size)
    (hb : b < s.size) : Balanced (s.union a b) := by
  obtain ⟨hroot, hforest'⟩ := hforest.find a
  obtain ⟨hroot', hforest''⟩ := hforest'.find b
  unfold DisjointSets.union
  dsimp only
  rw [hroot, hroot']
  refine ((h.find hforest a).find hforest' b).joinRoots hforest'' ?_ ?_
  · rwa [size_find, size_find]
  · rwa [size_find, size_find]

/-! ## Sequences of calls -/

/-- What can be asked of a forest: to join the classes of two elements, or to look for a root. -/
inductive Call where
  | union (a b : Nat)
  | find (x : Nat)
deriving DecidableEq, Repr

namespace Call

/-- The elements that a call names. -/
def arguments : Call → List Nat
  | union a b => [a, b]
  | find x => [x]

/-- The forest after a call. -/
def perform (s : DisjointSets) : Call → DisjointSets
  | union a b => s.union a b
  | find x => (s.find x).2

/-- The pair that a call joins, if it joins one. -/
def pair? : Call → Option (Nat × Nat)
  | union a b => some (a, b)
  | find _ => none

end Call

/-- The forest after all calls. -/
def performAll (s : DisjointSets) (calls : List Call) : DisjointSets :=
  calls.foldl Call.perform s

/-- The pairs that the calls join, in their order. -/
def joined (calls : List Call) : List (Nat × Nat) :=
  calls.filterMap Call.pair?

/-- The forest of `n` elements has the classes that the pairs generate, and balanced ranks. -/
structure Keeps (s : DisjointSets) (n : Nat) (pairs : List (Nat × Nat)) : Prop where
  size_eq : s.size = n
  represents : Represents s pairs
  balanced : Balanced s

namespace Keeps

variable {n : Nat}

theorem discrete (n : Nat) : Keeps (discrete n) n [] :=
  ⟨Array.size_range, .discrete n, .discrete n⟩

theorem perform (h : Keeps s n pairs) {c : Call} (hc : ∀ x ∈ c.arguments, x < n) :
    Keeps (c.perform s) n (pairs ++ c.pair?.toList) := by
  have hforest := h.represents.forest
  cases c with
  | union a b =>
      have ha : a < s.size := h.size_eq ▸ hc a (by simp [Call.arguments])
      have hb : b < s.size := h.size_eq ▸ hc b (by simp [Call.arguments])
      exact ⟨(size_union s a b).trans h.size_eq, h.represents.union ha hb,
        h.balanced.union hforest ha hb⟩
  | find x =>
      rw [Call.pair?, Option.toList_none, List.append_nil]
      exact ⟨(size_find s x).trans h.size_eq, h.represents.find x, h.balanced.find hforest x⟩

theorem performAll (h : Keeps s n pairs) {calls : List Call}
    (hcalls : ∀ c ∈ calls, ∀ x ∈ c.arguments, x < n) :
    Keeps (s.performAll calls) n (pairs ++ joined calls) := by
  induction calls generalizing s pairs with
  | nil =>
      rw [joined, List.filterMap_nil, List.append_nil]
      exact h
  | cons c calls ih =>
      have hpairs : pairs ++ joined (c :: calls) = pairs ++ c.pair?.toList ++ joined calls := by
        rw [List.append_assoc, joined, joined, List.filterMap_cons]
        cases c.pair? <;> rfl
      rw [hpairs]
      refine ih (h.perform (hcalls c List.mem_cons_self)) fun d hd => ?_
      exact hcalls d (List.mem_cons_of_mem _ hd)

theorem rankOf_le (h : Keeps s n pairs) (hx : x < n) : s.rankOf x ≤ n.log2 :=
  h.size_eq ▸ h.balanced.rankOf_le h.represents.forest (h.size_eq.symm ▸ hx)

end Keeps

/-- A rank of fewer than `2 ^ 32` elements fits a byte, also when it is raised once more. -/
theorem byte_of_rank {rank n : Nat} (hrank : rank ≤ n.log2) (hn : n < 2 ^ 32) :
    (UInt8.ofNat rank).toNat = rank ∧ (UInt8.ofNat rank + 1).toNat = rank + 1 := by
  have hlog : n.log2 < 32 := by
    rcases Nat.eq_zero_or_pos n with rfl | hpos
    · decide
    · exact (Nat.log2_lt (Nat.ne_of_gt hpos)).mpr hn
  have hlt : rank < 256 := by omega
  have hbyte : (UInt8.ofNat rank).toNat = rank := UInt8.toNat_ofNat_of_lt' hlt
  refine ⟨hbyte, ?_⟩
  rw [UInt8.toNat_add, hbyte, UInt8.toNat_one, Nat.mod_eq_of_lt (by omega)]

/-- **Calls generate the classes of the joined pairs.**  However unions and look-ups of elements
below `n` follow one another, a climb from such an element ends, at a root below `n`.  Two elements
have the same root if and only if the pairs that have been joined so far connect them.  A look-up
leaves every element its root, and the roots are the same elements as before.  No rank is above the
binary logarithm of `n`, so that with fewer than `2 ^ 32` elements a byte holds every rank and can
be raised by one without wrapping around. -/
theorem calls_generate_classes (n : Nat) (calls : List Call)
    (hcalls : ∀ c ∈ calls, ∀ x ∈ c.arguments, x < n) :
    let s := (discrete n).performAll calls
    (∀ x < n, (∀ result, Climbs s x result ↔ result = s.find x) ∧
        (s.find x).1 < n ∧ s.parentOf (s.find x).1 = (s.find x).1) ∧
      (∀ x < n, ∀ y < n, (s.find x).1 = (s.find y).1 ↔ Connects (joined calls) x y) ∧
      (∀ x < n, ∀ y < n, ((s.find x).2.find y).1 = (s.find y).1 ∧
        ((s.find x).2.parentOf y = y ↔ s.parentOf y = y)) ∧
      (∀ x < n, s.rankOf x ≤ n.log2) ∧
      (n < 2 ^ 32 → ∀ x < n, (UInt8.ofNat (s.rankOf x)).toNat = s.rankOf x ∧
        (UInt8.ofNat (s.rankOf x) + 1).toNat = s.rankOf x + 1) := by
  intro s
  have hkeeps : Keeps s n (joined calls) := (Keeps.discrete n).performAll hcalls
  have hforest := hkeeps.represents.forest
  refine ⟨fun x hx => ⟨fun result => hforest.climbs_iff, ?_, hforest.parentOf_root x⟩,
    fun x _ y _ => hkeeps.represents.root_eq_iff, fun x _ y _ => ⟨?_, ?_⟩,
    fun x hx => hkeeps.rankOf_le hx, fun hn x hx => byte_of_rank (hkeeps.rankOf_le hx) hn⟩
  · have hlt := hforest.root_lt (hkeeps.size_eq.symm ▸ hx)
    rwa [hkeeps.size_eq] at hlt
  · exact congrFun (hforest.root_find x) y
  · rw [(hforest.find x).2.parentOf_eq_self_iff, hforest.parentOf_eq_self_iff]

/-- Two pairs are joined, and then the two classes by their later elements, so that the look-up of
the last of them shortens a way.  The fifth element stays alone. -/
def quartet : List Call :=
  [.union 0 1, .union 2 3, .union 1 3, .find 3, .find 4]

/-- The forest says what is connected. -/
theorem calls_generate_classes_quartet :
    (∀ c ∈ quartet, ∀ x ∈ c.arguments, x < 5) ∧ Connects (joined quartet) 0 3 ∧
      ¬ Connects (joined quartet) 0 4 := by
  have hcalls : ∀ c ∈ quartet, ∀ x ∈ c.arguments, x < 5 := by decide
  obtain ⟨-, hconnects, -⟩ := calls_generate_classes 5 quartet hcalls
  refine ⟨hcalls, (hconnects 0 (by decide) 3 (by decide)).mp (by decide), ?_⟩
  rw [← hconnects 0 (by decide) 4 (by decide)]
  decide

end Redstone.DisjointSets
