import Redstone.Circuit.Power
import Redstone.Proofs.Circuit.WellFormed
import Redstone.Proofs.Gate

/-!
# What reaches a node

The power at a node is a maximum over its links.  It is enough to know which strengths some
link delivers: two nodes, in one circuit or in two, have the same power as soon as the same
strengths are delivered to both.  All changes of links that keep the power of every node are
justified in this way.
-/

namespace Redstone

/-- The power at the side input or at the main input. -/
def Power.at (p : Power) (side : Bool) : UInt8 :=
  if side then p.side else p.main

theorem Power.ext_at {p q : Power} (h : ∀ side, p.at side = q.at side) : p = q := by
  cases p
  cases q
  have hmain := h false
  have hside := h true
  simp only [Power.at, Bool.false_eq_true, if_false, if_true] at hmain hside
  rw [hmain, hside]

/-- The channel is the one of the side input. -/
def Channel.isSide (c : Channel) : Bool :=
  c == .side

theorem Power.at_receive (p : Power) (c : Channel) (s : UInt8) (side : Bool) :
    (p.receive c s).at side = if c.isSide = side then max (p.at side) s else p.at side := by
  cases c <;> cases side <;> rfl

namespace Circuit

/-- A link brings a signal of at least the given strength to an input of a node. -/
def Delivers (g : Circuit) (σ : NodeId → UInt8) (id : NodeId) (side : Bool) (s : UInt8) : Prop :=
  ∃ i l, g.link? i = some l ∧ l.target = id ∧ l.channel.isSide = side ∧
    s ≤ attenuate (σ l.source) l.loss

theorem le_foldl_receive_iff (σ : NodeId → UInt8) (links : List Link) (p : Power) (side : Bool)
    (s : UInt8) :
    s ≤ (links.foldl
        (fun p l => p.receive l.channel (attenuate (σ l.source) l.loss)) p).at side ↔
      s ≤ p.at side ∨
        ∃ l ∈ links, l.channel.isSide = side ∧ s ≤ attenuate (σ l.source) l.loss := by
  induction links generalizing p with
  | nil => simp
  | cons l rest ih =>
      rw [List.foldl_cons, ih, Power.at_receive]
      by_cases hside : l.channel.isSide = side
      · rw [if_pos hside, le_max_iff]
        simp [hside, or_assoc]
      · rw [if_neg hside]
        simp [hside]

variable {g g' : Circuit} {σ σ' : NodeId → UInt8} {id : NodeId}

theorem WellFormed.le_powerUnder_iff (h : g.WellFormed) {side : Bool} {s : UInt8} (hs : 0 < s) :
    s ≤ (g.powerUnder σ id).at side ↔ g.Delivers σ id side s := by
  unfold powerUnder powerOf
  rw [le_foldl_receive_iff]
  have hzero : ¬ s ≤ ({} : Power).at side := by
    have : ({} : Power).at side = 0 := by cases side <;> rfl
    rw [this]
    grind
  simp only [hzero, false_or]
  constructor
  · rintro ⟨l, hl, hside, hle⟩
    obtain ⟨i, hi, htarget⟩ := h.mem_inLinks_iff.mp hl
    exact ⟨i, l, hi, htarget, hside, hle⟩
  · rintro ⟨i, l, hi, htarget, hside, hle⟩
    exact ⟨l, h.mem_inLinks_iff.mpr ⟨i, hi, htarget⟩, hside, hle⟩

/-- Where the same strengths are delivered, the power is the same. -/
theorem powerAt_congr (h : g.WellFormed) (h' : g'.WellFormed) {id' : NodeId} {side : Bool}
    (hdel : ∀ s : UInt8, 0 < s → (g.Delivers σ id side s ↔ g'.Delivers σ' id' side s)) :
    (g.powerUnder σ id).at side = (g'.powerUnder σ' id').at side := by
  apply eq_of_forall_le_iff
  intro s hs
  rw [h.le_powerUnder_iff hs, h'.le_powerUnder_iff hs]
  exact hdel s hs

theorem powerUnder_congr (h : g.WellFormed) (h' : g'.WellFormed) {id' : NodeId}
    (hdel : ∀ side, ∀ s : UInt8, 0 < s →
      (g.Delivers σ id side s ↔ g'.Delivers σ' id' side s)) :
    g.powerUnder σ id = g'.powerUnder σ' id' :=
  Power.ext_at fun side => powerAt_congr h h' (hdel side)

/-- The power depends on the strengths of the sources only. -/
theorem powerUnder_congr_strength (h : g.WellFormed)
    (hσ : ∀ i l, g.link? i = some l → l.target = id → σ' l.source = σ l.source) :
    g.powerUnder σ' id = g.powerUnder σ id := by
  apply powerUnder_congr h h
  intro side s _
  constructor
  · rintro ⟨i, l, hl, htarget, hside, hle⟩
    exact ⟨i, l, hl, htarget, hside, hσ i l hl htarget ▸ hle⟩
  · rintro ⟨i, l, hl, htarget, hside, hle⟩
    exact ⟨i, l, hl, htarget, hside, (hσ i l hl htarget).symm ▸ hle⟩

/-- No power comes from nowhere: it is at most the greatest strength if all sources are. -/
theorem WellFormed.powerUnder_le (h : g.WellFormed) {m : UInt8}
    (hσ : ∀ i l, g.link? i = some l → l.target = id → σ l.source ≤ m) (side : Bool) :
    (g.powerUnder σ id).at side ≤ m := by
  by_cases hpos : 0 < (g.powerUnder σ id).at side
  · obtain ⟨i, l, hl, htarget, -, hle⟩ :=
      (h.le_powerUnder_iff hpos).mp (UInt8.le_refl _)
    exact UInt8.le_trans hle (UInt8.le_trans (attenuate_le _ _) (hσ i l hl htarget))
  · grind

/-- A node without links to an input has no power there. -/
theorem WellFormed.powerUnder_eq_zero (h : g.WellFormed) {side : Bool}
    (hnone : ∀ i l, g.link? i = some l → l.target = id → l.channel.isSide ≠ side) :
    (g.powerUnder σ id).at side = 0 := by
  apply eq_of_forall_le_iff
  intro s hs
  rw [h.le_powerUnder_iff hs]
  constructor
  · rintro ⟨i, l, hl, htarget, hside, -⟩
    exact absurd hside (hnone i l hl htarget)
  · intro hle
    grind

/-- A link may go if another one brings at least as much to the same input. -/
theorem WellFormed.powerUnder_removeLink (h : g.WellFormed) {i j : LinkId} {l m : Link}
    (hl : g.link? i = some l) (hm : g.link? j = some m) (hne : i ≠ j)
    (htarget : m.target = l.target) (hchannel : m.channel = l.channel)
    (hle : attenuate (σ l.source) l.loss ≤ attenuate (σ m.source) m.loss) (id : NodeId) :
    (g.removeLink i).powerUnder σ id = g.powerUnder σ id := by
  apply powerUnder_congr (h.removeLink i) h
  intro side s _
  constructor
  · rintro ⟨k, o, ho, hrest⟩
    rw [link?_removeLink] at ho
    split at ho
    · cases ho
    · exact ⟨k, o, ho, hrest⟩
  · rintro ⟨k, o, ho, hend, hside, hs⟩
    by_cases hk : i = k
    · rw [← hk, hl] at ho
      cases ho
      refine ⟨j, m, ?_, htarget.trans hend, hchannel ▸ hside, UInt8.le_trans hs hle⟩
      rw [link?_removeLink, if_neg hne, hm]
    · refine ⟨k, o, ?_, hend, hside, hs⟩
      rw [link?_removeLink, if_neg hk, ho]

/-- A link may start at another node that puts out the same strength. -/
theorem WellFormed.powerUnder_setSource (h : g.WellFormed) {i : LinkId} {source : NodeId}
    (hcontains : g.contains source = true)
    (hsame : ∀ l, g.link? i = some l → σ source = σ l.source) (id : NodeId) :
    (g.setSource i source).powerUnder σ id = g.powerUnder σ id := by
  apply powerUnder_congr (h.setSource i source) h
  intro side s _
  constructor
  · rintro ⟨j, l, hl, htarget, hside, hle⟩
    rw [link?_setSource hcontains] at hl
    split at hl
    case isFalse => exact ⟨j, l, hl, htarget, hside, hle⟩
    case isTrue hij =>
      obtain ⟨m, hm, rfl⟩ := Option.map_eq_some_iff.mp hl
      exact ⟨j, m, hm, htarget, hside, hsame m (hij ▸ hm) ▸ hle⟩
  · rintro ⟨j, l, hl, htarget, hside, hle⟩
    by_cases hij : i = j
    · refine ⟨j, { l with source }, ?_, htarget, hside, (hsame l (hij ▸ hl)).symm ▸ hle⟩
      rw [link?_setSource hcontains, if_pos hij, hl, Option.map_some]
    · refine ⟨j, l, ?_, htarget, hside, hle⟩
      rw [link?_setSource hcontains, if_neg hij, hl]

/-- All links to node `id` come from node `source` to the main input with the given loss, and
there is one. -/
structure HangsOn (g : Circuit) (id source : NodeId) (loss : UInt8) : Prop where
  link : ∃ i l, g.link? i = some l ∧ l.target = id
  every : ∀ {i l}, g.link? i = some l → l.target = id →
    l.source = source ∧ l.channel = .main ∧ l.loss = loss

namespace HangsOn

variable {source : NodeId} {loss : UInt8}

theorem of_links (h : HangsOn g id source loss)
    (hlinks : ∀ i l, l.target = id → (g'.link? i = some l ↔ g.link? i = some l)) :
    HangsOn g' id source loss where
  link := by
    obtain ⟨i, l, hl, htarget⟩ := h.link
    exact ⟨i, l, (hlinks i l htarget).mpr hl, htarget⟩
  every := fun hl htarget => h.every ((hlinks _ _ htarget).mp hl) htarget

theorem powerUnder_eq (h : HangsOn g id source loss) (hwf : g.WellFormed) (τ : NodeId → UInt8) :
    g.powerUnder τ id = { main := attenuate (τ source) loss, side := 0 } := by
  apply Power.ext_at
  intro side
  apply eq_of_forall_le_iff
  intro s hs
  rw [hwf.le_powerUnder_iff hs]
  constructor
  · rintro ⟨i, l, hl, htarget, hside, hle⟩
    obtain ⟨hsource, hchannel, hloss⟩ := h.every hl htarget
    rw [hsource, hloss] at hle
    rw [hchannel] at hside
    cases hside
    exact hle
  · intro hle
    cases side with
    | true =>
        have hzero : ({ main := attenuate (τ source) loss, side := 0 } : Power).at true = 0 := rfl
        rw [hzero] at hle
        grind
    | false =>
        obtain ⟨i, l, hl, htarget⟩ := h.link
        obtain ⟨hsource, hchannel, hloss⟩ := h.every hl htarget
        refine ⟨i, l, hl, htarget, by rw [hchannel]; rfl, ?_⟩
        rw [hsource, hloss]
        exact hle

end HangsOn

end Circuit

end Redstone
