import Workplan.Proofs.Precedence.Basic
import Mathlib.Data.List.Basic

/-!
# Arranging positions

`arrange` takes ready positions one at a time and counts down, for the others, how many of those
before them are still to come. Its frontier after some positions have come depends on those
positions alone (`Frontier.Follows`): no count is ever lowered below zero, and a position becomes
ready once, when its count reaches zero. So a run picks the smallest ready position at every turn
(`Picks`), and that determines it. When nothing waits for itself through others, it leaves no
position behind (`Completes`), and the order that it gives is the first among all that keep to the
precedence.
-/

namespace Workplan
namespace Precedence

variable {g : Precedence} {placed order other : List Nat} {u v : Nat}

/-- An order of all the positions in which each one comes after those before it. -/
structure Keeps (g : Precedence) (order : List Nat) : Prop where
  perm : order.Perm (List.range g.size)
  before : ∀ v p, g.Before p v → order.idxOf p < order.idxOf v

/-- `v` can come next once the positions `placed` have come. -/
structure Ready (g : Precedence) (placed : List Nat) (v : Nat) : Prop where
  lt_size : v < g.size
  fresh : v ∉ placed
  waits : ∀ p ∈ g.predecessors v, p ∈ placed

/-- Each position of `order` is ready when its turn comes, and none is left at the end. -/
def Completes (g : Precedence) : (placed order : List Nat) → Prop
  | placed, [] => ∀ v < g.size, v ∈ placed
  | placed, v :: rest => g.Ready placed v ∧ Completes g (v :: placed) rest

/-! ## Orders that complete what was placed -/

/-- The positions of a completing order are those not yet placed, and each waits only for
positions placed or earlier in the order. -/
theorem completes_iff :
    g.Completes placed order ↔
      order.Nodup ∧ (∀ v, v ∈ order ↔ v < g.size ∧ v ∉ placed) ∧
        ∀ v ∈ order, ∀ p, g.Before p v → p ∈ placed ∨ order.idxOf p < order.idxOf v := by
  induction order generalizing placed with
  | nil => simp [Completes]
  | cons v rest ih =>
      simp only [Completes, ih, List.nodup_cons]
      constructor
      · intro ⟨⟨hlt, hfresh, hwaits⟩, hnodup, hmem, hbefore⟩
        have hv : v ∉ rest := fun h => ((hmem v).mp h).2 List.mem_cons_self
        refine ⟨⟨hv, hnodup⟩, ?_, ?_⟩
        · intro u
          by_cases hu : u = v
          · simp [hu, hlt, hfresh]
          · simp [hu, hmem u]
        · intro u hu p hp
          by_cases huv : v = u
          · exact .inl (hwaits p (huv ▸ hp))
          have hu : u ∈ rest := (List.mem_cons.mp hu).resolve_left (Ne.symm huv)
          rw [List.idxOf_cons_ne _ huv]
          by_cases hpv : v = p
          · simp [hpv]
          · rw [List.idxOf_cons_ne _ hpv]
            rcases hbefore u hu p hp with hplaced | hearlier
            · exact .inl ((List.mem_cons.mp hplaced).resolve_left (Ne.symm hpv))
            · exact .inr (Nat.succ_lt_succ hearlier)
      · intro ⟨⟨hv, hnodup⟩, hmem, hbefore⟩
        obtain ⟨hlt, hfresh⟩ := (hmem v).mp List.mem_cons_self
        refine ⟨⟨hlt, hfresh, ?_⟩, hnodup, ?_, ?_⟩
        · intro p hp
          simpa using hbefore v List.mem_cons_self p hp
        · intro u
          by_cases hu : u = v
          · simp [hu, hv]
          · simpa [hu] using hmem u
        · intro u hu p hp
          have huv : v ≠ u := fun h => hv (h ▸ hu)
          by_cases hpv : v = p
          · exact .inl (by simp [hpv])
          · have h := hbefore u (List.mem_cons_of_mem _ hu) p hp
            rw [List.idxOf_cons_ne _ huv, List.idxOf_cons_ne _ hpv] at h
            rcases h with hplaced | hearlier
            · exact .inl (List.mem_cons_of_mem _ hplaced)
            · exact .inr (Nat.lt_of_succ_lt_succ hearlier)

/-- The orders that keep to the precedence are those that complete the empty beginning. -/
theorem keeps_iff_completes : g.Keeps order ↔ g.Completes [] order := by
  rw [completes_iff]
  constructor
  · intro ⟨hperm, hbefore⟩
    refine ⟨hperm.nodup_iff.mpr List.nodup_range, ?_, ?_⟩
    · intro v
      simp [hperm.mem_iff]
    · intro v _ p hp
      exact .inr (hbefore v p hp)
  · intro ⟨hnodup, hmem, hbefore⟩
    refine ⟨?_, ?_⟩
    · refine (List.perm_ext_iff_of_nodup hnodup List.nodup_range).mpr fun v => ?_
      simp [hmem v]
    · intro v p hp
      have hv : v ∈ order := (hmem v).mpr ⟨hp.lt_size, List.not_mem_nil⟩
      simpa using hbefore v hv p hp

/-- As long as a position is left, one of those left is ready. -/
theorem exists_ready (hg : g.WellFormed) (hwf : WellFounded g.Before) (hv : v < g.size)
    (hfresh : v ∉ placed) : ∃ u, g.Ready placed u := by
  induction v using hwf.induction with
  | _ v ih =>
      by_cases hwaits : ∀ p ∈ g.predecessors v, p ∈ placed
      · exact ⟨v, hv, hfresh, hwaits⟩
      · obtain ⟨p, hp⟩ := Classical.not_forall.mp hwaits
        obtain ⟨hbefore, hleft⟩ := Classical.not_imp.mp hp
        exact ih p hbefore (hg.lt_size v p hbefore) hleft

/-- Where no position is ready, only the empty order completes what was placed. -/
theorem completes_iff_eq_nil (hg : g.WellFormed) (hwf : WellFounded g.Before)
    (h : ∀ v, ¬ g.Ready placed v) : g.Completes placed order ↔ order = [] := by
  cases order with
  | nil =>
      simp only [Completes, iff_true]
      intro v hv
      apply Classical.byContradiction
      intro hfresh
      obtain ⟨u, hu⟩ := exists_ready hg hwf hv hfresh
      exact h u hu
  | cons v rest => simp [Completes, h v]

/-! ## Counting down -/

def left (g : Precedence) (placed : List Nat) (v : Nat) : Nat :=
  (g.predecessors v).countP fun p => !placed.contains p

theorem left_eq_zero_iff : g.left placed v = 0 ↔ ∀ p, g.Before p v → p ∈ placed := by
  simp [left, Before]

theorem ready_iff_left_eq_zero :
    g.Ready placed v ↔ v < g.size ∧ v ∉ placed ∧ g.left placed v = 0 := by
  rw [left_eq_zero_iff]
  exact ⟨fun h => ⟨h.lt_size, h.fresh, h.waits⟩, fun h => ⟨h.1, h.2.1, h.2.2⟩⟩

/-- A position that comes is one fewer for each that it comes before. -/
theorem left_eq_succ_of_before (hg : g.WellFormed) (h : g.Before v u) (hfresh : v ∉ placed) :
    g.left placed u = g.left (v :: placed) u + 1 := by
  have hperm := List.perm_cons_erase h
  have hothers : ∀ p ∈ (g.predecessors u).erase v,
      (!placed.contains p) = true ↔ (!(v :: placed).contains p) = true := by
    intro p hp
    have hne : p ≠ v := ((hg.nodup u).mem_erase_iff.mp hp).1
    simp [hne]
  rw [left, left, hperm.countP_eq, hperm.countP_eq, List.countP_cons_of_pos (by simpa using hfresh),
    List.countP_cons_of_neg (by simp), List.countP_congr hothers]

theorem left_cons_of_not_before (h : ¬ g.Before v u) :
    g.left (v :: placed) u = g.left placed u := by
  refine List.countP_congr fun p hp => ?_
  have hne : p ≠ v := fun heq => h (heq ▸ hp)
  simp [hne]

namespace Frontier

variable {f t : Frontier} {w : Nat} {ws : List Nat}

@[simp] theorem size_lower (f : Frontier) (w : Nat) :
    (f.lower w).inDegree.size = f.inDegree.size := by
  simp [lower]

theorem left_lower (hw : w < f.inDegree.size) (u : Nat) :
    (f.lower w).left u = if u = w then f.left w - 1 else f.left u := by
  by_cases hu : u = w
  · simp [left, lower, hu, hw]
  · simp [left, lower, hu, Array.getElem?_setIfInBounds_ne (Ne.symm hu)]

theorem mem_ready_lower (hpos : 0 < f.left w) :
    u ∈ (f.lower w).ready ↔ u ∈ f.ready ∨ u = w ∧ f.left w = 1 := by
  by_cases hlast : f.left w = 1
  · simp [lower, hlast, or_comm]
  · have hmore : f.left w - 1 ≠ 0 := by omega
    simp [lower, hlast, hmore]

theorem nodup_ready_lower (hfresh : w ∉ f.ready) (hready : f.ready.Nodup) :
    (f.lower w).ready.Nodup := by
  by_cases hlast : f.left w - 1 = 0
  · simpa [lower, hlast] using ⟨hfresh, hready⟩
  · simpa [lower, hlast] using hready

/-- `t` is `f` with the counts of the positions `ws` lowered by one. Those that were counted as
waiting for one alone have become ready. -/
structure Lowers (f : Frontier) (ws : List Nat) (t : Frontier) : Prop where
  size : t.inDegree.size = f.inDegree.size
  lowered : ∀ u ∈ ws, f.left u = t.left u + 1
  kept : ∀ u, u ∉ ws → t.left u = f.left u
  nodup : t.ready.Nodup
  mem_ready : ∀ u, u ∈ t.ready ↔ u ∈ f.ready ∨ u ∈ ws ∧ f.left u = 1

/-- Where no count is zero, each one is lowered by exactly one. -/
theorem lowers_foldl (hws : ws.Nodup) (hsize : ∀ w ∈ ws, w < f.inDegree.size)
    (hpos : ∀ w ∈ ws, 0 < f.left w) (hfresh : ∀ w ∈ ws, w ∉ f.ready) (hready : f.ready.Nodup) :
    f.Lowers ws (ws.foldl .lower f) := by
  induction ws generalizing f with
  | nil => exact ⟨rfl, by simp, by simp, hready, by simp⟩
  | cons w rest ih =>
      obtain ⟨hw, hrest⟩ := List.nodup_cons.mp hws
      have hwsize := hsize w List.mem_cons_self
      have hwpos := hpos w List.mem_cons_self
      have hwfresh := hfresh w List.mem_cons_self
      -- lowering `w` touches none of the positions that are lowered after it
      have hne : ∀ u ∈ rest, u ≠ w := fun u hu heq => hw (heq ▸ hu)
      have hleft : ∀ u ∈ rest, (f.lower w).left u = f.left u := by
        intro u hu
        rw [left_lower hwsize, if_neg (hne u hu)]
      have hlowers : (f.lower w).Lowers rest (rest.foldl .lower (f.lower w)) := by
        refine ih hrest ?_ ?_ ?_ (nodup_ready_lower hwfresh hready)
        · intro u hu
          rw [size_lower]
          exact hsize u (List.mem_cons_of_mem _ hu)
        · intro u hu
          rw [hleft u hu]
          exact hpos u (List.mem_cons_of_mem _ hu)
        · intro u hu
          have hufresh := hfresh u (List.mem_cons_of_mem _ hu)
          simp [mem_ready_lower hwpos, hne u hu, hufresh]
      rw [List.foldl_cons]
      refine ⟨hlowers.size.trans (size_lower f w), ?_, ?_, hlowers.nodup, ?_⟩
      · intro u hu
        rcases List.mem_cons.mp hu with rfl | hu
        · rw [hlowers.kept _ hw, left_lower hwsize, if_pos rfl]
          omega
        · rw [← hleft u hu]
          exact hlowers.lowered u hu
      · intro u hu
        obtain ⟨huw, hurest⟩ : u ≠ w ∧ u ∉ rest := by simpa using hu
        rw [hlowers.kept u hurest, left_lower hwsize, if_neg huw]
      · intro u
        rw [hlowers.mem_ready, mem_ready_lower hwpos, List.mem_cons]
        by_cases huw : u = w
        · subst huw
          simp [hw]
        · have hsame : u ∈ rest ∧ (f.lower w).left u = 1 ↔ u ∈ rest ∧ f.left u = 1 :=
            and_congr_right fun hu => by rw [hleft u hu]
          simp [huw, hsame]

/-! ## One step -/

/-- `f` is the frontier once the positions `placed` have come. They left none before them behind,
so nothing is left before a position that has come. -/
structure Follows (g : Precedence) (placed : List Nat) (f : Frontier) : Prop where
  size : f.inDegree.size = g.size
  left : ∀ v, f.left v = g.left placed v
  nodup : f.ready.Nodup
  mem_ready : ∀ v, v ∈ f.ready ↔ g.Ready placed v
  closed : ∀ v ∈ placed, g.left placed v = 0

theorem follows_frontier (g : Precedence) : Follows g [] g.frontier where
  size := by simp [frontier]
  left := by
    intro v
    by_cases hv : v < g.size
    · simp [Frontier.left, frontier, Precedence.left, List.getElem?_range hv]
    · have hnone : g.predecessors v = [] := by
        simp [predecessors, Array.getElem?_eq_none (Nat.le_of_not_lt hv)]
      simp [Frontier.left, frontier, Precedence.left, hnone, Nat.le_of_not_lt hv]
  nodup := List.nodup_range.filter _
  mem_ready := by
    intro v
    simp [frontier, ready_iff_left_eq_zero, Precedence.left]
  closed := by simp

namespace Follows

variable (hg : g.WellFormed) (h : Follows g placed f)

include h

/-- Before anything that a ready position comes before, something is left. -/
theorem left_pos (hv : g.Ready placed v) (hw : g.Before v w) : 0 < f.left w := by
  rw [h.left]
  refine Nat.pos_of_ne_zero fun hzero => ?_
  exact hv.fresh (left_eq_zero_iff.mp hzero v hw)

/-- Nothing comes where nothing is ready. -/
theorem not_ready_of_min?_eq_none (hnone : f.ready.min? = none) (v : Nat) : ¬ g.Ready placed v := by
  rw [← h.mem_ready, List.min?_eq_none_iff.mp hnone]
  exact List.not_mem_nil

theorem mem_erase_ready : u ∈ f.ready.erase v ↔ u ≠ v ∧ g.Ready placed u := by
  rw [h.nodup.mem_erase_iff, h.mem_ready]

theorem lowers_advance (hready : g.Ready placed v) :
    Lowers { f with ready := f.ready.erase v } (g.successors v)
      (f.advance v (g.successors v)) := by
  refine lowers_foldl (nodup_successors g v) ?_ ?_ ?_ (h.nodup.erase v)
  · intro w hw
    exact h.size ▸ (mem_successors.mp hw).lt_size
  · intro w hw
    exact h.left_pos hready (mem_successors.mp hw)
  · intro w hw hmem
    have hwready := (h.mem_erase_ready.mp hmem).2
    exact hready.fresh (hwready.waits v (mem_successors.mp hw))

include hg

theorem left_advance (hready : g.Ready placed v) (w : Nat) :
    (f.advance v (g.successors v)).left w = g.left (v :: placed) w := by
  have hlowers := h.lowers_advance hready
  by_cases hw : g.Before v w
  · have hone : f.left w = (f.advance v (g.successors v)).left w + 1 :=
      hlowers.lowered w (mem_successors.mpr hw)
    rw [h.left, left_eq_succ_of_before hg hw hready.fresh] at hone
    omega
  · have hkept : (f.advance v (g.successors v)).left w = f.left w :=
      hlowers.kept w (mt mem_successors.mp hw)
    rw [hkept, h.left, left_cons_of_not_before hw]

theorem mem_ready_advance (hready : g.Ready placed v) :
    u ∈ (f.advance v (g.successors v)).ready ↔ g.Ready (v :: placed) u := by
  have hlast : u ∈ g.successors v ∧ f.left u = 1 ↔
      g.Before v u ∧ g.left (v :: placed) u = 0 := by
    rw [mem_successors]
    refine and_congr_right fun hu => ?_
    rw [h.left, left_eq_succ_of_before hg hu hready.fresh]
    omega
  rw [(h.lowers_advance hready).mem_ready]
  refine (or_congr h.mem_erase_ready hlast).trans ?_
  constructor
  · intro hu
    rcases hu with ⟨hne, hu⟩ | ⟨hbefore, hzero⟩
    · refine ⟨hu.lt_size, by simpa [hne] using hu.fresh, fun p hp => ?_⟩
      exact List.mem_cons_of_mem _ (hu.waits p hp)
    · -- what has come does not become ready again: nothing was left before it
      refine ready_iff_left_eq_zero.mpr ⟨hbefore.lt_size, ?_, hzero⟩
      intro hplaced
      have hpos := h.left_pos hready hbefore
      rcases List.mem_cons.mp hplaced with rfl | hplaced
      · exact hready.fresh (hready.waits _ hbefore)
      · rw [h.left, h.closed u hplaced] at hpos
        exact Nat.lt_irrefl 0 hpos
  · intro hu
    obtain ⟨hlt, hfresh, hzero⟩ := ready_iff_left_eq_zero.mp hu
    obtain ⟨hne, hfresh⟩ : u ≠ v ∧ u ∉ placed := by simpa using hfresh
    by_cases hbefore : g.Before v u
    · exact .inr ⟨hbefore, hzero⟩
    · rw [left_cons_of_not_before hbefore] at hzero
      exact .inl ⟨hne, ready_iff_left_eq_zero.mpr ⟨hlt, hfresh, hzero⟩⟩

/-- The smallest ready position comes next, and with it the frontier moves on. -/
theorem step (hmin : f.ready.min? = some v) :
    g.Ready placed v ∧ (∀ u, g.Ready placed u → v ≤ u) ∧
      Follows g (v :: placed) (f.advance v (g.successors v)) := by
  obtain ⟨hmem, hleast⟩ := List.min?_eq_some_iff.mp hmin
  have hready := (h.mem_ready v).mp hmem
  have hlowers := h.lowers_advance hready
  refine ⟨hready, fun u hu => hleast u ((h.mem_ready u).mpr hu), ?_⟩
  refine ⟨hlowers.size.trans h.size, h.left_advance hg hready, hlowers.nodup,
    fun u => h.mem_ready_advance hg hready, ?_⟩
  intro u hu
  refine left_eq_zero_iff.mpr fun p hp => List.mem_cons_of_mem _ ?_
  rcases List.mem_cons.mp hu with rfl | hu
  · exact hready.waits p hp
  · exact left_eq_zero_iff.mp (h.closed u hu) p hp

end Follows
end Frontier

/-! ## A whole run -/

def remaining (g : Precedence) (placed : List Nat) : List Nat :=
  (List.range g.size).filter fun v => !placed.contains v

theorem length_remaining_cons_lt (h : g.Ready placed v) :
    (g.remaining (v :: placed)).length < (g.remaining placed).length := by
  have hfilter : g.remaining (v :: placed) = (g.remaining placed).filter (· != v) := by
    rw [remaining, remaining, List.filter_filter]
    refine List.filter_congr fun u _ => ?_
    by_cases hu : u = v <;> simp [hu]
  have hmem : v ∈ g.remaining placed := by
    simpa [remaining] using ⟨h.lt_size, h.fresh⟩
  rw [hfilter]
  exact List.length_filter_lt_length_iff_exists.mpr ⟨v, hmem, by simp⟩

/-- Each position of `order` is the smallest of those that are ready when its turn comes, and none
is ready at the end. -/
def Picks (g : Precedence) : (placed order : List Nat) → Prop
  | placed, [] => ∀ v, ¬ g.Ready placed v
  | placed, v :: rest =>
    g.Ready placed v ∧ (∀ u, g.Ready placed u → v ≤ u) ∧ Picks g (v :: placed) rest

/-- So does a run that may take as many positions as are left. -/
theorem arrangeFrom_picks (hg : g.WellFormed) (count : Nat) {f : Frontier}
    (h : f.Follows g placed) (hcount : (g.remaining placed).length ≤ count) :
    g.Picks placed (arrangeFrom g.successors count f) := by
  induction count generalizing placed f with
  | zero =>
      intro v hv
      have hfewer := length_remaining_cons_lt hv
      omega
  | succ count ih =>
      cases hmin : f.ready.min? with
      | none => simpa [arrangeFrom, hmin, Picks] using h.not_ready_of_min?_eq_none hmin
      | some v =>
          obtain ⟨hready, hleast, hnext⟩ := h.step hg hmin
          have hfewer := length_remaining_cons_lt hready
          simp only [arrangeFrom, hmin]
          exact ⟨hready, hleast, ih hnext (by omega)⟩

theorem arrange_picks (hg : g.WellFormed) : g.Picks [] g.arrange := by
  have htable := getElem?_successorTable hg
  have hstart : g.arrange = arrangeFrom g.successors g.size g.frontier := by
    simp only [arrange, htable]
  rw [hstart]
  apply arrangeFrom_picks hg g.size (Frontier.follows_frontier g)
  simp [remaining]

namespace Picks

theorem unique (h : g.Picks placed order) (hother : g.Picks placed other) : order = other := by
  induction order generalizing placed other with
  | nil =>
      cases other with
      | nil => rfl
      | cons u rest => exact absurd hother.1 (h u)
  | cons v rest ih =>
      cases other with
      | nil => exact absurd h.1 (hother v)
      | cons u others =>
          obtain ⟨hv, hvleast, hrest⟩ := h
          obtain ⟨hu, huleast, hothers⟩ := hother
          obtain rfl : v = u := Nat.le_antisymm (hvleast u hu) (huleast v hv)
          rw [ih hrest hothers]

/-- Where nothing waits for itself, no position is left behind. -/
theorem completes (hg : g.WellFormed) (hwf : WellFounded g.Before) (h : g.Picks placed order) :
    g.Completes placed order := by
  induction order generalizing placed with
  | nil => exact (completes_iff_eq_nil hg hwf h).mpr rfl
  | cons v rest ih => exact ⟨h.1, ih h.2.2⟩

/-- No order that completes what was placed is smaller. -/
theorem least (h : g.Picks placed order) (hother : g.Completes placed other) :
    order = other ∨ List.Lex (· < ·) order other := by
  induction order generalizing placed other with
  | nil =>
      cases other with
      | nil => exact .inl rfl
      | cons u rest => exact absurd hother.1 (h u)
  | cons v rest ih =>
      obtain ⟨hready, hleast, hpicks⟩ := h
      cases other with
      | nil => exact absurd (hother v hready.lt_size) hready.fresh
      | cons u others =>
          obtain ⟨hu, hothers⟩ := hother
          rcases Nat.eq_or_lt_of_le (hleast u hu) with rfl | hlt
          · rcases ih hpicks hothers with heq | hlex
            · exact .inl (by rw [heq])
            · exact .inr (.cons hlex)
          · exact .inr (.rel hlt)

end Picks

/-- Where nothing waits for itself, the arrangement keeps to the precedence, and it is the first
order that does. -/
theorem arrange_least (hg : g.WellFormed) (hwf : WellFounded g.Before) :
    g.Keeps g.arrange ∧
      ∀ other, g.Keeps other → g.arrange = other ∨ List.Lex (· < ·) g.arrange other := by
  have hpicks := arrange_picks hg
  exact ⟨keeps_iff_completes.mpr (hpicks.completes hg hwf),
    fun other h => hpicks.least (keeps_iff_completes.mp h)⟩

/-- Position 0 waits for 2, which waits for 1, so that 3 comes after them. -/
example : arrange ⟨#[[2], [], [1], []]⟩ = [1, 2, 0, 3] := rfl

end Precedence
end Workplan
