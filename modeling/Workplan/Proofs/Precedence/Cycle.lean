import Workplan.Proofs.Precedence.Search
import Mathlib.Data.List.Chain

/-!
# Cycles that the search names

While a position is visited, every position that is entered and not yet left leads to it. So once
a position is left, each position that comes after it has either been left before or leads back to
it (`Settled`), and an edge from it to one that finished later closes a cycle. Together with
`wellFounded_before` this decides whether there is a cycle: one is named exactly if there is one,
and what is named lies on one.
-/

namespace Workplan
namespace Precedence

open Relation (ReflTransGen TransGen)

variable {g : Precedence} {s t : Search} {p v : Nat} {positions finished : List Nat}

/-- `v` has to come before itself, directly or through others. -/
def OnCycle (g : Precedence) (v : Nat) : Prop :=
  TransGen g.Before v v

/-- What comes after a position of the list stands behind it or leads back to it. -/
def Settled (g : Precedence) : List Nat → Prop
  | [] => True
  | v :: rest => (∀ w, g.Before v w → w ∈ rest ∨ ReflTransGen g.Before w v) ∧ Settled g rest

theorem Settled.behind_or_leads (h : g.Settled finished) (hp : p ∈ finished) (hv : g.Before p v) :
    v ∈ finished ∨ ReflTransGen g.Before v p := by
  induction finished with
  | nil => cases hp
  | cons x rest ih =>
      obtain ⟨hx, hrest⟩ := h
      rcases List.mem_cons.mp hp with rfl | hp
      · exact (hx v hv).imp_left (List.mem_cons_of_mem _)
      · exact (ih hrest hp).imp_left (List.mem_cons_of_mem _)

namespace Search

/-- `v` was entered and is not yet left. -/
def Open (s : Search) (v : Nat) : Prop :=
  v ∈ s.entered ∧ v ∉ s.finished

structure Sound (g : Precedence) (s : Search) : Prop where
  nodup_entered : s.entered.Nodup
  lt_size : ∀ v ∈ s.entered, v < g.size
  nodup_finished : s.finished.Nodup
  entered_of_finished : s.finished ⊆ s.entered
  settled : g.Settled s.finished
  loop : ∀ v, s.loop = some v → g.Before v v

/-- `t` is a state after `s` in which `positions` are entered and the same positions are open. -/
structure Reaches (g : Precedence) (positions : List Nat) (s t : Search) : Prop where
  sound : t.Sound g
  entered : s.entered ⊆ t.entered
  visited : positions ⊆ t.entered
  open_iff : ∀ v, t.Open v ↔ s.Open v

theorem sound_start (g : Precedence) : Sound g .start where
  nodup_entered := List.nodup_nil
  lt_size := by simp [start]
  nodup_finished := List.nodup_nil
  entered_of_finished := List.Subset.refl _
  settled := trivial
  loop := by simp [start]

theorem Sound.length_entered_lt (h : s.Sound g) (hv : v < g.size) (hfresh : v ∉ s.entered) :
    s.entered.length < g.size := by
  have hnodup : (v :: s.entered).Nodup := List.nodup_cons.mpr ⟨hfresh, h.nodup_entered⟩
  have hsubset : v :: s.entered ⊆ List.range g.size := by
    intro w hw
    rcases List.mem_cons.mp hw with rfl | hw
    · exact List.mem_range.mpr hv
    · exact List.mem_range.mpr (h.lt_size w hw)
  have hlength := hnodup.length_le_of_subset hsubset
  rw [List.length_cons, List.length_range] at hlength
  omega

/-- A visit may go as deep as there are positions left to enter. -/
theorem Reaches.depth_le {depth : Nat} (hs : s.Sound g) (h : Reaches g positions s t)
    (hdepth : g.size ≤ depth + s.entered.length) : g.size ≤ depth + t.entered.length := by
  have hlength := hs.nodup_entered.length_le_of_subset h.entered
  omega

theorem Reaches.refl (hs : s.Sound g) (h : positions ⊆ s.entered) : Reaches g positions s s where
  sound := hs
  entered := List.Subset.refl _
  visited := h
  open_iff := fun _ => Iff.rfl

/-- Visits one after the other reach their positions if each of them does. -/
theorem Reaches.foldl {visit : Search → Nat → Search} {depth : Nat}
    (hvisit : ∀ s v, s.Sound g → v < g.size → g.size ≤ depth + s.entered.length →
      (∀ x, s.Open x → ReflTransGen g.Before x v) → Reaches g [v] s (visit s v))
    (hs : s.Sound g) (hlt : ∀ v ∈ positions, v < g.size)
    (hdepth : g.size ≤ depth + s.entered.length)
    (hopen : ∀ v ∈ positions, ∀ x, s.Open x → ReflTransGen g.Before x v) :
    Reaches g positions s (positions.foldl visit s) := by
  induction positions generalizing s with
  | nil => exact .refl hs (List.nil_subset _)
  | cons v rest ih =>
      have hfirst := hvisit s v hs (hlt v List.mem_cons_self) hdepth (hopen v List.mem_cons_self)
      have hrest := ih hfirst.sound (fun w hw => hlt w (List.mem_cons_of_mem _ hw))
        (hfirst.depth_le hs hdepth)
        (fun w hw x hx => hopen w (List.mem_cons_of_mem _ hw) x ((hfirst.open_iff x).mp hx))
      refine ⟨hrest.sound, fun x hx => hrest.entered (hfirst.entered hx), ?_, ?_⟩
      · intro w hw
        rcases List.mem_cons.mp hw with rfl | hw
        · exact hrest.entered (hfirst.visited List.mem_cons_self)
        · exact hrest.visited hw
      · exact fun x => (hrest.open_iff x).trans (hfirst.open_iff x)

/-- Entering `v`, which is noted if it comes before itself. -/
theorem Sound.enter (h : s.Sound g) (hv : v < g.size) (hfresh : v ∉ s.entered) :
    Sound g ⟨v :: s.entered, s.finished,
      s.loop.or (if (g.successors v).contains v then some v else none)⟩ where
  nodup_entered := List.nodup_cons.mpr ⟨hfresh, h.nodup_entered⟩
  lt_size := by
    intro w hw
    rcases List.mem_cons.mp hw with rfl | hw
    · exact hv
    · exact h.lt_size w hw
  nodup_finished := h.nodup_finished
  entered_of_finished := fun w hw => List.mem_cons_of_mem _ (h.entered_of_finished hw)
  settled := h.settled
  loop := by
    intro w hw
    rcases Option.or_eq_some_iff.mp hw with hloop | ⟨-, hloop⟩
    · exact h.loop w hloop
    · simp only [List.contains_iff_mem, Option.ite_none_right_eq_some, Option.some.injEq] at hloop
      obtain ⟨hmem, rfl⟩ := hloop
      exact mem_successors.mp hmem

/-- Leaving the open position `v`, all of whose successors are entered. -/
theorem Sound.leave (h : t.Sound g) (hv : t.Open v)
    (hnext : ∀ w, g.Before v w → w ∈ t.finished ∨ ReflTransGen g.Before w v) :
    Sound g { t with finished := v :: t.finished } where
  nodup_entered := h.nodup_entered
  lt_size := h.lt_size
  nodup_finished := List.nodup_cons.mpr ⟨hv.2, h.nodup_finished⟩
  entered_of_finished := by
    intro w hw
    rcases List.mem_cons.mp hw with rfl | hw
    · exact hv.1
    · exact h.entered_of_finished hw
  settled := ⟨hnext, h.settled⟩
  loop := h.loop

end Search

open Search

theorem visit_reaches (depth : Nat) (s : Search) (v : Nat) (hs : s.Sound g) (hv : v < g.size)
    (hdepth : g.size ≤ depth + s.entered.length)
    (hopen : ∀ x, s.Open x → ReflTransGen g.Before x v) :
    Reaches g [v] s (visit g.successors depth s v) := by
  induction depth generalizing s v with
  | zero =>
      have hentered : v ∈ s.entered := by
        apply Classical.byContradiction
        intro hfresh
        have hlength := hs.length_entered_lt hv hfresh
        omega
      exact .refl hs (by simpa using hentered)
  | succ depth ih =>
      rw [visit]
      split
      · next hentered => exact .refl hs (by simpa using hentered)
      · next hfresh =>
        dsimp only
        have hfresh : v ∉ s.entered := by simpa using hfresh
        have hnotOpen : ¬ s.Open v := fun h => hfresh h.1
        -- while the successors are visited, `v` is open, and all that is open leads to them
        have henter := hs.enter hv hfresh
        generalize s.loop.or _ = loop at henter ⊢
        have hinner : ∀ x, Open ⟨v :: s.entered, s.finished, loop⟩ x ↔ x = v ∨ s.Open x := by
          intro x
          have hleft : v ∉ s.finished := fun h => hfresh (hs.entered_of_finished h)
          by_cases hx : x = v
          · simp [Open, hx, hleft]
          · simp [Open, hx]
        have hleads : ∀ x, Open ⟨v :: s.entered, s.finished, loop⟩ x →
            ReflTransGen g.Before x v := by
          intro x hx
          rcases (hinner x).mp hx with rfl | hx
          · exact .refl
          · exact hopen x hx
        have hfold := Reaches.foldl ih henter
          (fun w (hw : w ∈ g.successors v) => (mem_successors.mp hw).lt_size)
          (by simp only [List.length_cons]; omega)
          (fun w hw x hx => (hleads x hx).tail (mem_successors.mp hw))
        generalize (g.successors v).foldl _ _ = t at hfold ⊢
        have hvOpen : t.Open v := (hfold.open_iff v).mpr ((hinner v).mpr (.inl rfl))
        refine ⟨hfold.sound.leave hvOpen ?_, ?_, ?_, ?_⟩
        · intro w hw
          by_cases hfinished : w ∈ t.finished
          · exact .inl hfinished
          · have hentered := hfold.visited (mem_successors.mpr hw)
            exact .inr (hleads w ((hfold.open_iff w).mp ⟨hentered, hfinished⟩))
        · exact fun x hx => hfold.entered (List.mem_cons_of_mem _ hx)
        · simpa using hvOpen.1
        · intro x
          have hopenInner := (hfold.open_iff x).trans (hinner x)
          by_cases hx : x = v
          · subst hx
            exact iff_of_false (fun h => h.2 List.mem_cons_self) hnotOpen
          · have hsame : Open { t with finished := v :: t.finished } x ↔ t.Open x := by
              simp [Open, hx]
            rw [hsame, hopenInner, or_iff_right hx]

theorem search_sound (hg : g.WellFormed) : g.search.Sound g := by
  have hreaches : Reaches g (List.range g.size) .start g.search := by
    rw [search_eq hg]
    refine Reaches.foldl (visit_reaches g.size) (sound_start g) ?_ (Nat.le_add_right _ _) ?_
    · exact fun v hv => List.mem_range.mp hv
    · exact fun v _ x hx => absurd hx.1 List.not_mem_nil
  exact hreaches.sound

/-- An edge from a position to one that finished after it closes a cycle. -/
theorem onCycle_of_backEdge? {earlier : List Nat} (hsettled : g.Settled finished)
    (hnodup : finished.Nodup) (hall : ∀ p v, g.Before p v → p ∈ earlier ∨ p ∈ finished)
    (h : g.backEdge? earlier finished = some p) : g.OnCycle p := by
  induction finished generalizing earlier with
  | nil => simp [backEdge?] at h
  | cons v rest ih =>
      obtain ⟨hv, hrest⟩ := List.nodup_cons.mp hnodup
      unfold backEdge? at h
      split at h
      · next q hq =>
        obtain rfl := Option.some.inj h
        have hbefore : g.Before q v := List.mem_of_find?_eq_some hq
        obtain ⟨hne, hnotEarlier⟩ : q ≠ v ∧ q ∉ earlier := by simpa using List.find?_some hq
        have hmem := (hall q v hbefore).resolve_left hnotEarlier
        have hlater : q ∈ rest := (List.mem_cons.mp hmem).resolve_left hne
        have hleads := (hsettled.2.behind_or_leads hlater hbefore).resolve_left hv
        exact TransGen.head' hbefore hleads
      · refine ih hsettled.2 hrest (fun q w hq => ?_) h
        rcases hall q w hq with hearlier | hmem
        · exact .inl (List.mem_cons_of_mem _ hearlier)
        · rcases List.mem_cons.mp hmem with rfl | hmem
          · exact .inl List.mem_cons_self
          · exact .inr hmem

/-- What is named lies on a cycle. -/
theorem onCycle_of_cycleMember? (hg : g.WellFormed) (h : g.cycleMember? = some v) :
    g.OnCycle v := by
  have hsound := search_sound hg
  simp only [cycleMember?] at h
  split at h
  · next w hloop =>
    obtain rfl := Option.some.inj h
    exact .single (hsound.loop w hloop)
  · refine onCycle_of_backEdge? hsound.settled hsound.nodup_finished (fun p w hp => ?_) h
    exact .inr (mem_finished_search hg (hg.lt_size w p hp))

/-- A cycle is named exactly if there is one. -/
theorem cycleMember?_eq_none (hg : g.WellFormed) :
    g.cycleMember? = none ↔ ∀ v, ¬ g.OnCycle v := by
  constructor
  · intro h v hv
    exact (wellFounded_before hg h).transGen.asymmetric v v hv hv
  · intro h
    cases hmember : g.cycleMember? with
    | none => rfl
    | some v => exact absurd (onCycle_of_cycleMember? hg hmember) (h v)

end Precedence
end Workplan
