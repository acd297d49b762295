/-
  Drafts that go on alike. Two drafts may hold their layers or their waiting adjustments in
  different ways and yet answer to every further word in the same way: when the layers
  correspond one by one, when what waits does the same to every colour, and when the
  multipliers are the same (`Draft.Alike`).

  What it means for two layers to correspond is left open. It has to survive one more colour in
  both and to tell the repeats and whether there is a colour at all (`LayerRelation`); then a
  word keeps two drafts alike (`Alike.step`), so a run of words does (`Alike.foldl_step`). If
  layers that correspond come to the same stops, the two drafts end in the same way
  (`Alike.finish_eq`).
-/
import Colourway.Proofs.Colour.Adjustment
import Colourway.Proofs.Recipe.Draft

namespace Colourway.Recipe

/-- The layer with one more colour. -/
def Layer.push (layer : Layer) (m : Colour × Count) : Layer := ⟨m :: layer.members, layer.repeats⟩

/-- A correspondence of layers that further words keep up. -/
structure LayerRelation (R : Layer → Layer → Prop) : Prop where
  empty : ∀ n, R ⟨[], n⟩ ⟨[], n⟩
  push : ∀ {l l' : Layer}, R l l' → ∀ m, R (l.push m) (l'.push m)
  members_eq_nil_iff : ∀ {l l' : Layer}, R l l' → (l.members = [] ↔ l'.members = [])
  repeats_eq : ∀ {l l' : Layer}, R l l' → l.repeats = l'.repeats

theorem layerRelation_eq : LayerRelation (· = ·) where
  empty := fun _ => rfl
  push := fun h m => congrArg (·.push m) h
  members_eq_nil_iff := fun h => h ▸ Iff.rfl
  repeats_eq := fun h => h ▸ rfl

namespace Draft

variable {R : Layer → Layer → Prop} {d d' : Draft}

/-- The drafts differ at most in how they tell their layers and what waits for a colour. -/
structure Alike (R : Layer → Layer → Prop) (d d' : Draft) : Prop where
  current : R d.current d'.current
  closed : List.Forall₂ R d.closed d'.closed
  adjust_eq : ∀ c, adjust d.pending c = adjust d'.pending c
  multiplier_eq : d.multiplier = d'.multiplier

theorem adjust_cons (m : Adjustment) (n : Count) (pending : List (Adjustment × Count))
    (c : Colour) : adjust ((m, n) :: pending) c = adjust pending (m.apply^[n.val] c) := by
  unfold adjust
  rw [List.foldl_cons, Adjustment.applyTimes_min]

theorem Alike.step (hR : LayerRelation R) (h : Alike R d d') (w : Word) :
    Alike R (d.step w) (d'.step w) := by
  cases w with
  | colour c =>
    refine ⟨?_, h.closed, fun _ => rfl, rfl⟩
    have hmember : (adjust d.pending c, d.multiplier) = (adjust d'.pending c, d'.multiplier) := by
      rw [h.adjust_eq, h.multiplier_eq]
    show R (d.current.push (adjust d.pending c, d.multiplier))
      (d'.current.push (adjust d'.pending c, d'.multiplier))
    rw [← hmember]
    exact hR.push h.current _
  | adjustment m =>
    refine ⟨h.current, h.closed, fun c => ?_, rfl⟩
    simp only [Draft.step, adjust_cons, h.multiplier_eq, h.adjust_eq]
  | multiplier n => exact ⟨h.current, h.closed, h.adjust_eq, congrArg (·.mul n) h.multiplier_eq⟩
  | transition =>
    by_cases hc : d.current.members = []
    · rw [step_transition_of_members_eq_nil hc,
        step_transition_of_members_eq_nil ((hR.members_eq_nil_iff h.current).1 hc),
        hR.repeats_eq h.current, h.multiplier_eq]
      exact ⟨hR.empty _, h.closed, h.adjust_eq, rfl⟩
    · rw [step_transition_of_members_ne_nil hc,
        step_transition_of_members_ne_nil (mt (hR.members_eq_nil_iff h.current).2 hc),
        h.multiplier_eq]
      exact ⟨hR.empty _, h.closed.cons h.current, h.adjust_eq, rfl⟩
  | stray c => exact h

theorem Alike.foldl_step (hR : LayerRelation R) (h : Alike R d d') (words : List Word) :
    Alike R (words.foldl Draft.step d) (words.foldl Draft.step d') := by
  induction words generalizing d d' with
  | nil => exact h
  | cons w words ih => exact ih (h.step hR w)

/-! ## The end -/

theorem Alike.layers (h : Alike R d d') : List.Forall₂ R d.layers d'.layers := by
  unfold Draft.layers
  exact List.forall₂_reverse_iff.2 (.cons h.current h.closed)

theorem isEmpty_congr (hR : LayerRelation R) {l l' : Layer} (h : R l l') :
    l.members.isEmpty = l'.members.isEmpty := by
  rw [Bool.eq_iff_iff, List.isEmpty_iff, List.isEmpty_iff, hR.members_eq_nil_iff h]

/-- Layers that correspond are counted in the same way. -/
theorem filter_repeats_congr (hR : LayerRelation R) {ls ls' : List Layer}
    (h : List.Forall₂ R ls ls') :
    (ls.filter fun layer => !layer.members.isEmpty).map (·.repeats) =
      (ls'.filter fun layer => !layer.members.isEmpty).map (·.repeats) := by
  induction h with
  | nil => rfl
  | cons hl _ ih =>
    rw [List.filter_cons, List.filter_cons, isEmpty_congr hR hl]
    split
    · rw [List.map_cons, List.map_cons, hR.repeats_eq hl, ih]
    · exact ih

theorem flatMap_stopsOf_congr {ls ls' : List Layer} (h : List.Forall₂ R ls ls')
    (hstops : ∀ l ∈ ls, ∀ l', R l l' → stopsOf l = stopsOf l') :
    ls.flatMap stopsOf = ls'.flatMap stopsOf := by
  induction h with
  | nil => rfl
  | cons hl _ ih =>
    rw [List.flatMap_cons, List.flatMap_cons, hstops _ List.mem_cons_self _ hl,
      ih fun l hmem => hstops l (List.mem_cons_of_mem _ hmem)]

/-- Drafts alike end in the same way, if layers that correspond come to the same stops. -/
theorem Alike.finish_eq (hR : LayerRelation R) (h : Alike R d d')
    (hstops : ∀ l ∈ d.layers, ∀ l', R l l' → stopsOf l = stopsOf l') : d.finish = d'.finish := by
  have hclosed : d.closed.isEmpty = d'.closed.isEmpty := by
    rw [Bool.eq_iff_iff, List.isEmpty_iff_length_eq_zero, List.isEmpty_iff_length_eq_zero,
      h.closed.length_eq]
  have hcount : d.stopCount = d'.stopCount :=
    congrArg Count.sum (filter_repeats_congr hR h.layers)
  unfold finish
  rw [isEmpty_congr hR h.current, hclosed, hcount, flatMap_stopsOf_congr h.layers hstops]

end Draft

end Colourway.Recipe
