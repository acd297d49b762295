/-
  Drafts while they are written and when they end.

  * A sound draft (`Draft.Sound`) has closed no layer without a colour, and none of its
    numbers is zero. A word keeps a draft sound (`Sound.step`), hence every run of words
    without a zero multiplier does (`sound_ofWords`).
  * The layers already closed do not matter to what a word does (`step_above`), so a run goes
    on in the same way whatever lies under it (`foldl_step_above`).
  * A sound draft ends as a gradient of exactly `Draft.stops` when its current layer has a
    colour and the stops are not too many (`finish_eq_ok_iff`); `stopCount` is their number,
    held at the limit (`stopCount_eq`).
-/
import Colourway.Proofs.Colour.Stop
import Colourway.Recipe.Draft

namespace Colourway.Recipe

def Word.colour? : Word → Option Colour
  | .colour c => some c
  | _ => none

def Word.adjustment? : Word → Option Adjustment
  | .adjustment m => some m
  | _ => none

def Word.multiplier? : Word → Option Count
  | .multiplier n => some n
  | _ => none

/-- No multiplier among the words is zero. -/
def Positive (words : List Word) : Prop := ∀ n, Word.multiplier n ∈ words → 1 ≤ n.val

theorem mem_multipliers {words : List Word} {n : Count} :
    n ∈ words.filterMap (·.multiplier?) ↔ Word.multiplier n ∈ words := by
  rw [List.mem_filterMap]
  constructor
  · rintro ⟨w, hw, hn⟩
    cases w with
    | multiplier k => cases hn; exact hw
    | _ => cases hn
  · intro h
    exact ⟨_, h, rfl⟩

instance (words : List Word) : Decidable (Positive words) :=
  decidable_of_iff (∀ n ∈ words.filterMap (·.multiplier?), 1 ≤ n.val)
    (forall_congr' fun _ => imp_congr_left mem_multipliers)

theorem positive_append {words more : List Word} :
    Positive (words ++ more) ↔ Positive words ∧ Positive more := by
  constructor
  · intro h
    exact ⟨fun n hn => h n (List.mem_append_left _ hn),
      fun n hn => h n (List.mem_append_right _ hn)⟩
  · intro h n hn
    rcases List.mem_append.1 hn with hn | hn
    · exact h.1 n hn
    · exact h.2 n hn

/-- A layer none of whose numbers is zero. -/
structure Layer.Sound (layer : Layer) : Prop where
  weights : ∀ m ∈ layer.members, 1 ≤ m.2.val
  repeats : 1 ≤ layer.repeats.val

namespace Draft

/-- A draft that a run of words without a zero multiplier may lead to. -/
structure Sound (d : Draft) : Prop where
  current : d.current.Sound
  closed : ∀ layer ∈ d.closed, layer.Sound ∧ layer.members ≠ []
  multiplier : 1 ≤ d.multiplier.val

theorem layers_eq (d : Draft) : d.layers = d.closed.reverse ++ [d.current] := by
  simp [layers]

theorem mem_layers {d : Draft} {layer : Layer} :
    layer ∈ d.layers ↔ layer = d.current ∨ layer ∈ d.closed := by
  simp [layers, or_comm]

theorem Sound.of_mem_layers {d : Draft} (hd : d.Sound) {layer : Layer} (h : layer ∈ d.layers) :
    layer.Sound := by
  rcases mem_layers.1 h with rfl | h
  · exact hd.current
  · exact (hd.closed layer h).1

/-! ## Runs of words -/

theorem step_transition_of_members_eq_nil {d : Draft} (h : d.current.members = []) :
    d.step .transition =
      { d with current := ⟨[], d.current.repeats.add d.multiplier.pred⟩, multiplier := 1 } :=
  if_pos (List.isEmpty_iff.2 h)

theorem step_transition_of_members_ne_nil {d : Draft} (h : d.current.members ≠ []) :
    d.step .transition =
      { d with
        closed := d.current :: d.closed, current := ⟨[], d.multiplier⟩, multiplier := 1 } :=
  if_neg fun he => h (List.isEmpty_iff.1 he)

theorem ofWords_append (words more : List Word) :
    ofWords (words ++ more) = more.foldl step (ofWords words) := List.foldl_append

theorem ofWords_concat (words : List Word) (w : Word) :
    ofWords (words ++ [w]) = (ofWords words).step w := ofWords_append words [w]

theorem sound_start : start.Sound where
  current := ⟨by simp [start], by decide⟩
  closed := by simp [start]
  multiplier := by decide

theorem one_le_val_one : 1 ≤ (1 : Count).val := by decide

theorem Sound.step {d : Draft} (hd : d.Sound) {w : Word}
    (hw : ∀ n, w = .multiplier n → 1 ≤ n.val) : (d.step w).Sound := by
  have hlimit : 1 ≤ Count.limit := by decide
  cases w with
  | colour c =>
    refine ⟨⟨fun m hm => ?_, hd.current.repeats⟩, hd.closed, one_le_val_one⟩
    rcases List.mem_cons.1 hm with rfl | hm
    · exact hd.multiplier
    · exact hd.current.weights m hm
  | adjustment m => exact ⟨hd.current, hd.closed, one_le_val_one⟩
  | multiplier n =>
    have hn : 1 ≤ n.val := hw n rfl
    have hprod : 1 ≤ d.multiplier.val * n.val := Nat.mul_pos hd.multiplier hn
    refine ⟨hd.current, hd.closed, ?_⟩
    simp only [Draft.step, Count.val_mul]
    omega
  | transition =>
    by_cases hc : d.current.members = []
    · have hrep := hd.current.repeats
      rw [step_transition_of_members_eq_nil hc]
      refine ⟨⟨by simp, ?_⟩, hd.closed, one_le_val_one⟩
      simp only [Count.val_add, Count.val_pred]
      omega
    · rw [step_transition_of_members_ne_nil hc]
      refine ⟨⟨by simp, hd.multiplier⟩, fun layer hl => ?_, one_le_val_one⟩
      rcases List.mem_cons.1 hl with rfl | hl
      · exact ⟨hd.current, hc⟩
      · exact hd.closed layer hl
  | stray c => exact hd

theorem Sound.foldl_step {d : Draft} (hd : d.Sound) {words : List Word} (hw : Positive words) :
    (words.foldl Draft.step d).Sound := by
  induction words generalizing d with
  | nil => exact hd
  | cons w words ih =>
    refine ih (hd.step fun n hn => hw n ?_) fun n hn => hw n (List.mem_cons_of_mem _ hn)
    rw [hn]
    exact List.mem_cons_self

theorem sound_ofWords {words : List Word} (hw : Positive words) : (ofWords words).Sound :=
  sound_start.foldl_step hw

/-! ## Layers underneath -/

/-- The draft with more closed layers, listed latest first, before its own. -/
def above (d : Draft) (base : List Layer) : Draft := { d with closed := d.closed ++ base }

theorem step_above (d : Draft) (base : List Layer) (w : Word) :
    (d.above base).step w = (d.step w).above base := by
  cases w with
  | transition =>
    unfold Draft.step above
    dsimp only
    split <;> rfl
  | _ => rfl

theorem foldl_step_above (words : List Word) (d : Draft) (base : List Layer) :
    words.foldl step (d.above base) = (words.foldl step d).above base := by
  induction words generalizing d with
  | nil => rfl
  | cons w words ih => rw [List.foldl_cons, List.foldl_cons, step_above, ih]

theorem layers_above (d : Draft) (base : List Layer) :
    (d.above base).layers = base.reverse ++ d.layers := by
  simp [layers, above]

/-! ## The end of a recipe -/

/-- The stops that the layers come to, however many. -/
def stops (d : Draft) : List Stop := d.layers.flatMap stopsOf

theorem stopsOf_of_members_eq_nil {layer : Layer} (h : layer.members = []) :
    stopsOf layer = [] := by
  rw [stopsOf, h]
  rfl

theorem stopsOf_eq_replicate {layer : Layer} (hl : layer.Sound) (hne : layer.members ≠ []) :
    stopsOf layer = List.replicate layer.repeats.val (Stop.mean layer.members.reverse) := by
  obtain ⟨m, hm⟩ := List.exists_mem_of_ne_nil _ hne
  have hmix : Stop.mix layer.members.reverse = some (Stop.mean layer.members.reverse) :=
    Stop.mix_eq_mean ⟨m, List.mem_reverse.2 hm, hl.weights m hm⟩
  rw [stopsOf, hmix]

theorem length_stopsOf {layer : Layer} (hl : layer.Sound) :
    (stopsOf layer).length = if layer.members.isEmpty then 0 else layer.repeats.val := by
  by_cases h : layer.members = []
  · rw [stopsOf_of_members_eq_nil h, if_pos (List.isEmpty_iff.2 h), List.length_nil]
  · rw [stopsOf_eq_replicate hl h, if_neg (fun he => h (List.isEmpty_iff.1 he)),
      List.length_replicate]

theorem length_flatMap_stopsOf {l : List Layer} (hl : ∀ layer ∈ l, layer.Sound) :
    (l.flatMap stopsOf).length =
      Count.trueSum ((l.filter fun layer => !layer.members.isEmpty).map (·.repeats)) := by
  induction l with
  | nil => rfl
  | cons layer l ih =>
    have ih := ih fun other ho => hl other (List.mem_cons_of_mem _ ho)
    rw [List.flatMap_cons, List.length_append, length_stopsOf (hl layer List.mem_cons_self), ih,
      List.filter_cons]
    cases layer.members.isEmpty <;> simp [Count.trueSum]

theorem stopCount_eq {d : Draft} (hd : d.Sound) : d.stopCount = .ofNat d.stops.length := by
  rw [stopCount, Count.sum_eq_ofNat, stops, length_flatMap_stopsOf fun _ => hd.of_mem_layers]

theorem stops_ne_nil {d : Draft} (hd : d.Sound) (hne : d.current.members ≠ []) :
    d.stops ≠ [] := by
  have hrep := hd.current.repeats
  have hlen := length_stopsOf hd.current
  rw [if_neg (fun he => hne (List.isEmpty_iff.1 he))] at hlen
  intro hnil
  have hcur := List.flatMap_eq_nil_iff.1 hnil d.current (mem_layers.2 (.inl rfl))
  rw [hcur, List.length_nil] at hlen
  omega

theorem maxStops_lt_stopCount_iff {d : Draft} (hd : d.Sound) :
    Gradient.maxStops < d.stopCount.val ↔ Gradient.maxStops < d.stops.length := by
  have hmax : Gradient.maxStops < Count.limit := by decide
  rw [stopCount_eq hd, Count.lt_val_ofNat_iff hmax]

theorem finish_of_members_eq_nil {d : Draft} (h : d.current.members = []) :
    d.finish = .error (if d.closed.isEmpty then .noColours else .trailingTransition) := by
  rw [finish, if_pos (List.isEmpty_iff.2 h)]

theorem finish_of_too_long {d : Draft} (hd : d.Sound) (hne : d.current.members ≠ [])
    (hlong : Gradient.maxStops < d.stops.length) :
    d.finish = .error (.tooManyStops (.ofNat d.stops.length)) := by
  rw [finish, if_neg (fun he => hne (List.isEmpty_iff.1 he)),
    if_pos ((maxStops_lt_stopCount_iff hd).2 hlong), stopCount_eq hd]

theorem exists_finish_eq_ok {d : Draft} (hd : d.Sound) (hne : d.current.members ≠ [])
    (hlen : d.stops.length ≤ Gradient.maxStops) :
    ∃ g, d.finish = .ok g ∧ g.stops = d.stops := by
  have hpos : 0 < d.stops.length := List.length_pos_iff.2 (stops_ne_nil hd hne)
  have hg : Gradient.ofStops? d.stops = some ⟨d.stops, hpos, hlen⟩ :=
    Gradient.ofStops?_eq_some_iff.2 rfl
  refine ⟨⟨d.stops, hpos, hlen⟩, ?_, rfl⟩
  rw [finish, if_neg (fun he => hne (List.isEmpty_iff.1 he)),
    if_neg (fun h => Nat.not_lt.2 hlen ((maxStops_lt_stopCount_iff hd).1 h))]
  unfold stops at hg
  rw [hg]
  rfl

theorem finish_eq_ok_iff {d : Draft} (hd : d.Sound) {g : Gradient} :
    d.finish = .ok g ↔
      d.current.members ≠ [] ∧ d.stops.length ≤ Gradient.maxStops ∧ g.stops = d.stops := by
  constructor
  · intro h
    have hne : d.current.members ≠ [] := fun he => by
      rw [finish_of_members_eq_nil he] at h
      cases h
    have hlen : d.stops.length ≤ Gradient.maxStops := by
      by_contra hlong
      rw [finish_of_too_long hd hne (Nat.lt_of_not_le hlong)] at h
      cases h
    obtain ⟨g', hg', hs⟩ := exists_finish_eq_ok hd hne hlen
    rw [hg'] at h
    cases h
    exact ⟨hne, hlen, hs⟩
  · rintro ⟨hne, hlen, hs⟩
    obtain ⟨g', hg', hs'⟩ := exists_finish_eq_ok hd hne hlen
    rw [hg', Gradient.ext (hs'.trans hs.symm)]

end Draft

end Colourway.Recipe
