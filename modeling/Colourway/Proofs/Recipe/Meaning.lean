/-
  What a recipe means, read off its words as they stand and not word by word.

  A word that takes multipliers (a colour, an adjustment, a transition) takes those that stand
  before it since the last such word (`waiting`). A colour is first changed by all adjustments
  since the colour before it, the one written last first, each made as often as its
  multipliers say, and weighs as much as its own multipliers say (`Mention`). The colours fall
  into layers: one begins at each colour with a transition between it and the colour before it
  (`layersOf`). A layer is repeated once, and for each transition right before its first
  colour by one less than the multipliers of that transition say (`repeats`). Its stop is the
  weighted mean of its colours.

  `means_ofWords` is the invariant that ties the drafts of all beginnings of a recipe to this
  reading; `stops_eq_meaning` says that a recipe without a zero multiplier that is a gradient
  is the one that its words mean.
-/
import Colourway.Proofs.Colour.Adjustment
import Colourway.Proofs.Recipe.Draft

namespace Colourway.Recipe

/-! ## Words and what stands before them -/

/-- The word takes the multipliers that wait before it. -/
def Word.takes : Word → Bool
  | .colour _ | .adjustment _ | .transition => true
  | .multiplier _ | .stray _ => false

/-- A word of a recipe, with all words before it. -/
structure Occurrence where
  before : List Word
  word : Word

def occurrences (words : List Word) : List Occurrence :=
  words.mapIdx fun i w => ⟨words.take i, w⟩

/-- The multipliers that wait for the next word: those since the last word that takes any. -/
def waiting (words : List Word) : List Count :=
  (words.rtakeWhile (!·.takes)).filterMap (·.multiplier?)

/-- The words since the last colour. -/
def sinceColour (words : List Word) : List Occurrence :=
  (occurrences words).rtakeWhile (!·.word.colour?.isSome)

/-- The adjustments since the last colour, and how often each is made. -/
def adjustments (words : List Word) : List (Adjustment × Count) :=
  (sinceColour words).filterMap fun o =>
    o.word.adjustment?.map fun m => (m, Count.prod (waiting o.before))

/-- The multipliers of each transition since the last colour. -/
def passages (words : List Word) : List (List Count) :=
  ((sinceColour words).filter (·.word = .transition)).map fun o => waiting o.before

/-- How often the stop is repeated of the layer that a colour would begin here. -/
def repeats (words : List Word) : Count :=
  (Count.sum ((passages words).map fun l => (Count.prod l).pred)).add 1

/-! ## Colours and layers -/

/-- A colour of a recipe, with all words before it. -/
structure Mention where
  before : List Word
  colour : Colour

namespace Mention

/-- The colour after its adjustments, the one written last made first. -/
def shade (m : Mention) : Colour :=
  (adjustments m.before).foldr (fun a c => a.1.apply^[a.2.val] c) m.colour

def weight (m : Mention) : Count := Count.prod (waiting m.before)

/-- There is a transition between the colour before and this one. -/
def crosses (m : Mention) : Bool := !(passages m.before).isEmpty

end Mention

def mentions (words : List Word) : List Mention :=
  (occurrences words).filterMap fun o => o.word.colour?.map fun c => ⟨o.before, c⟩

/-- The colours of each layer. -/
def layersOf (words : List Word) : List (List Mention) :=
  (mentions words).splitBy fun _ m => !m.crosses

/-- The stops of the layer with the given colours. -/
def meantStops : List Mention → List Stop
  | [] => []
  | m :: ms =>
    List.replicate (repeats m.before).val (Stop.mean ((m :: ms).map fun m => (m.shade, m.weight)))

/-- The stops that the words mean. -/
def meaning (words : List Word) : List Stop := (layersOf words).flatMap meantStops

/-! ## One more word -/

theorem occurrences_concat (words : List Word) (w : Word) :
    occurrences (words ++ [w]) = occurrences words ++ [⟨words, w⟩] := by
  unfold occurrences
  rw [List.mapIdx_concat, List.take_left']
  · refine congrArg (· ++ [_]) (List.mapIdx_eq_mapIdx_iff.2 fun i hi => ?_)
    rw [List.take_append_of_le_length (Nat.le_of_lt hi)]
  · rfl

theorem waiting_concat (words : List Word) (w : Word) :
    waiting (words ++ [w]) = if w.takes then [] else waiting words ++ w.multiplier?.toList := by
  unfold waiting
  rw [List.rtakeWhile_concat]
  cases w <;> simp [Word.takes, Word.multiplier?]

theorem sinceColour_concat (words : List Word) (w : Word) :
    sinceColour (words ++ [w]) =
      if w.colour?.isSome then [] else sinceColour words ++ [⟨words, w⟩] := by
  unfold sinceColour
  rw [occurrences_concat, List.rtakeWhile_concat]
  cases w <;> rfl

theorem adjustments_concat (words : List Word) (w : Word) :
    adjustments (words ++ [w]) =
      if w.colour?.isSome then []
      else adjustments words ++
        (w.adjustment?.map fun m => (m, Count.prod (waiting words))).toList := by
  unfold adjustments
  rw [sinceColour_concat]
  cases w <;> simp [Word.colour?, Word.adjustment?]

theorem passages_concat (words : List Word) (w : Word) :
    passages (words ++ [w]) =
      if w.colour?.isSome then []
      else passages words ++ (if w = .transition then [waiting words] else []) := by
  unfold passages
  rw [sinceColour_concat]
  cases w <;> simp [Word.colour?]

theorem mentions_concat (words : List Word) (w : Word) :
    mentions (words ++ [w]) =
      mentions words ++ (w.colour?.map fun c => (⟨words, c⟩ : Mention)).toList := by
  unfold mentions
  rw [occurrences_concat, List.filterMap_append]
  cases w <;> rfl

/-- When the last part of a list goes on, so does the last of the parts it is split into. -/
theorem splitBy_concat_of_rel {α : Type} {r : α → α → Bool} {l g : List α} {gs : List (List α)}
    {y : α} (h : l.splitBy r = gs ++ [g]) (hr : ∀ x, r x y = true) :
    (l ++ [y]).splitBy r = gs ++ [g ++ [y]] := by
  obtain ⟨hflat, hnil, hchain, hbreak⟩ := List.splitBy_eq_iff.1 h
  have hg : g ≠ [] := fun he => hnil (by simp [he])
  rw [List.splitBy_eq_iff]
  refine ⟨by simp [hflat], by simpa using fun hm => hnil (by simp [hm]), fun m hm => ?_, ?_⟩
  · rcases List.mem_append.1 hm with hm | hm
    · exact hchain m (List.mem_append_left _ hm)
    · rw [List.mem_singleton.1 hm, List.isChain_append]
      exact ⟨hchain g (by simp), List.isChain_singleton y, fun x _ z hz => by
        rw [List.head?_cons, Option.mem_some_iff] at hz
        rw [← hz]
        exact hr x⟩
  · rw [List.isChain_append] at hbreak ⊢
    refine ⟨hbreak.1, List.isChain_singleton _, fun x hx z hz => ?_⟩
    rw [List.head?_cons, Option.mem_some_iff] at hz
    obtain ⟨hx', hg', hxg⟩ := hbreak.2.2 x hx g (by simp)
    subst hz
    refine ⟨hx', by simp, ?_⟩
    rwa [List.head_append_of_ne_nil hg']

theorem layersOf_concat_of_colour?_eq_none {words : List Word} {w : Word}
    (hw : w.colour? = none) : layersOf (words ++ [w]) = layersOf words := by
  rw [layersOf, mentions_concat, hw]
  simp [layersOf]

/-- A colour begins a layer if it is the first one or stands behind a transition. -/
theorem layersOf_concat_of_begins {words : List Word} {c : Colour}
    (h : mentions words = [] ∨ passages words ≠ []) :
    layersOf (words ++ [.colour c]) = layersOf words ++ [[⟨words, c⟩]] := by
  have hm : mentions (words ++ [.colour c]) = mentions words ++ [⟨words, c⟩] :=
    mentions_concat words (.colour c)
  rw [layersOf, hm]
  rcases h with h | h
  · rw [layersOf, h]
    rfl
  · rw [List.splitBy_append_cons, layersOf]
    · rfl
    · intro x _
      simpa [Mention.crosses] using h

/-- Otherwise it joins the last layer. -/
theorem layersOf_concat_of_joins {words : List Word} {c : Colour} {gs : List (List Mention)}
    {g : List Mention} (hp : passages words = []) (h : layersOf words = gs ++ [g]) :
    layersOf (words ++ [.colour c]) = gs ++ [g ++ [⟨words, c⟩]] := by
  have hm : mentions (words ++ [.colour c]) = mentions words ++ [⟨words, c⟩] :=
    mentions_concat words (.colour c)
  rw [layersOf, hm]
  exact splitBy_concat_of_rel h fun x => by simp [Mention.crosses, hp]

theorem layersOf_ne_nil {words : List Word} (h : mentions words ≠ []) : layersOf words ≠ [] :=
  List.splitBy_ne_nil.2 h

theorem nil_notMem_layersOf (words : List Word) : [] ∉ layersOf words :=
  List.nil_notMem_splitBy _ _

/-! ## The reading of a draft -/

/-- The layer of a draft that collects the given colours. -/
def layerOf : List Mention → Layer
  | [] => ⟨[], 1⟩
  | m :: ms => ⟨((m :: ms).map fun m => (m.shade, m.weight)).reverse, repeats m.before⟩

theorem members_layerOf (ms : List Mention) :
    (layerOf ms).members = (ms.map fun m => (m.shade, m.weight)).reverse := by
  cases ms <;> rfl

theorem layerOf_concat {g : List Mention} (hg : g ≠ []) (m : Mention) :
    layerOf (g ++ [m]) = ⟨(m.shade, m.weight) :: (layerOf g).members, (layerOf g).repeats⟩ := by
  cases g with
  | nil => exact absurd rfl hg
  | cons x xs => simp [layerOf]

theorem adjust_eq_shade (words : List Word) (c : Colour) :
    Draft.adjust (adjustments words).reverse c = (⟨words, c⟩ : Mention).shade := by
  unfold Draft.adjust Mention.shade
  rw [List.foldl_reverse]
  simp only [Adjustment.applyTimes_min]

/-- No colour has been put into the layer that the next colour belongs to. -/
def Begins (words : List Word) : Prop := mentions words = [] ∨ passages words ≠ []

/-- The draft holds what the words mean. -/
structure Draft.Means (d : Draft) (words : List Word) : Prop where
  multiplier : d.multiplier = Count.prod (waiting words)
  pending : d.pending = (adjustments words).reverse
  /-- Between layers, the current one has its repeats but no colour yet. -/
  between : Begins words →
    d.current = ⟨[], repeats words⟩ ∧ d.closed.reverse = (layersOf words).map layerOf
  /-- Within a layer, the current one is the last of those that the words mean. -/
  within : ¬ Begins words → d.layers = (layersOf words).map layerOf

theorem one_le_of_mem_waiting {words : List Word} (hw : Positive words) {n : Count}
    (hn : n ∈ waiting words) : 1 ≤ n.val := by
  obtain ⟨w, hmem, hwn⟩ := List.mem_filterMap.1 hn
  have hin : w ∈ words := (List.rtakeWhile_suffix _ _).mem hmem
  cases w with
  | multiplier k =>
    cases hwn
    exact hw n hin
  | _ => cases hwn

theorem repeats_concat_of_not_transition {words : List Word} {w : Word}
    (hc : w.colour? = none) (ht : w ≠ .transition) : repeats (words ++ [w]) = repeats words := by
  rw [repeats, passages_concat, hc, if_neg ht]
  simp [repeats]

theorem repeats_concat_transition (words : List Word) :
    repeats (words ++ [.transition]) = (repeats words).add (Count.prod (waiting words)).pred := by
  have hp : passages (words ++ [.transition]) = passages words ++ [waiting words] :=
    passages_concat words .transition
  rw [repeats, hp, List.map_append, List.map_singleton, Count.sum_concat, Count.add_right_comm]
  rfl

theorem repeats_of_passages_eq_nil {words : List Word} (h : passages words = []) :
    repeats words = 1 := by
  rw [repeats, h]
  rfl

theorem begins_concat_of_not_transition {words : List Word} {w : Word}
    (hc : w.colour? = none) (ht : w ≠ .transition) : Begins (words ++ [w]) ↔ Begins words := by
  unfold Begins
  rw [mentions_concat, passages_concat, hc, if_neg ht]
  simp

theorem begins_concat_transition (words : List Word) : Begins (words ++ [.transition]) := by
  right
  rw [passages_concat]
  simp [Word.colour?]

theorem not_begins_concat_colour (words : List Word) (c : Colour) :
    ¬ Begins (words ++ [.colour c]) := by
  unfold Begins
  rw [mentions_concat, passages_concat]
  simp [Word.colour?]

namespace Draft

variable {d : Draft} {words : List Word}

/-- Within a layer, the layers before the current one are those meant before the last one. -/
theorem Means.split (h : d.Means words) (hb : ¬ Begins words) :
    ∃ gs g, layersOf words = gs ++ [g] ∧ g ≠ [] ∧ d.closed.reverse = gs.map layerOf ∧
      d.current = layerOf g := by
  have hm : mentions words ≠ [] := fun he => hb (.inl he)
  obtain ⟨gs, g, hgs⟩ : ∃ gs g, layersOf words = gs ++ [g] :=
    ⟨_, _, (List.dropLast_append_getLast (layersOf_ne_nil hm)).symm⟩
  have hg : g ≠ [] := fun he => nil_notMem_layersOf words (by rw [hgs, he]; simp)
  have hl := h.within hb
  rw [layers_eq, hgs, List.map_append] at hl
  obtain ⟨hclosed, hcur⟩ := List.append_inj' hl rfl
  exact ⟨gs, g, hgs, hg, hclosed, List.singleton_inj.1 hcur⟩

theorem Means.step_colour (h : d.Means words) (c : Colour) :
    (d.step (.colour c)).Means (words ++ [.colour c]) where
  multiplier := by
    rw [waiting_concat]
    rfl
  pending := by
    rw [adjustments_concat]
    rfl
  between := fun hb => absurd hb (not_begins_concat_colour words c)
  within := fun _ => by
    have hshade := adjust_eq_shade words c
    rw [layers_eq]
    by_cases hb : Begins words
    · obtain ⟨hcur, hclosed⟩ := h.between hb
      rw [layersOf_concat_of_begins hb, List.map_append, ← hclosed]
      simp only [step, h.pending, h.multiplier, hcur, hshade]
      rfl
    · obtain ⟨gs, g, hgs, hg, hclosed, hcur⟩ := h.split hb
      rw [layersOf_concat_of_joins (by_contra fun hp => hb (.inr hp)) hgs, List.map_append,
        ← hclosed, List.map_singleton, layerOf_concat hg, ← hcur]
      simp only [step, h.pending, h.multiplier, hshade]
      rfl

/-- A word that is neither a colour nor a transition leaves the layers alone. -/
theorem Means.step_other (h : d.Means words) {w : Word} (hc : w.colour? = none)
    (ht : w ≠ .transition) : (d.step w).Means (words ++ [w]) := by
  have hlayers : (d.step w).current = d.current ∧ (d.step w).closed = d.closed := by
    cases w with
    | colour c => cases hc
    | transition => exact absurd rfl ht
    | _ => exact ⟨rfl, rfl⟩
  constructor
  · rw [waiting_concat]
    cases w with
    | colour c => cases hc
    | transition => exact absurd rfl ht
    | adjustment m => rfl
    | multiplier n => simp [step, Word.takes, Word.multiplier?, Count.prod_concat, h.multiplier]
    | stray c => simp [step, Word.takes, Word.multiplier?, h.multiplier]
  · rw [adjustments_concat, hc]
    cases w with
    | colour c => cases hc
    | transition => exact absurd rfl ht
    | adjustment m => simp [step, Word.adjustment?, h.pending, h.multiplier]
    | multiplier n => simp [step, Word.adjustment?, h.pending]
    | stray c => simp [step, Word.adjustment?, h.pending]
  · intro hb
    rw [hlayers.1, hlayers.2, repeats_concat_of_not_transition hc ht,
      layersOf_concat_of_colour?_eq_none hc]
    exact h.between ((begins_concat_of_not_transition hc ht).1 hb)
  · intro hb
    rw [layers_eq, hlayers.1, hlayers.2, ← layers_eq, layersOf_concat_of_colour?_eq_none hc]
    exact h.within fun hb' => hb ((begins_concat_of_not_transition hc ht).2 hb')

theorem Means.step_transition (h : d.Means words) (hw : Positive words) :
    (d.step .transition).Means (words ++ [.transition]) := by
  have hpend : (d.step .transition).pending = d.pending ∧ (d.step .transition).multiplier = 1 := by
    unfold Draft.step
    dsimp only
    split <;> exact ⟨rfl, rfl⟩
  constructor
  · rw [hpend.2, waiting_concat]
    rfl
  · rw [hpend.1, adjustments_concat, h.pending]
    simp [Word.colour?, Word.adjustment?]
  · intro _
    rw [layersOf_concat_of_colour?_eq_none rfl, repeats_concat_transition, ← h.multiplier]
    by_cases hb : Begins words
    · obtain ⟨hcur, hclosed⟩ := h.between hb
      have hnil : d.current.members = [] := by rw [hcur]
      rw [step_transition_of_members_eq_nil hnil, ← hclosed, hcur]
      exact ⟨rfl, rfl⟩
    · obtain ⟨gs, g, hgs, hg, hclosed, hcur⟩ := h.split hb
      have hne : d.current.members ≠ [] := by
        rw [hcur, members_layerOf]
        simpa using hg
      have hone : 1 ≤ d.multiplier.val := by
        rw [h.multiplier]
        exact Count.one_le_prod fun n hn => one_le_of_mem_waiting hw hn
      rw [step_transition_of_members_ne_nil hne,
        repeats_of_passages_eq_nil (by_contra fun hp => hb (.inr hp))]
      refine ⟨?_, ?_⟩
      · rw [Count.one_add_pred hone]
      · rw [List.reverse_cons, ← layers_eq]
        exact h.within hb
  · intro hb
    exact absurd (begins_concat_transition words) hb

end Draft

theorem means_start : Draft.start.Means [] where
  multiplier := rfl
  pending := rfl
  between := fun _ => ⟨rfl, rfl⟩
  within := fun h => absurd (.inl rfl) h

/-- The draft of a recipe holds what its words mean. -/
theorem means_ofWords {words : List Word} (hw : Positive words) :
    (Draft.ofWords words).Means words := by
  -- from the first word on, since what a word means depends on those before it
  induction words using List.reverseRecOn with
  | nil => exact means_start
  | append_singleton words w ih =>
    have hbefore := (positive_append.1 hw).1
    have h := ih hbefore
    rw [Draft.ofWords_concat]
    cases w with
    | colour c => exact h.step_colour c
    | transition => exact h.step_transition hbefore
    | adjustment m => exact h.step_other rfl nofun
    | multiplier n => exact h.step_other rfl nofun
    | stray c => exact h.step_other rfl nofun

/-! ## The stops of a recipe -/

theorem Draft.Means.members_eq_nil_iff {d : Draft} {words : List Word} (h : d.Means words) :
    d.current.members = [] ↔ Begins words := by
  constructor
  · intro he
    by_contra hb
    obtain ⟨gs, g, hgs, hg, hclosed, hcur⟩ := h.split hb
    rw [hcur, members_layerOf] at he
    exact hg (by simpa using he)
  · intro hb
    rw [(h.between hb).1]

theorem stopsOf_layerOf {g : List Mention} (hg : g ≠ []) (hs : (layerOf g).Sound) :
    Draft.stopsOf (layerOf g) = meantStops g := by
  cases g with
  | nil => exact absurd rfl hg
  | cons m ms =>
    have hne : (layerOf (m :: ms)).members ≠ [] := by simp [layerOf]
    rw [Draft.stopsOf_eq_replicate hs hne, members_layerOf, List.reverse_reverse]
    rfl

theorem Draft.Means.stops_eq {d : Draft} {words : List Word} (h : d.Means words)
    (hd : d.Sound) (hb : ¬ Begins words) : d.stops = meaning words := by
  have hl := h.within hb
  rw [Draft.stops, hl, meaning, List.flatMap_map]
  refine List.flatMap_congr fun g hg => ?_
  have hne : g ≠ [] := fun he => nil_notMem_layersOf words (he ▸ hg)
  refine stopsOf_layerOf hne (hd.of_mem_layers ?_)
  rw [hl]
  exact List.mem_map_of_mem hg

/-- A recipe that is a gradient has the stops that its words mean. -/
theorem stops_eq_meaning {words : List Word} {g : Gradient} (hw : Positive words)
    (h : (Draft.ofWords words).finish = .ok g) : g.stops = meaning words := by
  have hd := Draft.sound_ofWords hw
  have hmeans := means_ofWords hw
  obtain ⟨hne, -, hstops⟩ := (Draft.finish_eq_ok_iff hd).1 h
  rw [hstops]
  exact hmeans.stops_eq hd fun hb => hne (hmeans.members_eq_nil_iff.2 hb)

/-- Two transitions, multipliers and adjustments before the first colour; a layer of two
colours; a transition told twice in front of the second layer. -/
theorem stops_eq_meaning_two_layers :
    let words : List Word :=
      [.multiplier 2, .transition, .multiplier 3, .adjustment .dark, .stray '?',
        .multiplier 2, .transition, .adjustment .light, .multiplier 2, .colour .black,
        .colour .white, .multiplier 3, .transition, .adjustment .translucent, .colour .clear]
    Positive words ∧ ∃ g, (Draft.ofWords words).finish = .ok g ∧ g.stops = meaning words := by
  refine ⟨by decide, _, rfl, stops_eq_meaning (by decide) rfl⟩

end Colourway.Recipe
