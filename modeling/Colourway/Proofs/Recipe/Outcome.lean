/-
  How a recipe ends, told from its words. Without a colour it has no stops at all; with a
  transition behind its last colour it leads to nothing; else it is a gradient, unless its
  stops are too many (`finish_outcome`).

  The number of stops is told in true numbers: `stopTotal` multiplies and adds without a
  limit. A draft counts with numbers held at `Count.limit` in three places (the product of the
  multipliers, the repeats of a layer, the total), and still comes to the true number, held
  once (`stopCount_ofWords`).
-/
import Colourway.Proofs.Recipe.Meaning

namespace Colourway.Recipe

/-- How often the stop is repeated of the layer that a colour would begin here, as a true
number. -/
def trueRepeats (words : List Word) : Nat :=
  1 + ((passages words).map fun l => Count.trueProd l - 1).sum

/-- How many stops a layer comes to, as a true number. -/
def layerTotal : List Mention → Nat
  | [] => 0
  | m :: _ => trueRepeats m.before

/-- How many stops the layers with a colour come to, as a true number. -/
def stopTotal (words : List Word) : Nat := ((layersOf words).map layerTotal).sum

/-- A transition stands behind the last colour. -/
def TrailsOff (words : List Word) : Prop :=
  ∃ before c rest, words = before ++ Word.colour c :: rest ∧ .transition ∈ rest ∧
    ∀ c', Word.colour c' ∉ rest

/-! ## True numbers -/

theorem before_prefix_of_mem_occurrences {words : List Word} {o : Occurrence}
    (h : o ∈ occurrences words) : o.before <+: words := by
  obtain ⟨i, hi, rfl⟩ := List.mem_mapIdx.1 h
  exact List.take_prefix i words

theorem before_prefix_of_mem_mentions {words : List Word} {m : Mention}
    (h : m ∈ mentions words) : m.before <+: words := by
  obtain ⟨o, ho, hm⟩ := List.mem_filterMap.1 h
  obtain ⟨c, -, rfl⟩ := Option.map_eq_some_iff.1 hm
  exact before_prefix_of_mem_occurrences ho

theorem Positive.of_isPrefix {words before : List Word} (hw : Positive words)
    (h : before <+: words) : Positive before := by
  obtain ⟨rest, rfl⟩ := h
  exact (positive_append.1 hw).1

theorem one_le_trueProd_of_mem_passages {words : List Word} (hw : Positive words)
    {l : List Count} (hl : l ∈ passages words) : 1 ≤ Count.trueProd l := by
  obtain ⟨o, ho, rfl⟩ := List.mem_map.1 hl
  have hocc : o ∈ occurrences words := (List.rtakeWhile_suffix _ _).mem (List.mem_filter.1 ho).1
  have hbefore := hw.of_isPrefix (before_prefix_of_mem_occurrences hocc)
  exact Count.one_le_trueProd fun n hn => one_le_of_mem_waiting hbefore hn

theorem repeats_eq_ofNat {words : List Word} (hw : Positive words) :
    repeats words = .ofNat (trueRepeats words) := by
  have hone : ∀ n ∈ (passages words).map Count.trueProd, 1 ≤ n := fun n hn => by
    obtain ⟨l, hl, rfl⟩ := List.mem_map.1 hn
    exact one_le_trueProd_of_mem_passages hw hl
  have h := Count.one_add_sum_pred _ hone
  rw [List.map_map, List.map_map] at h
  simp only [repeats, Count.prod_eq_ofNat]
  exact h

/-- The layers of a draft that have a colour are those that the words mean. -/
theorem Draft.Means.filter_layers {d : Draft} {words : List Word} (h : d.Means words)
    (hd : d.Sound) :
    (d.layers.filter fun layer => !layer.members.isEmpty) = (layersOf words).map layerOf := by
  by_cases hb : Begins words
  · obtain ⟨hcur, hclosed⟩ := h.between hb
    rw [layers_eq, List.filter_append, ← hclosed, hcur, List.filter_eq_self.2]
    · exact List.append_nil _
    · intro layer hl
      simpa using (hd.closed layer (List.mem_reverse.1 hl)).2
  · rw [h.within hb, List.filter_eq_self]
    intro layer hl
    obtain ⟨g, hg, rfl⟩ := List.mem_map.1 hl
    have hne : g ≠ [] := fun he => nil_notMem_layersOf words (he ▸ hg)
    simpa [members_layerOf] using hne

theorem repeats_layerOf {words : List Word} (hw : Positive words) {g : List Mention}
    (hg : g ∈ layersOf words) : (layerOf g).repeats = .ofNat (layerTotal g) := by
  cases g with
  | nil => exact absurd hg (nil_notMem_layersOf words)
  | cons m ms =>
    have hmem : m ∈ (layersOf words).flatten := List.mem_flatten.2 ⟨_, hg, List.mem_cons_self⟩
    rw [layersOf, List.flatten_splitBy] at hmem
    exact repeats_eq_ofNat (hw.of_isPrefix (before_prefix_of_mem_mentions hmem))

/-- The draft counts the stops rightly, but for holding their number at the limit. -/
theorem stopCount_ofWords {words : List Word} (hw : Positive words) :
    (Draft.ofWords words).stopCount = .ofNat (stopTotal words) := by
  have hlayers := (means_ofWords hw).filter_layers (Draft.sound_ofWords hw)
  rw [Draft.stopCount, hlayers, List.map_map, stopTotal, ← Count.sum_map_ofNat, List.map_map]
  exact congrArg Count.sum (List.map_congr_left fun g hg => repeats_layerOf hw hg)

/-! ## Where colours and transitions stand -/

theorem mentions_eq_nil_iff {words : List Word} :
    mentions words = [] ↔ ∀ c, Word.colour c ∉ words := by
  induction words using List.reverseRecOn with
  | nil => simp [mentions, occurrences]
  | append_singleton words w ih =>
    rw [mentions_concat, List.append_eq_nil_iff, ih]
    cases w with
    | colour c => exact iff_of_false (by simp [Word.colour?]) fun h => h c (by simp)
    | _ => simp [Word.colour?]

theorem exists_last_colour {words : List Word} {c : Colour} (h : Word.colour c ∈ words) :
    ∃ before c rest, words = before ++ Word.colour c :: rest ∧ ∀ c', Word.colour c' ∉ rest := by
  induction words using List.reverseRecOn with
  | nil => cases h
  | append_singleton words w ih =>
    by_cases hw : ∃ c', w = .colour c'
    · obtain ⟨c', rfl⟩ := hw
      exact ⟨words, c', [], rfl, fun _ => List.not_mem_nil⟩
    · have hin : Word.colour c ∈ words := by
        rcases List.mem_append.1 h with h | h
        · exact h
        · exact absurd ⟨c, (List.mem_singleton.1 h).symm⟩ hw
      obtain ⟨before, c₁, rest, rfl, hrest⟩ := ih hin
      refine ⟨before, c₁, rest ++ [w], by simp, fun c' hc' => ?_⟩
      rcases List.mem_append.1 hc' with hc' | hc'
      · exact hrest c' hc'
      · exact hw ⟨c', (List.mem_singleton.1 hc').symm⟩

/-- Behind the last colour, the passages are the transitions there. -/
theorem passages_eq_nil_iff {before rest : List Word} {c : Colour}
    (h : ∀ c', Word.colour c' ∉ rest) :
    passages (before ++ .colour c :: rest) = [] ↔ .transition ∉ rest := by
  induction rest using List.reverseRecOn with
  | nil => simp [passages_concat, Word.colour?]
  | append_singleton rest w ih =>
    have hw : w.colour? = none := by
      cases w with
      | colour c' => exact absurd (List.mem_append_right _ List.mem_cons_self) (h c')
      | _ => rfl
    have ih := ih fun c' hc' => h c' (List.mem_append_left _ hc')
    rw [← List.cons_append, ← List.append_assoc, passages_concat, hw,
      if_neg (by simp), List.append_eq_nil_iff, ih]
    simp only [List.mem_append, List.mem_singleton, not_or]
    refine and_congr_right fun _ => ?_
    by_cases ht : w = .transition <;> simp [ht, eq_comm]

theorem trailsOff_iff {words : List Word} :
    TrailsOff words ↔ mentions words ≠ [] ∧ passages words ≠ [] := by
  constructor
  · rintro ⟨before, c, rest, rfl, ht, hc⟩
    refine ⟨fun hm => ?_, fun hp => (passages_eq_nil_iff hc).1 hp ht⟩
    exact mentions_eq_nil_iff.1 hm c (by simp)
  · rintro ⟨hm, hp⟩
    obtain ⟨c, hc⟩ : ∃ c, Word.colour c ∈ words := by
      by_contra hno
      exact hm (mentions_eq_nil_iff.2 fun c hc => hno ⟨c, hc⟩)
    obtain ⟨before, c, rest, rfl, hrest⟩ := exists_last_colour hc
    refine ⟨before, c, rest, rfl, ?_, hrest⟩
    by_contra ht
    exact hp ((passages_eq_nil_iff hrest).2 ht)

/-! ## The four ends -/

variable {words : List Word}

theorem finish_of_no_colours (hw : Positive words) (hc : ∀ c, Word.colour c ∉ words) :
    (Draft.ofWords words).finish = .error .noColours := by
  have hm : mentions words = [] := mentions_eq_nil_iff.2 hc
  obtain ⟨hcur, hclosed⟩ := (means_ofWords hw).between (.inl hm)
  have hnil : (Draft.ofWords words).closed = [] := by
    rw [layersOf, hm] at hclosed
    exact List.reverse_eq_nil_iff.1 hclosed
  rw [Draft.finish_of_members_eq_nil (by rw [hcur]), hnil]
  rfl

theorem finish_of_trailsOff (hw : Positive words) (ht : TrailsOff words) :
    (Draft.ofWords words).finish = .error .trailingTransition := by
  obtain ⟨hm, hp⟩ := trailsOff_iff.1 ht
  obtain ⟨hcur, hclosed⟩ := (means_ofWords hw).between (.inr hp)
  have hne : (Draft.ofWords words).closed ≠ [] := fun he => by
    rw [he] at hclosed
    exact layersOf_ne_nil hm (List.map_eq_nil_iff.1 hclosed.symm)
  rw [Draft.finish_of_members_eq_nil (by rw [hcur]),
    if_neg (fun he => hne (List.isEmpty_iff.1 he))]

/-- A recipe with a colour and nothing to trail off to ends within a layer. -/
theorem members_ne_nil_of_not_trailsOff (hw : Positive words) (hc : ∃ c, Word.colour c ∈ words)
    (ht : ¬ TrailsOff words) : (Draft.ofWords words).current.members ≠ [] := by
  obtain ⟨c, hc⟩ := hc
  have hm : mentions words ≠ [] := fun he => mentions_eq_nil_iff.1 he c hc
  intro he
  rcases (means_ofWords hw).members_eq_nil_iff.1 he with h | h
  · exact hm h
  · exact ht (trailsOff_iff.2 ⟨hm, h⟩)

theorem ofNat_length_stops (hw : Positive words) :
    Count.ofNat (Draft.ofWords words).stops.length = .ofNat (stopTotal words) := by
  rw [← Draft.stopCount_eq (Draft.sound_ofWords hw), stopCount_ofWords hw]

theorem maxStops_lt_length_iff (hw : Positive words) :
    Gradient.maxStops < (Draft.ofWords words).stops.length ↔
      Gradient.maxStops < stopTotal words := by
  have hmax : Gradient.maxStops < Count.limit := by decide
  rw [← Count.lt_val_ofNat_iff hmax, ofNat_length_stops hw, Count.lt_val_ofNat_iff hmax]

theorem finish_of_too_many (hw : Positive words) (hc : ∃ c, Word.colour c ∈ words)
    (ht : ¬ TrailsOff words) (hlong : Gradient.maxStops < stopTotal words) :
    (Draft.ofWords words).finish = .error (.tooManyStops (.ofNat (stopTotal words))) := by
  rw [← ofNat_length_stops hw]
  exact Draft.finish_of_too_long (Draft.sound_ofWords hw)
    (members_ne_nil_of_not_trailsOff hw hc ht) ((maxStops_lt_length_iff hw).2 hlong)

theorem length_stops_of_le (hw : Positive words) (hlen : stopTotal words ≤ Gradient.maxStops) :
    (Draft.ofWords words).stops.length = stopTotal words := by
  have hmax : Gradient.maxStops < Count.limit := by decide
  have hv := congrArg Count.val (ofNat_length_stops hw)
  rw [Count.val_ofNat, Count.val_ofNat] at hv
  omega

theorem exists_finish_of_not_too_many (hw : Positive words) (hc : ∃ c, Word.colour c ∈ words)
    (ht : ¬ TrailsOff words) (hlen : stopTotal words ≤ Gradient.maxStops) :
    ∃ g, (Draft.ofWords words).finish = .ok g ∧ g.length = stopTotal words := by
  have hstops := length_stops_of_le hw hlen
  obtain ⟨g, hg, hs⟩ := Draft.exists_finish_eq_ok (Draft.sound_ofWords hw)
    (members_ne_nil_of_not_trailsOff hw hc ht) (hstops.trans_le hlen)
  refine ⟨g, hg, ?_⟩
  rw [Gradient.length, hs, hstops]

/-- Every draft on the way has a layer, and only its last layer may lack a colour. Which of
its four ends a recipe comes to depends on where its colours and transitions stand and on the
true number of its stops. -/
theorem finish_outcome (hw : Positive words) :
    let d := Draft.ofWords words
    let total := stopTotal words
    (d.layers ≠ [] ∧ ∀ layer ∈ d.layers.dropLast, layer.members ≠ []) ∧
    (d.finish = .error .noColours ↔ ∀ c, Word.colour c ∉ words) ∧
    (d.finish = .error .trailingTransition ↔ TrailsOff words) ∧
    (∀ found, d.finish = .error (.tooManyStops found) ↔
      (∃ c, Word.colour c ∈ words) ∧ ¬ TrailsOff words ∧ 1024 < total ∧
        found.val = min total (2 ^ 64 - 1)) ∧
    ((∃ g, d.finish = .ok g) ↔
      (∃ c, Word.colour c ∈ words) ∧ ¬ TrailsOff words ∧ total ≤ 1024) ∧
    (∀ g, d.finish = .ok g → g.length = total ∧ 1 ≤ total) ∧
    d.stopCount.val = min total (2 ^ 64 - 1) := by
  intro d total
  have hd : d.Sound := Draft.sound_ofWords hw
  have hcount : d.stopCount.val = min total (2 ^ 64 - 1) := by
    rw [show d.stopCount = .ofNat total from stopCount_ofWords hw]
    rfl
  have hinv : d.layers ≠ [] ∧ ∀ layer ∈ d.layers.dropLast, layer.members ≠ [] := by
    rw [Draft.layers_eq, List.dropLast_concat]
    exact ⟨by simp, fun layer hl => (hd.closed layer (List.mem_reverse.1 hl)).2⟩
  have hcolours : (∃ c, Word.colour c ∈ words) ↔ ¬ ∀ c, Word.colour c ∉ words := by
    simp
  have hfound : ∀ found : Count,
      Count.ofNat total = found ↔ found.val = min total (2 ^ 64 - 1) := fun found => by
    constructor
    · rintro rfl
      rfl
    · intro h
      exact Count.ext h.symm
  refine ⟨hinv, ?_⟩
  by_cases hc : ∀ c, Word.colour c ∉ words
  · have hnot : ¬ TrailsOff words := fun ⟨before, c, rest, he, _⟩ => hc c (by simp [he])
    have hfin : d.finish = .error .noColours := finish_of_no_colours hw hc
    simp [hfin, hc, hnot, hcount]
  · by_cases ht : TrailsOff words
    · have hfin : d.finish = .error .trailingTransition := finish_of_trailsOff hw ht
      simp [hfin, hc, ht, hcount]
    · by_cases hlong : 1024 < total
      · have hfin : d.finish = .error (.tooManyStops (.ofNat total)) :=
          finish_of_too_many hw (hcolours.2 hc) ht hlong
        simp [hfin, hcolours, hc, ht, hlong, hcount, hfound]
      · have hle : total ≤ 1024 := Nat.not_lt.1 hlong
        obtain ⟨g, hfin, hlen⟩ : ∃ g, d.finish = .ok g ∧ g.length = total :=
          exists_finish_of_not_too_many hw (hcolours.2 hc) ht hle
        have hpos : 1 ≤ total := hlen ▸ g.length_pos
        simp [hfin, hcolours, hc, ht, hle, hcount, hlen, hpos]

/-- The product of the multipliers is far beyond `2 ^ 64`, and the greatest count is reported. -/
theorem finish_outcome_huge :
    let words : List Word :=
      .colour .black :: List.replicate 20 (.multiplier 13) ++ [.transition, .colour .white]
    Positive words ∧ stopTotal words = 1 + 13 ^ 20 ∧
      (Draft.ofWords words).finish = .error (.tooManyStops ⟨2 ^ 64 - 1, by decide⟩) := by
  intro words
  have hw : Positive words := by decide
  have htotal : stopTotal words = 1 + 13 ^ 20 := by decide +kernel
  have hp : passages words = [] := by decide +kernel
  have ht : ¬ TrailsOff words := fun h => (trailsOff_iff.1 h).2 hp
  refine ⟨hw, htotal, ((finish_outcome hw).2.2.2.1 _).2 ⟨⟨.black, List.mem_cons_self⟩, ht, ?_⟩⟩
  rw [htotal]
  decide

end Colourway.Recipe
