/-
  Multipliers before a transition. Such a transition opens one layer that is repeated; without
  them, as many transitions each open a layer of their own. The drafts of the two ways of
  writing never meet, for the layers stay apart in the second one. They come to the same stops
  all the same (`flatMap_stopsOf_repeated`), and a draft ends by its stops (`finish_congr`).

  A run of words without a transition only fills the current layer, so it does the same
  whatever the repeats of that layer and whatever lies under it (`foldl_step_atop`). Behind a
  colour nothing waits (`Settled`), so a transition there starts anew
  (`Settled.step_transition`). `Settled.foldl_step_passes` tells all passes through a run by one
  of them, and what follows the last pass meets the layers only from above.
  `finish_repeated` is the main statement.
-/
import Colourway.Proofs.Recipe.Draft

namespace Colourway.Recipe

namespace Draft

/-! ## Runs within a layer -/

/-- The draft with other layers under it, and other repeats of its current layer. -/
def atop (d : Draft) (base : List Layer) (repeats : Count) : Draft :=
  { d with closed := base, current := ⟨d.current.members, repeats⟩ }

theorem step_atop (d : Draft) (base : List Layer) (repeats : Count) {w : Word}
    (hw : w ≠ .transition) : (d.atop base repeats).step w = (d.step w).atop base repeats := by
  cases w with
  | transition => exact absurd rfl hw
  | _ => rfl

theorem foldl_step_atop {words : List Word} (hw : .transition ∉ words) (d : Draft)
    (base : List Layer) (repeats : Count) :
    words.foldl step (d.atop base repeats) = (words.foldl step d).atop base repeats := by
  induction words generalizing d with
  | nil => rfl
  | cons w words ih =>
    simp only [List.mem_cons, not_or] at hw
    rw [List.foldl_cons, List.foldl_cons, step_atop _ _ _ (Ne.symm hw.1), ih hw.2]

/-- A colour has just been written: it has taken all that was waiting. -/
structure Settled (d : Draft) : Prop where
  members : d.current.members ≠ []
  pending : d.pending = []
  multiplier : d.multiplier = 1

theorem settled_step_colour (d : Draft) (c : Colour) : (d.step (.colour c)).Settled where
  members := List.cons_ne_nil _ _
  pending := rfl
  multiplier := rfl

theorem settled_ofWords {words : List Word} {c : Colour}
    (hlast : words.getLast? = some (.colour c)) : (ofWords words).Settled := by
  obtain ⟨before, rfl⟩ := List.getLast?_eq_some_iff.1 hlast
  rw [ofWords_concat]
  exact settled_step_colour _ c

theorem Settled.atop {d : Draft} (hd : d.Settled) (base : List Layer) (repeats : Count) :
    (d.atop base repeats).Settled := ⟨hd.members, hd.pending, hd.multiplier⟩

theorem foldl_step_multipliers (d : Draft) (counts : List Count) :
    (counts.map Word.multiplier).foldl step d =
      { d with multiplier := counts.foldl Count.mul d.multiplier } := by
  induction counts generalizing d with
  | nil => rfl
  | cons n counts ih => rw [List.map_cons, List.foldl_cons, ih]; rfl

/-- Multipliers and a transition behind a colour open an empty layer, with nothing else
waiting. -/
theorem Settled.step_transition {d : Draft} (hd : d.Settled) (counts : List Count) :
    ((counts.map Word.multiplier).foldl step d).step .transition =
      start.atop (d.current :: d.closed) (Count.prod counts) := by
  have hne : ({ d with multiplier := Count.prod counts } : Draft).current.members ≠ [] :=
    hd.members
  rw [foldl_step_multipliers, hd.multiplier]
  refine (step_transition_of_members_ne_nil hne).trans ?_
  simp only [hd.pending]
  rfl

/-! ## Passes through a run -/

variable {body : List Word} {c : Colour}

/-- One pass: multipliers, a transition and a run without one. -/
theorem Settled.foldl_step_pass {d : Draft} (hd : d.Settled) (hbody : .transition ∉ body)
    (counts : List Count) :
    (counts.map Word.multiplier ++ .transition :: body).foldl step d =
      (ofWords body).atop (d.current :: d.closed) (Count.prod counts) := by
  rw [List.foldl_append, List.foldl_cons, hd.step_transition, foldl_step_atop hbody]
  rfl

/-- Pass after pass, each leaves its layer under the next one. -/
theorem Settled.foldl_step_passes {d : Draft} (hd : d.Settled) (hbody : .transition ∉ body)
    (hlast : body.getLast? = some (.colour c)) (n : Nat) :
    (List.replicate (n + 1) (.transition :: body)).flatten.foldl step d =
      (ofWords body).atop
        (List.replicate n ⟨(ofWords body).current.members, 1⟩ ++ d.current :: d.closed) 1 := by
  have hpass : ∀ {d : Draft}, d.Settled → (.transition :: body).foldl step d =
      (ofWords body).atop (d.current :: d.closed) 1 :=
    fun hd => hd.foldl_step_pass hbody []
  -- on the number of passes, the last one apart
  induction n with
  | zero => simpa using hpass hd
  | succ n ih =>
    rw [List.replicate_succ', List.flatten_append, List.foldl_append, ih, List.flatten_singleton,
      hpass ((settled_ofWords hlast).atop _ _), List.replicate_succ]
    rfl

/-! ## Repeats told out -/

/-- The layer told `n` times stands for as many layers told once. -/
theorem stopsOf_eq_flatMap (members : List (Colour × Count)) (n : Count) :
    stopsOf ⟨members, n⟩ = (List.replicate n.val ⟨members, 1⟩).flatMap stopsOf := by
  have hone : (1 : Count).val = 1 := rfl
  rw [List.flatMap_replicate]
  unfold stopsOf
  dsimp only
  cases Stop.mix members.reverse with
  | none => simp
  | some stop => simp [hone]

/-- Two drafts whose layers come to the same stops, in spite of how these are told, end
alike. -/
theorem finish_congr {d d' : Draft} (hd : d.Sound) (hd' : d'.Sound)
    (hcur : d.current.members = [] ↔ d'.current.members = [])
    (hclosed : d.closed = [] ↔ d'.closed = []) (hstops : d.stops = d'.stops) :
    d.finish = d'.finish := by
  by_cases hnil : d.current.members = []
  · have hempty : d.closed.isEmpty = d'.closed.isEmpty := by
      rw [Bool.eq_iff_iff, List.isEmpty_iff, List.isEmpty_iff, hclosed]
    rw [finish_of_members_eq_nil hnil, finish_of_members_eq_nil (hcur.1 hnil), hempty]
  · have hnil' : d'.current.members ≠ [] := fun h => hnil (hcur.2 h)
    by_cases hlong : Gradient.maxStops < d.stops.length
    · rw [finish_of_too_long hd hnil hlong, finish_of_too_long hd' hnil' (hstops ▸ hlong), hstops]
    · obtain ⟨g, hg, hs⟩ := exists_finish_eq_ok hd hnil (Nat.not_lt.1 hlong)
      rw [hg]
      refine ((finish_eq_ok_iff hd').2 ⟨hnil', hstops ▸ Nat.not_lt.1 hlong, hs.trans hstops⟩).symm

/-- A layer on top that is repeated, and as many layers on top each told once. -/
theorem flatMap_stopsOf_repeated (members : List (Colour × Count)) {n : Count} {k : Nat}
    (hk : n.val = k + 1) (base : List Layer) :
    (Layer.mk members n :: base).reverse.flatMap stopsOf =
      (Layer.mk members 1 :: (List.replicate k (Layer.mk members 1) ++ base)).reverse.flatMap
        stopsOf := by
  rw [← List.cons_append, ← List.replicate_succ, List.reverse_cons, List.reverse_append,
    List.reverse_replicate, List.flatMap_append, List.flatMap_append, List.flatMap_singleton,
    stopsOf_eq_flatMap, hk]

/-- What follows a layer, if it starts with a transition or is nothing at all, ends in the same
way whether the layer is repeated or told out. -/
theorem Settled.finish_foldl_step_atop {d : Draft} (hd : d.Settled) {base : List Layer}
    (hbase : base ≠ []) {n : Count} {k : Nat} (hk : n.val = k + 1) {post : List Word}
    (hpost : ∀ w ∈ post.head?, w = .transition)
    (hs : (post.foldl step (d.atop base n)).Sound)
    (hs' : (post.foldl step
      (d.atop (List.replicate k ⟨d.current.members, 1⟩ ++ base) 1)).Sound) :
    (post.foldl step (d.atop base n)).finish =
      (post.foldl step (d.atop (List.replicate k ⟨d.current.members, 1⟩ ++ base) 1)).finish := by
  have hstops := flatMap_stopsOf_repeated d.current.members hk base
  cases post with
  | nil => exact finish_congr hs hs' Iff.rfl (by simp [Draft.atop, hbase]) hstops
  | cons w more =>
    obtain rfl : w = .transition := hpost w rfl
    have htop : ∀ base n, (d.atop base n).step .transition =
        start.above (⟨d.current.members, n⟩ :: base) :=
      fun base n => (hd.atop base n).step_transition []
    rw [List.foldl_cons, htop, foldl_step_above] at hs hs' ⊢
    rw [List.foldl_cons, htop, foldl_step_above]
    refine finish_congr hs hs' Iff.rfl (by simp [above]) ?_
    rw [stops, stops, layers_above, layers_above, List.flatMap_append, List.flatMap_append,
      hstops]

end Draft

/-! ## Recipes -/

theorem positive_map_multiplier {counts : List Count} (h : ∀ n ∈ counts, 1 ≤ n.val) :
    Positive (counts.map .multiplier) := by
  intro n hn
  obtain ⟨m, hm, heq⟩ := List.mem_map.1 hn
  exact h n (Word.multiplier.inj heq ▸ hm)

theorem Positive.flatten_replicate {words : List Word} (h : Positive words) (k : Nat) :
    Positive (List.replicate k words).flatten := by
  intro n hn
  obtain ⟨l, hl, hn⟩ := List.mem_flatten.1 hn
  rw [List.eq_of_mem_replicate hl] at hn
  exact h n hn

/-- A multiplied transition repeats the stop behind it: with multipliers of product `n`, a
transition and a run of words up to a colour end in the same way as `n` transitions each
followed by that run. -/
theorem finish_repeated {pre body post : List Word} {counts : List Count}
    (hpre : ∃ c, pre.getLast? = some (.colour c)) (hbody : .transition ∉ body)
    (hlast : ∃ c, body.getLast? = some (.colour c)) (hpost : ∀ w ∈ post.head?, w = .transition)
    (hcounts : ∀ n ∈ counts, 1 ≤ n.val) (hw : Positive (pre ++ body ++ post))
    (hn : Count.trueProd counts < 2 ^ 64) :
    (Draft.ofWords (pre ++ counts.map .multiplier ++ .transition :: body ++ post)).finish =
      (Draft.ofWords (pre ++
        (List.replicate (Count.trueProd counts) (.transition :: body)).flatten ++ post)).finish := by
  obtain ⟨c, hpre⟩ := hpre
  obtain ⟨c', hlast⟩ := hlast
  obtain ⟨k, hk⟩ := Nat.exists_eq_add_of_le' (Count.one_le_trueProd hcounts)
  have hval : (Count.prod counts).val = k + 1 := by
    rw [Count.prod_eq_ofNat, Count.val_ofNat_of_le (Nat.le_of_lt_succ hn), hk]
  obtain ⟨⟨hpp, hpb⟩, hps⟩ := (positive_append.1 hw).imp_left positive_append.1
  have hpass : Positive (.transition :: body) := fun n hn =>
    hpb n ((List.mem_cons.1 hn).resolve_left nofun)
  have hleft : Draft.ofWords (pre ++ counts.map .multiplier ++ .transition :: body ++ post) =
      post.foldl Draft.step ((Draft.ofWords body).atop
        ((Draft.ofWords pre).current :: (Draft.ofWords pre).closed) (Count.prod counts)) := by
    rw [Draft.ofWords_append, List.append_assoc, Draft.ofWords_append,
      (Draft.settled_ofWords hpre).foldl_step_pass hbody]
  have hright : Draft.ofWords
      (pre ++ (List.replicate (k + 1) (.transition :: body)).flatten ++ post) =
      post.foldl Draft.step ((Draft.ofWords body).atop
        (List.replicate k ⟨(Draft.ofWords body).current.members, 1⟩ ++
          (Draft.ofWords pre).current :: (Draft.ofWords pre).closed) 1) := by
    rw [Draft.ofWords_append, Draft.ofWords_append,
      (Draft.settled_ofWords hpre).foldl_step_passes hbody hlast]
  have hs := Draft.sound_ofWords (positive_append.2 ⟨positive_append.2
    ⟨positive_append.2 ⟨hpp, positive_map_multiplier hcounts⟩, hpass⟩, hps⟩)
  have hs' := Draft.sound_ofWords (positive_append.2
    ⟨positive_append.2 ⟨hpp, hpass.flatten_replicate (k + 1)⟩, hps⟩)
  rw [hleft] at hs
  rw [hright] at hs'
  rw [hk, hleft, hright]
  exact (Draft.settled_ofWords hlast).finish_foldl_step_atop (List.cons_ne_nil _ _) hval hpost
    hs hs'

/-- Repeats before the first colour, a mixture told fifteen hundred times, and an empty layer
that is repeated itself. The long recipe is too long by as much as the short one. -/
theorem finish_repeated_beyond_limit :
    let pre : List Word := [.multiplier 3, .transition, .colour .white]
    let body : List Word :=
      [.adjustment .dark, .multiplier 2, .colour .white, .stray ',', .colour .black]
    let post : List Word := [.transition, .multiplier 4, .transition, .colour .clear]
    Positive (pre ++ body ++ post) ∧ .transition ∉ body ∧ Count.trueProd [30, 50] = 1500 ∧
      (Draft.ofWords (pre ++ (List.replicate 1500 (.transition :: body)).flatten ++ post)).finish =
        .error (.tooManyStops 1507) := by
  intro pre body post
  have hw : Positive (pre ++ body ++ post) := by decide
  have hbody : .transition ∉ body := by decide
  have hn : Count.trueProd [30, 50] = 1500 := rfl
  have hpost : ∀ w ∈ post.head?, w = .transition := by decide
  have hcounts : ∀ n ∈ ([30, 50] : List Count), 1 ≤ n.val := by decide
  have h := finish_repeated ⟨_, rfl⟩ hbody ⟨_, rfl⟩ hpost hcounts hw (by decide)
  rw [hn] at h
  exact ⟨hw, hbody, hn, h.symm⟩

end Colourway.Recipe
