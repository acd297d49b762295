/-
  What becomes of a name. The recipe that a catalogue uses for it (`usedRecipe`) is read, and a
  reading ends in a gradient or in a fault. The gradient is refused if it has a single stop; a
  fault is passed on, but for one: a name that stands for nothing in the catalogue and has no
  colour as a recipe is reported as unknown (`resolve_eq`).

  Which names these are is told from their words (`unknown_iff`). With one statement for each
  outcome, `resolve_outcome` is the main statement.
-/
import Colourway.Proofs.Catalogue.OfSheet
import Colourway.Proofs.Recipe.Outcome
import Colourway.Proofs.Recipe.Joining
import Colourway.Proofs.Recipe.Origin

namespace Colourway

namespace Recipe

variable {s : Swatches} {policy : Policy} {text : String} {words : List Word}

/-! ## Readings without a colour -/

theorem finish_eq_noColours_iff (hw : Positive words) :
    (Draft.ofWords words).finish = .error .noColours ↔ ∀ c, Word.colour c ∉ words := by
  refine ⟨fun h => ?_, finish_of_no_colours hw⟩
  by_contra hnot
  have hc : ∃ c, Word.colour c ∈ words := by
    obtain ⟨c, hc⟩ := not_forall.1 hnot
    exact ⟨c, not_not.1 hc⟩
  -- a recipe with a colour comes to one of the three other ends
  by_cases ht : TrailsOff words
  · rw [finish_of_trailsOff hw ht] at h
    cases h
  · by_cases hlong : Gradient.maxStops < stopTotal words
    · rw [finish_of_too_many hw hc ht hlong] at h
      cases h
    · obtain ⟨g, hg, -⟩ := exists_finish_of_not_too_many hw hc ht (not_lt.1 hlong)
      rw [hg] at h
      cases h

theorem read_lenient_eq_finish (s : Swatches) (text : String) :
    read s .lenient text = (Draft.ofWords ((wordsOf s text).map (·.2))).finish := by
  rw [read_eq_evaluate, evaluate_lenient_eq_finish]

theorem read_strict_ne_noColours (h : strays (wordsOf s text) ≠ []) :
    read s .strict text ≠ .error .noColours := by
  obtain ⟨place, rest, hstrays⟩ := List.exists_cons_of_ne_nil h
  unfold read
  dsimp only
  rw [hstrays]
  exact nofun

/-- A recipe is found to have no colours if it has none, and no stray character is refused before
that. -/
theorem read_eq_noColours_iff :
    read s policy text = .error .noColours ↔
      (∀ place ∈ wordsOf s text, ∀ c, place.2 ≠ .colour c) ∧
        (policy = .lenient ∨ ∀ place ∈ wordsOf s text, place.2.stray? = none) := by
  have hfinish : (Draft.ofWords ((wordsOf s text).map (·.2))).finish = .error .noColours ↔
      ∀ place ∈ wordsOf s text, ∀ c, place.2 ≠ .colour c := by
    rw [finish_eq_noColours_iff (positive_wordsOf s text)]
    constructor
    · intro h place hplace c hc
      exact h c (hc ▸ List.mem_map_of_mem hplace)
    · intro h c hc
      obtain ⟨place, hplace, hword⟩ := List.mem_map.1 hc
      exact h place hplace c hword
  cases policy with
  | lenient =>
    rw [read_lenient_eq_finish, hfinish]
    exact (and_iff_left (.inl rfl)).symm
  | strict =>
    rw [← strays_eq_nil_iff]
    by_cases hstrays : strays (wordsOf s text) = []
    · rw [read_of_no_strays hstrays, hfinish]
      exact (and_iff_left (.inr hstrays)).symm
    · refine iff_of_false (read_strict_ne_noColours hstrays) ?_
      rintro ⟨-, hpolicy | hnil⟩
      · cases hpolicy
      · exact hstrays hnil

end Recipe

namespace Catalogue

variable {k : Catalogue} {name recipe : String} {g : Gradient} {reason : Recipe.Fault}

/-! ## The recipe of a name -/

/-- The recipe that is used for a name: that of an added map, else that of a preset, else the name
itself. -/
def usedRecipe (k : Catalogue) (name : String) : String :=
  ((k.maps.get? (Text.fold name)).or (Preset.find? name)).getD name

theorem getD_recipe? (k : Catalogue) (name : String) :
    (k.recipe? name).getD name = k.usedRecipe name := by
  rw [recipe?_eq, usedRecipe]

theorem usedRecipe_of_eq_none (h : k.recipe? name = none) : k.usedRecipe name = name := by
  rw [← getD_recipe?, h]
  rfl

/-- The recipe that is used for a name decides what becomes of it, together with whether the name
is listed. -/
theorem resolve_eq (k : Catalogue) (name : String) :
    k.resolve name =
      match Recipe.read k.swatches k.policy (k.usedRecipe name) with
      | .ok g => checkStops name g
      | .error reason =>
        .error (if k.recipe? name = none ∧ reason = .noColours then .unknownName name
          else .malformed (k.usedRecipe name) reason) := by
  rw [← getD_recipe?]
  unfold resolve readRecipe recipe?
  cases k.source name with
  | added recipe =>
    dsimp only [Option.getD_some]
    cases Recipe.read k.swatches k.policy recipe <;> rfl
  | preset recipe =>
    dsimp only [Option.getD_some]
    cases Recipe.read k.swatches k.policy recipe <;> rfl
  | itself =>
    dsimp only [Option.getD_none]
    cases Recipe.read k.swatches k.policy name with
    | ok g => rfl
    | error reason => cases reason <;> rfl

/-- Nothing is known by the name: it is not listed, and as a recipe it has no colour, nor a stray
character that the policy refuses. -/
structure Unknown (k : Catalogue) (name : String) : Prop where
  not_added : k.maps.get? (Text.fold name) = none
  not_preset : Preset.find? name = none
  no_colour : ∀ place ∈ Recipe.wordsOf k.swatches name, ∀ c, place.2 ≠ .colour c
  not_refused : k.policy = .lenient ∨
    ∀ place ∈ Recipe.wordsOf k.swatches name, place.2.stray? = none

theorem unknown_iff :
    k.Unknown name ↔
      k.recipe? name = none ∧
        Recipe.read k.swatches k.policy (k.usedRecipe name) = .error .noColours := by
  have hlisted : k.recipe? name = none ↔
      k.maps.get? (Text.fold name) = none ∧ Preset.find? name = none := by
    rw [recipe?_eq, Option.or_eq_none_iff]
  constructor
  · rintro ⟨hadded, hpreset, hcolour, hrefused⟩
    have hnone := hlisted.2 ⟨hadded, hpreset⟩
    rw [usedRecipe_of_eq_none hnone]
    exact ⟨hnone, Recipe.read_eq_noColours_iff.2 ⟨hcolour, hrefused⟩⟩
  · rintro ⟨hnone, hread⟩
    rw [usedRecipe_of_eq_none hnone] at hread
    obtain ⟨hcolour, hrefused⟩ := Recipe.read_eq_noColours_iff.1 hread
    obtain ⟨hadded, hpreset⟩ := hlisted.1 hnone
    exact ⟨hadded, hpreset, hcolour, hrefused⟩

/-! ## The outcomes -/

theorem checkStops_of_le (h : 2 ≤ g.length) (name : String) : checkStops name g = .ok g :=
  if_neg (not_lt.2 h)

theorem checkStops_of_length_eq_one (h : g.length = 1) (name : String) :
    checkStops name g = .error (.tooFewStops name 1) := by
  rw [checkStops, minStops, h]
  rfl

theorem resolve_of_ok (h : readRecipe k.swatches k.policy (k.usedRecipe name) = .ok g) :
    k.resolve name = checkStops name g := by
  rw [resolve_eq, Recipe.readRecipe_eq_ok_iff.1 h]

theorem resolve_of_unknown (h : k.Unknown name) :
    k.resolve name = .error (.unknownName name) ∧
      readRecipe k.swatches k.policy (k.usedRecipe name) =
        .error (.malformed (k.usedRecipe name) .noColours) := by
  obtain ⟨hnone, hread⟩ := unknown_iff.1 h
  constructor
  · rw [resolve_eq, hread]
    exact congrArg Except.error (if_pos ⟨hnone, rfl⟩)
  · rw [readRecipe, hread]
    rfl

theorem resolve_of_error
    (h : readRecipe k.swatches k.policy (k.usedRecipe name) = .error (.malformed recipe reason))
    (hknown : ¬k.Unknown name) :
    k.resolve name = .error (.malformed (k.usedRecipe name) reason) := by
  obtain ⟨-, hread⟩ := Recipe.read_of_readRecipe_eq_error h
  have hnot : ¬(k.recipe? name = none ∧ reason = .noColours) := by
    rintro ⟨hnone, rfl⟩
    exact hknown (unknown_iff.2 ⟨hnone, hread⟩)
  rw [resolve_eq, hread]
  exact congrArg Except.error (if_neg hnot)

/-- What can become of a name: a gradient, a gradient of a single stop, nothing that is known, or
any other fault of the recipe. -/
theorem resolve_cases (k : Catalogue) (name : String) :
    (∃ g, readRecipe k.swatches k.policy (k.usedRecipe name) = .ok g ∧ 2 ≤ g.length ∧
      ¬k.Unknown name ∧ k.resolve name = .ok g) ∨
    (∃ g, readRecipe k.swatches k.policy (k.usedRecipe name) = .ok g ∧ g.length = 1 ∧
      ¬k.Unknown name ∧ k.resolve name = .error (.tooFewStops name 1)) ∨
    (readRecipe k.swatches k.policy (k.usedRecipe name) =
        .error (.malformed (k.usedRecipe name) .noColours) ∧
      k.Unknown name ∧ k.resolve name = .error (.unknownName name)) ∨
    (∃ reason, readRecipe k.swatches k.policy (k.usedRecipe name) =
        .error (.malformed (k.usedRecipe name) reason) ∧
      ¬k.Unknown name ∧ k.resolve name = .error (.malformed (k.usedRecipe name) reason)) := by
  by_cases hunknown : k.Unknown name
  · obtain ⟨hresolve, hreading⟩ := resolve_of_unknown hunknown
    exact .inr (.inr (.inl ⟨hreading, hunknown, hresolve⟩))
  · cases hread : Recipe.read k.swatches k.policy (k.usedRecipe name) with
    | ok g =>
      have hreading := Recipe.readRecipe_eq_ok_iff.2 hread
      have hresolve := resolve_of_ok hreading
      rcases Nat.eq_or_lt_of_le (show 1 ≤ g.length from g.length_pos) with hone | hlong
      · rw [checkStops_of_length_eq_one hone.symm] at hresolve
        exact .inr (.inl ⟨g, hreading, hone.symm, hunknown, hresolve⟩)
      · rw [checkStops_of_le hlong] at hresolve
        exact .inl ⟨g, hreading, hlong, hunknown, hresolve⟩
    | error reason =>
      have hreading : readRecipe k.swatches k.policy (k.usedRecipe name) =
          .error (.malformed (k.usedRecipe name) reason) := by
        rw [readRecipe, hread]
        rfl
      exact .inr (.inr (.inr ⟨reason, hreading, hunknown, resolve_of_error hreading hunknown⟩))

/-- A name has the gradient of the recipe that is used for it, if there are two stops at least. A
recipe of one stop is too short for a map; a name that is not listed and has no colour is unknown,
as far as no stray character is refused first; and in all other cases it is the recipe that is
found to be malformed. -/
theorem resolve_outcome (k : Catalogue) (name : String) :
    let recipe := k.usedRecipe name
    let reading := readRecipe k.swatches k.policy recipe
    (∀ g, k.resolve name = .ok g ↔ reading = .ok g ∧ 2 ≤ g.length ∧ g.length ≤ 1024) ∧
    (∀ other found, k.resolve name = .error (.tooFewStops other found) ↔
      other = name ∧ found = 1 ∧ ∃ g, reading = .ok g ∧ g.length = 1) ∧
    (∀ other, k.resolve name = .error (.unknownName other) ↔ other = name ∧ k.Unknown name) ∧
    (∀ text reason, k.resolve name = .error (.malformed text reason) ↔
      text = recipe ∧ reading = .error (.malformed recipe reason) ∧ ¬k.Unknown name) ∧
    ((∀ g, reading ≠ .ok g) → ¬k.Unknown name →
      ∃ reason, k.resolve name = .error (.malformed recipe reason)) := by
  intro recipe reading
  have hfits : ∀ g : Gradient, g.length ≤ 1024 := fun g => g.length_le
  obtain ⟨g, hreading, hlong, hknown, hresolve⟩ | ⟨g, hreading, hone, hknown, hresolve⟩ |
    ⟨hreading, hunknown, hresolve⟩ | ⟨reason, hreading, hknown, hresolve⟩ := resolve_cases k name
  · have hne : g.length ≠ 1 := by omega
    simp [reading, recipe, hreading, hresolve, hknown, hlong, hne, hfits]
  · simp [reading, recipe, hreading, hresolve, hknown, hone, hfits, eq_comm]
  · simp [reading, recipe, hreading, hresolve, hunknown, eq_comm]
  · simp [reading, recipe, hreading, hresolve, hknown, eq_comm]

end Catalogue

end Colourway
