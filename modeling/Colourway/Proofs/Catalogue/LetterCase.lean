/-
  Letter case in catalogues. The case of ASCII letters does not matter anywhere: a catalogue that
  is filled with other spellings of the same names and recipes differs in how its recipes are spelt
  (`Alike`), and a recipe is read from its lower case, with each character in its place. So names
  in any spelling lead to the same gradients and the same faults (`resolve_of_alike`).

  Beyond ASCII, added maps are looked up by folded names, and presets by comparing ASCII letters.
  The two agree but for names with a Kelvin sign, which find no preset: names that fold alike are
  listed alike unless one of them has that sign, the other has not, and it is a preset they would
  find (`recipe?_eq_iff_of_fold_eq`).
-/
import Colourway.Proofs.Catalogue.Outcome
import Colourway.Proofs.Text.Spelling

namespace Colourway

namespace Recipe

variable {text other : String}

/-! ## Spellings of a recipe -/

theorem origin_map_toLower (text : List Char) (offset : ℕ) :
    origin (text.map Char.toLower) offset = origin text offset := by
  induction text generalizing offset with
  | nil => rfl
  | cons c text ih =>
    rw [List.map_cons, origin, origin, Text.lowerChar_toLower, Text.utf8Size_toLower, ih]

theorem wordsOf_eq_of_sameIgnoringCase (s : Swatches)
    (h : Text.sameIgnoringCase text other = true) : wordsOf s text = wordsOf s other := by
  have horigin : ∀ offset, origin text.toList offset = origin other.toList offset := by
    intro offset
    rw [← origin_map_toLower text.toList, Text.map_toLower_eq_of_sameIgnoringCase h,
      origin_map_toLower]
  rw [wordsOf_eq, wordsOf_eq, Text.lower_congr h]
  exact List.map_congr_left fun place _ => by rw [horigin]

/-- Two spellings of a recipe are read alike. -/
theorem read_eq_of_sameIgnoringCase (s : Swatches) (policy : Policy)
    (h : Text.sameIgnoringCase text other = true) : read s policy text = read s policy other := by
  unfold read
  rw [wordsOf_eq_of_sameIgnoringCase s h]

end Recipe

/-! ## Presets -/

namespace Preset

theorem isAscii_of_mem_all :
    ∀ entry ∈ all, ∀ c ∈ entry.1.toList, Text.isAscii c = true := by
  have hall : all.all (fun entry => entry.1.toList.all Text.isAscii) = true := by
    decide +kernel
  intro entry hentry
  exact List.all_eq_true.1 (List.all_eq_true.1 hall entry hentry)

theorem find?_congr {name other : String} (h : Text.sameIgnoringCase name other = true) :
    find? name = find? other := by
  unfold find?
  simp only [Text.sameIgnoringCase_congr h]

/-- A preset is found by what a name folds to, unless the name has a Kelvin sign. -/
theorem find?_eq (name : String) :
    find? name = if Text.kelvinSign ∈ name.toList then none else find? (Text.fold name) := by
  have hspelt : ∀ entry ∈ all, Text.sameIgnoringCase entry.1 name = true ↔
      Text.kelvinSign ∉ name.toList ∧ Text.sameIgnoringCase entry.1 (Text.fold name) = true :=
    fun entry hentry => Text.sameIgnoringCase_fold_iff (isAscii_of_mem_all entry hentry)
  unfold find?
  split
  case isTrue hsign =>
    rw [List.find?_eq_none.2 fun entry hentry => mt (hspelt entry hentry).1 fun h => h.1 hsign]
    rfl
  case isFalse hsign =>
    rw [List.find?_congr fun entry hentry => ?_]
    rw [Bool.eq_iff_iff, hspelt entry hentry]
    exact and_iff_right hsign

end Preset

namespace Catalogue

variable {k k' : Catalogue} {name other : String}

/-- A fault, whatever name or recipe it is about. -/
def Fault.unnamed : Fault → Fault
  | .malformed _ reason => .malformed "" reason
  | .tooFewStops _ found => .tooFewStops "" found
  | .unknownName _ => .unknownName ""

/-- Names that are both listed or both not, and for which recipes are used that are read alike,
come to the same, but for the names in the faults. -/
theorem unnamed_resolve_congr (hlisted : k.recipe? name = none ↔ k'.recipe? other = none)
    (hread : Recipe.read k.swatches k.policy (k.usedRecipe name) =
      Recipe.read k'.swatches k'.policy (k'.usedRecipe other)) :
    (k.resolve name).mapError Fault.unnamed = (k'.resolve other).mapError Fault.unnamed := by
  rw [resolve_eq, resolve_eq, hread]
  cases Recipe.read k'.swatches k'.policy (k'.usedRecipe other) with
  | ok g =>
    dsimp only
    unfold checkStops
    split <;> rfl
  | error reason =>
    simp only [hlisted]
    split <;> rfl

/-! ## Names that fold alike -/

theorem recipe?_eq_fold (k : Catalogue) (name : String) :
    k.recipe? name =
      (k.maps.get? (Text.fold name)).or
        (if Text.kelvinSign ∈ name.toList then none else Preset.find? (Text.fold name)) := by
  rw [recipe?_eq, Preset.find?_eq]

/-- Names that fold alike are listed alike, unless it is a preset that they are looked up for, and
just one of them has a Kelvin sign. Where they are listed alike, they come to the same. -/
theorem recipe?_eq_iff_of_fold_eq (k : Catalogue) (h : Text.fold name = Text.fold other) :
    (k.recipe? name = k.recipe? other ↔
      k.maps.get? (Text.fold name) ≠ none ∨ Preset.find? (Text.fold name) = none ∨
        (Text.kelvinSign ∈ name.toList ↔ Text.kelvinSign ∈ other.toList)) ∧
    (k.recipe? name ≠ none → k.recipe? name = k.recipe? other →
      (k.resolve name).mapError Fault.unnamed = (k.resolve other).mapError Fault.unnamed) := by
  constructor
  · rw [recipe?_eq_fold, recipe?_eq_fold, ← h]
    cases k.maps.get? (Text.fold name) with
    | some recipe => simp
    | none =>
      rw [Option.none_or, Option.none_or]
      by_cases hname : Text.kelvinSign ∈ name.toList <;>
        by_cases hother : Text.kelvinSign ∈ other.toList <;>
          simp [hname, hother, eq_comm]
  · intro hlisted heq
    obtain ⟨recipe, hrecipe⟩ := Option.ne_none_iff_exists'.1 hlisted
    refine unnamed_resolve_congr (by rw [heq]) ?_
    rw [← getD_recipe?, ← getD_recipe?, ← heq, hrecipe]
    rfl

/-- A Kelvin sign does not matter to the name of an added map, and it does to that of a preset. -/
theorem recipe?_eq_iff_of_fold_eq_chalk :
    let k := basic.insertMap "CHALK" "WhiteToBlack"
    Text.fold "Chal\u212a" = Text.fold "chalk" ∧
      k.recipe? "Chal\u212a" = k.recipe? "chalk" ∧ k.recipe? "Chal\u212a" ≠ none ∧
      (k.resolve "Chal\u212a").mapError Fault.unnamed =
        (k.resolve "chalk").mapError Fault.unnamed ∧
      basic.recipe? "Chal\u212a" ≠ basic.recipe? "chalk" := by
  intro k
  have hfold : Text.fold "Chal\u212a" = Text.fold "chalk" := by decide +kernel
  obtain ⟨hadded, hsame⟩ := recipe?_eq_iff_of_fold_eq k hfold
  obtain ⟨hpreset, -⟩ := recipe?_eq_iff_of_fold_eq basic hfold
  have heq : k.recipe? "Chal\u212a" = k.recipe? "chalk" := hadded.2 (.inl (by decide +kernel))
  have hlisted : k.recipe? "Chal\u212a" ≠ none := by decide +kernel
  exact ⟨hfold, heq, hlisted, hsame hlisted heq, mt hpreset.1 (by decide +kernel)⟩

/-- Names that fold alike need not be listed alike, nor lead to a gradient both. -/
theorem exists_fold_eq_recipe?_ne :
    ∃ (k : Catalogue) (name other : String), Text.fold name = Text.fold other ∧
      Preset.find? name ≠ none ∧ k.recipe? name ≠ k.recipe? other ∧
      (∃ g, k.resolve name = .ok g) ∧
      k.resolve other = .error (.unknownName other) := by
  have hok : (basic.resolve "chalk").isOk := by decide +kernel
  obtain ⟨g, hg⟩ : ∃ g, basic.resolve "chalk" = .ok g := by
    cases hresolve : basic.resolve "chalk" with
    | ok g => exact ⟨g, rfl⟩
    | error fault =>
      rw [hresolve] at hok
      cases hok
  exact ⟨basic, "chalk", "chal\u212a", by decide +kernel, by decide +kernel, by decide +kernel,
    ⟨g, hg⟩, rfl⟩

/-! ## Other spellings -/

/-- Something that is put into a catalogue. -/
inductive Addition where
  | colour (name : String) (c : Colour)
  | map (name : String) (recipe : String)

/-- The catalogue with one more thing put into it. -/
def put (k : Catalogue) : Addition → Catalogue
  | .colour name c => k.insertColour name c
  | .map name recipe => k.insertMap name recipe

/-- The same is added, but for the case of ASCII letters in names and recipes. -/
inductive Addition.Alike : Addition → Addition → Prop where
  | colour {name other : String} (h : Text.sameIgnoringCase name other = true) (c : Colour) :
    Alike (.colour name c) (.colour other c)
  | map {name other recipe recipe' : String} (h : Text.sameIgnoringCase name other = true)
      (hrecipe : Text.sameIgnoringCase recipe recipe' = true) :
    Alike (.map name recipe) (.map other recipe')

/-- The catalogues differ at most in how the recipes of added maps are spelt. -/
structure Alike (k k' : Catalogue) : Prop where
  swatches_eq : k.swatches = k'.swatches
  maps : ∀ key,
    Option.Rel (Text.sameIgnoringCase · ·) (k.maps.get? key) (k'.maps.get? key)
  policy_eq : k.policy = k'.policy

theorem Alike.refl (k : Catalogue) : k.Alike k := by
  refine ⟨rfl, fun key => ?_, rfl⟩
  cases k.maps.get? key with
  | none => exact .none
  | some recipe => exact .some (beq_self_eq_true _)

theorem Alike.put (h : k.Alike k') {x y : Addition} (hxy : x.Alike y) :
    (k.put x).Alike (k'.put y) := by
  cases hxy with
  | colour hname c =>
    refine ⟨?_, h.maps, h.policy_eq⟩
    simp only [Catalogue.put, insertColour, Swatches.insert, Text.fold_congr hname, h.swatches_eq]
  | map hname hrecipe =>
    refine ⟨h.swatches_eq, fun key => ?_, h.policy_eq⟩
    simp only [Catalogue.put, insertMap, NameTable.get?_insert, Text.fold_congr hname]
    split
    · exact .some hrecipe
    · exact h.maps key

theorem Alike.foldl_put {xs ys : List Addition} (h : k.Alike k')
    (hxys : List.Forall₂ Addition.Alike xs ys) :
    (xs.foldl Catalogue.put k).Alike (ys.foldl Catalogue.put k') := by
  induction hxys generalizing k k' with
  | nil => exact h
  | cons hxy _ ih => exact ih (h.put hxy)

theorem Alike.withPolicy (h : k.Alike k') (policy : Recipe.Policy) :
    (k.withPolicy policy).Alike (k'.withPolicy policy) :=
  ⟨h.swatches_eq, h.maps, rfl⟩

theorem Alike.recipe? (h : k.Alike k') (hname : Text.sameIgnoringCase name other = true) :
    Option.Rel (Text.sameIgnoringCase · ·) (k.recipe? name) (k'.recipe? other) := by
  have hmaps := h.maps (Text.fold other)
  rw [recipe?_eq, recipe?_eq, Text.fold_congr hname, Preset.find?_congr hname]
  generalize k.maps.get? (Text.fold other) = added at hmaps ⊢
  generalize k'.maps.get? (Text.fold other) = added' at hmaps ⊢
  cases hmaps with
  | some hrecipe => exact .some hrecipe
  | none =>
    dsimp only [Option.or]
    cases Preset.find? other with
    | none => exact .none
    | some recipe => exact .some (beq_self_eq_true _)

theorem Alike.recipe?_eq_none_iff (h : k.Alike k')
    (hname : Text.sameIgnoringCase name other = true) :
    k.recipe? name = none ↔ k'.recipe? other = none := by
  have hrecipe := h.recipe? hname
  generalize k.recipe? name = listed at hrecipe ⊢
  generalize k'.recipe? other = listed' at hrecipe ⊢
  cases hrecipe with
  | some _ => simp
  | none => simp

theorem Alike.usedRecipe (h : k.Alike k') (hname : Text.sameIgnoringCase name other = true) :
    Text.sameIgnoringCase (k.usedRecipe name) (k'.usedRecipe other) = true := by
  have hrecipe := h.recipe? hname
  rw [← getD_recipe?, ← getD_recipe?]
  generalize k.recipe? name = listed at hrecipe ⊢
  generalize k'.recipe? other = listed' at hrecipe ⊢
  cases hrecipe with
  | some hspelt => exact hspelt
  | none => exact hname

/-- Names, recipes and the names of colours may be spelt with capitals or small letters: the same
gradient is found, or the same fault, with the same character in the same place. -/
theorem resolve_of_alike (k : Catalogue) {xs ys : List Addition}
    (h : List.Forall₂ Addition.Alike xs ys) (policy : Recipe.Policy)
    (hname : Text.sameIgnoringCase name other = true) :
    (((xs.foldl put k).withPolicy policy).resolve name).mapError Fault.unnamed =
      (((ys.foldl put k).withPolicy policy).resolve other).mapError Fault.unnamed := by
  have halike := ((Alike.refl k).foldl_put h).withPolicy policy
  refine unnamed_resolve_congr (halike.recipe?_eq_none_iff hname) ?_
  rw [halike.swatches_eq, halike.policy_eq]
  exact Recipe.read_eq_of_sameIgnoringCase _ _ (halike.usedRecipe hname)

/-- Two spellings of a colour, of a map and its recipe, and of the name that is looked up. The
recipe has a character that the strict policy refuses. -/
theorem resolve_of_alike_wine :
    let xs : List Addition := [.colour "RedWine" .black, .map "Fête" "DarkRedWineToÉ"]
    let ys : List Addition := [.colour "REDWINE" .black, .map "fêTE" "darkredwinetoÉ"]
    List.Forall₂ Addition.Alike xs ys ∧ Text.sameIgnoringCase "FêTe" "fête" = true ∧
      (((xs.foldl put basic).withPolicy .strict).resolve "FêTe").mapError Fault.unnamed =
        .error (.malformed "" (.strayCharacter 13 'é')) ∧
      (((ys.foldl put basic).withPolicy .strict).resolve "fête").mapError Fault.unnamed =
        .error (.malformed "" (.strayCharacter 13 'é')) := by
  intro xs ys
  have halike : List.Forall₂ Addition.Alike xs ys :=
    .cons (.colour (by decide) .black) (.cons (.map (by decide) (by decide)) .nil)
  have hname : Text.sameIgnoringCase "FêTe" "fête" = true := by decide
  have hfault : (((xs.foldl put basic).withPolicy .strict).resolve "FêTe").mapError
      Fault.unnamed = .error (.malformed "" (.strayCharacter 13 'é')) := rfl
  exact ⟨halike, hname, hfault, (resolve_of_alike basic halike .strict hname).symm.trans hfault⟩

end Catalogue

end Colourway
