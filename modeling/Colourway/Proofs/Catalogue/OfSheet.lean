/-
  The catalogue of a sheet answers as the sheet does. It is built from the names as they are
  spelt in the sheet, which are folded anew; so it rests on an invariant of reading, that every
  name folds to the key it is kept under (`Sheet.Keyed`). Colours and maps are then carried over as
  from one table to another (`ofSheet_eq`): none is lost, and none replaces another.

  `ofSheet_of_read` is the main statement.
-/
import Colourway.Catalogue.Basic
import Colourway.Proofs.NameTable.Transfer
import Colourway.Proofs.Sheet.Keyed
import Colourway.Proofs.Text.ByteOrder

namespace Colourway

namespace Catalogue

/-- The entry of a map under its folded name, if it has a recipe. -/
def listing? (m : Sheet.Map) : Option (String × String) := m.recipe.map (Text.fold m.name, ·)

theorem foldl_insertColour (ws : List Sheet.Swatch) (k : Catalogue) :
    ws.foldl (fun k w => k.insertColour w.name w.colour) k =
      { k with swatches :=
          ⟨k.swatches.added.insertAll (ws.map fun w => (Text.fold w.name, w.colour))⟩ } := by
  induction ws generalizing k with
  | nil => rfl
  | cons w ws ih =>
    rw [List.foldl_cons, ih]
    rfl

theorem foldl_addMap (ms : List Sheet.Map) (k : Catalogue) :
    ms.foldl addMap k = { k with maps := k.maps.insertAll (ms.filterMap listing?) } := by
  induction ms generalizing k with
  | nil => rfl
  | cons m ms ih =>
    rw [List.foldl_cons, ih]
    cases hm : m.recipe with
    | none =>
      have hlisting : listing? m = none := by rw [listing?, hm]; rfl
      rw [List.filterMap_cons_none hlisting, addMap, hm]
    | some recipe =>
      have hlisting : listing? m = some (Text.fold m.name, recipe) := by rw [listing?, hm]; rfl
      rw [List.filterMap_cons_some hlisting, addMap, hm]
      rfl

theorem ofSheet_eq (s : Sheet) :
    ofSheet s =
      ⟨⟨s.colours.transfer (fun w => Text.fold w.name) fun w => some w.colour⟩,
        s.maps.transfer (fun m => Text.fold m.name) (·.recipe), .lenient⟩ := by
  rw [ofSheet, foldl_insertColour, foldl_addMap, ← List.filterMap_eq_map]
  rfl

theorem recipe?_eq (k : Catalogue) (q : String) :
    k.recipe? q = (k.maps.get? (Text.fold q)).or (Preset.find? q) := by
  unfold recipe? source
  cases k.maps.get? (Text.fold q) with
  | some recipe => rfl
  | none => cases Preset.find? q <;> rfl

theorem names_eq (k : Catalogue) :
    k.names = k.maps.names ++ (Preset.all.map (·.1)).filter (· ∉ k.maps.names) := by
  rw [names]
  congr 1
  refine List.filter_congr fun name _ => ?_
  rw [Bool.eq_iff_iff, Option.isNone_iff_eq_none, NameTable.get?_eq_none_iff,
    decide_eq_true_iff]

/-- The folded names of the maps of a sheet that have a recipe. -/
def recipeNames (s : Sheet) : List String :=
  (s.maps.values.filter (·.recipe.isSome)).map fun m => Text.fold m.name

theorem names_maps_ofSheet {s : Sheet} (h : s.Keyed) : (ofSheet s).maps.names = recipeNames s := by
  rw [ofSheet_eq]
  dsimp only
  rw [NameTable.names, NameTable.entries_transfer h.fold_map, List.map_filterMap, recipeNames]
  induction s.maps.values with
  | nil => rfl
  | cons m ms ih =>
    cases hm : m.recipe with
    | none =>
      rw [List.filterMap_cons_none (by rw [hm]; rfl), List.filter_cons_of_neg (by simp [hm]), ih]
    | some recipe =>
      rw [List.filterMap_cons_some (by rw [hm]; rfl), List.filter_cons_of_pos (by simp [hm]), ih]
      rfl

/-- The catalogue of a sheet has the recipes and colours that the sheet has, each under the
folded name of its own, and lists the maps with a recipe before the presets. -/
theorem ofSheet_of_read {text : String} {s : Sheet} (h : Sheet.read text = .ok s) :
    (∀ q, (ofSheet s).recipe? q = ((s.map? q).bind (·.recipe)).or (Preset.find? q)) ∧
    (∀ q, (ofSheet s).swatches.get? q =
      ((s.colour? q).map (·.colour)).or (Colour.ofName? (Text.fold q))) ∧
    (ofSheet s).maps.entries =
      (s.maps.values.filterMap fun m => m.recipe.map (Text.fold m.name, ·)) ∧
    (ofSheet s).swatches.added.entries =
      (s.colours.values.map fun w => (Text.fold w.name, w.colour)) ∧
    (recipeNames s).Pairwise (fun a b => Text.bytes a < Text.bytes b) ∧
    (ofSheet s).names =
      recipeNames s ++ (Preset.all.map (·.1)).filter (· ∉ recipeNames s) := by
  have hkeyed := Sheet.keyed_of_read h
  have hnames := names_maps_ofSheet hkeyed
  refine ⟨fun q => ?_, fun q => ?_, ?_, ?_, ?_, ?_⟩
  · have hmap : (ofSheet s).maps.get? (Text.fold q) = (s.map? q).bind (·.recipe) := by
      rw [ofSheet_eq]
      exact NameTable.get?_transfer hkeyed.fold_map _ _
    rw [recipe?_eq, hmap]
  · have hcolour : (ofSheet s).swatches.added? q = (s.colour? q).map (·.colour) := by
      rw [ofSheet_eq]
      exact (NameTable.get?_transfer hkeyed.fold_swatch _ _).trans Option.map_eq_bind.symm
    rw [Swatches.get?, hcolour]
  · rw [ofSheet_eq]
    exact NameTable.entries_transfer hkeyed.fold_map _
  · rw [ofSheet_eq]
    dsimp only
    rw [NameTable.entries_transfer hkeyed.fold_swatch, ← List.filterMap_eq_map]
    rfl
  · rw [← hnames]
    exact (NameTable.pairwise_names _).imp fun hlt => Text.lt_iff_bytes_lt.1 hlt
  · rw [names_eq, hnames]

/-- A sheet that hides a preset, has names with sigmas in the middle and at the end of a word,
and has a map without a recipe. -/
def greekSea : String :=
  "\n".intercalate ["colour.ΝΉΣΟΣ=#102030", "map.Chalk.colour=WhiteToBlack",
    "map.ΠΌΝΤΟΣ.colour.ΑΣ=BlackToΝήσος", "map.ΠΌΝΤΟΣ.tracks=yes"]

theorem ofSheet_of_read_greekSea :
    ∃ s, Sheet.read greekSea = .ok s ∧
      (ofSheet s).recipe? "CHALK" = some "WhiteToBlack" ∧
      (ofSheet s).recipe? "αΣπόντος" = some "BlackToΝήσος" ∧
      (ofSheet s).recipe? "ΠΌΝΤΟΣ" = none ∧
      (ofSheet s).swatches.get? "νήσος" = some (.rgb 16 32 48) ∧
      (ofSheet s).names.take 3 = ["chalk", "ασπόντος", "jet"] := by
  have hsays : (Sheet.read greekSea).map (fun s =>
      (["CHALK", "αΣπόντος", "ΠΌΝΤΟΣ"].map fun q => (s.map? q).bind (·.recipe),
        (s.colour? "νήσος").map (·.colour), recipeNames s)) =
      .ok ([some "WhiteToBlack", some "BlackToΝήσος", none], some (.rgb 16 32 48),
        ["chalk", "ασπόντος"]) := by
    decide +kernel
  cases hread : Sheet.read greekSea with
  | error fault =>
    rw [hread] at hsays
    cases hsays
  | ok s =>
    rw [hread] at hsays
    obtain ⟨hrecipe, hget, -, -, -, hnames⟩ := ofSheet_of_read hread
    simp only [Except.map, List.map_cons, List.map_nil, Except.ok.injEq, Prod.mk.injEq,
      List.cons.injEq, and_true] at hsays
    obtain ⟨hmaps, hcolour, hown⟩ := hsays
    obtain ⟨hchalk, halternate, hpontos⟩ := hmaps
    refine ⟨s, rfl, ?_, ?_, ?_, ?_, ?_⟩
    · rw [hrecipe, hchalk]
      rfl
    · rw [hrecipe, halternate]
      rfl
    · rw [hrecipe, hpontos]
      decide +kernel
    · rw [hget, hcolour]
      rfl
    · rw [hnames, hown]
      decide +kernel

end Catalogue

end Colourway
