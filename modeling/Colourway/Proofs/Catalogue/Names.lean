/-
  The names of a catalogue, and what is listed under them. Maps are added under folded names, and
  a name that is folded already stays as it is; so each added name leads back to its own recipe, the
  one that was added last (`getMaps_foldl_put`). The names of presets are folded too, and a preset
  is listed unless a map was added under its name. So no name is listed twice, and none in vain
  (`names_coherent`).
-/
import Colourway.Command.Run
import Colourway.Proofs.Catalogue.LetterCase
import Colourway.Proofs.Sheet.Lookup
import Colourway.Proofs.Text.Folded

namespace Colourway

/-! ## Names of presets -/

namespace Preset

/-- The names, in the order in which they are listed. -/
def names : List String := all.map (·.1)

theorem nodup_names : names.Nodup := by
  decide +kernel

theorem fold_of_mem_names {name : String} (h : name ∈ names) : Text.fold name = name := by
  have hall : names.all (fun name => Text.fold name = name) = true := by decide +kernel
  exact of_decide_eq_true (List.all_eq_true.1 hall name h)

theorem isSome_find?_iff {q : String} :
    (find? q).isSome ↔ ∃ name ∈ names, Text.sameIgnoringCase name q = true := by
  unfold find? names
  rw [Option.isSome_map, List.find?_isSome]
  simp only [List.mem_map, exists_exists_and_eq_and]

/-- A preset is found under its own name. -/
theorem find?_of_mem_all {entry : String × String} (h : entry ∈ all) :
    find? entry.1 = some entry.2 := by
  have hlower : ∀ e ∈ all, Text.IsLower e.1.toList := by
    intro e he
    rw [← fold_of_mem_names (List.mem_map_of_mem he)]
    exact Text.isLower_fold e.1
  have hsome : (all.find? fun e => Text.sameIgnoringCase e.1 entry.1).isSome :=
    List.find?_isSome.2 ⟨entry, h, beq_self_eq_true _⟩
  obtain ⟨found, hfound⟩ := Option.isSome_iff_exists.1 hsome
  have hmem := List.mem_of_find?_eq_some hfound
  have hsame := List.find?_some hfound
  have hname : found.1 = entry.1 :=
    (Text.sameIgnoringCase_iff_of_isLower (hlower found hmem) (hlower entry h)).1 hsame
  rw [find?, hfound, List.inj_on_of_nodup_map nodup_names hmem h hname]
  rfl

end Preset

namespace Catalogue

variable {xs : List Addition} {k : Catalogue} {key name : String}

/-! ## Added maps -/

/-- The recipe that is added under a folded name. -/
def Addition.recipeFor? (key : String) : Addition → Option String
  | .map name recipe => if Text.fold name = key then some recipe else none
  | .colour _ _ => none

/-- The recipe that was added last under a folded name. -/
def lastAdded? (xs : List Addition) (key : String) : Option String :=
  (xs.filterMap (·.recipeFor? key)).getLast?

theorem getMaps_put (k : Catalogue) (x : Addition) (key : String) :
    (k.put x).maps.get? key = (x.recipeFor? key).or (k.maps.get? key) := by
  cases x with
  | colour name c => rfl
  | map name recipe =>
    have hget : (k.put (.map name recipe)).maps.get? key =
        if Text.fold name = key then some recipe else k.maps.get? key :=
      NameTable.get?_insert ..
    rw [hget, Addition.recipeFor?]
    split <;> rfl

/-- A folded name has the recipe that was added last under it. -/
theorem getMaps_foldl_put (xs : List Addition) (key : String) :
    (xs.foldl put basic).maps.get? key = lastAdded? xs key := by
  have hlast := foldl_last_or (fun k : Catalogue => k.maps.get? key) (·.recipeFor? key)
    (fun k x => getMaps_put k x key) xs basic
  exact hlast.trans Option.or_none

theorem lastAdded?_eq_none_iff :
    lastAdded? xs key = none ↔ ∀ name recipe, .map name recipe ∈ xs → Text.fold name ≠ key := by
  rw [lastAdded?, List.getLast?_eq_none_iff, List.filterMap_eq_nil_iff]
  constructor
  · intro h name recipe hmem hkey
    have hnone := h _ hmem
    rw [Addition.recipeFor?, if_pos hkey] at hnone
    cases hnone
  · intro h x hx
    cases x with
    | colour name c => rfl
    | map name recipe => exact if_neg (h name recipe hx)

theorem fold_of_lastAdded? {recipe : String} (h : lastAdded? xs key = some recipe) :
    Text.fold key = key := by
  have hne : lastAdded? xs key ≠ none := by rw [h]; exact nofun
  rw [Ne, lastAdded?_eq_none_iff] at hne
  push Not at hne
  obtain ⟨name, -, -, rfl⟩ := hne
  exact Text.fold_fold name

/-! ## Listed names -/

/-- The names of the presets that no added map hides. -/
def shownPresets (k : Catalogue) : List String := Preset.names.filter (· ∉ k.maps.names)

theorem names_eq_append (k : Catalogue) : k.names = k.maps.names ++ k.shownPresets := names_eq k

theorem mem_shownPresets :
    name ∈ k.shownPresets ↔ name ∈ Preset.names ∧ name ∉ k.maps.names := by
  rw [shownPresets, List.mem_filter, decide_eq_true_iff]

theorem nodup_names (k : Catalogue) : k.names.Nodup := by
  rw [names_eq_append]
  refine List.Nodup.append ?_ (Preset.nodup_names.filter _) ?_
  · exact (NameTable.pairwise_names k.maps).imp fun hlt => String.ne_of_lt hlt
  · exact fun name hadded hshown => (mem_shownPresets.1 hshown).2 hadded

theorem mem_names_maps : key ∈ k.maps.names ↔ k.maps.get? key ≠ none := by
  rw [Ne, NameTable.get?_eq_none_iff, not_not]

/-- A name is looked up with success if it folds to that of an added map, or is spelt like that of
a preset; and a preset that is hidden gives way to an added map. -/
theorem recipe?_ne_none_iff (k : Catalogue) (q : String) :
    k.recipe? q ≠ none ↔ Text.fold q ∈ k.maps.names ∨
      ∃ name ∈ k.shownPresets, Text.sameIgnoringCase name q = true := by
  have hfind : Preset.find? q ≠ none ↔
      ∃ name ∈ Preset.names, Text.sameIgnoringCase name q = true := by
    rw [← Preset.isSome_find?_iff, Option.isSome_iff_ne_none]
  rw [recipe?_eq, Ne, Option.or_eq_none_iff, not_and_or, ← Ne, ← Ne, hfind, mem_names_maps]
  refine or_congr_right' fun hnot => ?_
  constructor
  · rintro ⟨name, hname, hsame⟩
    have hfold : Text.fold q = name := by
      rw [← Text.fold_congr hsame, Preset.fold_of_mem_names hname]
    refine ⟨name, mem_shownPresets.2 ⟨hname, ?_⟩, hsame⟩
    rwa [← hfold, mem_names_maps]
  · rintro ⟨name, hname, hsame⟩
    exact ⟨name, (mem_shownPresets.1 hname).1, hsame⟩

/-- What is listed under a name is what was added last under it, or else a preset. -/
theorem exists_recipe?_of_mem_names {policy : Recipe.Policy}
    (h : name ∈ ((xs.foldl put basic).withPolicy policy).names) :
    ∃ recipe, ((xs.foldl put basic).withPolicy policy).recipe? name = some recipe ∧
      (lastAdded? xs (Text.fold name) = some recipe ∨
        lastAdded? xs (Text.fold name) = none ∧ (name, recipe) ∈ Preset.all) := by
  have hget : ∀ key, ((xs.foldl put basic).withPolicy policy).maps.get? key = lastAdded? xs key :=
    getMaps_foldl_put xs
  rw [names_eq_append, List.mem_append, mem_names_maps, mem_shownPresets, mem_names_maps,
    not_not] at h
  rw [recipe?_eq]
  simp only [hget] at h ⊢
  rcases h with hadded | ⟨hpreset, hhidden⟩
  · obtain ⟨recipe, hrecipe⟩ := Option.ne_none_iff_exists'.1 hadded
    rw [fold_of_lastAdded? hrecipe, hrecipe]
    exact ⟨recipe, rfl, .inl rfl⟩
  · obtain ⟨entry, hentry, rfl⟩ := List.mem_map.1 hpreset
    rw [Preset.fold_of_mem_names hpreset, hhidden, Preset.find?_of_mem_all hentry]
    exact ⟨entry.2, rfl, .inr ⟨rfl, hentry⟩⟩

theorem exists_listLine_eq {recipe : String} (h : k.recipe? name = some recipe)
    (sheet : Option Sheet) :
    ∃ rest, Command.listLine sheet k name = name ++ "\t" ++ recipe ++ rest := by
  unfold Command.listLine
  rw [h, Option.getD_some]
  exact ⟨_, String.append_assoc⟩

/-- A catalogue lists the names of added maps, in order, and then the presets that these do not
hide. Each name is listed once and leads to a recipe, and no other name does but in the case of
its letters. -/
theorem names_coherent (xs : List Addition) (policy : Recipe.Policy) :
    let k := (xs.foldl put basic).withPolicy policy
    k.names.Nodup ∧
    (∃ added, k.names = added ++ Preset.names.filter (· ∉ added) ∧
      added.Pairwise (fun a b => Text.bytes a < Text.bytes b) ∧
      (∀ key, key ∈ added ↔
        ∃ name recipe, Addition.map name recipe ∈ xs ∧ Text.fold name = key) ∧
      ∀ q, k.recipe? q ≠ none ↔ Text.fold q ∈ added ∨
        ∃ name ∈ Preset.names.filter (· ∉ added), Text.sameIgnoringCase name q = true) ∧
    (∀ name ∈ k.names, ∃ recipe, k.recipe? name = some recipe ∧
      (lastAdded? xs (Text.fold name) = some recipe ∨
        lastAdded? xs (Text.fold name) = none ∧ (name, recipe) ∈ Preset.all) ∧
      ∀ sheet, ∃ rest, Command.listLine sheet k name = name ++ "\t" ++ recipe ++ rest) := by
  intro k
  refine ⟨nodup_names k, ⟨k.maps.names, names_eq_append k, ?_, fun key => ?_,
    recipe?_ne_none_iff k⟩, fun name hname => ?_⟩
  · exact (NameTable.pairwise_names _).imp fun hlt => Text.lt_iff_bytes_lt.1 hlt
  · have hget : k.maps.get? key = lastAdded? xs key := getMaps_foldl_put xs key
    rw [mem_names_maps, hget, Ne, lastAdded?_eq_none_iff]
    push Not
    rfl
  · obtain ⟨recipe, hrecipe, hsource⟩ := exists_recipe?_of_mem_names hname
    exact ⟨recipe, hrecipe, hsource, exists_listLine_eq hrecipe⟩

/-- One name ends in a sigma, and one hides a preset and is added twice. -/
theorem names_coherent_hidden_preset :
    let xs : List Addition :=
      [.map "CHALK" "WhiteToBlack", .map "ΑΣ" "BlackToRed", .map "Chalk" "RedToBlue"]
    let k := (xs.foldl put basic).withPolicy .strict
    k.names.Nodup ∧ "ας" ∈ k.names ∧ k.recipe? "ας" = some "BlackToRed" ∧
      "chalk" ∈ k.names ∧ k.recipe? "chalk" = some "RedToBlue" := by
  intro xs k
  obtain ⟨hnodup, ⟨added, hnames, -, hadded, -⟩, hlisted⟩ := names_coherent xs .strict
  have hfound : ∀ {name recipe}, name ∈ k.names →
      lastAdded? xs (Text.fold name) = some recipe → k.recipe? name = some recipe := by
    intro name recipe hname hlast
    obtain ⟨found, hfound, hsource | ⟨hnone, -⟩, -⟩ := hlisted name hname
    · rw [hfound, ← hsource, hlast]
    · rw [hlast] at hnone
      cases hnone
  have hgreek : "ας" ∈ k.names := hnames ▸ List.mem_append_left _
    ((hadded "ας").2 ⟨"ΑΣ", "BlackToRed", by simp [xs], by decide +kernel⟩)
  have hchalk : "chalk" ∈ k.names := hnames ▸ List.mem_append_left _
    ((hadded "chalk").2 ⟨"CHALK", "WhiteToBlack", by simp [xs], by decide +kernel⟩)
  exact ⟨hnodup, hgreek, hfound hgreek (by decide +kernel), hchalk,
    hfound hchalk (by decide +kernel)⟩

end Catalogue

end Colourway
