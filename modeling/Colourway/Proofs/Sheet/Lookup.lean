/-
  Looking names up in a sheet, told by the settings of its text alone: the last setting that
  says something of a name wins.

  What one setting does to a map of any name is one equation (`map?_apply`), and so is what it
  does to the uses under a folded name (`getUses_apply`). From these it is read off how each
  answer changes, and a run of settings then gives the last change of all (`foldl_last_or`).
  There are uses for the owner of every map (`Linked`), so that looking them up never ends at a
  name that is missing.

  `lookup_of_read` is the main statement.
-/
import Colourway.Proofs.Sheet.Setting

namespace Colourway

/-- A view that one step after another may change shows the last change of all. -/
theorem foldl_last_or {σ ι β : Type} {step : σ → ι → σ} (view : σ → Option β)
    (change : ι → Option β) (hstep : ∀ s x, view (step s x) = (change x).or (view s))
    (xs : List ι) (s : σ) :
    view (xs.foldl step s) = (xs.filterMap change).getLast?.or (view s) := by
  induction xs generalizing s with
  | nil => rfl
  | cons x xs ih =>
    rw [List.foldl_cons, ih, hstep]
    cases hx : change x with
    | none => rw [List.filterMap_cons_none hx, Option.none_or]
    | some b =>
      rw [List.filterMap_cons_some hx, List.getLast?_cons, Option.some_or]
      cases (xs.filterMap change).getLast? <;> rfl

namespace Sheet

/-- Whether a map may be used in some place. -/
def Uses.get (u : Uses) : Use → Bool
  | .tracks => u.tracks
  | .clicks => u.clicks
  | .keyboard => u.keyboard

theorem Uses.get_default (place : Use) : ({} : Uses).get place = false := by
  cases place <;> rfl

theorem Uses.ext_get {u v : Uses} (h : ∀ place, u.get place = v.get place) : u = v := by
  cases u with
  | mk tracks clicks keyboard =>
    cases v with
    | mk tracks' clicks' keyboard' =>
      have htracks : tracks = tracks' := h .tracks
      have hclicks : clicks = clicks' := h .clicks
      have hkeyboard : keyboard = keyboard' := h .keyboard
      rw [htracks, hclicks, hkeyboard]

/-- The field that says whether a map may be used in some place. -/
def Use.field : Use → String
  | .tracks => "tracks"
  | .clicks => "clicks"
  | .keyboard => "keyboard"

/-! ## What a setting says of a name -/

/-- The topic is the recipe of a name. -/
structure Topic.RecipeOf (q : String) (t : Topic) : Prop where
  field_eq : t.field = "colour"
  fold_target_eq : Text.fold t.target = Text.fold q

instance (q : String) (t : Topic) : Decidable (t.RecipeOf q) :=
  decidable_of_iff (t.field = "colour" ∧ Text.fold t.target = Text.fold q)
    ⟨fun h => ⟨h.1, h.2⟩, fun h => ⟨h.1, h.2⟩⟩

namespace Setting

/-- The swatch that is given to a name. -/
def swatchFor? (q : String) (x : Setting) : Option Swatch :=
  x.swatchName?.bind fun name =>
    if Text.fold name = Text.fold q then (Colour.ofHexCode? x.value).map (⟨name, ·⟩) else none

/-- The setting is about the map of a name, or gives a recipe to it. -/
def Mentions (q : String) (x : Setting) : Prop :=
  ∃ t ∈ x.topic?, Text.fold t.map = Text.fold q ∨ t.RecipeOf q

instance (q : String) (x : Setting) : Decidable (x.Mentions q) :=
  inferInstanceAs (Decidable (∃ t ∈ x.topic?, _ ∨ _))

/-- The recipe that is given to a name. -/
def recipeFor? (q : String) (x : Setting) : Option String :=
  x.topic?.bind fun t => if t.RecipeOf q then some x.value else none

/-- The map of which a name becomes an alternate. -/
def ownerFor? (q : String) (x : Setting) : Option String :=
  x.topic?.bind fun t =>
    if t.RecipeOf q ∧ Text.fold t.target ≠ Text.fold t.map then some t.map else none

/-- Whether the map of a name, and not an alternate of it, is to be used in some place. -/
def useFor? (q : String) (place : Use) (x : Setting) : Option Bool :=
  x.topic?.bind fun t =>
    if t.field = place.field ∧ Text.fold t.map = Text.fold q then some (saysYes x.value) else none

end Setting

/-- The map whose uses a name shares: that of which it was last made an alternate, or else the
map of that name. -/
def ownerOf (q : String) (xs : List Setting) : String :=
  (xs.filterMap (·.ownerFor? q)).getLast?.getD q

/-! ## One setting -/

variable {s : Sheet} {x : Setting} {t : Topic}

theorem swatchName?_of_topic (ht : x.topic? = some t) : x.swatchName? = none := by
  have hne : "map" ≠ "colour" := by decide
  unfold Setting.topic? at ht
  unfold Setting.swatchName?
  split at ht
  case h_1 kind map field path hpath =>
    rw [hpath]
    dsimp only
    split at ht
    case isTrue hkind => rw [hkind, if_neg hne]
    case isFalse => cases ht
  case h_2 => cases ht

theorem apply_of_topic (ht : x.topic? = some t) (s : Sheet) :
    s.apply x = (s.mention t.map).setField t.map (.ofName t.field t.path x.value) := by
  unfold apply Setting.entry
  rw [swatchName?_of_topic ht, ht]
  rfl

theorem maps_and_uses_apply_of_no_topic (ht : x.topic? = none) (s : Sheet) :
    (s.apply x).maps = s.maps ∧ (s.apply x).uses = s.uses := by
  unfold apply Setting.entry
  rw [ht]
  cases x.swatchName? with
  | none => exact ⟨rfl, rfl⟩
  | some name => dsimp only; split <;> exact ⟨rfl, rfl⟩

theorem colours_setField (s : Sheet) (name : String) (field : Field) :
    (s.setField name field).colours = s.colours := by
  cases field with
  | recipe path text => unfold setField; dsimp only; split <;> rfl
  | use place allowed => rfl
  | unknown name => rfl

theorem colour?_apply (s : Sheet) (x : Setting) (q : String) :
    (s.apply x).colour? q = (x.swatchFor? q).or (s.colour? q) := by
  unfold Setting.swatchFor?
  cases hname : x.swatchName? with
  | none =>
    have hcolours : (s.apply x).colours = s.colours := by
      cases ht : x.topic? with
      | none =>
        unfold apply Setting.entry
        rw [hname, ht]
        rfl
      | some t =>
        rw [apply_of_topic ht, colours_setField]
        rfl
    unfold colour?
    rw [hcolours]
    rfl
  | some name =>
    unfold apply Setting.entry
    rw [hname]
    dsimp only
    cases Colour.ofHexCode? x.value with
    | none => simp [add, colour?]
    | some c =>
      simp only [add, colour?, NameTable.get?_insert, Option.bind_some]
      split <;> rfl

/-! ## Maps -/

theorem get?_maps_mention (s : Sheet) (name key : String) :
    (s.mention name).maps.get? key =
      if Text.fold name = key then
        some ((s.maps.get? key).getD ⟨name, none, Text.fold name⟩)
      else s.maps.get? key :=
  NameTable.get?_insertNew ..

theorem ofName_colour {field : String} (h : field = "colour") (path : List String)
    (value : String) : Field.ofName field path value = .recipe path value := if_pos h

theorem maps_setField_of_ne_colour {field : String} (h : field ≠ "colour") (s : Sheet)
    (name : String) (path : List String) (value : String) :
    (s.setField name (.ofName field path value)).maps = s.maps := by
  unfold Field.ofName
  rw [if_neg h]
  split_ifs <;> rfl

/-- What a setting does to the map of a name: give it a recipe, bring it into being as an
alternate or as a map without a recipe, or nothing. -/
theorem map?_apply (ht : x.topic? = some t) (s : Sheet) (q : String) :
    (s.apply x).map? q =
      if t.RecipeOf q then
        if Text.fold t.target = Text.fold t.map then
          some { (s.map? q).getD ⟨t.map, none, Text.fold t.map⟩ with recipe := some x.value }
        else some ⟨t.target, some x.value, Text.fold t.map⟩
      else if Text.fold t.map = Text.fold q then
        some ((s.map? q).getD ⟨t.map, none, Text.fold t.map⟩)
      else s.map? q := by
  unfold map?
  rw [apply_of_topic ht]
  by_cases hfield : t.field = "colour"
  · rw [ofName_colour hfield]
    unfold setField
    dsimp only
    rw [show alternateName t.path t.map = t.target from rfl]
    by_cases htarget : Text.fold t.target = Text.fold t.map
    · rw [if_pos htarget, if_pos htarget, NameTable.get?_modify, get?_maps_mention]
      by_cases hq : Text.fold t.map = Text.fold q
      · have hrecipe : t.RecipeOf q := ⟨hfield, htarget.trans hq⟩
        rw [if_pos hq, if_pos hq, if_pos hrecipe, Option.map_some]
      · have hnot : ¬t.RecipeOf q := fun h => hq (htarget.symm.trans h.fold_target_eq)
        rw [if_neg hq, if_neg hnot, if_neg hq]
    · rw [if_neg htarget, if_neg htarget, NameTable.get?_insert, get?_maps_mention]
      by_cases hq : Text.fold t.target = Text.fold q
      · have hrecipe : t.RecipeOf q := ⟨hfield, hq⟩
        rw [if_pos hq, if_pos hrecipe]
      · have hnot : ¬t.RecipeOf q := fun h => hq h.fold_target_eq
        rw [if_neg hq, if_neg hnot]
  · have hnot : ¬t.RecipeOf q := fun h => hfield h.field_eq
    rw [maps_setField_of_ne_colour hfield, get?_maps_mention, if_neg hnot]

theorem map?_apply_of_no_topic (ht : x.topic? = none) (s : Sheet) (q : String) :
    (s.apply x).map? q = s.map? q := by
  unfold map?
  rw [(maps_and_uses_apply_of_no_topic ht s).1]

/-- The recipe of a name. -/
def recipe? (s : Sheet) (q : String) : Option String := (s.map? q).bind (·.recipe)

/-- The folded name of the map whose uses a name shares. -/
def ownerKey (s : Sheet) (q : String) : String := ((s.map? q).map (·.owner)).getD (Text.fold q)

theorem isSome_map?_apply (s : Sheet) (x : Setting) (q : String) :
    ((s.apply x).map? q).isSome ↔ x.Mentions q ∨ (s.map? q).isSome := by
  unfold Setting.Mentions
  cases ht : x.topic? with
  | none =>
    rw [map?_apply_of_no_topic ht]
    simp
  | some t =>
    rw [map?_apply ht]
    split_ifs with htarget _ hmap
    · simp [htarget]
    · simp [htarget]
    · simp [hmap]
    · simp [htarget, hmap]

theorem recipe?_apply (s : Sheet) (x : Setting) (q : String) :
    (s.apply x).recipe? q = (x.recipeFor? q).or (s.recipe? q) := by
  unfold recipe? Setting.recipeFor?
  cases ht : x.topic? with
  | none =>
    rw [map?_apply_of_no_topic ht]
    rfl
  | some t =>
    rw [map?_apply ht, Option.bind_some]
    split_ifs with htarget _ hmap
    · rfl
    · rfl
    · cases s.map? q <;> rfl
    · rfl

theorem ownerKey_apply (s : Sheet) (x : Setting) (q : String) :
    (s.apply x).ownerKey q = ((x.ownerFor? q).map Text.fold).getD (s.ownerKey q) := by
  unfold ownerKey Setting.ownerFor?
  cases ht : x.topic? with
  | none =>
    rw [map?_apply_of_no_topic ht]
    rfl
  | some t =>
    rw [map?_apply ht, Option.bind_some]
    by_cases hrecipe : t.RecipeOf q
    · rw [if_pos hrecipe]
      by_cases hsame : Text.fold t.target = Text.fold t.map
      · have hnot : ¬(t.RecipeOf q ∧ Text.fold t.target ≠ Text.fold t.map) := fun h => h.2 hsame
        -- the map of the setting is that of the name, and keeps its owner
        rw [if_pos hsame, if_neg hnot, ← hsame, hrecipe.fold_target_eq]
        cases s.map? q <;> rfl
      · rw [if_neg hsame, if_pos ⟨hrecipe, hsame⟩]
        rfl
    · have hnot : ¬(t.RecipeOf q ∧ Text.fold t.target ≠ Text.fold t.map) :=
        fun h => hrecipe h.1
      rw [if_neg hrecipe, if_neg hnot]
      split
      case isTrue hmap =>
        rw [hmap]
        cases s.map? q <;> rfl
      case isFalse => rfl

/-! ## Uses -/

/-- What a field does to the uses of a map. -/
def Uses.setField (u : Uses) : Field → Uses
  | .use place allowed => u.set place allowed
  | .recipe _ _ | .unknown _ => u

theorem Uses.get_setField (u : Uses) (field : String) (path : List String) (value : String)
    (place : Use) :
    (u.setField (.ofName field path value)).get place =
      if field = place.field then saysYes value else u.get place := by
  by_cases h : field = place.field
  · rw [if_pos h, h]
    cases place <;> rfl
  · rw [if_neg h]
    unfold Field.ofName
    -- a field of another name sets another use, if any
    cases place <;> unfold Use.field at h <;> split_ifs <;> rfl

theorem getUses_apply (ht : x.topic? = some t) (s : Sheet) (key : String) :
    (s.apply x).uses.get? key =
      if Text.fold t.map = key then
        some (((s.uses.get? key).getD {}).setField (.ofName t.field t.path x.value))
      else s.uses.get? key := by
  have hmention : (s.mention t.map).uses.get? key =
      if Text.fold t.map = key then some ((s.uses.get? key).getD {}) else s.uses.get? key :=
    NameTable.get?_insertNew ..
  rw [apply_of_topic ht]
  generalize Field.ofName t.field t.path x.value = field
  cases field with
  | recipe path text =>
    unfold setField
    dsimp only
    split <;> exact hmention
  | unknown name => exact hmention
  | use place allowed =>
    unfold setField
    rw [NameTable.get?_modify, hmention]
    split <;> rfl

/-- Whether the map of a folded name is to be used in some place. -/
def allows (s : Sheet) (key : String) (place : Use) : Bool :=
  ((s.uses.get? key).map (·.get place)).getD false

theorem allows_apply (s : Sheet) (x : Setting) (q : String) (place : Use) :
    (s.apply x).allows (Text.fold q) place =
      (x.useFor? q place).getD (s.allows (Text.fold q) place) := by
  unfold allows Setting.useFor?
  cases ht : x.topic? with
  | none =>
    rw [(maps_and_uses_apply_of_no_topic ht s).2]
    rfl
  | some t =>
    rw [getUses_apply ht, Option.bind_some]
    by_cases hmap : Text.fold t.map = Text.fold q
    · have hold : ((s.uses.get? (Text.fold q)).getD {}).get place =
          ((s.uses.get? (Text.fold q)).map (·.get place)).getD false := by
        cases s.uses.get? (Text.fold q) with
        | none => exact Uses.get_default place
        | some u => rfl
      rw [if_pos hmap, Option.map_some, Option.getD_some, Uses.get_setField, hold]
      split_ifs with hfield hnot hnot
      · rfl
      · exact absurd ⟨hfield, hmap⟩ hnot
      · exact absurd hnot.1 hfield
      · rfl
    · have hnot : ¬(t.field = place.field ∧ Text.fold t.map = Text.fold q) := fun h => hmap h.2
      rw [if_neg hmap, if_neg hnot]
      rfl

theorem isSome_getUses_apply (s : Sheet) (x : Setting) {key : String}
    (h : (s.uses.get? key).isSome) : ((s.apply x).uses.get? key).isSome := by
  cases ht : x.topic? with
  | none => rwa [(maps_and_uses_apply_of_no_topic ht s).2]
  | some t =>
    rw [getUses_apply ht]
    split
    · rfl
    · exact h

/-- The uses of every map are there. -/
def Linked (s : Sheet) : Prop :=
  ∀ q m, s.map? q = some m → (s.uses.get? m.owner).isSome

theorem linked_empty : empty.Linked := fun _ _ h => nomatch h

theorem Linked.apply (h : s.Linked) (x : Setting) : (s.apply x).Linked := by
  intro q m hm
  cases ht : x.topic? with
  | none =>
    rw [map?_apply_of_no_topic ht] at hm
    exact isSome_getUses_apply s x (h q m hm)
  | some t =>
    have hown : ((s.apply x).uses.get? (Text.fold t.map)).isSome := by
      rw [getUses_apply ht, if_pos rfl]
      rfl
    have hold : ((s.apply x).uses.get?
        ((s.map? q).getD ⟨t.map, none, Text.fold t.map⟩).owner).isSome := by
      cases hq : s.map? q with
      | none => exact hown
      | some m => exact isSome_getUses_apply s x (h q m hq)
    rw [map?_apply ht] at hm
    split_ifs at hm
    · cases hm
      exact hold
    · cases hm
      exact hown
    · cases hm
      exact hold
    · exact isSome_getUses_apply s x (h q m hm)

theorem Linked.isSome_uses? (h : s.Linked) (q : String) :
    (s.uses? q).isSome ↔ (s.map? q).isSome := by
  unfold uses?
  cases hq : s.map? q with
  | none => rfl
  | some m => exact iff_of_true (h q m hq) rfl

theorem get_of_uses? {q : String} {u : Uses} (h : s.uses? q = some u) (place : Use) :
    u.get place = s.allows (s.ownerKey q) place := by
  unfold uses? at h
  unfold allows ownerKey
  cases hq : s.map? q with
  | none => rw [hq] at h; cases h
  | some m =>
    rw [hq, Option.bind_some] at h
    rw [Option.map_some, Option.getD_some, h]
    rfl

/-! ## All settings of a text -/

theorem foldl_apply_getD {β : Type} (view : Sheet → β) (change : Setting → Option β)
    (hstep : ∀ s x, view (apply s x) = (change x).getD (view s)) (xs : List Setting)
    (s : Sheet) : view (xs.foldl apply s) = (xs.filterMap change).getLast?.getD (view s) := by
  have hor : ∀ s x, some (view (apply s x)) = (change x).or (some (view s)) := by
    intro s x
    rw [Option.or_some, hstep]
  have h := foldl_last_or (fun s => some (view s)) change hor xs s
  rw [Option.or_some] at h
  exact Option.some.inj h

theorem linked_foldl (h : s.Linked) (xs : List Setting) : (xs.foldl apply s).Linked := by
  induction xs generalizing s with
  | nil => exact h
  | cons x xs ih => exact ih (h.apply x)

theorem isSome_map?_foldl (xs : List Setting) (s : Sheet) (q : String) :
    ((xs.foldl apply s).map? q).isSome ↔ (∃ x ∈ xs, x.Mentions q) ∨ (s.map? q).isSome := by
  induction xs generalizing s with
  | nil => simp
  | cons x xs ih =>
    rw [List.foldl_cons, ih, isSome_map?_apply, List.exists_mem_cons_iff, or_left_comm, or_assoc]

theorem ownerKey_foldl (xs : List Setting) (q : String) :
    (xs.foldl apply empty).ownerKey q = Text.fold (ownerOf q xs) := by
  have hkey := foldl_apply_getD (·.ownerKey q) (fun x => (x.ownerFor? q).map Text.fold)
    (fun s x => ownerKey_apply s x q) xs empty
  rw [hkey, ← List.map_filterMap, List.getLast?_map]
  unfold ownerOf
  cases (xs.filterMap (·.ownerFor? q)).getLast? <;> rfl

theorem allows_foldl (xs : List Setting) (q : String) (place : Use) :
    (xs.foldl apply empty).allows (Text.fold q) place =
      (xs.filterMap (·.useFor? q place)).getLast?.getD false :=
  foldl_apply_getD (·.allows (Text.fold q) place) (·.useFor? q place)
    (fun s x => allows_apply s x q place) xs empty

/-- What a sheet answers to a name is what the settings of its text say last. -/
theorem lookup_of_read {text : String} {s : Sheet} (h : Sheet.read text = .ok s) (q : String) :
    s.colour? q = ((settings text).filterMap (·.swatchFor? q)).getLast? ∧
    ((s.map? q).isSome ↔ ∃ x ∈ settings text, x.Mentions q) ∧
    (s.map? q).bind (·.recipe) = ((settings text).filterMap (·.recipeFor? q)).getLast? ∧
    ((s.uses? q).isSome ↔ (s.map? q).isSome) ∧
    ∀ u, s.uses? q = some u → ∀ place, u.get place =
      ((settings text).filterMap (·.useFor? (ownerOf q (settings text)) place)).getLast?.getD
        false := by
  rw [eq_foldl_apply_of_read h]
  generalize settings text = xs
  have hlinked := linked_foldl linked_empty xs
  refine ⟨?_, ?_, ?_, ?_, ?_⟩
  · have hcolour := foldl_last_or (·.colour? q) (·.swatchFor? q)
      (fun s x => colour?_apply s x q) xs empty
    exact hcolour.trans Option.or_none
  · rw [isSome_map?_foldl]
    exact or_iff_left Bool.false_ne_true
  · have hrecipe := foldl_last_or (·.recipe? q) (·.recipeFor? q)
      (fun s x => recipe?_apply s x q) xs empty
    exact hrecipe.trans Option.or_none
  · exact hlinked.isSome_uses? q
  · intro u hu place
    rw [get_of_uses? hu place, ownerKey_foldl, allows_foldl]

/-- A sheet in which two maps have an alternate of one name, which is also named as a map. -/
def altSea : String :=
  "\n".intercalate ["colour.teal=#008080", "colour.Teal=#00ff00", "map.Sea.colour.Alt=BlackToRed",
    "map.tSea.tracks=y", "map.tSEA.colour.Al=BlackToBlue", "map.AltSea.clicks=yes",
    "map.AltSea.colour=RedToBlue"]

theorem settings_altSea : settings altSea =
    [⟨["colour", "teal"], "#008080"⟩, ⟨["colour", "Teal"], "#00ff00"⟩,
      ⟨["map", "Sea", "colour", "Alt"], "BlackToRed"⟩, ⟨["map", "tSea", "tracks"], "y"⟩,
      ⟨["map", "tSEA", "colour", "Al"], "BlackToBlue"⟩, ⟨["map", "AltSea", "clicks"], "yes"⟩,
      ⟨["map", "AltSea", "colour"], "RedToBlue"⟩] := by
  decide +kernel

theorem lookup_of_read_shared_alternate :
    ∃ s, Sheet.read altSea = .ok s ∧
      s.colour? "teal" = some ⟨"Teal", ⟨0, 255, 0, 255⟩⟩ ∧
      (s.map? "altSea").bind (·.recipe) = some "RedToBlue" ∧
      s.uses? "altSea" = some { tracks := true } ∧
      s.map? "lake" = none := by
  have hok : (Sheet.read altSea).isOk := by decide +kernel
  cases hread : Sheet.read altSea with
  | error fault =>
    rw [hread] at hok
    cases hok
  | ok s =>
    obtain ⟨hteal, -⟩ := lookup_of_read hread "teal"
    obtain ⟨-, hsea, hrecipe, huses, hplace⟩ := lookup_of_read hread "altSea"
    obtain ⟨-, hlake, -⟩ := lookup_of_read hread "lake"
    rw [settings_altSea] at hteal hsea hrecipe hplace hlake
    refine ⟨s, rfl, hteal.trans (by decide +kernel), hrecipe.trans (by decide +kernel), ?_, ?_⟩
    · obtain ⟨u, hu⟩ := Option.isSome_iff_exists.1 (huses.2 (hsea.2 (by decide +kernel)))
      have heq : u = { tracks := true } :=
        Uses.ext_get fun place => (hplace u hu place).trans (by cases place <;> decide +kernel)
      rw [hu, heq]
    · have hnone := mt hlake.1 (by decide +kernel)
      exact Option.not_isSome_iff_eq_none.1 hnone

end Sheet

end Colourway
