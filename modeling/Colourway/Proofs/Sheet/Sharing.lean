/-
  Alternates of a map, and whose uses they share. An alternate keeps the folded name of the map
  it was made of, and shares the uses that are set under that very name. This is what the map
  itself does, as long as it is no alternate in turn (`uses?_alternate`). A map that is one
  shares the uses of a third map, and leaves its own to its alternates
  (`exists_alternate_not_sharing`).
-/
import Colourway.Proofs.Sheet.Lookup
import Colourway.Proofs.Text.FinalSigma

namespace Colourway.Sheet

/-- Whether the map of a name is to be used in some place, as told last by the settings about
that map itself. -/
def useOf (q : String) (place : Use) (xs : List Setting) : Bool :=
  (xs.filterMap (·.useFor? q place)).getLast?.getD false

/-! ## The name of an alternate -/

theorem toList_alternateName (path : List String) (name : String) :
    (alternateName path name).toList = path.reverse.flatMap String.toList ++ name.toList := by
  rw [alternateName, String.toList_join, List.flatMap_append, List.flatMap_singleton]

/-- An alternate has another name than its map, for folding keeps every segment. -/
theorem fold_alternateName_ne {path : List String} (h : ∃ segment ∈ path, segment ≠ "")
    (name : String) : Text.fold (alternateName path name) ≠ Text.fold name := by
  obtain ⟨segment, hmem, hne⟩ := h
  have hsegments : path.reverse.flatMap String.toList ≠ [] := by
    intro hnil
    have htext := List.flatMap_eq_nil_iff.1 hnil segment (List.mem_reverse.2 hmem)
    exact hne (String.toList_eq_nil_iff.1 htext)
  have hpos : 0 < (Text.lower (path.reverse.flatMap String.toList)).length :=
    List.length_pos_iff.2 (mt Text.lower_eq_nil_iff.1 hsegments)
  intro heq
  have hlen := congrArg String.length heq
  rw [Text.length_fold, Text.length_fold, toList_alternateName, Text.lower_append,
    List.length_append] at hlen
  omega

/-! ## Owners -/

variable {xs before after : List Setting} {x : Setting} {t : Topic} {q m : String}

theorem ownerFor?_target (ht : x.topic? = some t) (hcolour : t.field = "colour")
    (hpath : ∃ segment ∈ t.path, segment ≠ "") : x.ownerFor? t.target = some t.map := by
  have hrecipe : t.RecipeOf t.target := ⟨hcolour, rfl⟩
  rw [Setting.ownerFor?, ht, Option.bind_some,
    if_pos ⟨hrecipe, fold_alternateName_ne hpath t.map⟩]

theorem ownerOf_eq_of_last (hx : x.ownerFor? q = some m)
    (hlast : ∀ y ∈ after, y.ownerFor? q = none) : ownerOf q (before ++ x :: after) = m := by
  have hafter : after.filterMap (·.ownerFor? q) = [] := List.filterMap_eq_nil_iff.2 hlast
  rw [ownerOf, List.filterMap_append, List.filterMap_cons_some hx, hafter,
    List.getLast?_append_of_ne_nil _ (List.cons_ne_nil m []), List.getLast?_singleton,
    Option.getD_some]

theorem ownerOf_eq_self (h : ∀ y ∈ xs, y.ownerFor? q = none) : ownerOf q xs = q := by
  rw [ownerOf, List.filterMap_eq_nil_iff.2 h, List.getLast?_nil, Option.getD_none]

theorem fold_ne_of_ownerFor? (h : x.ownerFor? q = some m) : Text.fold m ≠ Text.fold q := by
  obtain ⟨t, -, ht⟩ := Option.bind_eq_some_iff.1 h
  split at ht
  case isTrue hother =>
    cases ht
    rw [← hother.1.fold_target_eq]
    exact Ne.symm hother.2
  case isFalse => cases ht

/-- A name owns itself unless it was made an alternate of another map. -/
theorem fold_ownerOf_eq_iff :
    Text.fold (ownerOf q xs) = Text.fold q ↔ ∀ y ∈ xs, y.ownerFor? q = none := by
  refine ⟨fun heq => ?_, fun h => by rw [ownerOf_eq_self h]⟩
  cases hlast : (xs.filterMap (·.ownerFor? q)).getLast? with
  | none => exact List.filterMap_eq_nil_iff.1 (List.getLast?_eq_none_iff.1 hlast)
  | some m =>
    obtain ⟨x, -, hx⟩ := List.mem_filterMap.1 (List.mem_of_getLast? hlast)
    rw [ownerOf, hlast, Option.getD_some] at heq
    exact absurd heq (fold_ne_of_ownerFor? hx)

/-! ## Shared uses -/

/-- A name that is mentioned has uses: those told last of its owner. -/
theorem exists_uses?_foldl (hx : x ∈ xs) (hq : x.Mentions q) :
    ∃ u, (xs.foldl apply empty).uses? q = some u ∧
      ∀ place, u.get place = useOf (ownerOf q xs) place xs := by
  have hmap : ((xs.foldl apply empty).map? q).isSome :=
    (isSome_map?_foldl xs empty q).2 (.inl ⟨x, hx, hq⟩)
  have huses := ((linked_foldl linked_empty xs).isSome_uses? q).2 hmap
  obtain ⟨u, hu⟩ := Option.isSome_iff_exists.1 huses
  refine ⟨u, hu, fun place => ?_⟩
  rw [get_of_uses? hu place, ownerKey_foldl, allows_foldl]
  rfl

/-- An alternate shares the uses that are set for its map. The map itself shares those of its
owner, so both agree if the map is no alternate. -/
theorem uses?_alternate {text : String} {s : Sheet} (h : Sheet.read text = .ok s)
    (hxs : settings text = before ++ x :: after) (ht : x.topic? = some t)
    (hcolour : t.field = "colour") (hpath : ∃ segment ∈ t.path, segment ≠ "")
    (hlast : ∀ y ∈ after, y.ownerFor? t.target = none) :
    (∃ u, s.uses? t.target = some u ∧
      ∀ place, u.get place = useOf t.map place (settings text)) ∧
    (∃ v, s.uses? t.map = some v ∧
      ∀ place, v.get place = useOf (ownerOf t.map (settings text)) place (settings text)) ∧
    ((∀ y ∈ settings text, y.ownerFor? t.map = none) → s.uses? t.target = s.uses? t.map) := by
  have hmem : x ∈ settings text := by rw [hxs]; simp
  have htarget : x.Mentions t.target := ⟨t, ht, .inr ⟨hcolour, rfl⟩⟩
  have hmap : x.Mentions t.map := ⟨t, ht, .inl rfl⟩
  have howner : ownerOf t.target (settings text) = t.map := by
    rw [hxs]
    exact ownerOf_eq_of_last (ownerFor?_target ht hcolour hpath) hlast
  obtain ⟨u, hu, huplace⟩ := exists_uses?_foldl hmem htarget
  obtain ⟨v, hv, hvplace⟩ := exists_uses?_foldl hmem hmap
  rw [← eq_foldl_apply_of_read h] at hu hv
  rw [howner] at huplace
  refine ⟨⟨u, hu, huplace⟩, ⟨v, hv, hvplace⟩, fun hself => ?_⟩
  have heq : u = v := by
    refine Uses.ext_get fun place => ?_
    rw [huplace, hvplace, ownerOf_eq_self hself]
  rw [hu, hv, heq]

/-- A sheet with an alternate of an alternate. -/
def deepSea : String :=
  "\n".intercalate ["map.Sea.colour.Night=BlackToBlue", "map.NightSea.colour.Deep=BlackToDarkBlue",
    "map.Sea.tracks=yes"]

theorem settings_deepSea : settings deepSea =
    [⟨["map", "Sea", "colour", "Night"], "BlackToBlue"⟩] ++
      ⟨["map", "NightSea", "colour", "Deep"], "BlackToDarkBlue"⟩ ::
        [⟨["map", "Sea", "tracks"], "yes"⟩] := by
  decide +kernel

/-- A first alternate shares with its map; the alternate of this alternate does not. -/
theorem uses?_alternate_deepSea :
    ∃ s, Sheet.read deepSea = .ok s ∧
      s.uses? "NightSea" = s.uses? "Sea" ∧
      s.uses? "NightSea" = some { tracks := true } ∧
      s.uses? "DeepNightSea" = some {} := by
  have hok : (Sheet.read deepSea).isOk := by decide +kernel
  cases hread : Sheet.read deepSea with
  | error fault =>
    rw [hread] at hok
    cases hok
  | ok s =>
    have hfirst : settings deepSea = [] ++ ⟨["map", "Sea", "colour", "Night"], "BlackToBlue"⟩ ::
        [⟨["map", "NightSea", "colour", "Deep"], "BlackToDarkBlue"⟩,
          ⟨["map", "Sea", "tracks"], "yes"⟩] := settings_deepSea
    obtain ⟨-, -, hsame⟩ := uses?_alternate hread (t := ⟨"Sea", "colour", ["Night"]⟩) hfirst
      (by decide +kernel) rfl ⟨"Night", by decide, by decide⟩ (by decide +kernel)
    obtain ⟨⟨u, hu, huplace⟩, ⟨v, hv, hvplace⟩, -⟩ := uses?_alternate hread
      (t := ⟨"NightSea", "colour", ["Deep"]⟩) settings_deepSea (by decide +kernel) rfl
      ⟨"Deep", by decide, by decide⟩ (by decide +kernel)
    have hself : ∀ y ∈ settings deepSea, y.ownerFor? "Sea" = none := by
      rw [settings_deepSea]
      decide +kernel
    rw [settings_deepSea] at huplace hvplace
    have huvalue : u = {} :=
      Uses.ext_get fun place => (huplace place).trans (by cases place <;> decide +kernel)
    have hvvalue : v = { tracks := true } :=
      Uses.ext_get fun place => (hvplace place).trans (by cases place <;> decide +kernel)
    rw [huvalue] at hu
    rw [hvvalue] at hv
    exact ⟨s, rfl, hsame hself, hv, hu⟩

/-- An alternate need not share the uses of its map: here the map is an alternate itself. -/
theorem exists_alternate_not_sharing :
    ∃ s before x after t, Sheet.read deepSea = .ok s ∧
      settings deepSea = before ++ x :: after ∧ x.topic? = some t ∧ t.field = "colour" ∧
      (∃ segment ∈ t.path, segment ≠ "") ∧ (∀ y ∈ after, y.ownerFor? t.target = none) ∧
      s.uses? t.target ≠ s.uses? t.map := by
  have hdiffer : (Sheet.read deepSea).toOption.any fun s =>
      s.uses? "DeepNightSea" != s.uses? "NightSea" := by decide +kernel
  cases hread : Sheet.read deepSea with
  | error fault =>
    rw [hread] at hdiffer
    cases hdiffer
  | ok s =>
    rw [hread] at hdiffer
    exact ⟨s, _, _, _, ⟨"NightSea", "colour", ["Deep"]⟩, rfl, settings_deepSea,
      by decide +kernel, rfl, ⟨"Deep", by decide, by decide⟩, by decide +kernel,
      bne_iff_ne.1 hdiffer⟩

end Colourway.Sheet
