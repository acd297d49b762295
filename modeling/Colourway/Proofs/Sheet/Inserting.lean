/-
  A line put somewhere into a sheet, with a key that is not known.

  If the kind of thing is unknown, the line changes nothing. If the field of a map is unknown, the
  line sets no field, but it is about that map all the same: a name without a map gets one, without
  a recipe and with uses that allow nothing, and a map that is there may come to be spelt as the
  line spells it. So the sheet is as it was if the map has another line of its own and another
  line tells its spelling (`insert_eq_iff`). All else stays (`read_insertLine`).
-/
import Colourway.Proofs.Sheet.Appending
import Colourway.Proofs.Sheet.Faults
import Colourway.Proofs.Sheet.Spelling

namespace Colourway.Sheet

/-! ## The settings of the longer text -/

theorem setting_concat_return (line : List Char) :
    Setting.ofLine? (line ++ ['\r']) = Setting.ofLine? line := by
  unfold Setting.ofLine?
  rw [Text.cutAt?_concat (by decide), Option.map_map]
  congr 1
  funext sides
  simp only [Function.comp_apply]
  rw [Text.trim_concat_of_isBlank (by decide)]

theorem setting_dropReturn (line : List Char) :
    Setting.ofLine? (Text.dropReturn line) = Setting.ofLine? line :=
  Text.apply_dropReturn setting_concat_return line

theorem bad_iff_exists_error {line : List Char} (number : ℕ) :
    Bad line ↔ ∃ fault, Entry.ofLine number line = .error fault := by
  constructor
  · intro h
    obtain ⟨fault, hfault⟩ := h.exists_faultOf number
    exact ⟨fault, ofLine_eq_error_iff.2 ⟨h, hfault⟩⟩
  · rintro ⟨fault, h⟩
    exact (ofLine_eq_error_iff.1 h).1

theorem bad_dropReturn (line : List Char) : Bad (Text.dropReturn line) = Bad line := by
  rw [eq_iff_iff, bad_iff_exists_error 0, bad_iff_exists_error 0, ofLine_dropReturn]

variable {x : Setting} {t : Topic} {s : Sheet} {before line after : String}

/-- Of a line with a setting only the key can be bad. -/
theorem bad_iff_of_setting {l : List Char} (hx : Setting.ofLine? l = some x) :
    Bad l ↔ Incomplete x.path := by
  obtain ⟨⟨left, right⟩, hcut, rfl⟩ := Option.map_eq_some_iff.1 hx
  obtain ⟨rfl, hleft⟩ := Text.eq_of_cutAt? hcut
  exact bad_iff_incomplete hleft right

/-- Two parts of a text with a line between them. -/
def insertLine (before line after : String) : String :=
  String.ofList (Text.insertLine before.toList line.toList after.toList)

theorem line_ne_nil {l : List Char} (hx : Setting.ofLine? l = some x) : l ≠ [] := by
  rintro rfl
  cases hx

theorem settings_eq (text : String) :
    settings text = ((Text.lines text.toList).map Setting.ofLine?).filterMap id := by
  rw [List.filterMap_map]
  rfl

theorem settings_append (h : Text.LinesMeet before.toList after.toList) :
    settings (before ++ after) = settings before ++ settings after := by
  rw [settings, String.toList_append, Text.lines_append h, List.filterMap_append]
  rfl

theorem settings_insertLine (hline : '\n' ∉ line.toList)
    (hx : Setting.ofLine? line.toList = some x) (before after : String) :
    settings (insertLine before line after) = settings before ++ x :: settings after := by
  have hsome : id (some x) = some x := rfl
  rw [settings_eq, insertLine, String.toList_ofList,
    Text.map_lines_insertLine setting_dropReturn hline (line_ne_nil hx), hx, List.filterMap_append,
    List.filterMap_cons_some hsome, ← settings_eq, ← settings_eq]

theorem not_bad_insertLine (hgood : ¬Bad line.toList) (hline : '\n' ∉ line.toList)
    (hne : line.toList ≠ []) (hplace : Text.LinesMeet before.toList after.toList)
    (h : ∀ l ∈ Text.lines (before ++ after).toList, ¬Bad l) :
    ∀ l ∈ Text.lines (insertLine before line after).toList, ¬Bad l := by
  have hmap : ∀ ls : List (List Char), (∀ p ∈ ls.map Bad, ¬p) ↔ ∀ l ∈ ls, ¬Bad l :=
    fun _ => List.forall_mem_map
  rw [String.toList_append, Text.lines_append hplace, List.forall_mem_append] at h
  rw [← hmap, insertLine, String.toList_ofList,
    Text.map_lines_insertLine bad_dropReturn hline hne, List.forall_mem_append,
    List.forall_mem_cons, hmap, hmap]
  exact ⟨h.1, hgood, h.2⟩

/-- With a line that is not bad, the settings of the text are read with one more among them. -/
theorem read_insertLine_eq (h : Sheet.read (before ++ after) = .ok s)
    (hplace : Text.LinesMeet before.toList after.toList) (hline : '\n' ∉ line.toList)
    (hx : Setting.ofLine? line.toList = some x) (hgood : ¬Incomplete x.path) :
    Sheet.read (insertLine before line after) =
        .ok ((settings before ++ x :: settings after).foldl apply empty) ∧
      s = (settings before ++ settings after).foldl apply empty := by
  obtain ⟨hlines, hs⟩ := read_eq_ok_iff.1 h
  rw [settings_append hplace] at hs
  refine ⟨read_eq_ok_iff.2 ⟨?_, ?_⟩, hs⟩
  · exact not_bad_insertLine (mt (bad_iff_of_setting hx).1 hgood) hline (line_ne_nil hx) hplace
      hlines
  · rw [settings_insertLine hline hx]

/-! ## A setting that is not known -/

/-- The fields of a map that are known. -/
def knownFields : List String := ["colour", "tracks", "clicks", "keyboard"]

theorem apply_of_head (hx : x.path.head? ∉ [some "colour", some "map"]) (s : Sheet) :
    s.apply x = s := by
  obtain ⟨path, value⟩ := x
  rw [List.mem_cons, List.mem_singleton, not_or] at hx
  cases path with
  | nil => rfl
  | cons kind path =>
    exact apply_of_unknown (mt (congrArg some) hx.1) (mt (congrArg some) hx.2) s

theorem not_incomplete_of_head (hx : x.path.head? ∉ [some "colour", some "map"]) :
    ¬Incomplete x.path := by
  rw [List.mem_cons, List.mem_singleton, not_or, List.head?_eq_getElem?] at hx
  rintro (⟨hcolour, -⟩ | ⟨hmap, -⟩)
  · exact hx.1 hcolour
  · exact hx.2 hmap

theorem path_of_topic (ht : x.topic? = some t) :
    ∃ field, x.path = "map" :: t.map :: field :: t.path ∧ t.field = Text.fold field := by
  unfold Setting.topic? at ht
  split at ht
  case h_1 kind map field path hpath =>
    split at ht
    case isTrue hkind =>
      cases ht
      exact ⟨field, by rw [hpath, hkind], rfl⟩
    case isFalse => cases ht
  case h_2 => cases ht

theorem not_incomplete_of_topic (ht : x.topic? = some t) (hne : t.map ≠ "") :
    ¬Incomplete x.path := by
  obtain ⟨field, hpath, -⟩ := path_of_topic ht
  rw [hpath]
  rintro (⟨hkind, -⟩ | ⟨-, hshort | hmap⟩)
  · exact absurd (Option.some.inj hkind) (by decide)
  · exact absurd hshort (by simp)
  · exact hne (Option.some.inj hmap)

theorem ofName_of_not_mem {field : String} (h : field ∉ knownFields) (path : List String)
    (value : String) : Field.ofName field path value = .unknown field := by
  simp only [knownFields, List.mem_cons, List.not_mem_nil, or_false, not_or] at h
  unfold Field.ofName
  rw [if_neg h.1, if_neg h.2.1, if_neg h.2.2.1, if_neg h.2.2.2]

/-! ## A map that is mentioned once more -/

variable {s' : Sheet} {q key : String}

theorem filterMap_insert {α β : Type} {f : α → Option β} {x : α} (hx : f x = none)
    (before after : List α) :
    (before ++ x :: after).filterMap f = (before ++ after).filterMap f := by
  rw [List.filterMap_append, List.filterMap_append, List.filterMap_cons_none hx]

/-- What the last setting says is not changed by one that says nothing of it. -/
theorem view_insert {β : Type} {change : Setting → Option β} (view : Sheet → Option β)
    (hstep : ∀ s x, view (apply s x) = (change x).or (view s)) (hx : change x = none)
    (ys zs : List Setting) :
    view ((ys ++ x :: zs).foldl apply empty) = view ((ys ++ zs).foldl apply empty) := by
  rw [foldl_last_or view change hstep, foldl_last_or view change hstep, filterMap_insert hx]

/-- The uses of the one sheet are those of the other with a map mentioned once more. -/
def UsesMentioned (key : String) (s s' : Sheet) : Prop :=
  ∀ other, s'.uses.get? other =
    if key = other then some ((s.uses.get? other).getD {}) else s.uses.get? other

theorem UsesMentioned.apply (h : UsesMentioned key s s') (x : Setting) :
    UsesMentioned key (s.apply x) (s'.apply x) := by
  intro other
  cases ht : x.topic? with
  | none =>
    rw [(maps_and_uses_apply_of_no_topic ht s).2, (maps_and_uses_apply_of_no_topic ht s').2, h]
  | some t =>
    rw [getUses_apply ht, getUses_apply ht, h]
    split_ifs <;> rfl

theorem UsesMentioned.foldl (h : UsesMentioned key s s') (xs : List Setting) :
    UsesMentioned key (xs.foldl Sheet.apply s) (xs.foldl Sheet.apply s') := by
  induction xs generalizing s s' with
  | nil => exact h
  | cons x xs ih => exact ih (h.apply x)

/-- If a map is mentioned once more, only its own name can come to have uses. -/
theorem UsesMentioned.uses? (h : UsesMentioned key s s') (hlinked : s.Linked)
    (hclaimed : s.Claimed) (howner : s'.ownerKey q = s.ownerKey q)
    (hmap : (s'.map? q).isSome ↔ key = Text.fold q ∨ (s.map? q).isSome) :
    s'.uses? q = if key = Text.fold q then some ((s.uses? q).getD {}) else s.uses? q := by
  cases hm : s.map? q with
  | some m =>
    have huses : (s.uses? q).isSome := (hlinked.isSome_uses? q).2 (by rw [hm]; rfl)
    obtain ⟨u, hu⟩ := Option.isSome_iff_exists.1 huses
    have hget : s.uses.get? (s.ownerKey q) = some u := by
      rw [uses?_eq, hm, Option.isSome_some, if_pos rfl] at hu
      exact hu
    have hsome : (s'.map? q).isSome := hmap.2 (.inr (by rw [hm]; rfl))
    rw [uses?_eq s', if_pos hsome, howner, h, hget, hu, Option.getD_some, ite_self, ite_self]
  | none =>
    have hkey : s.ownerKey q = Text.fold q := by rw [ownerKey, hm]; rfl
    have huses : s.uses? q = none := by rw [uses?_eq, hm]; rfl
    rw [uses?_eq s', howner, hkey, h, hclaimed q hm, huses]
    rw [hm] at hmap
    by_cases hq : key = Text.fold q
    · rw [if_pos (hmap.2 (.inl hq)), if_pos hq]
    · have hnone : ¬(s'.map? q).isSome := fun hsome => (hmap.1 hsome).elim hq Bool.false_ne_true
      rw [if_neg hnone, if_neg hq]

/-! ## The sheet with the setting and without it -/

section Unknown

variable {ys zs : List Setting} (ht : x.topic? = some t) (hfield : t.field ∉ knownFields)

include ht in
theorem swatchFor?_of_topic (q : String) : x.swatchFor? q = none := by
  rw [Setting.swatchFor?, swatchName?_of_topic ht, Option.bind_none]

include hfield in
theorem not_recipeOf (q : String) : ¬t.RecipeOf q := by
  intro h
  rw [h.field_eq] at hfield
  exact hfield (by decide)

include ht hfield in
theorem recipeFor?_of_unknown (q : String) : x.recipeFor? q = none := by
  rw [Setting.recipeFor?, ht, Option.bind_some, if_neg (not_recipeOf hfield q)]

include ht hfield in
theorem ownerFor?_of_unknown (q : String) : x.ownerFor? q = none := by
  rw [Setting.ownerFor?, ht, Option.bind_some, if_neg fun h => not_recipeOf hfield q h.1]

include ht in
theorem colour?_insert (q : String) :
    ((ys ++ x :: zs).foldl apply empty).colour? q = ((ys ++ zs).foldl apply empty).colour? q :=
  view_insert (·.colour? q) (fun s x => colour?_apply s x q) (swatchFor?_of_topic ht q) ys zs

include ht hfield in
theorem recipe?_insert (q : String) :
    ((ys ++ x :: zs).foldl apply empty).recipe? q = ((ys ++ zs).foldl apply empty).recipe? q :=
  view_insert (·.recipe? q) (fun s x => recipe?_apply s x q) (recipeFor?_of_unknown ht hfield q)
    ys zs

include ht hfield in
theorem ownerKey_insert (q : String) :
    ((ys ++ x :: zs).foldl apply empty).ownerKey q =
      ((ys ++ zs).foldl apply empty).ownerKey q := by
  rw [ownerKey_foldl, ownerKey_foldl, ownerOf, ownerOf,
    filterMap_insert (ownerFor?_of_unknown ht hfield q)]

include ht hfield in
theorem usesMentioned_insert :
    UsesMentioned (Text.fold t.map) ((ys ++ zs).foldl apply empty)
      ((ys ++ x :: zs).foldl apply empty) := by
  rw [List.foldl_append, List.foldl_append, List.foldl_cons]
  refine UsesMentioned.foldl (fun other => ?_) zs
  rw [getUses_apply ht, ofName_of_not_mem hfield]
  rfl

include ht hfield in
theorem isSome_map?_insert (q : String) :
    (((ys ++ x :: zs).foldl apply empty).map? q).isSome ↔
      Text.fold t.map = Text.fold q ∨ (((ys ++ zs).foldl apply empty).map? q).isSome := by
  have hx : x.Mentions q ↔ Text.fold t.map = Text.fold q := by
    unfold Setting.Mentions
    rw [ht]
    simp [not_recipeOf hfield q]
  have happend : ∀ ws, (∃ y ∈ ys ++ ws, y.Mentions q) ↔
      (∃ y ∈ ys, y.Mentions q) ∨ ∃ y ∈ ws, y.Mentions q := by
    intro ws
    simp only [List.mem_append, or_and_right, exists_or]
  rw [isSome_map?_foldl, isSome_map?_foldl, happend, happend, List.exists_mem_cons_iff, hx,
    or_left_comm, or_assoc]

theorem exists_ne_none_iff {α β : Type} {f : α → Option β} {xs : List α} :
    (∃ y ∈ xs, f y ≠ none) ↔ xs.filterMap f ≠ [] := by
  rw [Ne, List.filterMap_eq_nil_iff]
  push Not
  rfl

/-- The spelling of a map does not hang on what stands between two parts of a sheet: it is an
alternate, or spelt before, or else spelt as it is by the first line behind. -/
def Spelt (name : String) (ys zs : List Setting) : Prop :=
  (∃ y ∈ ys ++ zs, y.ownerFor? name ≠ none) ∨ (∃ y ∈ ys, y.mapFor? name ≠ none) ∨
    (zs.filterMap (·.mapFor? name)).head? = some name

instance (name : String) (ys zs : List Setting) : Decidable (Spelt name ys zs) :=
  inferInstanceAs (Decidable (_ ∨ _))

theorem spelt_iff {name : String} :
    Spelt name ys zs ↔ (ys ++ zs).filterMap (·.targetFor? name) ≠ [] ∨
      ys.filterMap (·.mapFor? name) ≠ [] ∨
      (zs.filterMap (·.mapFor? name)).head? = some name := by
  have howner : (∃ y ∈ ys ++ zs, y.ownerFor? name ≠ none) ↔
      (ys ++ zs).filterMap (·.targetFor? name) ≠ [] := by
    rw [← exists_ne_none_iff]
    simp only [ne_eq, Setting.targetFor?_eq_none_iff]
  rw [Spelt, howner, exists_ne_none_iff]

theorem spelling?_append (ys zs : List Setting) (q : String) :
    ((ys ++ zs).foldl apply empty).spelling? q =
      ((ys ++ zs).filterMap (·.targetFor? q)).getLast?.or
        ((ys.filterMap (·.mapFor? q)).head?.or (zs.filterMap (·.mapFor? q)).head?) := by
  have hempty : empty.spelling? q = none := rfl
  have hhead : ((ys ++ zs).filterMap (·.mapFor? q)).head? =
      (ys.filterMap (·.mapFor? q)).head?.or (zs.filterMap (·.mapFor? q)).head? := by
    rw [List.filterMap_append, List.head?_append]
  rw [spelling?_foldl, hempty, Option.none_or, hhead]

include ht hfield in
theorem spelling?_insert :
    ((ys ++ x :: zs).foldl apply empty).spelling? t.map =
      ((ys ++ zs).filterMap (·.targetFor? t.map)).getLast?.or
        ((ys.filterMap (·.mapFor? t.map)).head?.or (some t.map)) := by
  have htarget : x.targetFor? t.map = none :=
    Setting.targetFor?_eq_none_iff.2 (ownerFor?_of_unknown ht hfield t.map)
  have hmap : x.mapFor? t.map = some t.map := by
    rw [Setting.mapFor?, ht, Option.bind_some, if_pos rfl]
  rw [spelling?_append, filterMap_insert htarget, head?_filterMap_cons, hmap, Option.some_or]

include ht hfield in
theorem spelling?_insert_of_not_spelt (h : ¬Spelt t.map ys zs) :
    ((ys ++ x :: zs).foldl apply empty).spelling? t.map = some t.map := by
  rw [spelt_iff, not_or, not_or, not_not, not_not] at h
  rw [spelling?_insert ht hfield, h.1, h.2.1]
  rfl

include ht hfield in
theorem spelling?_insert_eq_iff :
    ((ys ++ x :: zs).foldl apply empty).spelling? t.map =
      ((ys ++ zs).foldl apply empty).spelling? t.map ↔ Spelt t.map ys zs := by
  rw [spelling?_insert ht hfield, spelling?_append, spelt_iff]
  cases (ys ++ zs).filterMap (·.targetFor? t.map) using List.reverseRecOn with
  | append_singleton names name =>
    rw [List.getLast?_concat]
    exact iff_of_true rfl (.inl (List.concat_ne_nil name names))
  | nil =>
    cases ys.filterMap (·.mapFor? t.map) with
    | cons name names => exact iff_of_true rfl (.inr (.inl (List.cons_ne_nil name names)))
    | nil => simp [eq_comm]

include ht hfield in
theorem map?_insert_of_ne {q : String} (hq : Text.fold t.map ≠ Text.fold q) :
    ((ys ++ x :: zs).foldl apply empty).map? q = ((ys ++ zs).foldl apply empty).map? q := by
  have htarget : x.targetFor? q = none :=
    Setting.targetFor?_eq_none_iff.2 (ownerFor?_of_unknown ht hfield q)
  have hmap : x.mapFor? q = none := by
    rw [Setting.mapFor?, ht, Option.bind_some, if_neg hq]
  rw [map?_eq_iff (recipe?_insert ht hfield q) (ownerKey_insert ht hfield q), spelling?_append,
    spelling?_append, filterMap_insert htarget, List.filterMap_cons_none hmap]

include ht hfield in
theorem map?_insert_of_spelt (h : Spelt t.map ys zs) :
    ((ys ++ x :: zs).foldl apply empty).map? t.map =
      ((ys ++ zs).foldl apply empty).map? t.map :=
  (map?_eq_iff (recipe?_insert ht hfield t.map) (ownerKey_insert ht hfield t.map)).2
    ((spelling?_insert_eq_iff ht hfield).2 h)

include ht hfield in
theorem map?_insert_of_not_spelt (h : ¬Spelt t.map ys zs) :
    ((ys ++ x :: zs).foldl apply empty).map? t.map =
      some ⟨t.map, ((ys ++ zs).foldl apply empty).recipe? t.map,
        ((ys ++ zs).foldl apply empty).ownerKey t.map⟩ := by
  rw [map?_eq, spelling?_insert_of_not_spelt ht hfield h, recipe?_insert ht hfield,
    ownerKey_insert ht hfield]
  rfl

include ht hfield in
/-- The setting changes nothing if and only if the map has uses and a spelling without it. -/
theorem insert_eq_iff :
    (ys ++ x :: zs).foldl apply empty = (ys ++ zs).foldl apply empty ↔
      Spelt t.map ys zs ∧ ∃ y ∈ ys ++ zs, y.mapFor? t.map ≠ none := by
  have huses : UsesMentioned (Text.fold t.map) ((ys ++ zs).foldl apply empty)
      ((ys ++ x :: zs).foldl apply empty) := usesMentioned_insert ht hfield
  have hisSome : (((ys ++ zs).foldl apply empty).uses.get? (Text.fold t.map)).isSome ↔
      ∃ y ∈ ys ++ zs, y.mapFor? t.map ≠ none :=
    (isSome_getUses_foldl (ys ++ zs) empty t.map).trans (or_iff_left Bool.false_ne_true)
  rw [← hisSome]
  constructor
  · intro h
    refine ⟨(spelling?_insert_eq_iff ht hfield).1 (by rw [h]), ?_⟩
    have hkey := huses (Text.fold t.map)
    rw [if_pos rfl, h] at hkey
    rw [hkey]
    rfl
  · rintro ⟨hspelt, hsome⟩
    refine eq_of_lookups (keyed_foldl _) (keyed_foldl _) (colour?_insert ht) (fun q => ?_)
      fun key => ?_
    · by_cases hq : Text.fold t.map = Text.fold q
      · have hmap := map?_insert_of_spelt ht hfield hspelt
        unfold map? at hmap ⊢
        rw [← hq, hmap]
      · exact map?_insert_of_ne ht hfield hq
    · rw [huses key]
      split
      case isTrue hkey =>
        obtain ⟨u, hu⟩ := Option.isSome_iff_exists.1 hsome
        rw [← hkey, hu]
        rfl
      case isFalse => rfl

end Unknown

/-! ## The line -/

/-- A line with an unknown key changes nothing if it is the kind of thing that is not known. If
it is the field of a map, it is about the map, and sets nothing. -/
theorem read_insertLine (h : Sheet.read (before ++ after) = .ok s)
    (hplace : Text.LinesMeet before.toList after.toList) (hline : '\n' ∉ line.toList)
    (hx : Setting.ofLine? line.toList = some x) :
    (x.path.head? ∉ [some "colour", some "map"] →
      Sheet.read (insertLine before line after) = .ok s) ∧
    ∀ t, x.topic? = some t → t.map ≠ "" → t.field ∉ knownFields →
      ∃ s', Sheet.read (insertLine before line after) = .ok s' ∧
        (s' = s ↔ Spelt t.map (settings before) (settings after) ∧
          ∃ y ∈ settings before ++ settings after, y.mapFor? t.map ≠ none) ∧
        s'.colours = s.colours ∧
        (∀ q, Text.fold t.map ≠ Text.fold q → s'.map? q = s.map? q) ∧
        (Spelt t.map (settings before) (settings after) → s'.map? t.map = s.map? t.map) ∧
        (¬Spelt t.map (settings before) (settings after) →
          s'.map? t.map = some ⟨t.map, s.recipe? t.map, s.ownerKey t.map⟩) ∧
        ∀ q, s'.uses? q =
          if Text.fold t.map = Text.fold q then some ((s.uses? q).getD {}) else s.uses? q := by
  constructor
  · intro hhead
    obtain ⟨hread, rfl⟩ := read_insertLine_eq h hplace hline hx (not_incomplete_of_head hhead)
    rw [hread, List.foldl_append, List.foldl_cons, apply_of_head hhead, ← List.foldl_append]
  · intro t ht hne hfield
    obtain ⟨hread, rfl⟩ := read_insertLine_eq h hplace hline hx (not_incomplete_of_topic ht hne)
    generalize settings before = ys at hread ⊢
    generalize settings after = zs at hread ⊢
    refine ⟨_, hread, insert_eq_iff ht hfield, ?_, fun q hq => map?_insert_of_ne ht hfield hq,
      map?_insert_of_spelt ht hfield, map?_insert_of_not_spelt ht hfield, fun q => ?_⟩
    · exact table_ext (keyed_foldl _).fold_swatch (keyed_foldl _).fold_swatch (colour?_insert ht)
    · exact (usesMentioned_insert ht hfield).uses? (linked_foldl linked_empty _)
        (claimed_foldl claimed_empty _) (ownerKey_insert ht hfield q)
        (isSome_map?_insert ht hfield q)

/-- A sheet with a map, up to the end of a line. -/
def trackedSea : String := "map.Sea.tracks=yes\n"

/-- The rest of the sheet. -/
def tealRest : String := "colour.Teal=#008080"

theorem settings_trackedSea : settings trackedSea = [⟨["map", "Sea", "tracks"], "yes"⟩] := by
  decide +kernel

theorem settings_tealRest : settings tealRest = [⟨["colour", "Teal"], "#008080"⟩] := by
  decide +kernel

theorem read_insertLine_trackedSea :
    ∃ s s', Sheet.read (trackedSea ++ tealRest) = .ok s ∧
      Sheet.read (insertLine trackedSea "sea.deep=1" tealRest) = .ok s ∧
      Sheet.read (insertLine trackedSea "map.SEA.Shape.low=round" tealRest) = .ok s ∧
      Sheet.read (insertLine trackedSea "map.Lake.shape=round" tealRest) = .ok s' ∧
      s' ≠ s ∧ s'.colours = s.colours ∧ s'.map? "Sea" = s.map? "Sea" ∧
      s'.spelling? "lake" = some "Lake" ∧ s'.uses? "Lake" = some {} := by
  have hplace : Text.LinesMeet trackedSea.toList tealRest.toList := .inr (by decide)
  have hlake : (Sheet.read (trackedSea ++ tealRest)).toOption.any
      fun s => s.uses? "Lake" = none := by
    decide +kernel
  obtain ⟨s, h, hnone⟩ := exists_read_eq_ok hlake
  have hdeep : Setting.ofLine? "sea.deep=1".toList = some ⟨["sea", "deep"], "1"⟩ := by
    decide +kernel
  have hlow : Setting.ofLine? "map.SEA.Shape.low=round".toList =
      some ⟨["map", "SEA", "Shape", "low"], "round"⟩ := by
    decide +kernel
  have hshape : Setting.ofLine? "map.Lake.shape=round".toList =
      some ⟨["map", "Lake", "shape"], "round"⟩ := by
    decide +kernel
  have hsection := (read_insertLine h hplace (by decide) hdeep).1 (by decide)
  obtain ⟨s', hread', hsame, -⟩ := (read_insertLine h hplace (by decide) hlow).2
    ⟨"SEA", "shape", ["low"]⟩ (by decide +kernel) (by decide) (by decide)
  obtain ⟨s'', hread'', hsame', hcolours, hother, -, hnew, huses⟩ :=
    (read_insertLine h hplace (by decide) hshape).2
      ⟨"Lake", "shape", []⟩ (by decide +kernel) (by decide) (by decide)
  rw [settings_trackedSea, settings_tealRest] at hsame hsame' hnew
  rw [hsame.2 (by decide +kernel)] at hread'
  have hfold : Text.fold "Lake" = Text.fold "lake" := by decide +kernel
  have hspelling : s''.spelling? "lake" = some "Lake" := by
    rw [spelling?, map?, ← hfold]
    exact congrArg (Option.map (·.name)) (hnew (by decide +kernel))
  refine ⟨s, s'', h, hsection, hread', hread'', mt hsame'.1 (by decide +kernel), hcolours,
    hother "Sea" (by decide +kernel), hspelling, ?_⟩
  rw [huses, if_pos rfl, of_decide_eq_true hnone]
  rfl

/-- A field that is not known brings a map into being. -/
theorem exists_unknown_field_kept :
    ∃ (before line after : String) (s : Sheet) (x : Setting) (t : Topic),
      Sheet.read (before ++ after) = .ok s ∧ Text.LinesMeet before.toList after.toList ∧
      '\n' ∉ line.toList ∧ Setting.ofLine? line.toList = some x ∧ x.topic? = some t ∧
      t.map ≠ "" ∧ t.field ∉ knownFields ∧
      Sheet.read (insertLine before line after) ≠ .ok s := by
  have hsea : (Sheet.read (insertLine "" "map.Sea.shape=round" "")).toOption.any
      fun s => (s.map? "Sea").isSome := by
    decide +kernel
  refine ⟨"", "map.Sea.shape=round", "", empty, ⟨["map", "Sea", "shape"], "round"⟩,
    ⟨"Sea", "shape", []⟩, rfl, .inl rfl, by decide, by decide +kernel, by decide +kernel,
    by decide, by decide, fun hread => ?_⟩
  obtain ⟨s, hread', hsome⟩ := exists_read_eq_ok hsea
  rw [hread] at hread'
  cases hread'
  exact absurd hsome Bool.false_ne_true

end Colourway.Sheet
