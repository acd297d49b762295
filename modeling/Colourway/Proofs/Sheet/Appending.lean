/-
  A line put behind a sheet, to say whether the map of a name may be used in some place.

  Such a line is read after all others, and leaves them as they were (`read_appendLine`). It
  sets a use under the name that it gives, while every name reads the uses under that of its
  owner. So the line shows at all names with that owner, and at no other (`uses?_appendLine`).
  The given name is its own owner, unless it was made an alternate of another map: then the
  line is lost on it (`exists_use_not_taken`).
-/
import Colourway.Proofs.Sheet.Sharing
import Colourway.Proofs.Text.LineEnds

namespace Colourway.Sheet

/-! ## One more line -/

/-- A carriage return at the end of a line is white space behind the value. -/
theorem ofLine_concat_return (number : Nat) (line : List Char) :
    Entry.ofLine number (line ++ ['\r']) = Entry.ofLine number line := by
  have hblank : Text.isBlank '\r' = true := by decide
  unfold Entry.ofLine
  rw [Text.trim_concat_of_isBlank hblank, Text.cutAt?_concat (by decide)]
  cases Text.cutAt? '=' line with
  | none => rfl
  | some sides =>
    dsimp only [Option.map_some]
    rw [Text.trim_concat_of_isBlank hblank]

theorem ofLine_dropReturn (number : Nat) (line : List Char) :
    Entry.ofLine number (Text.dropReturn line) = Entry.ofLine number line :=
  Text.apply_dropReturn (ofLine_concat_return number) line

/-- The entries of a list of lines. -/
def entriesOf (lines : List (List Char)) : Except Fault (List Entry) :=
  (lines.zipIdx 1).mapM fun line => Entry.ofLine line.2 line.1

theorem entriesOf_concat (before : List (List Char)) (line : List Char) :
    entriesOf (before ++ [line]) = (entriesOf before).bind fun entries =>
      (Entry.ofLine (1 + before.length) line).map fun entry => entries ++ [entry] := by
  unfold entriesOf
  rw [List.zipIdx_append, List.mapM_append, List.zipIdx_singleton, List.mapM_cons, List.mapM_nil]
  cases (before.zipIdx 1).mapM fun line => Entry.ofLine line.2 line.1 with
  | error fault => rfl
  | ok entries => cases Entry.ofLine (1 + before.length) line <;> rfl

variable {text line name : String} {s : Sheet} {entry : Entry}

/-- The text with one more line. -/
def appendLine (text line : String) : String :=
  String.ofList (Text.appendLine text.toList line.toList)

theorem readEntries_appendLine (hline : '\n' ∉ line.toList) (hne : line ≠ "") (text : String) :
    readEntries (appendLine text line) = entriesOf (Text.lines text.toList ++ [line.toList]) := by
  have hne' : line.toList ≠ [] := mt String.toList_eq_nil_iff.1 hne
  have hread : readEntries (appendLine text line) =
      entriesOf (Text.lines (Text.appendLine text.toList line.toList)) := by
    rw [readEntries, numberedLines, appendLine, String.toList_ofList]
    rfl
  rw [hread]
  rcases Text.lines_appendLine hline hne' text.toList with hlines | ⟨before, last, hold, hnew⟩
  · rw [hlines]
  · rw [hold, hnew, entriesOf_concat, entriesOf_concat, entriesOf_concat, entriesOf_concat,
      ofLine_dropReturn, List.length_append, List.length_append]
    rfl

/-- One more line adds one more entry. -/
theorem read_appendLine (h : Sheet.read text = .ok s) (hline : '\n' ∉ line.toList)
    (hne : line ≠ "") (hentry : ∀ number, Entry.ofLine number line.toList = .ok entry) :
    Sheet.read (appendLine text line) = .ok (s.add entry) := by
  unfold Sheet.read at h ⊢
  rw [readEntries_appendLine hline hne, entriesOf_concat, hentry]
  cases hentries : readEntries text with
  | error fault => rw [hentries] at h; cases h
  | ok entries =>
    rw [hentries] at h
    cases h
    rw [show entriesOf (Text.lines text.toList) = .ok entries from hentries]
    exact congrArg Except.ok (List.foldl_concat add empty entry entries)

theorem exists_read_eq_ok {p : Sheet → Bool} (h : (Sheet.read text).toOption.any p = true) :
    ∃ s, Sheet.read text = .ok s ∧ p s = true := by
  cases hread : Sheet.read text with
  | error fault =>
    rw [hread] at h
    cases h
  | ok s =>
    rw [hread] at h
    exact ⟨s, rfl, h⟩

/-! ## A line about a use -/

variable {place : Use} {allowed : Bool} {q : String}

/-- A value that says yes, or one that does not. -/
def answer (allowed : Bool) : String := if allowed then "yes" else "no"

/-- The key that says of a map whether it may be used in some place. -/
def useKey (name : String) (place : Use) : String := "map." ++ (name ++ ("." ++ place.field))

/-- The line that allows the map of a name in some place, or does not. -/
def useLine (name : String) (place : Use) (allowed : Bool) : String :=
  useKey name place ++ ("=" ++ answer allowed)

theorem toList_useKey (name : String) (place : Use) :
    (useKey name place).toList =
      "map.".toList ++ (name.toList ++ ("." ++ place.field).toList) := by
  rw [useKey, String.toList_append, String.toList_append]

theorem toList_useLine (name : String) (place : Use) (allowed : Bool) :
    (useLine name place allowed).toList =
      (useKey name place).toList ++ '=' :: (answer allowed).toList := by
  rw [useLine, String.toList_append, String.toList_append]
  rfl

theorem ofName_field (place : Use) (allowed : Bool) :
    Field.ofName (Text.fold place.field) [] (answer allowed) = .use place allowed := by
  cases place <;> cases allowed <;> decide +kernel

theorem ofKey?_useKey (hne : name ≠ "") (hdot : '.' ∉ name.toList) (place : Use)
    (allowed : Bool) :
    Entry.ofKey? (useKey name place) (answer allowed) = some (.map name (.use place allowed)) := by
  have hfield : '.' ∉ place.field.toList := by cases place <;> decide
  have hkey : (useKey name place).toList =
      "map".toList ++ '.' :: (name.toList ++ '.' :: place.field.toList) := by
    rw [toList_useKey, String.toList_append]
    rfl
  have hsegments : (Text.segments '.' (useKey name place).toList).map String.ofList =
      ["map", name, place.field] := by
    rw [hkey, Text.segments_append _ (by decide), Text.segments_append _ hdot,
      Text.segments_of_not_mem hfield]
    simp
  have hmap : Entry.ofMap? (answer allowed) [name, place.field] =
      some (.map name (.use place allowed)) := by
    rw [Entry.ofMap?, if_neg hne, ofName_field]
  unfold Entry.ofKey?
  rw [hsegments]
  exact hmap

/-- The line gives the name its use, for no side of it has white space to lose. -/
theorem ofLine_useLine (hne : name ≠ "") (hdot : '.' ∉ name.toList) (hequals : '=' ∉ name.toList)
    (number : Nat) : Entry.ofLine number (useLine name place allowed).toList =
      .ok (.map name (.use place allowed)) := by
  have hkey : '=' ∉ (useKey name place).toList := by
    rw [toList_useKey, List.mem_append, List.mem_append, not_or, not_or]
    exact ⟨by decide, hequals, by cases place <;> decide⟩
  have hcut : Text.cutAt? '=' (useLine name place allowed).toList =
      some ((useKey name place).toList, (answer allowed).toList) := by
    rw [toList_useLine, Text.cutAt?_append hkey]
  have htrimKey : Text.trim (useKey name place).toList = (useKey name place).toList := by
    rw [toList_useKey]
    exact Text.trim_append_append (by decide) (by decide) (by cases place <;> decide)
      (by cases place <;> decide)
  have htrimValue : Text.trim (answer allowed).toList = (answer allowed).toList := by
    cases allowed <;> decide
  have hblank : ¬(Text.trim (useLine name place allowed).toList).isEmpty := by
    intro hnil
    rw [cutAt?_eq_none_of_blank (List.isEmpty_iff.1 hnil)] at hcut
    cases hcut
  unfold Entry.ofLine
  rw [if_neg hblank, hcut]
  dsimp only
  rw [htrimKey, htrimValue, String.ofList_toList, String.ofList_toList, ofKey?_useKey hne hdot]

theorem useLine_ne_empty (name : String) (place : Use) (allowed : Bool) :
    useLine name place allowed ≠ "" := by
  intro heq
  have hlist := toList_useLine name place allowed
  rw [heq] at hlist
  exact List.append_ne_nil_of_right_ne_nil _ (List.cons_ne_nil _ _) hlist.symm

theorem feed_not_mem_useLine (h : '\n' ∉ name.toList) (place : Use) (allowed : Bool) :
    '\n' ∉ (useLine name place allowed).toList := by
  have hfield : '\n' ∉ ("." ++ place.field).toList := by cases place <;> decide
  have hanswer : '\n' ∉ '=' :: (answer allowed).toList := by cases allowed <;> decide
  rw [toList_useLine, toList_useKey]
  simp only [List.mem_append, not_or]
  exact ⟨⟨by decide, h, hfield⟩, hanswer⟩

/-! ## Where the use shows -/

/-- The uses are those of names that have a map. -/
def Claimed (s : Sheet) : Prop :=
  ∀ q, s.map? q = none → s.uses.get? (Text.fold q) = none

theorem claimed_empty : empty.Claimed := fun _ _ => rfl

theorem Claimed.apply (h : s.Claimed) (x : Setting) : (s.apply x).Claimed := by
  intro q hq
  have hnot : ¬(x.Mentions q ∨ (s.map? q).isSome) := by
    rw [← isSome_map?_apply, hq]
    exact Bool.false_ne_true
  have huses := h q (Option.not_isSome_iff_eq_none.1 fun hsome => hnot (.inr hsome))
  cases ht : x.topic? with
  | none => rw [(maps_and_uses_apply_of_no_topic ht s).2, huses]
  | some t =>
    have hmap : Text.fold t.map ≠ Text.fold q := fun heq => hnot (.inl ⟨t, ht, .inl heq⟩)
    rw [getUses_apply ht, if_neg hmap, huses]

theorem claimed_foldl (h : s.Claimed) (xs : List Setting) : (xs.foldl apply s).Claimed := by
  induction xs generalizing s with
  | nil => exact h
  | cons x xs ih => exact ih (h.apply x)

theorem map?_add_use (s : Sheet) (name : String) (place : Use) (allowed : Bool) (q : String) :
    (s.add (.map name (.use place allowed))).map? q =
      if Text.fold name = Text.fold q then some ((s.map? q).getD ⟨name, none, Text.fold name⟩)
      else s.map? q :=
  get?_maps_mention ..

theorem getUses_add_use (s : Sheet) (name : String) (place : Use) (allowed : Bool)
    (key : String) : (s.add (.map name (.use place allowed))).uses.get? key =
      if Text.fold name = key then some (((s.uses.get? key).getD {}).set place allowed)
      else s.uses.get? key := by
  have hmention : (s.mention name).uses.get? key =
      if Text.fold name = key then some ((s.uses.get? key).getD {}) else s.uses.get? key :=
    NameTable.get?_insertNew ..
  have hmodify : (s.add (.map name (.use place allowed))).uses.get? key = _ :=
    NameTable.get?_modify ..
  rw [hmodify, hmention]
  split <;> rfl

/-- A use that is set shows at every name whose owner has the name it is set under. -/
theorem Claimed.uses?_add_use (h : s.Claimed) (name : String) (place : Use) (allowed : Bool)
    (q : String) : (s.add (.map name (.use place allowed))).uses? q =
      if Text.fold name = s.ownerKey q then some (((s.uses? q).getD {}).set place allowed)
      else s.uses? q := by
  unfold uses? ownerKey
  rw [map?_add_use]
  cases hq : s.map? q with
  | some m => simp [getUses_add_use]
  | none =>
    rw [Option.getD_none, Option.map_none, Option.getD_none, Option.bind_none]
    split
    case isTrue hname =>
      -- the map is new, and no uses are left under its name from before
      rw [Option.bind_some, getUses_add_use, if_pos rfl, hname, h q hq]
    case isFalse => rfl

/-- What a line about a use does to a sheet: it shows at all names with the owner it gives. -/
theorem uses?_appendLine (h : Sheet.read text = .ok s) (hne : name ≠ "")
    (hdot : '.' ∉ name.toList) (hequals : '=' ∉ name.toList) (hfeed : '\n' ∉ name.toList)
    (place : Use) (allowed : Bool) :
    ∃ s', Sheet.read (appendLine text (useLine name place allowed)) = .ok s' ∧
      (∀ q, s'.uses? q =
        if Text.fold name = Text.fold (ownerOf q (settings text)) then
          some (((s.uses? q).getD {}).set place allowed)
        else s.uses? q) ∧
      ((∀ y ∈ settings text, y.ownerFor? name = none) →
        s'.uses? name = some (((s.uses? name).getD {}).set place allowed)) ∧
      ((∃ y ∈ settings text, y.ownerFor? name ≠ none) → s'.uses? name = s.uses? name) := by
  have hread := read_appendLine h (feed_not_mem_useLine hfeed place allowed)
    (useLine_ne_empty name place allowed) (ofLine_useLine hne hdot hequals)
  have hclaimed : s.Claimed := by
    rw [eq_foldl_apply_of_read h]
    exact claimed_foldl claimed_empty _
  have howner : ∀ q, s.ownerKey q = Text.fold (ownerOf q (settings text)) := by
    intro q
    rw [eq_foldl_apply_of_read h, ownerKey_foldl]
  have huses := hclaimed.uses?_add_use name place allowed
  simp only [howner] at huses
  refine ⟨_, hread, huses, ?_, ?_⟩
  · intro hself
    rw [huses, if_pos (fold_ownerOf_eq_iff.2 hself).symm]
  · rintro ⟨y, hy, hother⟩
    rw [huses, if_neg fun heq => hother (fold_ownerOf_eq_iff.1 heq.symm y hy)]

/-- A sheet with one alternate. -/
def nightSea : String := "map.Sea.colour.Night=BlackToBlue"

theorem settings_nightSea :
    settings nightSea = [⟨["map", "Sea", "colour", "Night"], "BlackToBlue"⟩] := by
  decide +kernel

theorem uses?_appendLine_nightSea :
    ∃ s s', Sheet.read nightSea = .ok s ∧
      Sheet.read (appendLine nightSea (useLine "Sea" .tracks true)) = .ok s' ∧
      s.uses? "Sea" = some {} ∧ s.uses? "NightSea" = some {} ∧
      s'.uses? "Sea" = some { tracks := true } ∧ s'.uses? "NightSea" = some { tracks := true } := by
  have hbefore : (Sheet.read nightSea).toOption.any fun s =>
      s.uses? "Sea" = some {} ∧ s.uses? "NightSea" = some {} := by decide +kernel
  obtain ⟨s, hread, huses⟩ := exists_read_eq_ok hbefore
  obtain ⟨hsea, hnight⟩ := of_decide_eq_true huses
  have hne : "Sea" ≠ "" := by decide
  obtain ⟨s', hread', hall, hself, -⟩ := uses?_appendLine hread hne (by decide) (by decide)
    (by decide) .tracks true
  rw [settings_nightSea] at hall hself
  refine ⟨s, s', hread, hread', hsea, hnight, ?_, ?_⟩
  · rw [hself (by decide +kernel), hsea]
    rfl
  · rw [hall, if_pos (by decide +kernel), hnight]
    rfl

/-- The line is lost on an alternate. -/
theorem exists_use_not_taken :
    ∃ s s', Sheet.read nightSea = .ok s ∧
      Sheet.read (appendLine nightSea (useLine "NightSea" .tracks true)) = .ok s' ∧
      s'.uses? "NightSea" ≠ some (((s.uses? "NightSea").getD {}).set .tracks true) := by
  have hdiffer : (Sheet.read nightSea).toOption.any fun s =>
      (Sheet.read (appendLine nightSea (useLine "NightSea" .tracks true))).toOption.any fun s' =>
        s'.uses? "NightSea" != some (((s.uses? "NightSea").getD {}).set .tracks true) := by
    decide +kernel
  obtain ⟨s, hread, hdiffer⟩ := exists_read_eq_ok hdiffer
  obtain ⟨s', hread', hdiffer⟩ := exists_read_eq_ok hdiffer
  exact ⟨s, s', hread, hread', bne_iff_ne.1 hdiffer⟩

end Colourway.Sheet
