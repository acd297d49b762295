/-
  The longest name at the start of a text. A name stands for a colour if it was added with it,
  or is known with it and not hidden by an added one (`Swatches.Holds`). Of all such names the
  one that is found is the longest (`longestAtStart?_eq_some_iff`): equally long names at the
  start of one text are the same name, and the added ones are looked at first.
-/
import Mathlib
import Colourway.Swatches

namespace Colourway.Swatches

/-- The name stands for the colour. An added name hides a known one that is spelt the same. -/
def Holds (s : Swatches) (name : String) (c : Colour) : Prop :=
  s.added.get? name = some c ∨ s.added.get? name = none ∧ (name, c) ∈ Colour.named

/-- The name is the longest one at the start of the text, and stands for the colour. -/
structure IsLongest (s : Swatches) (text : List Char) (name : String) (c : Colour) : Prop where
  ne_empty : name ≠ ""
  starts : name.toList <+: text
  holds : s.Holds name c
  longest : ∀ other d, s.Holds other d → other.toList <+: text → other.length ≤ name.length

variable {s : Swatches} {text : List Char} {name : String} {c d : Colour}

/-! ## Names that stand for a colour -/

theorem eq_of_mem_named : ∀ e ∈ Colour.named, ∀ f ∈ Colour.named, e.1 = f.1 → e = f := by
  decide

theorem Holds.unique (hc : s.Holds name c) (hd : s.Holds name d) : c = d := by
  rcases hc with hc | ⟨hnone, hc⟩ <;> rcases hd with hd | ⟨hnone', hd⟩
  · rw [hc] at hd
    exact Option.some.inj hd
  · rw [hc] at hnone'
    cases hnone'
  · rw [hd] at hnone
    cases hnone
  · exact congrArg Prod.snd (eq_of_mem_named _ hc _ hd rfl)

theorem Holds.mem_entries (h : s.Holds name c) : (name, c) ∈ s.entries := by
  rcases h with h | ⟨-, h⟩
  · exact List.mem_append_left _ (NameTable.get?_eq_some_iff.1 h)
  · exact List.mem_append_right _ h

theorem holds_insert_self : (s.insert name c).Holds (Text.fold name) c :=
  .inl ((NameTable.get?_insert ..).trans (if_pos rfl))

theorem holds_insert_of_ne {other : String} (h : Text.fold name ≠ other) :
    (s.insert name c).Holds other d ↔ s.Holds other d := by
  have hget : (s.insert name c).added.get? other = s.added.get? other :=
    (NameTable.get?_insert ..).trans (if_neg h)
  unfold Holds
  rw [hget]

/-! ## The search -/

theorem opens_iff : opens text name = true ↔ name ≠ "" ∧ name.toList <+: text := by
  simp only [opens, Bool.and_eq_true, Bool.not_eq_true', List.isPrefixOf_iff_prefix,
    String.isEmpty_eq_false_iff]

theorem length_le_of_longer {best : Option (String × Colour)} {x e : String × Colour}
    (h : ∀ b ∈ longer best x, b.1.length < e.1.length) :
    (∀ b ∈ best, b.1.length < e.1.length) ∧ x.1.length < e.1.length := by
  cases best with
  | none => exact ⟨nofun, h x rfl⟩
  | some b =>
    unfold longer at h
    dsimp only at h
    split at h
    case isTrue hle =>
      have hb := h b rfl
      refine ⟨fun d hd => ?_, by omega⟩
      cases hd
      exact hb
    case isFalse hlt =>
      have hx := h x rfl
      refine ⟨fun d hd => ?_, hx⟩
      cases hd
      omega

/-- What is found is longer than all before it, and as long as those behind it at least. -/
theorem of_foldl_longer {es : List (String × Colour)} {best : Option (String × Colour)}
    {e : String × Colour} (h : es.foldl longer best = some e) :
    best = some e ∧ (∀ d ∈ es, d.1.length ≤ e.1.length) ∨
      ∃ before after, es = before ++ e :: after ∧ (∀ b ∈ best, b.1.length < e.1.length) ∧
        (∀ d ∈ before, d.1.length < e.1.length) ∧ ∀ d ∈ after, d.1.length ≤ e.1.length := by
  induction es generalizing best with
  | nil => exact .inl ⟨h, nofun⟩
  | cons x es ih =>
    rcases ih h with ⟨hbest, hes⟩ | ⟨before, after, rfl, hbest, hbefore, hafter⟩
    · cases best with
      | none =>
        cases hbest
        exact .inr ⟨[], es, rfl, nofun, nofun, hes⟩
      | some b =>
        unfold longer at hbest
        dsimp only at hbest
        split at hbest
        case isTrue hle =>
          cases hbest
          exact .inl ⟨rfl, List.forall_mem_cons.2 ⟨hle, hes⟩⟩
        case isFalse hlt =>
          cases hbest
          refine .inr ⟨[], es, rfl, fun d hd => ?_, nofun, hes⟩
          cases hd
          omega
    · obtain ⟨hbest, hx⟩ := length_le_of_longer hbest
      exact .inr ⟨x :: before, after, rfl, hbest, List.forall_mem_cons.2 ⟨hx, hbefore⟩, hafter⟩

theorem isSome_foldl_longer {entries : List (String × Colour)} {best : Option (String × Colour)}
    (h : best.isSome ∨ entries ≠ []) : (entries.foldl longer best).isSome := by
  induction entries generalizing best with
  | nil => simpa using h
  | cons e entries ih =>
    refine ih (.inl ?_)
    cases best with
    | none => rfl
    | some b =>
      unfold longer
      dsimp only
      split <;> rfl

/-- If an item behind some others is not among the first ones of a list, those are all before
it. -/
theorem mem_of_append_eq {α : Type} {first rest before after : List α} {e : α}
    (h : first ++ rest = before ++ e :: after) (he : e ∉ first) : ∀ d ∈ first, d ∈ before := by
  rcases List.append_eq_append_iff.1 h with ⟨middle, rfl, -⟩ | ⟨middle, rfl, hmiddle⟩
  · exact fun d hd => List.mem_append_left _ hd
  · cases middle with
    | nil => exact fun d hd => by rwa [List.append_nil] at hd
    | cons x middle =>
      obtain ⟨rfl, -⟩ := List.cons.inj hmiddle
      exact absurd (List.mem_append_right _ List.mem_cons_self) he

theorem isLongest_of_longestAtStart? (h : s.longestAtStart? text = some (name, c)) :
    s.IsLongest text name c := by
  rcases of_foldl_longer h with ⟨hnone, -⟩ | ⟨before, after, hsplit, -, hbefore, hafter⟩
  · cases hnone
  have hmem : (name, c) ∈ s.entries.filter (opens text ·.1) := by
    rw [hsplit]
    simp
  obtain ⟨hentry, hopens⟩ := List.mem_filter.1 hmem
  obtain ⟨hne, hstarts⟩ := opens_iff.1 hopens
  refine ⟨hne, hstarts, ?_, fun other d hother hstart => ?_⟩
  · by_cases hadded : (name, c) ∈ s.added.entries
    · exact .inl (NameTable.get?_eq_some_iff.2 hadded)
    · refine .inr ⟨Option.eq_none_iff_forall_ne_some.2 fun d hd => ?_,
        (List.mem_append.1 hentry).resolve_left hadded⟩
      -- an added entry of the same name would come first, and be shorter than itself
      have hd' : (name, d) ∈ s.added.entries.filter (opens text ·.1) :=
        List.mem_filter.2 ⟨NameTable.get?_eq_some_iff.1 hd, hopens⟩
      have hsplit' : s.added.entries.filter (opens text ·.1) ++
          Colour.named.filter (opens text ·.1) = before ++ (name, c) :: after := by
        rw [← List.filter_append]
        exact hsplit
      have hlt := hbefore _ (mem_of_append_eq hsplit' (mt List.mem_of_mem_filter hadded) _ hd')
      exact absurd hlt (Nat.lt_irrefl _)
  · by_cases hempty : other = ""
    · rw [hempty]
      exact Nat.zero_le _
    · have hin : (other, d) ∈ s.entries.filter (opens text ·.1) :=
        List.mem_filter.2 ⟨hother.mem_entries, opens_iff.2 ⟨hempty, hstart⟩⟩
      rw [hsplit] at hin
      rcases List.mem_append.1 hin with hin | hin
      · exact (hbefore _ hin).le
      · rcases List.mem_cons.1 hin with heq | hin
        · rw [(Prod.mk.inj heq).1]
        · exact hafter _ hin

theorem eq_of_starts_of_length_eq {other : String} (h : name.toList <+: text)
    (ho : other.toList <+: text) (hlen : name.length = other.length) : name = other := by
  rw [← String.length_toList, ← String.length_toList] at hlen
  have heq := List.prefix_of_prefix_length_le h ho hlen.le
  exact String.toList_inj.1 (heq.eq_of_length hlen)

theorem IsLongest.unique {other : String} (h : s.IsLongest text name c)
    (ho : s.IsLongest text other d) : name = other ∧ c = d := by
  have hname : name = other := eq_of_starts_of_length_eq h.starts ho.starts
    (Nat.le_antisymm (ho.longest name c h.holds h.starts) (h.longest other d ho.holds ho.starts))
  subst hname
  exact ⟨rfl, h.holds.unique ho.holds⟩

theorem longestAtStart?_eq_none_iff :
    s.longestAtStart? text = none ↔
      ¬∃ name c, s.Holds name c ∧ name ≠ "" ∧ name.toList <+: text := by
  constructor
  · rintro h ⟨name, c, hholds, hne, hstarts⟩
    have hin : (name, c) ∈ s.entries.filter (opens text ·.1) :=
      List.mem_filter.2 ⟨hholds.mem_entries, opens_iff.2 ⟨hne, hstarts⟩⟩
    have hsome : (s.longestAtStart? text).isSome :=
      isSome_foldl_longer (.inr (List.ne_nil_of_mem hin))
    rw [h] at hsome
    cases hsome
  · intro h
    cases hfound : s.longestAtStart? text with
    | none => rfl
    | some e =>
      have hlongest := isLongest_of_longestAtStart? hfound
      exact absurd ⟨e.1, e.2, hlongest.holds, hlongest.ne_empty, hlongest.starts⟩ h

/-- The name that is found is the longest one at the start of the text. -/
theorem longestAtStart?_eq_some_iff :
    s.longestAtStart? text = some (name, c) ↔ s.IsLongest text name c := by
  refine ⟨isLongest_of_longestAtStart?, fun h => ?_⟩
  cases hfound : s.longestAtStart? text with
  | none =>
    exact absurd ⟨name, c, h.holds, h.ne_empty, h.starts⟩ (longestAtStart?_eq_none_iff.1 hfound)
  | some e =>
    obtain ⟨hname, hc⟩ := h.unique (isLongest_of_longestAtStart? hfound)
    rw [hname, hc]

/-! ## Added names -/

theorem IsLongest.congr {t : Swatches} (h : s.IsLongest text name c)
    (hst : ∀ other d, other.toList <+: text → (s.Holds other d ↔ t.Holds other d)) :
    t.IsLongest text name c :=
  ⟨h.ne_empty, h.starts, (hst name c h.starts).1 h.holds, fun other d hother hstart =>
    h.longest other d ((hst other d hstart).2 hother) hstart⟩

/-- A name is found where nothing but itself stands. -/
theorem longestAtStart?_insert_self (h : Text.fold name ≠ "") :
    (s.insert name c).longestAtStart? (Text.fold name).toList = some (Text.fold name, c) :=
  longestAtStart?_eq_some_iff.2
    ⟨h, List.prefix_refl _, holds_insert_self, fun _ _ _ hstart => by
      rw [← String.length_toList, ← String.length_toList]
      exact hstart.length_le⟩

/-- A name that does not stand at the start of a text makes no difference there. -/
theorem longestAtStart?_insert_of_not_starts (h : ¬(Text.fold name).toList <+: text) :
    (s.insert name c).longestAtStart? text = s.longestAtStart? text := by
  have hholds : ∀ other d, other.toList <+: text →
      ((s.insert name c).Holds other d ↔ s.Holds other d) := by
    intro other d hother
    refine holds_insert_of_ne fun heq => h ?_
    rwa [heq]
  refine Option.ext fun e => ?_
  obtain ⟨found, d⟩ := e
  rw [longestAtStart?_eq_some_iff, longestAtStart?_eq_some_iff]
  exact ⟨fun hlongest => hlongest.congr hholds,
    fun hlongest => hlongest.congr fun other d hother => (hholds other d hother).symm⟩

end Colourway.Swatches
