import ImageGraph.Text
import Mathlib.Data.List.TakeWhile

/-!
Trimming and cutting. Trimming takes away the blanks at both ends and nothing else, so it finds a text
without blanks at its ends again wherever blanks have been put around it. A text is cut where a
separator first occurs. It does not matter whether the blanks around a text are taken away before it is
cut, as long as they are taken away from both of its sides.
-/

set_option autoImplicit false

namespace ImageGraph.Text

/-- A text that is not empty, with no blank at either end. -/
structure Snug (chars : List Char) : Prop where
  begun : chars ≠ []
  start : ∀ char ∈ chars.head?, isBlank char = false
  stop : ∀ char ∈ chars.getLast?, isBlank char = false

theorem drop_blanks {chars : List Char} (start : ∀ char ∈ chars.head?, isBlank char = false) :
    chars.dropWhile isBlank = chars := by
  cases chars with
  | nil => rfl
  | cons char rest => rw [List.dropWhile_cons, start char rfl, if_neg Bool.false_ne_true]

theorem head_append {chars : List Char} (begun : chars ≠ []) (behind : List Char) :
    (chars ++ behind).head? = chars.head? := by
  rw [List.head?_append, List.head?_eq_some_head begun]
  rfl

theorem last_append {behind : List Char} (begun : behind ≠ []) (chars : List Char) :
    (chars ++ behind).getLast? = behind.getLast? := by
  rw [List.getLast?_append, List.getLast?_eq_some_getLast begun]
  rfl

theorem no_blanks : ∀ char ∈ ([] : List Char), isBlank char = true := by simp

section Padding

variable {before behind : List Char}

/-- Blanks around a text are taken away with those at its own ends. -/
theorem trim_list_padded (chars : List Char) (blanksBefore : ∀ char ∈ before, isBlank char = true)
    (blanksBehind : ∀ char ∈ behind, isBlank char = true) :
    trimList (before ++ (chars ++ behind)) = trimList chars := by
  have reversed : ∀ char ∈ behind.reverse, isBlank char = true :=
    fun char member => blanksBehind char (List.mem_reverse.1 member)
  rw [trimList, trimList, List.dropWhile_append_of_pos blanksBefore, List.dropWhile_append]
  by_cases blank : (chars.dropWhile isBlank).isEmpty = true
  · have nothing : behind.dropWhile isBlank = [] := List.dropWhile_eq_nil_iff.2 blanksBehind
    rw [if_pos blank, nothing, List.isEmpty_iff.1 blank]
  · rw [if_neg blank, List.reverse_append, List.dropWhile_append_of_pos reversed]

theorem trim_blanks_before (chars : List Char) (blanks : ∀ char ∈ before, isBlank char = true) :
    trim (.ofList (before ++ chars)) = trim (.ofList chars) := by
  have padded := trim_list_padded chars blanks no_blanks
  rw [List.append_nil] at padded
  rw [trim, trim, String.toList_ofList, String.toList_ofList, padded]

theorem trim_blanks_behind (chars : List Char) (blanks : ∀ char ∈ behind, isBlank char = true) :
    trim (.ofList (chars ++ behind)) = trim (.ofList chars) := by
  have padded := trim_list_padded chars no_blanks blanks
  rw [List.nil_append] at padded
  rw [trim, trim, String.toList_ofList, String.toList_ofList, padded]

end Padding

namespace Snug

variable {chars behind : List Char}

theorem of_solid (begun : chars ≠ []) (solid : ∀ char ∈ chars, isBlank char = false) :
    Snug chars where
  begun := begun
  start := fun char member => solid char (List.mem_of_mem_head? member)
  stop := fun char member => solid char (List.mem_of_getLast? member)

theorem append (first : Snug chars) (between : List Char) (last : Snug behind) :
    Snug (chars ++ (between ++ behind)) where
  begun := List.append_ne_nil_of_left_ne_nil first.begun _
  start := by
    rw [head_append first.begun]
    exact first.start
  stop := by
    rw [← List.append_assoc, last_append last.begun]
    exact last.stop

theorem trim {text : String} (snug : Snug text.toList) : Text.trim text = text := by
  have stop : ∀ char ∈ text.toList.reverse.head?, isBlank char = false := by
    rw [List.head?_reverse]
    exact snug.stop
  rw [Text.trim, trimList, drop_blanks snug.start, drop_blanks stop, List.reverse_reverse,
    String.ofList_toList]

end Snug

theorem trim_list_parts (chars : List Char) :
    ∃ before behind, chars = before ++ (trimList chars ++ behind) ∧
      (∀ char ∈ before, isBlank char = true) ∧ ∀ char ∈ behind, isBlank char = true := by
  let rest := chars.dropWhile isBlank
  let final := (rest.reverse.takeWhile isBlank).reverse
  have kept : rest = trimList chars ++ final := by
    calc rest = rest.reverse.reverse := rest.reverse_reverse.symm
      _ = (rest.reverse.takeWhile isBlank ++ rest.reverse.dropWhile isBlank).reverse := by
        rw [List.takeWhile_append_dropWhile]
      _ = trimList chars ++ final := List.reverse_append
  refine ⟨chars.takeWhile isBlank, final, ?_, ?_, ?_⟩
  · rw [← kept, List.takeWhile_append_dropWhile]
  · exact fun char member => List.mem_takeWhile_imp member
  · exact fun char member => List.mem_takeWhile_imp (List.mem_reverse.1 member)

theorem absent_of_trim {char : Char} {text : String} (notBlank : isBlank char = false)
    (absent : char ∉ (trim text).toList) : char ∉ text.toList := by
  obtain ⟨before, behind, parts, blanksBefore, blanksBehind⟩ := trim_list_parts text.toList
  rw [trim, String.toList_ofList] at absent
  have notIn (blanks : List Char) (areBlank : ∀ char ∈ blanks, isBlank char = true) :
      char ∉ blanks := by
    intro member
    rw [areBlank char member] at notBlank
    cases notBlank
  rw [parts, List.mem_append, List.mem_append, not_or, not_or]
  exact ⟨notIn before blanksBefore, absent, notIn behind blanksBehind⟩

theorem mem_of_trim {char : Char} {text : String} (member : char ∈ (trim text).toList) :
    char ∈ text.toList := by
  obtain ⟨before, behind, parts, -⟩ := trim_list_parts text.toList
  rw [trim, String.toList_ofList] at member
  rw [parts]
  exact List.mem_append_right _ (List.mem_append_left _ member)

theorem first_kept (chars : List Char) :
    ∀ char ∈ (chars.dropWhile isBlank).head?, isBlank char = false := by
  intro char member
  have kept := List.head?_dropWhile_not isBlank chars
  rw [Option.mem_def.1 member] at kept
  exact kept

theorem snug_trim {chars : List Char} (begun : trimList chars ≠ []) : Snug (trimList chars) := by
  obtain ⟨behind, kept⟩ :
      ∃ behind, chars.dropWhile isBlank = trimList chars ++ behind := by
    obtain ⟨dropped, parts⟩ := (chars.dropWhile isBlank).reverse.dropWhile_suffix isBlank
    refine ⟨dropped.reverse, ?_⟩
    rw [trimList, ← List.reverse_append, parts, List.reverse_reverse]
  refine ⟨begun, ?_, ?_⟩
  · rw [← head_append begun behind, ← kept]
    exact first_kept chars
  · rw [trimList, List.getLast?_reverse]
    exact first_kept _

theorem trim_trim (text : String) : Text.trim (Text.trim text) = Text.trim text := by
  by_cases begun : trimList text.toList = []
  · have empty : Text.trim text = "" := by
      rw [Text.trim, begun]
    rw [empty]
    rfl
  · apply Snug.trim
    rw [Text.trim, String.toList_ofList]
    exact snug_trim begun

theorem cut_list_first {separator : Char} {before : List Char} (absent : separator ∉ before)
    (behind : List Char) : cutList separator (before ++ separator :: behind) = some (before, behind) := by
  induction before with
  | nil => simp [cutList]
  | cons char before induction =>
      rw [List.mem_cons, not_or] at absent
      rw [List.cons_append, cutList, if_neg (Ne.symm absent.1), induction absent.2]
      rfl

theorem cut_list_none {separator : Char} {chars : List Char} (absent : separator ∉ chars) :
    cutList separator chars = none := by
  induction chars with
  | nil => rfl
  | cons char chars induction =>
      rw [List.mem_cons, not_or] at absent
      rw [cutList, if_neg (Ne.symm absent.1), induction absent.2]
      rfl

theorem absent_of_uncut {separator : Char} {chars : List Char}
    (uncut : cutList separator chars = none) : separator ∉ chars := by
  intro member
  obtain ⟨before, behind, rfl, absent⟩ := List.eq_append_cons_of_mem member
  rw [cut_list_first absent] at uncut
  cases uncut

section Sides

variable {separator : Char} {text : String}

theorem uncut_iff : cut separator text = none ↔ separator ∉ text.toList := by
  rw [cut, Option.map_eq_none_iff]
  exact ⟨absent_of_uncut, cut_list_none⟩

theorem cut_first {before behind : List Char} (parts : text.toList = before ++ separator :: behind)
    (absent : separator ∉ before) :
    cut separator text = some (.ofList before, .ofList behind) := by
  rw [cut, parts, cut_list_first absent]
  rfl

def trimmedSides (separator : Char) (text : String) : Option (String × String) :=
  (cut separator text).map (Prod.map trim trim)

/-- The blanks around a text are at the far ends of its two sides, which lose theirs as well. -/
theorem trimmed_sides_trim (notBlank : isBlank separator = false) (text : String) :
    trimmedSides separator (trim text) = trimmedSides separator text := by
  obtain ⟨before, behind, parts, blanksBefore, blanksBehind⟩ := trim_list_parts text.toList
  have trimmed : (trim text).toList = trimList text.toList := String.toList_ofList
  rw [← trimmed] at parts
  rw [trimmedSides, trimmedSides]
  by_cases present : separator ∈ (trim text).toList
  · obtain ⟨left, right, sides, absent⟩ := List.eq_append_cons_of_mem present
    have absentBefore : separator ∉ before ++ left := by
      rw [List.mem_append, not_or]
      refine ⟨fun blank => ?_, absent⟩
      rw [blanksBefore separator blank] at notBlank
      cases notBlank
    have whole : text.toList = (before ++ left) ++ separator :: (right ++ behind) := by
      rw [parts, sides]
      simp
    rw [cut_first sides absent, cut_first whole absentBefore, Option.map_some, Option.map_some,
      Prod.map_apply, Prod.map_apply, trim_blanks_before left blanksBefore,
      trim_blanks_behind right blanksBehind]
  · rw [uncut_iff.2 present, uncut_iff.2 (absent_of_trim notBlank present)]

end Sides

/-- A text that has lost the blanks at its ends begins with its first character that is no blank. -/
theorem head_trim (text : String) :
    (trim text).toList.head? = text.toList.find? fun char => !isBlank char := by
  obtain ⟨before, behind, parts, blanksBefore, blanksBehind⟩ := trim_list_parts text.toList
  let solid := fun char => !isBlank char
  have passed {blanks : List Char} (areBlank : ∀ char ∈ blanks, isBlank char = true) :
      blanks.find? solid = none := by
    apply List.find?_eq_none.2
    intro char member
    simp only [solid, areBlank char member]
    decide
  have found : text.toList.find? solid = (trimList text.toList).find? solid := by
    calc text.toList.find? solid
        = (before ++ (trimList text.toList ++ behind)).find? solid := congrArg (List.find? solid) parts
      _ = (trimList text.toList).find? solid := by
        rw [List.find?_append, List.find?_append, passed blanksBefore, passed blanksBehind,
          Option.none_or, Option.or_none]
  rw [found, trim, String.toList_ofList]
  by_cases begun : trimList text.toList = []
  · rw [begun]
    rfl
  · have snug := snug_trim begun
    generalize trimList text.toList = chars at snug
    cases chars with
    | nil => rfl
    | cons first rest =>
        have firstSolid : solid first = true := by
          simp only [solid, snug.start first rfl]
          decide
        rw [List.find?_cons_of_pos firstSolid]
        rfl

end ImageGraph.Text
