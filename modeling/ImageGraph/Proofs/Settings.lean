import ImageGraph.Settings
import Mathlib.Data.List.Forall2

/-!
Settings that fit the properties of their image: one value for each property, in their order and of
its kind. New settings fit, and they go on fitting when a value is replaced by one that does. Their
whole numbers are such as doubles can be truncated to.
-/

set_option autoImplicit false

namespace ImageGraph

theorem Kind.initial_fits (kind : Kind) :
    ∀ property ∈ kind.properties, property.initial.fits property.kind = true := by
  rcases kind with source | effect | combination | arrangement
  · cases source <;> decide
  · cases effect <;> decide
  · cases combination <;> decide
  · cases arrangement <;> decide

namespace Property.Value

def whole? : Property.Value → Option Int
  | int whole => some whole
  | _ => none

/-- A whole number must be one that some double is truncated to. -/
def Attained (value : Property.Value) : Prop :=
  ∀ whole ∈ value.whole?, ∃ x, Number.truncate x = whole

theorem attained_other {value : Property.Value} (other : value.whole? = none) : value.Attained := by
  intro whole isWhole
  rw [other] at isWhole
  cases isWhole

theorem attained_truncate (x : Float) : (int (Number.truncate x)).Attained := by
  intro whole isWhole
  cases isWhole
  exact ⟨x, rfl⟩

end Property.Value

theorem Kind.initial_attained (kind : Kind) :
    ∀ property ∈ kind.properties, property.initial.Attained := by
  have small : ∀ property ∈ kind.properties, ∀ whole ∈ property.initial.whole?,
      whole ∈ [1, 3, 7] := by
    rcases kind with source | effect | combination | arrangement
    · cases source <;> decide
    · cases effect <;> decide
    · cases combination <;> decide
    · cases arrangement <;> decide
  intro property member whole isWhole
  have listed := small property member whole isWhole
  simp only [List.mem_cons, List.not_mem_nil, or_false] at listed
  rcases listed with rfl | rfl | rfl
  · exact ⟨1, by decide +kernel⟩
  · exact ⟨3, by decide +kernel⟩
  · exact ⟨7, by decide +kernel⟩

namespace Settings

theorem property_cons (property : Property) (properties : List Property) (name : String) :
    property? (property :: properties) name =
      if property.name = name then some property else property? properties name := by
  unfold property?
  rw [List.find?_cons]
  by_cases same : property.name = name
  · simp [same]
  · simp [same, beq_eq_false_iff_ne.2 same]

/-- There is one value for each property, and it is of the property's kind. -/
def Fit (properties : List Property) (settings : Settings) : Prop :=
  List.Forall₂ (fun property value => value.fits property.kind = true) properties settings

theorem fit_initial (kind : Kind) : Fit kind.properties (initial kind.properties) := by
  rw [Fit, initial, List.forall₂_map_right_iff, List.forall₂_same]
  exact kind.initial_fits

theorem fit_put {properties : List Property} {settings : Settings} {name : String}
    {value : Property.Value} (fit : Fit properties settings)
    (suits : ∀ declared, property? properties name = some declared →
      value.fits declared.kind = true) :
    Fit properties (put properties settings name value) := by
  induction fit with
  | nil => exact .nil
  | cons head tail induction =>
      rename_i property old properties values
      simp only [property_cons] at suits
      simp only [put]
      split
      · rename_i same
        exact .cons (suits property (if_pos same)) tail
      · rename_i different
        simp only [if_neg different] at suits
        exact .cons head (induction suits)

theorem mem_put {properties : List Property} {settings : Settings} {name : String}
    {value other : Property.Value} (member : other ∈ put properties settings name value) :
    other = value ∨ other ∈ settings := by
  induction properties generalizing settings with
  | nil => exact .inr (by simpa [put] using member)
  | cons property properties induction =>
      cases settings with
      | nil => exact .inr member
      | cons old values =>
          simp only [put] at member
          split at member
          · rcases List.mem_cons.1 member with same | later
            · exact .inl same
            · exact .inr (List.mem_cons_of_mem _ later)
          · rcases List.mem_cons.1 member with same | later
            · exact .inr (List.mem_cons.2 (.inl same))
            · exact (induction later).imp_right (List.mem_cons_of_mem _)

theorem mem_of_get {properties : List Property} {settings : Settings} {name : String}
    {value : Property.Value} (present : get? properties settings name = some value) :
    value ∈ settings := by
  induction properties generalizing settings with
  | nil => cases present
  | cons property properties induction =>
      cases settings with
      | nil => cases present
      | cons old values =>
          simp only [get?] at present
          split at present
          · exact List.mem_cons.2 (.inl (Option.some.inj present).symm)
          · exact List.mem_cons_of_mem _ (induction present)

def Attained (settings : Settings) : Prop := ∀ value ∈ settings, value.Attained

theorem attained_initial (kind : Kind) : Attained (initial kind.properties) := by
  intro value member
  obtain ⟨property, declared, rfl⟩ := List.mem_map.1 member
  exact kind.initial_attained property declared

theorem attained_put {properties : List Property} {settings : Settings} {name : String}
    {value : Property.Value} (attained : Attained settings) (valueAttained : value.Attained) :
    Attained (put properties settings name value) := by
  intro other member
  rcases mem_put member with rfl | kept
  · exact valueAttained
  · exact attained other kept

theorem put_eq_set {properties : List Property} {settings : Settings} {name : String}
    {declared : Property} (value : Property.Value) (fit : Fit properties settings)
    (found : property? properties name = some declared) :
    ∃ index, properties[index]? = some declared ∧ declared.name = name ∧
      index < settings.length ∧
      put properties settings name value = List.set settings index value := by
  induction fit with
  | nil => cases found
  | cons head tail induction =>
      rename_i property old properties values
      rw [property_cons] at found
      by_cases same : property.name = name
      · obtain rfl := Option.some.inj ((if_pos same).symm.trans found)
        exact ⟨0, rfl, same, Nat.zero_lt_succ _, by simp [put, same]⟩
      · rw [if_neg same] at found
        obtain ⟨index, listed, named, bounded, replaced⟩ := induction found
        exact ⟨index + 1, by simpa using listed, named, Nat.succ_lt_succ bounded, by
          simp [put, same, replaced]⟩

theorem get_of_fit {properties : List Property} {settings : Settings} {name : String}
    {declared : Property} (fit : Fit properties settings)
    (found : property? properties name = some declared) :
    ∃ value, get? properties settings name = some value := by
  induction fit with
  | nil => cases found
  | cons head tail induction =>
      rename_i property old properties values
      rw [property_cons] at found
      by_cases same : property.name = name
      · exact ⟨old, by simp [get?, same]⟩
      · rw [if_neg same] at found
        obtain ⟨value, stored⟩ := induction found
        exact ⟨value, by simp [get?, same, stored]⟩

theorem get_put_of_fit {properties : List Property} {settings : Settings} {name : String}
    {declared : Property} (value : Property.Value) (fit : Fit properties settings)
    (found : property? properties name = some declared) :
    get? properties (put properties settings name value) name = some value := by
  obtain ⟨old, stored⟩ := get_of_fit fit found
  rw [get_put_same, stored, Option.map_some]

theorem put_present {properties : List Property} {settings : Settings} {name : String}
    {value : Property.Value} (present : get? properties settings name = some value) :
    put properties settings name value = settings := by
  induction properties generalizing settings with
  | nil => cases present
  | cons property properties induction =>
      cases settings with
      | nil => cases present
      | cons old values =>
          simp only [get?] at present
          simp only [put]
          split at present
          · rename_i same
            rw [if_pos same, Option.some.inj present]
          · rename_i different
            rw [if_neg different, induction present]

theorem declared_of_fit {properties : List Property} {settings : Settings} {name : String}
    {value : Property.Value} (fit : Fit properties settings)
    (present : get? properties settings name = some value) :
    ∃ declared, property? properties name = some declared ∧ value.fits declared.kind = true := by
  induction fit with
  | nil => cases present
  | cons head tail induction =>
      rename_i property old properties values
      simp only [get?] at present
      rw [property_cons]
      split at present
      · rename_i same
        obtain rfl := Option.some.inj present
        exact ⟨property, if_pos same, head⟩
      · rename_i different
        rw [if_neg different]
        exact induction present

theorem declared_of_property {properties : List Property} {name : String} {declared : Property}
    (found : property? properties name = some declared) :
    declared ∈ properties ∧ declared.name = name :=
  ⟨List.mem_of_find?_eq_some found, by simpa using List.find?_some found⟩

end Settings

end ImageGraph
