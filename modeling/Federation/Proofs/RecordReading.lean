import Federation.Json.Shape
import Federation.Proofs.Outcome
import Mathlib.Data.List.Nodup

/-!
# Reading records

A record is given by its members or by its fields in order. Either way a field takes what is given
for it: one value, or none if it has a default. How its values stand among the members does not
matter, and members that are no fields need no more than to be whole.
-/

namespace Federation.Json

open Outcome

variable {α : Type}

/-! ### Members with a name -/

/-- The values of the members with a name, in their order. -/
def valuesOf (name : String) (members : List (Option String × Json)) : List Json :=
  (members.filter fun m => m.1 = some name).map (·.2)

theorem valuesOf_append (name : String) (before after : List (Option String × Json)) :
    valuesOf name (before ++ after) = valuesOf name before ++ valuesOf name after := by
  rw [valuesOf, List.filter_append, List.map_append]
  rfl

theorem valuesOf_cons (name : String) (m : Option String × Json)
    (more : List (Option String × Json)) :
    valuesOf name (m :: more) = valuesOf name [m] ++ valuesOf name more :=
  valuesOf_append name [m] more

@[simp] theorem valuesOf_self (name : String) (j : Json) :
    valuesOf name [(some name, j)] = [j] := by
  simp [valuesOf]

theorem valuesOf_of_ne {name other : String} (h : other ≠ name) (j : Json) :
    valuesOf name [(some other, j)] = [] := by
  simp [valuesOf, h]

theorem valuesOf_perm (name : String) {members members' : List (Option String × Json)}
    (h : members.Perm members') : (valuesOf name members).Perm (valuesOf name members') :=
  (h.filter _).map _

/-- Whether a member is read, or can be passed over, in a record with the named fields. -/
def Known (names : List String) (m : Option String × Json) : Prop :=
  ∃ name, m.1 = some name ∧ (name ∉ names → m.2.isWhole = true)

/-! ### Values gathered for a field -/

/-- What is known of a field before and after values for it were read. There is no second value. -/
inductive Gathers (readItem : Json → Read α) : Option α → List Json → Option α → Prop where
  | nothing (known : Option α) : Gathers readItem known [] known
  | value {j : Json} {x : α} (reads : readItem j = .ok x) : Gathers readItem none [j] (some x)

section Gathers

variable {readItem : Json → Read α} {known known' : Option α}

theorem gathers_nil : Gathers readItem known [] known' ↔ known' = known := by
  constructor
  · rintro ⟨⟩
    rfl
  · rintro rfl
    exact .nothing _

theorem readField_eq_ok_iff {name : String} {j : Json} :
    readField name known readItem j = .ok known' ↔ Gathers readItem known [j] known' := by
  cases known with
  | some x =>
    constructor
    · intro h
      cases h
    · rintro ⟨⟩
  | none =>
    rw [readField, map_eq_ok_iff]
    constructor
    · rintro ⟨x, reads, rfl⟩
      exact .value reads
    · rintro ⟨⟩
      rename_i x reads
      exact ⟨x, reads, rfl⟩

theorem gathers_append {values more : List Json} :
    Gathers readItem known (values ++ more) known' ↔
      ∃ between, Gathers readItem known values between ∧
        Gathers readItem between more known' := by
  constructor
  · intro h
    cases values with
    | nil => exact ⟨known, .nothing _, h⟩
    | cons j values =>
      generalize hall : j :: values ++ more = all at h
      cases h with
      | nothing => cases hall
      | value reads =>
        obtain ⟨rfl, hrest⟩ := List.cons.inj hall
        obtain ⟨rfl, rfl⟩ := List.append_eq_nil_iff.1 hrest
        exact ⟨_, .value reads, .nothing _⟩
  · rintro ⟨between, first, second⟩
    cases first with
    | nothing => exact second
    | value reads =>
      cases second
      exact .value reads

theorem gathers_members {name : String} {m : Option String × Json}
    {more : List (Option String × Json)} :
    Gathers readItem known (valuesOf name (m :: more)) known' ↔
      ∃ between, Gathers readItem known (valuesOf name [m]) between ∧
        Gathers readItem between (valuesOf name more) known' := by
  rw [valuesOf_cons, gathers_append]

end Gathers

/-! ### Fields and their slots -/

/-- A field of a record: its name, and what stands for it where it may be left out. -/
structure Field where
  name : String
  default? : Option Json

/-- A field that is to have a given value: it says which values have to be given for that. -/
structure Slot extends Field where
  Holds : List Json → Prop
  at_most_one : ∀ {values}, Holds values → values.length ≤ 1
  default_holds : ∀ {j}, default? = some j → Holds [] → Holds [j]

/-- A field without a default. -/
def Slot.required (name : String) (readItem : Json → Read α) (x : α) : Slot where
  name := name
  default? := none
  Holds values := ∃ j, values = [j] ∧ readItem j = .ok x
  at_most_one := by
    rintro _ ⟨j, rfl, -⟩
    exact Nat.le_refl 1
  default_holds := nofun

/-- A field with a default, and how the default is written. -/
def Slot.optional (name : String) (readItem : Json → Read α) (default : α) (written : Json)
    (reads : readItem written = .ok default) (x : α) : Slot where
  name := name
  default? := some written
  Holds values := values = [] ∧ default = x ∨ ∃ j, values = [j] ∧ readItem j = .ok x
  at_most_one := by
    rintro _ (⟨rfl, -⟩ | ⟨j, rfl, -⟩)
    · exact Nat.zero_le 1
    · exact Nat.le_refl 1
  default_holds := by
    rintro j hwritten (⟨-, rfl⟩ | ⟨_, h, -⟩)
    · exact Or.inr ⟨j, rfl, Option.some.inj hwritten ▸ reads⟩
    · cases h

section Slots

variable {name : String} {readItem : Json → Read α} {default x : α} {written : Json}
  {reads : readItem written = .ok default} {values : List Json}

theorem required_holds_iff : (Slot.required name readItem x).Holds values ↔
    Gathers readItem none values (some x) := by
  constructor
  · rintro ⟨j, rfl, h⟩
    exact .value h
  · rintro ⟨⟩
    exact ⟨_, rfl, ‹_›⟩

theorem optional_holds_iff : (Slot.optional name readItem default written reads x).Holds values ↔
    ∃ known, Gathers readItem none values known ∧ known.getD default = x := by
  constructor
  · rintro (⟨rfl, rfl⟩ | ⟨j, rfl, h⟩)
    · exact ⟨none, .nothing _, rfl⟩
    · exact ⟨some x, .value h, rfl⟩
  · rintro ⟨known, ⟨⟩ | h, rfl⟩
    · exact Or.inl ⟨rfl, rfl⟩
    · exact Or.inr ⟨_, rfl, h⟩

/-- A single value holds for a field exactly if it is read as the field's value. -/
theorem required_holds_singleton {j : Json} :
    (Slot.required name readItem x).Holds [j] ↔ readItem j = .ok x := by
  constructor
  · rintro ⟨_, heq, h⟩
    obtain rfl := List.singleton_inj.1 heq
    exact h
  · exact fun h => ⟨j, rfl, h⟩

theorem optional_holds_singleton {j : Json} :
    (Slot.optional name readItem default written reads x).Holds [j] ↔ readItem j = .ok x := by
  constructor
  · rintro (⟨h, -⟩ | ⟨_, heq, h⟩)
    · cases h
    · obtain rfl := List.singleton_inj.1 heq
      exact h
  · exact fun h => Or.inr ⟨j, rfl, h⟩

end Slots

/-! ### Fields in order -/

/-- The items of an array hold for fields in their order; trailing fields may be left out. -/
def Fits : List Slot → List Json → Prop
  | [], items => items = []
  | slot :: slots, [] => slot.Holds [] ∧ Fits slots []
  | slot :: slots, j :: items => slot.Holds [j] ∧ Fits slots items

section Fits

variable {name : String} {readItem : Json → Read α} {default x : α} {written : Json}
  {reads : readItem written = .ok default} {slots : List Slot} {items : List Json}

theorem fits_nil_iff : Fits [] items ↔ endItems items = .ok () := by
  cases items with
  | nil => exact iff_of_true rfl rfl
  | cons j rest => exact iff_of_false (List.cons_ne_nil j rest) nofun

theorem fits_required_iff {shape : RecordShape} {index : Nat} :
    Fits (.required name readItem x :: slots) items ↔
      ∃ rest, takeItem shape index readItem items = .ok (x, rest) ∧ Fits slots rest := by
  cases items with
  | nil =>
    constructor
    · rintro ⟨⟨_, h, -⟩, -⟩
      cases h
    · rintro ⟨_, h, -⟩
      cases h
  | cons j items =>
    rw [Fits, required_holds_singleton, takeItem]
    constructor
    · rintro ⟨h, rest⟩
      exact ⟨items, by rw [h]; rfl, rest⟩
    · rintro ⟨rest, h, fits⟩
      obtain ⟨y, hy, heq⟩ := bind_eq_ok_iff.1 h
      cases heq
      exact ⟨hy, fits⟩

theorem fits_optional_iff :
    Fits (.optional name readItem default written reads x :: slots) items ↔
      ∃ rest, takeItemD default readItem items = .ok (x, rest) ∧ Fits slots rest := by
  cases items with
  | nil =>
    constructor
    · rintro ⟨⟨-, rfl⟩ | ⟨_, h, -⟩, fits⟩
      · exact ⟨[], rfl, fits⟩
      · cases h
    · rintro ⟨rest, h, fits⟩
      cases h
      exact ⟨Or.inl ⟨rfl, rfl⟩, fits⟩
  | cons j items =>
    rw [Fits, optional_holds_singleton, takeItemD]
    constructor
    · rintro ⟨h, rest⟩
      exact ⟨items, by rw [h]; rfl, rest⟩
    · rintro ⟨rest, h, fits⟩
      obtain ⟨y, hy, heq⟩ := bind_eq_ok_iff.1 h
      cases heq
      exact ⟨hy, fits⟩

end Fits

/-! ### Presentations -/

/-- A tree presents the values that fields are to have, by members or by items in order. -/
def Presents (slots : List Slot) : Json → Prop
  | object members => (∀ m ∈ members, Known (slots.map (·.name)) m) ∧
      ∀ slot ∈ slots, slot.Holds (valuesOf slot.name members)
  | array items => Fits slots items
  | _ => False

/-- The values of fields in their order, taken from members. The default stands for a field that is
not given; trailing fields that are not given may be left out. -/
inductive Listed (members : List (Option String × Json)) : List Field → List Json → Prop where
  | given {field : Field} {fields : List Field} {j : Json} {items : List Json}
      (value : valuesOf field.name members = [j]) (rest : Listed members fields items) :
      Listed members (field :: fields) (j :: items)
  | default {field : Field} {fields : List Field} {j : Json} {items : List Json}
      (absent : valuesOf field.name members = []) (written : field.default? = some j)
      (rest : Listed members fields items) : Listed members (field :: fields) (j :: items)
  | done {fields : List Field} (absent : ∀ field ∈ fields, valuesOf field.name members = []) :
      Listed members fields []

/-- One step from a presentation of a record to another: its members in another order, one more
member that is no field, its fields in order instead of its members, or another presentation of what
a field holds, given by `inner`. -/
inductive Recast (fields : List Field) (inner : String → Json → Json → Prop) :
    Json → Json → Prop where
  | permute {members members' : List (Option String × Json)} (perm : members.Perm members') :
      Recast fields inner (object members) (object members')
  | insert (before after : List (Option String × Json)) {name : String} {value : Json}
      (foreign : name ∉ fields.map (·.name)) (whole : value.isWhole = true) :
      Recast fields inner (object (before ++ after))
        (object (before ++ (some name, value) :: after))
  | list {members : List (Option String × Json)} {items : List Json}
      (listed : Listed members fields items) :
      Recast fields inner (object members) (array items)
  | member (before after : List (Option String × Json)) {name : String} {value value' : Json}
      (recast : inner name value value') :
      Recast fields inner (object (before ++ (some name, value) :: after))
        (object (before ++ (some name, value') :: after))
  | item (before after : List Json) {field : Field} {value value' : Json}
      (position : fields[before.length]? = some field) (recast : inner field.name value value') :
      Recast fields inner (array (before ++ value :: after)) (array (before ++ value' :: after))

section Recast

variable {slots : List Slot} {members members' : List (Option String × Json)}

theorem presents_permute (perm : members.Perm members') (h : Presents slots (object members)) :
    Presents slots (object members') := by
  obtain ⟨known, holds⟩ := h
  refine ⟨fun m hm => known m (perm.mem_iff.2 hm), fun slot hslot => ?_⟩
  -- a field has no two values that could change places
  have hvalues : valuesOf slot.name members = valuesOf slot.name members' := by
    have hperm := valuesOf_perm slot.name perm
    have hlength := slot.at_most_one (holds slot hslot)
    match hmembers : valuesOf slot.name members with
    | [] => rw [hmembers] at hperm; exact hperm.nil_eq
    | [j] => rw [hmembers] at hperm; exact hperm.singleton_eq
    | _ :: _ :: _ => rw [hmembers] at hlength; exact absurd hlength (by simp)
  exact hvalues ▸ holds slot hslot

theorem presents_insert {before after : List (Option String × Json)} {name : String} {value : Json}
    (foreign : name ∉ slots.map (·.name)) (whole : value.isWhole = true)
    (h : Presents slots (object (before ++ after))) :
    Presents slots (object (before ++ (some name, value) :: after)) := by
  obtain ⟨known, holds⟩ := h
  refine ⟨fun m hm => ?_, fun slot hslot => ?_⟩
  · rcases List.mem_append.1 hm with hm | hm
    · exact known m (List.mem_append_left _ hm)
    · rcases List.mem_cons.1 hm with rfl | hm
      · exact ⟨name, rfl, fun _ => whole⟩
      · exact known m (List.mem_append_right _ hm)
  · have hne : name ≠ slot.name := by
      rintro rfl
      exact foreign (List.mem_map_of_mem hslot)
    have hholds := holds slot hslot
    rw [valuesOf_append] at hholds
    rwa [valuesOf_append, valuesOf_cons, valuesOf_of_ne hne, List.nil_append]

theorem fits_of_holds_nil (h : ∀ slot ∈ slots, slot.Holds []) : Fits slots [] := by
  induction slots with
  | nil => exact rfl
  | cons slot slots ih =>
    rw [List.forall_mem_cons] at h
    exact ⟨h.1, ih h.2⟩

theorem fits_of_listed {fields : List Field} {items : List Json}
    (hfields : slots.map Slot.toField = fields) (listed : Listed members fields items)
    (holds : ∀ slot ∈ slots, slot.Holds (valuesOf slot.name members)) : Fits slots items := by
  induction listed generalizing slots with
  | given value _ ih =>
    obtain ⟨slot, slots, rfl, rfl, htail⟩ := List.map_eq_cons_iff.1 hfields
    rw [List.forall_mem_cons, value] at holds
    exact ⟨holds.1, ih htail holds.2⟩
  | default absent written _ ih =>
    obtain ⟨slot, slots, rfl, rfl, htail⟩ := List.map_eq_cons_iff.1 hfields
    rw [List.forall_mem_cons, absent] at holds
    exact ⟨slot.default_holds written holds.1, ih htail holds.2⟩
  | done absent =>
    subst hfields
    refine fits_of_holds_nil fun slot hslot => ?_
    rw [← absent slot.toField (List.mem_map_of_mem hslot)]
    exact holds slot hslot

theorem presents_member {before after : List (Option String × Json)} {name : String}
    {value value' : Json}
    (inner : ∀ slot ∈ slots, slot.name = name → slot.Holds [value] → slot.Holds [value'])
    (foreign : name ∈ slots.map (·.name))
    (h : Presents slots (object (before ++ (some name, value) :: after))) :
    Presents slots (object (before ++ (some name, value') :: after)) := by
  obtain ⟨known, holds⟩ := h
  refine ⟨fun m hm => ?_, fun slot hslot => ?_⟩
  · rcases List.mem_append.1 hm with hm | hm
    · exact known m (List.mem_append_left _ hm)
    · rcases List.mem_cons.1 hm with rfl | hm
      · exact ⟨name, rfl, fun h => absurd foreign h⟩
      · exact known m (List.mem_append_right _ (List.mem_cons_of_mem _ hm))
  · have hholds := holds slot hslot
    rw [valuesOf_append, valuesOf_cons] at hholds ⊢
    by_cases hname : name = slot.name
    · -- the value is the only one that the field has
      have hlength := slot.at_most_one hholds
      subst hname
      rw [valuesOf_self] at hholds hlength ⊢
      simp only [List.length_append, List.length_cons, List.length_nil] at hlength
      rw [List.eq_nil_of_length_eq_zero (l := valuesOf slot.name before) (by omega),
        List.eq_nil_of_length_eq_zero (l := valuesOf slot.name after) (by omega)] at hholds ⊢
      exact inner slot hslot rfl hholds
    · rw [valuesOf_of_ne hname] at hholds ⊢
      exact hholds

theorem fits_item {before after : List Json} {field : Field} {value value' : Json}
    (position : (slots.map Slot.toField)[before.length]? = some field)
    (inner : ∀ slot ∈ slots, slot.name = field.name → slot.Holds [value] → slot.Holds [value'])
    (h : Fits slots (before ++ value :: after)) : Fits slots (before ++ value' :: after) := by
  induction before generalizing slots with
  | nil =>
    cases slots with
    | nil => cases position
    | cons slot slots =>
      obtain rfl := Option.some.inj position
      exact ⟨inner slot List.mem_cons_self rfl h.1, h.2⟩
  | cons j before ih =>
    cases slots with
    | nil => cases position
    | cons slot slots =>
      exact ⟨h.1, ih position (fun s hs => inner s (List.mem_cons_of_mem _ hs)) h.2⟩

/-- Only one field has a given name. -/
theorem holds_of_named {slot : Slot} {value value' : Json}
    (distinct : (slots.map (·.name)).Nodup) (hslot : slot ∈ slots)
    (h : slot.Holds [value] → slot.Holds [value']) :
    ∀ other ∈ slots, other.name = slot.name → other.Holds [value] → other.Holds [value'] := by
  intro other hother hname
  obtain rfl := List.inj_on_of_nodup_map distinct hother hslot hname
  exact h

/-- What a record presents does not depend on the presentation. -/
theorem presents_recast {fields : List Field} {inner : String → Json → Json → Prop}
    {j j' : Json} (hfields : slots.map Slot.toField = fields)
    (hinner : ∀ {name value value'}, inner name value value' → name ∈ fields.map (·.name) ∧
      ∀ slot ∈ slots, slot.name = name → slot.Holds [value] → slot.Holds [value'])
    (recast : Recast fields inner j j') (h : Presents slots j) : Presents slots j' := by
  have hnames : slots.map (·.name) = fields.map (·.name) := by
    rw [← hfields, List.map_map]
    rfl
  cases recast with
  | permute perm => exact presents_permute perm h
  | insert before after foreign whole => exact presents_insert (hnames ▸ foreign) whole h
  | list listed => exact fits_of_listed hfields listed h.2
  | member before after recast =>
    exact presents_member (hinner recast).2 (hnames ▸ (hinner recast).1) h
  | item before after position recast =>
    exact fits_item (hfields ▸ position) (hinner recast).2 h

end Recast

end Federation.Json
