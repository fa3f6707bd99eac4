import TargetLint.Json.Record
import Mathlib.Data.List.Forall2
import Mathlib.Data.List.Nodup

/-!
# Values that encode

Which JSON values encode a text, a number, a truth value, a list, a value that may be
absent, and a record.  A record is encoded by an object that has each of its fields at
most once, in any order and among any other members.  Each decoder reads what encodes.
-/

namespace TargetLint
namespace Json

/-- Which JSON values encode a value. -/
abbrev Encoding (α : Type) :=
  α → Json → Prop

namespace Encoding

variable {α : Type}

/-- A text is encoded by a string. -/
def text : Encoding String := fun value json =>
  json = .string (some value)

/-- A truth value is encoded by itself. -/
def flag : Encoding Bool := fun value json =>
  json = .boolean value

/-- A word is encoded by a natural number. -/
def word : Encoding UInt32 := fun value json =>
  json = .number (.natural value.toNat)

/-- A list is encoded by an array of what encodes its items. -/
def list (encoding : Encoding α) : Encoding (List α) := fun values json =>
  ∃ items, json = .array items ∧ List.Forall₂ encoding values items

/-- An absent value is encoded by `null`. -/
def nullable (encoding : Encoding α) : Encoding (Option α)
  | none, json => json = .null
  | some value, json => encoding value json

end Encoding

/-- The decoder reads all that encodes a value as this value. -/
def Decoder.Reads
    {α : Type}
    (decoder : Decoder α)
    (encoding : Encoding α) :
    Prop :=
  ∀ value json, encoding value json → decoder json = some value

/-- The object with the given members. -/
def ofMembers (members : Record) : Json :=
  .object (members.map fun member => (some member.1, member.2))

namespace Record

variable {α : Type}

/-- Each of the names stands at most once; other names may stand there too, and repeatedly. -/
def HasOnce (members : Record) (names : List String) : Prop :=
  ∀ name ∈ names, (members.map Prod.fst).count name ≤ 1

instance (members : Record) : DecidablePred members.HasOnce := fun names =>
  inferInstanceAs (Decidable (∀ name ∈ names, (members.map Prod.fst).count name ≤ 1))

/-- A member of the name encodes the value. -/
def Gives (members : Record) (name : String) (encoding : Encoding α) (value : α) : Prop :=
  ∃ json, (name, json) ∈ members ∧ encoding value json

/-- A member of the name encodes the value, or there is none and the value is the default. -/
def GivesOr
    (members : Record)
    (name : String)
    (encoding : Encoding α)
    (default value : α) :
    Prop :=
  members.Gives name encoding value ∨ name ∉ members.map Prod.fst ∧ value = default

end Record

namespace Encoding

variable {α : Type} {encoding : Encoding α}

theorem exists_text (value : String) : ∃ json, text value json :=
  ⟨_, rfl⟩

theorem exists_list
    (h : ∀ value, ∃ json, encoding value json)
    (values : List α) :
    ∃ json, encoding.list values json := by
  suffices hitems : ∃ items, List.Forall₂ encoding values items by
    obtain ⟨items, hitems⟩ := hitems
    exact ⟨_, items, rfl, hitems⟩
  induction values with
  | nil => exact ⟨[], .nil⟩
  | cons value values ih =>
      obtain ⟨item, hitem⟩ := h value
      obtain ⟨items, hitems⟩ := ih
      exact ⟨item :: items, .cons hitem hitems⟩

theorem exists_nullable
    (h : ∀ value, ∃ json, encoding value json) :
    ∀ value, ∃ json, encoding.nullable value json
  | none => ⟨.null, rfl⟩
  | some value => h value

end Encoding

theorem reads_text : Decoder.Reads text? Encoding.text := by
  rintro value json rfl
  rfl

theorem reads_flag : Decoder.Reads flag? Encoding.flag := by
  rintro value json rfl
  rfl

theorem reads_word : Decoder.Reads word? Encoding.word := by
  rintro value json rfl
  simp [word?, value.toNat_lt_size]

theorem reads_listOf
    {α : Type}
    {decoder : Decoder α}
    {encoding : Encoding α}
    (h : decoder.Reads encoding) :
    Decoder.Reads (listOf? decoder) encoding.list := by
  rintro values json ⟨items, rfl, hitems⟩
  rw [listOf?]
  induction hitems with
  | nil => rfl
  | cons hitem _ ih => simp [h _ _ hitem, ih]

theorem reads_nullable
    {α : Type}
    {decoder : Decoder α}
    {encoding : Encoding α}
    (h : decoder.Reads encoding)
    (hnull : decoder .null = none) :
    Decoder.Reads (nullable? decoder) encoding.nullable := by
  intro value json hvalue
  cases value with
  | none =>
      obtain rfl := hvalue
      rfl
  | some value =>
      have hread := h value json hvalue
      cases json with
      | null =>
          rw [hnull] at hread
          cases hread
      | _ => simp [nullable?, hread]

theorem lookup_eq_some_of_mem
    {members : Record}
    {name : String}
    {value : Json}
    (hnodup : (members.map Prod.fst).Nodup)
    (h : (name, value) ∈ members) :
    members.lookup name = some value := by
  obtain ⟨before, after, rfl⟩ := List.append_of_mem h
  refine List.lookup_eq_some_iff.2 ⟨before, after, rfl, ?_⟩
  intro member hmember
  rw [List.map_append, List.nodup_append] at hnodup
  have hne := hnodup.2.2 member.1 (List.mem_map_of_mem hmember) name (by simp)
  simpa using Ne.symm hne

theorem hasOnce_of_nodup
    {members : Record}
    {names : List String}
    (hnames : members.map Prod.fst = names)
    (hnodup : names.Nodup) :
    members.HasOnce names := by
  intro name _
  rw [hnames]
  exact List.nodup_iff_count_le_one.1 hnodup name

/-- The known members of an object, if the names are told. -/
def Record.known (members : Record) (names : List String) : Record :=
  members.filter fun member => names.contains member.1

theorem Record.HasOnce.nodup_known
    {members : Record}
    {names : List String}
    (h : members.HasOnce names) :
    ((members.known names).map Prod.fst).Nodup := by
  rw [List.nodup_iff_count_le_one]
  intro name
  by_cases hname : name ∈ names
  · exact Nat.le_trans ((List.filter_sublist.map Prod.fst).count_le name) (h name hname)
  · rw [List.count_eq_zero_of_not_mem]
    · exact Nat.zero_le 1
    · simp [known, hname]

/-- An object that has each field at most once is read as a record of its fields. -/
theorem record?_ofMembers
    {members : Record}
    {names : List String}
    (h : members.HasOnce names) :
    record? names (ofMembers members) = some (members.known names) := by
  have hnamed : namedMembers? (members.map fun member => (some member.1, member.2)) =
      some members := by
    rw [namedMembers?]
    clear h
    induction members with
    | nil => rfl
    | cons member members ih => simp [ih]
  simp only [ofMembers, record?, hnamed]
  exact if_pos h.nodup_known

section Fields

variable {α : Type} {members : Record} {names : List String} {name : String}
  {decoder : Decoder α} {encoding : Encoding α} {default value : α}
  (honce : members.HasOnce names) (hname : name ∈ names) (hreads : decoder.Reads encoding)

include honce hname hreads

theorem exists_lookup_of_gives
    (h : members.Gives name encoding value) :
    ∃ json, (members.known names).lookup name = some json ∧ decoder json = some value := by
  obtain ⟨json, hmem, hjson⟩ := h
  refine ⟨json, lookup_eq_some_of_mem honce.nodup_known ?_, hreads value json hjson⟩
  simp [Record.known, hmem, hname]

/-- A field that is given is read where it has to be present. -/
theorem required?_of_gives
    (h : members.Gives name encoding value) :
    (members.known names).required? name decoder = some value := by
  obtain ⟨json, hlookup, hread⟩ := exists_lookup_of_gives honce hname hreads h
  rw [Record.required?, hlookup]
  exact hread

/-- A field that is given, or left out for its default, is read where it may be missing. -/
theorem optional?_of_givesOr
    (h : members.GivesOr name encoding default value) :
    (members.known names).optional? name decoder default = some value := by
  rw [Record.optional?]
  rcases h with hgiven | ⟨hmissing, rfl⟩
  · obtain ⟨json, hlookup, hread⟩ := exists_lookup_of_gives honce hname hreads hgiven
    rw [hlookup]
    exact hread
  · have hnone : (members.known names).lookup name = none := by
      rw [List.lookup_eq_none_iff]
      intro member hmember
      have hmem : member.1 ∈ members.map Prod.fst :=
        List.mem_map_of_mem (List.mem_of_mem_filter hmember)
      simpa using fun heq : name = member.1 => hmissing (heq ▸ hmem)
    rw [hnone]

end Fields

end Json
end TargetLint
