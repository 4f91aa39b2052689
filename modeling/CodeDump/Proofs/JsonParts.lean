import CodeDump.Json.Record
import CodeDump.Proofs.JsonText

/-!
# Nesting of JSON values, and the parts they are built from

`brackets` counts how many arrays and objects are open at once. The readers of stored values are
told how many they may open, so their lemmas suppose a bound on it; the lemmas `brackets_*_le_iff`
turn a bound on a value into bounds on its parts.

The scalars that values are built from read back: whole numbers of every width, and those doubles
whose numeral does (`Double.ReadsBack`).
-/

namespace CodeDump

mutual

/-- How many arrays and objects are open at once, at most. -/
def Json.brackets (j : Json) : Nat :=
  match j with
  | .null | .bool _ | .number _ | .string _ => 0
  | .array items => Json.mostBrackets items + 1
  | .object members => Member.mostBrackets members + 1
termination_by structural j

def Json.mostBrackets (js : List Json) : Nat :=
  match js with
  | [] => 0
  | j :: rest => max (Json.brackets j) (Json.mostBrackets rest)
termination_by structural js

def Member.brackets (m : Member) : Nat :=
  match m with
  | ⟨_, value⟩ => Json.brackets value
termination_by structural m

def Member.mostBrackets (ms : List Member) : Nat :=
  match ms with
  | [] => 0
  | m :: rest => max (Member.brackets m) (Member.mostBrackets rest)
termination_by structural ms

end

namespace Json

theorem mostBrackets_le_iff (js : List Json) (room : Nat) :
    mostBrackets js ≤ room ↔ ∀ j ∈ js, j.brackets ≤ room := by
  induction js with
  | nil => simp [mostBrackets]
  | cons j js ih => rw [mostBrackets, Nat.max_le, ih, List.forall_mem_cons]

theorem mostBrackets_members_le_iff (ms : List Member) (room : Nat) :
    Member.mostBrackets ms ≤ room ↔ ∀ m ∈ ms, m.value.brackets ≤ room := by
  induction ms with
  | nil => simp [Member.mostBrackets]
  | cons m ms ih =>
    cases m
    rw [Member.mostBrackets, Member.brackets, Nat.max_le, ih, List.forall_mem_cons]

theorem succ_le_iff_exists {n room : Nat} : n + 1 ≤ room ↔ ∃ r, room = r + 1 ∧ n ≤ r := by
  constructor
  · intro h
    exact ⟨room - 1, by omega, by omega⟩
  · rintro ⟨r, rfl, h⟩
    omega

theorem brackets_array_le_iff {js : List Json} {room : Nat} :
    (array js).brackets ≤ room ↔ ∃ r, room = r + 1 ∧ ∀ j ∈ js, j.brackets ≤ r := by
  simp only [brackets, succ_le_iff_exists, mostBrackets_le_iff]

theorem brackets_record_le_iff {fs : List (String × Json)} {room : Nat} :
    (record fs).brackets ≤ room ↔ ∃ r, room = r + 1 ∧ ∀ f ∈ fs, f.2.brackets ≤ r := by
  simp only [record, brackets, succ_le_iff_exists, mostBrackets_members_le_iff,
    List.forall_mem_map]

theorem brackets_tagged_le_iff {tag : String} {data : Json} {room : Nat} :
    (tagged tag data).brackets ≤ room ↔ ∃ r, room = r + 1 ∧ data.brackets ≤ r := by
  simp only [tagged, brackets, succ_le_iff_exists, mostBrackets_members_le_iff,
    List.forall_mem_singleton]

theorem brackets_variant_le_iff {tag : String} {fs : List (String × Json)} {room : Nat} :
    (tagged tag (record fs)).brackets ≤ room ↔ ∃ r, room = r + 2 ∧ ∀ f ∈ fs, f.2.brackets ≤ r := by
  rw [brackets_tagged_le_iff]
  simp only [brackets_record_le_iff]
  constructor
  · rintro ⟨_, rfl, r, rfl, h⟩
    exact ⟨r, rfl, h⟩
  · rintro ⟨r, rfl, h⟩
    exact ⟨r + 1, rfl, r, rfl, h⟩

theorem brackets_orNull_le_iff {o : Option Json} {room : Nat} :
    (orNull o).brackets ≤ room ↔ ∀ j ∈ o, j.brackets ≤ room := by
  cases o <;> simp [orNull, brackets]

theorem brackets_null : null.brackets = 0 := rfl

theorem brackets_nil : (array []).brackets = 1 := rfl

theorem brackets_text (s : String) : (text s).brackets = 0 := rfl

theorem brackets_nat (n : Nat) : (nat n).brackets = 0 := rfl

theorem brackets_bool (b : Bool) : (bool b).brackets = 0 := rfl

theorem brackets_double (x : Double) : (double x).brackets = 0 := by
  unfold double
  split <;> rfl

theorem allProper_iff (js : List Json) : AllProper js ↔ ∀ j ∈ js, j.Proper := by
  induction js with
  | nil => simp [AllProper]
  | cons j js ih => rw [AllProper, ih, List.forall_mem_cons]

theorem allProper_members_iff (ms : List Member) :
    Member.AllProper ms ↔ ∀ m ∈ ms, m.key.isSome = true ∧ m.value.Proper := by
  induction ms with
  | nil => simp [Member.AllProper]
  | cons m ms ih =>
    cases m
    rw [Member.AllProper, Member.Proper, ih, List.forall_mem_cons]

@[simp]
theorem proper_null : null.Proper := trivial

@[simp]
theorem proper_bool (b : Bool) : (bool b).Proper := trivial

@[simp]
theorem proper_text (s : String) : (text s).Proper := rfl

@[simp]
theorem proper_nat (n : Nat) : (nat n).Proper := Numeral.proper_ofNat n

@[simp]
theorem proper_double (x : Double) : (double x).Proper := by
  unfold double
  split
  · exact Double.proper_exchange? ‹_›
  · exact proper_null

theorem proper_array (js : List Json) : (array js).Proper ↔ ∀ j ∈ js, j.Proper := by
  rw [Proper, allProper_iff]

@[simp]
theorem proper_record (fs : List (String × Json)) : (record fs).Proper ↔ ∀ f ∈ fs, f.2.Proper := by
  simp only [record, Proper, allProper_members_iff, List.forall_mem_map, Option.isSome_some,
    true_and]

@[simp]
theorem proper_tagged (tag : String) (data : Json) : (tagged tag data).Proper ↔ data.Proper := by
  simp [tagged, Proper, allProper_members_iff]

theorem proper_array_map {α : Type} {encode : α → Json} (h : ∀ a, (encode a).Proper)
    (xs : List α) : (array (xs.map encode)).Proper := by
  rw [proper_array, List.forall_mem_map]
  exact fun a _ => h a

theorem proper_orNull_map {α : Type} {encode : α → Json} (h : ∀ a, (encode a).Proper)
    (o : Option α) : (orNull (o.map encode)).Proper := by
  cases o with
  | none => exact proper_null
  | some a => exact h a

theorem natBelow?_nat {n bound : Nat} (h : n < bound) : (nat n).natBelow? bound = some n := by
  simp [natBelow?, nat, Numeral.toNat?_ofNat, h]

theorem byte?_nat (b : UInt8) : (nat b.toNat).byte? = some b := by
  rw [byte?, natBelow?_nat b.toNat_lt, Option.map_some, UInt8.ofNat_toNat]

theorem word?_nat (w : UInt32) : (nat w.toNat).word? = some w := by
  rw [word?, natBelow?_nat w.toNat_lt, Option.map_some, UInt32.ofNat_toNat]

theorem long?_nat (n : UInt64) : (nat n.toNat).long? = some n := by
  rw [long?, natBelow?_nat n.toNat_lt, Option.map_some, UInt64.ofNat_toNat]

/-- What is not written as `null` reads back as present. -/
theorem nullable?_of_read {α : Type} {read : Json → Option α} {j : Json} {a : α}
    (hnull : read null = none) (h : read j = some a) : j.nullable? read = some (some a) := by
  cases j with
  | null => simp [hnull] at h
  | _ => simp [nullable?, h]

theorem nullable?_orNull {α : Type} {encode : α → Json} {read : Json → Option α} {f : α → α}
    (hnull : read null = none) (o : Option α) (h : ∀ a ∈ o, read (encode a) = some (f a)) :
    (orNull (o.map encode)).nullable? read = some (o.map f) := by
  cases o with
  | none => rfl
  | some a => exact nullable?_of_read hnull (h a rfl)

theorem nullable?_inverse {α : Type} {encode : α → Json} {read : Json → Option α}
    (hnull : read null = none) (o : Option α) (h : ∀ a ∈ o, read (encode a) = some a) :
    (orNull (o.map encode)).nullable? read = some o := by
  have ho := nullable?_orNull (f := id) hnull o h
  rwa [Option.map_id] at ho

theorem nullable?_text (s : Option String) : (orNull (s.map text)).nullable? text? = some s :=
  nullable?_inverse rfl s fun _ _ => rfl

theorem mapM_map_encode {α : Type} {encode : α → Json} {read : Json → Option α} {f : α → α}
    (xs : List α) (h : ∀ a ∈ xs, read (encode a) = some (f a)) :
    (xs.map encode).mapM read = some (xs.map f) := by
  induction xs with
  | nil => rfl
  | cons a xs ih =>
    obtain ⟨ha, hxs⟩ := List.forall_mem_cons.mp h
    rw [List.map_cons, List.mapM_cons, ha, ih hxs]
    rfl

theorem mapM_map_inverse {α : Type} {encode : α → Json} {read : Json → Option α}
    (h : ∀ a, read (encode a) = some a) (xs : List α) : (xs.map encode).mapM read = some xs := by
  have hxs := mapM_map_encode (f := id) xs fun a _ => h a
  rwa [List.map_id] at hxs

end Json

namespace Double

/-- The text written for a double reads back to it. Only finite doubles have a numeral. -/
def ReadsBack (x : Double) : Prop := (Json.parse? (Json.double x).render).bind Json.double? = some x

instance (x : Double) : Decidable x.ReadsBack := inferInstanceAs (Decidable (_ = some x))

theorem ReadsBack.double? {x : Double} (h : x.ReadsBack) : (Json.double x).double? = some x := by
  rwa [ReadsBack, Json.parse?_render (Json.proper_double x)] at h

end Double

end CodeDump
