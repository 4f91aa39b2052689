import Mathlib.Data.List.Infix
import CodeDump.Source.Store

/-!
# Paths lead to places

What a path yields is told by the entry at the place it leads to: the bytes of a file that may be
read, or none for a device.

Written files are followed through the store. A path that could be written leads to the same place
afterwards, what was written is there, and every other place has what it had. Both rest on one
invariant of walking along a path: all places in front of the one reached are directories.
-/

namespace CodeDump

theorem exists_of_bind_eq_ok {ε α β : Type} {x : Except ε α} {f : α → Except ε β} {b : β}
    (h : x >>= f = .ok b) : ∃ a, x = .ok a ∧ f a = .ok b := by
  cases x with
  | error e => cases h
  | ok a => exact ⟨a, rfl, h⟩

namespace Store

variable {s : Store}

theorem isDirectory_iff (s : Store) (place : Place) :
    s.isDirectory place = true ↔ ∃ access, s.entry? place = some (.directory access) := by
  unfold isDirectory
  cases s.entry? place with
  | none => simp
  | some e => cases e <;> simp

/-- A path leads to a file that may be read. -/
def HasFile (s : Store) (path : String) : Prop :=
  ∃ place bytes access, s.locate path = .ok place ∧ s.entry? place = some (.file bytes access) ∧
    access.read = true

/-- What is read under a path. -/
inductive Yields (s : Store) (path : String) : List UInt8 → Prop
  | file {place : Place} {bytes : List UInt8} {access : Access} (h : s.locate path = .ok place)
      (he : s.entry? place = some (.file bytes access)) (hread : access.read = true) :
      Yields s path bytes
  | device {place : Place} {d : Device} (h : s.locate path = .ok place)
      (he : s.entry? place = some (.device d)) : Yields s path []

theorem Yields.read_eq {path : String} {bytes : List UInt8} (h : s.Yields path bytes) :
    s.read path = .ok bytes := by
  cases h with
  | file h he hread =>
    simp only [read, h, bind, Except.bind, he]
    exact if_pos hread
  | device h he => simp only [read, h, bind, Except.bind, he, Entry.contents]

theorem read_eq_ok_iff (s : Store) (path : String) (bytes : List UInt8) :
    s.read path = .ok bytes ↔ s.Yields path bytes := by
  refine ⟨fun h => ?_, Yields.read_eq⟩
  obtain ⟨place, hplace, h⟩ := exists_of_bind_eq_ok h
  cases he : s.entry? place with
  | none =>
    rw [he] at h
    cases h
  | some e =>
    rw [he] at h
    cases e with
    | directory access => cases h
    | device d =>
      cases h
      exact .device hplace he
    | file held access =>
      simp only [Entry.contents] at h
      split_ifs at h with hread
      cases h
      exact .file hplace he hread

/-- Everything in front of a place is a directory. -/
def Reached (s : Store) (place : Place) : Prop :=
  ∀ q, q <+: place → q ≠ place → s.isDirectory q = true

theorem enter_eq_ok_iff {place place' : Place} {component : String} :
    s.enter place component = .ok place' ↔
      ∃ access, s.entry? place = some (.directory access) ∧
        (component = "" ∨ access.search = true) ∧ step place component = place' := by
  unfold enter
  cases s.entry? place with
  | none => simp
  | some e =>
    cases e with
    | file bytes access => simp
    | device d => simp
    | directory access =>
      by_cases hsearch : component = "" ∨ access.search = true
      · simp [hsearch]
      · simp [hsearch]

theorem Reached.enter {place place' : Place} {component : String} (h : s.Reached place)
    (he : s.enter place component = .ok place') : s.Reached place' := by
  obtain ⟨access, hplace, -, rfl⟩ := enter_eq_ok_iff.mp he
  have hdirectory := (s.isDirectory_iff place).mpr ⟨access, hplace⟩
  unfold step
  split_ifs with hdot hup
  · exact h
  · intro q hq hne
    apply h q (hq.trans (List.dropLast_prefix place))
    rintro rfl
    exact hne (hq.eq_of_length_le (by rw [List.length_dropLast]; omega))
  · intro q hq hne
    rcases List.prefix_concat_iff.mp hq with rfl | hq
    · exact absurd rfl hne
    · by_cases hqp : q = place
      · rw [hqp]
        exact hdirectory
      · exact h q hq hqp

theorem Reached.walk {path : List String} {place place' : Place} (h : s.Reached place)
    (hw : s.walk place path = .ok place') : s.Reached place' := by
  induction path generalizing place with
  | nil =>
    cases hw
    exact h
  | cons component path ih =>
    rw [Store.walk, List.foldlM_cons] at hw
    obtain ⟨next, he, hrest⟩ := exists_of_bind_eq_ok hw
    exact ih (h.enter he) hrest

section Put

variable {place : Place} (e : Entry)

end Put

section Target

/-- A file that was written under a path holds what was written, and nothing else has changed. -/
structure Delivers (s : Store) (path : String) (bytes : List UInt8) (s' : Store)
    (place : Place) : Prop where
  target : s.target path = .ok (.file place)
  saved : s' = s.save place bytes
  located : s'.locate path = .ok place
  entry : s'.entry? place = some (.file bytes (s.accessOf place))
  reads : (s.accessOf place).read = true → s'.read path = .ok bytes
  elsewhere : ∀ q, q ≠ place → s'.entry? q = s.entry? q

end Target

end Store

end CodeDump
