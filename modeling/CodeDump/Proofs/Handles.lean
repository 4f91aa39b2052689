import CodeDump.Proofs.Paths
import CodeDump.Source.Input

/-!
# Handles keep what they loaded

A session is asked one thing after another: to load, close, clone or create an input, to write
or remove a file, or to show the bytes or a position of an input. Beside the session runs a
history for each handle, in which only two things count: a load that succeeded, with the files
as they were at that moment, and a close. A clone takes over the history of its origin and goes
on by itself.

The main statement ties the two together over every run: what a handle holds can be read off the
last moment of its own history, so neither later changes to the files nor anything done to other
handles can be seen in it.
-/

namespace CodeDump

namespace Input

theorem isOpen_eq_false_iff (i : Input) : i.isOpen = false ↔ i.data = none := by
  unfold isOpen
  cases i.data <;> simp

theorem load_eq_ok_iff (store : Store) (i i' : Input) :
    i.load store = .ok i' ↔
      i.isOpen = false ∧ ∃ bytes, store.read i.name = .ok bytes ∧
        i' = { i with data := some bytes } := by
  unfold load
  cases hopen : i.isOpen with
  | true => simp
  | false =>
    cases hread : store.read i.name with
    | error f => simp
    | ok bytes =>
      constructor
      · intro h
        cases h
        exact ⟨rfl, bytes, rfl, rfl⟩
      · rintro ⟨-, bytes', hbytes, rfl⟩
        cases hbytes
        rfl

theorem exists_load_eq_error_iff (store : Store) (i : Input) :
    (∃ f, i.load store = .error f) ↔
      i.isOpen = true ∨ ¬ ∃ bytes, store.Yields i.name bytes := by
  simp only [← store.read_eq_ok_iff]
  unfold load
  cases hopen : i.isOpen with
  | true => simp
  | false =>
    cases hread : store.read i.name with
    | error f => simp
    | ok bytes => simp

theorem lineCol_eq_none_of_closed {i : Input} (h : i.data = none) (offset : Nat) :
    i.lineCol offset = none := by
  rw [lineCol, h]

end Input

namespace Session

/-- What a session is asked: to take a step, or to show something of one input. -/
inductive Request
  | step (a : Step)
  | data (handle : Nat)
  | lineCol (handle offset : Nat)
  deriving DecidableEq, Repr

inductive Reply
  | settled (fault : Option Fault)
  | data (bytes : Option (List UInt8))
  | position (p : Option (UInt32 × UInt32))
  deriving DecidableEq, Repr

def answer (s : Session) : Request → Session × Reply
  | .step a => ((s.step a).1, .settled (s.step a).2)
  | .data h => (s, .data (s.inputs[h]?.bind Input.data))
  | .lineCol h offset => (s, .position (s.inputs[h]?.bind fun i => i.lineCol offset))

/-- The one handle whose input a request may change. -/
def Request.subject : Request → Option Nat
  | .step (.load h) => some h
  | .step (.close h) => some h
  | _ => none

/-- Closed inputs over some files. -/
def start (store : Store) (names : List String) : Session := ⟨store, names.map Input.create⟩

def after (s : Session) : List Request → Session
  | [] => s
  | r :: rs => after (s.answer r).1 rs

/-- What counts in the life of a handle. -/
inductive Moment
  /-- A load that succeeded, with the files it found. -/
  | opened (store : Store)
  | closed
  deriving DecidableEq, Repr

/-- The histories of all handles after a request to the session `s`. -/
def record (s : Session) (logs : List (List Moment)) : Request → List (List Moment)
  | .step (.load h) =>
      if (s.step (.load h)).2 = none then logs.modify h (· ++ [.opened s.store]) else logs
  | .step (.close h) => logs.modify h (· ++ [.closed])
  | .step (.clone h) => logs ++ logs[h]?.toList
  | .step (.create _) => logs ++ [[]]
  | _ => logs

def historiesFrom (s : Session) (logs : List (List Moment)) : List Request → List (List Moment)
  | [] => logs
  | r :: rs => historiesFrom (s.answer r).1 (s.record logs r) rs

/-- The histories of the handles of a fresh session after a run. -/
def histories (store : Store) (names : List String) (rs : List Request) : List (List Moment) :=
  historiesFrom (start store names) (names.map fun _ => []) rs

/-- An input is open exactly if the last moment of its history is a load, and then it has the
bytes that its file had at that moment. -/
def Holds (i : Input) (log : List Moment) : Prop :=
  ∀ bytes, i.data = some bytes ↔
    ∃ store, log.getLast? = some (.opened store) ∧ store.read i.name = .ok bytes

theorem holds_create (name : String) : Holds (Input.create name) [] := by
  intro bytes
  simp [Input.create]

theorem holds_close (i : Input) (log : List Moment) : Holds i.close (log ++ [.closed]) := by
  intro bytes
  simp [Input.close]

theorem holds_load {i i' : Input} {store : Store} (h : i.load store = .ok i')
    (log : List Moment) : Holds i' (log ++ [.opened store]) := by
  obtain ⟨-, bytes, hread, rfl⟩ := (Input.load_eq_ok_iff store i i').mp h
  intro other
  constructor
  · intro hother
    cases hother
    exact ⟨store, List.getLast?_concat, hread⟩
  · rintro ⟨store', hlast, hread'⟩
    rw [List.getLast?_concat] at hlast
    cases hlast
    exact congrArg some (Except.ok.inj (hread.symm.trans hread'))

section Answer

variable (s : Session)

theorem answer_load_of_ok {h : Nat} {i i' : Input} (hi : s.inputs[h]? = some i)
    (hl : i.load s.store = .ok i') :
    s.answer (.step (.load h)) = (s.update h i', .settled none) := by
  simp only [answer, step, hi, hl]

theorem answer_load_of_error {h : Nat} {i : Input} {f : Fault} (hi : s.inputs[h]? = some i)
    (hl : i.load s.store = .error f) :
    s.answer (.step (.load h)) = (s, .settled (some f)) := by
  simp only [answer, step, hi, hl]

theorem answer_close {h : Nat} {i : Input} (hi : s.inputs[h]? = some i) :
    s.answer (.step (.close h)) = (s.update h i.close, .settled none) := by
  simp only [answer, step, hi]

/-- A request for a handle that does not exist does nothing. -/
theorem answer_of_missing {r : Request} {h : Nat} (hr : r.subject = some h)
    (hi : s.inputs[h]? = none) : s.answer r = (s, .settled none) := by
  match r, hr with
  | .step (.load _), rfl => simp only [answer, step, hi]
  | .step (.close _), rfl => simp only [answer, step, hi]

theorem getElem?_update_self {h : Nat} {i : Input} (hi : s.inputs[h]? = some i) (i' : Input) :
    (s.update h i').inputs[h]? = some i' := by
  obtain ⟨hlt, -⟩ := List.getElem?_eq_some_iff.mp hi
  exact List.getElem?_set_self hlt

theorem getElem?_update_of_ne {h k : Nat} (hne : h ≠ k) (i' : Input) :
    (s.update h i').inputs[k]? = s.inputs[k]? :=
  List.getElem?_set_ne hne

theorem getElem?_append_of_some {k : Nat} {i : Input} (hi : s.inputs[k]? = some i)
    (more : List Input) : (s.inputs ++ more)[k]? = some i := by
  obtain ⟨hlt, -⟩ := List.getElem?_eq_some_iff.mp hi
  rw [List.getElem?_append_left hlt, hi]

/-- Only its subject can be changed by a request. -/
theorem getElem?_answer_of_ne {r : Request} {k : Nat} {i : Input} (hi : s.inputs[k]? = some i)
    (hr : r.subject ≠ some k) : (s.answer r).1.inputs[k]? = some i := by
  cases r with
  | data h => exact hi
  | lineCol h offset => exact hi
  | step a =>
    cases a with
    | load h =>
      have hne : h ≠ k := fun he => hr (congrArg some he)
      cases hh : s.inputs[h]? with
      | none =>
        rw [s.answer_of_missing rfl hh]
        exact hi
      | some j =>
        cases hl : j.load s.store with
        | error f =>
          rw [s.answer_load_of_error hh hl]
          exact hi
        | ok j' =>
          rw [s.answer_load_of_ok hh hl, s.getElem?_update_of_ne hne, hi]
    | close h =>
      have hne : h ≠ k := fun he => hr (congrArg some he)
      cases hh : s.inputs[h]? with
      | none =>
        rw [s.answer_of_missing rfl hh]
        exact hi
      | some j => rw [s.answer_close hh, s.getElem?_update_of_ne hne, hi]
    | clone h =>
      cases hh : s.inputs[h]? with
      | none =>
        simp only [answer, step, hh]
        exact hi
      | some j =>
        simp only [answer, step, hh]
        exact s.getElem?_append_of_some hi [j]
    | create name => exact s.getElem?_append_of_some hi _
    | write name e => exact hi
    | remove name => exact hi

/-- A request leaves every handle in place and with its name. -/
theorem exists_getElem?_answer {k : Nat} {i : Input} (hi : s.inputs[k]? = some i) (r : Request) :
    ∃ i', (s.answer r).1.inputs[k]? = some i' ∧ i'.name = i.name := by
  by_cases hr : r.subject = some k
  · match r, hr with
    | .step (.load _), rfl =>
      cases hl : i.load s.store with
      | error f =>
        rw [s.answer_load_of_error hi hl]
        exact ⟨i, hi, rfl⟩
      | ok i' =>
        rw [s.answer_load_of_ok hi hl]
        obtain ⟨-, bytes, -, rfl⟩ := (Input.load_eq_ok_iff s.store i i').mp hl
        exact ⟨_, s.getElem?_update_self hi _, rfl⟩
    | .step (.close _), rfl =>
      rw [s.answer_close hi]
      exact ⟨_, s.getElem?_update_self hi _, rfl⟩
  · exact ⟨i, s.getElem?_answer_of_ne hi hr, rfl⟩

end Answer

/-- There is one history for each handle, and each handle holds what its history says. -/
structure Recorded (s : Session) (logs : List (List Moment)) : Prop where
  length : logs.length = s.inputs.length
  holds : ∀ (h : Nat) (i : Input), s.inputs[h]? = some i →
    ∃ log, logs[h]? = some log ∧ Holds i log

namespace Recorded

variable {s : Session} {logs : List (List Moment)}

theorem start (store : Store) (names : List String) :
    Recorded (Session.start store names) (names.map fun _ => []) where
  length := by simp [Session.start]
  holds h i hi := by
    simp only [Session.start, List.getElem?_map, Option.map_eq_some_iff] at hi ⊢
    obtain ⟨name, hname, rfl⟩ := hi
    exact ⟨[], ⟨name, hname, rfl⟩, holds_create name⟩

/-- One handle goes on by a moment, and all others stay. -/
theorem update (hs : Recorded s logs) {h : Nat} {i' : Input} {m : Moment}
    (hm : ∀ log, Holds i' (log ++ [m])) :
    Recorded (s.update h i') (logs.modify h (· ++ [m])) where
  length := by simpa [Session.update] using hs.length
  holds k j hj := by
    by_cases hk : h = k
    · subst k
      have hlt : h < s.inputs.length := by
        simpa [Session.update] using (List.getElem?_eq_some_iff.mp hj).1
      have hi := List.getElem?_eq_getElem hlt
      obtain ⟨log, hlog, -⟩ := hs.holds h _ hi
      rw [s.getElem?_update_self hi] at hj
      cases hj
      exact ⟨log ++ [m], by simp [hlog], hm log⟩
    · rw [s.getElem?_update_of_ne hk] at hj
      obtain ⟨log, hlog, hold⟩ := hs.holds k j hj
      exact ⟨log, by simp [hk, hlog], hold⟩

/-- A new handle comes with a history of its own. -/
theorem append (hs : Recorded s logs) {i : Input} {log : List Moment} (hold : Holds i log) :
    Recorded { s with inputs := s.inputs ++ [i] } (logs ++ [log]) where
  length := by simp [hs.length]
  holds k j hj := by
    by_cases hk : k < s.inputs.length
    · rw [List.getElem?_append_left hk] at hj
      rw [List.getElem?_append_left (by rw [hs.length]; exact hk)]
      exact hs.holds k j hj
    · have hlt := (List.getElem?_eq_some_iff.mp hj).1
      have hlast : k = s.inputs.length := by
        simp only [List.length_append, List.length_singleton] at hlt
        omega
      subst k
      rw [List.getElem?_concat_length] at hj
      cases hj
      exact ⟨log, by rw [← hs.length]; simp, hold⟩

/-- Beyond the last handle there is no history either. -/
theorem length_le_of_missing (hs : Recorded s logs) {h : Nat} (hh : s.inputs[h]? = none) :
    logs.length ≤ h := by
  rw [hs.length]
  exact List.getElem?_eq_none_iff.mp hh

theorem answer (hs : Recorded s logs) (r : Request) :
    Recorded (s.answer r).1 (s.record logs r) := by
  cases r with
  | data h => exact hs
  | lineCol h offset => exact hs
  | step a =>
    cases a with
    | write name e => exact ⟨hs.length, hs.holds⟩
    | remove name => exact ⟨hs.length, hs.holds⟩
    | create name => exact hs.append (holds_create name)
    | load h =>
      cases hh : s.inputs[h]? with
      | none =>
        have hlog := hs.length_le_of_missing hh
        simp only [Session.answer, record, step, hh, if_true, List.modify_eq_self hlog]
        exact hs
      | some i =>
        cases hl : i.load s.store with
        | error f =>
          simp only [Session.answer, record, step, hh, hl, reduceCtorEq, if_false]
          exact hs
        | ok i' =>
          simp only [Session.answer, record, step, hh, hl, if_true]
          exact hs.update (holds_load hl)
    | close h =>
      cases hh : s.inputs[h]? with
      | none =>
        have hlog := hs.length_le_of_missing hh
        simp only [Session.answer, record, step, hh, List.modify_eq_self hlog]
        exact hs
      | some i =>
        simp only [Session.answer, record, step, hh]
        exact hs.update (holds_close i)
    | clone h =>
      cases hh : s.inputs[h]? with
      | none =>
        have hlog := List.getElem?_eq_none_iff.mpr (hs.length_le_of_missing hh)
        simp only [Session.answer, record, step, hh, hlog, Option.toList_none, List.append_nil]
        exact hs
      | some i =>
        obtain ⟨log, hlog, hold⟩ := hs.holds h i hh
        simp only [Session.answer, record, step, hh, hlog, Option.toList_some]
        exact hs.append hold

theorem after (hs : Recorded s logs) (rs : List Request) :
    Recorded (s.after rs) (s.historiesFrom logs rs) := by
  induction rs generalizing s logs with
  | nil => exact hs
  | cons r rs ih => exact ih (hs.answer r)

end Recorded

/-- How a session deals with one of its handles. -/
structure Handles (s : Session) (h : Nat) (i : Input) : Prop where
  /-- A load is refused exactly if the input is open or its name yields nothing to read. -/
  refused_iff : (∃ f, (s.answer (.step (.load h))).2 = .settled (some f)) ↔
    i.isOpen = true ∨ ¬ ∃ bytes, s.store.Yields i.name bytes
  unchanged_of_refused : ∀ f, (s.answer (.step (.load h))).2 = .settled (some f) →
    (s.answer (.step (.load h))).1 = s
  /-- Nothing but a load or a close of this very handle can change it. -/
  untouched : ∀ r : Request, r.subject ≠ some h → (s.answer r).1.inputs[h]? = some i
  named : ∀ r, ∃ i', (s.answer r).1.inputs[h]? = some i' ∧ i'.name = i.name
  data : (s.answer (.data h)).2 = .data i.data
  closed : i.isOpen = false → (s.answer (.data h)).2 = .data none ∧
    ∀ offset, (s.answer (.lineCol h offset)).2 = .position none

theorem handles_of_getElem? {s : Session} {h : Nat} {i : Input} (hi : s.inputs[h]? = some i) :
    Handles s h i where
  refused_iff := by
    rw [← Input.exists_load_eq_error_iff]
    cases hl : i.load s.store with
    | error f => simp [s.answer_load_of_error hi hl]
    | ok i' => simp [s.answer_load_of_ok hi hl]
  unchanged_of_refused f hf := by
    cases hl : i.load s.store with
    | error f' => rw [s.answer_load_of_error hi hl]
    | ok i' =>
      rw [s.answer_load_of_ok hi hl] at hf
      cases hf
  untouched r hr := s.getElem?_answer_of_ne hi hr
  named r := s.exists_getElem?_answer hi r
  data := by rw [Session.answer, hi, Option.bind_some]
  closed hc := by
    have hnone := i.isOpen_eq_false_iff.mp hc
    refine ⟨by rw [Session.answer, hi, Option.bind_some, hnone], fun offset => ?_⟩
    rw [Session.answer, hi, Option.bind_some, Input.lineCol_eq_none_of_closed hnone]

/-- After every run over any files, each handle holds what the last moment of its own history
says, and the next request is dealt with as `Handles` says. -/
theorem handles_after (store : Store) (names : List String) (rs : List Request) (h : Nat)
    (i : Input) (hi : ((start store names).after rs).inputs[h]? = some i) :
    (∃ log, (histories store names rs)[h]? = some log ∧ Holds i log) ∧
      Handles ((start store names).after rs) h i := by
  have hrec := (Recorded.start store names).after rs
  exact ⟨hrec.holds h i hi, handles_of_getElem? hi⟩

/-- A clone made before its origin is closed and loaded again keeps the older bytes. -/
theorem handles_after_clone :
    let files : Store := Store.empty.insert "a" (.file [1])
    let rs : List Request := [.step (.load 0), .step (.write "a" (.file [2])), .step (.clone 0),
      .step (.close 0), .step (.load 0), .step (.remove "a"), .data 1]
    let s := (start files ["a"]).after rs
    s.inputs = [⟨"a", some [2]⟩, ⟨"a", some [1]⟩] ∧
      (histories files ["a"] rs)[1]? = some [.opened files] ∧ Handles s 1 ⟨"a", some [1]⟩ := by
  intro files rs s
  have hs : s.inputs = [⟨"a", some [2]⟩, ⟨"a", some [1]⟩] := by decide +kernel
  have hlog : (histories files ["a"] rs)[1]? = some [.opened files] := by decide +kernel
  exact ⟨hs, hlog, (handles_after files ["a"] rs 1 _ (by rw [hs]; rfl)).2⟩

/-- A device is not a file, and yet an input of its name is loaded. -/
theorem loads_without_file :
    let s := start .empty ["/dev/null"]
    s.inputs[0]? = some (Input.create "/dev/null") ∧ ¬ s.store.HasFile "/dev/null" ∧
      s.answer (.step (.load 0)) = (⟨.empty, [⟨"/dev/null", some []⟩]⟩, .settled none) := by
  intro s
  have hplace : s.store.locate "/dev/null" = .ok ["dev", "null"] := by decide +kernel
  have hdevice : s.store.entry? ["dev", "null"] = some (.device .null) := by decide +kernel
  refine ⟨rfl, ?_, by decide +kernel⟩
  rintro ⟨place, bytes, access, hfile, he, -⟩
  rw [hplace] at hfile
  cases hfile
  rw [hdevice] at he
  cases he

end Session

end CodeDump
