import Mathlib.Data.Nat.Find
import CodeDump.Proofs.Window
import CodeDump.Text.Buffer

/-!
# Fitting a schedule of runs

Call number `i` of a schedule executes `runAt runs i` in a window of `roomAt guess runs i`
bytes. The runs need not agree with each other: the needed size may go up and down from call to
call. A schedule still comes to an end, because its last run repeats, and a repeated run fits
into the window that its own need has set.

The main statement gives the exact attempt: the calls that were made, the text that was kept
and the fault of the request that was refused. In between, all calls see the buffer as it was
at the start, since an overflow is cut back before the next call. The third end is that of a run
whose bytes, or the one byte more that its next window would have, are no machine word.
-/

namespace CodeDump.Buffer

/-- The run of a call; the last one once the schedule has no more. -/
def runAt (runs : List Run) (i : Nat) : Run := (runs[i]?).getD (runs.getLast?.getD [])

/-- The bytes that a call needs. -/
abbrev needAt (runs : List Run) (i : Nat) : Nat := (Piece.layout (runAt runs i)).utf8ByteSize

/-- The window of a call, when the first one has `room` bytes: one byte more than the call
before has needed. -/
def roomFrom (room : Nat) (runs : List Run) : Nat → Nat
  | 0 => room
  | i + 1 => needAt runs i + 1

abbrev roomAt (guess : Nat) (runs : List Run) (i : Nat) : Nat := roomFrom (max guess 1) runs i

/-- The window of a call as the run leaves it, unless the program stops in the run. -/
def callFrom (text : String) (room : Nat) (runs : List Run) (i : Nat) : Option Window :=
  (Window.behind text (roomFrom room runs i)).run (runAt runs i)

abbrev callAt (text : String) (guess : Nat) (runs : List Run) (i : Nat) : Option Window :=
  callFrom text (max guess 1) runs i

@[simp] theorem runAt_zero (runs : List Run) : runAt runs 0 = firstRun runs := by
  cases runs <;> simp [runAt, firstRun]

theorem runAt_succ (runs : List Run) (i : Nat) : runAt runs (i + 1) = runAt (laterRuns runs) i := by
  match runs with
  | [] => simp [runAt, laterRuns]
  | [run] => cases i <;> simp [runAt, laterRuns]
  | _ :: next :: rest => simp [runAt, laterRuns]

@[simp] theorem roomFrom_zero (room : Nat) (runs : List Run) : roomFrom room runs 0 = room := rfl

theorem roomFrom_succ (room : Nat) (runs : List Run) (i : Nat) :
    roomFrom room runs (i + 1) = roomFrom (needAt runs 0 + 1) (laterRuns runs) i := by
  cases i with
  | zero => rfl
  | succ i => rw [roomFrom, needAt, runAt_succ]; rfl

theorem callFrom_succ (text : String) (room : Nat) (runs : List Run) (i : Nat) :
    callFrom text room runs (i + 1) = callFrom text (needAt runs 0 + 1) (laterRuns runs) i := by
  rw [callFrom, callFrom, roomFrom_succ, runAt_succ]

/-- A call whose bytes are counted has a window, and the window shows them. -/
theorem exists_callAt {runs : List Run} {i : Nat} (h : needAt runs i < UInt64.size)
    (text : String) (guess : Nat) :
    ∃ w, callAt text guess runs i = some w ∧
      (w.capacity, w.need) = (roomAt guess runs i, needAt runs i) := by
  obtain ⟨w, hw⟩ := (Window.exists_run_behind_iff text (roomAt guess runs i) (runAt runs i)).mpr h
  exact ⟨w, hw, congrArg₂ Prod.mk (Window.capacity_of_run_behind hw)
    (Window.need_of_run_behind hw)⟩

/-- The calls of a schedule up to one that is counted, with their sizes. -/
theorem sizes_callAt {runs : List Run} {n : Nat} (h : ∀ i < n, needAt runs i < UInt64.size)
    (text : String) (guess : Nat) :
    ((List.range n).filterMap (callAt text guess runs)).map (fun w => (w.capacity, w.need)) =
      (List.range n).map fun i => (roomAt guess runs i, needAt runs i) := by
  induction n with
  | zero => rfl
  | succ n ih =>
    obtain ⟨w, hw, hsizes⟩ := exists_callAt (h n (Nat.lt_succ_self n)) text guess
    rw [List.range_succ, List.filterMap_append, List.map_append, List.map_append,
      ih fun i hi => h i (Nat.lt_succ_of_lt hi), List.filterMap_cons_some hw, List.map_cons, hsizes]
    rfl

/-- The calls before one, and that one if the program does not stop in it. -/
theorem filterMap_callAt_append {text : String} {guess : Nat} {runs : List Run} {n : Nat}
    {calls : List Window} (h : calls = (callAt text guess runs n).toList) :
    (List.range n).filterMap (callAt text guess runs) ++ calls =
      (List.range (n + 1)).filterMap (callAt text guess runs) := by
  rw [List.range_succ, List.filterMap_append, h]
  cases hcall : callAt text guess runs n <;> simp [hcall]

section Step

variable (mem : Memory) (room : Nat) (runs : List Run) (b : Buffer)

theorem fitFrom_of_refused (h : mem.grants b.size room = false) :
    fitFrom mem room runs b = failed b (.outOfMemory (Memory.saturate (b.size + room))) := by
  rw [fitFrom, (b.refusal_eq_some_iff mem room _).mpr ⟨h, rfl⟩]

/-- A run whose bytes are not counted stops the program. -/
theorem fitFrom_of_uncounted (h : mem.grants b.size room = true)
    (hrun : callFrom b.text room runs 0 = none) : fitFrom mem room runs b = stopped b := by
  rw [callFrom, roomFrom_zero, runAt_zero] at hrun
  rw [fitFrom, (b.refusal_eq_none_iff mem room).mpr h]
  dsimp only
  split
  · rfl
  · rename_i w hw
    rw [hrun] at hw
    cases hw

/-- What comes of a call whose bytes are counted. A text that is too long is cut off, so the next
call starts from the same buffer. -/
theorem fitFrom_of_counted {w : Window} (h : mem.grants b.size room = true)
    (hrun : callFrom b.text room runs 0 = some w) :
    fitFrom mem room runs b = Attempt.withCall w
      (if needAt runs 0 < room then done ⟨b.text ++ Piece.layout (runAt runs 0)⟩
        else if needAt runs 0 + 1 < UInt64.size then
          fitFrom mem (needAt runs 0 + 1) (laterRuns runs) b
        else stopped b) := by
  have hneed : w.need = needAt runs 0 := Window.need_of_run_behind hrun
  obtain ⟨t, ht⟩ := Window.exists_out_of_run_behind hrun
  have hcut : (⟨w.out⟩ : Buffer).truncate b.size = b := by
    rw [ht]
    exact b.truncate_append t
  have hkept (hfits : needAt runs 0 < room) : w.out = b.text ++ Piece.layout (runAt runs 0) :=
    Window.out_of_run_behind_le hrun (Nat.le_of_lt hfits)
  rw [callFrom, roomFrom_zero, runAt_zero] at hrun
  rw [fitFrom, (b.refusal_eq_none_iff mem room).mpr h]
  dsimp only
  split
  · rename_i hnone
    rw [hrun] at hnone
    cases hnone
  · rename_i w' hw'
    obtain rfl : w = w' := Option.some.inj (hrun.symm.trans hw')
    rw [hneed, hcut]
    by_cases hfits : needAt runs 0 < room
    · rw [if_pos hfits, if_pos hfits, hkept hfits]
    · rw [if_neg hfits, if_neg hfits]
      split <;> rfl

end Step

/-- The first `n` calls were all made, and each of them asked for another one. -/
structure Overflowed (mem : Memory) (held room : Nat) (runs : List Run) (n : Nat) : Prop where
  granted : ∀ i < n, mem.grants held (roomFrom room runs i) = true
  overflows : ∀ i < n, roomFrom room runs i ≤ needAt runs i
  countable : ∀ i < n, needAt runs i + 1 < UInt64.size

theorem Overflowed.later {mem : Memory} {held room : Nat} {runs : List Run} {n : Nat}
    (h : Overflowed mem held room runs (n + 1)) :
    Overflowed mem held (needAt runs 0 + 1) (laterRuns runs) n where
  granted i hi := by rw [← roomFrom_succ room]; exact h.granted (i + 1) (by omega)
  overflows i hi := by
    rw [← roomFrom_succ room, needAt, ← runAt_succ]
    exact h.overflows (i + 1) (by omega)
  countable i hi := by
    rw [needAt, ← runAt_succ]
    exact h.countable (i + 1) (by omega)

/-- After calls that all overflowed, the attempt is that of the calls still to come. -/
theorem fitFrom_of_overflowed (mem : Memory) (room : Nat) (runs : List Run) (b : Buffer) (n : Nat)
    (h : Overflowed mem b.size room runs n) :
    ∃ runs' a, runAt runs' 0 = runAt runs n ∧ fitFrom mem (roomFrom room runs n) runs' b = a ∧
      fitFrom mem room runs b =
        ⟨a.buffer, a.halt, (List.range n).filterMap (callFrom b.text room runs) ++ a.calls⟩ := by
  induction n generalizing room runs with
  | zero => exact ⟨runs, _, rfl, rfl, rfl⟩
  | succ n ih =>
    obtain ⟨runs', a, hrun, ha, hfit⟩ := ih _ _ h.later
    refine ⟨runs', a, by rw [hrun, runAt_succ], by rw [roomFrom_succ, ha], ?_⟩
    have hover := h.overflows 0 (by omega)
    have hcount := h.countable 0 (by omega)
    obtain ⟨w, hw⟩ : ∃ w, callFrom b.text room runs 0 = some w :=
      (Window.exists_run_behind_iff _ _ _).mpr (Nat.lt_of_succ_lt hcount)
    rw [roomFrom_zero] at hover
    rw [fitFrom_of_counted mem room runs b (h.granted 0 (by omega)) hw,
      if_neg (Nat.not_lt.mpr hover), if_pos hcount, hfit, List.range_succ_eq_map,
      List.filterMap_cons_some hw, List.filterMap_map]
    simp only [Attempt.withCall, List.cons_append, Function.comp_def, callFrom_succ]

/-- How the call comes out that ends a schedule. -/
inductive Ends (mem : Memory) (b : Buffer) (guess : Nat) (runs : List Run) (n : Nat) :
    Attempt → Prop
  /-- Its window is refused. -/
  | refused (h : mem.grants b.size (roomAt guess runs n) = false) :
      Ends mem b guess runs n ⟨b, some (.fault (.outOfMemory
        (Memory.saturate (b.size + roomAt guess runs n)))),
        (List.range n).filterMap (callAt b.text guess runs)⟩
  /-- Its output is shorter than its window and is kept. -/
  | fits (h : mem.grants b.size (roomAt guess runs n) = true)
      (hf : needAt runs n < roomAt guess runs n) :
      Ends mem b guess runs n ⟨⟨b.text ++ Piece.layout (runAt runs n)⟩, none,
        (List.range (n + 1)).filterMap (callAt b.text guess runs)⟩
  /-- The program stops in it, as the size of a next window is no machine word. -/
  | stops (h : mem.grants b.size (roomAt guess runs n) = true)
      (hs : UInt64.size ≤ needAt runs n + 1) :
      Ends mem b guess runs n ⟨b, some .overflow,
        (List.range (n + 1)).filterMap (callAt b.text guess runs)⟩

/-- A schedule comes out as its last call does. -/
theorem fit_ends {mem : Memory} {guess : Nat} {runs : List Run} {b : Buffer} {n : Nat}
    (h : Overflowed mem b.size (max guess 1) runs n)
    (hend : mem.grants b.size (roomAt guess runs n) = false ∨
      needAt runs n < roomAt guess runs n ∨ UInt64.size ≤ needAt runs n + 1) :
    Ends mem b guess runs n (fit mem guess runs b) := by
  obtain ⟨runs', a, hrun, ha, hfit⟩ := fitFrom_of_overflowed mem _ runs b n h
  have hcall : callFrom b.text (roomAt guess runs n) runs' 0 = callAt b.text guess runs n := by
    rw [callFrom, roomFrom_zero, hrun]
    rfl
  have hneed : needAt runs' 0 = needAt runs n := by rw [needAt, hrun]
  rw [fit, hfit]
  cases hg : mem.grants b.size (roomAt guess runs n) with
  | false =>
    rw [fitFrom_of_refused mem _ runs' b hg] at ha
    subst a
    rw [failed, List.append_nil]
    exact .refused hg
  | true =>
    have hroom := mem.bounded _ _ hg
    by_cases hf : needAt runs n < roomAt guess runs n
    · obtain ⟨w, hw, -⟩ := exists_callAt (show needAt runs n < 2 ^ 64 by omega) b.text guess
      rw [fitFrom_of_counted mem _ runs' b hg (hcall.trans hw), hneed, if_pos hf, hrun] at ha
      subst a
      rw [Attempt.withCall, done, filterMap_callAt_append (by rw [hw]; rfl)]
      exact .fits hg hf
    · have hs := (hend.resolve_left (by rw [hg]; exact Bool.noConfusion)).resolve_left hf
      have ha' : a = ⟨b, some .overflow, (callAt b.text guess runs n).toList⟩ := by
        subst a
        cases hw : callAt b.text guess runs n with
        | none => exact fitFrom_of_uncounted mem _ runs' b hg (hcall.trans hw)
        | some w =>
          rw [fitFrom_of_counted mem _ runs' b hg (hcall.trans hw), hneed, if_neg hf,
            if_neg (Nat.not_lt.mpr hs)]
          rfl
      rw [ha', filterMap_callAt_append rfl]
      exact .stops hg hs

theorem fit_of_fits {mem : Memory} {guess : Nat} {runs : List Run} {b : Buffer} {n : Nat}
    (h : Overflowed mem b.size (max guess 1) runs n)
    (hg : mem.grants b.size (roomAt guess runs n) = true)
    (hf : needAt runs n < roomAt guess runs n) :
    fit mem guess runs b =
      ⟨⟨b.text ++ Piece.layout (runAt runs n)⟩, none,
        (List.range (n + 1)).filterMap (callAt b.text guess runs)⟩ := by
  have hend := fit_ends h (Or.inr (Or.inl hf))
  have hroom := mem.bounded _ _ hg
  generalize fit mem guess runs b = a at hend
  cases hend with
  | refused hr =>
    rw [hg] at hr
    cases hr
  | fits _ _ => rfl
  | stops _ hs =>
    change 2 ^ 64 ≤ _ at hs
    omega

/-- Once the schedule has been gone through, its last run is called again and fits. -/
theorem fits_at_length (guess : Nat) (runs : List Run) :
    needAt runs runs.length < roomAt guess runs runs.length := by
  rcases List.eq_nil_or_concat runs with rfl | ⟨init, last, h⟩
  · change 0 < max guess 1
    omega
  · have hrun (i : Nat) (hi : init.length ≤ i) : runAt (init ++ [last]) i = last := by
      rcases Nat.eq_or_lt_of_le hi with rfl | hlt
      · simp [runAt]
      · simp [runAt, List.getElem?_eq_none (show (init ++ [last]).length ≤ i by simp; omega)]
    rw [h, List.concat_eq_append, List.length_append, List.length_singleton, needAt,
      hrun _ (by omega), roomAt, roomFrom, needAt, hrun _ le_rfl]
    exact Nat.lt_succ_self _

/-- A request is refused, a call fits or it stops the program, at the latest when the last run is
called again. -/
theorem exists_overflowed (mem : Memory) (guess held : Nat) (runs : List Run) :
    ∃ n ≤ runs.length, Overflowed mem held (max guess 1) runs n ∧
      (mem.grants held (roomAt guess runs n) = false ∨
        needAt runs n < roomAt guess runs n ∨ UInt64.size ≤ needAt runs n + 1) := by
  let ends (n : Nat) : Prop := mem.grants held (roomAt guess runs n) = false ∨
    needAt runs n < roomAt guess runs n ∨ UInt64.size ≤ needAt runs n + 1
  have hlast : ends runs.length := Or.inr (Or.inl (fits_at_length guess runs))
  have hex : ∃ n, ends n := ⟨_, hlast⟩
  classical
  refine ⟨Nat.find hex, Nat.find_min' hex hlast, ⟨fun i hi => ?_, fun i hi => ?_, fun i hi => ?_⟩,
    Nat.find_spec hex⟩
  · have hmin := Nat.find_min hex hi
    exact eq_true_of_ne_false fun hr => hmin (Or.inl hr)
  · have hmin := Nat.find_min hex hi
    exact Nat.le_of_not_lt fun hf => hmin (Or.inr (Or.inl hf))
  · have hmin := Nat.find_min hex hi
    exact Nat.lt_of_not_le fun hs => hmin (Or.inr (Or.inr hs))

theorem fit_cases (mem : Memory) (guess : Nat) (runs : List Run) (b : Buffer) :
    ∃ n ≤ runs.length, Overflowed mem b.size (max guess 1) runs n ∧
      Ends mem b guess runs n (fit mem guess runs b) := by
  obtain ⟨n, hn, hover, hend⟩ := exists_overflowed mem guess b.size runs
  exact ⟨n, hn, hover, fit_ends hover hend⟩

theorem Ends.length_calls_le {mem : Memory} {guess : Nat} {runs : List Run} {b : Buffer} {n : Nat}
    {a : Attempt} (h : Ends mem b guess runs n a) : a.calls.length ≤ n + 1 := by
  have hlength (k : Nat) : ((List.range k).filterMap (callAt b.text guess runs)).length ≤ k :=
    Nat.le_trans (List.length_filterMap_le _ _) (Nat.le_of_eq List.length_range)
  cases h with
  | refused _ => exact Nat.le_trans (hlength n) (Nat.le_succ n)
  | fits _ _ => exact hlength (n + 1)
  | stops _ _ => exact hlength (n + 1)

/-- A schedule of any runs, agreeing or not, comes to an end after at most one call more than
it has runs. All calls but the last one overflow the windows they are given. The attempt then
fails at the request for window `n` with the buffer as it was, or it keeps the whole output of
call `n`, the last one, which is strictly shorter than its window, or the program stops in call
`n`, which it does exactly if the size of the window after it would be no machine word. -/
theorem fit_settles (mem : Memory) (guess : Nat) (runs : List Run) (b : Buffer) :
    (fit mem guess runs b).calls.length ≤ runs.length + 1 ∧
      ∃ n, (∀ i < n, mem.grants b.size (roomAt guess runs i) = true ∧
          roomAt guess runs i ≤ needAt runs i ∧
          ∃ w, callAt b.text guess runs i = some w ∧
            (w.capacity, w.need) = (roomAt guess runs i, needAt runs i)) ∧
        Ends mem b guess runs n (fit mem guess runs b) := by
  obtain ⟨n, hn, hover, hend⟩ := fit_cases mem guess runs b
  refine ⟨Nat.le_trans hend.length_calls_le (Nat.succ_le_succ hn), n, fun i hi => ?_, hend⟩
  refine ⟨hover.granted i hi, hover.overflows i hi, ?_⟩
  exact exists_callAt (Nat.lt_of_succ_lt (hover.countable i hi)) b.text guess

@[simp] theorem runAt_singleton (run : Run) (i : Nat) : runAt [run] i = run := by
  cases i <;> simp [runAt]

theorem exists_fits (guess : Nat) (runs : List Run) :
    ∃ i, needAt runs i < roomAt guess runs i :=
  ⟨runs.length, fits_at_length guess runs⟩

/-- The call whose text a schedule keeps when all its requests are granted. -/
def firstFit (guess : Nat) (runs : List Run) : Nat := Nat.find (exists_fits guess runs)

theorem firstFit_eq {mem : Memory} {held guess : Nat} {runs : List Run} {n : Nat}
    (h : Overflowed mem held (max guess 1) runs n) (hf : needAt runs n < roomAt guess runs n) :
    firstFit guess runs = n := by
  rw [firstFit, Nat.find_eq_iff]
  exact ⟨hf, fun i hi => Nat.not_lt.mpr (h.overflows i hi)⟩

end CodeDump.Buffer
