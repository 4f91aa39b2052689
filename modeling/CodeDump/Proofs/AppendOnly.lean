import Mathlib.Data.List.Forall2
import CodeDump.Print.Dump
import CodeDump.Proofs.Retry

/-!
# Buffers only grow by whole outputs

Every step on a buffer has an output that neither the memory nor the buffer has a say in. A
step appends exactly that output, or it fails and leaves the buffer as it was. The five ways in
which this comes about are a request before the write, the cut after a writer that stopped
half-way, the same cut within a listing, the cut before a run is tried again, and the cut after a
listing that stopped within one of its fragments. Over a whole run of steps, whatever is granted
at each of them, the texts then form a chain of extensions.

Only a step with a run of more bytes than a machine word counts may have neither end: the program
stops in it, so there is no buffer after it and no later step.
-/

namespace CodeDump

/-- The run that a span has to fit in, if it is a fragment. -/
def Span.runs : Span → List Run
  | .fragment run => [run]
  | _ => []

namespace Buffer

/-- The fault of a request for bytes that the memory refused. -/
def Refused (mem : Memory) (f : Fault) : Prop :=
  ∃ held n, mem.grants held n = false ∧ f = .outOfMemory (Memory.saturate (held + n))

/-- The size of a window that would hold the run is no machine word. -/
def Uncountable (run : Run) : Prop := UInt64.size ≤ (Piece.layout run).utf8ByteSize + 1

/-- How an attempt ends that puts its output behind the text of `b`; `left` is what a failure
leaves in the buffer. -/
inductive Ended (mem : Memory) (out : Option String) (runs : List Run) (left : Buffer → Prop)
    (b : Buffer) (a : Attempt) : Prop
  /-- All of the output is appended. -/
  | appended (s : String) (hout : out = some s) (hhalt : a.halt = none)
      (hbuf : a.buffer = ⟨b.text ++ s⟩)
  /-- A request was refused, or there is no output. -/
  | failed (f : Fault) (hhalt : a.halt = some (.fault f)) (hbuf : left a.buffer)
      (hwhy : Refused mem f ∨ out = none)
  /-- The program stops in a run that is too long to be counted. -/
  | stopped (run : Run) (hhalt : a.halt = some .overflow) (hrun : run ∈ runs)
      (hlong : Uncountable run)

/-- All of the output is appended, or the attempt fails with the buffer as it was. -/
abbrev Settles (mem : Memory) (out : Option String) (runs : List Run) (b : Buffer) (a : Attempt) :
    Prop :=
  Ended mem out runs (· = b) b a

/-- As `Settles`, but part of the output may be left behind by a failure. -/
abbrev Breaks (mem : Memory) (out : Option String) (runs : List Run) (b : Buffer) (a : Attempt) :
    Prop :=
  Ended mem out runs (fun left => ∃ t, left = ⟨b.text ++ t⟩) b a

theorem settles_of_refusal {mem : Memory} {out : Option String} {runs : List Run} {b : Buffer}
    {n : Nat} {f : Fault} (h : b.refusal mem n = some f) :
    Settles mem out runs b (Buffer.failed b f) := by
  obtain ⟨hg, rfl⟩ := (b.refusal_eq_some_iff mem n f).mp h
  exact .failed _ rfl rfl (Or.inl ⟨b.size, n, hg, rfl⟩)

theorem settles_reserve (mem : Memory) (n : Nat) (b : Buffer) :
    Settles mem (some "") [] b (reserve mem n b) := by
  unfold reserve
  cases h : b.refusal mem n with
  | none => exact .appended "" rfl rfl (by rw [String.append_empty]; rfl)
  | some f => exact settles_of_refusal h

theorem settles_push (mem : Memory) (s : String) (b : Buffer) :
    Settles mem (some s) [] b (push mem s b) := by
  unfold push
  cases h : b.refusal mem s.utf8ByteSize with
  | none => exact .appended s rfl rfl rfl
  | some f => exact settles_of_refusal h

theorem settles_fill (mem : Memory) (c : Char) (n : Nat) (b : Buffer) :
    Settles mem (some (String.ofList (List.replicate n c))) [] b (fill mem c n b) := by
  unfold fill
  cases h : b.refusal mem (Memory.saturate (n * c.utf8Size)) with
  | none => exact .appended _ rfl rfl rfl
  | some f => exact settles_of_refusal h

theorem settles_putText (mem : Memory) (text : Option String) (b : Buffer) :
    Settles mem text [] b (putText mem text b) := by
  cases text with
  | none => exact .failed _ rfl rfl (Or.inr rfl)
  | some s => exact settles_push mem s b

theorem mem_of_uncountable {runs : List Run} {i : Nat} (h : Uncountable (runAt runs i)) :
    runAt runs i ∈ runs := by
  unfold runAt at h ⊢
  cases hi : runs[i]? with
  | some run => exact List.mem_of_getElem? hi
  | none =>
    cases hlast : runs.getLast? with
    | some run => exact List.mem_of_getLast? hlast
    | none =>
      rw [hi, hlast] at h
      exact absurd (show UInt64.size ≤ 0 + 1 from h) (by decide)

/-- The text that a schedule leaves is that of its first call to fit. -/
theorem settles_fit (mem : Memory) (guess : Nat) (runs : List Run) (b : Buffer) :
    Settles mem (some (Piece.layout (runAt runs (firstFit guess runs)))) runs b
      (fit mem guess runs b) := by
  obtain ⟨n, _, hover, hend⟩ := fit_cases mem guess runs b
  generalize fit mem guess runs b = a at hend
  cases hend with
  | refused h => exact .failed _ rfl rfl (Or.inl ⟨b.size, _, h, rfl⟩)
  | fits _ hf =>
    rw [firstFit_eq hover hf]
    exact .appended _ rfl rfl rfl
  | stops _ hs => exact .stopped _ rfl (mem_of_uncountable hs) hs

theorem settles_fit_singleton (mem : Memory) (guess : Nat) (run : Run) (b : Buffer) :
    Settles mem (some (Piece.layout run)) [run] b (fit mem guess [run] b) := by
  simpa only [runAt_singleton] using settles_fit mem guess [run] b

section Sequence

variable {α : Type} {mem : Memory} {put : α → Buffer → Attempt} {out : α → Option String}
  {runs : α → List Run}

/-- The outputs of a list in a row, if each of its members has one. -/
def joined (out : α → Option String) : List α → Option String
  | [] => some ""
  | x :: xs => (out x).bind fun s => (joined out xs).map (s ++ ·)

theorem joined_some (text : α → String) (xs : List α) :
    joined (fun x => some (text x)) xs = some (String.join (xs.map text)) := by
  induction xs with
  | nil => rfl
  | cons x xs ih => simp [joined, ih]

theorem joined_map_some (texts : List String) :
    joined id (texts.map some) = some (String.join texts) := by
  induction texts with
  | nil => rfl
  | cons t texts ih => simp [joined, ih]

/-- One thing after the other: what has been put stays until the cut. -/
theorem breaks_putEach (hput : ∀ x b, Settles mem (out x) (runs x) b (put x b)) (xs : List α)
    (b : Buffer) : Breaks mem (joined out xs) (xs.flatMap runs) b (putEach put xs b) := by
  induction xs generalizing b with
  | nil => exact .appended "" rfl rfl (by rw [String.append_empty]; rfl)
  | cons x xs ih =>
    cases hput x b with
    | appended s hs hhalt hbuf =>
      rw [putEach_cons_of_done hhalt, hbuf]
      cases ih ⟨b.text ++ s⟩ with
      | appended s' hs' hhalt hbuf =>
        exact .appended (s ++ s') (by simp [joined, hs, hs']) hhalt
          (by rw [hbuf, String.append_assoc])
      | failed f hhalt hbuf hwhy =>
        obtain ⟨t, ht⟩ := hbuf
        refine .failed f hhalt ⟨s ++ t, by rw [ht, String.append_assoc]⟩ ?_
        exact hwhy.imp_right fun hn => by simp [joined, hs, hn]
      | stopped run hhalt hrun hlong =>
        exact .stopped run hhalt (List.mem_append_right _ hrun) hlong
    | failed f hhalt hbuf hwhy =>
      rw [putEach_cons_of_halted hhalt]
      refine .failed f hhalt ⟨"", by rw [hbuf, String.append_empty]⟩ ?_
      exact hwhy.imp_right fun hn => by simp [joined, hn]
    | stopped run hhalt hrun hlong =>
      rw [putEach_cons_of_halted hhalt]
      exact .stopped run hhalt (List.mem_append_left _ hrun) hlong

theorem settles_putAll (hput : ∀ x b, Settles mem (out x) (runs x) b (put x b)) (xs : List α)
    (b : Buffer) : Settles mem (joined out xs) (xs.flatMap runs) b (putAll put xs b) := by
  unfold putAll
  cases breaks_putEach hput xs b with
  | appended s hs hhalt hbuf =>
    rw [orTruncate_of_done hhalt]
    exact .appended s hs hhalt hbuf
  | failed f hhalt hbuf hwhy =>
    obtain ⟨t, ht⟩ := hbuf
    rw [orTruncate_of_failed hhalt]
    exact .failed f hhalt (by rw [ht]; exact b.truncate_append t) hwhy
  | stopped run hhalt hrun hlong =>
    rw [orTruncate_of_stopped hhalt]
    exact .stopped run hhalt hrun hlong

end Sequence

theorem settles_pushFormatted (mem : Memory) (texts : List (Option String)) (b : Buffer) :
    Settles mem (joined id texts) [] b (pushFormatted mem texts b) := by
  have hruns : (texts.flatMap fun _ => ([] : List Run)) = [] :=
    List.flatMap_eq_nil_iff.mpr (by simp)
  have h : Settles mem (joined id texts) (texts.flatMap fun _ => []) b
      (pushFormatted mem texts b) :=
    settles_putAll (settles_putText mem) texts b
  rwa [hruns] at h

theorem settles_putSpan (mem : Memory) (guess : Nat) (span : Span) (b : Buffer) :
    Settles mem (some span.text) span.runs b (putSpan mem guess span b) := by
  cases span with
  | direct s => exact settles_push mem s b
  | formatted texts =>
    have h := settles_pushFormatted mem (texts.map some) b
    rwa [joined_map_some] at h
  | fragment run => exact settles_fit_singleton mem guess run b

/-- The output of a step; a writer that fails by itself has none. -/
def Step.output? : Step → Option String
  | .reserve _ => some ""
  | .push s => some s
  | .pushChar c => some (String.singleton c)
  | .fill c n => some (String.ofList (List.replicate n c))
  | .format texts => joined id texts
  | .fit guess runs => some (Piece.layout (runAt runs (firstFit guess runs)))
  | .node s depth n => some (Piece.layout (n.run s depth))
  | .type s depth t => some (Piece.layout (t.run s depth))
  | .binding s depth x => some (Piece.layout (x.run s depth))
  | .listing s m => some (m.text s)

/-- The runs that a step has to fit in. -/
def Step.runs : Step → List Run
  | .fit _ runs => runs
  | .node s depth n => [n.run s depth]
  | .type s depth t => [t.run s depth]
  | .binding s depth x => [x.run s depth]
  | .listing s m => (m.spans s).flatMap Span.runs
  | _ => []

/-- The bytes asked for by a step that makes just one request and that directly. -/
def Step.request? : Step → Option Nat
  | .reserve n => some n
  | .push s => some s.utf8ByteSize
  | .pushChar c => some c.utf8Size
  | .fill c n => some (Memory.saturate (n * c.utf8Size))
  | _ => none

theorem settles_putModule (mem : Memory) (s : Settings) (m : Ir.Module) (b : Buffer) :
    Settles mem (some (m.text s)) ((m.spans s).flatMap Span.runs) b (putModule mem s m b) := by
  have h := settles_putAll (settles_putSpan mem s.initialGuess.toNat) (m.spans s) b
  rw [joined_some] at h
  exact h

/-- A listing that succeeds is appended as a whole. -/
theorem buffer_of_putModule {mem : Memory} {s : Settings} {m : Ir.Module} {b : Buffer}
    (hdone : (putModule mem s m b).fault = none) :
    (putModule mem s m b).buffer = ⟨b.text ++ m.text s⟩ := by
  rw [Attempt.fault_eq_none_iff] at hdone
  cases settles_putModule mem s m b with
  | appended t ht _ hbuf =>
    rw [Option.some.inj ht]
    exact hbuf
  | failed f hhalt _ _ =>
    rw [hdone] at hhalt
    cases hhalt
  | stopped run hhalt _ _ =>
    rw [hdone] at hhalt
    cases hhalt

theorem settles_step (mem : Memory) (s : Step) (b : Buffer) :
    Settles mem s.output? s.runs b (step mem s b) := by
  cases s with
  | reserve n => exact settles_reserve mem n b
  | push s => exact settles_push mem s b
  | pushChar c => exact settles_push mem (String.singleton c) b
  | fill c n => exact settles_fill mem c n b
  | format texts => exact settles_pushFormatted mem texts b
  | fit guess runs => exact settles_fit mem guess runs b
  | node s depth n => exact settles_fit_singleton mem _ (n.run s depth) b
  | type s depth t => exact settles_fit_singleton mem _ (t.run s depth) b
  | binding s depth x => exact settles_fit_singleton mem _ (x.run s depth) b
  | listing s m => exact settles_putModule mem s m b

/-- A direct step fails exactly if its one request is refused, and never stops the program. -/
theorem halt_step_of_request (mem : Memory) (s : Step) (b : Buffer) (k : Nat)
    (h : s.request? = some k) : (step mem s b).halt = (b.refusal mem k).map Halt.fault := by
  cases s <;> simp only [Step.request?, Option.some.injEq, reduceCtorEq] at h <;> subst k
  case reserve n =>
    simp only [step, reserve]
    cases b.refusal mem n <;> rfl
  case push s =>
    simp only [step, push]
    cases b.refusal mem s.utf8ByteSize <;> rfl
  case pushChar c =>
    simp only [step, push, String.utf8ByteSize_singleton]
    cases b.refusal mem c.utf8Size <;> rfl
  case fill c n =>
    simp only [step, fill]
    cases b.refusal mem (Memory.saturate (n * c.utf8Size)) <;> rfl

/-- The buffers of a run, the first one included; a step in which the program stops leaves none. -/
def states (script : List (Memory × Step)) (b : Buffer) : List Buffer :=
  b :: ((trace script b).filter (!·.isStopped)).map Attempt.buffer

theorem trace_cons_of_stopped {mem : Memory} {s : Step} {b : Buffer}
    (h : (step mem s b).isStopped = true) (script : List (Memory × Step)) :
    trace ((mem, s) :: script) b = [step mem s b] := by
  rw [trace, if_pos h]

theorem trace_cons_of_returned {mem : Memory} {s : Step} {b : Buffer}
    (h : (step mem s b).isStopped = false) (script : List (Memory × Step)) :
    trace ((mem, s) :: script) b = step mem s b :: trace script (step mem s b).buffer := by
  rw [trace, h]
  rfl

theorem states_cons_of_stopped {mem : Memory} {s : Step} {b : Buffer}
    (h : (step mem s b).isStopped = true) (script : List (Memory × Step)) :
    states ((mem, s) :: script) b = [b] := by
  rw [states, trace_cons_of_stopped h, List.filter_cons_of_neg (by rw [h]; decide)]
  rfl

theorem states_cons_of_returned {mem : Memory} {s : Step} {b : Buffer}
    (h : (step mem s b).isStopped = false) (script : List (Memory × Step)) :
    states ((mem, s) :: script) b = b :: states script (step mem s b).buffer := by
  rw [states, trace_cons_of_returned h, List.filter_cons_of_pos (by rw [h]; rfl), List.map_cons]
  rfl

/-- What a step does to a buffer. Its output is appended as a whole or not at all, and a direct
request that is refused is reported with the size it would have led to. -/
structure AllOrNothing (mem : Memory) (s : Step) (old : Buffer) (a : Attempt) : Prop where
  settles : Settles mem s.output? s.runs old a
  refusal : ∀ k, s.request? = some k → a.halt =
    if mem.grants old.size k then none
    else some (.fault (.outOfMemory (Memory.saturate (old.size + k))))

theorem allOrNothing_step (mem : Memory) (s : Step) (b : Buffer) :
    AllOrNothing mem s b (step mem s b) where
  settles := settles_step mem s b
  refusal k hk := by
    rw [halt_step_of_request mem s b k hk, refusal]
    split <;> rfl

theorem Settles.exists_append {mem : Memory} {out : Option String} {runs : List Run} {b : Buffer}
    {a : Attempt} (h : Settles mem out runs b a) (hreturned : a.isStopped = false) :
    ∃ t, a.buffer.text = b.text ++ t := by
  cases h with
  | appended s _ _ hbuf => exact ⟨s, by rw [hbuf]⟩
  | failed f _ hbuf _ => exact ⟨"", by rw [hbuf, String.append_empty]⟩
  | stopped run hhalt _ _ =>
    rw [Attempt.isStopped, hhalt] at hreturned
    cases hreturned

theorem extends_of_mem_states {script : List (Memory × Step)} {b x : Buffer}
    (h : x ∈ states script b) : ∃ t, x.text = b.text ++ t := by
  induction script generalizing b with
  | nil =>
    rw [List.mem_singleton.mp h]
    exact ⟨"", (String.append_empty).symm⟩
  | cons e script ih =>
    obtain ⟨mem, s⟩ := e
    cases hstop : (step mem s b).isStopped with
    | true =>
      rw [states_cons_of_stopped hstop] at h
      rw [List.mem_singleton.mp h]
      exact ⟨"", (String.append_empty).symm⟩
    | false =>
      rw [states_cons_of_returned hstop] at h
      rcases List.mem_cons.mp h with rfl | h
      · exact ⟨"", (String.append_empty).symm⟩
      · obtain ⟨t, ht⟩ := (settles_step mem s b).exists_append hstop
        obtain ⟨t', ht'⟩ := ih h
        exact ⟨t ++ t', by rw [ht', ht, String.append_assoc]⟩

/-- In every run each step leaves the old text followed by its complete output, or exactly the
old text; so the earlier texts of a run are all beginnings of the later ones. All steps are made,
unless the program stops in one. -/
theorem trace_append_only (script : List (Memory × Step)) (b : Buffer) :
    List.Forall₂ (fun before a => AllOrNothing before.1.1 before.1.2 before.2 a)
        (script.zip (states script b)) (trace script b) ∧
      ((states script b).Pairwise fun x y => ∃ t, y.text = x.text ++ t) ∧
      ((∀ a ∈ trace script b, a.isStopped = false) → (trace script b).length = script.length) := by
  induction script generalizing b with
  | nil => exact ⟨List.Forall₂.nil, List.pairwise_singleton _ _, fun _ => rfl⟩
  | cons e script ih =>
    obtain ⟨mem, s⟩ := e
    obtain ⟨hsteps, hchain, hlength⟩ := ih (step mem s b).buffer
    cases hstop : (step mem s b).isStopped with
    | true =>
      rw [states_cons_of_stopped hstop, trace_cons_of_stopped hstop]
      refine ⟨?_, List.pairwise_singleton _ _, fun hall => ?_⟩
      · rw [List.zip_cons_cons, List.zip_nil_right]
        exact List.Forall₂.cons (allOrNothing_step mem s b) List.Forall₂.nil
      · rw [hall _ (List.mem_singleton_self _)] at hstop
        cases hstop
    | false =>
      have hmem := states_cons_of_returned hstop script
      rw [hmem, trace_cons_of_returned hstop]
      refine ⟨List.Forall₂.cons (allOrNothing_step mem s b) hsteps, ?_, fun hall => ?_⟩
      · refine List.pairwise_cons.mpr ⟨fun x hx => ?_, hchain⟩
        exact extends_of_mem_states (hmem ▸ List.mem_cons_of_mem b hx)
      · rw [List.length_cons, List.length_cons,
          hlength fun a ha => hall a (List.mem_cons_of_mem _ ha)]

end Buffer

end CodeDump
