import CodeDump.Command.Run
import CodeDump.Proofs.Paths

/-!
# A command delivers everything or nothing

A run has four stages that can fail: the configuration is loaded, the input is loaded, the dump is
made, the output is written. `Runs` says what comes of a command, stage by stage and in terms of
what the files hold; the run itself is shown to be exactly that. A stage that fails leaves the files
as they are, also where the output is the very file that was read.

What becomes of the text is told by `Emits`. A device takes it without a file being changed, and
standard output may break off: the program then stops where it prints, but where the text is written
to the device of standard output this is a fault like any other.
-/

namespace CodeDump

namespace World

theorem toList_loop (bytes : ByteArray) (i : Nat) (acc : List UInt8) :
    ByteArray.toList.loop bytes i acc = acc.reverse ++ bytes.data.toList.drop i := by
  fun_induction ByteArray.toList.loop bytes i acc with
  | case1 i acc hi ih =>
    have hi' : i < bytes.data.toList.length := by simpa using hi
    rw [ih, List.reverse_cons, List.append_assoc, List.singleton_append,
      List.drop_eq_getElem_cons hi']
    congr 2
    exact getElem!_pos bytes.data i hi
  | case2 i acc hi =>
    have hi' : bytes.data.toList.length ≤ i := by simpa using hi
    rw [List.drop_eq_nil_of_le hi', List.append_nil]

theorem toArray_utf8 (t : String) : (⟨(utf8 t).toArray⟩ : ByteArray) = t.toByteArray := by
  rw [utf8, ByteArray.toList, toList_loop]
  rfl

/-- Bytes are read as a text exactly when they are its encoding. -/
theorem fromUTF8?_eq_some_iff (bytes : List UInt8) (t : String) :
    String.fromUTF8? ⟨bytes.toArray⟩ = some t ↔ bytes = utf8 t := by
  unfold String.fromUTF8?
  constructor
  · intro h
    split_ifs at h with hvalid
    have hbytes : (⟨bytes.toArray⟩ : ByteArray) = ⟨(utf8 t).toArray⟩ := by
      rw [toArray_utf8]
      exact congrArg String.toByteArray (Option.some.inj h)
    exact congrArg (fun b : ByteArray => b.data.toList) hbytes
  · rintro rfl
    have hvalid : (⟨(utf8 t).toArray⟩ : ByteArray).IsValidUTF8 := by
      rw [toArray_utf8]
      exact t.isValidUTF8
    rw [dif_pos hvalid, Option.some.injEq]
    exact String.toByteArray_inj.mp (toArray_utf8 t)

section CarryOut

variable {α β : Type} {x : ExceptT Halt (StateM World) α} {f : α → ExceptT Halt (StateM World) β}
  {w w' : World}

/-- What comes of part of a command in a world. -/
def carryOut (w : World) (x : ExceptT Halt (StateM World) α) : Except Halt α × World :=
  x.run.run w

theorem carryOut_bind_of_ok {a : α} (h : w.carryOut x = (.ok a, w')) :
    w.carryOut (x >>= f) = w'.carryOut (f a) := by
  unfold carryOut at h ⊢
  rw [ExceptT.run_bind, StateT.run_bind]
  simp only [h, bind]

theorem carryOut_bind_of_error {r : Halt} (h : w.carryOut x = (.error r, w')) :
    w.carryOut (x >>= f) = (.error r, w') := by
  unfold carryOut at h ⊢
  rw [ExceptT.run_bind, StateT.run_bind]
  simp only [h, bind]
  rfl

end CarryOut

section Operations

variable (console : Console) (w : World)

theorem carryOut_read (path : String) :
    w.carryOut (ExceptT.lift ((host console).read path)) =
      (.ok ((w.store.read path).mapError PathFault.reason), w) := rfl

theorem carryOut_write (path t : String) :
    w.carryOut (ExceptT.lift ((host console).write path t)) =
      (.ok (w.write console path t).1, (w.write console path t).2) := rfl

theorem carryOut_print (t : String) :
    w.carryOut (ExceptT.lift ((host console).print t)) =
      (.ok (console.take t).2, { w with stdout := w.stdout ++ (console.take t).1 }) := rfl

end Operations

end World

namespace Console

/-- All of a text gets on standard output. -/
def Takes (c : Console) (t : String) : Prop := ∀ n ∈ c.room, t.utf8ByteSize ≤ n

theorem take_of_takes {c : Console} {t : String} (h : c.Takes t) : c.take t = (t, true) := by
  obtain ⟨room, shows⟩ := c
  cases room with
  | none => rfl
  | some n => exact if_pos (h n rfl)

/-- Only a beginning of a text gets on standard output. -/
structure Cuts (c : Console) (t cut : String) : Prop where
  not_takes : ¬ c.Takes t
  take : c.take t = (cut, false)
  start : cut.toList <+: t.toList

end Console

namespace Command

open World

section Load

variable {α : Type} [Stored α] {w : World} {path : String} (console : Console)

theorem load_of_error {f : PathFault} (h : w.store.read path = .error f) :
    w.carryOut (load (host console) α path) = (.error (.fault (.io path f.reason)), w) := by
  apply carryOut_bind_of_error
  apply (carryOut_bind_of_ok (carryOut_read console w path)).trans
  rw [h]
  rfl

/-- A file holds a value: its bytes are a text, and the text is one of the value. -/
def FileHolds (store : Store) (path : String) (a : α) : Prop :=
  ∃ t, store.read path = .ok (utf8 t) ∧ Stored.read? t = some a

/-- Why a file holds no value of a kind. -/
inductive Unusable (α : Type) [Stored α] (store : Store) (path : String) : Fault → Prop
  | unreadable {f : PathFault} (h : store.read path = .error f) :
      Unusable α store path (.io path f.reason)
  | notText {bytes : List UInt8} (h : store.read path = .ok bytes) (ht : ∀ t, bytes ≠ utf8 t) :
      Unusable α store path (.io path "stream did not contain valid UTF-8")
  | malformed {t : String} (h : store.read path = .ok (utf8 t))
      (hm : (Stored.read? t : Option α) = none) : Unusable α store path (Stored.malformed α)

theorem load_of_notText {bytes : List UInt8} (h : w.store.read path = .ok bytes)
    (ht : ∀ t, bytes ≠ utf8 t) :
    w.carryOut (load (host console) α path) =
      (.error (.fault (.io path "stream did not contain valid UTF-8")), w) := by
  have hnone : String.fromUTF8? ⟨bytes.toArray⟩ = none := by
    apply Option.eq_none_iff_forall_ne_some.mpr
    intro t
    exact mt (fromUTF8?_eq_some_iff bytes t).mp (ht t)
  apply carryOut_bind_of_error
  apply (carryOut_bind_of_ok (carryOut_read console w path)).trans
  simp only [h, Except.mapError, hnone]
  rfl

theorem load_of_text {t : String} (h : w.store.read path = .ok (utf8 t)) :
    w.carryOut (load (host console) α path) = ((Stored.read t).mapError .fault, w) := by
  have hsome := (fromUTF8?_eq_some_iff (utf8 t) t).mpr rfl
  have htext : w.carryOut (readText (host console) path) = (.ok t, w) := by
    apply (carryOut_bind_of_ok (carryOut_read console w path)).trans
    simp only [h, Except.mapError, hsome]
    rfl
  apply (carryOut_bind_of_ok htext).trans
  cases Stored.read (α := α) t <;> rfl

theorem FileHolds.load_eq {a : α} (h : FileHolds w.store path a) :
    w.carryOut (load (host console) α path) = (.ok a, w) := by
  obtain ⟨t, hread, hvalue⟩ := h
  rw [load_of_text console hread, Stored.read, hvalue]
  rfl

theorem Unusable.load_eq {f : Fault} (h : Unusable α w.store path f) :
    w.carryOut (load (host console) α path) = (.error (.fault f), w) := by
  cases h with
  | unreadable h => exact load_of_error console h
  | notText h ht => exact load_of_notText console h ht
  | malformed h hm =>
    rw [load_of_text console h, Stored.read, hm]
    rfl

end Load

section Stages

variable (mem : Memory) (console : Console) (store : Store)

/-- The settings that a configuration stands for; without one they are the default. -/
inductive Configures : Option String → Settings → Prop
  | default : Configures none .default
  | file {path : String} {s : Settings} (h : FileHolds store path s) : Configures (some path) s

/-- Why there is nothing to print. -/
inductive Lacks : Action → Fault → Prop
  | ast {file : String} {depth : UInt32} {step : Option LoopStep} {output : Option String}
      {f : Fault} (h : Unusable Node store file f) : Lacks (.ast file depth step output) f
  | ir {file : String} {output : Option String} {f : Fault} (h : Unusable Ir.Module store file f) :
      Lacks (.ir file output) f

/-- What an action prints: the dump of what its file holds. The loop step of the command line comes
before that of the settings. -/
inductive Prints (s : Settings) : Action → Except Halt String → Prop
  | ast {file : String} {depth : UInt32} {step : Option LoopStep} {output : Option String}
      {n : Node} (h : FileHolds store file n) :
      Prints s (.ast file depth step output) (n.render mem (step.elim s s.withLoopStep) depth.toNat)
  | ir {file : String} {output : Option String} {m : Ir.Module} (h : FileHolds store file m) :
      Prints s (.ir file output) (m.render mem s)

/-- What becomes of a text. -/
inductive Emits (t : String) : Option String → Except Halt Unit → World → Prop
  | shown (h : console.Takes (t ++ "\n")) : Emits t none (.ok ()) ⟨store, t ++ "\n"⟩
  | brokenOff {cut : String} (h : console.Cuts (t ++ "\n") cut) :
      Emits t none (.error printFailed) ⟨store, cut⟩
  | unwritten {path : String} {f : PathFault} (h : store.target path = .error f) :
      Emits t (some path) (.error (.fault (.io path f.reason))) ⟨store, ""⟩
  | stored {path : String} {place : Place} {store' : Store}
      (h : store.Delivers path (utf8 t) store' place) : Emits t (some path) (.ok ()) ⟨store', ""⟩
  | dropped {path : String} (h : store.target path = .ok (.device .null)) :
      Emits t (some path) (.ok ()) ⟨store, ""⟩
  | passed {path : String} (h : store.target path = .ok (.device .output)) (ht : console.Takes t) :
      Emits t (some path) (.ok ()) ⟨store, t⟩
  | stuffed {path cut : String} (h : store.target path = .ok (.device .output))
      (ht : console.Cuts t cut) :
      Emits t (some path) (.error (.fault (.io path PathFault.full.reason))) ⟨store, cut⟩

/-- How a command ends, and in which world. -/
inductive Runs (c : Command) : Except Halt Unit → World → Prop
  | misconfigured {path : String} {f : Fault} (hc : c.config = some path)
      (h : Unusable Settings store path f) : Runs c (.error (.fault f)) ⟨store, ""⟩
  | lacking {s : Settings} {f : Fault} (hs : Configures store c.config s)
      (h : Lacks store c.action f) : Runs c (.error (.fault f)) ⟨store, ""⟩
  | unprinted {s : Settings} {r : Halt} (hs : Configures store c.config s)
      (h : Prints mem store s c.action (.error r)) : Runs c (.error r) ⟨store, ""⟩
  | emitted {s : Settings} {t : String} {r : Except Halt Unit} {w : World}
      (hs : Configures store c.config s) (h : Prints mem store s c.action (.ok t))
      (he : Emits console store t c.output? r w) : Runs c r w

end Stages

section Run

variable {mem : Memory} (console : Console) {store : Store} {s : Settings} {c : Command}

theorem Configures.settings_eq {w : World} {config : Option String}
    (h : Configures w.store config s) :
    w.carryOut (settings (host console) config) = (.ok s, w) := by
  cases h with
  | default => rfl
  | file h => exact h.load_eq console

theorem Lacks.text_eq {w : World} {action : Action} {f : Fault} (h : Lacks w.store action f) :
    w.carryOut (text (host console) mem s action) = (.error (.fault f), w) := by
  cases h with
  | ast h => exact carryOut_bind_of_error (h.load_eq console)
  | ir h => exact carryOut_bind_of_error (h.load_eq console)

theorem Prints.text_eq {w : World} {action : Action} {r : Except Halt String}
    (h : Prints mem w.store s action r) :
    w.carryOut (text (host console) mem s action) = (r, w) := by
  cases h with
  | ast h => exact carryOut_bind_of_ok (h.load_eq console)
  | ir h => exact carryOut_bind_of_ok (h.load_eq console)

theorem emit_none (w : World) (t : String) :
    w.carryOut (emit (host console) none t) =
      (if (console.take (t ++ "\n")).2 then .ok () else .error printFailed,
        { w with stdout := w.stdout ++ (console.take (t ++ "\n")).1 }) := by
  apply (carryOut_bind_of_ok (carryOut_print console w (t ++ "\n"))).trans
  cases (console.take (t ++ "\n")).2 <;> rfl

theorem emit_some (w : World) (path t : String) :
    w.carryOut (emit (host console) (some path) t) =
      ((w.write console path t).1.mapError fun reason => .fault (.io path reason),
        (w.write console path t).2) := by
  apply (carryOut_bind_of_ok (carryOut_write console w path t)).trans
  cases (w.write console path t).1 <;> rfl

theorem Emits.emit_eq {t : String} {output : Option String} {r : Except Halt Unit} {w : World}
    (h : Emits console store t output r w) :
    (⟨store, ""⟩ : World).carryOut (emit (host console) output t) = (r, w) := by
  cases h with
  | shown h => rw [emit_none, Console.take_of_takes h, String.empty_append]; rfl
  | brokenOff h => rw [emit_none, h.take, String.empty_append]; rfl
  | unwritten h => rw [emit_some]; simp only [write, h]; rfl
  | stored h => rw [emit_some]; simp only [write, h.target, h.saved]; rfl
  | dropped h => rw [emit_some]; simp only [write, h]; rfl
  | passed h ht => rw [emit_some]; simp only [write, h, print, Console.take_of_takes ht]; rfl
  | stuffed h ht => rw [emit_some]; simp only [write, h, print, ht.take]; rfl

/-- The run does what is said of it. -/
theorem Runs.perform_eq {r : Except Halt Unit} {w : World} (h : Runs mem console store c r w) :
    (⟨store, ""⟩ : World).carryOut (c.perform (host console) mem) = (r, w) := by
  cases h with
  | misconfigured hc h =>
    apply carryOut_bind_of_error
    rw [hc]
    exact h.load_eq console
  | lacking hs h =>
    apply (carryOut_bind_of_ok (hs.settings_eq console)).trans
    exact carryOut_bind_of_error (h.text_eq console)
  | unprinted hs h =>
    apply (carryOut_bind_of_ok (hs.settings_eq console)).trans
    exact carryOut_bind_of_error (h.text_eq console)
  | emitted hs h he =>
    apply (carryOut_bind_of_ok (hs.settings_eq console)).trans
    apply (carryOut_bind_of_ok (h.text_eq console)).trans
    exact he.emit_eq console

theorem Runs.run_eq {r : Except Halt Unit} {w : World} (h : Runs mem console store c r w) :
    c.run mem store console = .ended console r w := by
  have hperform := h.perform_eq
  unfold carryOut at hperform
  rw [run, hperform]

end Run

end Command

end CodeDump
