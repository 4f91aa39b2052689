import CodeDump.Proofs.Rendering

/-!
# Listings know no settings

A listing is made of plain text and of fragments, and the fragments are types and parameters
printed by the tree printer, which has settings. At the depth of a fragment none of them is ever
looked at: no struct is opened, so no line is started; no initializer is shown, so no loop is
reached. The spans of a module are therefore the same under all settings, and columns are counted
within the line, so they are the same behind every text.

What is left of the settings is the size of the first window. With memory for it and for the
listing itself, every module is appended as one and the same text, `Module.listing`.
-/

namespace CodeDump

section Fragments

variable (s s' : Settings) (level level' : Nat)

mutual

theorem Ty.pieces_one_eq :
    ∀ t : Ty, t.pieces s level 1 = t.pieces s' level' 1
  | .prim _ | .unknown | .unresolved _ | .struct _ _ | .named _ _ => rfl
  | .func params result => by
    have hp := Binding.grouped_one_eq params
    have hr := Ty.pieces_one_eq result
    simp only [Ty.pieces, hp, hr]
  | .array elem _ | .slice elem _ | .pointer elem | .reference elem _ | .optional elem => by
    have he := Ty.pieces_one_eq elem
    simp only [Ty.pieces, he]
termination_by structural t => t

theorem TypeRef.pieces_one_eq : ∀ r : TypeRef, r.pieces s level 1 = r.pieces s' level' 1
  | ⟨_, t⟩ => Ty.pieces_one_eq t
termination_by structural r => r

theorem TypeRef.piecesOr_one_eq :
    ∀ r : Option TypeRef, TypeRef.piecesOr s level 1 r = TypeRef.piecesOr s' level' 1 r
  | none => rfl
  | some r => TypeRef.pieces_one_eq r
termination_by structural r => r

theorem Binding.groupedType_one_eq (next : Option Binding) :
    ∀ b : Binding,
      Binding.groupedType s level 1 next b = Binding.groupedType s' level' 1 next b
  | ⟨_, ty, _⟩ => by
    have ht := TypeRef.piecesOr_one_eq ty
    simp only [Binding.groupedType, ht]
termination_by structural b => b

theorem Binding.grouped_one_eq :
    ∀ bs : List Binding, Binding.grouped s level 1 bs = Binding.grouped s' level' 1 bs
  | [] => rfl
  | b :: rest => by
    have hb := Binding.groupedType_one_eq rest.head? b
    have hr := Binding.grouped_one_eq rest
    simp only [Binding.grouped, hb, hr]
termination_by structural bs => bs

end

/-- An initializer is left out at depth one, so its settings do not matter either. -/
theorem Binding.pieces_one_eq (b : Binding) : b.pieces s level 1 = b.pieces s' level' 1 := by
  obtain ⟨name, ty, init⟩ := b
  have ht := TypeRef.piecesOr_one_eq s s' level level' ty
  cases init with
  | none => simp only [Binding.pieces, ht]
  | some value =>
    simp only [Binding.pieces, ht, le_refl, if_true]

end Fragments

namespace Ir

section Spans

variable (s s' : Settings)

theorem typeRun_eq (t : Ty) : typeRun s t = typeRun s' t := t.pieces_one_eq s s' 0 0

theorem paramRun_eq (b : Binding) : paramRun s b = paramRun s' b := b.pieces_one_eq s s' 0 0

theorem Value.spans_eq (v : Value) : v.spans s = v.spans s' := by
  simp only [Value.spans, typeRun_eq s s']

theorem Block.spans_eq (b : Block) : b.spans s = b.spans s' := by
  have hvalues : Value.spans s = Value.spans s' := funext (Value.spans_eq s s')
  simp only [Block.spans, hvalues]

theorem Func.paramSpans_eq : ∀ bs : List Binding, paramSpans s bs = paramSpans s' bs
  | [] => rfl
  | [b] => by
    rw [paramSpans, paramSpans, paramRun_eq s s']
  | b :: c :: rest => by
    have hrest := Func.paramSpans_eq (c :: rest)
    change [_, _] ++ paramSpans s (c :: rest) = [_, _] ++ paramSpans s' (c :: rest)
    rw [hrest, paramRun_eq s s']

theorem Func.spans_eq (f : Func) : f.spans s = f.spans s' := by
  have hsignature : f.signatureSpans s = f.signatureSpans s' := by
    unfold Func.signatureSpans
    split
    · rw [paramSpans_eq s s', typeRun_eq s s']
    · rfl
  have hblocks : Block.spans s = Block.spans s' := funext (Block.spans_eq s s')
  simp only [Func.spans, hsignature, hblocks]

theorem Module.spans_eq (m : Module) : m.spans s = m.spans s' := by
  have hfuncs : Func.spans s = Func.spans s' := funext (Func.spans_eq s s')
  simp only [Module.spans, hfuncs]

end Spans

/-- The text of a module under any settings. -/
def Module.listing (m : Module) : String := m.text .default

theorem Module.text_eq_listing (s : Settings) (m : Module) : m.text s = m.listing := by
  rw [Module.listing, Module.text, Module.text, m.spans_eq s .default]

end Ir

namespace Buffer

/-- While between `low` and `high` bytes are held, the first window of the settings is granted,
and so is everything that leads to at most one byte more than `high`. -/
structure Ample (mem : Memory) (s : Settings) (low high : Nat) : Prop where
  window : ∀ held, low ≤ held → held ≤ high → mem.grants held (max s.initialGuess.toNat 1) = true
  bytes : ∀ held n, low ≤ held → held + n ≤ high + 1 → mem.grants held n = true

section Granted

variable {mem : Memory} {s : Settings} {low high : Nat}

theorem size_append (b : Buffer) (t : String) :
    (⟨b.text ++ t⟩ : Buffer).size = b.size + t.utf8ByteSize :=
  String.utf8ByteSize_append

/-- Things that are each appended while there is memory are appended one after the other. -/
theorem putAll_of_appended {α : Type} (put : α → Buffer → Attempt) (text : α → String)
    (xs : List α) (b : Buffer)
    (hput : ∀ x ∈ xs, ∀ b : Buffer, low ≤ b.size → b.size + (text x).utf8ByteSize ≤ high →
      (put x b).halt = none ∧ (put x b).buffer = ⟨b.text ++ text x⟩)
    (hlow : low ≤ b.size) (hhigh : b.size + (String.join (xs.map text)).utf8ByteSize ≤ high) :
    (putAll put xs b).halt = none ∧
      (putAll put xs b).buffer = ⟨b.text ++ String.join (xs.map text)⟩ := by
  have heach : (putEach put xs b).halt = none ∧
      (putEach put xs b).buffer = ⟨b.text ++ String.join (xs.map text)⟩ := by
    induction xs generalizing b with
    | nil =>
      refine ⟨rfl, ?_⟩
      rw [List.map_nil, String.join_nil, String.append_empty]
      rfl
    | cons x xs ih =>
      rw [List.map_cons, String.join_cons, String.utf8ByteSize_append] at hhigh
      obtain ⟨hhalt, hbuffer⟩ := hput x List.mem_cons_self b hlow (by omega)
      have hsize := b.size_append (text x)
      rw [putEach_cons_of_done hhalt, hbuffer, List.map_cons, String.join_cons,
        ← String.append_assoc]
      apply ih
      · exact fun y hy => hput y (List.mem_cons_of_mem x hy)
      · omega
      · omega
  rw [putAll, orTruncate_of_done heach.1]
  exact heach

theorem push_of_granted {t : String} {b : Buffer}
    (h : mem.grants b.size t.utf8ByteSize = true) :
    (push mem t b).halt = none ∧ (push mem t b).buffer = ⟨b.text ++ t⟩ := by
  rw [push, (b.refusal_eq_none_iff mem t.utf8ByteSize).mpr h]
  exact ⟨rfl, rfl⟩

/-- The texts of a format string that are all granted are appended. -/
theorem pushFormatted_of_granted {texts : List String} {b : Buffer}
    (h : ∀ held, ∀ t ∈ texts, low ≤ held → held + t.utf8ByteSize ≤ high →
      mem.grants held t.utf8ByteSize = true)
    (hlow : low ≤ b.size) (hhigh : b.size + (String.join texts).utf8ByteSize ≤ high) :
    (pushFormatted mem (texts.map some) b).halt = none ∧
      (pushFormatted mem (texts.map some) b).buffer = ⟨b.text ++ String.join texts⟩ := by
  have htexts : (texts.map some).map (fun t => t.getD "") = texts := by
    rw [List.map_map]
    exact List.map_id texts
  have hput : ∀ t ∈ texts.map some, ∀ b : Buffer, low ≤ b.size →
      b.size + (t.getD "").utf8ByteSize ≤ high →
      (putText mem t b).halt = none ∧ (putText mem t b).buffer = ⟨b.text ++ t.getD ""⟩ := by
    intro written hwritten b hlow hhigh
    obtain ⟨t, ht, rfl⟩ := List.mem_map.mp hwritten
    exact push_of_granted (h b.size t ht hlow hhigh)
  have hall := putAll_of_appended (putText mem) (fun t => t.getD "") _ b hput hlow
    (by rw [htexts]; exact hhigh)
  rwa [htexts] at hall

/-- One span with enough memory is appended. -/
theorem putSpan_of_ample (h : Ample mem s low high) (span : Span) (b : Buffer)
    (hlow : low ≤ b.size) (hhigh : b.size + span.text.utf8ByteSize ≤ high) :
    (putSpan mem s.initialGuess.toNat span b).halt = none ∧
      (putSpan mem s.initialGuess.toNat span b).buffer = ⟨b.text ++ span.text⟩ := by
  have hbytes (held : Nat) (t : String) (hlow : low ≤ held)
      (hhigh : held + t.utf8ByteSize ≤ high) : mem.grants held t.utf8ByteSize = true :=
    h.bytes held t.utf8ByteSize hlow (Nat.le_succ_of_le hhigh)
  cases span with
  | direct t => exact push_of_granted (hbytes b.size t hlow hhigh)
  | formatted texts =>
    exact pushFormatted_of_granted (fun held t _ => hbytes held t) hlow hhigh
  | fragment run =>
    have haccepted : Accepted mem s b (Piece.layout run) := by
      refine ⟨h.window b.size hlow (by omega), fun _ => ?_⟩
      apply h.bytes b.size _ hlow
      rw [Span.text_fragment] at hhigh
      omega
    have hrenders := renders_putRun mem s run b haccepted
    exact ⟨(Attempt.fault_eq_none_iff _).mp hrenders.fault, congrArg Buffer.mk hrenders.text⟩

end Granted

/-- Memory for a whole listing behind a buffer. -/
abbrev Accommodates (mem : Memory) (s : Settings) (b : Buffer) (t : String) : Prop :=
  Ample mem s b.size (b.size + t.utf8ByteSize)

theorem putModule_of_accommodates {mem : Memory} {s : Settings} {m : Ir.Module} {b : Buffer}
    (h : Accommodates mem s b m.listing) :
    (putModule mem s m b).fault = none ∧
      (putModule mem s m b).buffer = ⟨b.text ++ m.listing⟩ := by
  have htext : String.join ((m.spans s).map Span.text) = m.listing := m.text_eq_listing s
  have hput := putAll_of_appended (putSpan mem s.initialGuess.toNat) Span.text (m.spans s) b
    (fun span _ => putSpan_of_ample h span) le_rfl (by rw [htext])
  rw [htext] at hput
  exact ⟨(Attempt.fault_eq_none_iff _).mpr hput.1, hput.2⟩

/-- Under any two settings whose first windows are granted, with memory for the listing, a module
has one and the same dump; and put behind any text it appends exactly that dump. -/
theorem dump_settings_free (m : Ir.Module) {mem mem' : Memory} {s s' : Settings}
    (h : Accommodates mem s .empty m.listing) (h' : Accommodates mem' s' .empty m.listing) :
    m.dump mem s = .ok m.listing ∧ m.dump mem' s' = .ok m.listing ∧
      ∀ b, Accommodates mem s b m.listing →
        (putModule mem s m b).fault = none ∧
          (putModule mem s m b).buffer.text = b.text ++ m.listing := by
  have hdump {mem : Memory} {s : Settings} (h : Accommodates mem s .empty m.listing) :
      m.dump mem s = .ok m.listing := by
    obtain ⟨hfault, hbuffer⟩ := putModule_of_accommodates h
    rw [Ir.Module.dump, Attempt.result, hfault, hbuffer]
    exact congrArg Except.ok String.empty_append
  refine ⟨hdump h, hdump h', fun b hb => ?_⟩
  obtain ⟨hfault, hbuffer⟩ := putModule_of_accommodates hb
  exact ⟨hfault, by rw [hbuffer]⟩

theorem ample_standard {s : Settings} {low high : Nat}
    (hs : max s.initialGuess.toNat 1 < 0x4000000000000000)
    (hhigh : high + 1 < 0x4000000000000000) : Ample .standard s low high where
  window held _ _ := decide_eq_true ⟨hs, by omega⟩
  bytes held n _ hn := decide_eq_true ⟨show n < 0x4000000000000000 by omega, by omega⟩

/-- A function whose parameter is a struct with a loop in a field, behind a text and under
settings that differ in every respect. -/
theorem dump_settings_free_struct :
    let loop : Node := .loop (some (.ident "i")) none (some (.ident "j")) (.block [.bad])
    let param : Binding :=
      ⟨"p", some (.fresh (.struct none [⟨"x", none, some loop⟩])), some loop⟩
    let m : Ir.Module := ⟨[⟨"f", some ⟨"f", [param], .prim .u8, none⟩, []⟩]⟩
    m.dump .standard ⟨64, 2, .start⟩ = m.dump .standard ⟨0, 7, .stop⟩ ∧
      (putModule .standard ⟨64, 2, .start⟩ m ⟨"> "⟩).buffer.text =
        "> \nfun f(p struct) u8 \x7b\n\x7d" := by
  intro loop param m
  have hsize : m.listing.utf8ByteSize = 23 := by decide +kernel
  have ample (s : Settings) (hs : max s.initialGuess.toNat 1 < 0x4000000000000000) (b : Buffer)
      (hb : b.size ≤ 2) : Accommodates .standard s b m.listing := by
    apply ample_standard hs
    omega
  obtain ⟨hdump, hdump', hput⟩ := dump_settings_free m
    (ample ⟨64, 2, .start⟩ (by decide) .empty (by decide))
    (ample ⟨0, 7, .stop⟩ (by decide) .empty (by decide))
  refine ⟨hdump.trans hdump'.symm, ?_⟩
  rw [(hput ⟨"> "⟩ (ample _ (by decide) _ (by decide))).2]
  decide +kernel

end Buffer

end CodeDump
