import CodeDump.Proofs.Nesting

/-!
# String literals read back

A reader of the body of a string literal takes the five short escapes and `\xHH` for the bytes
they stand for and keeps every other character. A quote or a backslash that belongs to no escape
cannot be read. What was written for a byte is read as that byte, whatever follows, since the
first two characters of an escape say how long it is; so the bytes are read back from the body,
and different bytes have different literals.
-/

namespace CodeDump

namespace Quoted

/-- The byte of an escape of one character. -/
def short? (c : Char) : Option UInt8 :=
  if c = '"' then some 0x22
  else if c = '\\' then some 0x5c
  else if c = 'n' then some 0x0a
  else if c = 'r' then some 0x0d
  else if c = 't' then some 0x09
  else none

/-- The byte of two hexadecimal digits. -/
def hex? (high low : Char) : Option UInt8 := (Radix.value? 16 [high, low]).map UInt8.ofNat

/-- The bytes of a body. -/
def read? (cs : List Char) : Option (List UInt8) :=
  match cs with
  | [] => some []
  | '\\' :: 'x' :: high :: low :: rest =>
      (hex? high low).bind fun b => (read? rest).map (b :: ·)
  | '\\' :: c :: rest => (short? c).bind fun b => (read? rest).map (b :: ·)
  | c :: rest =>
      if c = '"' ∨ c = '\\' then none else (read? rest).map (String.utf8EncodeChar c ++ ·)
termination_by structural cs

/-- No quote except behind a backslash, and behind every backslash another character. -/
def isSealed (cs : List Char) : Bool :=
  match cs with
  | [] => true
  | '\\' :: _ :: rest => isSealed rest
  | c :: rest => c != '"' && c != '\\' && isSealed rest
termination_by structural cs

def isPrintable (c : Char) : Bool := 0x20 ≤ c.toNat && c.toNat ≤ 0x7e

theorem utf8EncodeChar_ofNat {b : UInt8} (h : b ≤ 0x7e) :
    String.utf8EncodeChar (Char.ofNat b.toNat) = [b] := by
  have hle : b.toNat ≤ 0x7e := UInt8.le_iff_toNat_le.mp h
  have hcode : (Char.ofNat b.toNat).val.toNat = b.toNat := toNat_ofNat b
  simp only [String.utf8EncodeChar, hcode]
  rw [if_pos (by omega), UInt8.ofNat_toNat]

theorem read?_plain {c : Char} (h : isPlain c = true) (rest : List Char) :
    read? (c :: rest) = (read? rest).map (String.utf8EncodeChar c ++ ·) := by
  simp only [isPlain, Bool.and_eq_true, bne_iff_ne] at h
  rw [read?.eq_def]
  split
  all_goals simp_all

theorem hex?_hexByte (b : UInt8) :
    hex? (Nat.digitChar (b.toNat / 16)) (Nat.digitChar (b.toNat % 16)) = some b := by
  have hlt : b.toNat < 256 := b.toNat_lt
  have hdigits := Radix.mapM_digitValue? (le_refl 16) [b.toNat / 16, b.toNat % 16]
    (by simp; omega)
  have hvalue : Radix.ofDigits 16 [b.toNat / 16, b.toNat % 16] = b.toNat := by
    simp only [Radix.ofDigits, List.foldl_cons, List.foldl_nil]
    omega
  simp only [List.map_cons, List.map_nil] at hdigits
  rw [hex?, Radix.value?, if_neg (by simp), hdigits, Option.map_some, hvalue, Option.map_some,
    UInt8.ofNat_toNat]

/-- Whatever follows, a byte is read as itself. -/
theorem read?_escape (b : UInt8) (rest : List Char) :
    read? (escape b ++ rest) = (read? rest).map (b :: ·) := by
  unfold escape
  split_ifs with hquote hslash hfeed hreturn htab hprintable
  · subst b; rfl
  · subst b; rfl
  · subst b; rfl
  · subst b; rfl
  · subst b; rfl
  · rw [List.singleton_append, read?_plain (isPlain_ofNat hquote hslash hprintable.1),
      utf8EncodeChar_ofNat hprintable.2]
    rfl
  · change (hex? _ _).bind _ = _
    rw [hex?_hexByte]
    rfl

theorem read?_body (bytes : List UInt8) : read? (body bytes) = some bytes := by
  induction bytes with
  | nil => rfl
  | cons b bytes ih => rw [body_cons, read?_escape, ih, Option.map_some]

theorem isSealed_plain {cs : List Char} (h : ∀ c ∈ cs, isPlain c = true) (rest : List Char) :
    isSealed (cs ++ rest) = isSealed rest := by
  induction cs with
  | nil => rfl
  | cons c cs ih =>
    obtain ⟨hc, hcs⟩ := List.forall_mem_cons.mp h
    simp only [isPlain, Bool.and_eq_true, bne_iff_ne] at hc
    rw [List.cons_append, isSealed.eq_def]
    split
    all_goals simp_all

theorem isSealed_escape (b : UInt8) (rest : List Char) :
    isSealed (escape b ++ rest) = isSealed rest := by
  rcases escape_cases b with ⟨c, hc, heq⟩ | ⟨c, plain, _, hplain, heq⟩
  · rw [heq]
    exact isSealed_plain (List.forall_mem_singleton.mpr hc) rest
  · rw [heq]
    exact isSealed_plain hplain rest

theorem isSealed_body (bytes : List UInt8) : isSealed (body bytes) = true := by
  induction bytes with
  | nil => rfl
  | cons b bytes ih => rw [body_cons, isSealed_escape, ih]

theorem isPrintable_digitChar (d : Nat) : isPrintable (Nat.digitChar d) = true := by
  have hall : "0123456789abcdef*".toList.all isPrintable = true := by decide
  exact List.all_eq_true.mp hall _ (List.contains_iff_mem.mp (Radix.isFigure_digitChar d))

theorem isPrintable_escape (b : UInt8) : (escape b).all isPrintable = true := by
  unfold escape
  split_ifs with hquote hslash hfeed hreturn htab hprintable
  · rfl
  · rfl
  · rfl
  · rfl
  · rfl
  · have hlow : 0x20 ≤ b.toNat := UInt8.le_iff_toNat_le.mp hprintable.1
    have hhigh : b.toNat ≤ 0x7e := UInt8.le_iff_toNat_le.mp hprintable.2
    rw [List.all_cons, List.all_nil, Bool.and_true, isPrintable, toNat_ofNat, Bool.and_eq_true]
    exact ⟨decide_eq_true hlow, decide_eq_true hhigh⟩
  · have hmark : isPrintable '\\' && isPrintable 'x' := rfl
    simp only [Bool.and_eq_true] at hmark
    simp [hexByte, isPrintable_digitChar, hmark]

theorem isPrintable_body {bytes : List UInt8} {c : Char} (h : c ∈ body bytes) :
    isPrintable c = true := by
  obtain ⟨b, _, hc⟩ := List.mem_flatMap.mp h
  exact List.all_eq_true.mp (isPrintable_escape b) c hc

theorem text_injective {bytes bytes' : List UInt8} (h : text bytes = text bytes') :
    bytes = bytes' := by
  have hbody : body bytes = body bytes' := by
    simpa [text, ← String.toList_inj] using h
  have hread := read?_body bytes
  rw [hbody, read?_body] at hread
  exact (Option.some.inj hread).symm

end Quoted

/-- The text of a string literal is the same at all depths: a body between quotes, printable, with
every quote and backslash of it in an escape, from which the bytes are read back. So two literals
with one dump have the same bytes. -/
theorem Node.dump_strLit (bytes : List UInt8) :
    (∀ mem s depth t, (Node.strLit bytes).dump mem s depth = .ok t ↔
        Buffer.Accepted mem s .empty t ∧ t = "\"" ++ String.ofList (Quoted.body bytes) ++ "\"") ∧
      (∀ c ∈ Quoted.body bytes, 0x20 ≤ c.toNat ∧ c.toNat ≤ 0x7e) ∧
      Quoted.isSealed (Quoted.body bytes) = true ∧
      Quoted.read? (Quoted.body bytes) = some bytes ∧
      ∀ mem s depth mem' s' depth' bytes' t, (Node.strLit bytes).dump mem s depth = .ok t →
        (Node.strLit bytes').dump mem' s' depth' = .ok t → bytes = bytes' := by
  have hdump (bytes : List UInt8) (mem : Memory) (s : Settings) (depth : Nat) (t : String) :
      (Node.strLit bytes).dump mem s depth = .ok t ↔
        Buffer.Accepted mem s .empty t ∧ t = Quoted.text bytes := by
    have hlayout : Piece.layout ((Node.strLit bytes).run s depth) = Quoted.text bytes := by
      have hdepth : max depth 1 ≠ 0 := by omega
      simp [Node.run, Node.pieces, hdepth, Piece.layout, Piece.layoutFrom_cons]
    rw [Node.dump, dumpRun_eq_ok_iff, hlayout]
    constructor
    · rintro ⟨h, rfl⟩
      exact ⟨h, rfl⟩
    · rintro ⟨h, rfl⟩
      exact ⟨h, rfl⟩
  refine ⟨hdump bytes, fun c hc => ?_, Quoted.isSealed_body bytes, Quoted.read?_body bytes, ?_⟩
  · simpa [Quoted.isPrintable] using Quoted.isPrintable_body hc
  · intro mem s depth mem' s' depth' bytes' t h h'
    have ht := ((hdump bytes mem s depth t).mp h).2
    have ht' := ((hdump bytes' mem' s' depth' t).mp h').2
    exact Quoted.text_injective (ht.symm.trans ht')

/-- A digit behind an escaped byte, and a backslash in front of what looks like another. -/
theorem Node.dump_strLit_lookalike :
    (Node.strLit [0x01, 0x31, 0x5c, 0x78, 0x32]).dump .standard .default 1 =
        .ok "\"\\x011\\\\x2\"" ∧
      Quoted.read? (Quoted.body [0x01, 0x31, 0x5c, 0x78, 0x32]) =
        some [0x01, 0x31, 0x5c, 0x78, 0x32] := by
  obtain ⟨hdump, _, _, hread, _⟩ := Node.dump_strLit [0x01, 0x31, 0x5c, 0x78, 0x32]
  exact ⟨(hdump .standard .default 1 _).mpr ⟨⟨by decide, by decide⟩, by decide⟩, hread⟩

end CodeDump
