import CodeDump.Proofs.Columns
import CodeDump.Proofs.Rendering

/-!
# Integers read back

An integer literal is decimal, or hexadecimal behind `0x` if its own type is an unsigned one. The
mark tells the two apart, since the second character of a decimal numeral is a digit; so a literal
is read back with its kind, and two literals with one text have the same value and the same kind.
Integer constants in a listing have the hexadecimal text, whatever their type.
-/

namespace CodeDump

namespace Radix

/-- Digits of a base up to sixteen, letters in lower case, without a zero in front of others, which
are read as `n`. -/
structure IsNumeral (b n : Nat) (t : String) : Prop where
  digits : ∀ c ∈ t.toList, c ∈ "0123456789abcdef".toList.take b
  leading : t.toList.head? = some '0' → t = "0"
  value : value? b t.toList = some n

variable {b d : Nat}

theorem digitChar_mem_take (hb : b ≤ 16) (hd : d < b) :
    Nat.digitChar d ∈ "0123456789abcdef".toList.take b := by
  have hchar : "0123456789abcdef".toList[d]? = some (Nat.digitChar d) := by
    have hlt : d < 16 := by omega
    interval_cases d <;> rfl
  apply List.mem_of_getElem? (i := d)
  rw [List.getElem?_take_of_lt hd, hchar]

theorem eq_zero_of_digitChar (hd : d < 16) (h : Nat.digitChar d = '0') : d = 0 := by
  interval_cases d <;> simp_all

theorem isNumeral_digitsText (hb : 2 ≤ b) (hb' : b ≤ 16) (n : Nat) :
    IsNumeral b n (String.ofList (digitsText b n)) where
  digits c hc := by
    rw [String.toList_ofList] at hc
    obtain ⟨d, hd, rfl⟩ := List.mem_map.mp hc
    exact digitChar_mem_take hb' (digit_lt hb n d hd)
  leading hzero := by
    rw [String.toList_ofList, digitsText, List.head?_map, Option.map_eq_some_iff] at hzero
    obtain ⟨d, hhead, hchar⟩ := hzero
    have hlt := digit_lt hb n d (List.mem_of_head? hhead)
    rw [eq_zero_of_digitChar (by omega) hchar] at hhead
    rw [eq_zero_of_head?_digits hb n hhead, digitsText, digits_of_lt (by omega)]
    rfl
  value := by
    rw [String.toList_ofList]
    exact value?_digitsText hb hb' n

end Radix

namespace Integer

/-- How an integer is written: hexadecimal behind a mark if it is unsigned, otherwise decimal. -/
inductive Writes (value : UInt64) : (isUnsigned : Bool) → String → Prop
  | hexadecimal {numeral : String} : Radix.IsNumeral 16 value.toNat numeral →
      Writes value true ("0x" ++ numeral)
  | decimal {numeral : String} : Radix.IsNumeral 10 value.toNat numeral →
      Writes value false numeral

/-- The value of a written integer, and whether it is marked as hexadecimal. -/
def read? (cs : List Char) : Option (Nat × Bool) :=
  match cs with
  | '0' :: 'x' :: rest => (Radix.value? 16 rest).map (·, true)
  | _ => (Radix.value? 10 cs).map (·, false)

theorem writes_integerText (value : UInt64) (isUnsigned : Bool) :
    Writes value isUnsigned (integerText value isUnsigned) := by
  cases isUnsigned with
  | true => exact .hexadecimal (Radix.isNumeral_digitsText (by omega) (by omega) _)
  | false => exact .decimal (Radix.isNumeral_digitsText (by omega) (by omega) _)

theorem Writes.read?_eq {value : UInt64} {isUnsigned : Bool} {t : String}
    (h : Writes value isUnsigned t) : read? t.toList = some (value.toNat, isUnsigned) := by
  cases h with
  | @hexadecimal numeral hn =>
    rw [String.toList_append]
    change (Radix.value? 16 numeral.toList).map (·, true) = _
    rw [hn.value, Option.map_some]
  | decimal hn =>
    rw [read?.eq_def]
    split
    · -- No decimal digit is the mark.
      rename_i rest heq
      have hx := hn.digits 'x' (by simp [heq])
      exact absurd hx (by decide)
    · rw [hn.value, Option.map_some]

theorem Writes.injective {value value' : UInt64} {isUnsigned isUnsigned' : Bool} {t : String}
    (h : Writes value isUnsigned t) (h' : Writes value' isUnsigned' t) :
    value = value' ∧ isUnsigned = isUnsigned' := by
  have hread := h.read?_eq
  rw [h'.read?_eq, Option.some.injEq, Prod.mk.injEq] at hread
  exact ⟨(UInt64.toNat_inj.mp hread.1).symm, hread.2.symm⟩

theorem integerText_inj {value value' : UInt64} {isUnsigned isUnsigned' : Bool} :
    integerText value isUnsigned = integerText value' isUnsigned' ↔
      value = value' ∧ isUnsigned = isUnsigned' := by
  constructor
  · intro h
    have hwrites := writes_integerText value isUnsigned
    rw [h] at hwrites
    exact hwrites.injective (writes_integerText value' isUnsigned')
  · rintro ⟨rfl, rfl⟩
    rfl

end Integer

theorem Prim.isUnsigned_iff (p : Prim) :
    p.isUnsigned = true ↔ p ∈ [u8, u16, u32, u64, uint] := by
  cases p <;> decide

/-- Only a type that is itself one of five makes an integer unsigned. -/
theorem Ty.any_isUnsigned_iff (ty : Option Ty) :
    ty.any Ty.isUnsigned = true ↔
      ∃ p ∈ [Prim.u8, .u16, .u32, .u64, .uint], ty = some (.prim p) := by
  constructor
  · intro h
    match ty, h with
    | some (.prim p), h => exact ⟨p, p.isUnsigned_iff.mp h, rfl⟩
  · rintro ⟨p, hp, rfl⟩
    exact p.isUnsigned_iff.mpr hp

namespace Ir.Value

/-- The part of a line in front of the scalar. -/
def operandText (s : Settings) (v : Value) : String :=
  "    " ++ valueName 2 v.id ++ " " ++ Piece.layout (typeRun s v.ty) ++
    Piece.spaces (4 - (Piece.layout (typeRun s v.ty)).utf8ByteSize) ++ " = " ++
    Radix.padRight 6 v.op.name ++ String.join (v.args.map argText)

/-- Behind the operands of an integer constant stand its text and then the comment. -/
theorem line_of_intConst (s : Settings) {v : Value} {value : UInt64} (hop : v.op = .intConst)
    (hpayload : v.payload = .int value) :
    ∃ n tail, v.line s = v.operandText s ++ " " ++ integerText value true ++
      Piece.spaces (n + 1) ++ "# [" ++ tail := by
  have hhead : v.headText s = v.operandText s ++ " " ++ integerText value true := by
    have htexts : v.payloadTexts = [" " ++ integerText value true] := by
      rw [payloadTexts_eq, hop, hpayload]
    rw [headText, htexts, join_singleton, operandText]
    simp only [String.append_assoc]
  obtain ⟨n, hn⟩ : ∃ n, max (commentColumn - (v.headText s).utf8ByteSize) 1 = n + 1 :=
    ⟨max (commentColumn - (v.headText s).utf8ByteSize) 1 - 1, by omega⟩
  refine ⟨n, ?_⟩
  rw [line_eq, notedText, gap, hn, hhead, noteText]
  simp only [String.append_assoc]
  exact ⟨_, rfl⟩

end Ir.Value

/-- Integer literals and integer constants are read back. A literal is written as its kind says, and
only its own type decides on the kind; literals have one text exactly if value and kind are the
same. A constant in a listing has the text of an unsigned literal in front of its comment. -/
theorem Integer.texts_read_back (value : UInt64) (ty : Option Ty) :
    (∀ mem s depth t, (Node.intLit value ty).dump mem s depth = .ok t ↔
        Buffer.Accepted mem s .empty t ∧ t = integerText value (ty.any Ty.isUnsigned)) ∧
      (ty.any Ty.isUnsigned = true ↔
        ∃ p ∈ [Prim.u8, .u16, .u32, .u64, .uint], ty = some (.prim p)) ∧
      (∀ isUnsigned, Writes value isUnsigned (integerText value isUnsigned)) ∧
      (∀ mem s depth t mem' s' depth' value' ty' t',
        (Node.intLit value ty).dump mem s depth = .ok t →
        (Node.intLit value' ty').dump mem' s' depth' = .ok t' →
          (t = t' ↔ value = value' ∧ ty.any Ty.isUnsigned = ty'.any Ty.isUnsigned)) ∧
      ∀ mem s m b (v : Ir.Value) above below, v.op = .intConst → v.payload = .int value →
        m.items = above ++ .value v :: below → (Buffer.putModule mem s m b).fault = none →
          ∃ n tail, (Buffer.putModule mem s m b).buffer.text =
            b.text ++ Ir.Item.listing s above ++ "\n" ++
              (v.operandText s ++ " " ++ integerText value true ++ Piece.spaces (n + 1) ++ "# [" ++
                tail) ++ Ir.Item.listing s below := by
  have hdump (value : UInt64) (ty : Option Ty) (mem : Memory) (s : Settings) (depth : Nat)
      (t : String) :
      (Node.intLit value ty).dump mem s depth = .ok t ↔
        Buffer.Accepted mem s .empty t ∧ t = integerText value (ty.any Ty.isUnsigned) :=
    Node.dump_eq_ok_iff_of_text (fun s level depth hdepth => by rw [Node.pieces, if_neg hdepth])
      mem s depth t
  refine ⟨hdump value ty, Ty.any_isUnsigned_iff ty, writes_integerText value, ?_, ?_⟩
  · intro mem s depth t mem' s' depth' value' ty' t' h h'
    rw [((hdump value ty mem s depth t).mp h).2, ((hdump value' ty' mem' s' depth' t').mp h').2]
    exact integerText_inj
  · intro mem s m b v above below hop hpayload hitems hdone
    obtain ⟨n, tail, hline⟩ := v.line_of_intConst s hop hpayload
    exact ⟨n, tail, by rw [Ir.Module.text_of_putModule hdone hitems, Ir.Item.line, hline]⟩

/-- The largest value with an unsigned type, which is not the same as with an alias of this type,
and as a constant of a pointer type. -/
theorem Integer.texts_read_back_largest :
    let largest : UInt64 := 0xffffffffffffffff
    let v : Ir.Value := Ir.Value.intConst 1 (.pointer (.prim .u8)) largest
    let m : Ir.Module := ⟨[⟨"f", none, [⟨0, [], .ret none, none, [v]⟩]⟩]⟩
    (Node.intLit largest (some (.prim .u64))).dump .standard .default 1 =
        .ok "0xffffffffffffffff" ∧
      (Node.intLit largest (some (.named "size" (.prim .u64)))).dump .standard .default 1 =
        .ok "18446744073709551615" ∧
      ("0xffffffffffffffff" = "18446744073709551615" ↔
        largest = largest ∧ (some (Ty.prim .u64)).any Ty.isUnsigned =
          (some (Ty.named "size" (.prim .u64))).any Ty.isUnsigned) ∧
      Writes largest true "0xffffffffffffffff" ∧
      ∃ n tail, (Buffer.putModule .standard .default m .empty).buffer.text =
        "\nfun f() \x7b\n  b0:\n    v1  *u8  = iconst 0xffffffffffffffff" ++
          Piece.spaces (n + 1) ++ "# [" ++ tail := by
  intro largest v m
  obtain ⟨hdump, _, hwrites, hsame, hlisting⟩ := texts_read_back largest (some (.prim .u64))
  have hunsigned : (Node.intLit largest (some (.prim .u64))).dump .standard .default 1 =
      .ok "0xffffffffffffffff" :=
    (hdump .standard .default 1 _).mpr ⟨⟨by decide, by decide⟩, by decide +kernel⟩
  have halias :
      (Node.intLit largest (some (.named "size" (.prim .u64)))).dump .standard .default 1 =
        .ok "18446744073709551615" :=
    ((texts_read_back largest (some (.named "size" (.prim .u64)))).1 .standard .default 1 _).mpr
      ⟨⟨by decide, by decide⟩, by decide +kernel⟩
  have htext : integerText largest true = "0xffffffffffffffff" := by decide +kernel
  obtain ⟨n, tail, hline⟩ := hlisting .standard .default m .empty v
    [.head ⟨"f", none, [⟨0, [], .ret none, none, [v]⟩]⟩, .label ⟨0, [], .ret none, none, [v]⟩]
    [.exit (.ret none), .close] rfl rfl rfl (by decide +kernel)
  have hfront : Buffer.empty.text ++ Ir.Item.listing .default
      [.head ⟨"f", none, [⟨0, [], .ret none, none, [v]⟩]⟩, .label ⟨0, [], .ret none, none, [v]⟩] ++
        "\n" ++ (v.operandText .default ++ " " ++ integerText largest true) =
      "\nfun f() \x7b\n  b0:\n    v1  *u8  = iconst 0xffffffffffffffff" := by decide +kernel
  refine ⟨hunsigned, halias, hsame _ _ _ _ _ _ _ _ _ _ hunsigned halias, htext ▸ hwrites true, n,
    tail ++ Ir.Item.listing .default [.exit (.ret none), .close], ?_⟩
  rw [hline, ← hfront]
  simp only [String.append_assoc]

end CodeDump
