import CodeDump.Proofs.Outline

/-!
# Lines read back

Every line of a legible module is read as the part of the outline that it was written for. Names
and numerals are read back one by one, then the three kinds of line that have fields: exits,
labels and values.
-/

namespace CodeDump.Ir

section Fields

/-- The name of a value or block, without the spaces that follow it. -/
def nameWord (letter : Char) (id : UInt32) : List Char :=
  letter :: (Radix.decimal id.toNat).toList

theorem decimal_ne_nil (n : Nat) : (Radix.decimal n).toList ≠ [] := by
  rw [Radix.decimal, String.toList_ofList]
  exact Radix.digitsText_ne_nil 10 n

theorem space_not_mem_nameWord {letter : Char} (h : letter ≠ ' ') (id : UInt32) :
    ' ' ∉ nameWord letter id :=
  List.not_mem_cons_of_ne_of_not_mem h.symm (free_decimal (by decide) _)

theorem toList_valueName (width : Nat) (id : ValueId) :
    ∃ n, (valueName width id).toList = nameWord 'v' id ++ List.replicate n ' ' := by
  refine ⟨width - (Radix.decimal id.toNat).length, ?_⟩
  rw [valueName, Radix.padRight, String.toList_append, String.toList_append, String.toList_ofList,
    String.toList_ofList, List.singleton_append, nameWord, List.cons_append]

theorem words_valueName (width : Nat) (id : ValueId) :
    words (valueName width id).toList = [nameWord 'v' id] := by
  obtain ⟨n, hn⟩ := toList_valueName width id
  rw [hn]
  exact words_padded (List.cons_ne_nil _ _) (space_not_mem_nameWord (by decide) id) n

theorem words_blockName (id : BlockId) : words (blockName id).toList = [nameWord 'b' id] := by
  have h : (blockName id).toList = nameWord 'b' id := by
    rw [blockName, String.toList_append]
    rfl
  rw [h]
  exact words_word (List.cons_ne_nil _ _) (space_not_mem_nameWord (by decide) id)

theorem toList_gap (used col : Nat) : ∃ n, (gap used col).toList = List.replicate n ' ' :=
  ⟨_, String.toList_ofList⟩

theorem readNumber_decimal (n : UInt32) : readNumber (Radix.decimal n.toNat).toList = some n := by
  rw [readNumber, Radix.value?_decimal, Option.map_some, UInt32.ofNat_toNat]

theorem readName_nameWord (letter : Char) (id : UInt32) :
    readName letter (nameWord letter id) = some id := by
  rw [nameWord, readName, if_pos rfl, readNumber_decimal]

theorem readName_of_ne {letter : Char} {w : List Char} (h : (w.head? != some letter) = true) :
    readName letter w = none := by
  cases w with
  | nil => rfl
  | cons c cs => exact if_neg fun hc => bne_iff_ne.mp h (congrArg some hc)

@[simp] theorem head?_nameWord (letter : Char) (id : UInt32) :
    (nameWord letter id).head? = some letter := rfl

@[simp] theorem readNames_nil (letter : Char) : readNames letter [] = [] := rfl

@[simp] theorem readNames_nameWord (letter : Char) (id : UInt32) (ws : List (List Char)) :
    readNames letter (nameWord letter id :: ws) = id :: readNames letter ws :=
  List.filterMap_cons_some (readName_nameWord letter id)

theorem readNames_cons_of_ne {letter : Char} {w : List Char} (h : (w.head? != some letter) = true)
    (ws : List (List Char)) : readNames letter (w :: ws) = readNames letter ws :=
  List.filterMap_cons_none (readName_of_ne h)

theorem readNames_append (letter : Char) (ws ws' : List (List Char)) :
    readNames letter (ws ++ ws') = readNames letter ws ++ readNames letter ws' :=
  List.filterMap_append

theorem readNames_map (letter : Char) (ids : List UInt32) :
    readNames letter (ids.map (nameWord letter)) = ids := by
  have hread : readName letter ∘ nameWord letter = some := funext (readName_nameWord letter)
  rw [readNames, List.filterMap_map, hread, List.filterMap_some]

theorem readNames_eq_nil {letter : Char} {ws : List (List Char)}
    (h : ∀ w ∈ ws, (w.head? != some letter) = true) : readNames letter ws = [] :=
  List.filterMap_eq_nil_iff.mpr fun w hw => readName_of_ne (h w hw)

theorem readOp_name (op : Op) : readOp op.name.toList = some op := by
  cases op <;> rfl

end Fields

section Exits

/-- The words of an exit with a control value and two successors. -/
theorem words_branch {lead : String} (h : lead.toList.getLast? = some ' ') (c : ValueId)
    (yes no : BlockId) :
    words (lead ++ valueName 0 c ++ " -> " ++ blockName yes ++ " " ++ blockName no).toList =
      words lead.toList ++
        [nameWord 'v' c, "->".toList, nameWord 'b' yes, nameWord 'b' no] := by
  have hno : Led (" ".toList ++ (blockName no).toList) := led_space _
  have hyes : Led (" -> ".toList ++
      ((blockName yes).toList ++ (" ".toList ++ (blockName no).toList))) := led_space _
  have hblank : words " ".toList = [] := rfl
  have harrow : words " -> ".toList = ["->".toList] := rfl
  simp only [String.toList_append, List.append_assoc]
  rw [words_append_of_trailed h, words_append _ hyes, words_valueName,
    words_append_of_trailed rfl, harrow, words_append _ hno, words_blockName,
    words_append_of_trailed rfl, hblank, words_blockName]
  rfl

theorem readNames_branch (kind : List Char) (hv : (kind.head? != some 'v') = true)
    (hb : (kind.head? != some 'b') = true) (c : ValueId) (yes no : BlockId) :
    readNames 'v' [kind, nameWord 'v' c, "->".toList, nameWord 'b' yes, nameWord 'b' no] = [c] ∧
      readNames 'b' [kind, nameWord 'v' c, "->".toList, nameWord 'b' yes, nameWord 'b' no] =
        [yes, no] := by
  constructor
  · rw [readNames_cons_of_ne hv, readNames_nameWord, readNames_cons_of_ne rfl,
      readNames_cons_of_ne rfl, readNames_cons_of_ne rfl, readNames_nil]
  · rw [readNames_cons_of_ne hb, readNames_cons_of_ne rfl, readNames_cons_of_ne rfl,
      readNames_nameWord, readNames_nameWord, readNames_nil]

theorem readExit_text (e : Exit) : readExit e.text.toList = e := by
  cases e with
  | goto next =>
    cases next with
    | none => rfl
    | some next =>
      have hw : words (Exit.goto (some next)).text.toList =
          ["cont".toList, "->".toList, nameWord 'b' next] := by
        rw [Exit.text, String.toList_append, words_append_of_trailed rfl, words_blockName]
        rfl
      have hv : readNames 'v' ["cont".toList, "->".toList, nameWord 'b' next] = [] := by
        rw [readNames_cons_of_ne rfl, readNames_cons_of_ne rfl, readNames_cons_of_ne rfl,
          readNames_nil]
      have hb : readNames 'b' ["cont".toList, "->".toList, nameWord 'b' next] = [next] := by
        rw [readNames_cons_of_ne rfl, readNames_cons_of_ne rfl, readNames_nameWord, readNames_nil]
      simp only [readExit, hw, hv, hb]
      rfl
  | first c yes no =>
    have hw : words (Exit.first c yes no).text.toList =
        ["first".toList, nameWord 'v' c, "->".toList, nameWord 'b' yes, nameWord 'b' no] :=
      words_branch rfl c yes no
    obtain ⟨hv, hb⟩ := readNames_branch "first".toList rfl rfl c yes no
    simp only [readExit, hw, hv, hb]
    rfl
  | branch c yes no =>
    have hw : words (Exit.branch c yes no).text.toList =
        ["if".toList, nameWord 'v' c, "->".toList, nameWord 'b' yes, nameWord 'b' no] :=
      words_branch rfl c yes no
    obtain ⟨hv, hb⟩ := readNames_branch "if".toList rfl rfl c yes no
    simp only [readExit, hw, hv, hb]
    rfl
  | ret value =>
    cases value with
    | none => rfl
    | some c =>
      have hw : words (Exit.ret (some c)).text.toList = ["ret".toList, nameWord 'v' c] := by
        rw [Exit.text, String.toList_append, words_append_of_trailed rfl, words_valueName]
        rfl
      have hv : readNames 'v' ["ret".toList, nameWord 'v' c] = [c] := by
        rw [readNames_cons_of_ne rfl, readNames_nameWord, readNames_nil]
      have hb : readNames 'b' ["ret".toList, nameWord 'v' c] = [] := by
        rw [readNames_cons_of_ne rfl, readNames_cons_of_ne rfl, readNames_nil]
      simp only [readExit, hw, hv, hb]
      rfl

theorem readLine_exitLine (b : Block) : readLine b.exitLine.toList = some (.exit b.exit) := by
  have hread : readLine b.exitLine.toList = some (.exit (readExit b.exit.text.toList)) := by
    rw [Block.exitLine, String.toList_append]
    cases b.exit with
    | goto next =>
      cases next with
      | none => rfl
      | some next =>
        rw [Exit.text, String.toList_append]
        rfl
    | first c yes no =>
      simp only [Exit.text, String.toList_append, List.append_assoc]
      rfl
    | branch c yes no =>
      simp only [Exit.text, String.toList_append, List.append_assoc]
      rfl
    | ret value =>
      cases value with
      | none => rfl
      | some c =>
        rw [Exit.text, String.toList_append]
        rfl
  rw [hread, readExit_text]

end Exits

section Labels

theorem readLine_label (cs : List Char) : readLine ("  b".toList ++ cs) = readLabel cs := rfl

theorem Block.toList_labelLine (b : Block) : b.labelLine.toList =
    "  b".toList ++ ((Radix.decimal b.id.toNat).toList ++
      ':' :: ((String.join b.predsTexts).toList ++ (String.join b.commentTexts).toList)) := by
  rw [Block.labelLine, Block.labelText, blockName, String.join_append]
  simp only [String.toList_append, List.append_assoc]
  rfl

/-- At most two predecessors are shown, and those are read. -/
theorem Block.readNames_preds (b : Block) (n : Nat) :
    readNames 'b' (words (':' :: (String.join b.predsTexts).toList ++ List.replicate n ' ')) =
      b.preds.take 2 := by
  rw [words_append _ (led_replicate n), words_replicate, List.append_nil, Block.predsTexts_eq]
  match b.preds with
  | [] => rfl
  | [p] =>
    have hw : words (':' :: (String.join [" <- " ++ blockName p]).toList) =
        [":".toList, "<-".toList, nameWord 'b' p] := by
      rw [String.join_cons, String.join_nil, String.append_empty, String.toList_append,
        ← List.cons_append, words_append_of_trailed rfl, words_blockName]
      rfl
    rw [hw, readNames_cons_of_ne rfl, readNames_cons_of_ne rfl, readNames_nameWord, readNames_nil]
    rfl
  | p :: q :: rest =>
    have hw : words (':' :: (String.join [" <- " ++ blockName p ++ " " ++ blockName q]).toList) =
        [":".toList, "<-".toList, nameWord 'b' p, nameWord 'b' q] := by
      have hq : Led (" ".toList ++ (blockName q).toList) := led_space _
      rw [String.join_cons, String.join_nil, String.append_empty]
      simp only [String.toList_append, List.append_assoc]
      rw [← List.cons_append, words_append_of_trailed rfl, words_append _ hq, words_blockName,
        words_append_of_trailed rfl, words_blockName]
      rfl
    rw [hw, readNames_cons_of_ne rfl, readNames_cons_of_ne rfl, readNames_nameWord,
      readNames_nameWord, readNames_nil]
    rfl

theorem Block.exists_commentTexts {b : Block} {c : String} (h : b.comment = some c) :
    ∃ n, (String.join b.commentTexts).toList = List.replicate n ' ' ++ '#' :: ' ' :: c.toList := by
  obtain ⟨n, hn⟩ := toList_gap
    (b.labelText.utf8ByteSize + (String.join b.predsTexts).utf8ByteSize) commentColumn
  refine ⟨n, ?_⟩
  simp only [Block.commentTexts_eq, h, String.join_cons, String.join_nil, String.append_empty,
    String.toList_append, hn]
  rfl

theorem readLabel_append (id : BlockId) (rest : List Char) :
    readLabel ((Radix.decimal id.toNat).toList ++ ':' :: rest) =
      some (.label id (readNames 'b' (words (before '#' (':' :: rest))))
        (readComment (':' :: rest))) := by
  have hcolon : ':' ∉ (Radix.decimal id.toNat).toList := free_decimal (by decide) _
  rw [readLabel, before_append hcolon, behind_append hcolon, readNumber_decimal]
  rfl

theorem readLine_labelLine (b : Block) :
    readLine b.labelLine.toList = some (.label b.id (b.preds.take 2) b.comment) := by
  have hhash : '#' ∉ ':' :: (String.join b.predsTexts).toList :=
    List.not_mem_cons_of_ne_of_not_mem (by decide)
      ((free_join _).mpr (b.free_predsTexts hash_not_plain))
  rw [b.toList_labelLine, readLine_label, readLabel_append]
  cases hc : b.comment with
  | none =>
    have hnone : (String.join b.commentTexts).toList = [] := by
      simp only [Block.commentTexts_eq, hc]
      rfl
    have hpreds := b.readNames_preds 0
    rw [List.replicate_zero, List.append_nil] at hpreds
    rw [hnone, List.append_nil, before_eq_self hhash, readComment, behind_eq_nil hhash, hpreds]
  | some c =>
    obtain ⟨n, hn⟩ := b.exists_commentTexts hc
    have hhash' : '#' ∉ ':' :: (String.join b.predsTexts).toList ++ List.replicate n ' ' := by
      rw [List.mem_append, List.mem_replicate]
      rintro (h | ⟨_, h⟩)
      · exact hhash h
      · cases h
    rw [hn, ← List.cons_append, ← List.append_assoc, before_append hhash', readComment,
      behind_append hhash', b.readNames_preds n]
    simp only [String.ofList_toList]

end Labels

section Values

/-- The operator, the operands and the payload of a value. -/
def Value.operationChars (v : Value) : List Char :=
  (Radix.padRight 6 v.op.name).toList ++ v.args.flatMap (fun a => (argText a).toList) ++
    (String.join v.payloadTexts).toList

theorem Value.toList_leadText (v : Value) : ∃ margin, '=' ∉ margin ∧
    v.leadText.toList = "    v".toList ++ ((Radix.decimal v.id.toNat).toList ++ ' ' :: margin) := by
  obtain ⟨n, hn⟩ := toList_valueName 2 v.id
  refine ⟨List.replicate n ' ', fun h => ?_, ?_⟩
  · cases (List.mem_replicate.mp h).2
  · have hblank : List.replicate n ' ' ++ " ".toList = ' ' :: List.replicate n ' ' :=
      List.replicate_succ'.symm
    rw [Value.leadText, String.toList_append, String.toList_append, hn, List.append_assoc,
      List.append_assoc, hblank]
    rfl

theorem Value.toList_operationTexts (v : Value) (typeWidth : Nat) : ∃ margin, '=' ∉ margin ∧
    (String.join (v.operationTexts typeWidth)).toList =
      margin ++ '=' :: ' ' :: v.operationChars := by
  have hmargin : Free '=' (Piece.spaces (4 - typeWidth) ++ " ") :=
    (free_append _ _).mpr ⟨free_spaces (by decide) _, by decide⟩
  have hargs : (String.join (v.args.map argText)).toList =
      v.args.flatMap fun a => (argText a).toList := by
    rw [String.toList_join, List.flatMap_map]
  have hequals : " = ".toList = " ".toList ++ ['=', ' '] := rfl
  refine ⟨(Piece.spaces (4 - typeWidth) ++ " ").toList, hmargin, ?_⟩
  rw [Value.operationTexts_eq, String.join_append, String.join_append, String.join_cons,
    String.join_nil, String.append_empty]
  simp only [String.toList_append, hargs, hequals, Value.operationChars, List.append_assoc,
    List.cons_append, List.nil_append]

theorem Value.toList_commentTexts (v : Value) : ∃ rest,
    (String.join v.commentTexts).toList =
      '#' :: ' ' :: '[' :: ((Radix.decimal v.uses.toNat).toList ++ ']' :: rest) := by
  rw [Value.commentTexts_eq, String.join_cons]
  simp only [String.toList_append, List.append_assoc]
  exact ⟨_, rfl⟩

theorem Value.toList_restTexts (v : Value) (typeWidth : Nat) : ∃ n location,
    (String.join (v.restTexts typeWidth)).toList =
      (String.join (v.operationTexts typeWidth)).toList ++
        (List.replicate n ' ' ++ (String.join v.commentTexts).toList) ++ location := by
  rw [Value.restTexts_eq, String.join_append, String.join_append, String.join_cons]
  simp only [gap, Piece.spaces, String.toList_append, String.toList_ofList]
  exact ⟨_, _, rfl⟩

/-- The places at which a value line is cut. -/
theorem Value.Legible.toList_line {v : Value} (h : v.Legible) (s : Settings) :
    ∃ margin n rest, '=' ∉ margin ∧ (v.line s).toList =
      "    v".toList ++ ((Radix.decimal v.id.toNat).toList ++ ' ' :: (margin ++
        '=' :: (' ' :: v.operationChars ++ List.replicate n ' ' ++
          '#' :: ' ' :: '[' :: ((Radix.decimal v.uses.toNat).toList ++ ']' :: rest)))) := by
  have htype : Free '=' (Piece.layout (typeRun s v.ty)) :=
    (v.ty.without_pieces s 0 (by decide) h.equals).free_layoutFrom false
  obtain ⟨lead, hlead, hleadText⟩ := v.toList_leadText
  obtain ⟨space, hspace, hoperation⟩ :=
    v.toList_operationTexts (Piece.layout (typeRun s v.ty)).utf8ByteSize
  obtain ⟨rest, hcomment⟩ := v.toList_commentTexts
  obtain ⟨n, location, hrest⟩ :=
    v.toList_restTexts (Piece.layout (typeRun s v.ty)).utf8ByteSize
  refine ⟨lead ++ (Piece.layout (typeRun s v.ty)).toList ++ space, n, rest ++ location, ?_, ?_⟩
  · simp only [List.mem_append, not_or]
    exact ⟨⟨hlead, htype⟩, hspace⟩
  · rw [Value.line, String.toList_append, String.toList_append, hleadText, hrest, hoperation,
      hcomment]
    simp only [List.append_assoc, List.cons_append]

theorem Value.words_args (args : List ValueId) :
    Led (args.flatMap fun a => (argText a).toList) ∧
      words (args.flatMap fun a => (argText a).toList) = args.map (nameWord 'v') := by
  induction args with
  | nil => exact ⟨led_nil, rfl⟩
  | cons a args ih =>
    have harg : (argText a).toList = ' ' :: (valueName 2 a).toList := by
      rw [argText, String.toList_append]
      rfl
    rw [List.flatMap_cons, harg]
    refine ⟨led_space _, ?_⟩
    rw [words_append _ ih.1, ih.2, words_space, words_valueName, List.map_cons,
      List.singleton_append]

/-- A payload is one word that does not look like an operand. -/
theorem Value.payload_cases (v : Value) : String.join v.payloadTexts = "" ∨
    ∃ w, Free ' ' w ∧ Free 'v' w ∧ String.join v.payloadTexts = " " ++ w := by
  rw [payloadTexts_eq]
  split
  · exact Or.inr ⟨_, free_decimal (by decide) _, free_decimal (by decide) _, join_singleton _⟩
  · rename_i n _ _
    have hfree (c : Char) (hc : Radix.isFigure c = false) (hx : Free c "0x") :
        Free c (integerText n true) :=
      (free_append _ _).mpr ⟨hx, free_hexadecimal hc _⟩
    exact Or.inr ⟨_, hfree ' ' (by decide) (by decide), hfree 'v' (by decide) (by decide),
      join_singleton _⟩
  · rename_i x _ _
    refine Or.inr ⟨x.general, free_general (by decide) x, free_general (by decide) x, ?_⟩
    rw [String.join_cons, join_singleton]
  · exact Or.inl String.join_nil

theorem Value.led_payload (v : Value) : Led (String.join v.payloadTexts).toList := by
  rcases v.payload_cases with h | ⟨w, _, _, h⟩
  · rw [h]
    exact led_nil
  · rw [h, String.toList_append]
    exact led_space _

theorem Value.head?_of_mem_payload {v : Value} {w : List Char}
    (hw : w ∈ words (String.join v.payloadTexts).toList) : (w.head? != some 'v') = true := by
  rcases v.payload_cases with h | ⟨x, hblank, hletter, h⟩
  · rw [h] at hw
    cases hw
  · have hx : words (String.join v.payloadTexts).toList = words x.toList := by
      rw [h, String.toList_append]
      exact words_space _
    rw [hx] at hw
    rw [eq_of_mem_words hblank hw, bne_iff_ne]
    exact fun hv => hletter (List.mem_of_head? hv)

theorem readPayload_nil (op : Op) : readPayload op [] = .empty := by
  cases op <;> rfl

theorem Value.readPayload_words (v : Value) :
    readPayload v.op (words (String.join v.payloadTexts).toList) = v.shownPayload := by
  rw [payloadTexts_eq]
  split
  · rename_i i hop hpayload
    have hw : words (String.join [" " ++ Radix.decimal i.toNat]).toList =
        [(Radix.decimal i.toNat).toList] := by
      rw [join_singleton, String.toList_append]
      exact (words_space _).trans (words_word (decimal_ne_nil _) (free_decimal (by decide) _))
    rw [shownPayload, hop, hpayload, hw, readPayload, readNumber_decimal]
    rfl
  · rename_i n hop hpayload
    have hx : (integerText n true).toList = '0' :: 'x' :: (Radix.hexadecimal n.toNat).toList := by
      rw [integerText, if_pos rfl, String.toList_append]
      rfl
    have hw : words (String.join [" " ++ integerText n true]).toList =
        ['0' :: 'x' :: (Radix.hexadecimal n.toNat).toList] := by
      have hblank : Free ' ' (integerText n true) :=
        (free_append _ _).mpr ⟨by decide, free_hexadecimal (by decide) _⟩
      rw [join_singleton, String.toList_append, ← hx]
      refine (words_space _).trans (words_word ?_ hblank)
      rw [hx]
      exact List.cons_ne_nil _ _
    rw [shownPayload, hop, hpayload, hw, readPayload]
    simp [Radix.value?_hexadecimal]
  · rename_i x hop hpayload
    rw [shownPayload, hop, hpayload]
    rfl
  · rename_i hindex hint _
    rw [String.join_nil]
    refine (readPayload_nil v.op).trans ?_
    unfold shownPayload
    split
    · exact (hindex _ ‹_› ‹_›).elim
    · exact (hint _ ‹_› ‹_›).elim
    · rfl

theorem Value.words_operationChars (v : Value) :
    words v.operationChars = v.op.name.toList ::
      (v.args.map (nameWord 'v') ++ words (String.join v.payloadTexts).toList) := by
  have hname : v.op.name.toList ≠ [] := by cases v.op <;> decide
  have hblank : ' ' ∉ v.op.name.toList := by cases v.op <;> decide
  obtain ⟨hled, hargs⟩ := words_args v.args
  rw [operationChars, words_append _ v.led_payload, words_append _ hled, hargs, Radix.padRight,
    String.toList_append, String.toList_ofList, words_padded hname hblank]
  rfl

theorem Value.free_operationChars (v : Value) : '#' ∉ v.operationChars := by
  have h : Free '#' (String.join (v.operationTexts 0)) :=
    (free_join _).mpr (v.free_operationTexts hash_not_plain 0)
  obtain ⟨margin, _, hjoin⟩ := v.toList_operationTexts 0
  rw [Free, hjoin] at h
  exact fun hc => h (List.mem_append_right _ (List.mem_cons_of_mem _ (List.mem_cons_of_mem _ hc)))

theorem readLine_value (cs : List Char) :
    readLine ("    v".toList ++ cs) = (readValue cs).map .value := rfl

/-- The id is cut off at a space, the words at a hash and the uses at a bracket. -/
theorem readValue_append (id uses : UInt32) {margin body : List Char} (hmargin : '=' ∉ margin)
    (hbody : '#' ∉ body) (rest : List Char) :
    readValue ((Radix.decimal id.toNat).toList ++ ' ' :: (margin ++ '=' :: (body ++
      '#' :: ' ' :: '[' :: ((Radix.decimal uses.toNat).toList ++ ']' :: rest)))) =
      (readOp ((words body).headD [])).map fun op =>
        ⟨id, op, readNames 'v' (words body).tail,
          readPayload op ((words body).tail.filter fun w => w.head? != some 'v'), uses⟩ := by
  have hblank : ' ' ∉ (Radix.decimal id.toNat).toList := free_decimal (by decide) _
  have hbracket : ']' ∉ (Radix.decimal uses.toNat).toList := free_decimal (by decide) _
  have hequals : '=' ∉ (Radix.decimal id.toNat).toList ++ ' ' :: margin := by
    rw [List.mem_append, List.mem_cons]
    rintro (hc | hc | hc)
    · exact free_decimal (by decide) _ hc
    · cases hc
    · exact hmargin hc
  have hhash : '#' ∉ '=' :: body := List.not_mem_cons_of_ne_of_not_mem (by decide) hbody
  have hcut := behind_append hequals
    (body ++ '#' :: ' ' :: '[' :: ((Radix.decimal uses.toNat).toList ++ ']' :: rest))
  rw [List.append_assoc, List.cons_append] at hcut
  rw [readValue, before_append hblank, readNumber_decimal, hcut, ← List.cons_append]
  simp only [before_append hhash, behind_append hhash, List.drop_succ_cons, List.drop_zero,
    List.tail_cons, before_append hbracket, readNumber_decimal]
  cases readOp ((words body).headD []) <;> rfl

theorem Value.Legible.readLine_line {v : Value} (h : v.Legible) (s : Settings) :
    readLine (v.line s).toList = some (.value v.outline) := by
  obtain ⟨margin, n, rest, hmargin, hline⟩ := h.toList_line s
  have hhash : '#' ∉ ' ' :: v.operationChars ++ List.replicate n ' ' := by
    rw [List.mem_append, List.mem_cons, List.mem_replicate]
    rintro ((hc | hc) | hc)
    · cases hc
    · exact v.free_operationChars hc
    · cases hc.2
  have hwords : words (' ' :: v.operationChars ++ List.replicate n ' ') = v.op.name.toList ::
      (v.args.map (nameWord 'v') ++ words (String.join v.payloadTexts).toList) := by
    rw [words_append _ (led_replicate n), words_replicate, List.append_nil, words_space,
      v.words_operationChars]
  have hargs : readNames 'v' (v.args.map (nameWord 'v') ++
      words (String.join v.payloadTexts).toList) = v.args := by
    rw [readNames_append, readNames_map, readNames_eq_nil fun w hw => v.head?_of_mem_payload hw,
      List.append_nil]
  have hpayload : ((v.args.map (nameWord 'v') ++ words (String.join v.payloadTexts).toList).filter
      fun w => w.head? != some 'v') = words (String.join v.payloadTexts).toList := by
    have hoperands : (v.args.map (nameWord 'v')).filter (fun w => w.head? != some 'v') = [] := by
      simp
    rw [List.filter_append, hoperands, List.nil_append, List.filter_eq_self]
    exact fun w hw => v.head?_of_mem_payload hw
  rw [hline, readLine_value, readValue_append v.id v.uses hmargin hhash rest, hwords,
    List.headD_cons, List.tail_cons, readOp_name, hargs, hpayload, Option.map_some,
    v.readPayload_words]
  rfl

end Values

theorem readLine_headLine (s : Settings) (f : Func) :
    readLine (f.headLine s).toList = some .head := by
  rw [Func.headLine, String.toList_append, String.toList_append, String.toList_append]
  rfl

end CodeDump.Ir
