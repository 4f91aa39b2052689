import CodeDump.Proofs.Nesting

/-!
# Dumps inside of dumps

The text of a block is made of the texts of its members, each moved to the right by one level, and
the text of a unit is made of the texts of its members as they are. A member is printed at a deeper
level and behind other text, while its own text starts at level zero in an empty place. Neither
makes a difference beyond the spaces at the start of its lines: the run of a node does not ask what
precedes it, and at a deeper level every line of it gets the same number of spaces more.
-/

namespace CodeDump

/-- What stands between the line feeds of a text. -/
def textLines (t : String) : List String := (t.toList.splitOn '\n').map String.ofList

/-- A text with `n` spaces at the start of each of its lines. -/
def indented (n : Nat) (t : String) : String :=
  "\n".intercalate ((textLines t).map (Piece.spaces n ++ ·))

theorem newline_not_mem_of_mem_splitOn {cs l : List Char} (h : l ∈ cs.splitOn '\n') : '\n' ∉ l := by
  induction cs generalizing l with
  | nil =>
    rw [List.splitOn_nil, List.mem_singleton] at h
    rw [h]
    exact List.not_mem_nil
  | cons c cs ih =>
    rw [List.splitOn_cons_eq_if_modifyHead] at h
    obtain ⟨first, rest, hsplit⟩ := List.exists_cons_of_ne_nil (List.splitOn_ne_nil '\n' cs)
    rw [hsplit] at h ih
    by_cases hc : c = '\n'
    · rw [if_pos (beq_iff_eq.mpr hc)] at h
      rcases List.mem_cons.mp h with rfl | h
      · exact List.not_mem_nil
      · exact ih h
    · rw [if_neg (by simpa using hc), List.modifyHead_cons] at h
      rcases List.mem_cons.mp h with rfl | h
      · rw [List.mem_cons, not_or]
        exact ⟨fun heq => hc heq.symm, ih List.mem_cons_self⟩
      · exact ih (List.mem_cons_of_mem _ h)

theorem free_of_mem_textLines {t l : String} (h : l ∈ textLines t) : Free '\n' l := by
  obtain ⟨cs, hcs, rfl⟩ := List.mem_map.mp h
  rw [Free, String.toList_ofList]
  exact newline_not_mem_of_mem_splitOn hcs

theorem textLines_ne_nil (t : String) : textLines t ≠ [] := by
  simp [textLines, List.splitOn_ne_nil]

theorem intercalate_textLines (t : String) : "\n".intercalate (textLines t) = t := by
  rw [← String.toList_inj, String.toList_intercalate, textLines, List.map_map]
  simp [Function.comp_def, List.intercalate_splitOn]

theorem textLines_of_free {t : String} (h : Free '\n' t) : textLines t = [t] := by
  rw [textLines, List.splitOn_eq_singleton h, List.map_singleton, String.ofList_toList]

theorem textLines_append_newline (t u : String) :
    textLines (t ++ ("\n" ++ u)) = textLines t ++ textLines u := by
  have hlist : (t ++ ("\n" ++ u)).toList = t.toList ++ '\n' :: u.toList := by
    simp
  rw [textLines, hlist, List.splitOn_append_cons_self, List.map_append]
  rfl

/-- Texts that each begin a new line. -/
theorem textLines_append_join (t : String) (ts : List String) :
    textLines (t ++ String.join (ts.map ("\n" ++ ·))) = textLines t ++ ts.flatMap textLines := by
  induction ts generalizing t with
  | nil => simp
  | cons u us ih =>
    rw [List.map_cons, String.join_cons, String.append_assoc, textLines_append_newline, ih,
      List.flatMap_cons]

theorem intercalate_newline (t : String) (ts : List String) :
    "\n".intercalate (t :: ts) = t ++ String.join (ts.map ("\n" ++ ·)) := by
  induction ts generalizing t with
  | nil => simp
  | cons u us ih =>
    rw [String.intercalate_cons_cons, ih, List.map_cons, String.join_cons, String.append_assoc,
      String.append_assoc]

theorem textLines_intercalate {ls : List String} (hne : ls ≠ []) (h : ∀ l ∈ ls, Free '\n' l) :
    textLines ("\n".intercalate ls) = ls := by
  have hfree : ∀ cs ∈ ls.map String.toList, '\n' ∉ cs := by
    intro cs hcs
    obtain ⟨l, hl, rfl⟩ := List.mem_map.mp hcs
    exact h l hl
  rw [textLines, String.toList_intercalate]
  change (List.splitOn '\n' (['\n'].intercalate _)).map _ = _
  rw [List.splitOn_intercalate '\n' hfree (by simpa using hne), List.map_map]
  simp

theorem textLines_indented (n : Nat) (t : String) :
    textLines (indented n t) = (textLines t).map (Piece.spaces n ++ ·) := by
  apply textLines_intercalate
  · simpa using textLines_ne_nil t
  · intro l hl
    obtain ⟨m, hm, rfl⟩ := List.mem_map.mp hl
    rw [free_append]
    exact ⟨free_spaces (by decide) n, free_of_mem_textLines hm⟩

theorem map_spaces_zero (ls : List String) : ls.map (Piece.spaces 0 ++ ·) = ls := by
  have hzero : Piece.spaces 0 = "" := by decide
  simp [hzero]

theorem map_spaces_add (m n : Nat) (ls : List String) :
    ls.map (Piece.spaces (m + n) ++ ·) =
      (ls.map (Piece.spaces n ++ ·)).map (Piece.spaces m ++ ·) := by
  have hadd : Piece.spaces (m + n) = Piece.spaces m ++ Piece.spaces n := by
    rw [Piece.spaces, Piece.spaces, Piece.spaces, List.replicate_add, String.ofList_append]
  simp [hadd, String.append_assoc]

theorem infix_flatMap {α β : Type} (f : α → List β) {x : α} {xs : List α} (h : x ∈ xs) :
    f x <:+: xs.flatMap f := by
  rw [List.flatMap_def]
  exact List.infix_of_mem_flatten (List.mem_map_of_mem h)

/-- Spaces behind every line feed. -/
def deepen (n : Nat) (cs : List Char) : List Char :=
  cs.flatMap fun c => if c = '\n' then '\n' :: List.replicate n ' ' else [c]

@[simp] theorem deepen_nil (n : Nat) : deepen n [] = [] := rfl

@[simp] theorem deepen_append (n : Nat) (cs ds : List Char) :
    deepen n (cs ++ ds) = deepen n cs ++ deepen n ds :=
  List.flatMap_append

theorem deepen_newline (n : Nat) (cs : List Char) :
    deepen n ('\n' :: cs) = '\n' :: (List.replicate n ' ' ++ deepen n cs) := by
  simp [deepen]

theorem deepen_cons_of_ne {c : Char} (h : c ≠ '\n') (n : Nat) (cs : List Char) :
    deepen n (c :: cs) = c :: deepen n cs := by
  simp [deepen, h]

theorem deepen_of_not_mem {cs : List Char} (h : '\n' ∉ cs) (n : Nat) : deepen n cs = cs := by
  induction cs with
  | nil => rfl
  | cons c cs ih =>
    rw [List.mem_cons, not_or] at h
    rw [deepen_cons_of_ne (Ne.symm h.1), ih h.2]

theorem deepen_replicate (n m : Nat) : deepen n (List.replicate m ' ') = List.replicate m ' ' := by
  apply deepen_of_not_mem
  intro h
  cases List.eq_of_mem_replicate h

theorem toList_spaces (n : Nat) : (Piece.spaces n).toList = List.replicate n ' ' :=
  String.toList_ofList

theorem deepen_join {ls : List String} (h : ∀ l ∈ ls, Free '\n' l) (n : Nat) :
    deepen n (String.join (ls.map ("\n" ++ ·))).toList =
      (String.join ((ls.map (Piece.spaces n ++ ·)).map ("\n" ++ ·))).toList := by
  induction ls with
  | nil => rfl
  | cons l ls ih =>
    obtain ⟨hl, hls⟩ := List.forall_mem_cons.mp h
    have hline : deepen n ("\n" ++ l).toList = ("\n" ++ (Piece.spaces n ++ l)).toList := by
      simp [deepen_newline, deepen_of_not_mem hl, toList_spaces]
    rw [List.map_cons, List.map_cons, List.map_cons, String.join_cons, String.join_cons,
      String.toList_append, deepen_append, hline, ih hls, ← String.toList_append]

/-- Indenting puts spaces in front of the text and behind each of its line feeds. -/
theorem toList_indented (n : Nat) (t : String) :
    (indented n t).toList = List.replicate n ' ' ++ deepen n t.toList := by
  obtain ⟨l, ls, hlines⟩ := List.exists_cons_of_ne_nil (textLines_ne_nil t)
  have hfree : ∀ m ∈ l :: ls, Free '\n' m := fun m hm => free_of_mem_textLines (hlines ▸ hm)
  obtain ⟨hl, hls⟩ := List.forall_mem_cons.mp hfree
  have ht : t.toList = l.toList ++ (String.join (ls.map ("\n" ++ ·))).toList := by
    rw [← String.toList_append, ← intercalate_newline, ← hlines, intercalate_textLines]
  rw [ht, deepen_append, deepen_of_not_mem hl, deepen_join hls, indented, hlines, List.map_cons,
    intercalate_newline, String.toList_append, String.toList_append, toList_spaces,
    List.append_assoc]

namespace Piece

variable {name : String → Bool} {width : Nat}

theorem deepen_line (level k : Nat) :
    deepen (k * width) ('\n' :: List.replicate (level * width) ' ') =
      '\n' :: List.replicate ((level + k) * width) ' ' := by
  rw [deepen_newline, deepen_replicate, ← List.replicate_add, Nat.add_mul, Nat.add_comm]

theorem deepen_linesOf {fs : List (Nat → Run)} {level k : Nat}
    (h : ∀ f ∈ fs, chars (f (level + k)) = deepen (k * width) (chars (f level))) :
    chars (linesOf width fs (level + k)) =
      deepen (k * width) (chars (linesOf width fs level)) := by
  induction fs with
  | nil => rfl
  | cons f fs ih =>
    obtain ⟨hf, hfs⟩ := List.forall_mem_cons.mp h
    rw [chars_linesOf_cons, chars_linesOf_cons, ih hfs, hf, deepen_append, ← List.cons_append,
      ← List.cons_append, deepen_append, deepen_line]

theorem deepen_bodyOf {fs : List (Nat → Run)} {level k : Nat}
    (h : ∀ f ∈ fs, chars (f (level + 1 + k)) = deepen (k * width) (chars (f (level + 1)))) :
    chars (bodyOf width fs (level + k)) = deepen (k * width) (chars (bodyOf width fs level)) := by
  rw [bodyOf, bodyOf, chars_append, chars_append, deepen_append, Nat.add_right_comm,
    deepen_linesOf h]
  by_cases hempty : fs.isEmpty
  · rw [if_pos hempty, if_pos hempty, chars_nil, deepen_nil]
  · rw [if_neg hempty, if_neg hempty, chars_cons, chars_cons, toList_shown_line,
      toList_shown_line, chars_nil, List.append_nil, List.append_nil, deepen_line]

/-- At a level that is `k` deeper, every line but the first has `k` levels of spaces more. -/
theorem deepen_formed (hname : ∀ n, name n = true → Free '\n' n) {led : Bool} {f : Nat → Run}
    (h : Formed name width led f) (level k : Nat) :
    chars (f (level + k)) = deepen (k * width) (chars (f level)) := by
  induction h generalizing level with
  | nil => rfl
  | text h | elided h =>
    have hfree := h.free hname
    simp only [chars_cons, shown_text, shown_elided, chars_nil, List.append_nil]
    exact (deepen_of_not_mem hfree _).symm
  | later _ ih => exact ih level
  | append _ _ ihf ihg => rw [chars_append, chars_append, deepen_append, ihf, ihg]
  | enclosed _ h ih =>
    have hfree : ∀ e ∈ enclosures, Free '\n' e.1 ∧ Free '\n' e.2 := by decide
    obtain ⟨ho, hc⟩ := hfree _ h
    simp only [chars_append, chars_cons, shown_text, chars_nil, List.append_nil, deepen_append, ih,
      deepen_of_not_mem ho, deepen_of_not_mem hc]
  | collapsed =>
    have hfree : '\n' ∉ chars [.text "\x7b", .elided "...", .text "\x7d"] := by decide
    exact (deepen_of_not_mem hfree _).symm
  | braced _ ih =>
    have hopen : Free '\n' "\x7b" := by decide
    have hclose : Free '\n' "\x7d" := by decide
    have hbody := deepen_bodyOf fun f hf => ih f hf (level + 1)
    simp only [chars_append, chars_cons, shown_text, chars_nil, List.append_nil, deepen_append,
      hbody, deepen_of_not_mem hopen, deepen_of_not_mem hclose]

/-- Lines whose texts are known. -/
theorem chars_linesOf_map {α : Type} {f : α → Nat → Run} {g : α → String} {level : Nat}
    {xs : List α}
    (h : ∀ x ∈ xs, List.replicate (level * width) ' ' ++ chars (f x level) = (g x).toList) :
    chars (linesOf width (xs.map f) level) =
      (String.join ((xs.map g).map ("\n" ++ ·))).toList := by
  induction xs with
  | nil => rfl
  | cons x xs ih =>
    obtain ⟨hx, hxs⟩ := List.forall_mem_cons.mp h
    rw [List.map_cons, chars_linesOf_cons, ih hxs, hx, List.map_cons, List.map_cons,
      String.join_cons, String.toList_append, String.toList_append]
    rfl

end Piece

/-- A name without line feeds. -/
def isOneLine (n : String) : Bool := decide (Free '\n' n)

namespace Node

/-- The node `c` stands `k` blocks below the node `n`. -/
inductive Nested : Nat → Node → Node → Prop
  | here (n : Node) : Nested 0 n n
  | inside {k : Nat} {c n : Node} {items : List Node} (hn : n ∈ items) (h : Nested k c n) :
      Nested (k + 1) c (.block items)

section Texts

variable (width : UInt64) (step : LoopStep)

/-- A node at level one shows its text one level to the right. -/
theorem toList_indented_shownText {n : Node} (h : n.plain isOneLine = true) {d : Nat}
    (hd : d ≠ 0) :
    List.replicate (1 * width.toNat) ' ' ++ Piece.chars (n.pieces ⟨0, width, step⟩ 1 d) =
      (indented width.toNat (n.shownText width step d)).toList := by
  have hformed := Node.formed_pieces ⟨0, width, step⟩ hd n h
  have hdeepen := Piece.deepen_formed (fun _ => of_decide_eq_true) hformed 0 1
  rw [Nat.zero_add, Nat.one_mul] at hdeepen
  rw [toList_indented, Node.toList_shownText width step h hd, ← hdeepen, Nat.one_mul]

/-- Braces around the texts of the members, each of them one level to the right. -/
theorem shownText_block {ns : List Node} (hne : ns ≠ [])
    (h : ∀ n ∈ ns, n.plain isOneLine = true) {d : Nat} (hd : 2 ≤ d) :
    (Node.block ns).shownText width step d =
      "\x7b" ++ String.join ((ns.map fun n =>
        indented width.toNat (n.shownText width step (d - 1))).map ("\n" ++ ·)) ++ "\n\x7d" := by
  have hplain : (Node.block ns).plain isOneLine = true := (Node.allPlain_iff isOneLine ns).mpr h
  have hpieces : (Node.block ns).pieces ⟨0, width, step⟩ 0 d =
      [.text "\x7b"] ++ (Node.lines ⟨0, width, step⟩ 1 (d - 1) ns ++ [.line 0]) ++
        [.text "\x7d"] := by
    simp [Node.pieces, hne, show d ≠ 0 by omega, show ¬ d ≤ 1 by omega, Settings.lineAt]
  have hlines : Piece.chars (Piece.linesOf width.toNat
      (ns.map fun n level => n.pieces ⟨0, width, step⟩ level (d - 1)) 1) =
        (String.join ((ns.map fun n =>
          indented width.toNat (n.shownText width step (d - 1))).map ("\n" ++ ·))).toList := by
    apply Piece.chars_linesOf_map
    intro n hn
    exact toList_indented_shownText width step (h n hn) (by omega)
  rw [← String.toList_inj, Node.toList_shownText width step hplain (by omega), hpieces,
    Node.lines_eq]
  simp only [Piece.chars_append, hlines]
  simp

/-- The texts of the members, separated by line feeds. -/
theorem shownText_unit {ns : List Node} (hne : ns ≠ []) (h : ∀ n ∈ ns, n.plain isOneLine = true)
    {d : Nat} (hd : 2 ≤ d) (htext : ∀ n ∈ ns, n.shownText width step (d - 1) ≠ "") :
    (Node.unit ns).shownText width step d =
      "\n".intercalate (ns.map (Node.shownText width step (d - 1))) := by
  obtain ⟨n, ns, rfl⟩ := List.exists_cons_of_ne_nil hne
  obtain ⟨hn, hns⟩ := List.forall_mem_cons.mp h
  have hlines : Piece.chars (Piece.linesOf width.toNat
      (ns.map fun n level => n.pieces ⟨0, width, step⟩ level (d - 1)) 0) =
        (String.join ((ns.map (Node.shownText width step (d - 1))).map ("\n" ++ ·))).toList := by
    apply Piece.chars_linesOf_map
    intro m hm
    rw [Nat.zero_mul, List.replicate_zero, List.nil_append,
      Node.toList_shownText width step (hns m hm) (by omega)]
  rw [← String.toList_inj, Node.toList_shownText_unit width step hn hd (htext n List.mem_cons_self),
    hlines, List.map_cons, intercalate_newline, String.toList_append]

theorem textLines_shownText_block {ns : List Node} (hne : ns ≠ [])
    (h : ∀ n ∈ ns, n.plain isOneLine = true) {d : Nat} (hd : 2 ≤ d) :
    textLines ((Node.block ns).shownText width step d) =
      "\x7b" :: (ns.flatMap fun n =>
        (textLines (n.shownText width step (d - 1))).map (Piece.spaces width.toNat ++ ·)) ++
          ["\x7d"] := by
  have hopen : textLines "\x7b" = ["\x7b"] := textLines_of_free (by decide)
  have hclose : textLines "\x7d" = ["\x7d"] := textLines_of_free (by decide)
  have hlast : "\n\x7d" = "\n" ++ "\x7d" := by decide
  rw [shownText_block width step hne h hd, hlast, textLines_append_newline, textLines_append_join,
    hopen, hclose, List.flatMap_map]
  simp only [textLines_indented]
  rfl

theorem textLines_shownText_unit {ns : List Node} (hne : ns ≠ [])
    (h : ∀ n ∈ ns, n.plain isOneLine = true) {d : Nat} (hd : 2 ≤ d)
    (htext : ∀ n ∈ ns, n.shownText width step (d - 1) ≠ "") :
    textLines ((Node.unit ns).shownText width step d) =
      ns.flatMap fun n => textLines (n.shownText width step (d - 1)) := by
  rw [shownText_unit width step hne h hd htext]
  cases ns with
  | nil => exact absurd rfl hne
  | cons n ns =>
    rw [List.map_cons, intercalate_newline, textLines_append_join, List.flatMap_map,
      List.flatMap_cons]

/-- What stands `k` blocks below a node is found in its text, `k` levels to the right. -/
theorem Nested.infix_textLines {k : Nat} {c n : Node} (h : Nested k c n)
    (hn : n.plain isOneLine = true) {d : Nat} (hd : k < d) :
    (textLines (c.shownText width step (d - k))).map (Piece.spaces (k * width.toNat) ++ ·) <:+:
      textLines (n.shownText width step d) := by
  induction h generalizing d with
  | here n =>
    rw [Nat.zero_mul, map_spaces_zero]
    exact List.infix_rfl
  | @inside k c n items hmem _ ih =>
    have hitems := (Node.allPlain_iff isOneLine items).mp hn
    have hne : items ≠ [] := List.ne_nil_of_mem hmem
    have hinner := ih (hitems n hmem) (show k < d - 1 by omega)
    rw [textLines_shownText_block width step hne hitems (by omega),
      show d - (k + 1) = d - 1 - k by omega, Nat.succ_mul, Nat.add_comm, map_spaces_add]
    have hmember := infix_flatMap (fun n : Node =>
      (textLines (n.shownText width step (d - 1))).map (Piece.spaces width.toNat ++ ·)) hmem
    exact ((hinner.map _).trans hmember).trans ⟨["\x7b"], ["\x7d"], rfl⟩

end Texts

/-- The text of a block or a unit is made of the texts of its members, one level shallower; and the
text of what stands `k` blocks below has its lines in it, one after the other, `k` levels to the
right. The texts are what dumps give if their requests are granted, and no dump gives anything
else. -/
theorem shownText_members (s : Settings) {cs : List Node} (hne : cs ≠ [])
    (h : ∀ c ∈ cs, c.plain isOneLine = true) {d : Nat} (hd : 2 ≤ d) :
    let text (e : Nat) (n : Node) : String := n.shownText s.indentWidth s.loopStep e
    let width : Nat := s.indentWidth.toNat
    (text d (.block cs) =
        "\x7b" ++ String.join (cs.map fun c => "\n" ++ indented width (text (d - 1) c)) ++
          "\n\x7d" ∧
      ∀ k c, Nested k c (.block cs) → k < d →
        (textLines (text (d - k) c)).map (Piece.spaces (k * width) ++ ·) <:+:
          textLines (text d (.block cs))) ∧
    ((∀ c ∈ cs, text (d - 1) c ≠ "") →
      text d (.unit cs) = "\n".intercalate (cs.map (text (d - 1))) ∧
      ∀ m ∈ cs, ∀ k c, Nested k c m → k < d - 1 →
        (textLines (text (d - 1 - k) c)).map (Piece.spaces (k * width) ++ ·) <:+:
          textLines (text d (.unit cs))) ∧
    ∀ e n, 1 ≤ e → ∀ mem t, n.dump mem s e = .ok t ↔
      Buffer.Accepted mem s .empty (text e n) ∧ t = text e n := by
  intro text width
  refine ⟨⟨?_, ?_⟩, ?_, ?_⟩
  · have hblock := shownText_block s.indentWidth s.loopStep hne h hd
    rw [List.map_map] at hblock
    exact hblock
  · intro k c hc hk
    have hplain : (Node.block cs).plain isOneLine = true := (Node.allPlain_iff isOneLine cs).mpr h
    exact hc.infix_textLines _ _ hplain hk
  · intro htext
    refine ⟨shownText_unit _ _ hne h hd htext, fun m hm k c hc hk => ?_⟩
    have hinner := hc.infix_textLines s.indentWidth s.loopStep (h m hm) hk
    have hlines := textLines_shownText_unit s.indentWidth s.loopStep hne h hd htext
    have hmember := infix_flatMap (fun n : Node => textLines (text (d - 1) n)) hm
    rw [← hlines] at hmember
    exact hinner.trans hmember
  · intro e n he mem t
    exact Node.dump_eq_ok_iff mem s he n t

/-- A block two blocks below another one, and a string literal with a line feed in it. -/
theorem shownText_members_blocks :
    let c : Node := .block [.ident "a", .ident "b"]
    let cs : List Node := [.block [c, .ret none], .strLit [0x0a]]
    (Node.block cs).shownText 2 .start 4 =
        "\x7b\n  \x7b\n    \x7b\n      a\n      b\n    \x7d\n" ++
          "    return\n  \x7d\n  \"\\n\"\n\x7d" ∧
      ["    \x7b", "      a", "      b", "    \x7d"] <:+:
        textLines ((Node.block cs).shownText 2 .start 4) ∧
      (Node.unit cs).shownText 2 .start 4 =
        "\x7b\n  \x7b\n    a\n    b\n  \x7d\n  return\n\x7d\n\"\\n\"" := by
  intro c cs
  have hplain : ∀ m ∈ cs, m.plain isOneLine = true := by decide
  obtain ⟨⟨hblock, hnested⟩, hunit, _⟩ :=
    shownText_members .default (List.cons_ne_nil _ _) hplain (show 2 ≤ 4 by decide)
  have hc : Nested 2 c (.block cs) :=
    .inside List.mem_cons_self (.inside List.mem_cons_self (.here c))
  have hlines : (textLines (c.shownText 2 .start 2)).map (Piece.spaces 4 ++ ·) =
      ["    \x7b", "      a", "      b", "    \x7d"] := by decide +kernel
  refine ⟨hblock.trans ?_, ?_, (hunit ?_).1.trans ?_⟩
  · decide +kernel
  · rw [← hlines]
    exact hnested 2 c hc (by decide)
  · decide +kernel
  · decide +kernel

end Node

end CodeDump
