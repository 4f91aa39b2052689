import CodeDump.Proofs.AppendOnly
import CodeDump.Proofs.ListingLines

/-!
# One line per item

The items of a module are what its listing goes through: for every function a head, for every block
a label, its values and its exit, and a close. Each item has one line, which begins as the kind of
the item says. The types and parameters in it are fragments, which start no line at their depth; so
in an unbroken module the line feeds of a listing are those in front of its lines, and there are as
many as there are items.
-/

namespace CodeDump.Ir

/-- What a line of a listing stands for. -/
inductive Item
  | head (f : Func)
  | label (b : Block)
  | value (v : Value)
  | exit (e : Exit)
  | close

def Block.items (b : Block) : List Item :=
  [.label b] ++ b.values.map .value ++ [.exit b.exit]

def Func.items (f : Func) : List Item := [.head f] ++ f.blocks.flatMap Block.items ++ [.close]

/-- The items of a module in the order of its listing. -/
def Module.items (m : Module) : List Item := m.functions.flatMap Func.items

def Exit.keyword : Exit → String
  | goto _ => "cont"
  | first _ _ _ => "first"
  | branch _ _ _ => "if"
  | ret _ => "ret"

namespace Item

def line (s : Settings) : Item → String
  | head f => f.headLine s
  | label b => b.labelLine
  | value v => v.line s
  | exit e => "  " ++ e.text
  | close => "\x7d"

/-- Items one below the other, each line behind a line feed. -/
def listing (s : Settings) (items : List Item) : String :=
  String.join (items.map fun item => "\n" ++ item.line s)

/-- How the line of an item begins. A closing line has nothing but its brace. -/
def Begins : Item → String → Prop
  | head f, line => ∃ rest, line = "fun " ++ f.name ++ "(" ++ rest
  | label b, line => ∃ rest, line = "  b" ++ Radix.decimal b.id.toNat ++ ":" ++ rest
  | value v, line => ∃ rest, line = "    v" ++ Radix.decimal v.id.toNat ++ rest
  | exit e, line => ∃ rest, line = "  " ++ e.keyword ++ rest
  | close, line => line = "\x7d"

theorem listing_append (s : Settings) (xs ys : List Item) :
    listing s (xs ++ ys) = listing s xs ++ listing s ys := by
  rw [listing, List.map_append, String.join_append]
  rfl

theorem listing_cons (s : Settings) (item : Item) (items : List Item) :
    listing s (item :: items) = "\n" ++ item.line s ++ listing s items := by
  rw [listing, List.map_cons, String.join_cons]
  rfl

end Item

section Lines

variable (s : Settings)

theorem Block.lines_eq (b : Block) : b.lines s = b.items.map (Item.line s) := by
  rw [Block.lines, Block.items, List.map_append, List.map_append, List.map_map]
  rfl

theorem Func.lines_eq (f : Func) : f.lines s = f.items.map (Item.line s) := by
  rw [Func.lines, Func.items, List.map_append, List.map_append, List.map_flatMap]
  simp only [← Block.lines_eq s]
  rfl

theorem Module.lines_eq (m : Module) : m.lines s = m.items.map (Item.line s) := by
  rw [Module.lines, Module.items, List.map_flatMap]
  simp only [← Func.lines_eq s]

theorem Module.text_eq (m : Module) : m.text s = Item.listing s m.items := by
  rw [← String.toList_inj, m.toList_text s, m.lines_eq s, Item.listing, String.toList_join]
  simp [lineChars, List.flatMap_map]

theorem Exit.exists_text (e : Exit) : ∃ rest, e.text = e.keyword ++ rest := by
  have hbranch (kind : String) (c : ValueId) (yes no : BlockId) :
      ∃ rest, kind ++ " " ++ valueName 0 c ++ " -> " ++ blockName yes ++ " " ++ blockName no =
        kind ++ rest :=
    ⟨" " ++ valueName 0 c ++ " -> " ++ blockName yes ++ " " ++ blockName no,
      by simp only [String.append_assoc]⟩
  cases e with
  | goto next =>
    cases next with
    | none => exact ⟨" -> ?", rfl⟩
    | some next => exact ⟨" -> " ++ blockName next, (String.append_assoc ..).symm⟩
  | first c yes no => exact hbranch "first" c yes no
  | branch c yes no => exact hbranch "if" c yes no
  | ret value =>
    cases value with
    | none => exact ⟨"", rfl⟩
    | some c => exact ⟨" " ++ valueName 0 c, (String.append_assoc ..).symm⟩

theorem Block.labelText_eq (b : Block) :
    b.labelText = "  b" ++ Radix.decimal b.id.toNat ++ ":" := by
  rw [Block.labelText, blockName, ← String.append_assoc]
  rfl

theorem Value.exists_leadText (v : Value) :
    ∃ rest, v.leadText = "    v" ++ Radix.decimal v.id.toNat ++ rest := by
  refine ⟨String.ofList (List.replicate (2 - (Radix.decimal v.id.toNat).length) ' ') ++ " ", ?_⟩
  rw [Value.leadText, valueName, Radix.padRight]
  simp only [← String.append_assoc]
  rfl

theorem Item.begins_line (item : Item) : item.Begins (item.line s) := by
  cases item with
  | head f => exact ⟨_, rfl⟩
  | label b =>
    rw [Item.line, Block.labelLine, Block.labelText_eq]
    exact ⟨_, rfl⟩
  | value v =>
    obtain ⟨rest, hrest⟩ := v.exists_leadText
    rw [Item.line, Value.line, hrest, String.append_assoc, String.append_assoc]
    exact ⟨_, rfl⟩
  | exit e =>
    obtain ⟨rest, hrest⟩ := e.exists_text
    rw [Item.line, hrest, ← String.append_assoc]
    exact ⟨_, rfl⟩
  | close => rfl

end Lines

/-- As many line feeds as lines that have none of their own. -/
theorem count_lineChars {lines : List String} (h : ∀ l ∈ lines, Free '\n' l) :
    (lineChars lines).count '\n' = lines.length := by
  induction lines with
  | nil => rfl
  | cons l lines ih =>
    obtain ⟨hl, hlines⟩ := List.forall_mem_cons.mp h
    rw [lineChars, List.flatMap_cons, List.count_append, List.count_cons_self,
      List.count_eq_zero_of_not_mem hl, List.length_cons]
    change 0 + 1 + (lineChars lines).count '\n' = _
    rw [ih hlines]
    omega

section Sizes

theorem Block.length_items (b : Block) : b.items.length = 2 + b.values.length := by
  simp [Block.items]
  omega

theorem Func.length_items (f : Func) :
    f.items.length = 2 + (f.blocks.map fun b => 2 + b.values.length).sum := by
  simp only [Func.items, List.length_append, List.length_flatMap, List.length_singleton,
    Block.length_items]
  omega

theorem Module.length_items (m : Module) :
    m.items.length =
      (m.functions.map fun f => 2 + (f.blocks.map fun b => 2 + b.values.length).sum).sum := by
  simp only [Module.items, List.length_flatMap, Func.length_items]

end Sizes

theorem Module.eq_text_of_dump {mem : Memory} {s : Settings} {m : Module} {t : String}
    (h : m.dump mem s = .ok t) : t = m.text s := by
  rw [Module.dump, Buffer.Attempt.result] at h
  split at h
  · rename_i hdone
    injection h with h
    rw [← h, Buffer.buffer_of_putModule hdone]
    exact String.empty_append
  · cases h

/-- Where the line of an item stands in a buffer. -/
theorem Module.text_of_putModule {mem : Memory} {s : Settings} {m : Module} {b : Buffer}
    {above below : List Item} {item : Item} (hdone : (Buffer.putModule mem s m b).fault = none)
    (hitems : m.items = above ++ item :: below) :
    (Buffer.putModule mem s m b).buffer.text =
      b.text ++ Item.listing s above ++ "\n" ++ item.line s ++ Item.listing s below := by
  rw [Buffer.buffer_of_putModule hdone, m.text_eq s, hitems, Item.listing_append,
    Item.listing_cons]
  simp only [String.append_assoc]

/-- The dump of an unbroken module has one line for each item, in order and each behind its line
feed. A function thus has two line feeds, and two for each of its blocks and one for each of its
values besides. -/
theorem Module.dump_lines {mem : Memory} {s : Settings} {m : Module} {t : String}
    (h : m.Unbroken) (hdump : m.dump mem s = .ok t) :
    (∃ lines, t = String.join (lines.map ("\n" ++ ·)) ∧ List.Forall₂ Item.Begins m.items lines ∧
        ∀ l ∈ lines, Free '\n' l) ∧
      t.toList.count '\n' =
        (m.functions.map fun f => 2 + (f.blocks.map fun b => 2 + b.values.length).sum).sum := by
  have hfree := h.free_lines s
  rw [Module.eq_text_of_dump hdump]
  refine ⟨⟨m.lines s, ?_, ?_, hfree⟩, ?_⟩
  · rw [m.text_eq s, Item.listing, m.lines_eq s, List.map_map]
    rfl
  · rw [m.lines_eq s, List.forall₂_map_right_iff, List.forall₂_same]
    exact fun item _ => item.begins_line s
  · rw [m.toList_text s, count_lineChars hfree, m.lines_eq s, List.length_map, m.length_items]

/-- Two functions, one of them with a parameter and a value of struct types that hold a block. -/
theorem Module.dump_lines_structs :
    let point : Ty := .struct none [⟨"x", none, some (.block [.bad, .bad])⟩]
    let m : Module :=
      ⟨[⟨"f", some ⟨"f", [⟨"p", some (.fresh point), some (.block [.bad])⟩], .func [] point, none⟩,
        [⟨0, [], .ret (some 1), some "entry", [Value.arg 1 (.pointer point) 0]⟩]⟩, Func.make "g"]⟩
    m.Unbroken ∧ ∃ t, m.dump .standard .default = .ok t ∧ t.toList.count '\n' = 7 := by
  intro point m
  have hm : m.Unbroken := by decide
  have hdump : m.dump .standard .default = .ok (m.text .default) := by decide +kernel
  exact ⟨hm, _, hdump, (Module.dump_lines hm hdump).2⟩

end CodeDump.Ir
