import CodeDump.Codec.Text
import CodeDump.Proofs.ListingLines

/-!
# Predecessors of a block

A block takes two predecessors, and its label line has room for two. A request for one more is
refused when the block has exactly two, so a block that starts with at most two never gets a
third and its label line names them all. A stored block is not asked how many it brings: one
that has three or more is read as it is, is never refused another, and shows the first two.
-/

namespace CodeDump.Ir.Block

/-- Asks for each predecessor in turn. A refused request leaves the block as it was. -/
def addPreds (b : Block) : List BlockId → Block
  | [] => b
  | p :: ps =>
      match b.addPred p with
      | .ok b' => b'.addPreds ps
      | .error _ => b.addPreds ps

/-- No more predecessors than a block takes. -/
def Bounded (b : Block) : Prop := b.preds.length ≤ maxPreds

instance (b : Block) : Decidable b.Bounded :=
  inferInstanceAs (Decidable (b.preds.length ≤ maxPreds))

/-- All predecessors, as a label line that leaves out none of them would show them. -/
def allPredsText (b : Block) : String :=
  if b.preds.isEmpty then "" else " <-" ++ String.join (b.preds.map fun p => " " ++ blockName p)

/-- The label line shows every predecessor. -/
def ListsPreds (b : Block) : Prop :=
  b.labelLine = b.labelText ++ b.allPredsText ++ String.join b.commentTexts

theorem bounded_make (id : BlockId) (exit : Exit) : (make id exit).Bounded := Nat.zero_le maxPreds

theorem addPreds_nil (b : Block) : b.addPreds [] = b := rfl

theorem addPreds_cons_of_full {b : Block} (h : b.preds.length = maxPreds) (p : BlockId)
    (ps : List BlockId) : b.addPreds (p :: ps) = b.addPreds ps := by
  rw [addPreds, addPred, if_pos h]

theorem addPreds_cons_of_ne {b : Block} (h : b.preds.length ≠ maxPreds) (p : BlockId)
    (ps : List BlockId) :
    b.addPreds (p :: ps) = ({ b with preds := b.preds ++ [p] } : Block).addPreds ps := by
  rw [addPreds, addPred, if_neg h]

theorem addPreds_of_full {b : Block} (h : b.preds.length = maxPreds) (ps : List BlockId) :
    b.addPreds ps = b := by
  induction ps with
  | nil => exact b.addPreds_nil
  | cons p ps ih => rw [addPreds_cons_of_full h, ih]

/-- A block with at most two predecessors takes requests until it has two. -/
theorem addPreds_of_bounded {b : Block} (h : b.Bounded) (ps : List BlockId) :
    b.addPreds ps = { b with preds := (b.preds ++ ps).take maxPreds } := by
  induction ps generalizing b with
  | nil => rw [addPreds_nil, List.append_nil, List.take_of_length_le h]
  | cons p ps ih =>
    by_cases hfull : b.preds.length = maxPreds
    · have htake : (b.preds ++ p :: ps).take maxPreds = b.preds := by
        rw [← hfull, List.take_left]
      rw [addPreds_of_full hfull, htake]
    · have hroom : b.preds.length < maxPreds := Nat.lt_of_le_of_ne h hfull
      have hnext : ({ b with preds := b.preds ++ [p] } : Block).Bounded := by
        rw [Bounded, List.length_append]
        exact hroom
      rw [addPreds_cons_of_ne hfull, ih hnext, List.append_assoc, List.singleton_append]

/-- A block with more than two predecessors is refused none. -/
theorem addPreds_of_not_bounded {b : Block} (h : ¬ b.Bounded) (ps : List BlockId) :
    b.addPreds ps = { b with preds := b.preds ++ ps } := by
  induction ps generalizing b with
  | nil => rw [addPreds_nil, List.append_nil]
  | cons p ps ih =>
    have hmore : maxPreds < b.preds.length := Nat.lt_of_not_le h
    have hnext : ¬ ({ b with preds := b.preds ++ [p] } : Block).Bounded := by
      rw [Bounded, List.length_append]
      omega
    rw [addPreds_cons_of_ne (by omega), ih hnext, List.append_assoc, List.singleton_append]

theorem bounded_addPreds {b : Block} (h : b.Bounded) (ps : List BlockId) :
    (b.addPreds ps).Bounded := by
  rw [addPreds_of_bounded h]
  exact List.length_take_le maxPreds _

theorem labelLine_eq (b : Block) :
    b.labelLine = b.labelText ++ String.join b.predsTexts ++ String.join b.commentTexts := by
  rw [labelLine, String.join_append, String.append_assoc]

theorem listsPreds_iff_texts (b : Block) :
    b.ListsPreds ↔ String.join b.predsTexts = b.allPredsText := by
  rw [ListsPreds, labelLine_eq]
  simp

/-- What is shown, and behind it what is left out. -/
theorem allPredsText_eq (b : Block) :
    b.allPredsText = String.join b.predsTexts ++
      String.join ((b.preds.drop maxPreds).map fun p => " " ++ blockName p) := by
  have harrow (s : String) : " <-" ++ (" " ++ s) = " <- " ++ s := (String.append_assoc ..).symm
  match h : b.preds with
  | [] => simp [allPredsText, predsTexts_eq, h]
  | [p] => simp [allPredsText, predsTexts_eq, h, maxPreds, harrow]
  | p :: q :: rest => simp [allPredsText, predsTexts_eq, h, maxPreds, harrow, String.append_assoc]

theorem listsPreds_iff (b : Block) : b.ListsPreds ↔ b.Bounded := by
  rw [listsPreds_iff_texts, allPredsText_eq, Bounded, ← List.drop_eq_nil_iff]
  cases h : b.preds.drop maxPreds with
  | nil => simp
  | cons p rest => simp [← String.toList_inj]

/-- Every sequence of requests leaves a block with at most two predecessors, all of them shown in
its label line, exactly if it had at most two before, as every block has that was just made. Then
it takes the first of the requests, until it has two; otherwise it takes every one. -/
theorem bounded_addPreds_iff (b : Block) :
    (∀ id exit, b = make id exit → b.Bounded) ∧
      ((∀ ps, (b.addPreds ps).Bounded ∧ (b.addPreds ps).ListsPreds) ↔ b.Bounded) ∧
      ∀ ps, b.addPreds ps =
        if b.Bounded then { b with preds := (b.preds ++ ps).take maxPreds }
        else { b with preds := b.preds ++ ps } := by
  refine ⟨?_, ⟨fun h => (h []).1, fun h ps => ?_⟩, fun ps => ?_⟩
  · rintro id exit rfl
    exact bounded_make id exit
  · have hbound := bounded_addPreds h ps
    exact ⟨hbound, (listsPreds_iff _).mpr hbound⟩
  · by_cases h : b.Bounded
    · rw [if_pos h, addPreds_of_bounded h]
    · rw [if_neg h, addPreds_of_not_bounded h]

/-- A stored block with three predecessors is read, takes a fourth and shows two of them. -/
theorem stored_block_not_bounded :
    ∃ b : Block,
      Stored.read "\x7b\"id\":7,\"preds\":[0,1,2],\"exit\":\x7b\"Cont\":null\x7d\x7d" = .ok b ∧
        ¬ b.Bounded ∧ ¬ b.ListsPreds ∧ b.labelLine = "  b7: <- b0 b1" ∧
        (b.addPreds [70]).preds = [0, 1, 2, 70] := by
  let text := "\x7b\"id\":7,\"preds\":[0,1,2],\"exit\":\x7b\"Cont\":null\x7d\x7d"
  have hpreds : (Stored.read text).toOption.map Block.preds = some [0, 1, 2] := by decide +kernel
  have hline : (Stored.read text).toOption.map Block.labelLine = some "  b7: <- b0 b1" := by
    decide +kernel
  cases hread : (Stored.read text : Except Fault Block) with
  | error f =>
    rw [hread] at hpreds
    cases hpreds
  | ok b =>
    rw [hread] at hpreds hline
    have hthree : b.preds = [0, 1, 2] := Option.some.inj hpreds
    have hbound : ¬ b.Bounded := by
      rw [Bounded, hthree]
      decide
    refine ⟨b, rfl, hbound, fun hlists => hbound ((listsPreds_iff b).mp hlists),
      Option.some.inj hline, ?_⟩
    rw [addPreds_of_not_bounded hbound, hthree]
    rfl

end CodeDump.Ir.Block
