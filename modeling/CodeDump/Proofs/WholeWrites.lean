import CodeDump.Proofs.Window

/-!
# Windows store whole writes

A window counts every write and stores the writes that lead to no overflow. As the count only
grows, what is stored is the beginning of what was written: the longest list of first writes that
the capacity has room for. A write that is dropped ends it, even if a shorter one that comes later
would fit, and writes of no bytes at the exact end still belong to it.

The count is exact as long as it is a machine word. The write that would take it further stops the
program, so no window ever shows a count that has gone round.

A run makes its writes one by one, and which they are does not depend on the window. So what is
said of lists of writes holds of runs.
-/

namespace CodeDump

theorem Piece.writesFrom_texts (started : Bool) (ss : List String) :
    writesFrom started (ss.map text) = ss := by
  induction ss generalizing started with
  | nil => rfl
  | cons s ss ih => rw [List.map_cons, writesFrom, ih, writes, List.singleton_append]

namespace Window

/-- One call that writes to a window: a text, a character, copies of a character, or all the texts
of a writer. -/
inductive Entry
  | push (s : String)
  | pushChar (c : Char)
  | fill (c : Char) (n : Nat)
  | format (texts : List String)

namespace Entry

def run : Entry → Run
  | push s => [.text s]
  | pushChar c => [.text (String.singleton c)]
  | fill c n => Piece.fill c n
  | format texts => texts.map .text

/-- What is written as a whole or not at all. -/
def writes : Entry → List String
  | push s => [s]
  | pushChar c => [String.singleton c]
  | fill c n => List.replicate n (String.singleton c)
  | format texts => texts

theorem run_eq (e : Entry) : e.run = e.writes.map .text := by
  cases e with
  | push s => rfl
  | pushChar c => rfl
  | fill c n => exact List.map_replicate.symm
  | format texts => rfl

theorem wholeWrites_flatMap_run (es : List Entry) :
    Piece.wholeWrites (es.flatMap run) = es.flatMap writes := by
  have hrun : es.flatMap run = (es.flatMap writes).map .text := by
    rw [List.map_flatMap, funext run_eq]
  rw [hrun, Piece.wholeWrites, Piece.writesFrom_texts]

end Entry

/-- The bytes of several writes. -/
def bytes : List String → Nat
  | [] => 0
  | s :: ss => s.utf8ByteSize + bytes ss

theorem utf8ByteSize_join (ss : List String) : (String.join ss).utf8ByteSize = bytes ss := by
  induction ss with
  | nil => rfl
  | cons s ss ih => rw [String.join_cons, String.utf8ByteSize_append, ih, bytes]

/-- The longest beginning of a list of writes that has at most `capacity` bytes. -/
structure LongestFit (capacity : Nat) (ss kept : List String) : Prop where
  beginning : kept <+: ss
  fits : bytes kept ≤ capacity
  longest : ∀ other, other <+: ss → bytes other ≤ capacity → other <+: kept

/-- There is only one. -/
theorem LongestFit.eq {capacity : Nat} {ss kept kept' : List String}
    (h : LongestFit capacity ss kept) (h' : LongestFit capacity ss kept') : kept = kept' :=
  (h'.longest kept h.beginning h.fits).eq_of_length_le
    (h.longest kept' h'.beginning h'.fits).length_le

def fitting : Nat → List String → List String
  | _, [] => []
  | capacity, s :: ss =>
      if s.utf8ByteSize ≤ capacity then s :: fitting (capacity - s.utf8ByteSize) ss else []

theorem longestFit_fitting (capacity : Nat) (ss : List String) :
    LongestFit capacity ss (fitting capacity ss) := by
  induction ss generalizing capacity with
  | nil => exact ⟨List.prefix_rfl, Nat.zero_le _, fun other h _ => h⟩
  | cons s ss ih =>
    rw [fitting]
    by_cases hs : s.utf8ByteSize ≤ capacity
    · obtain ⟨hbeginning, hfits, hlongest⟩ := ih (capacity - s.utf8ByteSize)
      rw [if_pos hs]
      refine ⟨(List.prefix_cons_inj s).mpr hbeginning, ?_, fun other h hother => ?_⟩
      · rw [bytes]
        omega
      · rcases List.prefix_cons_iff.mp h with rfl | ⟨rest, rfl, hrest⟩
        · exact List.nil_prefix
        · rw [bytes] at hother
          exact (List.prefix_cons_inj s).mpr (hlongest rest hrest (by omega))
    · rw [if_neg hs]
      refine ⟨List.nil_prefix, Nat.zero_le _, fun other h hother => ?_⟩
      rcases List.prefix_cons_iff.mp h with rfl | ⟨rest, rfl, -⟩
      · exact List.nil_prefix
      · rw [bytes] at hother
        omega

theorem overflowed_iff (w : Window) : w.overflowed = true ↔ w.capacity < w.need :=
  decide_eq_true_iff

theorem isEmpty_iff (w : Window) : w.isEmpty = true ↔ w.need = 0 := beq_iff_eq

/-- A window that has overflowed stays so and stores nothing more. -/
theorem Wrote.of_overflowed {w w' : Window} {s : String} (h : Wrote w s w')
    (hover : w.overflowed = true) : w'.overflowed = true ∧ w'.out = w.out := by
  rw [overflowed_iff] at hover ⊢
  refine ⟨?_, h.out.trans (if_neg (by omega))⟩
  rw [h.capacity, h.need]
  omega

theorem of_overflowed_of_writeAll {w w' : Window} {ss : List String}
    (h : w.writeAll ss = some w') (hover : w.overflowed = true) :
    w'.overflowed = true ∧ w'.out = w.out := by
  refine writeAll_induction (motive := fun x => x.overflowed = true ∧ x.out = w.out) ?_ h
    ⟨hover, rfl⟩
  rintro x s x' hwrote ⟨hx, hout⟩
  obtain ⟨hx', hout'⟩ := hwrote.of_overflowed hx
  exact ⟨hx', hout'.trans hout⟩

/-- While the count is within the capacity, the room that is left decides which of the next writes
are stored. -/
theorem out_of_writeAll {w w' : Window} {ss : List String} (h : w.writeAll ss = some w')
    (hroom : w.need ≤ w.capacity) :
    w'.out = w.out ++ String.join (fitting (w.capacity - w.need) ss) := by
  induction ss generalizing w with
  | nil =>
    cases h
    rw [fitting, String.join_nil, String.append_empty]
  | cons s ss ih =>
    rw [writeAll_cons] at h
    obtain ⟨next, hnext, hrest⟩ := Option.bind_eq_some_iff.mp h
    have hwrote := wrote_of_write hnext
    have hout := hwrote.out
    rw [fitting]
    by_cases hs : w.need + s.utf8ByteSize ≤ w.capacity
    · have hleft : w.capacity - w.need - s.utf8ByteSize = next.capacity - next.need := by
        rw [hwrote.capacity, hwrote.need, Nat.sub_sub]
      rw [if_pos hs] at hout
      rw [ih hrest (by rw [hwrote.need, hwrote.capacity]; exact hs), hout, if_pos (by omega), hleft,
        String.join_cons, String.append_assoc]
    · have hover : next.overflowed = true := by
        rw [overflowed_iff, hwrote.need, hwrote.capacity]
        omega
      rw [if_neg hs] at hout
      rw [(of_overflowed_of_writeAll hrest hover).2, hout, if_neg (by omega), String.join_nil,
        String.append_empty]

/-- What a window of some capacity holds behind a text once the writes were made. -/
structure Accounts (text : String) (capacity : Nat) (ss : List String) (w : Window) : Prop where
  need : w.need = bytes ss
  isEmpty : w.isEmpty = true ↔ bytes ss = 0
  overflowed : w.overflowed = true ↔ capacity < bytes ss
  stored : ∃ kept, LongestFit capacity ss kept ∧ w.out = text ++ String.join kept
  /-- Never more bytes than the window has. -/
  within : w.out.utf8ByteSize ≤ text.utf8ByteSize + capacity

theorem accounts_of_writeAll {text : String} {capacity : Nat} {ss : List String} {w : Window}
    (h : (behind text capacity).writeAll ss = some w) : Accounts text capacity ss w := by
  have hneed : w.need = bytes ss := by
    rw [need_of_writeAll h, utf8ByteSize_join, need_behind, Nat.zero_add]
  have hfit := longestFit_fitting capacity ss
  have hout : w.out = text ++ String.join (fitting capacity ss) :=
    out_of_writeAll h (Nat.zero_le _)
  refine ⟨hneed, ?_, ?_, ⟨fitting capacity ss, hfit, hout⟩, ?_⟩
  · rw [isEmpty_iff, hneed]
  · rw [overflowed_iff, hneed, capacity_of_writeAll h]
    rfl
  · rw [hout, String.utf8ByteSize_append, utf8ByteSize_join]
    exact Nat.add_le_add_left hfit.fits _

/-- The writes made to a fresh window. Either the bytes are a word, and there is a window that
accounts for all of the writes, or they are not, and the program has stopped. -/
structure Accounted (text : String) (capacity : Nat) (ss : List String) (r : Option Window) :
    Prop where
  exists_iff : (∃ w, r = some w) ↔ bytes ss < UInt64.size
  accounts : ∀ w, r = some w → Accounts text capacity ss w

theorem accounted_run (text : String) (capacity : Nat) (ps : Run) :
    Accounted text capacity (Piece.wholeWrites ps) ((behind text capacity).run ps) where
  exists_iff := by
    rw [exists_run_behind_iff, ← Piece.join_wholeWrites, utf8ByteSize_join]
  accounts w h := by
    rw [run_behind] at h
    exact accounts_of_writeAll h

/-- For every list of calls and for every run, a window counts all that is written and stores the
longest beginning that fits, behind a text that stays. It never stores more bytes than it has, and
once it overflowed it stays so. Only writes whose bytes are no machine word leave no window. -/
theorem accounts_for_entries (text : String) (capacity : Nat) :
    (∀ es : List Entry, Accounted text capacity (es.flatMap Entry.writes)
        ((behind text capacity).run (es.flatMap Entry.run))) ∧
      (∀ ps, Accounted text capacity (Piece.wholeWrites ps) ((behind text capacity).run ps)) ∧
      ∀ (w w' : Window) (ps : Run), w.run ps = some w' → w.overflowed = true →
        w'.overflowed = true := by
  refine ⟨fun es => ?_, accounted_run text capacity, fun w w' ps h hover => ?_⟩
  · rw [← Entry.wholeWrites_flatMap_run]
    exact accounted_run text capacity _
  · rw [run_eq_writeAll] at h
    exact (of_overflowed_of_writeAll h hover).1

/-- Two bytes of three are used, so a text of no bytes is kept and a character of two bytes is
dropped, and with it the shorter ones that follow. -/
theorem accounts_for_entries_dropped :
    let es : List Entry := [.push "ab", .format ["", "é"], .fill '.' 2, .pushChar 'c']
    ∃ w w', (behind "> " 3).run (es.flatMap Entry.run) = some w ∧ w.overflowed = true ∧
      w.run [.line 1] = some w' ∧ w'.overflowed = true ∧ w.need = 7 ∧ w.out = "> ab" ∧
        LongestFit 3 (es.flatMap Entry.writes) ["ab", ""] := by
  intro es
  obtain ⟨hentries, -, hstays⟩ := accounts_for_entries "> " 3
  have hbytes : bytes (es.flatMap Entry.writes) = 7 := by decide
  obtain ⟨w, hw⟩ := (hentries es).exists_iff.mpr (by rw [hbytes]; decide)
  have haccount := (hentries es).accounts w hw
  have hover : w.overflowed = true := haccount.overflowed.mpr (by rw [hbytes]; decide)
  have hkept : fitting 3 (es.flatMap Entry.writes) = ["ab", ""] := by decide
  have hfit : LongestFit 3 (es.flatMap Entry.writes) ["ab", ""] := by
    rw [← hkept]
    exact longestFit_fitting 3 _
  obtain ⟨kept, hlongest, hout⟩ := haccount.stored
  have hsame : kept = ["ab", ""] := hlongest.eq hfit
  have hneed := haccount.need.trans hbytes
  obtain ⟨w', hw'⟩ : ∃ w', w.run [.line 1] = some w' := by
    rw [run_eq_writeAll, exists_writeAll_iff, hneed]
    cases w.isEmpty <;> decide
  exact ⟨w, w', hw, hover, hw', hstays w w' _ hw' hover, hneed, by rw [hout, hsame]; decide, hfit⟩

end Window

end CodeDump
