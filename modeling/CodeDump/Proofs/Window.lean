import CodeDump.Text.Window

/-!
# What a run leaves in a window

A run never changes the text in front of its window. If the bytes it needs fit into the
capacity, all of its layout is stored behind that text; a run that does not fit leaves some
text there, of which nothing is said here but its place.
-/

namespace CodeDump.Window

variable {w w' : Window}

/-- What is said of a window after every write is said of it after all of them. -/
theorem writeAll_induction {motive : Window → Prop} {ss : List String}
    (hwrite : ∀ w s w', Wrote w s w' → motive w → motive w') (h : w.writeAll ss = some w')
    (hw : motive w) : motive w' := by
  induction ss generalizing w with
  | nil =>
    cases h
    exact hw
  | cons s ss ih =>
    rw [writeAll_cons] at h
    obtain ⟨next, hnext, hrest⟩ := Option.bind_eq_some_iff.mp h
    exact ih hrest (hwrite w s next (wrote_of_write hnext) hw)

theorem capacity_of_writeAll {ss : List String} (h : w.writeAll ss = some w') :
    w'.capacity = w.capacity :=
  writeAll_induction (motive := fun x => x.capacity = w.capacity)
    (fun _ _ _ hwrote hx => hwrote.capacity.trans hx) h rfl

/-- The text in front of a window stays, whether or not the writes fit. -/
theorem exists_out_of_writeAll {ss : List String} (h : w.writeAll ss = some w') :
    ∃ t, w'.out = w.out ++ t := by
  refine writeAll_induction (motive := fun x => ∃ t, x.out = w.out ++ t) ?_ h ⟨"", by simp⟩
  rintro x s x' hwrote ⟨t, ht⟩
  rw [hwrote.out]
  split
  · exact ⟨t ++ s, by rw [ht, String.append_assoc]⟩
  · exact ⟨t, ht⟩

theorem out_of_writeAll_le {ss : List String} (h : w.writeAll ss = some w')
    (hfits : w.need + (String.join ss).utf8ByteSize ≤ w.capacity) :
    w'.out = w.out ++ String.join ss := by
  induction ss generalizing w with
  | nil =>
    cases h
    simp
  | cons s ss ih =>
    rw [String.join_cons, String.utf8ByteSize_append] at hfits
    rw [writeAll_cons] at h
    obtain ⟨next, hnext, hrest⟩ := Option.bind_eq_some_iff.mp h
    have hwrote := wrote_of_write hnext
    have hout := hwrote.out
    rw [if_pos (by omega)] at hout
    rw [ih hrest (by rw [hwrote.need, hwrote.capacity]; omega), hout, String.join_cons,
      String.append_assoc]

section Run

variable {text : String} {capacity : Nat} {ps : Run}

theorem capacity_of_run_behind (h : (behind text capacity).run ps = some w) :
    w.capacity = capacity := by
  rw [run_behind] at h
  exact capacity_of_writeAll h

theorem exists_out_of_run_behind (h : (behind text capacity).run ps = some w) :
    ∃ t, w.out = text ++ t := by
  rw [run_behind] at h
  exact exists_out_of_writeAll h

/-- A run that fits into a fresh window is stored as a whole. -/
theorem out_of_run_behind_le (h : (behind text capacity).run ps = some w)
    (hfits : (Piece.layout ps).utf8ByteSize ≤ capacity) : w.out = text ++ Piece.layout ps := by
  rw [run_behind] at h
  rw [← Piece.join_wholeWrites] at hfits ⊢
  exact out_of_writeAll_le h (by rw [need_behind, Nat.zero_add]; exact hfits)

end Run

end CodeDump.Window
