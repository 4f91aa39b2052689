import Mathlib.Data.List.SplitBy
import CodeDump.Proofs.Identity
import CodeDump.Proofs.Nesting
import CodeDump.Proofs.Reencoding

/-!
# Parameters by runs

The printer of a function type looks one parameter ahead: a parameter whose type is shared with the
next one leaves it to that one. What comes out is the list of maximal runs of parameters that share
their types from neighbour to neighbour. Each run shows its names and then one type, that of its
last member, which is the type of all its members.
-/

namespace CodeDump

namespace Binding

/-- A parameter list as maximal runs: within a run neighbours share their type, and from one run to
the next they do not. -/
structure MaximalRuns (params : List Binding) (runs : List (List Binding)) : Prop where
  flatten : runs.flatten = params
  nonempty : [] ∉ runs
  within : ∀ run ∈ runs, run.IsChain fun b c => b.sharesType c = true
  between : runs.IsChain fun run next =>
    ∃ h h', (run.getLast h).sharesType (next.head h') = false

def runs (params : List Binding) : List (List Binding) := params.splitBy sharesType

/-- There is one way to split a list into maximal runs. -/
theorem maximalRuns_iff (params : List Binding) (rs : List (List Binding)) :
    MaximalRuns params rs ↔ rs = runs params := by
  rw [runs, eq_comm, List.splitBy_eq_iff]
  constructor
  · intro h
    exact ⟨h.flatten.symm, h.nonempty, h.within, h.between⟩
  · rintro ⟨hflatten, hnonempty, hwithin, hbetween⟩
    exact ⟨hflatten.symm, hnonempty, hwithin, hbetween⟩

/-- No parameter that follows shares its type with the last one of the run. -/
def Ends (run rest : List Binding) : Prop :=
  ∀ b ∈ run.getLast?, rest.head?.any b.sharesType = false

theorem MaximalRuns.cons_inv {params run : List Binding} {runs : List (List Binding)}
    (h : MaximalRuns params (run :: runs)) :
    params = run ++ runs.flatten ∧ run ≠ [] ∧ Ends run runs.flatten ∧
      MaximalRuns runs.flatten runs := by
  obtain ⟨hflatten, hnonempty, hwithin, hbetween⟩ := h
  rw [List.mem_cons, not_or] at hnonempty
  obtain ⟨hne, hnonempty⟩ := hnonempty
  refine ⟨hflatten.symm, fun he => hne he.symm, fun b hb => ?_, rfl, hnonempty,
    fun r hr => hwithin r (List.mem_cons_of_mem run hr), hbetween.tail⟩
  cases runs with
  | nil => rfl
  | cons next runs =>
    obtain ⟨hrun, hnext, hshares⟩ := (List.isChain_cons_cons.mp hbetween).1
    have hlast : run.getLast hrun = b := List.getLast_of_mem_getLast? hb
    rw [List.flatten_cons, List.head?_append_of_ne_nil _ hnext, List.head?_eq_some_head hnext,
      Option.any_some, ← hlast]
    exact hshares

/-- All members of a run have the type of the last one. -/
theorem ty_eq_of_isChain {run : List Binding}
    (h : run.IsChain fun b c => b.sharesType c = true) :
    ∀ b ∈ run, b.ty = run.getLast?.bind Binding.ty := by
  induction run with
  | nil => exact List.forall_mem_nil _
  | cons b run ih =>
    cases run with
    | nil => simp
    | cons c run =>
      obtain ⟨hshares, hchain⟩ := List.isChain_cons_cons.mp h
      have hrest := ih hchain
      rw [List.getLast?_cons_cons]
      refine List.forall_mem_cons.mpr ⟨?_, hrest⟩
      rw [ty_eq_of_sharesType hshares]
      exact hrest c List.mem_cons_self

end Binding

section Texts

variable (s : Settings) (level depth : Nat)

/-- The text of the type of a binding, wherever in a text it stands. -/
def TypeRef.textOr : Option TypeRef → String
  | none => absentText
  | some r => Piece.layout (r.ty.pieces s level depth)

variable {depth}

theorem TypeRef.layoutFrom_piecesOr (hd : depth ≠ 0) (r : Option TypeRef) :
    Piece.layoutFrom true (TypeRef.piecesOr s level depth r) =
      TypeRef.textOr s level depth r := by
  cases r with
  | none => simp [TypeRef.piecesOr, hd, TypeRef.textOr]
  | some r =>
    obtain ⟨object, t⟩ := r
    exact (t.anchored_pieces s level depth).symm

namespace Binding

variable (depth)

/-- The names of a run, a space and the type of its last member. -/
def runText (run : List Binding) : String :=
  ", ".intercalate (run.map Binding.name) ++ " " ++
    TypeRef.textOr s level depth (run.getLast?.bind Binding.ty)

/-- What the printer puts behind each name: a space and a type, or nothing. -/
def typesBehind : List Binding → List Run
  | [] => []
  | b :: rest => groupedType s level depth rest.head? b :: typesBehind rest

theorem groupedType_of_shares {b c : Binding} (h : b.sharesType c = true) :
    groupedType s level depth (some c) b = [] := by
  obtain ⟨name, ty, init⟩ := b
  rw [groupedType, Option.any_some, h, if_pos rfl]

theorem groupedType_of_ends {b : Binding} {next : Option Binding}
    (h : next.any b.sharesType = false) :
    groupedType s level depth next b = [.text " "] ++ TypeRef.piecesOr s level depth b.ty := by
  obtain ⟨name, ty, init⟩ := b
  rw [groupedType, h, if_neg Bool.false_ne_true]

/-- Along a run nothing is put behind a name but behind the last one. -/
theorem filter_typesBehind_append {run rest : List Binding} (hne : run ≠ [])
    (hchain : run.IsChain fun b c => b.sharesType c = true) (hends : Ends run rest) :
    (typesBehind s level depth (run ++ rest)).filter (· ≠ []) =
      ([.text " "] ++ TypeRef.piecesOr s level depth (run.getLast?.bind Binding.ty)) ::
        (typesBehind s level depth rest).filter (· ≠ []) := by
  induction run with
  | nil => exact absurd rfl hne
  | cons b run ih =>
    cases run with
    | nil =>
      have hb := groupedType_of_ends s level depth (hends b rfl)
      simp [typesBehind, hb]
    | cons c run =>
      obtain ⟨hshares, hchain⟩ := List.isChain_cons_cons.mp hchain
      have hb := groupedType_of_shares s level depth hshares
      rw [List.getLast?_cons_cons, ← ih (List.cons_ne_nil c run) hchain hends]
      simp [typesBehind, hb]

variable {depth}

theorem layoutFrom_grouped_cons (b : Binding) (rest : List Binding) :
    Piece.layoutFrom true (grouped s level depth (b :: rest)) =
      b.name ++ Piece.layoutFrom true (groupedType s level depth rest.head? b) ++
        (if rest.isEmpty then "" else ", ") ++
        Piece.layoutFrom true (grouped s level depth rest) := by
  cases rest <;> simp [grouped, Piece.layoutFrom_true_append, String.append_assoc]

theorem layoutFrom_grouped_append (hd : depth ≠ 0) {run rest : List Binding} (hne : run ≠ [])
    (hchain : run.IsChain fun b c => b.sharesType c = true) (hends : Ends run rest) :
    Piece.layoutFrom true (grouped s level depth (run ++ rest)) =
      runText s level depth run ++
        if rest.isEmpty then ""
        else ", " ++ Piece.layoutFrom true (grouped s level depth rest) := by
  induction run with
  | nil => exact absurd rfl hne
  | cons b run ih =>
    cases run with
    | nil =>
      have hb := groupedType_of_ends s level depth (hends b rfl)
      have ht := TypeRef.layoutFrom_piecesOr s level hd b.ty
      have htext : runText s level depth [b] =
          b.name ++ (" " ++ TypeRef.textOr s level depth b.ty) := by
        simp [runText, String.append_assoc]
      rw [List.singleton_append, layoutFrom_grouped_cons, hb, List.singleton_append,
        Piece.layoutFrom_true_text_cons, ht, htext, String.append_assoc]
      cases rest with
      | nil => rfl
      | cons c rest => rfl
    | cons c run =>
      obtain ⟨hshares, hchain⟩ := List.isChain_cons_cons.mp hchain
      have hb := groupedType_of_shares s level depth hshares
      have hrest := ih (List.cons_ne_nil c run) hchain hends
      have htext : runText s level depth (b :: c :: run) =
          b.name ++ (", " ++ runText s level depth (c :: run)) := by
        simp [runText, String.append_assoc]
      rw [List.cons_append, layoutFrom_grouped_cons, hrest, List.cons_append, List.head?_cons, hb,
        htext]
      simp [String.append_assoc]

theorem layoutFrom_grouped (hd : depth ≠ 0) {params : List Binding} {runs : List (List Binding)}
    (h : MaximalRuns params runs) :
    Piece.layoutFrom true (grouped s level depth params) =
      ", ".intercalate (runs.map (runText s level depth)) := by
  induction runs generalizing params with
  | nil =>
    rw [← h.flatten]
    simp [grouped]
  | cons run runs ih =>
    obtain ⟨hparams, hne, hends, hruns⟩ := h.cons_inv
    have hchain := h.within run List.mem_cons_self
    rw [hparams, layoutFrom_grouped_append s level hd hne hchain hends, ih hruns]
    cases runs with
    | nil => simp
    | cons next runs =>
      have hnext := hruns.cons_inv.2.1
      simp [hnext, String.append_assoc]

theorem filter_typesBehind (depth : Nat) {params : List Binding} {runs : List (List Binding)}
    (h : MaximalRuns params runs) :
    (typesBehind s level depth params).filter (· ≠ []) = runs.map fun run =>
      [.text " "] ++ TypeRef.piecesOr s level depth (run.getLast?.bind Binding.ty) := by
  induction runs generalizing params with
  | nil =>
    rw [← h.flatten]
    rfl
  | cons run runs ih =>
    obtain ⟨hparams, hne, hends, hruns⟩ := h.cons_inv
    have hchain := h.within run List.mem_cons_self
    rw [hparams, filter_typesBehind_append s level depth hne hchain hends, ih hruns, List.map_cons]

/-- The binding without its initializer. -/
def bare (b : Binding) : Binding := { b with init := none }

theorem groupedType_bare (depth : Nat) (next : Option Binding) (b : Binding) :
    groupedType s level depth (next.map bare) b.bare = groupedType s level depth next b := by
  obtain ⟨name, ty, init⟩ := b
  cases next with
  | none => rfl
  | some c => rfl

theorem grouped_map_bare (depth : Nat) (bs : List Binding) :
    grouped s level depth (bs.map bare) = grouped s level depth bs := by
  induction bs with
  | nil => rfl
  | cons b rest ih =>
    rw [List.map_cons, grouped, List.head?_map, groupedType_bare, ih, List.isEmpty_map, grouped]
    rfl

end Binding

end Texts

namespace Binding

/-- No parameter has a type object that something else could refer to. -/
def Fresh (params : List Binding) : Prop := ∀ b ∈ params, ∀ r ∈ b.ty, r.object = none

theorem fresh_unsharedList (bs : List Binding) : Fresh (unsharedList bs) := by
  induction bs with
  | nil => exact List.forall_mem_nil _
  | cons b rest ih =>
    refine List.forall_mem_cons.mpr ⟨?_, ih⟩
    obtain ⟨_, _ | ⟨_, _⟩, _⟩ := b
    · exact fun r hr => nomatch hr
    · rintro _ ⟨⟩
      rfl

theorem ty_eq_none_of_sharesType {b c : Binding} (hfresh : ∀ r ∈ b.ty, r.object = none)
    (h : b.sharesType c = true) : b.ty = none := by
  obtain ⟨_, _ | r, _⟩ := b
  · rfl
  · obtain ⟨_, _ | q, _⟩ := c
    · cases h
    · have hsame : r.sameObject q = true := h
      rw [TypeRef.sameObject_iff, hfresh r rfl] at hsame
      cases hsame.1

/-- Where no objects are shared, a parameter that has a type is a run of its own. -/
theorem eq_singleton_of_fresh {params : List Binding} {runs : List (List Binding)}
    (h : MaximalRuns params runs) (hfresh : Fresh params) :
    ∀ run ∈ runs, ∀ b ∈ run, b.ty.isSome = true → run = [b] := by
  intro run hrun b hb hty
  have hchain := h.within run hrun
  have htypes := ty_eq_of_isChain hchain
  match run with
  | [] => cases hb
  | [c] => rw [List.mem_singleton.mp hb]
  | c :: d :: rest =>
    have hshares := (List.isChain_cons_cons.mp hchain).1
    have hc : c ∈ params := h.flatten ▸ List.mem_flatten_of_mem hrun List.mem_cons_self
    have hsame : b.ty = c.ty := (htypes b hb).trans (htypes c List.mem_cons_self).symm
    rw [hsame, ty_eq_none_of_sharesType (hfresh c hc) hshares] at hty
    cases hty

end Binding

namespace Ty

/-- The text of a function type whose parameters are shown in these runs. -/
def signatureText (s : Settings) (level depth : Nat) (runs : List (List Binding)) (result : Ty) :
    String :=
  "fun(" ++ ", ".intercalate (runs.map (Binding.runText s level depth)) ++ ") " ++
    Piece.layout (result.pieces s level depth)

theorem layoutFrom_func (s : Settings) (level : Nat) {depth : Nat} (hd : depth ≠ 0)
    {params : List Binding} {runs : List (List Binding)} (h : Binding.MaximalRuns params runs)
    (result : Ty) (started : Bool) :
    Piece.layoutFrom started ((func params result).pieces s level depth) =
      signatureText s level depth runs result := by
  have hparams := Binding.layoutFrom_grouped s level hd h
  have hresult : Piece.layoutFrom true (result.pieces s level depth) =
      Piece.layout (result.pieces s level depth) := (result.anchored_pieces s level depth).symm
  have hanchored := (func params result).anchored_pieces s level depth
  have htrue : Piece.layoutFrom true ((func params result).pieces s level depth) =
      signatureText s level depth runs result := by
    have hopen : "fun(" = "fun" ++ "(" := rfl
    rw [pieces, if_neg hd]
    simp [-String.reduceAppend, Piece.layoutFrom_true_append, hparams, hresult, signatureText,
      hopen, String.append_assoc]
  cases started with
  | true => exact htrue
  | false => exact hanchored.trans htrue

end Ty

open Buffer (Accepted Renders renders_putRun step)

/-- How a function type shows its parameters when they fall into these runs. -/
structure ShownByRuns (params : List Binding) (result : Ty) (runs : List (List Binding)) :
    Prop where
  /-- Wherever it stands, it shows the runs with a comma and a space between them. -/
  text : ∀ (s : Settings) (level depth : Nat) (started : Bool), depth ≠ 0 →
    Piece.layoutFrom started ((Ty.func params result).pieces s level depth) =
      Ty.signatureText s level depth runs result
  /-- This is what a buffer gets that has room for it. -/
  rendered : ∀ (mem : Memory) (s : Settings) (depth : Nat) (b : Buffer),
    Accepted mem s b (Ty.signatureText s 0 (max depth 1) runs result) →
      Renders s b (Ty.signatureText s 0 (max depth 1) runs result)
        (step mem (.type s depth (.func params result)) b)
  /-- Initializers have no part in it. -/
  bare : ∀ (s : Settings) (level depth : Nat),
    (Ty.func (params.map Binding.bare) result).pieces s level depth =
      (Ty.func params result).pieces s level depth
  names : runs.flatMap (·.map Binding.name) = params.map Binding.name
  /-- The type shown for a run is that of each member. -/
  types : ∀ run ∈ runs, ∀ b ∈ run, b.ty = run.getLast?.bind Binding.ty
  /-- Exactly the types of the runs are printed. -/
  printed : ∀ (s : Settings) (level depth : Nat),
    (Binding.typesBehind s level depth params).filter (· ≠ []) = runs.map fun run =>
      [.text " "] ++ TypeRef.piecesOr s level depth (run.getLast?.bind Binding.ty)
  count : ∀ (s : Settings) (level depth : Nat),
    ((Binding.typesBehind s level depth params).filter (· ≠ [])).length = runs.length
  /-- Where nothing is shared, each parameter that has a type shows it. -/
  own : Binding.Fresh params → ∀ run ∈ runs, ∀ b ∈ run, b.ty.isSome = true → run = [b]
  /-- Nothing is shared after reading. -/
  fresh : ∀ text, Stored.read text = .ok (Ty.func params result) → Binding.Fresh params

/-- The parameters of a function type fall into maximal runs in one way, and by these runs they are
shown. -/
theorem Ty.func_shown_by_runs (params : List Binding) (result : Ty) :
    (∀ rs, Binding.MaximalRuns params rs ↔ rs = Binding.runs params) ∧
      ShownByRuns params result (Binding.runs params) := by
  have h : Binding.MaximalRuns params (Binding.runs params) :=
    (Binding.maximalRuns_iff params _).mpr rfl
  have htext (s : Settings) (level depth : Nat) (started : Bool) (hd : depth ≠ 0) :=
    layoutFrom_func s level hd h result started
  have hprinted (s : Settings) (level depth : Nat) :=
    Binding.filter_typesBehind s level depth h
  refine ⟨Binding.maximalRuns_iff params, htext, ?_, ?_, ?_, ?_, hprinted, ?_, ?_, ?_⟩
  · intro mem s depth b haccepted
    have hlayout : Piece.layout ((func params result).run s depth) =
        signatureText s 0 (max depth 1) (Binding.runs params) result :=
      htext s 0 (max depth 1) false (by omega)
    rw [← hlayout] at haccepted ⊢
    exact renders_putRun mem s _ b haccepted
  · intro s level depth
    simp only [pieces, Binding.grouped_map_bare]
  · rw [List.flatMap_def, ← List.map_flatten, h.flatten]
  · exact fun run hrun => Binding.ty_eq_of_isChain (h.within run hrun)
  · intro s level depth
    rw [hprinted, List.length_map]
  · exact Binding.eq_singleton_of_fresh h
  · intro text hread
    obtain ⟨j, hj⟩ := Stored.decode_of_read hread
    have hunshared := ((settles maxBrackets).ty hj).2
    rw [unshared, func.injEq] at hunshared
    rw [← hunshared.1]
    exact Binding.fresh_unsharedList params

/-- Two parameters with one type object, one with an equal type of its own, and two without a
type. -/
theorem Ty.func_shown_by_runs_mixed :
    let t : TypeRef := ⟨some 7, .prim .i32⟩
    let a := Binding.typed "a" t
    let b := (Binding.typed "b" t).withInit (.ident "z")
    let c := Binding.typed "c" (.fresh (.prim .i32))
    let x := Binding.untyped "x"
    let y := Binding.untyped "y"
    Binding.MaximalRuns [a, b, c, x, y] [[a, b], [c], [x, y]] ∧
      (step .standard (.type .default 1 (.func [a, b, c, x, y] (.prim .bool))) ⟨"> "⟩).buffer.text =
        "> fun(a, b i32, c i32, x, y (NULL)) bool" := by
  intro t a b c x y
  obtain ⟨hruns, hshown⟩ := func_shown_by_runs [a, b, c, x, y] (.prim .bool)
  have hsplit : Binding.runs [a, b, c, x, y] = [[a, b], [c], [x, y]] := rfl
  have haccepted : Accepted .standard .default ⟨"> "⟩
      (signatureText .default 0 (max 1 1) (Binding.runs [a, b, c, x, y]) (.prim .bool)) :=
    ⟨by decide, by decide +kernel⟩
  refine ⟨(hruns _).mpr hsplit.symm, ?_⟩
  rw [(hshown.rendered .standard .default 1 ⟨"> "⟩ haccepted).text]
  decide +kernel

end CodeDump
