import CodeDump.Proofs.Format
import CodeDump.Proofs.JsonGrammar
import CodeDump.Proofs.SharingFree

/-!
# Reading does not depend on the form

Every kind of stored value is read from each of its forms and from each spelling of that form, as
long as no more brackets are open than the reader allows.
-/

namespace CodeDump

open Json Format

theorem Op.decode_presented (op : Op) (room : Nat) {j : Json}
    (h : Presents (.kind .op) (.text op.tag) j) (hb : j.brackets ≤ room) :
    Op.decode room j = some op := by
  rcases h.name_or rfl hb with rfl | ⟨room, rfl, rfl⟩
  · exact Op.decode_tag op room
  · exact Op.ofTag?_tag op

theorem Ty.encode_ne_null (t : Ty) : t.encode ≠ .null := by
  cases t <;> nofun

theorem TypeRef.encode_ne_null (r : TypeRef) : r.encode ≠ .null := by
  cases r
  exact Ty.encode_ne_null _

theorem FunDef.encode_ne_null (f : FunDef) : f.encode ≠ .null := by
  cases f
  nofun

theorem Node.encode_ne_null (n : Node) : n.encode ≠ .null := by
  cases n <;> nofun

section Trees

-- The defaults of fields in trees are all `null`, so they take no room.
attribute [local simp] Field.required Field.nullable Field.defaulted Presents.null brackets_null

mutual

theorem Ty.decode_presented (t : Ty) (room : Nat) {j : Json}
    (h : Presents (.kind .ty) t.encode j) (hb : j.brackets ≤ room)
    (hd : ∀ x ∈ t.doubles, x.ReadsBack) : Ty.decode room j = some t.unshared := by
  match t with
  | .prim p =>
    rcases h.name_or rfl hb with rfl | ⟨room, rfl, rfl⟩
    · exact Prim.decode_tag p room
    · cases p <;> rfl
  | .unknown =>
    rcases h.name_or rfl hb with rfl | ⟨room, rfl, rfl⟩
    · cases room <;> rfl
    · rfl
  | .struct name fields =>
    obtain ⟨_, d, rfl, rfl, hdata, hb⟩ := h.exists_data rfl rfl hb
    obtain ⟨_, rfl, _, hvalues, n, _, rfl, ⟨hn, -⟩, f, _, rfl, ⟨hf, hbf⟩, rfl⟩ :=
      hdata.values Ty.structFields rfl hb fun _ _ => ⟨by decide, by simp⟩
    obtain ⟨room, js, rfl, rfl, hitems, hbs⟩ := hf.exists_items hbf
    have hname : n.nullable? text? = some name := hn.nullable?_text
    have hfields := Binding.decode_presentedList fields room hitems hbs hd
    rw [Ty.decode]
    simp only [tagged, variant?, hvalues, hname, list?, items?, Option.bind_some, hfields]
    rfl
  | .func params result =>
    obtain ⟨_, d, rfl, rfl, hdata, hb⟩ := h.exists_data rfl rfl hb
    obtain ⟨_, rfl, _, hvalues, p, _, rfl, ⟨hp, hbp⟩, r, _, rfl, ⟨hr, hbr⟩, rfl⟩ :=
      hdata.values Ty.funcFields rfl hb fun _ _ => ⟨by decide, by simp⟩
    obtain ⟨room, js, rfl, rfl, hitems, hbs⟩ := hp.exists_items hbp
    obtain ⟨hdp, hdr⟩ := List.forall_mem_append.mp hd
    have hparams := Binding.decode_presentedList params room hitems hbs hdp
    have hresult := Ty.decode_presented result (room + 1) hr hbr hdr
    rw [Ty.decode]
    simp only [tagged, variant?, hvalues, hresult, list?, items?, Option.bind_some, hparams]
    rfl
  | .array elem length =>
    obtain ⟨_, d, rfl, rfl, hdata, hb⟩ := h.exists_data rfl rfl hb
    obtain ⟨room, rfl, _, hvalues, e, _, rfl, ⟨he, hbe⟩, l, _, rfl, ⟨hl, -⟩, rfl⟩ :=
      hdata.values Ty.arrayFields rfl hb fun _ _ => ⟨by decide, by simp⟩
    obtain rfl := hl.eq_of_scalar
    have helem := Ty.decode_presented elem room he hbe hd
    rw [Ty.decode]
    simp only [tagged, variant?, hvalues, helem, long?_nat]
    rfl
  | .slice elem _ | .reference elem _ =>
    obtain ⟨_, d, rfl, rfl, hdata, hb⟩ := h.exists_data rfl rfl hb
    obtain ⟨room, rfl, _, hvalues, e, _, rfl, ⟨he, hbe⟩, m, _, rfl, ⟨hm, -⟩, rfl⟩ :=
      hdata.values Ty.mutableFields rfl hb fun _ _ => ⟨by decide, by simp⟩
    obtain rfl := hm.eq_of_scalar
    have helem := Ty.decode_presented elem room he hbe hd
    rw [Ty.decode]
    simp only [tagged, variant?, hvalues, helem]
    rfl
  | .named name elem =>
    obtain ⟨_, d, rfl, rfl, hdata, hb⟩ := h.exists_data rfl rfl hb
    obtain ⟨room, rfl, _, hvalues, n, _, rfl, ⟨hn, -⟩, e, _, rfl, ⟨he, hbe⟩, rfl⟩ :=
      hdata.values Ty.namedFields rfl hb fun _ _ => ⟨by decide, by simp⟩
    obtain rfl := hn.eq_of_scalar
    have helem := Ty.decode_presented elem room he hbe hd
    rw [Ty.decode]
    simp only [tagged, variant?, hvalues, helem]
    rfl
  | .pointer elem | .optional elem =>
    obtain ⟨room, d, rfl, rfl, hdata, hb⟩ := h.exists_data rfl rfl hb
    exact congrArg (Option.map _) (Ty.decode_presented elem room hdata hb hd)
  | .unresolved name =>
    obtain ⟨room, d, rfl, rfl, hdata, -⟩ := h.exists_data rfl rfl hb
    obtain rfl := hdata.eq_of_scalar
    rfl
termination_by structural t

theorem Ty.decode_presentedOption (t : Option Ty) (room : Nat) {j : Json}
    (h : Presents (.nullable (.kind .ty)) (Ty.encodeOption t) j) (hb : j.brackets ≤ room)
    (hd : ∀ x ∈ Ty.doublesOption t, x.ReadsBack) :
    j.nullable? (Ty.decode room) = some (Ty.unsharedOption t) := by
  match t with
  | none =>
    rw [h.eq_null rfl]
    rfl
  | some t =>
    have ht := Ty.decode_presented t room (h.of_nullable t.encode_ne_null) hb hd
    exact nullable?_of_read (Ty.decode_null room) ht
termination_by structural t

theorem TypeRef.decode_presented (r : TypeRef) (room : Nat) {j : Json}
    (h : Presents (.kind .ty) r.encode j) (hb : j.brackets ≤ room)
    (hd : ∀ x ∈ r.doubles, x.ReadsBack) :
    (Ty.decode room j).map TypeRef.fresh = some r.unshared := by
  match r with
  | ⟨_, t⟩ => exact congrArg (Option.map TypeRef.fresh) (Ty.decode_presented t room h hb hd)
termination_by structural r

theorem TypeRef.decode_presentedOption (r : Option TypeRef) (room : Nat) {j : Json}
    (h : Presents (.nullable (.kind .ty)) (TypeRef.encodeOption r) j) (hb : j.brackets ≤ room)
    (hd : ∀ x ∈ TypeRef.doublesOption r, x.ReadsBack) :
    j.nullable? (fun t => (Ty.decode room t).map TypeRef.fresh) =
      some (TypeRef.unsharedOption r) := by
  match r with
  | none =>
    rw [h.eq_null rfl]
    rfl
  | some r =>
    have hr := TypeRef.decode_presented r room (h.of_nullable r.encode_ne_null) hb hd
    exact nullable?_of_read (congrArg (Option.map TypeRef.fresh) (Ty.decode_null room)) hr
termination_by structural r

theorem Binding.decode_presented (b : Binding) (room : Nat) {j : Json}
    (h : Presents (.kind .binding) b.encode j) (hb : j.brackets ≤ room)
    (hd : ∀ x ∈ b.doubles, x.ReadsBack) : Binding.decode room j = some b.unshared := by
  match b with
  | ⟨name, ty, init⟩ =>
    obtain ⟨room, rfl, _, hvalues, n, _, rfl, ⟨hn, -⟩, t, _, rfl, ⟨ht, hbt⟩, i, _, rfl,
        ⟨hi, hbi⟩, rfl⟩ :=
      h.of_kind.values Binding.fields rfl hb fun _ _ => ⟨by decide, by simp⟩
    obtain rfl := hn.eq_of_scalar
    obtain ⟨hdt, hdi⟩ := List.forall_mem_append.mp hd
    have hty := TypeRef.decode_presentedOption ty room ht hbt hdt
    have hinit := Node.decode_presentedOption init room hi hbi hdi
    unfold Binding.decode
    simp only [hvalues, hty, hinit]
    rfl
termination_by structural b

theorem Binding.decode_presentedList (bs : List Binding) (room : Nat) {js : List Json}
    (h : PresentsItems (.kind .binding) (Binding.encodeList bs) js)
    (hb : ∀ j ∈ js, j.brackets ≤ room) (hd : ∀ x ∈ Binding.doublesList bs, x.ReadsBack) :
    js.mapM (Binding.decode room) = some (Binding.unsharedList bs) := by
  match bs with
  | [] =>
    rw [h.eq_nil]
    rfl
  | b :: rest =>
    obtain ⟨j, js, rfl, hj, hjs⟩ := h.exists_cons
    obtain ⟨hbj, hbs⟩ := List.forall_mem_cons.mp hb
    obtain ⟨hdb, hds⟩ := List.forall_mem_append.mp hd
    have hfirst := Binding.decode_presented b room hj hbj hdb
    have hrest := Binding.decode_presentedList rest room hjs hbs hds
    rw [List.mapM_cons, hfirst, hrest]
    rfl
termination_by structural bs

theorem FunDef.decode_presented (f : FunDef) (room : Nat) {j : Json}
    (h : Presents (.kind .funDef) f.encode j) (hb : j.brackets ≤ room)
    (hd : ∀ x ∈ f.doubles, x.ReadsBack) : FunDef.decode room j = some f.unshared := by
  match f with
  | ⟨name, params, result, body⟩ =>
    obtain ⟨_, rfl, _, hvalues, n, _, rfl, ⟨hn, -⟩, p, _, rfl, ⟨hp, hbp⟩, r, _, rfl, ⟨hr, hbr⟩,
        b, _, rfl, ⟨hbody, hbb⟩, rfl⟩ :=
      h.of_kind.values FunDef.fields rfl hb fun _ _ => ⟨by decide, by simp⟩
    obtain rfl := hn.eq_of_scalar
    obtain ⟨room, js, rfl, rfl, hitems, hbs⟩ := hp.exists_items hbp
    obtain ⟨hdp, hdrest⟩ := List.forall_mem_append.mp hd
    obtain ⟨hdr, hdb⟩ := List.forall_mem_append.mp hdrest
    have hparams := Binding.decode_presentedList params room hitems hbs hdp
    have hresult := Ty.decode_presented result (room + 1) hr hbr hdr
    have hbody := Node.decode_presentedOption body (room + 1) hbody hbb hdb
    unfold FunDef.decode
    simp only [hvalues, list?, items?, Option.bind_some, hparams, hresult, hbody]
    rfl
termination_by structural f

theorem Node.decode_presented (n : Node) (room : Nat) {j : Json}
    (h : Presents (.kind .node) n.encode j) (hb : j.brackets ≤ room)
    (hd : ∀ x ∈ n.doubles, x.ReadsBack) : Node.decode room j = some n.unshared := by
  match n with
  | .bad =>
    rcases h.name_or rfl hb with rfl | ⟨room, rfl, rfl⟩
    · cases room <;> rfl
    · rfl
  | .comment _ | .ident _ | .boolLit _ =>
    obtain ⟨room, d, rfl, rfl, hdata, -⟩ := h.exists_data rfl rfl hb
    obtain rfl := hdata.eq_of_scalar
    rfl
  | .floatLit x =>
    obtain ⟨room, d, rfl, rfl, hdata, -⟩ := h.exists_data rfl rfl hb
    obtain rfl := hdata.eq_of_scalar
    have hx := hd x (List.mem_singleton_self x)
    exact congrArg (Option.map Node.floatLit) hx.double?
  | .typeDef t | .typeNode t =>
    obtain ⟨room, d, rfl, rfl, hdata, hb⟩ := h.exists_data rfl rfl hb
    exact congrArg (Option.map _) (Ty.decode_presented t room hdata hb hd)
  | .binding role b =>
    cases role
    all_goals
      obtain ⟨room, d, rfl, rfl, hdata, hb⟩ := h.exists_data rfl rfl hb
      exact congrArg (Option.map (Node.binding _)) (Binding.decode_presented b room hdata hb hd)
  | .func f =>
    obtain ⟨room, d, rfl, rfl, hdata, hb⟩ := h.exists_data rfl rfl hb
    exact congrArg (Option.map Node.func) (FunDef.decode_presented f room hdata hb hd)
  | .ret value =>
    obtain ⟨room, d, rfl, rfl, hdata, hb⟩ := h.exists_data rfl rfl hb
    exact congrArg (Option.map Node.ret) (Node.decode_presentedOption value room hdata hb hd)
  | .deref arg =>
    obtain ⟨room, d, rfl, rfl, hdata, hb⟩ := h.exists_data rfl rfl hb
    exact congrArg (Option.map Node.deref) (Node.decode_presented arg room hdata hb hd)
  | .unit items | .block items | .arrayLit items =>
    obtain ⟨_, d, rfl, rfl, hdata, hb⟩ := h.exists_data rfl rfl hb
    obtain ⟨room, js, rfl, rfl, hitems, hbs⟩ := hdata.exists_items hb
    exact congrArg (Option.map _) (Node.decode_presentedList items room hitems hbs hd)
  | .strLit bytes =>
    obtain ⟨_, d, rfl, rfl, hdata, hb⟩ := h.exists_data rfl rfl hb
    obtain ⟨room, js, rfl, rfl, hitems, -⟩ := hdata.exists_items hb
    obtain rfl := hitems.eq_of_scalar
    exact congrArg (Option.map Node.strLit) (mapM_map_inverse byte?_nat bytes)
  | .call callee args =>
    obtain ⟨_, d, rfl, rfl, hdata, hb⟩ := h.exists_data rfl rfl hb
    obtain ⟨_, rfl, _, hvalues, c, _, rfl, ⟨hc, hbc⟩, a, _, rfl, ⟨ha, hba⟩, rfl⟩ :=
      hdata.values Node.callFields rfl hb fun _ _ => ⟨by decide, by simp⟩
    obtain ⟨room, js, rfl, rfl, hitems, hbs⟩ := ha.exists_items hba
    obtain ⟨hdc, hda⟩ := List.forall_mem_append.mp hd
    have hcallee := Node.decode_presented callee (room + 1) hc hbc hdc
    have hargs := Node.decode_presentedList args room hitems hbs hda
    rw [Node.decode]
    simp only [tagged, variant?, hvalues, hcallee, list?, items?, Option.bind_some, hargs]
    rfl
  | .construct t arg =>
    obtain ⟨_, d, rfl, rfl, hdata, hb⟩ := h.exists_data rfl rfl hb
    obtain ⟨room, rfl, _, hvalues, t', _, rfl, ⟨ht, hbt⟩, a, _, rfl, ⟨ha, hba⟩, rfl⟩ :=
      hdata.values Node.constructFields rfl hb fun _ _ => ⟨by decide, by simp⟩
    obtain ⟨hdt, hda⟩ := List.forall_mem_append.mp hd
    have hty := Ty.decode_presented t room ht hbt hdt
    have harg := Node.decode_presentedOption arg room ha hba hda
    rw [Node.decode]
    simp only [tagged, variant?, hvalues, hty, harg]
    rfl
  | .member base name =>
    obtain ⟨_, d, rfl, rfl, hdata, hb⟩ := h.exists_data rfl rfl hb
    obtain ⟨room, rfl, _, hvalues, b, _, rfl, ⟨hbase, hbb⟩, n, _, rfl, ⟨hn, -⟩, rfl⟩ :=
      hdata.values Node.memberFields rfl hb fun _ _ => ⟨by decide, by simp⟩
    obtain rfl := hn.eq_of_scalar
    have hbase := Node.decode_presented base room hbase hbb hd
    rw [Node.decode]
    simp only [tagged, variant?, hvalues, hbase]
    rfl
  | .branch cond yes no =>
    obtain ⟨_, d, rfl, rfl, hdata, hb⟩ := h.exists_data rfl rfl hb
    obtain ⟨room, rfl, _, hvalues, c, _, rfl, ⟨hc, hbc⟩, y, _, rfl, ⟨hy, hby⟩, n, _, rfl,
        ⟨hn, hbn⟩, rfl⟩ :=
      hdata.values Node.branchFields rfl hb fun _ _ => ⟨by decide, by simp⟩
    obtain ⟨hdc, hdrest⟩ := List.forall_mem_append.mp hd
    obtain ⟨hdy, hdn⟩ := List.forall_mem_append.mp hdrest
    have hcond := Node.decode_presented cond room hc hbc hdc
    have hyes := Node.decode_presented yes room hy hby hdy
    have hno := Node.decode_presentedOption no room hn hbn hdn
    rw [Node.decode]
    simp only [tagged, variant?, hvalues, hcond, hyes, hno]
    rfl
  | .loop start cond step body =>
    obtain ⟨_, d, rfl, rfl, hdata, hb⟩ := h.exists_data rfl rfl hb
    obtain ⟨room, rfl, _, hvalues, s, _, rfl, ⟨hs, hbs⟩, c, _, rfl, ⟨hc, hbc⟩, t, _, rfl,
        ⟨ht, hbt⟩, b, _, rfl, ⟨hbody, hbb⟩, rfl⟩ :=
      hdata.values Node.loopFields rfl hb fun _ _ => ⟨by decide, by simp⟩
    obtain ⟨hds, hdrest⟩ := List.forall_mem_append.mp hd
    obtain ⟨hdc, hdrest⟩ := List.forall_mem_append.mp hdrest
    obtain ⟨hdt, hdb⟩ := List.forall_mem_append.mp hdrest
    have hstart := Node.decode_presentedOption start room hs hbs hds
    have hcond := Node.decode_presentedOption cond room hc hbc hdc
    have hstep := Node.decode_presentedOption step room ht hbt hdt
    have hbody := Node.decode_presented body room hbody hbb hdb
    rw [Node.decode]
    simp only [tagged, variant?, hvalues, hstart, hcond, hstep, hbody]
    rfl
  | .prefixed op arg | .postfixed op arg =>
    obtain ⟨_, d, rfl, rfl, hdata, hb⟩ := h.exists_data rfl rfl hb
    obtain ⟨room, rfl, _, hvalues, o, _, rfl, ⟨ho, hbo⟩, a, _, rfl, ⟨ha, hba⟩, rfl⟩ :=
      hdata.values Node.unaryFields rfl hb fun _ _ => ⟨by decide, by simp⟩
    have hop := op.decode_presented room ho hbo
    have harg := Node.decode_presented arg room ha hba hd
    rw [Node.decode]
    simp only [tagged, variant?, hvalues, hop, harg]
    rfl
  | .assign op left right | .binary op left right =>
    obtain ⟨_, d, rfl, rfl, hdata, hb⟩ := h.exists_data rfl rfl hb
    obtain ⟨room, rfl, _, hvalues, o, _, rfl, ⟨ho, hbo⟩, l, _, rfl, ⟨hl, hbl⟩, r, _, rfl,
        ⟨hr, hbr⟩, rfl⟩ :=
      hdata.values Node.binaryFields rfl hb fun _ _ => ⟨by decide, by simp⟩
    obtain ⟨hdl, hdr⟩ := List.forall_mem_append.mp hd
    have hop := op.decode_presented room ho hbo
    have hleft := Node.decode_presented left room hl hbl hdl
    have hright := Node.decode_presented right room hr hbr hdr
    rw [Node.decode]
    simp only [tagged, variant?, hvalues, hop, hleft, hright]
    rfl
  | .intLit value ty =>
    obtain ⟨_, d, rfl, rfl, hdata, hb⟩ := h.exists_data rfl rfl hb
    obtain ⟨room, rfl, _, hvalues, v, _, rfl, ⟨hv, -⟩, t, _, rfl, ⟨ht, hbt⟩, rfl⟩ :=
      hdata.values Node.intFields rfl hb fun _ _ => ⟨by decide, by simp⟩
    obtain rfl := hv.eq_of_scalar
    have hty := Ty.decode_presentedOption ty room ht hbt hd
    rw [Node.decode]
    simp only [tagged, variant?, hvalues, long?_nat, hty]
    rfl
termination_by structural n

theorem Node.decode_presentedOption (n : Option Node) (room : Nat) {j : Json}
    (h : Presents (.nullable (.kind .node)) (Node.encodeOption n) j) (hb : j.brackets ≤ room)
    (hd : ∀ x ∈ Node.doublesOption n, x.ReadsBack) :
    j.nullable? (Node.decode room) = some (Node.unsharedOption n) := by
  match n with
  | none =>
    rw [h.eq_null rfl]
    rfl
  | some n =>
    have hn := Node.decode_presented n room (h.of_nullable n.encode_ne_null) hb hd
    exact nullable?_of_read (Node.decode_null room) hn
termination_by structural n

theorem Node.decode_presentedList (ns : List Node) (room : Nat) {js : List Json}
    (h : PresentsItems (.kind .node) (Node.encodeList ns) js)
    (hb : ∀ j ∈ js, j.brackets ≤ room) (hd : ∀ x ∈ Node.doublesList ns, x.ReadsBack) :
    js.mapM (Node.decode room) = some (Node.unsharedList ns) := by
  match ns with
  | [] =>
    rw [h.eq_nil]
    rfl
  | n :: rest =>
    obtain ⟨j, js, rfl, hj, hjs⟩ := h.exists_cons
    obtain ⟨hbj, hbs⟩ := List.forall_mem_cons.mp hb
    obtain ⟨hdn, hds⟩ := List.forall_mem_append.mp hd
    have hfirst := Node.decode_presented n room hj hbj hdn
    have hrest := Node.decode_presentedList rest room hjs hbs hds
    rw [List.mapM_cons, hfirst, hrest]
    rfl
termination_by structural ns

end

end Trees

section Parts

attribute [local simp] Field.required Field.defaulted Presents.null Presents.scalar
attribute [local simp] presents_nil brackets_null brackets_nil brackets_nat brackets_text

theorem LoopStep.decode_presented (step : LoopStep) (room : Nat) {j : Json}
    (h : Presents (.kind .loopStep) (.text step.tag) j) (hb : j.brackets ≤ room) :
    LoopStep.decode room j = some step := by
  rcases h.name_or rfl hb with rfl | ⟨room, rfl, rfl⟩
  · exact LoopStep.decode_tag step room
  · cases step <;> rfl

theorem Settings.decode_presented (s : Settings) (room : Nat) {j : Json}
    (h : Presents (.kind .settings) s.encode j) (hb : j.brackets ≤ room) :
    Settings.decode room j = some s := by
  have hstart : Presents (.kind .loopStep) (.text "start") (.text "start") :=
    .kind (.name (by simp))
  obtain ⟨room, rfl, _, hvalues, g, _, rfl, ⟨hg, -⟩, w, _, rfl, ⟨hw, -⟩, t, _, rfl, ⟨ht, hbt⟩,
      rfl⟩ :=
    h.of_kind.values Settings.fields rfl hb fun _ _ => ⟨by decide, by simp [hstart]⟩
  obtain rfl := hg.eq_of_scalar
  obtain rfl := hw.eq_of_scalar
  have hstep := s.loopStep.decode_presented room ht hbt
  simp only [Settings.decode, fieldsIn?, hvalues, Option.map_some, long?_nat, hstep]
  rfl

theorem Input.decode_presented (i : Input) (room : Nat) {j : Json}
    (h : Presents (.kind .input) i.encode j) (hb : j.brackets ≤ room) :
    Input.decode room j = some i.close := by
  obtain ⟨room, rfl, _, hvalues, n, _, rfl, ⟨hn, -⟩, rfl⟩ :=
    h.of_kind.values [.required "name"] rfl hb fun _ _ => ⟨by decide, by simp⟩
  obtain rfl := hn.eq_of_scalar
  simp only [Input.decode, fieldsIn?, hvalues, Option.map_some]
  rfl

theorem Location.decode_presented (loc : Location) (room : Nat) {j : Json}
    (h : Presents (.kind .location) loc.encode j) (hb : j.brackets ≤ room) :
    Location.decode room j = some loc.closed := by
  obtain ⟨room, rfl, _, hvalues, i, _, rfl, ⟨hi, hbi⟩, l, _, rfl, ⟨hl, -⟩, c, _, rfl, ⟨hc, -⟩,
      rfl⟩ :=
    h.of_kind.values Location.fields rfl hb fun _ _ => ⟨by decide, by simp⟩
  obtain rfl := hl.eq_of_scalar
  obtain rfl := hc.eq_of_scalar
  have hinput : i.nullable? (Input.decode room) = some (loc.input.map Input.close) := by
    apply hi.nullable?_map nofun (Input.decode_null room)
    intro input _ hinput
    exact input.decode_presented room hinput hbi
  simp only [Location.decode, fieldsIn?, hvalues, Option.map_some, hinput, word?_nat]
  rfl

namespace Ir

theorem Payload.decode_presented (p : Payload) (room : Nat) {j : Json}
    (h : Presents (.kind .payload) p.encode j) (hb : j.brackets ≤ room)
    (hd : ∀ x ∈ p.doubles, x.ReadsBack) : Payload.decode room j = some p := by
  cases p with
  | empty =>
    rcases h.name_or rfl hb with rfl | ⟨room, rfl, rfl⟩
    · rfl
    · rfl
  | index i =>
    obtain ⟨room, d, rfl, rfl, hdata, -⟩ := h.exists_data rfl rfl hb
    obtain rfl := hdata.eq_of_scalar
    exact congrArg (Option.map Payload.index) (word?_nat i)
  | int n =>
    obtain ⟨room, d, rfl, rfl, hdata, -⟩ := h.exists_data rfl rfl hb
    obtain rfl := hdata.eq_of_scalar
    exact congrArg (Option.map Payload.int) (long?_nat n)
  | float x =>
    obtain ⟨room, d, rfl, rfl, hdata, -⟩ := h.exists_data rfl rfl hb
    obtain rfl := hdata.eq_of_scalar
    have hx := hd x (List.mem_singleton_self x)
    exact congrArg (Option.map Payload.float) hx.double?

theorem Value.decode_presented (v : Value) (room : Nat) (hroom : 2 ≤ room) {j : Json}
    (h : Presents (.kind .value) v.encode j) (hb : j.brackets ≤ room)
    (hd : ∀ x ∈ v.doubles, x.ReadsBack) : Value.decode room j = some v.closed.unshared := by
  have hnone : Presents (.kind .payload) (.text "None") (.text "None") :=
    .kind (.name (by simp))
  obtain ⟨room, rfl, _, hvalues, i, _, rfl, ⟨hi, -⟩, o, _, rfl, ⟨ho, hbo⟩, t, _, rfl, ⟨ht, hbt⟩,
      a, _, rfl, ⟨ha, hba⟩, p, _, rfl, ⟨hp, hbp⟩, u, _, rfl, ⟨hu, -⟩, c, _, rfl, ⟨hc, -⟩, l, _,
      rfl, ⟨hl, hbl⟩, rfl⟩ :=
    h.of_kind.values Value.fields rfl hb fun r hr =>
      ⟨by decide, by simp [hnone, show 1 ≤ r by omega]⟩
  obtain rfl := hi.eq_of_scalar
  obtain rfl := hu.eq_of_scalar
  obtain ⟨hdt, hdp⟩ := List.forall_mem_append.mp hd
  have hop := v.op.decode_presented room ho hbo
  have hty := v.ty.decode_presented room ht hbt hdt
  have hpayload := v.payload.decode_presented room hp hbp hdp
  have hcomment := hc.nullable?_text
  have hloc : l.nullable? (Location.decode room) = some (v.loc.map Location.closed) := by
    apply hl.nullable?_map nofun (Location.decode_null room)
    intro loc _ hloc
    exact loc.decode_presented room hloc hbl
  obtain ⟨r, js, rfl, rfl, hitems, -⟩ := ha.exists_items hba
  obtain rfl := hitems.eq_of_scalar
  have hargs := mapM_map_inverse word?_nat v.args
  simp only [Value.decode, fieldsIn?, hvalues, Option.map_some, word?_nat, hop, hty, listIn?,
    list?, items?, Option.bind_some, hargs, hpayload, hcomment, hloc]
  rfl

theorem Exit.decodeBranch_presented (make : ValueId → BlockId → BlockId → Exit) (control : ValueId)
    (yes no : BlockId) (room : Nat) {j : Json}
    (h : Presents branchShape (encodeBranch control yes no) j) (hb : j.brackets ≤ room) :
    decodeBranch room make j = some (make control yes no) := by
  obtain ⟨room, rfl, _, hvalues, c, _, rfl, ⟨hc, -⟩, y, _, rfl, ⟨hy, -⟩, n, _, rfl, ⟨hn, -⟩, rfl⟩ :=
    Presents.values h branchFields rfl hb fun _ _ => ⟨by decide, by simp⟩
  obtain rfl := hc.eq_of_scalar
  obtain rfl := hy.eq_of_scalar
  obtain rfl := hn.eq_of_scalar
  simp only [decodeBranch, fieldsIn?, hvalues, Option.map_some, word?_nat]
  rfl

theorem nullable?_word {o : Option UInt32} {j : Json}
    (h : Presents (.nullable .scalar) (orNull (o.map fun w => .nat w.toNat)) j) :
    j.nullable? word? = some o := by
  cases o with
  | none =>
    rw [h.eq_null rfl]
    rfl
  | some w =>
    rw [(h.of_nullable nofun).eq_of_scalar]
    exact nullable?_of_read rfl (word?_nat w)

theorem Exit.decode_presented (e : Exit) (room : Nat) {j : Json}
    (h : Presents (.kind .exit) e.encode j) (hb : j.brackets ≤ room) :
    Exit.decode room j = some e := by
  cases e with
  | goto next | ret value =>
    obtain ⟨room, d, rfl, rfl, hdata, -⟩ := h.exists_data rfl rfl hb
    exact congrArg (Option.map _) (nullable?_word hdata)
  | first control yes no | branch control yes no =>
    obtain ⟨room, d, rfl, rfl, hdata, hb⟩ := h.exists_data rfl rfl hb
    exact decodeBranch_presented _ control yes no room hdata hb

theorem Block.decode_presented (b : Block) (room : Nat) (hroom : 4 ≤ room) {j : Json}
    (h : Presents (.kind .block) b.encode j) (hb : j.brackets ≤ room)
    (hd : ∀ x ∈ b.doubles, x.ReadsBack) : Block.decode room j = some b.closed.unshared := by
  obtain ⟨_, rfl, _, hvalues, i, _, rfl, ⟨hi, -⟩, p, _, rfl, ⟨hp, hbp⟩, e, _, rfl, ⟨he, hbe⟩,
      c, _, rfl, ⟨hc, -⟩, v, _, rfl, ⟨hv, hbv⟩, rfl⟩ :=
    h.of_kind.values Block.fields rfl hb fun r hr =>
      ⟨by decide, by simp [show 1 ≤ r by omega]⟩
  obtain rfl := hi.eq_of_scalar
  have hexit := b.exit.decode_presented _ he hbe
  have hcomment := hc.nullable?_text
  obtain ⟨room, ps, rfl, rfl, hpreds, -⟩ := hp.exists_items hbp
  obtain rfl := hpreds.eq_of_scalar
  have hpreds := mapM_map_inverse word?_nat b.preds
  obtain ⟨_, vs, hr, rfl, hvs, hbvs⟩ := hv.exists_items hbv
  cases hr
  rw [doubles, List.forall_mem_flatMap] at hd
  have hvalues' : vs.mapM (Value.decode room) =
      some (b.values.map fun v => v.closed.unshared) := by
    apply hvs.mapM_map b.values hbvs
    intro v hmem j hj hbj
    exact v.decode_presented room (by omega) hj hbj (hd v hmem)
  simp only [Block.decode, fieldsIn?, hvalues, Option.map_some, word?_nat, listIn?, list?, items?,
    Option.bind_some, hpreds, hexit, hcomment, hvalues', closed, unshared, List.map_map]
  rfl

theorem Func.decode_presented (f : Func) (room : Nat) (hroom : 6 ≤ room) {j : Json}
    (h : Presents (.kind .func) f.encode j) (hb : j.brackets ≤ room)
    (hd : ∀ x ∈ f.doubles, x.ReadsBack) : Func.decode room j = some f.closed.unshared := by
  obtain ⟨_, rfl, _, hvalues, n, _, rfl, ⟨hn, -⟩, s, _, rfl, ⟨hs, hbs⟩, b, _, rfl, ⟨hbl, hbb⟩,
      rfl⟩ :=
    h.of_kind.values Func.fields rfl hb fun r hr =>
      ⟨by decide, by simp [show 1 ≤ r by omega]⟩
  obtain rfl := hn.eq_of_scalar
  rw [doubles, List.forall_mem_append, List.forall_mem_flatMap, List.forall_mem_flatMap] at hd
  obtain ⟨room, bs, rfl, rfl, hblocks, hbbs⟩ := hbl.exists_items hbb
  have hsource : s.nullable? (FunDef.decode (room + 1)) = some (f.source.map FunDef.unshared) := by
    apply hs.nullable?_map FunDef.encode_ne_null (FunDef.decode_null (room + 1))
    intro g hmem hg
    exact g.decode_presented (room + 1) hg hbs (hd.1 g (Option.mem_toList.mpr hmem))
  have hblocks' : bs.mapM (Block.decode room) =
      some (f.blocks.map fun b => b.closed.unshared) := by
    apply hblocks.mapM_map f.blocks hbbs
    intro b hmem j hj hbj
    exact b.decode_presented room (by omega) hj hbj (hd.2 b hmem)
  simp only [Func.decode, fieldsIn?, hvalues, Option.map_some, listIn?, list?, items?,
    Option.bind_some, hsource, hblocks', closed, unshared, List.map_map]
  rfl

theorem Module.decode_presented (m : Module) (room : Nat) (hroom : 8 ≤ room) {j : Json}
    (h : Presents (.kind .module) m.encode j) (hb : j.brackets ≤ room)
    (hd : ∀ x ∈ m.doubles, x.ReadsBack) : Module.decode room j = some m.closed.unshared := by
  obtain ⟨_, rfl, _, hvalues, f, _, rfl, ⟨hf, hbf⟩, rfl⟩ :=
    h.of_kind.values [.required "functions"] rfl hb fun _ _ => ⟨by decide, by simp⟩
  obtain ⟨room, fs, rfl, rfl, hfs, hbs⟩ := hf.exists_items hbf
  rw [doubles, List.forall_mem_flatMap] at hd
  have hfunctions : fs.mapM (Func.decode room) =
      some (m.functions.map fun f => f.closed.unshared) := by
    apply hfs.mapM_map m.functions hbs
    intro f hmem j hj hbj
    exact f.decode_presented room (by omega) hj hbj (hd f hmem)
  simp only [Module.decode, fieldsIn?, hvalues, Option.map_some, listIn?, list?, items?,
    Option.bind_some, hfunctions, closed, unshared, List.map_map]
  rfl

end Ir

end Parts

namespace Stored

variable {α : Type} [Stored α]

/-- A text that spells a form of a value, with blanks behind it. -/
def Holds (k : Kind) (a : α) (text : String) : Prop :=
  ∃ j t b, Presents (.kind k) (encode a) j ∧ j.brackets ≤ maxBrackets ∧ Spells j t ∧ Blank b ∧
    text = String.ofList (t ++ b)

/-- The text that is written of a value holds it, and whatever text holds it is read as `b`. -/
structure ReadsAs (k : Kind) (a b : α) : Prop where
  holds_write : (encode a).brackets ≤ maxBrackets → Holds k a (write a)
  read_eq : ∀ text, Holds k a text → read text = .ok b

theorem ReadsAs.of_decode {k : Kind} {a b : α} (hself : Presents (.kind k) (encode a) (encode a))
    (hproper : (encode a).Proper)
    (h : ∀ j, Presents (.kind k) (encode a) j → j.brackets ≤ maxBrackets →
      decode maxBrackets j = some b) : ReadsAs k a b where
  holds_write hb := ⟨encode a, (encode a).chars, [], hself, hb, spells_chars (encode a) hproper,
    blank_nil, by rw [List.append_nil]; rfl⟩
  read_eq text htext := by
    obtain ⟨j, t, blank, hj, hb, ht, hblank, rfl⟩ := htext
    have hread : read? (String.ofList (t ++ blank)) = some b := by
      rw [read?, ht.parse? hblank, Option.bind_some, h j hj hb]
    rw [read, hread]

/-- Every kind of value is read from all of its texts, whatever form and spelling they have. What a
text does not keep is the sharing of types and the bytes of open inputs. -/
theorem reads_any_form :
    (∀ n : Node, (∀ x ∈ n.doubles, x.ReadsBack) → ReadsAs .node n n.unshared) ∧
    (∀ t : Ty, (∀ x ∈ t.doubles, x.ReadsBack) → ReadsAs .ty t t.unshared) ∧
    (∀ b : Binding, (∀ x ∈ b.doubles, x.ReadsBack) → ReadsAs .binding b b.unshared) ∧
    (∀ m : Ir.Module, (∀ x ∈ m.doubles, x.ReadsBack) → ReadsAs .module m m.closed.unshared) ∧
    (∀ b : Ir.Block, (∀ x ∈ b.doubles, x.ReadsBack) → ReadsAs .block b b.closed.unshared) ∧
    (∀ e : Ir.Exit, ReadsAs .exit e e) ∧
    (∀ op : Op, ReadsAs .op op op) ∧
    (∀ s : Settings, ReadsAs .settings s s) ∧
    (∀ loc : Location, ReadsAs .location loc loc.closed) := by
  refine ⟨?_, ?_, ?_, ?_, ?_, ?_, ?_, ?_, ?_⟩
  · intro n hd
    refine .of_decode n.presents_self n.proper_encode ?_
    exact fun j hj hb => n.decode_presented maxBrackets hj hb hd
  · intro t hd
    refine .of_decode t.presents_self t.proper_encode ?_
    exact fun j hj hb => t.decode_presented maxBrackets hj hb hd
  · intro b hd
    refine .of_decode b.presents_self b.proper_encode ?_
    exact fun j hj hb => b.decode_presented maxBrackets hj hb hd
  · intro m hd
    refine .of_decode m.presents_self m.proper_encode ?_
    exact fun j hj hb => m.decode_presented maxBrackets (by decide) hj hb hd
  · intro b hd
    refine .of_decode b.presents_self b.proper_encode ?_
    exact fun j hj hb => b.decode_presented maxBrackets (by decide) hj hb hd
  · intro e
    refine .of_decode e.presents_self e.proper_encode ?_
    exact fun j hj hb => e.decode_presented maxBrackets hj hb
  · intro op
    refine .of_decode op.presents_tag (proper_text op.tag) ?_
    exact fun j hj hb => op.decode_presented maxBrackets hj hb
  · intro s
    refine .of_decode s.presents_self s.proper_encode ?_
    exact fun j hj hb => s.decode_presented maxBrackets hj hb
  · intro loc
    refine .of_decode loc.presents_self loc.proper_encode ?_
    exact fun j hj hb => loc.decode_presented maxBrackets hj hb

/-- Fields in reverse order behind two members of a name that no field has, a type without data as
an object, an exponent in another spelling, and blanks. -/
theorem reads_any_form_reversed :
    let b : Binding := ⟨"x", some (.fresh (.prim .f64)), some (.floatLit ⟨0x3fe0000000000000⟩)⟩
    let text := "\x7b\"k\" :1E2,\"k\":[] ,\"init\":\x7b\"FloatLit\":0.5\x7d," ++
      "\"ty\":\x7b\"F64\":null\x7d,\"name\":\"x\" \x7d\n"
    Holds .binding b text ∧ (∀ x ∈ b.doubles, x.ReadsBack) ∧ read text = .ok b := by
  intro b text
  let hundred : Numeral := ⟨false, [1], [], some (Radix.ofDigits 10 [2])⟩
  let name : Member := ⟨some "name", .text "x"⟩
  let ty : Member := ⟨some "ty", .tagged "F64" .null⟩
  let init : Member := ⟨some "init", .tagged "FloatLit" (.double ⟨0x3fe0000000000000⟩)⟩
  let first : Member := ⟨some "k", .number hundred⟩
  let second : Member := ⟨some "k", .array []⟩
  let j : Json := .object [first, second, init, ty, name]
  have hform : Presents (.kind .binding) (encode b) j := by
    have hty : Presents (.kind .ty) (.text "F64") ty.value := .kind (.nameNull (by decide))
    have hinit : Presents (.kind .node) (Node.encode (.floatLit ⟨0x3fe0000000000000⟩)) init.value :=
      .kind (.data rfl .scalar)
    refine .kind (.object (.shown .scalar (.shown (.present hty) (.shown (.present hinit) .nil)))
      ?_ (List.reverse_perm [name, ty, init, second, first]))
    simp [Extra, first, second, Field.required, Field.nullable, Field.defaulted]
  have hspace : Blank [' '] := by simp [Blank]
  have hfirst : SpellsMember first (quoted (some "k") ++ [' ', ':', '1', 'E', '2']) := by
    have hproper : hundred.Proper := by constructor <;> simp [hundred]
    have hnumeral : SpellsNumeral hundred ['1', 'E', '2'] :=
      .mk hproper (.unsigned (Or.inr rfl) ⟨by simp, by simp⟩)
    have hvalue : Spells first.value ['1', 'E', '2'] := .number (b := []) blank_nil hnumeral
    exact .mk (b := []) blank_nil (spellsString_quoted "k") hspace hvalue
  have hspells : ∃ t, Spells j t ∧ text = String.ofList (t ++ ['\n']) := by
    have hsecond := spellsMember_chars second ⟨rfl, trivial⟩
    have hinit := spellsMember_chars init ⟨rfl, (proper_tagged _ _).mpr (proper_double _)⟩
    have hty := spellsMember_chars ty ⟨rfl, (proper_tagged _ _).mpr proper_null⟩
    have hname := spellsMember_chars name ⟨rfl, proper_text "x"⟩
    refine ⟨_, .object blank_nil (.more hfirst blank_nil (.more hsecond hspace (.more hinit
      blank_nil (.more hty blank_nil (.last hname hspace))))), ?_⟩
    decide +kernel
  have hd : ∀ x ∈ b.doubles, x.ReadsBack := by decide +kernel
  obtain ⟨t, ht, htext⟩ := hspells
  have hholds : Holds .binding b text :=
    ⟨j, t, ['\n'], hform, by decide +kernel, ht, by simp [Blank], htext⟩
  exact ⟨hholds, hd, (reads_any_form.2.2.1 b hd).read_eq text hholds⟩

end Stored

end CodeDump
