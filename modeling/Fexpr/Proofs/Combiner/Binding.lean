import Fexpr.Proofs.Combiner.Formals
import Fexpr.Proofs.Environment.History

/-!
# Calls bind their operands without loss

A call of an operative takes a proper list with an operand for each parameter, and with more of them
only if there is a rest. Its frame is new, and what the frame binds is a short history of
definitions: `current-world` first, then the parameters in order, then the rest. The last definition
of a name counts, so a parameter gives way to a later one of its name and to a rest of its name. A
call that is refused says why by showing what is wrong, unless an integer in it is too long to be
written. Main statement: `vau_binds_operands`.
-/

namespace Fexpr

/-! ## What `$vau` makes -/

section Vau

variable {formals operands : Value} {body : List Value} {env : Option FrameId} {s : Store}

theorem runVau_of_ok (env : Option FrameId) (s : Store) {fs : Formals}
    (h : Formals.ofValue formals = .ok fs) (hbody : body ≠ []) :
    ∃ t : Store, Builtin.runVau env formals body s =
        .ok (.operative s.nextTag fs (.listFrom (s.nextTag + 1) body) (some s.frames.size)) t ∧
      t.frames = (s.newFrame env).frames := by
  obtain ⟨e, es, rfl⟩ := List.exists_cons_of_ne_nil hbody
  rw [Builtin.runVau, h]
  exact ⟨_, rfl, rfl⟩

theorem runVau_of_error {e : Fault} (h : Formals.ofValue formals = .error e) :
    Builtin.runVau env formals body s = .error (.fault e) s := by
  rw [Builtin.runVau, h]
  rfl

variable [CharacterNames]

/-- A primitive operative runs on its operands if it takes that many. -/
theorem applyWith_builtin {b : Builtin} {os : List Value} (ev : Evaluator) (tag : Tag)
    (name : Text) (env : Option FrameId) (hos : operands.elements? = some os)
    (hcount : b.arity.accepts os.length = true) :
    applyWith ev (.primitive tag name (.builtin b)) operands env = b.run ev env os := by
  have hcheck : checkCount b.arity name os = pure () := by rw [checkCount, if_pos hcount]
  rw [applyWith, Eval.elements, hos]
  simp only [pure_bind, Procedure.arity, hcheck]
  rfl

/-- `$vau` takes the formals and then the body. -/
theorem applyWith_vau (ev : Evaluator) (tag : Tag) (name : Text) (env : Option FrameId)
    (h : operands.elements? = some (formals :: body)) :
    applyWith ev (.primitive tag name (.builtin .vau)) operands env =
      Builtin.runVau env formals body :=
  applyWith_builtin ev tag name env h (by simp [Builtin.arity, Arity.accepts])

theorem apply_vau (depth : Nat) (tag : Tag) (name : Text) (env : Option FrameId)
    (h : operands.elements? = some (formals :: body)) :
    apply depth (.primitive tag name (.builtin .vau)) operands env =
      Builtin.runVau env formals body :=
  applyWith_vau (evaluate depth) tag name env h

end Vau

/-! ## What a call defines -/

/-- A list is cut at any of its elements. -/
theorem exists_append_of_getElem? {α : Type} {l : List α} {j : Nat} {a : α} (h : l[j]? = some a) :
    ∃ before after, l = before ++ a :: after ∧ before.length = j := by
  obtain ⟨hlt, rfl⟩ := List.getElem?_eq_some_iff.mp h
  refine ⟨l.take j, l.drop (j + 1), ?_, List.length_take_of_le (Nat.le_of_lt hlt)⟩
  rw [← List.drop_eq_getElem_cons hlt, List.take_append_drop]

namespace Formals

variable {ps : List Text} {r : Option Text} {os : List Value}

/-- Operands that a call can bind: one for each parameter, or more if there is a rest. -/
def Fits (ps : List Text) (r : Option Text) (os : List Value) : Prop :=
  os.length = ps.length ∨ ps.length ≤ os.length ∧ r.isSome = true

theorem Fits.length_le (h : Fits ps r os) : ps.length ≤ os.length := by
  rcases h with h | h
  · exact Nat.le_of_eq h.symm
  · exact h.1

theorem few_or_many (h : ¬ Fits ps r os) :
    os.length < ps.length ∨ ps.length < os.length ∧ r = none := by
  rw [Fits, not_or, not_and, Bool.not_eq_true, Option.isSome_eq_false_iff,
    Option.isNone_iff_eq_none] at h
  obtain ⟨hne, hrest⟩ := h
  rcases Nat.lt_or_gt_of_ne hne with hlt | hgt
  · exact .inl hlt
  · exact .inr ⟨hgt, hrest (Nat.le_of_lt hgt)⟩

/-- The definitions that a call makes in its frame `f`, given the list of the operands that are left
over. -/
def calls (f : FrameId) (ps : List Text) (r : Option Text) (os : List Value) (rest : Value) :
    List (Text × Value) :=
  (currentWorld, .native (.currentWorld f)) :: (ps.zip os ++ r.toList.map (·, rest))

variable {f : FrameId} {rest : Value} {x : Text}

theorem map_fst_calls (h : Fits ps r os) :
    (calls f ps r os rest).map Prod.fst = currentWorld :: (ps ++ r.toList) := by
  simp [calls, List.map_fst_zip h.length_le, Function.comp_def]

/-- What is defined after all others of its name. -/
theorem lookup_reverse_of_notMem (ds : List (Text × Value)) {es : List (Text × Value)} {v : Value}
    (h : x ∉ es.map Prod.fst) : (ds ++ (x, v) :: es).reverse.lookup x = some v := by
  have hnone : es.reverse.lookup x = none := by
    rw [← Option.not_isSome_iff_eq_none, isSome_lookup_reverse, List.contains_iff_mem]
    exact h
  rw [List.reverse_append, List.reverse_cons, List.append_assoc, List.lookup_append, hnone]
  simp

theorem lookup_calls_rest : (calls f ps (some x) os rest).reverse.lookup x = some rest := by
  simp [calls]

/-- Names that are neither parameters nor the rest are not defined after `current-world`. -/
theorem notMem_map_fst (os : List Value) (rest : Value) (hps : x ∉ ps) (hr : r ≠ some x) :
    x ∉ (ps.zip os ++ r.toList.map (·, rest)).map Prod.fst := by
  rw [List.map_append, List.mem_append]
  rintro (hx | hx)
  · obtain ⟨d, hd, rfl⟩ := List.mem_map.mp hx
    exact hps (List.of_mem_zip hd).1
  · exact hr (by simpa using hx)

theorem lookup_calls_world (hps : currentWorld ∉ ps) (hr : r ≠ some currentWorld) :
    (calls f ps r os rest).reverse.lookup currentWorld = some (.native (.currentWorld f)) :=
  lookup_reverse_of_notMem [] (notMem_map_fst os rest hps hr)

/-- A parameter that no later one and no rest shares its name with gives its operand. -/
theorem lookup_calls_param (h : Fits ps r os) (hr : r ≠ some x) {j : Nat} (hj : ps[j]? = some x)
    (hlast : ∀ k, j < k → ps[k]? ≠ some x) : (calls f ps r os rest).reverse.lookup x = os[j]? := by
  obtain ⟨before, after, rfl, rfl⟩ := exists_append_of_getElem? hj
  have hlt : before.length < os.length := by
    have hle := h.length_le
    simp only [List.length_append, List.length_cons] at hle
    omega
  obtain ⟨o, ho⟩ : ∃ o, os[before.length]? = some o := ⟨_, List.getElem?_eq_getElem hlt⟩
  obtain ⟨front, back, rfl, hlen⟩ := exists_append_of_getElem? ho
  have hafter : x ∉ after := by
    intro hx
    obtain ⟨i, hi⟩ := List.mem_iff_getElem?.mp hx
    apply hlast (before.length + (i + 1)) (by omega)
    rw [List.getElem?_append_right (by omega), Nat.add_sub_cancel_left, List.getElem?_cons_succ]
    exact hi
  have hlater := notMem_map_fst back rest hafter hr
  have hcut : calls f (before ++ x :: after) r (front ++ o :: back) rest =
      ((currentWorld, .native (.currentWorld f)) :: before.zip front) ++
        (x, o) :: (after.zip back ++ r.toList.map (·, rest)) := by
    simp [calls, List.zip_append hlen.symm]
  rw [hcut, lookup_reverse_of_notMem _ hlater, ho]

end Formals

/-! ## The frame of a call -/

namespace Store

/-- From `s` to `t` a call has made its frame `f` below `c` and bound `os` to the parameters `ps`
and the rest `r` in it. -/
structure Called (s t : Store) (f : FrameId) (c : Option FrameId) (ps : List Text) (r : Option Text)
    (os : List Value) : Prop where
  /-- The frame is new. -/
  fresh : f = s.frames.size ∧ t.frames.size = s.frames.size + 1
  /-- The frames that were there are as they were. -/
  others (g : FrameId) : g < s.frames.size → t.frames[g]? = s.frames[g]?
  parent : t.parent? f = c
  /-- No other names are bound. -/
  names (x : Text) : (t.get? f x).isSome = true ↔ x = currentWorld ∨ x ∈ ps ∨ r = some x
  /-- The rest is the list of the operands that are left over. -/
  rest (x : Text) : r = some x →
    ∃ list, t.get? f x = some list ∧ list.elements? = some (os.drop ps.length)
  /-- Any other name of a parameter gives the operand of the last one of that name. -/
  param (x : Text) (j : Nat) : r ≠ some x → ps[j]? = some x → (∀ k, j < k → ps[k]? ≠ some x) →
    t.get? f x = os[j]?
  /-- Unless it is a parameter or the rest, `current-world` gives the environment of the call. -/
  world : currentWorld ∉ ps → r ≠ some currentWorld →
    t.get? f currentWorld = some (.native (.currentWorld f))

variable {s t : Store} {f : FrameId} {c : Option FrameId} {ps : List Text} {r : Option Text}
  {os : List Value}

theorem assignAll_append (s : Store) (f : FrameId) (ds es : List (Text × Value)) :
    s.assignAll f (ds ++ es) = (s.assignAll f ds).assignAll f es := List.foldl_append ..

theorem getElem?_assignAll_of_ne {g : FrameId} (h : f ≠ g) (ds : List (Text × Value)) :
    (s.assignAll f ds).frames[g]? = s.frames[g]? := by
  induction ds generalizing s with
  | nil => rfl
  | cons d ds ih => rw [assignAll_cons, ih, getElem?_assign_of_ne h]

/-- The frame of a call binds what the last definitions in it say. -/
theorem get?_calls {rest : Value}
    (h : t.frames =
      ((s.newFrame c).assignAll s.frames.size (ps.zip os ++ r.toList.map (·, rest))).frames)
    (x : Text) :
    t.get? s.frames.size x = (Formals.calls s.frames.size ps r os rest).reverse.lookup x := by
  have hlt : s.frames.size < (s.newFrame c).frames.size := by simp
  rw [get?, bindings, h, ← bindings, bindings_assignAll hlt, if_pos rfl, bindings_newFrame,
    if_pos rfl]
  exact Bindings.lookup_assignAll (Formals.calls s.frames.size ps r os rest) x

theorem called_of_frames (rest : Value) (hfits : Formals.Fits ps r os)
    (hrest : ∀ x, r = some x → rest.elements? = some (os.drop ps.length))
    (h : t.frames =
      ((s.newFrame c).assignAll s.frames.size (ps.zip os ++ r.toList.map (·, rest))).frames) :
    s.Called t s.frames.size c ps r os where
  fresh := ⟨rfl, by simp [h]⟩
  others g hg := by
    rw [h, getElem?_assignAll_of_ne (Nat.ne_of_gt hg), getElem?_newFrame_of_ne (Nat.ne_of_lt hg)]
  parent := by
    rw [parent?, h, ← parent?, parent?_assignAll, parent?_newFrame, if_pos rfl]
  names x := by
    rw [get?_calls h, isSome_lookup_reverse, List.contains_iff_mem, Formals.map_fst_calls hfits]
    simp
  rest x hx := by
    subst hx
    exact ⟨rest, (get?_calls h x).trans Formals.lookup_calls_rest, hrest x rfl⟩
  param x j hr hj hlast := (get?_calls h x).trans (Formals.lookup_calls_param hfits hr hj hlast)
  world hps hr := (get?_calls h currentWorld).trans (Formals.lookup_calls_world hps hr)

/-- Names that a call does not bind have the values in its frame that they have in the closure. -/
theorem Called.lookup? {d : FrameId} (h : s.Called t f (some d) ps r os) {x : Text} {v : Value}
    (hx : ¬ (x = currentWorld ∨ x ∈ ps ∨ r = some x)) (hv : s.lookup? d x = some v) :
    t.lookup? f x = some v := by
  obtain ⟨rfl, hsize⟩ := h.fresh
  refine lookup?_of_parent hsize h.others h.parent ?_ hv
  rw [← Option.not_isSome_iff_eq_none, h.names]
  exact hx

end Store

namespace Combiner

variable {ps : List Text} {r : Option Text} {os : List Value} {c : Option FrameId} {s : Store}
  {operands : Value} {f : FrameId} {t : Store}

theorem bindEach_eq (f : FrameId) (ps : List Text) (vs : List Value) (s : Store) :
    bindEach f (ps.map .name) vs s = .ok () (s.assignAll f (ps.zip vs)) := by
  induction ps generalizing vs s with
  | nil =>
    rw [List.map_nil, bindEach.eq_def]
    rfl
  | cons p ps ih =>
    cases vs with
    | nil => rfl
    | cons v vs => exact ih vs (s.assign f p v)

theorem bind_of_improper (fs : Formals) (c : Option FrameId) (s : Store)
    (h : operands.elements? = none) :
    bind fs c operands s = .error (.fault (.showing (.mismatch .list) operands.render)) s := by
  rw [bind, Eval.elements, h]
  rfl

theorem bind_of_fewer {fs : Formals} (c : Option FrameId) (s : Store)
    (hops : operands.elements? = some os) (h : os.length < fs.params.length) :
    bind fs c operands s = .error (.fault (.tooFew fs.params.length os.length)) s := by
  rw [bind, Eval.elements, hops]
  simp only [pure_bind, if_pos h]
  rfl

theorem bind_of_more {fs : Formals} (c : Option FrameId) (s : Store)
    (hops : operands.elements? = some os) (h : fs.params.length < os.length)
    (hrest : fs.rest = none) :
    bind fs c operands s =
      .error
        (.fault (.showing .tooMany (Value.listFrom 0 (os.drop fs.params.length)).render)) s := by
  rw [bind, Eval.elements, hops]
  simp only [pure_bind, if_neg (Nat.not_lt_of_gt h), hrest, Option.isNone_none, Bool.and_true,
    decide_eq_true_eq, if_pos h]
  rfl

theorem bind_of_few (hops : operands.elements? = some os) (h : os.length < ps.length) :
    bind (.ofNames ps r) c operands s = .error (.fault (.tooFew ps.length os.length)) s := by
  have hlen : (Formals.ofNames ps r).params.length = ps.length := List.length_map ..
  rw [bind_of_fewer c s hops (hlen ▸ h), hlen]

theorem bind_of_many (hops : operands.elements? = some os) (h : ps.length < os.length) :
    bind (.ofNames ps none) c operands s =
      .error (.fault (.showing .tooMany (Value.listFrom 0 (os.drop ps.length)).render)) s := by
  have hlen : (Formals.ofNames ps none).params.length = ps.length := List.length_map ..
  rw [bind_of_more c s hops (hlen ▸ h) rfl, hlen]

/-- Operands that fit are bound to the parameters in a new frame, and what is left over to the
rest. -/
theorem bind_eq_of_fits (hops : operands.elements? = some os) (hfits : Formals.Fits ps r os) :
    bind (.ofNames ps r) c operands s =
      (match r with
        | none => pure s.frames.size
        | some x => Eval.newList (os.drop ps.length) >>= fun rest ↦
            Environment.assign s.frames.size x rest >>= fun _ ↦ pure s.frames.size : Eval FrameId)
        ((s.newFrame c).assignAll s.frames.size (ps.zip os)) := by
  have hfew : ¬ os.length < ps.length := Nat.not_lt.mpr hfits.length_le
  have hmany : (decide (ps.length < os.length) && (r.map Formal.name).isNone) = false := by
    rcases hfits with h | h
    · simp [h]
    · simp [Option.isNone_eq_false_iff.mpr h.2]
  rw [bind, Eval.elements, hops]
  simp only [pure_bind, Formals.ofNames, List.length_map, if_neg hfew, hmany, Bool.false_eq_true,
    if_false]
  rw [Eval.bind_of_ok (Environment.new_eq c s), Eval.bind_of_ok (bindEach_eq _ ps os _)]
  cases r <;> rfl

theorem bind_of_fits (hops : operands.elements? = some os) (hfits : Formals.Fits ps r os) :
    ∃ t, bind (.ofNames ps r) c operands s = .ok s.frames.size t ∧
      s.Called t s.frames.size c ps r os := by
  rw [bind_eq_of_fits hops hfits]
  generalize ht : (s.newFrame c).assignAll s.frames.size (ps.zip os) = t
  cases r with
  | none =>
    refine ⟨t, rfl, Store.called_of_frames .nil hfits (by simp) ?_⟩
    simp [← ht]
  | some x =>
    -- The list of what is left over is made before the rest is bound to it.
    refine ⟨_, rfl, Store.called_of_frames (.listFrom t.nextTag (os.drop ps.length)) hfits ?_ ?_⟩
    · intro _ _
      exact Value.elements?_listFrom _ _
    · rw [Store.assignAll_append, ht]
      rfl

/-- Only operands that fit are bound. -/
theorem fits_of_bind (hops : operands.elements? = some os)
    (h : bind (.ofNames ps r) c operands s = .ok f t) : Formals.Fits ps r os := by
  by_contra hfits
  rcases Formals.few_or_many hfits with hfew | ⟨hmany, rfl⟩
  · cases (bind_of_few hops hfew).symm.trans h
  · cases (bind_of_many hops hmany).symm.trans h

theorem called_of_bind (hops : operands.elements? = some os)
    (h : bind (.ofNames ps r) c operands s = .ok f t) : s.Called t f c ps r os := by
  obtain ⟨u, hu, hcalled⟩ := bind_of_fits (c := c) (s := s) hops (fits_of_bind hops h)
  cases h.symm.trans hu
  exact hcalled

end Combiner

/-! ## No operand is lost -/

/-- The values of the parameters in a frame, and after them the elements of the rest. -/
def Store.gather? (s : Store) (f : FrameId) (ps : List Text) (r : Option Text) :
    Option (List Value) := do
  let vs ← ps.mapM (s.get? f)
  let rest ← r.elim (some []) fun x ↦ (s.get? f x).bind Value.elements?
  return vs ++ rest

theorem mapM_eq_take {α β : Type} {g : α → Option β} {xs : List α} {ys : List β}
    (hle : xs.length ≤ ys.length) (h : ∀ (j : Nat) x, xs[j]? = some x → g x = ys[j]?) :
    xs.mapM g = some (ys.take xs.length) := by
  induction xs generalizing ys with
  | nil => simp
  | cons x xs ih =>
    cases ys with
    | nil => cases hle
    | cons y ys =>
      have hx : g x = some y := h 0 x rfl
      have hrest := ih (Nat.le_of_succ_le_succ hle) fun j z hz ↦ h (j + 1) z hz
      simp [hx, hrest]

namespace Store.Called

variable {s t : Store} {f : FrameId} {c : Option FrameId} {ps : List Text} {r : Option Text}
  {os : List Value}

/-- A parameter with a name of its own gives its operand. -/
theorem get?_param (h : s.Called t f c ps r os) (hnodup : ps.Nodup) {x : Text} (j : Nat)
    (hr : r ≠ some x) (hj : ps[j]? = some x) : t.get? f x = os[j]? := by
  refine h.param x j hr hj fun k hk hx ↦ ?_
  have hlt := (List.getElem?_eq_some_iff.mp hj).1
  exact Nat.ne_of_lt hk ((List.getElem?_inj hlt hnodup).mp (hj.trans hx.symm))

theorem mapM_params (h : s.Called t f c ps r os) (hfits : Formals.Fits ps r os)
    (hnodup : (ps ++ r.toList).Nodup) : ps.mapM (t.get? f) = some (os.take ps.length) := by
  obtain ⟨hps, -, hapart⟩ := List.nodup_append.mp hnodup
  refine mapM_eq_take hfits.length_le fun j x hj ↦ h.get?_param hps j ?_ hj
  rintro rfl
  exact hapart x (List.mem_of_getElem? hj) x (by simp) rfl

theorem elim_rest (h : s.Called t f c ps r os) (hfits : Formals.Fits ps r os) :
    (r.elim (some []) fun x ↦ (t.get? f x).bind Value.elements?) = some (os.drop ps.length) := by
  cases r with
  | none =>
    have hlen : os.length = ps.length := by
      rcases hfits with h | h
      · exact h
      · cases h.2
    rw [Option.elim_none, List.drop_of_length_le (Nat.le_of_eq hlen)]
  | some x =>
    obtain ⟨list, hlist, helements⟩ := h.rest x rfl
    rw [Option.elim_some, hlist, Option.bind_some, helements]

/-- With names that are all different, the frame gives back all operands in their order. -/
theorem gather? (h : s.Called t f c ps r os) (hfits : Formals.Fits ps r os)
    (hnodup : (ps ++ r.toList).Nodup) : t.gather? f ps r = some os := by
  rw [Store.gather?, h.mapM_params hfits hnodup, h.elim_rest hfits]
  exact congrArg some (List.take_append_drop _ _)

end Store.Called

/-- `op.BindsOperands ps r c`: calls of `op` bind their operands to the parameters `ps` and the rest
`r`, below the frame `c`. -/
structure Value.BindsOperands (op : Value) (ps : List Text) (r : Option Text) (c : Option FrameId) :
    Prop where
  /-- Exactly proper lists of the right number of operands are bound. -/
  accepts (operands : Value) (s : Store) : (∃ f t, Combiner.bindValue op operands s = .ok f t) ↔
    ∃ os, operands.elements? = some os ∧ Formals.Fits ps r os
  /-- What is no proper list is shown. -/
  improper (operands : Value) (s : Store) : operands.elements? = none →
    ∃ e, Fault.Shows (.mismatch .list) operands e ∧
      Combiner.bindValue op operands s = .error (.fault e) s
  few {operands : Value} {os : List Value} (s : Store) : operands.elements? = some os →
    os.length < ps.length →
    Combiner.bindValue op operands s = .error (.fault (.tooFew ps.length os.length)) s
  /-- Of too many operands those that are left over are shown. -/
  many {operands : Value} {os : List Value} (s : Store) : operands.elements? = some os →
    ps.length < os.length → r = none →
      ∃ e, Fault.Shows .tooMany (Value.listFrom 0 (os.drop ps.length)) e ∧
        Combiner.bindValue op operands s = .error (.fault e) s
  /-- What is bound is bound in a new frame. -/
  called {operands : Value} {os : List Value} {s t : Store} {f : FrameId} :
    operands.elements? = some os →
    Combiner.bindValue op operands s = .ok f t → s.Called t f c ps r os
  /-- With names that are all different, the frame gives back the operands. -/
  gathers {operands : Value} {os : List Value} {s t : Store} {f : FrameId} :
    operands.elements? = some os →
    Combiner.bindValue op operands s = .ok f t → (ps ++ r.toList).Nodup → t.gather? f ps r = some os

theorem bindsOperands (tag : Tag) (ps : List Text) (r : Option Text) (body : Value)
    (c : Option FrameId) :
    (Value.operative tag (.ofNames ps r) body c).BindsOperands ps r c where
  accepts operands s := by
    constructor
    · rintro ⟨f, t, hbind⟩
      cases hops : operands.elements? with
      | none => cases (Combiner.bind_of_improper _ c s hops).symm.trans hbind
      | some os => exact ⟨os, rfl, Combiner.fits_of_bind hops hbind⟩
    · rintro ⟨os, hops, hfits⟩
      obtain ⟨t, ht, -⟩ := Combiner.bind_of_fits hops hfits
      exact ⟨_, t, ht⟩
  improper operands s hops := ⟨_, Fault.shows_showing _ _, Combiner.bind_of_improper _ c s hops⟩
  few s hops hfew := Combiner.bind_of_few hops hfew
  many s hops hmany hr := by
    subst hr
    exact ⟨_, Fault.shows_showing _ _, Combiner.bind_of_many hops hmany⟩
  called hops hbind := Combiner.called_of_bind hops hbind
  gathers hops hbind hnodup :=
    (Combiner.called_of_bind hops hbind).gather? (Combiner.fits_of_bind hops hbind) hnodup

section Vau

variable [CharacterNames]

/-- Let `$vau` be applied to formals and a body that is not empty. It makes an operative if the
formals are the empty list, or a pair of a symbol or proper list of symbols and of the empty list or
a symbol; of any other value what is wrong first is shown as not expected, or found too long to be
shown. A lone symbol gives the same formals as the list of that symbol. The operative has the
parameters and the rest that the formals spell, and closes over a new frame below the caller's.
Called with any operands on any store, it binds them if they are a proper list of one for each
parameter, or of more if there is a rest; otherwise it fails, with the same exception, and leaves
the store alone. The operands are bound in a new frame below the closure, which holds
`current-world`, the parameters and the rest, and nothing else; no other frame is changed. If all
names are different, the values of the parameters and the elements of the rest are the operands, in
order. -/
theorem vau_binds_operands (depth : Nat) (tag : Tag) (name : Text) (env : Option FrameId)
    (s : Store) {operands formals : Value} {body : List Value}
    (hops : operands.elements? = some (formals :: body)) (hbody : body ≠ []) :
    let vau := apply depth (.primitive tag name (.builtin .vau)) operands env
    ((∃ op t, vau s = .ok op t) ↔ ∃ ps r, formals.SpellsFormals ps r) ∧
    ((¬ ∃ ps r, formals.SpellsFormals ps r) →
      ∃ expected w e, formals.MisspellsFormals expected w ∧ (formals.Writable → w.Writable) ∧
        Fault.Shows (.mismatch expected) w e ∧ vau s = .error (.fault e) s) ∧
    (∀ a b c x t, Formals.ofValue (.pair a (.symbol x) t) =
      Formals.ofValue (.pair b (.pair c (.symbol x) .nil) t)) ∧
    ∀ ps r, formals.SpellsFormals ps r → ∃ a list t,
      vau s = .ok (.operative a (.ofNames ps r) list (some s.frames.size)) t ∧
      list.elements? = some body ∧ t.frames = (s.newFrame env).frames ∧
      (Value.operative a (.ofNames ps r) list (some s.frames.size)).BindsOperands ps r
        (some s.frames.size) := by
  intro vau
  have hvau : vau = Builtin.runVau env formals body := apply_vau depth tag name env hops
  rw [hvau]
  refine ⟨?_, ?_, Formals.ofValue_lone, ?_⟩
  · constructor
    · rintro ⟨op, t, h⟩
      rcases Formals.checks_ofValue formals with
        ⟨_, -, ps, r, hspells, -⟩ | ⟨expected, w, herror, -⟩
      · exact ⟨ps, r, hspells⟩
      · cases (runVau_of_error herror).symm.trans h
    · rintro ⟨ps, r, hspells⟩
      obtain ⟨t, ht, -⟩ := runVau_of_ok env s (Formals.ofValue_eq hspells) hbody
      exact ⟨_, t, ht⟩
  · intro hnone
    rcases Formals.checks_ofValue formals with ⟨_, -, ps, r, hspells, -⟩ | ⟨expected, w, herror, hw⟩
    · exact absurd ⟨ps, r, hspells⟩ hnone
    · exact ⟨expected, w, _, hw, fun hv ↦ hv.of_misspellsFormals hw, Fault.shows_showing _ _,
        runVau_of_error herror⟩
  · intro ps r hspells
    obtain ⟨t, ht, hframes⟩ := runVau_of_ok env s (Formals.ofValue_eq hspells) hbody
    exact ⟨_, _, t, ht, Value.elements?_listFrom _ _, hframes, bindsOperands _ ps r _ _⟩

end Vau

open scoped CharacterNames

/-- The formals `((x current-world x) . r)` and the operands `(1 2 3 4)`: the second `x` counts, and
`current-world` is a name like any other. -/
theorem vau_binds_operands_repeated :
    let s : Store := Store.empty.newFrame none
    let formals : Value :=
      .pair 0 (.listFrom 1 [.symbol "x", .symbol currentWorld, .symbol "x"]) (.symbol "r")
    let operands : Value := .listFrom 4 [formals, .symbol "x"]
    let call : Value := .listFrom 6 [.int 1, .int 2, .int 3, .int 4]
    operands.elements? = some [formals, .symbol "x"] ∧
    ∃ op t, apply 0 (.primitive 10 "$vau" (.builtin .vau)) operands (some 0) s = .ok op t ∧
      ∃ f u, Combiner.bindValue op call t = .ok f u ∧ u.parent? f = some 1 ∧
        u.get? f "x" = some (.int 3) ∧ u.get? f currentWorld = some (.int 2) ∧
        ∃ list, u.get? f "r" = some list ∧ list.elements? = some [.int 4] := by
  intro s formals operands call
  have hops : operands.elements? = some [formals, .symbol "x"] := rfl
  have hcall : call.elements? = some [.int 1, .int 2, .int 3, .int 4] := rfl
  have hspells : formals.SpellsFormals ["x", currentWorld, "x"] (some "r") :=
    .pair (.list rfl) (.some "r")
  refine ⟨hops, ?_⟩
  obtain ⟨-, -, -, hmakes⟩ := vau_binds_operands 0 10 "$vau" (some 0) s hops (by simp)
  obtain ⟨a, list, t, ht, -, -, hbinds⟩ := hmakes _ _ hspells
  obtain ⟨f, u, hu⟩ := (hbinds.accepts call t).mpr ⟨_, hcall, .inr (by decide)⟩
  have hcalled := hbinds.called hcall hu
  refine ⟨_, t, ht, f, u, hu, hcalled.parent, ?_, ?_, hcalled.rest "r" rfl⟩
  · refine hcalled.param "x" 2 (by decide) rfl fun k hk ↦ ?_
    rw [List.getElem?_eq_none (by simp; omega)]
    simp
  · refine hcalled.param currentWorld 1 (by decide) rfl fun k hk ↦ ?_
    rcases k with _ | _ | _ | k
    · omega
    · omega
    · decide
    · simp

/-- The least integer that is too long is neither formals nor an operand of an operative without
parameters, but `$vau` does not say that it expected formals, and the operative does not say that
there are too many operands. -/
theorem long_formals_not_shown :
    let s : Store := Store.empty.newFrame none
    let vau := apply 0 (.primitive 0 "$vau" (.builtin .vau)) (.listFrom 1 [.tooLong, .nil]) (some 0)
    let call :=
      Combiner.bindValue (.operative 0 (.ofNames [] none) .nil (some 0)) (.listFrom 1 [.tooLong])
    ((¬ ∃ ps r, Value.tooLong.SpellsFormals ps r) ∧ vau s = .error (.fault .unwritable) s ∧
      ∀ expected got, vau s ≠ .error (.fault (.mismatch expected got)) s) ∧
    call s = .error (.fault .unwritable) s ∧
      ∀ surplus, call s ≠ .error (.fault (.tooMany surplus)) s := by
  intro s vau call
  have hspells : ¬ ∃ ps r, Value.tooLong.SpellsFormals ps r := by
    rintro ⟨ps, r, h⟩
    cases h
  have hvau : vau s = .error (.fault .unwritable) s := by
    have hrun : vau = Builtin.runVau (some 0) .tooLong [.nil] := apply_vau 0 0 "$vau" (some 0) rfl
    have herror : Formals.ofValue .tooLong = .error .unwritable := by
      change Except.error (Fault.showing (.mismatch .formals) Value.tooLong.render) = _
      rw [Fault.showing_of_not_writable _ Value.not_writable_tooLong]
    rw [hrun, runVau_of_error herror]
  have hcall : call s = .error (.fault .unwritable) s := by
    have hlong : ¬ (Value.listFrom 0 [.tooLong]).Writable := fun h ↦ Value.not_writable_tooLong h.1
    have hbind :
        call s = .error (.fault (.showing .tooMany (Value.listFrom 0 [.tooLong]).render)) s :=
      Combiner.bind_of_many (Value.elements?_listFrom 1 [.tooLong]) (by decide)
    rw [hbind, Fault.showing_of_not_writable _ hlong]
  refine ⟨⟨hspells, hvau, ?_⟩, hcall, ?_⟩
  · intro expected got
    rw [hvau]
    simp
  · intro surplus
    rw [hcall]
    simp

end Fexpr
