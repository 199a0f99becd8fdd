import Fexpr.Proofs.Combiner.Binding

/-!
# Calls that cannot be made

Some calls are refused before anything is evaluated for them: the operator is not a combiner, the
operands are not a proper list, there are too few or too many of them, or a special form is given
what it cannot work with. A call may have several such defects at once. This file says what each of
them is without saying how calls are checked (`Defect.Present`), and in which order they count. The
fault for a defect shows what is wrong, unless an integer in it is too long to be written. Main
statement: `malformed_call_refused`.
-/

namespace Fexpr

/-! ## Defects of a call -/

/-- The numbers of operands that lie between the least and the most. -/
def Arity.Admits (a : Arity) (n : Nat) : Prop := a.least ≤ n ∧ ∀ m, a.most = some m → n ≤ m

theorem Arity.accepts_iff {a : Arity} {n : Nat} : a.accepts n = true ↔ a.Admits n := by
  rw [accepts, Admits, Bool.and_eq_true, decide_eq_true_eq]
  cases a.most <;> simp

/-- The number of operands that formals take: one for each parameter, or more if there is a rest. -/
def Formals.arity (fs : Formals) : Arity :=
  ⟨fs.params.length, if fs.rest.isSome then none else some fs.params.length⟩

namespace Value

/-- The number of operands that an operator takes, by its formals or by the host function that it
runs. -/
def arity? : Value → Option Arity
  | operative _ fs _ _ => some fs.arity
  | primitive _ _ p => some p.arity
  | native n => some n.arity
  | _ => none

/-- The name that an operator run by the host goes by. -/
def hostName? : Value → Option Text
  | primitive _ name _ => some name
  | native n => some (n.name?.getD "native")
  | _ => none

/-- `op.Runs b`: `op` is a primitive operative that runs `b`. -/
def Runs (op : Value) (b : Builtin) : Prop := ∃ tag name, op = primitive tag name (.builtin b)

theorem Runs.arity? {op : Value} {b : Builtin} (h : op.Runs b) : op.arity? = some b.arity := by
  obtain ⟨tag, name, rfl⟩ := h
  rfl

end Value

/-- What can be wrong with a call. -/
inductive Defect
  /-- The operator is not a combiner. -/
  | notCombiner
  /-- The operands are not a proper list. -/
  | improper
  /-- The operator does not take that many operands. -/
  | wrongCount
  /-- What is to be defined is not a symbol, or the formals of a new operative are malformed. -/
  | misshapen
  /-- A new operative has no body. -/
  | bodiless
  deriving DecidableEq, Repr

namespace Defect

/-- The place of a defect in the order in which defects count. -/
def rank : Defect → Nat
  | notCombiner => 0
  | improper => 1
  | wrongCount => 2
  | misshapen => 3
  | bodiless => 4

/-- The call of `op` with `operands` has a defect, whatever other ones it has. -/
def Present (op operands : Value) : Defect → Prop
  | notCombiner => op.isCombiner = false
  | improper => operands.elements? = none
  | wrongCount => ∃ a os, op.arity? = some a ∧ operands.elements? = some os ∧ ¬ a.Admits os.length
  | misshapen =>
    (op.Runs .define ∧ ∃ tag name rest, operands = .pair tag name rest ∧ name.isSymbol = false) ∨
      op.Runs .vau ∧ ∃ tag formals rest, operands = .pair tag formals rest ∧
        ¬ ∃ ps r, formals.SpellsFormals ps r
  | bodiless => op.Runs .vau ∧ ∃ os, operands.elements? = some os ∧ os.length ≤ 1

/-- The first defect of a call. -/
def First (op operands : Value) (d : Defect) : Prop :=
  d.Present op operands ∧ ∀ d' : Defect, d'.rank < d.rank → ¬ d'.Present op operands

/-- `d.Fails op operands e`: the fault for the defect `d` of the call of `op` with `operands` is
`e`. -/
inductive Fails (op operands : Value) : Defect → Fault → Prop
  | notCombiner {e : Fault} : Fault.Shows .notCallable op e → Fails op operands notCombiner e
  | improper {e : Fault} : Fault.Shows (.mismatch .list) operands e → Fails op operands improper e
  | tooFew {tag : Tag} {fs : Formals} {body : Value} {c : Option FrameId} {os : List Value} :
    op = .operative tag fs body c → operands.elements? = some os →
      Fails op operands wrongCount (.tooFew fs.params.length os.length)
  | tooMany {tag : Tag} {fs : Formals} {body : Value} {c : Option FrameId} {os : List Value}
    {e : Fault} :
    op = .operative tag fs body c → operands.elements? = some os →
      Fault.Shows .tooMany (Value.listFrom 0 (os.drop fs.params.length)) e →
        Fails op operands wrongCount e
  | cannotTake {name : Text} {os : List Value} : op.hostName? = some name →
    operands.elements? = some os →
      Fails op operands wrongCount (.cannotTake name os.length)
  | notSymbol {tag : Tag} {name rest : Value} {e : Fault} : op.Runs .define →
      operands = .pair tag name rest → Fault.Shows (.mismatch .symbol) name e →
        Fails op operands misshapen e
  | notFormals {tag : Tag} {formals rest w : Value} {expected : Expected} {e : Fault} :
    op.Runs .vau →
      operands = .pair tag formals rest → formals.MisspellsFormals expected w →
      Fault.Shows (.mismatch expected) w e → Fails op operands misshapen e
  | bodiless : Fails op operands bodiless .emptyBody

variable {op operands : Value}

/-- Of an operator and operands that can be written the fault shows what is wrong. -/
theorem Fails.ne_unwritable {d : Defect} {e : Fault} (h : d.Fails op operands e) (hop : op.Writable)
    (hoperands : operands.Writable) : e ≠ .unwritable := by
  -- What is shown is a part of the operator or of the operands.
  cases h with
  | notCombiner he => exact he.ne_unwritable hop (by simp)
  | improper he => exact he.ne_unwritable hoperands (by simp)
  | tooMany _ hos he =>
    refine he.ne_unwritable ((Value.writable_listFrom 0).mpr fun v hv ↦ ?_) (by simp)
    exact hoperands.of_elements? hos v (List.mem_of_mem_drop hv)
  | notSymbol _ hpair he =>
    subst hpair
    exact he.ne_unwritable hoperands.1 (by simp)
  | notFormals _ hpair hw he =>
    subst hpair
    exact he.ne_unwritable (hoperands.1.of_misspellsFormals hw) (by simp)
  | _ => simp

/-- A call with defects has a first one. -/
theorem exists_first {d : Defect} (h : d.Present op operands) :
    ∃ d : Defect, d.First op operands := by
  induction hn : d.rank using Nat.strongRecOn generalizing d with
  | ind n ih =>
    by_cases hearlier : ∃ d' : Defect, d'.rank < d.rank ∧ d'.Present op operands
    · obtain ⟨d', hlt, hd'⟩ := hearlier
      exact ih d'.rank (hn ▸ hlt) hd' rfl
    · refine ⟨d, h, ?_⟩
      intro d' hlt hd'
      exact hearlier ⟨d', hlt, hd'⟩

namespace First

variable {d : Defect} {os : List Value}

theorem exists_elements (h : d.First op operands) (hd : improper.rank < d.rank) :
    ∃ os, operands.elements? = some os :=
  Option.ne_none_iff_exists'.mp (h.2 .improper hd)

theorem admits (h : d.First op operands) (hd : wrongCount.rank < d.rank) {a : Arity}
    (ha : op.arity? = some a) (hos : operands.elements? = some os) : a.Admits os.length := by
  by_contra hcount
  exact h.2 .wrongCount hd ⟨a, os, ha, hos, hcount⟩

end First

end Defect

/-! ## Calls that are refused -/

theorem checkCount_of_not_admits {a : Arity} {os : List Value} (name : Text)
    (h : ¬ a.Admits os.length) :
    checkCount a name os = .fail (.cannotTake name os.length) := by
  rw [checkCount, if_neg (Arity.accepts_iff.not.mpr h)]

theorem Value.exists_pair_of_elements? {v a : Value} {vs : List Value}
    (h : v.elements? = some (a :: vs)) :
    ∃ tag rest, v = .pair tag a rest := by
  cases v with
  | pair tag b rest =>
    obtain ⟨ws, -, heq⟩ := Option.map_eq_some_iff.mp h
    cases heq
    exact ⟨tag, rest, rfl⟩
  | _ => cases h

section Calls

variable [CharacterNames]

/-- With any evaluator, and in any environment of any store, the call of `op` with `operands` fails
by `e` and leaves the store as it was. So no evaluation takes part in it. -/
def Value.Refused (op operands : Value) (e : Fault) : Prop :=
  ∀ (ev : Evaluator) (env : Option FrameId) (s : Store),
    applyWith ev op operands env s = .error (.fault e) s

section Refused

variable {op operands : Value} {os : List Value}

theorem refused_of_notCombiner (h : op.isCombiner = false) :
    op.Refused operands (.showing .notCallable op.render) := by
  intro ev env s
  cases op with
  | applicative | operative | primitive | native | bareCombiner => cases h
  | _ => rfl

theorem refused_of_improper (hop : op.isOperative = true) (h : operands.elements? = none) :
    op.Refused operands (.showing (.mismatch .list) operands.render) := by
  intro ev env s
  cases op with
  | operative tag fs body c =>
    rw [applyWith, Eval.bind_of_error (Combiner.bind_of_improper fs c s h)]
  | primitive tag name p =>
    rw [applyWith, Eval.elements, h]
    rfl
  | native n =>
    rw [applyWith, Eval.elements, h]
    rfl
  | _ => cases hop

/-- An operative refuses operands that its formals do not take. -/
theorem refused_of_formals {fs : Formals} (tag : Tag) (body : Value) (c : Option FrameId)
    (hos : operands.elements? = some os) (h : ¬ fs.arity.Admits os.length) :
    ∃ e, Defect.Fails (.operative tag fs body c) operands .wrongCount e ∧
      (Value.operative tag fs body c).Refused operands e := by
  by_cases hfew : os.length < fs.params.length
  · refine ⟨_, .tooFew rfl hos, ?_⟩
    intro ev env s
    rw [applyWith, Eval.bind_of_error (Combiner.bind_of_fewer c s hos hfew)]
  · have hmany : fs.params.length < os.length ∧ fs.rest = none := by
      cases hrest : fs.rest with
      | none => simpa [Arity.Admits, Formals.arity, hrest, Nat.not_lt.mp hfew] using h
      | some r => simp [Arity.Admits, Formals.arity, hrest, Nat.not_lt.mp hfew] at h
    refine ⟨_, .tooMany rfl hos (Fault.shows_showing _ _), ?_⟩
    intro ev env s
    rw [applyWith, Eval.bind_of_error (Combiner.bind_of_more c s hos hmany.1 hmany.2)]

theorem refused_of_wrongCount {a : Arity} (ha : op.arity? = some a)
    (hos : operands.elements? = some os) (h : ¬ a.Admits os.length) :
    ∃ e, Defect.Fails op operands .wrongCount e ∧ op.Refused operands e := by
  cases op with
  | operative tag fs body c =>
    cases ha
    exact refused_of_formals tag body c hos h
  | primitive tag name p =>
    cases ha
    refine ⟨_, .cannotTake rfl hos, ?_⟩
    intro ev env s
    rw [applyWith, Eval.elements, hos, pure_bind, checkCount_of_not_admits name h]
    rfl
  | native n =>
    cases ha
    refine ⟨_, .cannotTake rfl hos, ?_⟩
    intro ev env s
    rw [applyWith, Eval.elements, hos, pure_bind, checkCount_of_not_admits _ h]
    rfl
  | _ => cases ha

/-- A definition of what is no symbol is refused before its expression is looked at. -/
theorem refused_of_notSymbol (hop : op.Runs .define) {name e : Value}
    (hos : operands.elements? = some [name, e]) (h : name.isSymbol = false) :
    op.Refused operands (.showing (.mismatch .symbol) name.render) := by
  obtain ⟨tag, own, rfl⟩ := hop
  intro ev env s
  rw [applyWith_builtin ev tag own env hos rfl]
  cases name with
  | symbol x => cases h
  | _ => rfl

theorem refused_of_notFormals (hop : op.Runs .vau) {formals : Value} {body : List Value}
    (hos : operands.elements? = some (formals :: body)) (h : ¬ ∃ ps r, formals.SpellsFormals ps r) :
    ∃ e, Defect.Fails op operands .misshapen e ∧ op.Refused operands e := by
  rcases Formals.checks_ofValue formals with ⟨_, -, ps, r, hspells, -⟩ | ⟨expected, w, herror, hw⟩
  · exact absurd ⟨ps, r, hspells⟩ h
  · obtain ⟨pairTag, rest, hpair⟩ := Value.exists_pair_of_elements? hos
    refine ⟨_, .notFormals hop hpair hw (Fault.shows_showing _ _), ?_⟩
    obtain ⟨tag, own, rfl⟩ := hop
    intro ev env s
    rw [applyWith_vau ev tag own env hos]
    exact runVau_of_error herror

theorem refused_of_bodiless (hop : op.Runs .vau) {formals : Value}
    (hos : operands.elements? = some [formals]) {ps : List Text} {r : Option Text}
    (h : formals.SpellsFormals ps r) : op.Refused operands .emptyBody := by
  obtain ⟨tag, own, rfl⟩ := hop
  intro ev env s
  rw [applyWith_vau ev tag own env hos, Builtin.runVau, Formals.ofValue_eq h]
  rfl

end Refused

namespace Defect.First

variable {op operands : Value}

theorem refused_misshapen (h : First op operands .misshapen) :
    ∃ e, Fails op operands .misshapen e ∧ op.Refused operands e := by
  obtain ⟨os, hos⟩ := h.exists_elements (by decide)
  rcases h.1 with ⟨hop, tag, name, rest, rfl, hname⟩ | ⟨hop, tag, formals, rest, rfl, hformals⟩
  · obtain ⟨vs, -, rfl⟩ := Option.map_eq_some_iff.mp hos
    obtain ⟨hleast, hmost⟩ := h.admits (by decide) hop.arity? hos
    -- There are two operands, so that exactly one follows the name.
    have hle : vs.length ≤ 1 := Nat.le_of_succ_le_succ (hmost 2 rfl)
    have hge : 1 ≤ vs.length := Nat.le_of_succ_le_succ hleast
    obtain ⟨e, rfl⟩ := List.length_eq_one_iff.mp (Nat.le_antisymm hle hge)
    exact ⟨_, .notSymbol hop rfl (Fault.shows_showing _ _), refused_of_notSymbol hop hos hname⟩
  · obtain ⟨vs, -, rfl⟩ := Option.map_eq_some_iff.mp hos
    exact refused_of_notFormals hop hos hformals

theorem refused_bodiless (h : First op operands .bodiless) : op.Refused operands .emptyBody := by
  obtain ⟨hop, os, hos, hle⟩ := h.1
  obtain ⟨hleast, -⟩ := h.admits (by decide) hop.arity? hos
  obtain ⟨formals, rfl⟩ := List.length_eq_one_iff.mp (Nat.le_antisymm hle hleast)
  obtain ⟨tag, rest, rfl⟩ := Value.exists_pair_of_elements? hos
  obtain ⟨ps, r, hspells⟩ : ∃ ps r, formals.SpellsFormals ps r := by
    by_contra hformals
    exact h.2 .misshapen (by decide) (.inr ⟨hop, tag, formals, rest, rfl, hformals⟩)
  exact refused_of_bodiless hop hos hspells

/-- A call fails by the fault for its first defect. -/
theorem refused {d : Defect} (hop : op.isOperative = true ∨ op.isCombiner = false)
    (h : d.First op operands) :
    ∃ e, d.Fails op operands e ∧ op.Refused operands e := by
  cases d with
  | notCombiner => exact ⟨_, .notCombiner (Fault.shows_showing _ _), refused_of_notCombiner h.1⟩
  | improper =>
    have hoperative : op.isOperative = true := hop.resolve_right (h.2 .notCombiner (by decide))
    exact ⟨_, .improper (Fault.shows_showing _ _), refused_of_improper hoperative h.1⟩
  | wrongCount =>
    obtain ⟨a, os, ha, hos, hcount⟩ := h.1
    exact refused_of_wrongCount ha hos hcount
  | misshapen => exact h.refused_misshapen
  | bodiless => exact ⟨_, .bodiless, h.refused_bodiless⟩

end Defect.First

/-- Let a call have some of these defects: the operator is not a combiner; the operands are not a
proper list; their number is not one that the operator takes by its formals or by the host function
that it runs; a definition is of what is no symbol, or an operative is to be made with malformed
formals; an operative is to be made without a body. Then the call of an operator that is no
applicative fails by the fault for the first of them in this order. That fault shows what is wrong,
except for an integer that is too long, which neither the operator nor the operands hold if they can
be written. The call fails so with any evaluator, so that none of the operands is evaluated, and
leaves the store, its frames and its log, as it was. -/
theorem malformed_call_refused {op operands : Value}
    (hop : op.isOperative = true ∨ op.isCombiner = false)
    (h : ∃ d : Defect, d.Present op operands) :
    ∃ (d : Defect) (e : Fault), d.First op operands ∧ d.Fails op operands e ∧
      (op.Writable → operands.Writable → e ≠ .unwritable) ∧
      (∀ depth env s, apply depth op operands env s = .error (.fault e) s) ∧
      ∀ (ev : Evaluator) env s, applyWith ev op operands env s = .error (.fault e) s := by
  obtain ⟨_, hd⟩ := h
  obtain ⟨d, hfirst⟩ := Defect.exists_first hd
  obtain ⟨e, hfails, hrefused⟩ := hfirst.refused hop
  exact ⟨d, e, hfirst, hfails, hfails.ne_unwritable,
    fun depth ↦ hrefused (evaluate depth), hrefused⟩

end Calls

open scoped CharacterNames

/-- In `($define! 1 ($define! z 3) 4)` both the number of operands and the name are wrong: the
number counts, and `z` is not defined. -/
theorem malformed_call_refused_define :
    let op : Value := .primitive 0 "$define!" (.builtin .define)
    let inner : Value := .listFrom 1 [op, .symbol "z", .int 3]
    let operands : Value := .listFrom 4 [.int 1, inner, .int 4]
    Defect.Present op operands .wrongCount ∧ Defect.Present op operands .misshapen ∧
    ∀ depth env s,
      apply depth op operands env s = .error (.fault (.cannotTake "$define!" 3)) s := by
  intro op inner operands
  have hcount : Defect.Present op operands .wrongCount := by
    refine ⟨_, _, rfl, rfl, ?_⟩
    rintro ⟨-, hmost⟩
    exact absurd (hmost 2 rfl) (by decide)
  have hname : Defect.Present op operands .misshapen :=
    .inl ⟨⟨0, "$define!", rfl⟩, _, _, _, rfl, rfl⟩
  refine ⟨hcount, hname, ?_⟩
  have hop : op.isOperative = true ∨ op.isCombiner = false := .inl rfl
  obtain ⟨d, e, ⟨hpresent, hfirst⟩, hfails, -, happly, -⟩ :=
    malformed_call_refused hop ⟨.wrongCount, hcount⟩
  cases hfails with
  | notCombiner => cases hpresent
  | improper => cases hpresent
  | tooFew hop _ => simp [op] at hop
  | tooMany hop _ _ => simp [op] at hop
  | cannotTake hown hos =>
    cases hown
    cases hos
    exact happly
  | _ => exact absurd hcount (hfirst .wrongCount (by decide))

/-- The least integer that is too long is not a combiner, but a call of it does not say so. -/
theorem long_operator_not_shown :
    Defect.First .tooLong .nil .notCombiner ∧ ∀ depth env s,
      apply depth .tooLong .nil env s = .error (.fault .unwritable) s ∧
      ∀ got, apply depth .tooLong .nil env s ≠ .error (.fault (.notCallable got)) s := by
  refine ⟨⟨rfl, fun d hd ↦ absurd hd (Nat.not_lt_zero _)⟩, fun depth env s ↦ ?_⟩
  have hcall : apply depth .tooLong .nil env s = .error (.fault .unwritable) s := by
    have hrefused : Value.Refused .tooLong .nil (.showing .notCallable Value.tooLong.render) :=
      refused_of_notCombiner rfl
    rw [Fault.showing_of_not_writable _ Value.not_writable_tooLong] at hrefused
    exact hrefused (evaluate depth) env s
  refine ⟨hcall, fun got ↦ ?_⟩
  rw [hcall]
  simp

end Fexpr
