import Fexpr.Combiner
import Fexpr.Proofs.Value.Writing

/-!
# Values that are formals

Which values are formals is said here by their shape: the empty list, or a pair of the parameters
and the rest, where the parameters are a symbol or a proper list of symbols and the rest is the
empty list or a symbol. `Formals.checks_ofValue` says that these are accepted, with the names they
spell, and that of any other value the first part that is wrong is found not to be what was
expected.
-/

namespace Fexpr

namespace Value

/-- `v.SpellsParams ps`: `v` is a symbol, for one parameter, or a proper list of symbols. -/
inductive SpellsParams : Value → List Text → Prop
  | one (x : Text) : SpellsParams (symbol x) [x]
  | list {v : Value} {ps : List Text} : v.elements? = some (ps.map symbol) → SpellsParams v ps

/-- `v.SpellsRest r`: `v` is the empty list, for no rest, or a symbol. -/
inductive SpellsRest : Value → Option Text → Prop
  | none : SpellsRest nil none
  | some (x : Text) : SpellsRest (symbol x) (some x)

/-- `v.SpellsFormals ps r`: `v` is the empty list, for no formals, or a pair of the parameters and
the rest. -/
inductive SpellsFormals : Value → List Text → Option Text → Prop
  | nil : SpellsFormals nil [] none
  | pair {tag : Tag} {h t : Value} {ps : List Text} {r : Option Text} : h.SpellsParams ps →
    t.SpellsRest r → SpellsFormals (pair tag h t) ps r

/-- `v.MisspellsParams expected w`: `v` spells no parameters, and `w` is what is wrong first: `v`
itself, which is neither a symbol nor a proper list, or its first element that is no symbol. -/
inductive MisspellsParams : Value → Expected → Value → Prop
  | whole {v : Value} : v.isSymbol = false → v.elements? = none → MisspellsParams v .list v
  | element {v w : Value} {ps : List Text} {ws : List Value} :
    v.elements? = some (ps.map symbol ++ w :: ws) → w.isSymbol = false → MisspellsParams v .symbol w

/-- `v.MisspellsFormals expected w`: `v` spells no formals, and `w` is what is wrong first, which
should be as `expected`. -/
inductive MisspellsFormals : Value → Expected → Value → Prop
  | whole {v : Value} : v ≠ nil → v.isCombination = false → MisspellsFormals v .formals v
  | params {tag : Tag} {h t w : Value} {expected : Expected} : h.MisspellsParams expected w →
    MisspellsFormals (pair tag h t) expected w
  | rest {tag : Tag} {h t : Value} {ps : List Text} : h.SpellsParams ps → t ≠ nil →
    t.isSymbol = false → MisspellsFormals (pair tag h t) .symbol t

/-- What passes from pairs to their parts passes from formals to what is wrong with them. -/
theorem MisspellsFormals.part {p : Value → Prop} (hp : ∀ {tag a b}, p (pair tag a b) → p a ∧ p b)
    {v w : Value} {expected : Expected} (h : v.MisspellsFormals expected w) (hv : p v) : p w := by
  cases h with
  | whole => exact hv
  | params h =>
    cases h with
    | whole => exact (hp hv).1
    | element hws _ => exact forall_mem_of_elements? hp (hp hv).1 hws w (by simp)
  | rest => exact (hp hv).2

theorem Writable.of_misspellsFormals {v w : Value} {expected : Expected} (hv : v.Writable)
    (h : v.MisspellsFormals expected w) : w.Writable :=
  h.part (p := Writable) id hv

end Value

namespace Formals

/-- The formals of names. -/
def ofNames (ps : List Text) (r : Option Text) : Formals := ⟨ps.map .name, r.map .name⟩

/-- `x` gives something that satisfies `Q`, or else finds that a value is not what was expected,
which satisfies `E`. -/
def Checks {α : Type} (x : Except Fault α) (Q : α → Prop) (E : Expected → Value → Prop) : Prop :=
  (∃ a, x = .ok a ∧ Q a) ∨
    ∃ expected w, x = .error (.showing (.mismatch expected) w.render) ∧ E expected w

section Checks

variable {α β : Type} {x : Except Fault α} {k : α → Except Fault β} {Q : α → Prop} {R : β → Prop}
  {E E' : Expected → Value → Prop}

theorem Checks.bind (hx : Checks x Q E) (hk : ∀ a, Q a → Checks (k a) R E) :
    Checks (x >>= k) R E := by
  rcases hx with ⟨a, rfl, ha⟩ | ⟨expected, w, rfl, hw⟩
  · exact hk a ha
  · exact .inr ⟨expected, w, rfl, hw⟩

theorem Checks.imp (hx : Checks x Q E) (h : ∀ expected w, E expected w → E' expected w) :
    Checks x Q E' :=
  hx.imp_right fun ⟨expected, w, hx, hw⟩ ↦ ⟨expected, w, hx, h expected w hw⟩

end Checks

theorem checks_symbol (v : Value) :
    Checks (symbol v) (fun p ↦ ∃ x, v = .symbol x ∧ p = .name x)
      fun expected w ↦ expected = .symbol ∧ w = v ∧ v.isSymbol = false := by
  cases v with
  | symbol x => exact .inl ⟨.name x, rfl, x, rfl, rfl⟩
  | _ => exact .inr ⟨_, _, rfl, rfl, rfl, rfl⟩

theorem checks_symbols (vs : List Value) :
    Checks (symbols vs) (fun ps ↦ ∃ xs : List Text, vs = xs.map .symbol ∧ ps = xs.map .name)
      fun expected w ↦ expected = .symbol ∧ w.isSymbol = false ∧
        ∃ (xs : List Text) (ws : List Value), vs = xs.map .symbol ++ w :: ws := by
  induction vs with
  | nil => exact .inl ⟨[], rfl, [], rfl, rfl⟩
  | cons v vs ih =>
    rcases checks_symbol v with ⟨_, hp, x, rfl, rfl⟩ | ⟨_, _, hfail, rfl, rfl, hv⟩
    · rw [symbols, hp]
      rcases ih with ⟨_, hps, xs, rfl, rfl⟩ | ⟨_, w, hfail, rfl, hw, xs, ws, rfl⟩
      · exact .inl ⟨_, by rw [hps]; rfl, x :: xs, rfl, rfl⟩
      · exact .inr ⟨_, w, by rw [hfail]; rfl, rfl, hw, x :: xs, ws, rfl⟩
    · exact .inr ⟨_, _, by rw [symbols, hfail]; rfl, rfl, hv, [], vs, rfl⟩

theorem checks_restOf (v : Value) :
    Checks (restOf v) (fun p ↦ ∃ r : Option Text, v.SpellsRest r ∧ p = r.map .name)
      fun expected w ↦ expected = .symbol ∧ w = v ∧ v ≠ .nil ∧ v.isSymbol = false := by
  cases v with
  | nil => exact .inl ⟨none, rfl, none, .none, rfl⟩
  | symbol x => exact .inl ⟨_, rfl, some x, .some x, rfl⟩
  | _ => exact .inr ⟨_, _, rfl, rfl, rfl, by simp, rfl⟩

theorem paramsOf_of_elements? {v : Value} {vs : List Value} (h : v.elements? = some vs) :
    paramsOf v = symbols vs := by
  -- A symbol has no elements, so it is not taken for a list.
  rw [paramsOf.eq_def]
  split
  next => cases h
  next => rw [h]

theorem paramsOf_of_improper {v : Value} (hsymbol : v.isSymbol = false) (h : v.elements? = none) :
    paramsOf v = .error (.showing (.mismatch .list) v.render) := by
  rw [paramsOf.eq_def]
  split
  next => cases hsymbol
  next => rw [h]

theorem checks_paramsOf (v : Value) :
    Checks (paramsOf v) (fun ps ↦ ∃ xs : List Text, v.SpellsParams xs ∧ ps = xs.map .name)
      v.MisspellsParams := by
  cases hsymbol : v.isSymbol with
  | true =>
    cases v with
    | symbol x => exact .inl ⟨_, rfl, [x], .one x, rfl⟩
    | _ => cases hsymbol
  | false =>
    cases hvs : v.elements? with
    | some vs =>
      rw [paramsOf_of_elements? hvs]
      rcases checks_symbols vs with ⟨ps, hps, xs, rfl, rfl⟩ | ⟨_, w, hfail, rfl, hw, xs, ws, rfl⟩
      · exact .inl ⟨_, hps, xs, .list hvs, rfl⟩
      · exact .inr ⟨_, w, hfail, .element hvs hw⟩
    | none => exact .inr ⟨_, v, paramsOf_of_improper hsymbol hvs, .whole hsymbol hvs⟩

/-- Formals are what their shape says, and of any other value what is wrong first is found not to be
what was expected. -/
theorem checks_ofValue (v : Value) :
    Checks (ofValue v) (fun fs ↦ ∃ ps r, v.SpellsFormals ps r ∧ fs = ofNames ps r)
      v.MisspellsFormals := by
  cases v with
  | nil => exact .inl ⟨_, rfl, [], none, .nil, rfl⟩
  | pair tag h t =>
    apply ((checks_paramsOf h).imp fun _ _ hw ↦ .params hw).bind
    rintro _ ⟨ps, hps, rfl⟩
    refine ((checks_restOf t).imp ?_).bind ?_
    · rintro _ _ ⟨rfl, rfl, hne, hsymbol⟩
      exact .rest hps hne hsymbol
    · rintro _ ⟨r, hr, rfl⟩
      exact .inl ⟨_, rfl, ps, r, .pair hps hr, rfl⟩
  | _ => exact .inr ⟨_, _, rfl, .whole (by simp) rfl⟩

theorem symbols_map (xs : List Text) : symbols (xs.map .symbol) = .ok (xs.map .name) := by
  induction xs with
  | nil => rfl
  | cons x xs ih =>
    rw [List.map_cons, symbols, ih]
    rfl

theorem paramsOf_eq {v : Value} {ps : List Text} (h : v.SpellsParams ps) :
    paramsOf v = .ok (ps.map .name) := by
  cases h with
  | one x => rfl
  | list hv => rw [paramsOf_of_elements? hv, symbols_map]

theorem restOf_eq {v : Value} {r : Option Text} (h : v.SpellsRest r) :
    restOf v = .ok (r.map .name) := by
  cases h <;> rfl

theorem ofValue_eq {v : Value} {ps : List Text} {r : Option Text} (h : v.SpellsFormals ps r) :
    ofValue v = .ok (ofNames ps r) := by
  cases h with
  | nil => rfl
  | pair hps hr =>
    rw [ofValue, paramsOf_eq hps, restOf_eq hr]
    rfl

/-- A lone symbol is the list of that symbol. -/
theorem ofValue_lone (a b c : Tag) (x : Text) (t : Value) :
    ofValue (.pair a (.symbol x) t) = ofValue (.pair b (.pair c (.symbol x) .nil) t) := rfl

end Formals

end Fexpr
