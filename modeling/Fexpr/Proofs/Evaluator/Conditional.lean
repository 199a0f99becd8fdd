import Fexpr.Proofs.Combiner.Binding
import Fexpr.Proofs.Evaluator.Reflection
import Fexpr.Proofs.Session.Soundness

/-!
# A conditional from selectors

Booleans select one of two operands as written. An operative that evaluates its first operand, has
the boolean choose between the names of the other two, and evaluates what the chosen name is bound
to is a conditional. All three uses of `eval` are looked up before the first operand is evaluated,
so that it may redefine `eval` in the frame of the call. Main statement:
`conditional_evaluates_one_branch`.
-/

namespace Fexpr

/-! ## The program -/

/-- The text of the conditional. -/
def conditionalText : Text := "($vau ((c then else)) (eval (eval ((eval c) then else))))"

namespace Datum

/-- What the conditional does with its operands. -/
def conditionalBody : Datum :=
  .ofList [.symbol "eval", .ofList [.symbol "eval",
    .ofList [.ofList [.symbol "eval", .symbol "c"], .symbol "then", .symbol "else"]]]

/-- The expression of the conditional. -/
def conditional : Datum :=
  .ofList [.symbol "$vau", .ofList [.ofList [.symbol "c", .symbol "then", .symbol "else"]],
    conditionalBody]

theorem render_conditional : conditional.render = conditionalText := by
  simp [conditional, conditionalBody, conditionalText, ofList, render, write, atom, Text.ofString]

theorem legible_conditional : conditional.Legible := by
  obtain ⟨hvau, heval, hc, hthen, helse⟩ : (symbol "$vau").Legible ∧ (symbol "eval").Legible ∧
      (symbol "c").Legible ∧ (symbol "then").Legible ∧ (symbol "else").Legible := by
    refine ⟨?_, ?_, ?_, ?_, ?_⟩ <;> refine ⟨⟨?_, ?_, ?_⟩, ?_, rfl⟩ <;> decide
  have hformals : (ofList [ofList [symbol "c", symbol "then", symbol "else"]]).Legible :=
    ⟨⟨hc, hthen, helse, trivial⟩, trivial⟩
  have hchoice :
      (ofList [ofList [symbol "eval", symbol "c"], symbol "then", symbol "else"]).Legible :=
    ⟨⟨heval, hc, trivial⟩, hthen, helse, trivial⟩
  exact ⟨hvau, hformals, ⟨heval, ⟨heval, hchoice, trivial⟩, trivial⟩, trivial⟩

end Datum

/-- The operative that the conditional is, closed over the frame `c`. -/
def Value.conditional (a b tag : Tag) (c : FrameId) : Value :=
  .operative a (.ofNames ["c", "then", "else"] none)
    (.listFrom b [(Value.ofDatum .conditionalBody tag).1]) (some c)

theorem readOne_conditionalText [CharacterNames] : readOne conditionalText = .ok .conditional := by
  rw [← Datum.render_conditional]
  apply Datum.legible_conditional.readOne
  simp [Datum.conditional, Datum.conditionalBody, Datum.strings]

/-! ## Making the conditional -/

section Making

variable {s : Store} {w : FrameId}

/-- Where `$vau` goes by its name, the text gives the conditional, closed over a new frame. -/
theorem evaluateRead_conditionalText [CharacterNames] (depth : Nat) {a : Tag}
    (hvau : s.lookup? w "$vau" = some (.primitive a "$vau" (.builtin .vau))) :
    ∃ a b tag t, evaluateRead (depth + 2) conditionalText (some w) s =
      .ok (.conditional a b tag s.frames.size) t ∧
      t.frames = (s.newFrame (some w)).frames := by
  let n := s.nextTag
  let u : Store := { s with nextTag := (Value.ofDatum .conditional n).2 }
  let formals : Value :=
    (Value.ofDatum (.ofList [.ofList [.symbol "c", .symbol "then", .symbol "else"]]) (n + 2)).1
  let body : Value := (Value.ofDatum .conditionalBody (n + 7)).1
  have hread : (Value.text conditionalText).read s =
      .ok (.pair n (.symbol "$vau") (.pair (n + 1) formals (.pair (n + 6) body .nil))) u := by
    rw [Value.read, readOne_conditionalText]
    rfl
  have hlookup : u.lookup? w "$vau" = some (.primitive a "$vau" (.builtin .vau)) := by
    rw [Store.lookup?_congr (s := u) (t := s) rfl, hvau]
  have hformals : formals.SpellsFormals ["c", "then", "else"] none := .pair (.list rfl) .none
  obtain ⟨t, ht, hframes⟩ :=
    runVau_of_ok (some w) u (Formals.ofValue_eq hformals) (List.cons_ne_nil body [])
  refine ⟨u.nextTag, u.nextTag + 1, n + 7, t, ?_, hframes⟩
  rw [evaluateRead, Eval.bind_of_ok hread, evaluate,
    Eval.bind_of_ok (evaluate_symbol depth hlookup), applyWith_vau _ _ _ _ rfl]
  exact ht

end Making

/-! ## Calling the conditional -/

namespace Conditional

section Choosing

variable [CharacterNames] {s : Store} {f : FrameId}

/-- The operands among which the conditional has a boolean select. -/
def names (tag : Tag) : Value := .listFrom tag [.symbol "then", .symbol "else"]

/-- What the conditional does with the value of its first operand. -/
def choose (depth : Nat) (f : FrameId) (tag : Tag) (test : Value) : Eval Value :=
  applyWith (evaluate (depth + 2)) test (names tag) (some f) >>= fun name ↦
    Eval.newList [name] >>= fun _ ↦
    evaluate (depth + 3) name (some f) >>= fun e ↦
    Eval.newList [e] >>= fun _ ↦ evaluate (depth + 4) e (some f)

/-- The first operand is evaluated once `eval` was looked up three times. -/
theorem evaluate_body (heval : s.Resolves f .eval) {test : Value} (hc : s.lookup? f "c" = some test)
    (depth : Nat) (tag : Tag) :
    evaluate (depth + 5) (Value.ofDatum .conditionalBody tag).1 (some f) s =
      (evaluate (depth + 1) test (some f) >>= choose depth f (tag + 7))
        { s with nextTag := s.nextTag + 1 } := by
  let condition : Value := .listFrom (tag + 5) [.symbol "eval", .symbol "c"]
  let choice : Value := .pair (tag + 4) condition (names (tag + 7))
  have htest : evaluate (depth + 2) condition (some f) s =
      evaluate (depth + 1) test (some f) { s with nextTag := s.nextTag + 1 } :=
    (evaluate_call heval rfl depth _ _ _).trans (Eval.bind_of_ok (evaluate_symbol depth hc))
  have hname : evaluate (depth + 3) choice (some f) s =
      (evaluate (depth + 1) test (some f) >>= fun v ↦
        applyWith (evaluate (depth + 2)) v (names (tag + 7)) (some f))
        { s with nextTag := s.nextTag + 1 } := Eval.bind_congr_run htest _
  -- The outer calls of `eval` are resolved in `s` too, before the first operand can change what the
  -- name means.
  have hinner := (evaluate_call heval rfl (depth + 2) (tag + 2) (tag + 3) choice).trans
    (Eval.bind_congr_run hname _)
  have houter :=
    (evaluate_call heval rfl (depth + 3) tag (tag + 1) _).trans (Eval.bind_congr_run hinner _)
  simp only [bind_assoc] at houter
  exact houter

/-- A boolean selects a name, and what the name is bound to is evaluated. -/
theorem choose_boolean (b : Bool) {e : Value}
    (h : s.lookup? f (if b then "then" else "else") = some e) (depth : Nat) (tag : Tag) :
    choose depth f tag (.boolean b) s =
      evaluate (depth + 4) e (some f) { s with nextTag := s.nextTag + 2 } := by
  let u : Store := { s with nextTag := s.nextTag + 1 }
  have hselect : applyWith (evaluate (depth + 2)) (.boolean b) (names tag) (some f) s =
      .ok (.symbol (if b then "then" else "else")) s := by
    cases b <;> rfl
  have hlookup : u.lookup? f (if b then "then" else "else") = some e := by
    rw [Store.lookup?_congr (s := u) (t := s) rfl, h]
  have hlist (v : Value) (t : Store) :
      Eval.newList [v] t = .ok (.listFrom t.nextTag [v]) { t with nextTag := t.nextTag + 1 } := rfl
  rw [choose, Eval.bind_of_ok hselect, Eval.bind_of_ok (hlist _ s),
    Eval.bind_of_ok (evaluate_symbol (depth + 2) hlookup), Eval.bind_of_ok (hlist _ u)]

end Choosing

section Calling

variable {s : Store} {c : FrameId} {test consequent alternative : Value}

/-- The store in which a call of the conditional evaluates its first operand: the operands are bound
as written in a new frame, the call is on record, and a tag is taken for the list that `eval` is
given. -/
def enter (s : Store) (c : FrameId) (test consequent alternative : Value) : Store :=
  { (s.newFrame (some c)).assignAll s.frames.size
    [("c", test), ("then", consequent), ("else", alternative)] with
    nextTag := s.nextTag + 1
    log := .invoking (.ofNames ["c", "then", "else"] none) :: s.log }

/-- Stores with the frames of that store have been through such a call. -/
theorem called_of_frames_eq {t : Store}
    (h : t.frames = (enter s c test consequent alternative).frames) :
    s.Called t s.frames.size (some c) ["c", "then", "else"] none [test, consequent, alternative] :=
  Store.called_of_frames .nil (.inl rfl) (by simp) (by simpa [enter] using h)

variable [CharacterNames]

/-- A call of the conditional evaluates its first operand in the frame of the call, and then
chooses. -/
theorem evaluate_conditional {g : FrameId} {name : Text} {operands : Value} {a b tag : Tag}
    (hop : s.lookup? g name = some (.conditional a b tag c)) (heval : s.Resolves c .eval)
    (hops : operands.elements? = some [test, consequent, alternative]) (depth : Nat) (x : Tag) :
    evaluate (depth + 6) (.pair x (.symbol name) operands) (some g) s =
      (evaluate (depth + 1) test (some s.frames.size) >>= choose depth s.frames.size (tag + 7))
        (enter s c test consequent alternative) := by
  let f := s.frames.size
  let t : Store := { enter s c test consequent alternative with nextTag := s.nextTag }
  have hcalled : s.Called t f (some c) ["c", "then", "else"] none [test, consequent, alternative] :=
    called_of_frames_eq rfl
  have hbind : Combiner.bind (.ofNames ["c", "then", "else"] none) (some c) operands s =
      .ok f { t with log := s.log } := Combiner.bind_eq_of_fits hops (.inl rfl)
  have hrecord : Eval.record (.invoking (.ofNames ["c", "then", "else"] none))
      { t with log := s.log } = .ok () t := rfl
  have hbody : evaluate (depth + 6) (.pair x (.symbol name) operands) (some g) s =
      evaluate (depth + 5) (Value.ofDatum .conditionalBody tag).1 (some f) t := by
    rw [evaluate, Eval.bind_of_ok (evaluate_symbol (depth + 4) hop), Value.conditional, applyWith,
      Eval.bind_of_ok hbind, Eval.bind_of_ok hrecord, Value.listFrom, Value.listFrom, evaluateBody]
  have heval' : t.Resolves f .eval := by
    obtain ⟨y, z, hlookup⟩ := heval
    exact ⟨y, z, hcalled.lookup? (by decide) hlookup⟩
  have htest : t.get? f "c" = some test := hcalled.get?_param (by decide) 0 (by simp) rfl
  rw [hbody, evaluate_body heval' (Store.lookup?_of_get? htest)]
  rfl

/-- `Branches depth f t test consequent alternative call`: `call` is how the evaluation of `test` in
the frame `f` ends on the store `t` if it fails, and otherwise how the evaluation of one of the two
branches in `f` ends after it. In between two tags are taken, for the lists that `eval` is given. -/
structure Branches (depth : Nat) (f : FrameId) (t : Store) (test consequent alternative : Value)
    (call : EStateM.Result Failure Store Value) : Prop where
  failed (e : Failure) (u : Store) : evaluate (depth + 1) test (some f) t = .error e u →
    call = .error e u
  accepted (u : Store) : evaluate (depth + 1) test (some f) t = .ok (.boolean true) u →
    u.get? f "then" = some consequent →
    call = evaluate (depth + 4) consequent (some f) { u with nextTag := u.nextTag + 2 }
  rejected (u : Store) : evaluate (depth + 1) test (some f) t = .ok (.boolean false) u →
    u.get? f "else" = some alternative →
    call = evaluate (depth + 4) alternative (some f) { u with nextTag := u.nextTag + 2 }

theorem branches_choose (depth : Nat) (f : FrameId) (tag : Tag) (t : Store)
    (test consequent alternative : Value) :
    Branches depth f t test consequent alternative
      ((evaluate (depth + 1) test (some f) >>= choose depth f tag) t) where
  failed e u htest := Eval.bind_of_error htest
  accepted u htest hthen := by
    rw [Eval.bind_of_ok htest]
    exact choose_boolean true (Store.lookup?_of_get? hthen) depth tag
  rejected u htest helse := by
    rw [Eval.bind_of_ok htest]
    exact choose_boolean false (Store.lookup?_of_get? helse) depth tag

end Calling

end Conditional

/-- Let a world be made on any store, and let the text of the conditional be read and evaluated in
it. This gives an operative, closed over a new child `c` of the world. Take any store in which
`eval`, looked up from `c`, is still an applicative of the primitive, and any frame `g` from which a
name leads to the operative. A call by that name with three operands makes a new frame below `c`,
which binds `c`, `then` and `else` to the operands as written and `current-world`, and nothing else,
and leaves the other frames alone; it puts the call on record. From there on it ends as the
evaluation of the first operand in that frame does if that fails. If that gives `#t` and `then` is
still bound to the second operand in the frame, it ends as the evaluation of the second operand
there; if it gives `#f` and `else` is still bound to the third, as the evaluation of the third.
Whatever else the first operand defines in the frame makes no difference. -/
theorem conditional_evaluates_one_branch [CharacterNames] (s₀ : Store) (k : Nat) :
    ∃ w s₁ op s₂ c, World.new s₀ = .ok w s₁ ∧
      evaluateRead (k + 2) conditionalText (some w) s₁ = .ok op s₂ ∧
      s₂.parent? c = some w ∧ s₂.Resolves c .eval ∧
      ∀ (s : Store) (g : FrameId) (name : Text) (x : Tag)
        (operands test consequent alternative : Value)
        (depth : Nat), s.lookup? g name = some op → s.Resolves c .eval →
        operands.elements? = some [test, consequent, alternative] →
        let f := s.frames.size
        let t := Conditional.enter s c test consequent alternative
        s.Called t f (some c) ["c", "then", "else"] none [test, consequent, alternative] ∧
        (t.get? f "c" = some test ∧ t.get? f "then" = some consequent ∧
          t.get? f "else" = some alternative) ∧
        Conditional.Branches depth f t test consequent alternative
          (evaluate (depth + 6) (.pair x (.symbol name) operands) (some g) s) := by
  obtain ⟨w, s₁, hnew, hbound⟩ := World.get?_new s₀
  obtain ⟨_, ⟨y, rfl⟩, hvau⟩ := hbound (.operative .vau) (by decide)
  obtain ⟨_, ⟨z, z', rfl⟩, heval⟩ := hbound (.applicative .eval) (by decide)
  obtain ⟨a, b, tag, s₂, hmade, hframes⟩ :=
    evaluateRead_conditionalText k (Store.lookup?_of_get? hvau)
  have hparent : s₂.parent? s₁.frames.size = some w := by
    rw [Store.parent?_congr (t := s₁.newFrame (some w)) (by rw [hframes]), Store.parent?_newFrame,
      if_pos rfl]
  have hresolves : s₂.Resolves s₁.frames.size .eval := by
    refine ⟨z, z', ?_⟩
    rw [Store.lookup?_congr hframes]
    exact Store.lookup?_newFrame (by decide) (Store.lookup?_of_get? heval)
  refine ⟨w, s₁, _, s₂, s₁.frames.size, hnew, hmade, hparent, hresolves, ?_⟩
  intro s g name x operands test consequent alternative depth hop heval hops f t
  have hcalled : s.Called t f _ _ none _ := Conditional.called_of_frames_eq rfl
  refine ⟨hcalled, ⟨?_, ?_, ?_⟩, ?_⟩
  · exact hcalled.get?_param (by decide) 0 (by simp) rfl
  · exact hcalled.get?_param (by decide) 1 (by simp) rfl
  · exact hcalled.get?_param (by decide) 2 (by simp) rfl
  · rw [Conditional.evaluate_conditional hop heval hops]
    exact Conditional.branches_choose depth f (tag + 7) t test consequent alternative

open scoped CharacterNames

/-- `($if ($define! eval #t) 1 x)` with `x` unbound: the first operand redefines `eval` in the frame
of the call, and the second is evaluated all the same. -/
theorem conditional_evaluates_one_branch_redefining :
    let test : Value :=
      .listFrom 4 [.primitive 0 "$define!" (.builtin .define), .symbol "eval", .boolean true]
    let operands : Value := .listFrom 1 [test, .int 1, .symbol "x"]
    operands.elements? = some [test, .int 1, .symbol "x"] ∧
    ∃ w s₁ op s₂ c, World.new Store.empty = .ok w s₁ ∧
      evaluateRead 2 conditionalText (some w) s₁ = .ok op s₂ ∧
      let s :=
        (s₂.assign c "eval" (.applicative 8 (.primitive 7 "eval" (.builtin .eval)))).assign c
          "$if" op
      s.lookup? c "$if" = some op ∧ s.Resolves c .eval ∧
      ∃ u, evaluate 7 (.pair 0 (.symbol "$if") operands) (some c) s = .ok (.int 1) u ∧
        u.get? s.frames.size "eval" = some (.boolean true) := by
  intro test operands
  refine ⟨rfl, ?_⟩
  obtain ⟨w, s₁, op, s₂, c, hnew, hmade, hparent, -, hcalls⟩ :=
    conditional_evaluates_one_branch Store.empty 0
  refine ⟨w, s₁, op, s₂, c, hnew, hmade, ?_⟩
  intro s
  have hc : c < s₂.frames.size := Store.lt_size_of_parent? hparent
  have hif : s.lookup? c "$if" = some op := by
    apply Store.lookup?_of_get?
    rw [Store.get?_assign _ _ _ _ _ _ (by simpa using hc), if_pos ⟨rfl, rfl⟩]
  have heval : s.Resolves c .eval := by
    refine ⟨8, 7, Store.lookup?_of_get? ?_⟩
    rw [Store.get?_assign _ _ _ _ _ _ (by simpa using hc),
      if_neg (not_and_of_not_right _ (by decide)), Store.get?_assign _ _ _ _ _ _ hc]
    exact if_pos ⟨rfl, rfl⟩
  refine ⟨hif, heval, ?_⟩
  obtain ⟨hcalled, ⟨-, hthen, -⟩, hbranches⟩ := hcalls s c "$if" 0 operands _ _ _ 1 hif heval rfl
  generalize Conditional.enter s c _ _ _ = t at hcalled hthen hbranches
  have hf : s.frames.size < t.frames.size := by
    rw [hcalled.fresh.2]
    exact Nat.lt_succ_self _
  let u : Store := (t.assign s.frames.size "eval" (.boolean true)).record (.defined "eval")
  have hget (name : Text) : u.get? s.frames.size name =
      if s.frames.size = s.frames.size ∧ name = "eval" then some (.boolean true)
      else t.get? s.frames.size name :=
    Store.get?_assign t _ _ _ name _ hf
  have hkept : u.get? s.frames.size "then" = some (.int 1) := by
    rw [hget, if_neg (not_and_of_not_right _ (by decide)), hthen]
  refine ⟨{ u with nextTag := u.nextTag + 2 }, hbranches.accepted u rfl hkept, ?_⟩
  exact (hget "eval").trans (if_pos ⟨rfl, rfl⟩)

end Fexpr
