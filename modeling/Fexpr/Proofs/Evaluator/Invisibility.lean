import Fexpr.Proofs.Evaluator.Confinement
import Fexpr.Proofs.Evaluator.Simulation

/-!
# Bindings that are not mentioned

A name can be had only from symbols and formals, or by reading a text. So code in which a name does
not occur, on a store whose values do not lead to it, cannot tell whether the name is bound in some
frame: it goes through the same steps without the binding. Environments would show it by their
names, but no message and no record of such code shows an environment. Main statement:
`unmentioned_binding_invisible`.
-/

namespace Fexpr

/-! ## Taking a binding away -/

/-- Bindings without the first one of a name. -/
def Bindings.without (x : Text) (bs : Bindings) : Bindings := bs.eraseP fun b ↦ b.1 = x

namespace Bindings

variable {x n : Text} {v w : Value} {bs : Bindings}

theorem without_cons (x m : Text) (u : Value) (bs : Bindings) :
    without x ((m, u) :: bs) = if m = x then bs else (m, u) :: without x bs := by
  by_cases hm : m = x <;> simp [without, hm]

theorem without_assign (h : n ≠ x) (w : Value) (bs : Bindings) :
    (bs.assign n w).without x = (bs.without x).assign n w := by
  induction bs with
  | nil => simp [Bindings.assign, without, h]
  | cons b bs ih =>
    obtain ⟨m, u⟩ := b
    by_cases hx : m = x
    · have hn : m ≠ n := fun hn ↦ h (hn ▸ hx)
      simp [Bindings.assign, without_cons, hx, hx ▸ hn]
    · by_cases hn : m = n
      · simp [Bindings.assign, without_cons, hn, h]
      · simp [Bindings.assign, without_cons, hx, hn, ih]

theorem lookup_without (h : n ≠ x) (bs : Bindings) : (bs.without x).lookup n = bs.lookup n := by
  induction bs with
  | nil => rfl
  | cons b bs ih =>
    obtain ⟨m, u⟩ := b
    by_cases hx : m = x
    · simp [without_cons, List.lookup_cons, hx, beq_eq_false_iff_ne.mpr h]
    · simp [without_cons, List.lookup_cons, hx, ih]

/-- What is bound anew can be taken away again. -/
theorem without_assign_self (h : bs.lookup x = none) (v : Value) :
    (bs.assign x v).without x = bs := by
  induction bs with
  | nil => simp [Bindings.assign, without]
  | cons b bs ih =>
    obtain ⟨m, u⟩ := b
    by_cases hx : m = x
    · simp [hx] at h
    · have hb : (x == m) = false := beq_eq_false_iff_ne.mpr (Ne.symm hx)
      rw [List.lookup_cons, hb] at h
      simp [Bindings.assign, without_cons, hx, ih h]

end Bindings

namespace Store

/-- The store with the binding of `x` in the frame `f` taken away. -/
def unbind (s : Store) (f : FrameId) (x : Text) : Store :=
  { s with frames := s.frames.modify f fun g ↦ { g with bindings := g.bindings.without x } }

variable {s : Store} {f g : FrameId} {x n : Text} {v w : Value}

@[simp] theorem size_unbind (s : Store) (f : FrameId) (x : Text) :
    (s.unbind f x).frames.size = s.frames.size := by
  simp [unbind]

@[simp] theorem parent?_unbind (s : Store) (f : FrameId) (x : Text) (g : FrameId) :
    (s.unbind f x).parent? g = s.parent? g := by
  simp only [parent?, unbind, Array.getElem?_modify]
  split
  · cases s.frames[g]? <;> rfl
  · rfl

theorem get?_unbind (h : n ≠ x) (s : Store) (f g : FrameId) :
    (s.unbind f x).get? g n = s.get? g n := by
  simp only [get?, bindings, unbind, Array.getElem?_modify]
  split
  · cases s.frames[g]? with
    | none => rfl
    | some _ => exact Bindings.lookup_without h _
  · rfl

theorem lookup?_unbind (h : n ≠ x) (s : Store) (f g : FrameId) :
    (s.unbind f x).lookup? g n = s.lookup? g n := by
  have hchain : (s.unbind f x).chain g = s.chain g :=
    chain_congr (size_unbind s f x) (parent?_unbind s f x) g
  simp only [lookup?, find?, hchain, get?_unbind h]

theorem unbind_newFrame (h : f < s.frames.size) (x : Text) (c : Option FrameId) :
    (s.newFrame c).unbind f x = (s.unbind f x).newFrame c := by
  simp only [unbind, newFrame, Array.size_modify]
  congr 1
  refine Array.ext_getElem? fun i ↦ ?_
  simp only [Array.getElem?_modify, Array.getElem?_push, Array.size_modify]
  by_cases hi : i = s.frames.size
  · simp [hi, Nat.ne_of_lt h]
  · simp [hi]

theorem unbind_assign (h : n ≠ x) (s : Store) (f g : FrameId) (w : Value) :
    (s.assign g n w).unbind f x = (s.unbind f x).assign g n w := by
  simp only [unbind, assign]
  congr 1
  refine Array.ext_getElem? fun i ↦ ?_
  simp only [Array.getElem?_modify]
  by_cases hf : f = i <;> by_cases hg : g = i <;>
    simp [hf, hg, Function.comp_def, Bindings.without_assign h]

theorem unbind_assign_self (h : s.get? f x = none) (v : Value) :
    (s.assign f x v).unbind f x = s := by
  have hframes : (s.assign f x v).unbind f x = { s with frames := s.frames } := by
    simp only [unbind, assign]
    congr 1
    refine Array.ext_getElem? fun i ↦ ?_
    simp only [Array.getElem?_modify]
    by_cases hf : f = i
    · subst hf
      cases hs : s.frames[f]? with
      | none => simp
      | some fr =>
        have hx : fr.bindings.lookup x = none := by simpa [get?, bindings, hs] using h
        simp [Bindings.without_assign_self hx]
    · simp [hf]
  exact hframes

end Store

/-! ## What does not lead to a name -/

/-- Whether a template is a text without places for environments. -/
def Template.isText (t : Template) : Bool :=
  t.all fun
    | .point _ => true
    | _ => false

/-- Whether a formal is another name than `x`. One that is no name must not show environments. -/
def Formal.avoids (x : Text) : Formal → Bool
  | name n => n ≠ x
  | misfit shown => shown.all fun p ↦ p.1.isText && p.2.isText

/-- Whether `x` is none of the formals. -/
def Formals.avoids (x : Text) (f : Formals) : Bool :=
  f.params.all (·.avoids x) && f.rest.all (·.avoids x)

/-- Whether `x` cannot be had from a value: it does not occur in it, and neither does `read`, from
which any name can be had. -/
def Value.avoids (x : Text) : Value → Bool
  | symbol n => n ≠ x
  | pair _ h t => h.avoids x && t.avoids x
  | applicative _ u => u.avoids x
  | operative _ formals b _ => formals.avoids x && b.avoids x
  | primitive _ _ p => p ≠ .builtin .read
  | _ => true

/-- All names but one, and all primitives but `read`. -/
def Vocabulary.without (x : Text) : Vocabulary := ⟨(· ≠ x), (· ≠ .read), fun h ↦ absurd rfl h⟩

/-- All frames and tags stand for themselves, and texts show no environments. -/
def Coupling.same : Coupling where
  frame := Eq
  tag := Eq
  shows := False
  frame_biUnique := Relator.biUnique_eq FrameId
  tag_biUnique := Relator.biUnique_eq Tag

variable {x : Text}

namespace Template

variable {k : Coupling} {t t' : Template}

theorem coupled_of_isText (h : t.isText = true) : Template.Coupled k t t := by
  induction t with
  | nil => exact .nil
  | cons p t ih =>
    rw [isText, List.all_cons, Bool.and_eq_true] at h
    cases p with
    | point c => exact .cons (.point c) (ih h.2)
    | frame _ | chain _ => cases h.1

/-- Where texts do not show environments, coupled templates are texts. -/
theorem Coupled.isText (hk : ¬ k.shows) (h : Template.Coupled k t t') : t.isText = true := by
  induction h with
  | nil => rfl
  | cons hp _ ih =>
    cases hp with
    | point c => exact ih
    | frame hs _ => exact absurd hs hk
    | chain hs _ => exact absurd hs hk

/-- A text is the same on every store. -/
theorem fill_of_isText (h : t.isText = true) (s s' : Store) : s.fill t = s'.fill t := by
  induction t with
  | nil => rfl
  | cons p t ih =>
    rw [isText, List.all_cons, Bool.and_eq_true] at h
    cases p with
    | point c => exact congrArg (c :: ·) (ih h.2)
    | frame _ | chain _ => cases h.1

end Template

theorem Formal.coupled_of_avoids {p : Formal} (h : p.avoids x = true) :
    p.Coupled (.without x) .same p := by
  cases p with
  | name n =>
    have hn : n ≠ x := of_decide_eq_true h
    exact .name hn
  | misfit shown =>
    cases shown with
    | none => exact .misfit .none
    | some p =>
      obtain ⟨hplain, hrendered⟩ := Bool.and_eq_true_iff.mp h
      exact .misfit
        (.some ⟨Template.coupled_of_isText hplain, Template.coupled_of_isText hrendered⟩)

theorem Formals.coupled_of_avoids {f : Formals} (h : f.avoids x = true) :
    f.Coupled (.without x) .same f := by
  obtain ⟨params, rest⟩ := f
  rw [avoids, Bool.and_eq_true] at h
  constructor
  · exact List.forall₂_same.mpr fun p hp ↦ Formal.coupled_of_avoids (List.all_eq_true.mp h.1 p hp)
  · cases rest with
    | none => exact .none
    | some r => exact .some (Formal.coupled_of_avoids h.2)

theorem Procedure.coupled_of_ne_read {p : Procedure} (h : p ≠ .builtin .read) :
    p.Coupled (.without x) .same p := by
  cases p with
  | builtin b => exact .builtin fun hb ↦ h (congrArg _ hb)
  | native n => exact .native (.refl (fun _ ↦ rfl) n)
  | integerType => exact .integerType

/-- Values from which `x` cannot be had stand for themselves. -/
theorem Value.coupled_of_avoids {v : Value} (h : v.avoids x = true) :
    v.Coupled (.without x) .same v := by
  induction v with
  | nil => exact .nil
  | absent => exact .absent
  | flag b => exact .flag b
  | int n => exact .int n
  | float y => exact .float y
  | nan a => exact .nan rfl
  | text t => exact .text t
  | literal a t => exact .literal t rfl
  | symbol n =>
    have hn : n ≠ x := of_decide_eq_true h
    exact .symbol hn
  | pair a b c ihb ihc =>
    rw [avoids, Bool.and_eq_true] at h
    exact .pair rfl (ihb h.1) (ihc h.2)
  | environment f => exact .environment rfl
  | primitive a name p =>
    exact .primitive name rfl (Procedure.coupled_of_ne_read (of_decide_eq_true h))
  | applicative a u ih => exact .applicative rfl (ih h)
  | operative a formals b c ih =>
    rw [avoids, Bool.and_eq_true] at h
    exact .operative rfl (Formals.coupled_of_avoids h.1) (ih h.2) (.refl (fun _ ↦ rfl) c)
  | native n => exact .native (.refl (fun _ ↦ rfl) n)
  | integerType => exact .integerType
  | bareCombiner a => exact .bareCombiner rfl

theorem Value.eq_of_coupled {V : Vocabulary} {v v' : Value} (h : v.Coupled V .same v') : v = v' :=
  h.eq (fun _ _ hf ↦ hf) fun _ _ ha ↦ ha

theorem Record.isText_of_coupled {V : Vocabulary} {r r' : Record} (h : r.Coupled V .same r') :
    ∀ shown ∈ r.message, shown.isText = true := by
  have hmessage : Option.Rel (Template.Coupled .same) r.message r'.message := by
    cases h with
    | defined _ => exact .some (.append (.ofText _) (.ofText _))
    | constructed hf => exact hf.operative.map fun _ _ ht ↦ .append (.ofText _) ht
    | invoking hf => exact hf.operative.map fun _ _ ht ↦ .append (.ofText _) ht
  intro shown hshown
  obtain ⟨t, t', ht, -, hcoupled⟩ | ⟨hnone, -⟩ := hmessage.exists_or
  · cases hshown.symm.trans ht
    exact hcoupled.isText fun h ↦ h
  · cases hshown.symm.trans hnone

/-! ## Evaluating without the binding -/

namespace Store

/-- A store that binds `x` to `v` in the frame `f`. From what it binds but for that, `x` cannot be
had. -/
structure Adds (f : FrameId) (x : Text) (v : Value) (s : Store) : Prop where
  lt_size : f < s.frames.size
  get? : s.get? f x = some v
  bound {g : FrameId} {n : Text} {w : Value} : (s.unbind f x).get? g n = some w →
    w.Coupled (.without x) .same w

namespace Adds

variable {s : Store} {f g : FrameId} {n : Text} {v w : Value}

theorem newFrame (h : Adds f x v s) (c : Option FrameId) : Adds f x v (s.newFrame c) := by
  constructor
  · rw [size_newFrame]
    exact Nat.lt_succ_of_lt h.lt_size
  · rw [get?_newFrame, if_neg (Nat.ne_of_lt h.lt_size)]
    exact h.get?
  · intro g n w hw
    rw [unbind_newFrame h.lt_size, get?_newFrame] at hw
    split_ifs at hw
    · cases hw
      exact .native (.currentWorld rfl)
    · exact h.bound hw

theorem assign (h : Adds f x v s) (hn : n ≠ x) (hw : w.Coupled (.without x) .same w) (g : FrameId) :
    Adds f x v (s.assign g n w) := by
  constructor
  · rw [size_assign]
    exact h.lt_size
  · by_cases hg : g < s.frames.size
    · rw [get?_assign s g f n x w hg, if_neg fun hx ↦ hn hx.2.symm]
      exact h.get?
    · rw [assign_of_size_le (Nat.le_of_not_lt hg)]
      exact h.get?
  · intro i m u hu
    rw [unbind_assign hn] at hu
    rcases get?_assign_eq_some hu with ⟨-, -, rfl⟩ | hu
    · exact hw
    · exact h.bound hu

theorem lookup (h : Adds f x v s) (hn : n ≠ x) (g : FrameId) :
    Option.Rel (Value.Coupled (.without x) .same) ((s.unbind f x).lookup? g n) (s.lookup? g n) := by
  rw [← lookup?_unbind hn s f g]
  cases hw : (s.unbind f x).lookup? g n with
  | none => exact .none
  | some w =>
    obtain ⟨i, -, hi⟩ := exists_of_lookup? hw
    exact .some (h.bound hi)

end Adds

end Store

/-- A store and the same without the binding of `x` in `f`, while the records that come after those
of `s₀` show no environments. -/
def Simulation.concealing (f : FrameId) (x : Text) (v : Value) (s₀ : Store) :
    Simulation (.without x) where
  holds k s s' := k = .same ∧ s = s'.unbind f x ∧ s'.Adds f x v ∧
    ∃ made, s'.log = made ++ s₀.log ∧ ∀ r ∈ made, ∀ shown ∈ r.message, shown.isText = true
  lookup := by
    rintro _ _ s' g _ n ⟨rfl, rfl, hadds, -⟩ rfl hn
    exact hadds.lookup hn g
  retag := by
    rintro _ _ s' n ⟨rfl, rfl, hadds, hlog⟩
    exact ⟨.same, le_refl _, ⟨rfl, rfl, ⟨hadds.lt_size, hadds.get?, hadds.bound⟩, hlog⟩,
      fun _ _ ↦ rfl⟩
  newFrame := by
    rintro _ _ s' c c' ⟨rfl, rfl, hadds, hlog⟩ hc
    obtain rfl : c = c' := hc.eq fun _ _ hf ↦ hf
    refine ⟨.same, le_refl _, ⟨rfl, ?_, hadds.newFrame c, hlog⟩, Store.size_unbind s' f x⟩
    exact (Store.unbind_newFrame hadds.lt_size x c).symm
  assign := by
    rintro _ _ s' g _ n w w' ⟨rfl, rfl, hadds, hlog⟩ rfl hn hw
    obtain rfl := Value.eq_of_coupled hw
    exact ⟨rfl, (Store.unbind_assign hn s' f g w).symm, hadds.assign hn hw g, hlog⟩
  record := by
    rintro _ _ s' r r' ⟨rfl, rfl, hadds, made, hmade, htext⟩ hr
    obtain rfl := hr.eq fun _ _ hf ↦ hf
    refine ⟨rfl, rfl, ⟨hadds.lt_size, hadds.get?, hadds.bound⟩, r :: made,
      congrArg (r :: ·) hmade, ?_⟩
    rintro r' (_ | ⟨_, hr'⟩)
    · exact Record.isText_of_coupled hr
    · exact htext r' hr'

/-- The logs are the same, and the records made in the meantime have the same texts in both
stores. -/
theorem Simulation.log_of_concealing {m : Coupling} {f : FrameId} {v : Value} {s t t' : Store}
    (h : (concealing f x v s).holds m t t') :
    t.log = t'.log ∧
      ∀ r ∈ t.recordsSince s.log.length, r.message.map t.fill = r.message.map t'.fill := by
  obtain ⟨-, rfl, -, made, hmade, htext⟩ := h
  have hlog : (t'.unbind f x).log = made ++ s.log := hmade
  refine ⟨rfl, fun r hr ↦ ?_⟩
  rw [Store.recordsSince_eq hlog, List.mem_reverse] at hr
  refine Option.map_congr fun shown hshown ↦ ?_
  exact Template.fill_of_isText (htext r hr shown hshown) _ _

/-- A store with a new binding of `x` has it added. -/
theorem Store.adds_assign {s : Store} {f : FrameId} (hf : f < s.frames.size)
    (hx : s.get? f x = none) (hs : ∀ g n w, s.get? g n = some w → w.avoids x = true) (v : Value) :
    (s.assign f x v).Adds f x v := by
  constructor
  · rw [size_assign]
    exact hf
  · rw [get?_assign s f f x x v hf, if_pos ⟨rfl, rfl⟩]
  · intro g n w hw
    rw [unbind_assign_self hx] at hw
    exact Value.coupled_of_avoids (hs g n w hw)

/-- Let `x` not be bound in the frame `f` of a store, and let neither the values bound on the store
nor the expression `e` lead to `x`. Then evaluating `e` ends in the same way whether or not `x` is
first bound in `f`, to any value: with the same value, or by the same failure with the same message.
Both add the same records, with the same texts, and the stores they leave behind differ only in that
binding, which is still there. -/
theorem unmentioned_binding_invisible [CharacterNames] (s : Store) (f : FrameId) (x : Text)
    (v e : Value) (env : Option FrameId) (depth : Nat) (hf : f < s.frames.size)
    (hx : s.get? f x = none) (hs : ∀ g n w, s.get? g n = some w → w.avoids x = true)
    (he : e.avoids x = true) :
    ∃ t t' : Store, t = t'.unbind f x ∧ t'.get? f x = some v ∧
      ((∃ w, evaluate depth e env s = .ok w t ∧ evaluate depth e env (s.assign f x v) = .ok w t') ∨
        ∃ err, evaluate depth e env s = .error err t ∧
          evaluate depth e env (s.assign f x v) = .error err t' ∧
          ∀ fault, err = .fault fault → t.fill fault.message = t'.fill fault.message) ∧
      t.log = t'.log ∧
      ∀ r ∈ t.recordsSince s.log.length, r.message.map t.fill = r.message.map t'.fill := by
  let S := Simulation.concealing f x v s
  have hsame : ∀ g g', Coupling.same.frame g g' → g = g' := fun _ _ h ↦ h
  have henv : Option.Rel Coupling.same.frame env env := .refl (fun _ ↦ rfl) env
  have hstart : S.holds .same s (s.assign f x v) :=
    ⟨rfl, (Store.unbind_assign_self hx v).symm, Store.adds_assign hf hx hs v, [], rfl, by simp⟩
  have hrun := (S.evaluate depth (Value.coupled_of_avoids he) henv).run _ _ hstart
  generalize evaluate depth e env s = r, evaluate depth e env (s.assign f x v) = r' at hrun ⊢
  cases hrun with
  | @ok m w w' t t' _ hm hw =>
    have hlog := Simulation.log_of_concealing hm
    obtain ⟨rfl, hunbind, hadds, -⟩ := hm
    obtain rfl := Value.eq_of_coupled hw
    exact ⟨t, t', hunbind, hadds.get?, .inl ⟨w, rfl, rfl⟩, hlog⟩
  | @error m err err' t t' _ hm herr =>
    have hlog := Simulation.log_of_concealing hm
    obtain ⟨rfl, hunbind, hadds, -⟩ := hm
    obtain rfl := herr.eq hsame
    refine ⟨t, t', hunbind, hadds.get?, .inr ⟨err, rfl, rfl, ?_⟩, hlog⟩
    rintro fault rfl
    cases herr with
    | fault hfault => exact Template.fill_of_isText (hfault.message.isText fun h ↦ h) t t'

open scoped CharacterNames

/-- The expression `(($define! z x) 6)` fails, since 1 is no combiner, and it defines `z` all the
same. It does not see that `y` is bound before `z` in the frame. -/
theorem unmentioned_binding_invisible_failing :
    let e : Value :=
      .listFrom 4 [.listFrom 1 [.symbol "$define!", .symbol "z", .symbol "x"], .int 6]
    let s' := Store.nested.assign 1 "y" (.environment 1)
    let t := (evaluate 3 e (some 1)).after Store.nested
    let t' := (evaluate 3 e (some 1)).after s'
    Store.nested.get? 1 "y" = none ∧
    (∀ g n w, Store.nested.get? g n = some w → w.avoids "y" = true) ∧ e.avoids "y" = true ∧
    evaluate 3 e (some 1) Store.nested = .error (.fault (.notCallable "1")) t ∧
    evaluate 3 e (some 1) s' = .error (.fault (.notCallable "1")) t' ∧
    t.log = [.defined "z"] ∧ t'.log = [.defined "z"] ∧
    (t'.bindings 1).map Prod.fst = [currentWorld, "y", "z"] ∧ t = t'.unbind 1 "y" := by
  intro e s' t t'
  have hheap : ∀ g n w, Store.nested.get? g n = some w → w.avoids "y" = true := by
    intro g n w
    exact Store.forall_of_get? (p := fun w ↦ w.avoids "y" = true) (by decide)
  have hfails : evaluate 3 e (some 1) Store.nested = .error (.fault (.notCallable "1")) t := rfl
  have hfails' : evaluate 3 e (some 1) s' = .error (.fault (.notCallable "1")) t' := rfl
  obtain ⟨u, u', hunbind, -, hend, -⟩ := unmentioned_binding_invisible Store.nested 1 "y"
    (.environment 1) e (some 1) 3 (by decide) rfl hheap (by decide)
  obtain ⟨w, hok, -⟩ | ⟨err, herr, herr', -⟩ := hend
  · cases hfails.symm.trans hok
  obtain ⟨rfl, ht⟩ := EStateM.Result.error.inj (hfails.symm.trans herr)
  obtain ⟨-, ht'⟩ := EStateM.Result.error.inj (hfails'.symm.trans herr')
  refine ⟨rfl, hheap, by decide, hfails, hfails', rfl, rfl, by decide, ?_⟩
  rw [ht, ht', hunbind]

end Fexpr
