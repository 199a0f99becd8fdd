import Fexpr.Builtin
import Mathlib.Data.List.Forall2
import Mathlib.Order.Basic

/-!
# Values up to renaming

Two stores that went through the same evaluations may still number their frames and tags
differently. A `Coupling` says which frame of the one stands for which frame of the other, and the
same for tags; it is one to one. Values are coupled if they are built in the same way over coupled
frames and tags, and so are the texts that show them, if they can be shown, and the faults that show
these. Whatever a program can see of a value without the store, its kind, its elements, its text and
what it is identical to, it sees the same of a coupled one. A coupling also says whether texts may
show environments at all, since the frames that stand for each other need not bind the same names.
-/

namespace Option.Rel

variable {α β γ δ : Type} {R S : α → β → Prop} {a : Option α} {b : Option β}

theorem refl {R : α → α → Prop} (hR : ∀ x, R x x) (a : Option α) : Option.Rel R a a := by
  cases a with
  | some x => exact .some (hR x)
  | none => exact .none

theorem imp (hRS : ∀ x y, R x y → S x y) (h : Option.Rel R a b) : Option.Rel S a b := by
  cases h with
  | some hr => exact .some (hRS _ _ hr)
  | none => exact .none

theorem map {T : γ → δ → Prop} {f : α → γ} {g : β → δ} (hfg : ∀ x y, R x y → T (f x) (g y))
    (h : Option.Rel R a b) : Option.Rel T (a.map f) (b.map g) := by
  cases h with
  | some hr => exact .some (hfg _ _ hr)
  | none => exact .none

theorem bind {T : γ → δ → Prop} {f : α → Option γ} {g : β → Option δ} (h : Option.Rel R a b)
    (hfg : ∀ x y, R x y → Option.Rel T (f x) (g y)) : Option.Rel T (a.bind f) (b.bind g) := by
  cases h with
  | some hr => exact hfg _ _ hr
  | none => exact .none

theorem exists_or (h : Option.Rel R a b) :
    (∃ x y, a = .some x ∧ b = .some y ∧ R x y) ∨ a = .none ∧ b = .none := by
  cases h with
  | some hr => exact .inl ⟨_, _, rfl, rfl, hr⟩
  | none => exact .inr ⟨rfl, rfl⟩

theorem eq {R : α → α → Prop} {a b : Option α} (hR : ∀ x y, R x y → x = y) (h : Option.Rel R a b) :
    a = b := by
  cases h with
  | some hr => rw [hR _ _ hr]
  | none => rfl

theorem isSome_eq (h : Option.Rel R a b) : a.isSome = b.isSome := by
  cases h <;> rfl

theorem isNone_eq (h : Option.Rel R a b) : a.isNone = b.isNone := by
  cases h <;> rfl

end Option.Rel

theorem Relator.biUnique_eq (α : Type) : Relator.BiUnique (@Eq α) :=
  ⟨fun _ _ _ h h' ↦ h.trans h'.symm, fun _ _ _ h h' ↦ h.symm.trans h'⟩

namespace Fexpr

/-! ## Couplings -/

/-- Which frames and which tags of two stores stand for each other. -/
structure Coupling where
  frame : FrameId → FrameId → Prop
  tag : Tag → Tag → Prop
  /-- Whether texts may show environments, by the names that their frames bind. -/
  shows : Prop
  frame_biUnique : Relator.BiUnique frame
  tag_biUnique : Relator.BiUnique tag

namespace Coupling

/-- A coupling grows as frames are made and tags are taken. -/
instance : Preorder Coupling where
  le k m :=
    (∀ f g, k.frame f g → m.frame f g) ∧ (∀ a b, k.tag a b → m.tag a b) ∧ (k.shows → m.shows)
  le_refl _ := ⟨fun _ _ h ↦ h, fun _ _ h ↦ h, fun h ↦ h⟩
  le_trans _ _ _ h h' :=
    ⟨fun f g hf ↦ h'.1 f g (h.1 f g hf), fun a b ht ↦ h'.2.1 a b (h.2.1 a b ht),
    fun hs ↦ h'.2.2 (h.2.2 hs)⟩

variable {k m : Coupling}

theorem frame_mono (h : k ≤ m) {f g : FrameId} (hf : k.frame f g) : m.frame f g := h.1 f g hf

theorem tag_mono (h : k ≤ m) {a b : Tag} (ht : k.tag a b) : m.tag a b := h.2.1 a b ht

theorem scope_mono (h : k ≤ m) {env env' : Option FrameId} (henv : Option.Rel k.frame env env') :
    Option.Rel m.frame env env' :=
  henv.imp h.1

theorem frame_eq_iff {f f' g g' : FrameId} (h : k.frame f g) (h' : k.frame f' g') :
    f = f' ↔ g = g' := by
  constructor
  · rintro rfl
    exact k.frame_biUnique.2 h h'
  · rintro rfl
    exact k.frame_biUnique.1 h h'

theorem tag_eq_iff {a a' b b' : Tag} (h : k.tag a b) (h' : k.tag a' b') : a = a' ↔ b = b' := by
  constructor
  · rintro rfl
    exact k.tag_biUnique.2 h h'
  · rintro rfl
    exact k.tag_biUnique.1 h h'

end Coupling

/-- The names and the primitives that values may hold. Where texts can be read, any name may turn
up. -/
structure Vocabulary where
  name : Text → Prop
  builtin : Builtin → Prop
  name_of_read : builtin .read → ∀ n, name n

/-- All names and all primitives. -/
def Vocabulary.full : Vocabulary := ⟨fun _ ↦ True, fun _ ↦ True, fun _ _ ↦ trivial⟩

variable {V : Vocabulary} {k m : Coupling}

/-! ## Templates -/

/-- Pieces that show the same code point or coupled frames. -/
inductive Piece.Coupled (k : Coupling) : Piece → Piece → Prop
  | point (c : CodePoint) : Coupled k (.point c) (.point c)
  | frame {f g : FrameId} : k.shows → k.frame f g → Coupled k (.frame f) (.frame g)
  | chain {f g : FrameId} : k.shows → k.frame f g → Coupled k (.chain f) (.chain g)

/-- Templates with coupled pieces. -/
def Template.Coupled (k : Coupling) : Template → Template → Prop := List.Forall₂ (Piece.Coupled k)

namespace Template.Coupled

variable {t t' u u' : Template}

theorem mono (h : k ≤ m) (ht : Coupled k t t') : Coupled m t t' := by
  refine List.Forall₂.imp (fun p q hpq ↦ ?_) ht
  cases hpq with
  | point c => exact .point c
  | frame hs hf => exact .frame (h.2.2 hs) (Coupling.frame_mono h hf)
  | chain hs hf => exact .chain (h.2.2 hs) (Coupling.frame_mono h hf)

theorem ofText (t : Text) : Coupled k (.ofText t) (.ofText t) := by
  induction t with
  | nil => exact .nil
  | cons c t ih => exact .cons (.point c) ih

theorem append (ht : Coupled k t t') (hu : Coupled k u u') : Coupled k (t ++ u) (t' ++ u') :=
  List.rel_append ht hu

theorem between (a b : Text) (h : Coupled k t t') :
    Coupled k (.ofText a ++ t ++ .ofText b) (.ofText a ++ t' ++ .ofText b) :=
  ((ofText a).append h).append (ofText b)

theorem intercalate {ts ts' : List Template} (hu : Coupled k u u')
    (h : List.Forall₂ (Coupled k) ts ts') :
    Coupled k (List.intercalate u ts) (List.intercalate u' ts') := by
  induction h with
  | nil => exact .nil
  | cons ht hts ih =>
    cases hts with
    | nil => simpa using ht
    | cons ht' hts' =>
      rw [List.intercalate_cons_cons, List.intercalate_cons_cons]
      exact (ht.append hu).append ih

theorem atom (inTail : Bool) (h : Coupled k t t') :
    Coupled k (Value.atom inTail t) (Value.atom inTail t') := by
  cases inTail with
  | true => exact h.between _ _
  | false => exact h

end Template.Coupled

/-! ## Formals -/

/-- The two ways in which a formal is shown, each by coupled templates. -/
def Template.BothCoupled (k : Coupling) (p q : Template × Template) : Prop :=
  Coupled k p.1 q.1 ∧ Coupled k p.2 q.2

/-- Formals that are the same name of the vocabulary, or shown by coupled templates if at all. -/
inductive Formal.Coupled (V : Vocabulary) (k : Coupling) : Formal → Formal → Prop
  | name {n : Text} : V.name n → Coupled V k (.name n) (.name n)
  | misfit {shown shown' : Option (Template × Template)} :
    Option.Rel (Template.BothCoupled k) shown shown' → Coupled V k (.misfit shown) (.misfit shown')

/-- Formals that are coupled one by one. -/
structure Formals.Coupled (V : Vocabulary) (k : Coupling) (f f' : Formals) : Prop where
  params : List.Forall₂ (Formal.Coupled V k) f.params f'.params
  rest : Option.Rel (Formal.Coupled V k) f.rest f'.rest

theorem Formal.Coupled.mono (h : k ≤ m) {p p' : Formal} (hp : p.Coupled V k p') :
    p.Coupled V m p' := by
  cases hp with
  | name hn => exact .name hn
  | misfit hshown => exact .misfit (hshown.imp fun _ _ hp ↦ ⟨hp.1.mono h, hp.2.mono h⟩)

theorem Formal.Coupled.plain {p p' : Formal} (h : p.Coupled V k p') :
    Option.Rel (Template.Coupled k) p.plain p'.plain := by
  cases h with
  | name _ => exact .some (.ofText _)
  | misfit hshown => exact hshown.map fun _ _ hp ↦ hp.1

namespace Formals.Coupled

variable {f f' : Formals}

theorem mono (h : k ≤ m) (hf : f.Coupled V k f') : f.Coupled V m f' :=
  ⟨hf.params.imp fun _ _ hp ↦ hp.mono h, hf.rest.imp fun _ _ hp ↦ hp.mono h⟩

theorem writeParams {ps ps' : List Formal} (h : List.Forall₂ (Formal.Coupled V k) ps ps') :
    Option.Rel (List.Forall₂ (Template.Coupled k)) (writeParams ps) (writeParams ps') := by
  induction h with
  | nil => exact .some .nil
  | cons hp _ ih =>
    exact hp.plain.bind fun _ _ hshown ↦ ih.bind fun _ _ hothers ↦ .some (.cons hshown hothers)

theorem writeRest {r r' : Option Formal} (h : Option.Rel (Formal.Coupled V k) r r') :
    Option.Rel (Template.Coupled k) (writeRest r) (writeRest r') := by
  cases h with
  | some hr => exact hr.plain.map fun _ _ hshown ↦ .append (.ofText _) hshown
  | none => exact .some .nil

theorem render (h : f.Coupled V k f') : Option.Rel (Template.Coupled k) f.render f'.render := by
  refine (writeParams h.params).bind fun _ _ hparams ↦ (writeRest h.rest).bind fun _ _ hrest ↦ ?_
  exact .some
    (.append (.append (.between _ _ (.intercalate (.ofText _) hparams)) hrest) (.ofText _))

theorem operative (h : f.Coupled V k f') :
    Option.Rel (Template.Coupled k) f.operative f'.operative :=
  h.render.map fun _ _ hshown ↦ hshown.between _ _

end Formals.Coupled

/-! ## Host functions -/

/-- Native functions that are the same, but for the frame whose environment they give. -/
inductive Native.Coupled (k : Coupling) : Native → Native → Prop
  | select (b : Bool) : Coupled k (.select b) (.select b)
  | currentWorld {f g : FrameId} : k.frame f g → Coupled k (.currentWorld f) (.currentWorld g)
  | host (name : Option Text) (job : Job) : Coupled k (.host name job) (.host name job)

/-- The same primitive of the vocabulary, or coupled native functions. -/
inductive Procedure.Coupled (V : Vocabulary) (k : Coupling) : Procedure → Procedure → Prop
  | builtin {b : Builtin} : V.builtin b → Coupled V k (.builtin b) (.builtin b)
  | native {n n' : Native} : n.Coupled k n' → Coupled V k (.native n) (.native n')
  | integerType : Coupled V k .integerType .integerType

namespace Native.Coupled

variable {n n' l l' : Native}

theorem refl (hk : ∀ f, k.frame f f) (n : Native) : n.Coupled k n := by
  cases n with
  | select b => exact .select b
  | currentWorld f => exact .currentWorld (hk f)
  | host name job => exact .host name job

theorem mono (h : k ≤ m) (hn : n.Coupled k n') : n.Coupled m n' := by
  cases hn with
  | select b => exact .select b
  | currentWorld hf => exact .currentWorld (Coupling.frame_mono h hf)
  | host name job => exact .host name job

theorem arity (hn : n.Coupled k n') : n.arity = n'.arity := by
  cases hn <;> rfl

theorem name? (hn : n.Coupled k n') : n.name? = n'.name? := by
  cases hn <;> rfl

theorem eq_iff (hn : n.Coupled k n') (hl : l.Coupled k l') : n = l ↔ n' = l' := by
  cases hn <;> cases hl <;> simp only [Native.currentWorld.injEq, reduceCtorEq]
  case currentWorld.currentWorld hf _ _ hg => exact Coupling.frame_eq_iff hf hg

end Native.Coupled

theorem Procedure.Coupled.mono (h : k ≤ m) {p p' : Procedure} (hp : p.Coupled V k p') :
    p.Coupled V m p' := by
  cases hp with
  | builtin hb => exact .builtin hb
  | native hn => exact .native (hn.mono h)
  | integerType => exact .integerType

theorem Procedure.Coupled.arity {p p' : Procedure} (hp : p.Coupled V k p') :
    p.arity = p'.arity := by
  cases hp with
  | native hn => exact hn.arity
  | _ => rfl

/-! ## Values -/

/-- Values that are built in the same way, over coupled frames and tags and from the vocabulary. -/
inductive Value.Coupled (V : Vocabulary) (k : Coupling) : Value → Value → Prop
  | nil : Coupled V k .nil .nil
  | absent : Coupled V k .absent .absent
  | flag (b : Bool) : Coupled V k (.flag b) (.flag b)
  | int (n : Int) : Coupled V k (.int n) (.int n)
  | float (x : Double) : Coupled V k (.float x) (.float x)
  | nan {a b : Tag} : k.tag a b → Coupled V k (.nan a) (.nan b)
  | text (t : Text) : Coupled V k (.text t) (.text t)
  | literal {a b : Tag} (t : Text) : k.tag a b → Coupled V k (.literal a t) (.literal b t)
  | symbol {n : Text} : V.name n → Coupled V k (.symbol n) (.symbol n)
  | pair {a b : Tag} {h h' t t' : Value} : k.tag a b → Coupled V k h h' → Coupled V k t t' →
    Coupled V k (.pair a h t) (.pair b h' t')
  | environment {f g : FrameId} : k.frame f g → Coupled V k (.environment f) (.environment g)
  | primitive {a b : Tag} (name : Text) {p p' : Procedure} : k.tag a b → p.Coupled V k p' →
    Coupled V k (.primitive a name p) (.primitive b name p')
  | applicative {a b : Tag} {u u' : Value} : k.tag a b → Coupled V k u u' →
    Coupled V k (.applicative a u) (.applicative b u')
  | operative {a b : Tag} {formals formals' : Formals} {body body' : Value}
    {c c' : Option FrameId} :
    k.tag a b → formals.Coupled V k formals' → Coupled V k body body' → Option.Rel k.frame c c' →
    Coupled V k (.operative a formals body c) (.operative b formals' body' c')
  | native {n n' : Native} : n.Coupled k n' → Coupled V k (.native n) (.native n')
  | integerType : Coupled V k .integerType .integerType
  | bareCombiner {a b : Tag} : k.tag a b → Coupled V k (.bareCombiner a) (.bareCombiner b)

/-- Lists of coupled values. -/
abbrev Value.AllCoupled (V : Vocabulary) (k : Coupling) : List Value → List Value → Prop :=
  List.Forall₂ (Value.Coupled V k)

namespace Value.Coupled

variable {v v' w w' : Value} {vs vs' : List Value}

theorem mono (hkm : k ≤ m) (hv : Coupled V k v v') : Coupled V m v v' := by
  induction hv with
  | nil => exact .nil
  | absent => exact .absent
  | flag b => exact .flag b
  | int n => exact .int n
  | float x => exact .float x
  | nan ht => exact .nan (Coupling.tag_mono hkm ht)
  | text t => exact .text t
  | literal t ht => exact .literal t (Coupling.tag_mono hkm ht)
  | symbol hn => exact .symbol hn
  | pair ht _ _ ihh iht => exact .pair (Coupling.tag_mono hkm ht) ihh iht
  | environment hf => exact .environment (Coupling.frame_mono hkm hf)
  | primitive name ht hp => exact .primitive name (Coupling.tag_mono hkm ht) (hp.mono hkm)
  | applicative ht _ ih => exact .applicative (Coupling.tag_mono hkm ht) ih
  | operative ht hf _ hc ih =>
    exact .operative (Coupling.tag_mono hkm ht) (hf.mono hkm) ih (Coupling.scope_mono hkm hc)
  | native hn => exact .native (hn.mono hkm)
  | integerType => exact .integerType
  | bareCombiner ht => exact .bareCombiner (Coupling.tag_mono hkm ht)

theorem boolean {b b' : Bool} (h : b = b') : Coupled V k (.boolean b) (.boolean b') :=
  h ▸ .native (.select b)

theorem all_mono (h : k ≤ m) (hvs : AllCoupled V k vs vs') : AllCoupled V m vs vs' :=
  hvs.imp fun _ _ hv ↦ hv.mono h

/-! ### What is shown -/

/-- A pair is shown by its parts, whatever its tag. -/
theorem write_pair {h h' t t' : Value} (a b : Tag) (inTail : Bool)
    (hh : Option.Rel (Template.Coupled k) (h.write false) (h'.write false))
    (ht : Option.Rel (Template.Coupled k) (t.write true) (t'.write true)) :
    Option.Rel (Template.Coupled k) ((Value.pair a h t).write inTail)
      ((Value.pair b h' t').write inTail) := by
  refine hh.bind fun _ _ hfirst ↦ ht.bind fun _ _ hothers ↦ .some ?_
  refine .append ?_ (hfirst.append hothers)
  cases inTail <;> exact .ofText _

theorem write (hv : Coupled V k v v') (inTail : Bool) :
    Option.Rel (Template.Coupled k) (v.write inTail) (v'.write inTail) := by
  induction hv generalizing inTail with
  | nil => cases inTail <;> exact .some (.ofText _)
  | pair _ _ _ ihh iht => exact write_pair _ _ inTail (ihh false) (iht true)
  | flag b => cases b <;> exact .some (.atom inTail (.ofText _))
  | int n =>
    rw [Value.write]
    cases Text.ofInt? n with
    | some t => exact .some (.atom inTail (.ofText t))
    | none => exact .none
  | applicative _ hu ih =>
    -- Native functions are written in their own way below an applicative.
    cases hu with
    | native hn => cases hn <;> exact .some (.atom inTail (.between _ _ (.ofText _)))
    | _ => exact (ih false).map fun _ _ hshown ↦ .atom inTail (.between _ _ hshown)
  | operative _ hf _ _ _ => exact hf.operative.map fun _ _ hshown ↦ .atom inTail hshown
  | primitive name _ _ => exact .some (.atom inTail (.between _ _ (.ofText _)))
  | native hn => cases hn <;> exact .some (.atom inTail (.ofText _))
  | _ => exact .some (.atom inTail (.ofText _))

theorem render (hv : Coupled V k v v') : Option.Rel (Template.Coupled k) v.render v'.render :=
  hv.write false

theorem detail (hk : k.shows) (hv : Coupled V k v v') :
    Option.Rel (Template.Coupled k) v.detail v'.detail := by
  have hrender := hv.render
  cases hv with
  | absent => exact .some (.ofText _)
  | text t => exact .some (.ofText _)
  | literal t _ => exact .some (.between _ _ (.ofText _))
  | symbol _ => exact .some (.between _ _ (.ofText _))
  | environment hf => exact .some (.cons (.chain hk hf) .nil)
  | native hn => cases hn <;> exact .some (.ofText _)
  | integerType => exact .some (.ofText _)
  | _ => exact hrender

/-- A list is shown by its elements, whatever its tags. -/
theorem write_listFrom (hvs : AllCoupled V k vs vs') (a b : Tag) (inTail : Bool) :
    Option.Rel (Template.Coupled k) ((listFrom a vs).write inTail)
      ((listFrom b vs').write inTail) := by
  induction hvs generalizing a b inTail with
  | nil => cases inTail <;> exact .some (.ofText _)
  | cons hv _ ih => exact write_pair _ _ inTail (hv.write false) (ih _ _ true)

/-! ### Lists and expressions -/

theorem elements? (hv : Coupled V k v v') :
    Option.Rel (AllCoupled V k) v.elements? v'.elements? := by
  induction hv with
  | nil => exact .some .nil
  | pair _ hh _ _ iht =>
    rw [elements?_pair, elements?_pair]
    exact iht.map fun _ _ hvs ↦ .cons hh hvs
  | _ => exact .none

theorem listFrom {a b : Tag} (hvs : AllCoupled V k vs vs')
    (ht : ∀ i < vs.length, k.tag (a + i) (b + i)) :
    Coupled V k (listFrom a vs) (listFrom b vs') := by
  induction hvs generalizing a b with
  | nil => exact .nil
  | cons hv _ ih =>
    refine .pair (ht 0 (by simp)) hv (ih fun i hi ↦ ?_)
    have := ht (i + 1) (by simpa using hi)
    rwa [Nat.add_right_comm, Nat.add_right_comm b] at *

end Value.Coupled

/-- How many tags the expression of a datum takes. -/
def Datum.tagCount : Datum → Nat
  | nil | int _ | float _ | symbol _ => 0
  | str _ => 1
  | pair h t => 1 + h.tagCount + t.tagCount

theorem Value.snd_ofDatum (d : Datum) (a : Tag) : (ofDatum d a).2 = a + d.tagCount := by
  induction d generalizing a with
  | pair h t ihh iht => simp [ofDatum, Datum.tagCount, ihh, iht, Nat.add_assoc]
  | _ => rfl

theorem Value.Coupled.ofDatum (hV : ∀ n, V.name n) (d : Datum) {a b : Tag}
    (ht : ∀ i < d.tagCount, k.tag (a + i) (b + i)) :
    Value.Coupled V k (Value.ofDatum d a).1 (Value.ofDatum d b).1 := by
  induction d generalizing a b with
  | nil => exact .nil
  | int n => exact .int n
  | float x => exact .float x
  | str t => exact .literal t (ht 0 Nat.one_pos)
  | symbol s => exact .symbol (hV s)
  | pair h t ihh iht =>
    simp only [Datum.tagCount] at ht
    refine .pair (ht 0 (by omega)) (ihh fun i hi ↦ ?_) ?_
    · have := ht (1 + i) (by omega)
      simpa only [Nat.add_assoc] using this
    · simp only [Value.snd_ofDatum]
      refine iht fun i hi ↦ ?_
      have := ht (1 + h.tagCount + i) (by omega)
      simpa only [Nat.add_assoc] using this

/-! ### Identity -/

namespace Value.Coupled

variable {v v' w w' : Value}

/-- Coupled values are the same as each other where those they stand for are. -/
theorem same (hv : Coupled V k v v') (hw : Coupled V k w w') : v.same w = v'.same w' := by
  cases hv <;> cases hw <;> simp only [Value.same, beq_eq_beq]
  case environment.environment hf _ _ hg => exact Coupling.frame_eq_iff hf hg
  case native.native hn _ _ hl => exact hn.eq_iff hl
  all_goals exact Coupling.tag_eq_iff ‹_› ‹_›

theorem size? (hv : Coupled V k v v') : v.size? = v'.size? := by
  cases hv <;> rfl

theorem identical (hv : Coupled V k v v') (hw : Coupled V k w w') :
    v.identical w = v'.identical w' := by
  rw [Value.identical, Value.identical, hv.same hw, hv.size?, hw.size?]

theorem less (hv : Coupled V k v v') (hw : Coupled V k w w') : v.less w = v'.less w' := by
  rw [Value.less, Value.less, hv.size?, hw.size?]

end Value.Coupled

/-! ## Faults and records -/

/-- The kinds of faults. Those from `hostType` on are the host's own. -/
inductive Fault.Kind
  | shape
  | reference
  | environment
  | invocation
  | arity
  | source
  | hostType
  | hostValue
  | hostAttribute
  | unsupported
  deriving DecidableEq, Repr

/-- The kind of a fault. -/
def Fault.kind : Fault → Kind
  | mismatch _ _ => .shape
  | unbound _ => .reference
  | noEnvironment _ => .environment
  | notCallable _ => .invocation
  | cannotTake _ _ | tooFew _ _ | tooMany _ | emptyBody => .arity
  | unreadable (.tooManyDigits _) | badBase | unwritable => .hostValue
  | unreadable _ => .source
  | noMembers | notInteger | badName _ => .hostType
  | noFrame | notOperative => .hostAttribute
  | notInvocable => .unsupported

/-- Faults whose messages show no values. -/
def Fault.isTextual : Fault → Bool
  | mismatch _ _ | noEnvironment _ | notCallable _ | tooMany _ => false
  | _ => true

/-- Faults for the same reason, shown by coupled templates. -/
inductive Fault.Coupled (k : Coupling) : Fault → Fault → Prop
  | mismatch (e : Expected) {t t' : Template} : Template.Coupled k t t' →
    Coupled k (.mismatch e t) (.mismatch e t')
  | notCallable {t t' : Template} : Template.Coupled k t t' →
    Coupled k (.notCallable t) (.notCallable t')
  | tooMany {t t' : Template} : Template.Coupled k t t' → Coupled k (.tooMany t) (.tooMany t')
  | noEnvironment {t t' : Template} : Template.Coupled k t t' →
    Coupled k (.noEnvironment t) (.noEnvironment t')
  | textual {f : Fault} : f.isTextual = true → Coupled k f f

namespace Fault.Coupled

variable {f f' : Fault}

/-- What shows coupled templates is coupled, also if there is none to show. -/
theorem showing {fault : Template → Fault}
    (hfault : ∀ t t', Template.Coupled k t t' → Coupled k (fault t) (fault t'))
    {t t' : Option Template} (h : Option.Rel (Template.Coupled k) t t') :
    Coupled k (.showing fault t) (.showing fault t') := by
  cases h with
  | some ht => exact hfault _ _ ht
  | none => exact .textual rfl

theorem kind (h : f.Coupled k f') : f.kind = f'.kind := by
  cases h <;> rfl

theorem message_of_isTextual (h : f.isTextual = true) : Template.Coupled k f.message f.message := by
  cases f with
  | mismatch _ _ | noEnvironment _ | notCallable _ | tooMany _ => cases h
  | unbound name => exact .between _ _ (.ofText name)
  | cannotTake name count => exact .append (.between _ _ (.ofText _)) (.ofText _)
  | tooFew wanted got => exact .append (.between _ _ (.ofText _)) (.ofText _)
  | badName kind => exact .append (.ofText _) (.ofText _)
  | _ => exact .ofText _

theorem message (h : f.Coupled k f') : Template.Coupled k f.message f'.message := by
  cases h with
  | mismatch e ht => exact .append (.append (.append (.ofText _) (.ofText _)) (.ofText _)) ht
  | notCallable ht => exact ht.between _ _
  | tooMany ht => exact .append (.ofText _) ht
  | noEnvironment ht => exact ht.between _ _
  | textual h => exact message_of_isTextual h

end Fault.Coupled

/-- Failures by coupled faults, or both by depth. -/
inductive Failure.Coupled (k : Coupling) : Failure → Failure → Prop
  | fault {f f' : Fault} : f.Coupled k f' → Coupled k (.fault f) (.fault f')
  | tooDeep : Coupled k .tooDeep .tooDeep

/-- Records of the same event, with coupled formals. -/
inductive Record.Coupled (V : Vocabulary) (k : Coupling) : Record → Record → Prop
  | defined {n : Text} : V.name n → Coupled V k (.defined n) (.defined n)
  | constructed {f f' : Formals} : f.Coupled V k f' → Coupled V k (.constructed f) (.constructed f')
  | invoking {f f' : Formals} : f.Coupled V k f' → Coupled V k (.invoking f) (.invoking f')

/-! ## Making formals -/

namespace Formals

/-- Both give results in the relation `Q`, or both fail by coupled faults. -/
inductive Alike {α : Type} (k : Coupling) (Q : α → α → Prop) :
    Except Fault α → Except Fault α → Prop
  | ok {a a' : α} : Q a a' → Alike k Q (.ok a) (.ok a')
  | error {e e' : Fault} : e.Coupled k e' → Alike k Q (.error e) (.error e')

theorem Alike.bind {α β : Type} {x x' : Except Fault α} {c c' : α → Except Fault β}
    {Q : α → α → Prop} {R : β → β → Prop} (hx : Alike k Q x x')
    (hc : ∀ a a', Q a a' → Alike k R (c a) (c' a')) :
    Alike k R (x >>= c) (x' >>= c') := by
  cases hx with
  | ok h => exact hc _ _ h
  | error h => exact .error h

variable {v v' : Value}

theorem alike_symbol (hv : v.Coupled V k v') :
    Alike k (Formal.Coupled V k) (symbol v) (symbol v') := by
  have hrender := hv.render
  cases hv with
  | symbol hn => exact .ok (.name hn)
  | _ => exact .error (.showing (fun _ _ ↦ .mismatch _) hrender)

theorem alike_symbols {vs vs' : List Value} (hvs : Value.AllCoupled V k vs vs') :
    Alike k (List.Forall₂ (Formal.Coupled V k)) (symbols vs) (symbols vs') := by
  induction hvs with
  | nil => exact .ok .nil
  | cons hv _ ih =>
    exact (alike_symbol hv).bind fun p p' hp ↦ ih.bind fun ps ps' hps ↦ .ok (.cons hp hps)

theorem alike_restOf (hv : v.Coupled V k v') :
    Alike k (Option.Rel (Formal.Coupled V k)) (restOf v) (restOf v') := by
  have hsymbol := alike_symbol hv
  cases hv with
  | nil => exact .ok .none
  | _ => exact hsymbol.bind fun p p' hp ↦ .ok (.some hp)

theorem alike_paramsOf (hv : v.Coupled V k v') :
    Alike k (List.Forall₂ (Formal.Coupled V k)) (paramsOf v) (paramsOf v') := by
  have hrender := hv.render
  have helements := hv.elements?.exists_or
  cases hv with
  | symbol hn => exact .ok (.cons (.name hn) .nil)
  | nil => exact .ok .nil
  | pair _ _ _ =>
    obtain ⟨vs, vs', hvs, hvs', hall⟩ | ⟨hnone, hnone'⟩ := helements
    · simp only [paramsOf, hvs, hvs']
      exact alike_symbols hall
    · simp only [paramsOf, hnone, hnone']
      exact .error (.showing (fun _ _ ↦ .mismatch _) hrender)
  | _ => exact .error (.showing (fun _ _ ↦ .mismatch _) hrender)

theorem alike_ofValue (hv : v.Coupled V k v') :
    Alike k (Formals.Coupled V k) (ofValue v) (ofValue v') := by
  have hrender := hv.render
  cases hv with
  | nil => exact .ok ⟨.nil, .none⟩
  | pair _ hh ht =>
    exact (alike_paramsOf hh).bind fun ps ps' hps ↦ (alike_restOf ht).bind fun r r' hr ↦
      .ok ⟨hps, hr⟩
  | _ => exact .error (.showing (fun _ _ ↦ .mismatch _) hrender)

end Formals

/-! ## Where frames stand for themselves -/

section Same

/-- Templates are equal, since they are the same but for the frames. -/
theorem Template.Coupled.eq (hk : ∀ f g, k.frame f g → f = g) {t t' : Template}
    (h : Template.Coupled k t t') : t = t' := by
  rw [← List.forall₂_eq_eq_eq]
  refine List.Forall₂.imp (fun p q hpq ↦ ?_) h
  cases hpq with
  | point c => rfl
  | frame _ hf => rw [hk _ _ hf]
  | chain _ hf => rw [hk _ _ hf]

theorem Failure.Coupled.eq (hk : ∀ f g, k.frame f g → f = g) {e e' : Failure} (h : e.Coupled k e') :
    e = e' := by
  cases h with
  | tooDeep => rfl
  | fault hf =>
    cases hf with
    | mismatch e ht => rw [ht.eq hk]
    | notCallable ht => rw [ht.eq hk]
    | tooMany ht => rw [ht.eq hk]
    | noEnvironment ht => rw [ht.eq hk]
    | textual _ => rfl

theorem Formal.Coupled.eq (hk : ∀ f g, k.frame f g → f = g) {p p' : Formal} (h : p.Coupled V k p') :
    p = p' := by
  cases h with
  | name _ => rfl
  | misfit hshown => rw [hshown.eq fun _ _ hp ↦ Prod.ext (hp.1.eq hk) (hp.2.eq hk)]

theorem Formals.Coupled.eq (hk : ∀ f g, k.frame f g → f = g) {f f' : Formals}
    (h : f.Coupled V k f') :
    f = f' := by
  obtain ⟨params, rest⟩ := f
  obtain ⟨params', rest'⟩ := f'
  have hparams : params = params' := by
    rw [← List.forall₂_eq_eq_eq]
    exact h.params.imp fun _ _ hp ↦ hp.eq hk
  have hrest : rest = rest' := h.rest.eq fun _ _ hp ↦ hp.eq hk
  rw [hparams, hrest]

theorem Record.Coupled.eq (hk : ∀ f g, k.frame f g → f = g) {r r' : Record} (h : r.Coupled V k r') :
    r = r' := by
  cases h with
  | defined _ => rfl
  | constructed hf => rw [hf.eq hk]
  | invoking hf => rw [hf.eq hk]

theorem Native.Coupled.eq (hk : ∀ f g, k.frame f g → f = g) {n n' : Native} (h : n.Coupled k n') :
    n = n' := by
  cases h with
  | currentWorld hf => rw [hk _ _ hf]
  | _ => rfl

theorem Procedure.Coupled.eq (hk : ∀ f g, k.frame f g → f = g) {p p' : Procedure}
    (h : p.Coupled V k p') : p = p' := by
  cases h with
  | native hn => rw [hn.eq hk]
  | _ => rfl

/-- Values are equal if tags stand for themselves, too. -/
theorem Value.Coupled.eq (hk : ∀ f g, k.frame f g → f = g) (ht : ∀ a b, k.tag a b → a = b)
    {v v' : Value} (h : v.Coupled V k v') : v = v' := by
  induction h with
  | nan ha | literal _ ha | bareCombiner ha => rw [ht _ _ ha]
  | pair ha _ _ ihh iht => rw [ht _ _ ha, ihh, iht]
  | environment hf => rw [hk _ _ hf]
  | primitive name ha hp => rw [ht _ _ ha, hp.eq hk]
  | applicative ha _ ih => rw [ht _ _ ha, ih]
  | operative ha hf _ hc ih => rw [ht _ _ ha, hf.eq hk, ih, hc.eq hk]
  | native hn => rw [hn.eq hk]
  | _ => rfl

end Same

end Fexpr
