import Fexpr.Proofs.Store.Linking

/-!
# Stores that differ in their tags

Tags only tell values apart, so nothing depends on which tags are handed out. Two stores with the
same frames, whose values are the same but for their tags, stay such when the same is evaluated on
both, however far apart the next tags are. Their logs stay the same and failures are equal, since no
text shows a tag: `Simulation.retagging`.
-/

/-- What a relation implies of its left side holds of all that stands on the left of related
lists. -/
theorem List.Forall₂.forall_left {α β : Type} {R : α → β → Prop} {p : α → Prop} {l : List α}
    {l' : List β} (h : Forall₂ R l l') (hp : ∀ a b, R a b → p a) : ∀ a ∈ l, p a := by
  have hboth : Forall₂ (fun a b ↦ p a ∧ R a b) l l' := h.imp fun a b hab ↦ ⟨hp a b hab, hab⟩
  exact ((forall₂_and_left l l').mp hboth).1

namespace Fexpr

/-! ## The tags of values -/

/-- The tags of a value and of all values within it. -/
def Value.tags : Value → List Tag
  | nan a | literal a _ | primitive a _ _ | bareCombiner a => [a]
  | pair a h t => a :: (h.tags ++ t.tags)
  | applicative a u => a :: u.tags
  | operative a _ b _ => a :: b.tags
  | _ => []

theorem Value.Coupled.tags {V : Vocabulary} {k : Coupling} {v v' : Value} (h : v.Coupled V k v') :
    List.Forall₂ k.tag v.tags v'.tags := by
  induction h with
  | nan ha => exact .cons ha .nil
  | literal _ ha => exact .cons ha .nil
  | primitive _ ha _ => exact .cons ha .nil
  | bareCombiner ha => exact .cons ha .nil
  | pair ha _ _ ihh iht => exact .cons ha (List.rel_append ihh iht)
  | applicative ha _ ih => exact .cons ha ih
  | operative ha _ _ _ ih => exact .cons ha ih
  | _ => exact .nil

/-- All tags below `n` and all frames stand for themselves. -/
def Coupling.below (n : Tag) : Coupling where
  frame := Eq
  tag a b := a = b ∧ a < n
  shows := True
  frame_biUnique := Relator.biUnique_eq FrameId
  tag_biUnique := ⟨fun _ _ _ h h' ↦ h.1.trans h'.1.symm, fun _ _ _ h h' ↦ h.1.symm.trans h'.1⟩

variable {k : Coupling}

theorem Template.coupled_below (n : Tag) (t : Template) : Template.Coupled (.below n) t t := by
  refine List.forall₂_same.mpr fun p _ ↦ ?_
  cases p with
  | point c => exact .point c
  | frame f => exact .frame trivial rfl
  | chain f => exact .chain trivial rfl

theorem Formal.coupled_below (n : Tag) (p : Formal) : p.Coupled .full (.below n) p := by
  cases p with
  | name x => exact .name trivial
  | misfit shown => exact .misfit (.refl (fun p ↦ ⟨p.1.coupled_below n, p.2.coupled_below n⟩) shown)

theorem Procedure.coupled_below (n : Tag) (p : Procedure) : p.Coupled .full (.below n) p := by
  cases p with
  | builtin b => exact .builtin trivial
  | native l => exact .native (.refl (fun _ ↦ rfl) l)
  | integerType => exact .integerType

/-- A value whose tags are below `n` stands for itself. -/
theorem Value.coupled_below {n : Tag} {v : Value} (h : ∀ a ∈ v.tags, a < n) :
    v.Coupled .full (.below n) v := by
  induction v with
  | nil => exact .nil
  | absent => exact .absent
  | flag b => exact .flag b
  | int i => exact .int i
  | float x => exact .float x
  | nan a => exact .nan ⟨rfl, h a (by simp [tags])⟩
  | text t => exact .text t
  | literal a t => exact .literal t ⟨rfl, h a (by simp [tags])⟩
  | symbol s => exact .symbol trivial
  | pair a b c ihb ihc =>
    refine .pair ⟨rfl, h a (by simp [tags])⟩ (ihb fun i hi ↦ h i ?_) (ihc fun i hi ↦ h i ?_)
    · simp [tags, hi]
    · simp [tags, hi]
  | environment f => exact .environment rfl
  | primitive a name p => exact .primitive name ⟨rfl, h a (by simp [tags])⟩ (p.coupled_below n)
  | applicative a u ih =>
    exact .applicative ⟨rfl, h a (by simp [tags])⟩ (ih fun i hi ↦ h i (by simp [tags, hi]))
  | operative a formals b c ih =>
    refine .operative ⟨rfl, h a (by simp [tags])⟩ ⟨?_, ?_⟩
      (ih fun i hi ↦ h i (by simp [tags, hi])) ?_
    · exact List.forall₂_same.mpr fun p _ ↦ p.coupled_below n
    · exact .refl (fun p ↦ p.coupled_below n) formals.rest
    · exact .refl (fun _ ↦ rfl) c
  | native l => exact .native (.refl (fun _ ↦ rfl) l)
  | integerType => exact .integerType
  | bareCombiner a => exact .bareCombiner ⟨rfl, h a (by simp [tags])⟩

/-! ## Stores that are the same but for tags -/

namespace Store

/-- All tags of bound values have been handed out. -/
def Settled (s : Store) : Prop :=
  ∀ g ∈ s.frames.toList, ∀ b ∈ g.bindings, ∀ a ∈ b.2.tags, a < s.nextTag

instance (s : Store) : Decidable s.Settled :=
  inferInstanceAs
    (Decidable (∀ g ∈ s.frames.toList, ∀ b ∈ g.bindings, ∀ a ∈ b.2.tags, a < s.nextTag))

theorem settled_of_bindings {s : Store}
    (h : ∀ f, ∀ b ∈ s.bindings f, ∀ a ∈ b.2.tags, a < s.nextTag) :
    s.Settled := by
  intro g hg b hb
  obtain ⟨f, hf, rfl⟩ := List.mem_iff_getElem.mp hg
  apply h f b
  rw [bindings, Array.getElem?_eq_getElem hf]
  exact hb

/-- Stores with the same frames, which bind the same names in the same order to values that are the
same but for their tags, and with the same log. -/
structure Retagged (k : Coupling) (s s' : Store) : Prop where
  frame_iff {f g : FrameId} : k.frame f g ↔ f = g
  lt_nextTag {a b : Tag} : k.tag a b → a < s.nextTag ∧ b < s'.nextTag
  size_eq : s.frames.size = s'.frames.size
  parent_eq (f : FrameId) : s.parent? f = s'.parent? f
  bindings (f : FrameId) : (s.bindings f).Coupled .full k (s'.bindings f)
  log_eq : s.log = s'.log
  shared_eq : s.shared = s'.shared

theorem Settled.retagged {s : Store} (h : s.Settled) : s.Retagged (.below s.nextTag) s where
  frame_iff := Iff.rfl
  lt_nextTag := by
    rintro a _ ⟨rfl, ha⟩
    exact ⟨ha, ha⟩
  size_eq := rfl
  parent_eq _ := rfl
  bindings f := by
    have hbelow := forall_mem_bindings (p := fun b ↦ ∀ a ∈ b.2.tags, a < s.nextTag) h f
    exact List.forall₂_same.mpr fun b hb ↦ ⟨rfl, Value.coupled_below (hbelow b hb)⟩
  log_eq := rfl
  shared_eq := rfl

namespace Retagged

variable {s s' : Store} {f : FrameId}

/-- Stores that are the same but for tags are settled. -/
theorem settled (h : s.Retagged k s') : s.Settled ∧ s'.Settled := by
  constructor
  · apply settled_of_bindings
    intro f
    refine (h.bindings f).forall_left fun b b' hb ↦ ?_
    exact hb.2.tags.forall_left fun _ _ hab ↦ (h.lt_nextTag hab).1
  · apply settled_of_bindings
    intro f
    refine (h.bindings f).flip.forall_left fun b' b hb ↦ ?_
    exact hb.2.tags.flip.forall_left fun _ _ hab ↦ (h.lt_nextTag hab).2

/-! ### What is seen -/

theorem lookup? (h : s.Retagged k s') (f : FrameId) (n : Text) :
    Option.Rel (Value.Coupled .full k) (s.lookup? f n) (s'.lookup? f n) := by
  have hget (g : FrameId) : Option.Rel (Value.Coupled .full k) (s.get? g n) (s'.get? g n) :=
    (h.bindings g).lookup n
  have hfind : s.find? f n = s'.find? f n := by
    rw [find?, find?, chain_congr h.size_eq h.parent_eq f]
    congr
    funext g
    exact (hget g).isSome_eq
  rw [Store.lookup?, Store.lookup?, hfind]
  cases s'.find? f n with
  | none => exact .none
  | some g => exact hget g

/-- Texts come out the same. -/
theorem fill (h : s.Retagged k s') (t : Template) : s.fill t = s'.fill t := by
  have hframe : s.frameText = s'.frameText := by
    funext g
    rw [frameText, frameText, names, names, (h.bindings g).map_fst]
  have hplain : s.plainEnvironment = s'.plainEnvironment := by
    funext g
    rw [plainEnvironment, plainEnvironment, hframe, h.parent_eq]
  have hdetail : s.detailEnvironment = s'.detailEnvironment := by
    funext g
    rw [detailEnvironment, detailEnvironment, hframe, chain_congr h.size_eq h.parent_eq]
  rw [Store.fill, Store.fill, hplain, hdetail]

/-! ### What keeps stores the same -/

theorem retag (h : s.Retagged k s') (n : Nat) :
    Retagged (k.addTags s.nextTag s'.nextTag n h.lt_nextTag) { s with nextTag := s.nextTag + n }
      { s' with nextTag := s'.nextTag + n } where
  frame_iff := h.frame_iff
  lt_nextTag := Coupling.lt_of_addTags h.lt_nextTag
  size_eq := h.size_eq
  parent_eq := h.parent_eq
  bindings f := (h.bindings f).mono (Coupling.le_addTags _)
  log_eq := h.log_eq
  shared_eq := h.shared_eq

/-- One of the stores may hand out tags alone. -/
theorem skip (h : s.Retagged k s') (n : Nat) :
    s.Retagged k { s' with nextTag := s'.nextTag + n } where
  frame_iff := h.frame_iff
  lt_nextTag hab := ⟨(h.lt_nextTag hab).1, Nat.lt_add_right n (h.lt_nextTag hab).2⟩
  size_eq := h.size_eq
  parent_eq := h.parent_eq
  bindings := h.bindings
  log_eq := h.log_eq
  shared_eq := h.shared_eq

theorem record (h : s.Retagged k s') (r : Record) : (s.record r).Retagged k (s'.record r) where
  frame_iff := h.frame_iff
  lt_nextTag := h.lt_nextTag
  size_eq := h.size_eq
  parent_eq := h.parent_eq
  bindings := h.bindings
  log_eq := congrArg (r :: ·) h.log_eq
  shared_eq := h.shared_eq

theorem newFrame (h : s.Retagged k s') (c : Option FrameId) :
    (s.newFrame c).Retagged k (s'.newFrame c) where
  frame_iff := h.frame_iff
  lt_nextTag := h.lt_nextTag
  size_eq := by rw [size_newFrame, size_newFrame, h.size_eq]
  parent_eq f := by rw [parent?_newFrame, parent?_newFrame, h.size_eq, h.parent_eq]
  bindings f := by
    rw [bindings_newFrame, bindings_newFrame, h.size_eq]
    split
    · exact .cons ⟨rfl, .native (.currentWorld (h.frame_iff.mpr rfl))⟩ .nil
    · exact h.bindings f
  log_eq := h.log_eq
  shared_eq := h.shared_eq

theorem assign (h : s.Retagged k s') (f : FrameId) (n : Text) {v v' : Value}
    (hv : v.Coupled .full k v') :
    (s.assign f n v).Retagged k (s'.assign f n v') where
  frame_iff := h.frame_iff
  lt_nextTag := h.lt_nextTag
  size_eq := by rw [size_assign, size_assign, h.size_eq]
  parent_eq g := by rw [parent?_assign, parent?_assign, h.parent_eq]
  bindings g := by
    by_cases hf : f < s.frames.size
    · rw [bindings_assign hf, bindings_assign (h.size_eq ▸ hf)]
      split
      · exact (h.bindings g).assign n hv
      · exact h.bindings g
    · have hle := Nat.le_of_not_lt hf
      rw [assign_of_size_le hle, assign_of_size_le (h.size_eq ▸ hle)]
      exact h.bindings g
  log_eq := h.log_eq
  shared_eq := h.shared_eq

end Retagged

end Store

/-- Evaluating on stores that are the same but for tags. -/
def Simulation.retagging : Simulation .full where
  holds k s s' := s.Retagged k s'
  lookup := by
    intro k s s' f f' n h hf _
    obtain rfl := h.frame_iff.mp hf
    exact h.lookup? f n
  retag n h := ⟨_, Coupling.le_addTags h.lt_nextTag, h.retag n, fun i hi ↦ .inr ⟨i, hi, rfl, rfl⟩⟩
  newFrame := by
    intro k s s' c c' h hc
    obtain rfl : c = c' := hc.eq fun _ _ hf ↦ h.frame_iff.mp hf
    exact ⟨k, le_refl k, h.newFrame c, h.frame_iff.mpr h.size_eq⟩
  assign := by
    intro k s s' f f' n v v' h hf _ hv
    obtain rfl := h.frame_iff.mp hf
    exact h.assign f n hv
  record := by
    intro k s s' r r' h hr
    obtain rfl := hr.eq fun _ _ hf ↦ h.frame_iff.mp hf
    exact h.record r

end Fexpr
