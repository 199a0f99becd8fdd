import Fexpr.Proofs.Evaluator.Simulation
import Fexpr.Proofs.Store.Frames

/-!
# Stores that agree on some of their frames

Two stores are linked over a coupling if coupled frames have coupled parents and bind the same
names, in the same order, to coupled values. The other frames of either store do not matter. So
coupled environments give coupled values to names and are shown alike, and what two linked stores do
in step leaves them linked. A second link from another store to frames of the first is kept
meanwhile, as long as the two do not meet in a frame: `Simulation.beside`.
-/

/-- What is found in related lists by tests that agree is related. -/
theorem List.rel_find? {α β : Type} {R : α → β → Prop} {p : α → Bool} {q : β → Bool} {l : List α}
    {l' : List β} (hpq : ∀ a b, R a b → p a = q b) (h : Forall₂ R l l') :
    Option.Rel R (l.find? p) (l'.find? q) := by
  induction h with
  | nil => exact .none
  | cons hab _ ih =>
    rw [find?_cons, find?_cons, hpq _ _ hab]
    split
    · exact .some hab
    · exact ih

namespace Fexpr

/-! ## Growing a coupling -/

namespace Coupling

/-- The coupling of nothing. -/
def empty : Coupling where
  frame _ _ := False
  tag _ _ := False
  shows := True
  frame_biUnique := ⟨fun _ _ _ h ↦ h.elim, fun _ _ _ h ↦ h.elim⟩
  tag_biUnique := ⟨fun _ _ _ h ↦ h.elim, fun _ _ _ h ↦ h.elim⟩

/-- Couple one more pair of frames, both newer than all that are coupled. -/
def addFrame (k : Coupling) (f g : FrameId) (h : ∀ {x y}, k.frame x y → x < f ∧ y < g) :
    Coupling where
  frame x y := k.frame x y ∨ x = f ∧ y = g
  tag := k.tag
  shows := k.shows
  tag_biUnique := k.tag_biUnique
  frame_biUnique := by
    constructor
    · rintro x y z (hx | ⟨rfl, rfl⟩) (hy | ⟨rfl, hz⟩)
      · exact k.frame_biUnique.1 hx hy
      · exact absurd (h hx).2 (hz ▸ Nat.lt_irrefl _)
      · exact absurd (h hy).2 (Nat.lt_irrefl _)
      · rfl
    · rintro x y z (hx | ⟨rfl, rfl⟩) (hy | ⟨hz, rfl⟩)
      · exact k.frame_biUnique.2 hx hy
      · exact absurd (h hx).1 (hz ▸ Nat.lt_irrefl _)
      · exact absurd (h hy).1 (Nat.lt_irrefl _)
      · rfl

/-- Couple `n` more pairs of tags from `a` and `b` on, all newer than those that are coupled. -/
def addTags (k : Coupling) (a b : Tag) (n : Nat) (h : ∀ {x y}, k.tag x y → x < a ∧ y < b) :
    Coupling where
  frame := k.frame
  tag x y := k.tag x y ∨ ∃ i < n, x = a + i ∧ y = b + i
  shows := k.shows
  frame_biUnique := k.frame_biUnique
  tag_biUnique := by
    have hlt (c i : Nat) : ¬ c + i < c := Nat.not_lt_of_le (Nat.le_add_right c i)
    constructor
    · rintro x y z (hx | ⟨i, -, rfl, rfl⟩) (hy | ⟨j, -, rfl, hz⟩)
      · exact k.tag_biUnique.1 hx hy
      · exact absurd (h hx).2 (hz ▸ hlt b j)
      · exact absurd (h hy).2 (hlt b i)
      · rw [Nat.add_left_cancel hz]
    · rintro x y z (hx | ⟨i, -, rfl, rfl⟩) (hy | ⟨j, -, hz, rfl⟩)
      · exact k.tag_biUnique.2 hx hy
      · exact absurd (h hx).1 (hz ▸ hlt a j)
      · exact absurd (h hy).1 (hlt a i)
      · rw [Nat.add_left_cancel hz]

/-- Two couplings with the frames of one store that meet in none of them. -/
def Apart (k m : Coupling) : Prop := ∀ ⦃f f' g⦄, k.frame f g → ¬ m.frame f' g

variable {k m : Coupling}

theorem Apart.symm (h : k.Apart m) : m.Apart k := fun _ _ _ hm hk ↦ h hk hm

theorem le_addFrame {f g : FrameId} (h : ∀ {x y}, k.frame x y → x < f ∧ y < g) :
    k ≤ k.addFrame f g h :=
  ⟨fun _ _ hf ↦ .inl hf, fun _ _ ht ↦ ht, fun hs ↦ hs⟩

theorem le_addTags {a b : Tag} {n : Nat} (h : ∀ {x y}, k.tag x y → x < a ∧ y < b) :
    k ≤ k.addTags a b n h :=
  ⟨fun _ _ hf ↦ hf, fun _ _ ht ↦ .inl ht, fun hs ↦ hs⟩

theorem lt_of_addTags {a b x y : Tag} {n : Nat} (h : ∀ {x y}, k.tag x y → x < a ∧ y < b)
    (hxy : (k.addTags a b n h).tag x y) : x < a + n ∧ y < b + n := by
  rcases hxy with hxy | ⟨i, hi, rfl, rfl⟩
  · obtain ⟨hx, hy⟩ := h hxy
    exact ⟨Nat.lt_add_right n hx, Nat.lt_add_right n hy⟩
  · exact ⟨Nat.add_lt_add_left hi a, Nat.add_lt_add_left hi b⟩

end Coupling

variable {V : Vocabulary} {k m : Coupling}

/-! ## Bindings -/

namespace Bindings

/-- Bindings of the same names, in the same order, to coupled values. -/
def Coupled (V : Vocabulary) (k : Coupling) : Bindings → Bindings → Prop :=
  List.Forall₂ fun b b' ↦ b.1 = b'.1 ∧ b.2.Coupled V k b'.2

variable {bs bs' : Bindings}

theorem Coupled.mono (hkm : k ≤ m) (h : bs.Coupled V k bs') : bs.Coupled V m bs' :=
  List.Forall₂.imp (fun _ _ hb ↦ ⟨hb.1, hb.2.mono hkm⟩) h

theorem Coupled.assign (h : bs.Coupled V k bs') (n : Text) {v v' : Value} (hv : v.Coupled V k v') :
    (bs.assign n v).Coupled V k (bs'.assign n v') := by
  induction h with
  | nil => exact .cons ⟨rfl, hv⟩ .nil
  | @cons b b' rest rest' hb hrest ih =>
    obtain ⟨x, w⟩ := b
    obtain ⟨x', w'⟩ := b'
    obtain ⟨rfl, hw⟩ : x = x' ∧ w.Coupled V k w' := hb
    simp only [Bindings.assign]
    split
    · exact .cons ⟨rfl, hv⟩ hrest
    · exact .cons ⟨rfl, hw⟩ ih

theorem Coupled.lookup (h : bs.Coupled V k bs') (n : Text) :
    Option.Rel (Value.Coupled V k) (bs.lookup n) (bs'.lookup n) := by
  induction h with
  | nil => exact .none
  | @cons b b' rest rest' hb _ ih =>
    obtain ⟨x, w⟩ := b
    obtain ⟨x', w'⟩ := b'
    obtain ⟨rfl, hw⟩ : x = x' ∧ w.Coupled V k w' := hb
    rw [List.lookup_cons, List.lookup_cons]
    split
    · exact .some hw
    · exact ih

theorem Coupled.map_fst (h : bs.Coupled V k bs') : bs.map Prod.fst = bs'.map Prod.fst := by
  induction h with
  | nil => rfl
  | cons hb _ ih => rw [List.map_cons, List.map_cons, hb.1, ih]

end Bindings

/-! ## Linked stores -/

namespace Store

/-- The coupled frames of two stores agree. Coupled frames and tags are there, and parents are older
than their children, so that the frames of an environment come to an end. Since they agree, texts
may show them. -/
structure Linked (V : Vocabulary) (k : Coupling) (s s' : Store) : Prop where
  shows : k.shows
  lt_size {f f' : FrameId} : k.frame f f' → f < s.frames.size ∧ f' < s'.frames.size
  lt_nextTag {a b : Tag} : k.tag a b → a < s.nextTag ∧ b < s'.nextTag
  parent {f f' : FrameId} : k.frame f f' → Option.Rel k.frame (s.parent? f) (s'.parent? f')
  older {f f' : FrameId} : k.frame f f' →
    (∀ p, s.parent? f = some p → p < f) ∧ ∀ p, s'.parent? f' = some p → p < f'
  bindings {f f' : FrameId} : k.frame f f' → (s.bindings f).Coupled V k (s'.bindings f')

/-- Stores are linked over the coupling of nothing. -/
theorem linked_empty (s s' : Store) : Linked V .empty s s' :=
  ⟨trivial, False.elim, False.elim, False.elim, False.elim, False.elim⟩

namespace Linked

variable {s s' t t' : Store} {f f' : FrameId}

/-! ### What is seen of a frame -/

theorem get? (h : Linked V k s s') (hf : k.frame f f') (n : Text) :
    Option.Rel (Value.Coupled V k) (s.get? f n) (s'.get? f' n) :=
  (h.bindings hf).lookup n

theorem frameText (h : Linked V k s s') (hf : k.frame f f') : s.frameText f = s'.frameText f' := by
  rw [Store.frameText, Store.frameText, names, names, (h.bindings hf).map_fst]

/-- The frames of coupled environments are coupled, however many are asked for beyond the root. -/
theorem ancestry (h : Linked V k s s') (hf : k.frame f f') {count count' : Nat} (hc : f < count)
    (hc' : f' < count') : List.Forall₂ k.frame (s.ancestry count f) (s'.ancestry count' f') := by
  induction count generalizing f f' count' with
  | zero => cases hc
  | succ count ih =>
    obtain ⟨count', rfl⟩ := Nat.exists_eq_succ_of_ne_zero (Nat.ne_zero_of_lt hc')
    obtain ⟨hold, hold'⟩ := h.older hf
    rw [Store.ancestry, Store.ancestry]
    obtain ⟨p, p', hp, hp', hpp⟩ | ⟨hnone, hnone'⟩ := (h.parent hf).exists_or
    · rw [hp, hp']
      have hlt := Nat.lt_of_lt_of_le (hold p hp) (Nat.le_of_lt_succ hc)
      have hlt' := Nat.lt_of_lt_of_le (hold' p' hp') (Nat.le_of_lt_succ hc')
      exact .cons hf (ih hpp hlt hlt')
    · rw [hnone, hnone']
      exact .cons hf .nil

theorem chain (h : Linked V k s s') (hf : k.frame f f') :
    List.Forall₂ k.frame (s.chain f) (s'.chain f') :=
  h.ancestry hf (h.lt_size hf).1 (h.lt_size hf).2

theorem lookup? (h : Linked V k s s') (hf : k.frame f f') (n : Text) :
    Option.Rel (Value.Coupled V k) (s.lookup? f n) (s'.lookup? f' n) := by
  have hfind : Option.Rel k.frame (s.find? f n) (s'.find? f' n) :=
    List.rel_find? (fun _ _ hg ↦ (h.get? hg n).isSome_eq) (h.chain hf)
  rw [Store.lookup?, Store.lookup?]
  obtain ⟨g, g', hg, hg', hgg⟩ | ⟨hnone, hnone'⟩ := hfind.exists_or
  · rw [hg, hg']
    exact h.get? hgg n
  · rw [hnone, hnone']
    exact .none

/-! ### What is shown -/

theorem plainEnvironment (h : Linked V k s s') (hf : k.frame f f') :
    s.plainEnvironment f = s'.plainEnvironment f' := by
  rw [Store.plainEnvironment, Store.plainEnvironment, h.frameText hf, (h.parent hf).isSome_eq]

theorem detailEnvironment (h : Linked V k s s') (hf : k.frame f f') :
    s.detailEnvironment f = s'.detailEnvironment f' := by
  have hmap : (s.chain f).map s.frameText = (s'.chain f').map s'.frameText := by
    rw [← List.forall₂_eq_eq_eq]
    exact List.rel_map (fun _ _ hg ↦ h.frameText hg) (h.chain hf)
  rw [Store.detailEnvironment, Store.detailEnvironment, hmap]

/-- Coupled templates come out as the same text. -/
theorem fill (h : Linked V k s s') {T T' : Template} (hT : Template.Coupled k T T') :
    s.fill T = s'.fill T' := by
  rw [Store.fill, Store.fill, Template.fill, Template.fill]
  induction hT with
  | nil => rfl
  | cons hp _ ih =>
    rw [List.flatMap_cons, List.flatMap_cons, ih]
    cases hp with
    | point c => rfl
    | frame _ hf => exact congrArg (· ++ _) (h.plainEnvironment hf)
    | chain _ hf => exact congrArg (· ++ _) (h.detailEnvironment hf)

/-! ### What keeps stores linked -/

/-- Only the coupled frames of the second store matter. -/
theorem of_agree (h : Linked V k s s')
    (hframes : ∀ f f', k.frame f f' → t'.frames[f']? = s'.frames[f']?)
    (htag : s'.nextTag ≤ t'.nextTag) : Linked V k s t' := by
  have hparent : ∀ f f', k.frame f f' → t'.parent? f' = s'.parent? f' := fun f f' hf ↦ by
    rw [parent?, parent?, hframes f f' hf]
  constructor
  · exact h.shows
  · intro f f' hf
    obtain ⟨hlt, hlt'⟩ := h.lt_size hf
    refine ⟨hlt, Nat.lt_of_not_le fun hle ↦ ?_⟩
    have hnone := hframes f f' hf
    rw [Array.getElem?_eq_none hle, Array.getElem?_eq_getElem hlt'] at hnone
    cases hnone
  · intro a b hab
    exact ⟨(h.lt_nextTag hab).1, Nat.lt_of_lt_of_le (h.lt_nextTag hab).2 htag⟩
  · intro f f' hf
    rw [hparent f f' hf]
    exact h.parent hf
  · intro f f' hf
    rw [hparent f f' hf]
    exact h.older hf
  · intro f f' hf
    rw [Store.bindings, Store.bindings, hframes f f' hf]
    exact h.bindings hf

theorem retag (h : Linked V k s s') (n : Nat) :
    Linked V (k.addTags s.nextTag s'.nextTag n h.lt_nextTag) { s with nextTag := s.nextTag + n }
      { s' with nextTag := s'.nextTag + n } := by
  refine ⟨h.shows, h.lt_size, Coupling.lt_of_addTags h.lt_nextTag, h.parent, h.older, ?_⟩
  intro f f' hf
  exact (h.bindings hf).mono (Coupling.le_addTags _)

theorem record (h : Linked V k s s') (r r' : Record) : Linked V k (s.record r) (s'.record r') :=
  ⟨h.shows, h.lt_size, h.lt_nextTag, h.parent, h.older, h.bindings⟩

theorem newFrame (h : Linked V k s s') {c c' : Option FrameId} (hc : Option.Rel k.frame c c') :
    Linked V (k.addFrame s.frames.size s'.frames.size h.lt_size) (s.newFrame c)
      (s'.newFrame c') := by
  have hle := Coupling.le_addFrame h.lt_size
  have hne {f f' : FrameId} (hf : k.frame f f') : f ≠ s.frames.size ∧ f' ≠ s'.frames.size :=
    ⟨Nat.ne_of_lt (h.lt_size hf).1, Nat.ne_of_lt (h.lt_size hf).2⟩
  constructor
  · exact h.shows
  · simp only [size_newFrame]
    rintro f f' (hf | ⟨rfl, rfl⟩)
    · exact ⟨Nat.lt_succ_of_lt (h.lt_size hf).1, Nat.lt_succ_of_lt (h.lt_size hf).2⟩
    · exact ⟨Nat.lt_succ_self _, Nat.lt_succ_self _⟩
  · exact h.lt_nextTag
  · rintro f f' (hf | ⟨rfl, rfl⟩)
    · rw [parent?_newFrame, parent?_newFrame, if_neg (hne hf).1, if_neg (hne hf).2]
      exact Coupling.scope_mono hle (h.parent hf)
    · rw [parent?_newFrame, parent?_newFrame, if_pos rfl, if_pos rfl]
      exact Coupling.scope_mono hle hc
  · rintro f f' (hf | ⟨rfl, rfl⟩)
    · rw [parent?_newFrame, parent?_newFrame, if_neg (hne hf).1, if_neg (hne hf).2]
      exact h.older hf
    · rw [parent?_newFrame, parent?_newFrame, if_pos rfl, if_pos rfl]
      cases hc with
      | none => exact ⟨nofun, nofun⟩
      | some hp =>
        constructor
        · rintro _ ⟨⟩
          exact (h.lt_size hp).1
        · rintro _ ⟨⟩
          exact (h.lt_size hp).2
  · rintro f f' (hf | ⟨rfl, rfl⟩)
    · rw [bindings_newFrame, bindings_newFrame, if_neg (hne hf).1, if_neg (hne hf).2]
      exact (h.bindings hf).mono hle
    · rw [bindings_newFrame, bindings_newFrame, if_pos rfl, if_pos rfl]
      exact .cons ⟨rfl, .native (.currentWorld (.inr ⟨rfl, rfl⟩))⟩ .nil

theorem assign (h : Linked V k s s') (hf : k.frame f f') (n : Text) {v v' : Value}
    (hv : v.Coupled V k v') :
    Linked V k (s.assign f n v) (s'.assign f' n v') := by
  constructor
  · exact h.shows
  · simp only [size_assign]
    exact h.lt_size
  · exact h.lt_nextTag
  · simp only [parent?_assign]
    exact h.parent
  · simp only [parent?_assign]
    exact h.older
  · intro g g' hg
    have hbound := h.lt_size hf
    rw [bindings_assign hbound.1, bindings_assign hbound.2]
    by_cases heq : g = f
    · rw [if_pos heq, if_pos ((k.frame_eq_iff hg hf).mp heq)]
      exact (h.bindings hg).assign n hv
    · rw [if_neg heq, if_neg (mt (k.frame_eq_iff hg hf).mpr heq)]
      exact h.bindings hg

end Linked

end Store

/-! ## Evaluating beside another link -/

/-- Stores linked in step, while the second one is also linked to a third store, over frames
apart. -/
def Simulation.beside (m : Coupling) (t : Store) : Simulation .full where
  holds k s s' := s.Linked .full k s' ∧ t.Linked .full m s' ∧ k.Apart m
  lookup h hf _ := h.1.lookup? hf _
  retag n h := by
    obtain ⟨hlink, hother, hapart⟩ := h
    refine ⟨_, Coupling.le_addTags hlink.lt_nextTag, ⟨hlink.retag n, ?_, hapart⟩, ?_⟩
    · exact hother.of_agree (fun _ _ _ ↦ rfl) (Nat.le_add_right _ n)
    · exact fun i hi ↦ .inr ⟨i, hi, rfl, rfl⟩
  newFrame {k s s' c c'} h hc := by
    obtain ⟨hlink, hother, hapart⟩ := h
    refine ⟨_, Coupling.le_addFrame hlink.lt_size, ⟨hlink.newFrame hc, ?_, ?_⟩, .inr ⟨rfl, rfl⟩⟩
    · refine hother.of_agree (fun f f' hf ↦ ?_) (Nat.le_refl _)
      exact Store.getElem?_newFrame_of_ne (Nat.ne_of_lt (hother.lt_size hf).2) c'
    · rintro f f' g (hf | ⟨rfl, rfl⟩) hm
      · exact hapart hf hm
      · exact Nat.lt_irrefl _ (hother.lt_size hm).2
  assign {k s s' f f' n v v'} h hf _ hv := by
    obtain ⟨hlink, hother, hapart⟩ := h
    refine ⟨hlink.assign hf n hv, hother.of_agree (fun g g' hg ↦ ?_) (Nat.le_refl _), hapart⟩
    refine Store.getElem?_assign_of_ne ?_ n v'
    rintro rfl
    exact hapart hf hg
  record h _ := ⟨h.1.record _ _, h.2.1.of_agree (fun _ _ _ ↦ rfl) (Nat.le_refl _), h.2.2⟩

end Fexpr
