import Fexpr.Proofs.Store.Frames
import Mathlib.Data.List.Nodup
import Mathlib.Data.List.Perm.Subperm

/-!
# Climbing from a frame to a root

The search for a name goes from a frame to its parent, and on, until a frame binds the name or there
is no parent. `find?` goes through the frames of `chain` instead, of which there are at most as many
as the store has. This file shows that the two agree wherever climbing comes to an end: no frame is
met twice on the way, so that the bound of `chain` is never reached too early.
-/

namespace Fexpr.Store

/-- `s.Climbs f path`: going up from the frame `f` leads through the frames of `path` and ends
there, at one without a parent. -/
inductive Climbs (s : Store) : FrameId → List FrameId → Prop
  | root {f : FrameId} : f < s.frames.size → s.parent? f = none → Climbs s f [f]
  | up {f p : FrameId} {path : List FrameId} : s.parent? f = some p → Climbs s p path →
    Climbs s f (f :: path)

/-- `s.Search name f r`: the search for `name`, from the frame `f` up one frame after another, ends
with `r`: the first frame that binds the name, or none. -/
inductive Search (s : Store) (name : Text) : FrameId → Option FrameId → Prop
  | found {f : FrameId} : (s.get? f name).isSome = true → Search s name f (some f)
  | up {f p : FrameId} {r : Option FrameId} : s.get? f name = none → s.parent? f = some p →
    Search s name p r → Search s name f r
  | missing {f : FrameId} : s.get? f name = none → s.parent? f = none → Search s name f none

variable {s t : Store} {f g : FrameId} {name : Text} {path path' : List FrameId}

namespace Climbs

theorem lt_size (h : s.Climbs f path) : ∀ g ∈ path, g < s.frames.size := by
  induction h with
  | root hf _ =>
    intro g hg
    rw [List.mem_singleton.mp hg]
    exact hf
  | up hp _ ih =>
    intro g hg
    rcases List.mem_cons.mp hg with rfl | hg
    · exact lt_size_of_parent? hp
    · exact ih g hg

/-- There is one way up. -/
theorem unique (h : s.Climbs f path) (h' : s.Climbs f path') : path = path' := by
  induction h generalizing path' with
  | root _ hnone =>
    cases h' with
    | root _ _ => rfl
    | up hp _ => simp [hnone] at hp
  | up hp _ ih =>
    cases h' with
    | root _ hnone => simp [hnone] at hp
    | up hq h' =>
      rw [hp] at hq
      cases hq
      rw [ih h']

/-- From a frame on the way up the rest of the way leads on. -/
theorem of_mem (h : s.Climbs f path) (hg : g ∈ path) :
    ∃ rest, s.Climbs g rest ∧ rest.length ≤ path.length := by
  induction h with
  | root hf hnone =>
    rw [List.mem_singleton.mp hg]
    exact ⟨_, .root hf hnone, Nat.le_refl _⟩
  | up hp h ih =>
    rcases List.mem_cons.mp hg with rfl | hg
    · exact ⟨_, .up hp h, Nat.le_refl _⟩
    · obtain ⟨rest, hrest, hle⟩ := ih hg
      exact ⟨rest, hrest, Nat.le_succ_of_le hle⟩

/-- No frame is met twice: the way on from there would be as long as itself and more. -/
theorem nodup (h : s.Climbs f path) : path.Nodup := by
  induction h with
  | root _ _ => exact List.nodup_singleton _
  | @up f p path hp h ih =>
    refine List.nodup_cons.mpr ⟨fun hmem ↦ ?_, ih⟩
    obtain ⟨rest, hrest, hle⟩ := h.of_mem hmem
    rw [hrest.unique (.up hp h)] at hle
    exact Nat.not_succ_le_self _ hle

theorem length_le (h : s.Climbs f path) : path.length ≤ s.frames.size := by
  have hsub : path ⊆ List.range s.frames.size := fun g hg ↦ List.mem_range.mpr (h.lt_size g hg)
  simpa using (h.nodup.subperm hsub).length_le

theorem ancestry_eq (h : s.Climbs f path) {count : Nat} (hc : path.length ≤ count) :
    s.ancestry count f = path := by
  induction h generalizing count with
  | root _ hnone =>
    obtain ⟨count, rfl⟩ := Nat.exists_eq_add_of_le' hc
    simp [ancestry, hnone]
  | up hp _ ih =>
    obtain ⟨count, rfl⟩ := Nat.exists_eq_add_of_le' (Nat.le_trans (Nat.le_add_left 1 _) hc)
    simp [ancestry, hp, ih (Nat.le_of_succ_le_succ hc)]

/-- The frames that a store goes through are those on the way up. -/
theorem chain_eq (h : s.Climbs f path) : s.chain f = path := h.ancestry_eq h.length_le

theorem search (h : s.Climbs f path) (name : Text) :
    s.Search name f (path.find? fun g ↦ (s.get? g name).isSome) := by
  induction h with
  | @root f _ hnone =>
    cases hget : s.get? f name with
    | some v => simpa [hget] using Search.found (by simp [hget])
    | none => simpa [hget] using Search.missing hget hnone
  | @up f p path hp _ ih =>
    cases hget : s.get? f name with
    | some v => simpa [hget] using Search.found (by simp [hget])
    | none => simpa [hget] using Search.up hget hp ih

/-- Where climbing ends so does the search for any name, and `find?` gives what it ends with. -/
theorem search_find? (h : s.Climbs f path) (name : Text) : s.Search name f (s.find? f name) := by
  rw [find?, h.chain_eq]
  exact h.search name

end Climbs

/-- A name has a value in an environment if one of its frames binds it. -/
theorem isSome_lookup?_iff :
    (s.lookup? f name).isSome = true ↔ ∃ g ∈ s.chain f, (s.get? g name).isSome = true := by
  rw [lookup?, find?]
  constructor
  · intro h
    obtain ⟨v, hv⟩ := Option.isSome_iff_exists.mp h
    obtain ⟨g, hg, hv⟩ := Option.bind_eq_some_iff.mp hv
    exact ⟨g, List.mem_of_find?_eq_some hg, by simp [hv]⟩
  · intro h
    obtain ⟨g, hg⟩ := Option.isSome_iff_exists.mp (List.find?_isSome.mpr h)
    rw [hg, Option.bind_some]
    exact List.find?_some (p := fun g ↦ (s.get? g name).isSome) hg

end Fexpr.Store
