import Mathlib.Tactic
import Mathlib.Data.Set.Lattice

/-!
# Sequences justified by what stands before them

Each item of a sequence offers some facts and is judged (`ok`) against the facts
in scope: a base set and all that the earlier items offer. `Threaded` is that
judgement for a whole sequence.
-/

section

variable {υ α : Type}

def Threaded.offered (offers : υ → Set α) (us : List υ) : Set α := {x | ∃ u ∈ us, x ∈ offers u}

@[simp] theorem Threaded.offered_nil (offers : υ → Set α) : Threaded.offered offers [] = ∅ := by
  simp [Threaded.offered]

@[simp] theorem Threaded.offered_cons (offers : υ → Set α) (u : υ) (us : List υ) :
    Threaded.offered offers (u :: us) = offers u ∪ Threaded.offered offers us := by
  ext x
  simp [Threaded.offered]

@[simp] theorem Threaded.offered_append (offers : υ → Set α) (us vs : List υ) :
    Threaded.offered offers (us ++ vs) = Threaded.offered offers us ∪ Threaded.offered offers vs := by
  ext x
  simp [Threaded.offered, or_and_right, exists_or]

/-- Every item is `ok` in the base set together with what the earlier items offer. -/
def Threaded (ok : Set α → υ → Prop) (offers : υ → Set α) : Set α → List υ → Prop
  | _, [] => True
  | env, u :: us => ok env u ∧ Threaded ok offers (env ∪ offers u) us

variable {ok : Set α → υ → Prop} {offers : υ → Set α} {env env' : Set α}

@[simp] theorem threaded_nil : Threaded ok offers env [] := trivial

theorem threaded_append {us vs : List υ} :
    Threaded ok offers env (us ++ vs) ↔
      Threaded ok offers env us ∧ Threaded ok offers (env ∪ Threaded.offered offers us) vs := by
  induction us generalizing env with
  | nil => simp
  | cons u us ih => simp [Threaded, ih, and_assoc, Set.union_assoc]

theorem Threaded.at {us pre post : List υ} {u : υ} (h : Threaded ok offers env us)
    (he : us = pre ++ u :: post) : ok (env ∪ Threaded.offered offers pre) u := by
  subst he
  exact (threaded_append.mp h).2.1

def Threaded.Mono (ok : Set α → υ → Prop) : Prop :=
  ∀ (e e' : Set α) (u : υ), e ⊆ e' → ok e u → ok e' u

/-- Every item is `ok` in the scope at the end of the sequence. -/
theorem Threaded.of_mem (hok : Threaded.Mono ok) {us : List υ} {u : υ} (h : Threaded ok offers env us) (hu : u ∈ us) :
    ok (env ∪ Threaded.offered offers us) u := by
  obtain ⟨pre, post, he⟩ := List.append_of_mem hu
  refine hok _ _ u ?_ (h.at he)
  subst he
  rw [Threaded.offered_append]
  exact Set.union_subset_union_right _ Set.subset_union_left

end
