import Mathlib.Data.List.Induction

/-!
# An index that refuses to guess

Several owners may claim the same key.  A collision index remembers for each
key whether nobody claimed it, exactly one owner did, or at least two
different owners did.  The result does not depend on the order of the claims:
a key resolves to an owner exactly when that owner is the only claimant.
-/

namespace Codex.Library.CollisionIndex

variable {κ α : Type*}

/-- What an index knows about a claimed key. -/
inductive Ownership (α : Type*) where
  | unique (owner : α)
  | ambiguous
deriving DecidableEq

def claimed [DecidableEq α] : Option (Ownership α) → α → Ownership α
  | none, owner => .unique owner
  | some (.unique existing), owner => if existing = owner then .unique existing else .ambiguous
  | some .ambiguous, _ => .ambiguous

def insert [DecidableEq κ] [DecidableEq α]
    (index : κ → Option (Ownership α)) (key : κ) (owner : α) : κ → Option (Ownership α) :=
  fun asked =>
    if asked = key then some (claimed (index key) owner)
    else index asked

def build [DecidableEq κ] [DecidableEq α] (claims : List (κ × α)) : κ → Option (Ownership α) :=
  claims.foldl (fun index claim => insert index claim.1 claim.2) fun _ => none

variable (claims : List (κ × α))

/-- An owner that claims a key alone. -/
def SoleOwner (key : κ) (owner : α) : Prop := (key, owner) ∈ claims ∧
    ∀ other, (key, other) ∈ claims → other = owner

/-- What an entry of the index says about the claims of its key. -/
def Describes (key : κ) : Option (Ownership α) → Prop
  | none => ∀ other, (key, other) ∉ claims
  | some (.unique owner) => SoleOwner claims key owner
  | some .ambiguous => ∃ left right, (key, left) ∈ claims ∧ (key, right) ∈ claims ∧ left ≠ right

variable (claims : List (κ × α)) (key : κ) {entry : Option (Ownership α)} (owner : α)

theorem describes_claimed [DecidableEq α] (before : Describes claims key entry) :
    Describes (claims ++ [(key, owner)]) key (some (claimed entry owner)) := by
  cases entry with
  | none =>
    refine ⟨by simp, ?_⟩
    intro other mem
    rcases List.mem_append.mp mem with old | new
    · exact absurd old (before other)
    · simpa using new
  | some ownership =>
    cases ownership with
    | ambiguous =>
      obtain ⟨left, right, leftClaims, rightClaims, apart⟩ := before
      exact ⟨left, right, by simp [leftClaims], by simp [rightClaims], apart⟩
    | unique existing =>
      obtain ⟨claims', alone⟩ := before
      by_cases same : existing = owner
      · subst same
        simp only [claimed, if_true]
        refine ⟨by simp, ?_⟩
        intro other mem
        rcases List.mem_append.mp mem with old | new
        · exact alone other old
        · simpa using new
      · simp only [claimed, same, if_false]
        exact ⟨existing, owner, by simp [claims'], by simp, same⟩

theorem describes_append_of_ne {claimedKey : κ}
    (apart : key ≠ claimedKey) (before : Describes claims key entry) :
    Describes (claims ++ [(claimedKey, owner)]) key entry := by
  have same : ∀ other, (key, other) ∈ claims ++ [(claimedKey, owner)] ↔ (key, other) ∈ claims := by
    intro other
    simp [apart]
  cases entry with
  | none =>
    intro other
    rw [same]
    exact before other
  | some ownership =>
    cases ownership with
    | unique existing =>
      refine ⟨(same existing).mpr before.1, ?_⟩
      intro other mem
      exact before.2 other ((same other).mp mem)
    | ambiguous =>
      obtain ⟨left, right, leftClaims, rightClaims, differ⟩ := before
      exact ⟨left, right, (same left).mpr leftClaims, (same right).mpr rightClaims, differ⟩

theorem describes_build [DecidableEq κ] [DecidableEq α] :
    Describes claims key (build claims key) := by
  induction claims using List.reverseRecOn with
  | nil =>
    intro other
    simp
  | append_singleton claims claim ih =>
    obtain ⟨claimedKey, owner⟩ := claim
    have step : build (claims ++ [(claimedKey, owner)]) =
        insert (build claims) claimedKey owner := by
      simp [build]
    rw [step]
    by_cases same : key = claimedKey
    · subst same
      simp only [insert, if_true]
      exact describes_claimed claims key owner ih
    · simp only [insert, same, if_false]
      exact describes_append_of_ne claims key owner same ih

/-- A key resolves to an owner exactly when that owner claims it alone. -/
theorem build_eq_unique_iff [DecidableEq κ] [DecidableEq α] :
    build claims key = some (.unique owner) ↔ SoleOwner claims key owner := by
  have described := describes_build claims key
  constructor
  · intro found
    rwa [found] at described
  · rintro ⟨mem, alone⟩
    cases found : build claims key with
    | none =>
      rw [found] at described
      exact absurd mem (described owner)
    | some ownership =>
      rw [found] at described
      cases ownership with
      | unique existing => rw [alone existing described.1]
      | ambiguous =>
        obtain ⟨left, right, leftClaims, rightClaims, apart⟩ := described
        exact absurd ((alone left leftClaims).trans (alone right rightClaims).symm) apart

end Codex.Library.CollisionIndex
